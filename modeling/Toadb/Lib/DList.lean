/-
Toadb.Lib.DList — linked nodes and the lists they make.

The links of nodes are functions from nodes to nodes. `Seg next a l b` says that following
`next` from `a` visits the nodes of `l` one after the other and arrives at `b`.

  * `Seg.append`, `Seg.split` — segments compose and come apart;
  * `Seg.congr`               — only the links of the nodes visited matter;
  * `Seg.nodup`, `Seg.relink` — no node twice, and another node behind the last one;
  * `Seg.unique`              — a segment that ends where it stops is the only one;
  * `Seg.continues`           — of two segments from one node one is the start of the other.

`Ring next prev a l` says that the nodes of `l` are a ring that starts at `a` and is linked in
both directions.

  * `Ring.insert` — a node linked in behind another one (`LinkedIn`);
  * `Ring.erase`  — a node cut out behind another one (`CutOut`);
  * `Ring.insert_update`, `Ring.append_update`, `Ring.erase_update` — the writes that do so;
  * `Ring.rotate` — the same ring from its second node on.

`Rings next prev lists` says that each list is a ring, and that they share no node.

  * `Rings.sub`, `Rings.set` — fewer lists, and another list in place of one.

Nothing here names a particular list.
-/
import Mathlib.Logic.Function.Basic
import Mathlib.Data.List.Nodup

namespace DList

variable {α : Type*} {next next' : α → α} {a b c : α} {l l' : List α}

/-- From `a` on the nodes visited are `l`, and the next one is `b`. -/
inductive Seg (next : α → α) : α → List α → α → Prop
  | nil (a : α) : Seg next a [] a
  | cons {a b : α} {l : List α} : Seg next (next a) l b → Seg next a (a :: l) b

theorem seg_nil_iff : Seg next a [] b ↔ a = b := by
  constructor
  · intro h
    cases h
    rfl
  · rintro rfl
    exact .nil a

theorem seg_cons_iff : Seg next a (c :: l) b ↔ a = c ∧ Seg next (next a) l b := by
  constructor
  · intro h
    cases h with
    | cons h => exact ⟨rfl, h⟩
  · rintro ⟨rfl, h⟩
    exact .cons h

theorem Seg.append (h : Seg next a l b) (h' : Seg next b l' c) : Seg next a (l ++ l') c := by
  induction h with
  | nil => exact h'
  | cons _ ih => exact .cons (ih h')

theorem Seg.split (h : Seg next a (l ++ c :: l') b) :
    Seg next a l c ∧ Seg next c (c :: l') b := by
  induction l generalizing a with
  | nil =>
    obtain ⟨rfl, -⟩ := seg_cons_iff.mp h
    exact ⟨.nil a, h⟩
  | cons d l ih =>
    obtain ⟨rfl, htail⟩ := seg_cons_iff.mp h
    exact ⟨.cons (ih htail).1, (ih htail).2⟩

/-- Only the links of the nodes visited matter. -/
theorem Seg.congr (h : Seg next a l b) (heq : ∀ x ∈ l, next' x = next x) :
    Seg next' a l b := by
  induction h with
  | nil a => exact .nil a
  | @cons a b l _ ih =>
    rw [List.forall_mem_cons] at heq
    exact .cons (heq.1 ▸ ih heq.2)

/-- The segment up to the first visit of its end is the only one. -/
theorem Seg.unique (h : Seg next a l b) (h' : Seg next a l' b) (hb : b ∉ l) (hb' : b ∉ l') :
    l = l' := by
  induction h generalizing l' with
  | nil a =>
    cases h' with
    | nil => rfl
    | cons h' => exact absurd List.mem_cons_self hb'
  | @cons a b l _ ih =>
    cases h' with
    | nil => exact absurd List.mem_cons_self hb
    | cons h' =>
      rw [ih h' (List.not_mem_of_not_mem_cons hb) (List.not_mem_of_not_mem_cons hb')]

/-- A segment that does not meet the end of another one from the same node is the start of
it. -/
theorem Seg.continues (h : Seg next a l b) (h' : Seg next a l' c) (hc : c ∉ l) :
    ∃ l'', l' = l ++ l'' ∧ Seg next b l'' c := by
  induction h generalizing l' with
  | nil a => exact ⟨l', rfl, h'⟩
  | @cons a b l _ ih =>
    cases h' with
    | nil => exact absurd List.mem_cons_self hc
    | cons h' =>
      obtain ⟨l'', rfl, hrest⟩ := ih h' (List.not_mem_of_not_mem_cons hc)
      exact ⟨l'', rfl, hrest⟩

/-- A segment that does not meet its end visits no node twice. -/
theorem Seg.nodup (h : Seg next a l b) (hb : b ∉ l) : l.Nodup := by
  induction h with
  | nil a => exact List.nodup_nil
  | @cons a b l h ih =>
    have hrest := List.not_mem_of_not_mem_cons hb
    refine List.nodup_cons.mpr ⟨fun hmem => ?_, ih hrest⟩
    obtain ⟨p, s, rfl⟩ := List.append_of_mem hmem
    obtain ⟨-, htail⟩ := h.split
    have heq := Seg.unique (.cons h) htail hb (fun hs => hrest (List.mem_append_right p hs))
    have hlen := congrArg List.length heq
    simp at hlen
    omega

/-- The last node is linked to another one. -/
theorem Seg.relink {x : α} (h : Seg next a (l ++ [x]) b)
    (hother : ∀ y ∈ l, next' y = next y) :
    Seg next' a (l ++ [x]) (next' x) := by
  obtain ⟨hfront, -⟩ := h.split
  exact (hfront.congr hother).append (.cons (.nil _))

/-- The node after any of the segment is the next one of it, or its end. -/
theorem Seg.next_mem (h : Seg next a l b) {x : α} (hx : x ∈ l) : next x = b ∨ next x ∈ l := by
  obtain ⟨p, s, rfl⟩ := List.append_of_mem hx
  obtain ⟨-, htail⟩ := h.split
  rw [seg_cons_iff] at htail
  cases htail.2 with
  | nil => exact .inl rfl
  | cons _ => exact .inr (by simp)

/-- The nodes of `l`, from `a` on, are a ring that is linked in both directions. -/
structure Ring (next prev : α → α) (a : α) (l : List α) : Prop where
  seg : Seg next a l a
  nodup : l.Nodup
  back : ∀ x ∈ l, prev (next x) = x

/-- The links after `new` is linked in behind `x`. -/
structure LinkedIn (next prev next' prev' : α → α) (x new : α) : Prop where
  next_node : next' x = new
  next_new : next' new = next x
  next_other : ∀ y, y ≠ x → y ≠ new → next' y = next y
  prev_new : prev' new = x
  prev_node : prev' (next x) = new
  prev_other : ∀ y, y ≠ new → y ≠ next x → prev' y = prev y

/-- The links after `cut`, which comes after `x`, is taken out. -/
structure CutOut (next prev next' prev' : α → α) (x cut : α) : Prop where
  next_node : next' x = next cut
  next_other : ∀ y, y ≠ x → y ≠ cut → next' y = next y
  prev_node : prev' (next cut) = x
  prev_other : ∀ y, y ≠ next cut → y ≠ cut → prev' y = prev y

/-- The four links written when a node is linked in. -/
theorem linkedIn_update [DecidableEq α] {prev : α → α} {x new : α} (hx : x ≠ new)
    (hnext : next x ≠ new) :
    LinkedIn next prev (Function.update (Function.update next new (next x)) x new)
      (Function.update (Function.update prev new x) (next x) new) x new where
  next_node := by simp
  next_new := by simp [hx.symm]
  next_other y hy hnew := by simp [hy, hnew]
  prev_new := by simp [hnext.symm]
  prev_node := by simp
  prev_other y hnew hy := by simp [hy, hnew]

/-- The links written when a node is taken out, and linked to itself. -/
theorem cutOut_update [DecidableEq α] {prev : α → α} {x cut : α} (hx : x ≠ cut)
    (hnext : next cut ≠ cut) :
    CutOut next prev (Function.update (Function.update next x (next cut)) cut cut)
      (Function.update (Function.update prev (next cut) x) cut cut) x cut where
  next_node := by simp [hx]
  next_other y hy hcut := by simp [hy, hcut]
  prev_node := by simp [hnext]
  prev_other y hy hcut := by simp [hy, hcut]

section Ring

variable {prev prev' : α → α} {x y new cut : α} {p s : List α}

theorem mem_middle : y ∈ p ++ x :: s ↔ y = x ∨ y ∈ p ++ s := by
  simp only [List.mem_append, List.mem_cons]
  tauto

theorem nodup_middle : (p ++ x :: s).Nodup ↔ x ∉ p ++ s ∧ (p ++ s).Nodup := by
  rw [List.perm_middle.nodup_iff, List.nodup_cons]

theorem ring_nil (next prev : α → α) (a : α) : Ring next prev a [] :=
  ⟨.nil a, List.nodup_nil, nofun⟩

/-- A node alone. -/
theorem ring_singleton (hnext : next a = a) (hprev : prev a = a) : Ring next prev a [a] where
  seg := .cons (by rw [hnext]; exact .nil a)
  nodup := List.nodup_singleton a
  back x hx := by
    obtain rfl := List.mem_singleton.mp hx
    rw [hnext, hprev]

/-- Two nodes that are linked to each other. -/
theorem ring_pair (hne : a ≠ b) (hnext : next a = b) (hnext' : next b = a)
    (hprev : prev b = a) (hprev' : prev a = b) :
    Ring next prev a [a, b] where
  seg := by
    refine .cons ?_
    rw [hnext]
    refine .cons ?_
    rw [hnext']
    exact .nil a
  nodup := by simp [hne]
  back x hx := by
    obtain rfl | hx := List.mem_cons.mp hx
    · rw [hnext, hprev]
    · obtain rfl := List.mem_singleton.mp hx
      rw [hnext', hprev']

theorem Ring.head_eq (h : Ring next prev a (x :: s)) : a = x := (seg_cons_iff.mp h.seg).1

theorem Ring.head_mem (h : Ring next prev a l) (hne : l ≠ []) : a ∈ l := by
  cases l with
  | nil => exact absurd rfl hne
  | cons x s =>
    rw [h.head_eq]
    exact List.mem_cons_self

theorem Ring.next_mem (h : Ring next prev a l) (hx : x ∈ l) : next x ∈ l := by
  obtain hend | hmem := h.seg.next_mem hx
  · rw [hend]
    exact h.head_mem (List.ne_nil_of_mem hx)
  · exact hmem

theorem Ring.next_inj (h : Ring next prev a l) (hx : x ∈ l) (hy : y ∈ l)
    (heq : next x = next y) :
    x = y := by
  rw [← h.back x hx, ← h.back y hy, heq]

theorem Ring.adjacent (h : Ring next prev a (p ++ x :: y :: s)) :
    next x = y ∧ prev y = x := by
  obtain ⟨-, htail⟩ := h.seg.split
  have hnext := (seg_cons_iff.mp (seg_cons_iff.mp htail).2).1
  refine ⟨hnext, ?_⟩
  rw [← hnext]
  exact h.back x (by simp)

theorem Ring.last (h : Ring next prev a (p ++ [x])) : next x = a ∧ prev a = x := by
  obtain ⟨-, htail⟩ := h.seg.split
  have hnext := seg_nil_iff.mp (seg_cons_iff.mp htail).2
  refine ⟨hnext, ?_⟩
  nth_rewrite 1 [← hnext]
  exact h.back x (by simp)

theorem Ring.prev_mem (h : Ring next prev a l) (hx : x ∈ l) : prev x ∈ l := by
  obtain ⟨p, s, rfl⟩ := List.append_of_mem hx
  obtain rfl | ⟨p, y, rfl⟩ := p.eq_nil_or_concat
  · -- The first node comes after the last one.
    obtain rfl := h.head_eq
    obtain ⟨p, y, hlast⟩ := (List.eq_nil_or_concat (a :: s)).resolve_left nofun
    rw [List.nil_append, hlast] at h ⊢
    rw [List.concat_eq_append] at h ⊢
    rw [h.last.2]
    simp
  · rw [List.concat_eq_append, List.append_assoc, List.singleton_append] at h ⊢
    rw [h.adjacent.2]
    simp

/-- A node behind another one is linked to itself in neither direction. -/
theorem Ring.not_self (h : Ring next prev a (p ++ x :: y :: s)) :
    prev y ≠ y ∧ next y ≠ y := by
  have hprev : prev y ≠ y := by
    rw [h.adjacent.2]
    rintro rfl
    exact (nodup_middle.mp h.nodup).1 (by simp)
  refine ⟨hprev, fun hnext => hprev ?_⟩
  have hback := h.back y (by simp)
  rwa [hnext] at hback

/-- There is a node in front of whatever comes behind the first one. -/
theorem cons_append_eq (a : α) (l : List α) : ∃ p x, ∀ s, a :: (l ++ s) = p ++ x :: s := by
  obtain ⟨p, x, hsplit⟩ :=
    (List.eq_nil_or_concat' (a :: l)).resolve_left (List.cons_ne_nil a l)
  exact ⟨p, x, fun s => by
    rw [← List.cons_append, hsplit, List.append_assoc, List.singleton_append]⟩

/-- A node behind the first one is linked to itself in neither direction. -/
theorem Ring.not_alone (h : Ring next prev a (a :: (l ++ y :: s))) :
    prev y ≠ y ∧ next y ≠ y := by
  obtain ⟨p, x, hsplit⟩ := cons_append_eq a l
  rw [hsplit] at h
  exact h.not_self

/-- The ring from the second node on. -/
theorem Ring.rotate (h : Ring next prev a (a :: l)) : Ring next prev (next a) (l ++ [a]) where
  seg := (seg_cons_iff.mp h.seg).2.append (.cons (.nil _))
  nodup := (List.perm_append_singleton a l).nodup_iff.mpr h.nodup
  back x hx := h.back x ((List.perm_append_singleton a l).mem_iff.mp hx)

/-- Only the links of the nodes of the ring matter. -/
theorem Ring.congr (h : Ring next prev a l) (hnext : ∀ x ∈ l, next' x = next x)
    (hprev : ∀ x ∈ l, prev' x = prev x) : Ring next' prev' a l where
  seg := h.seg.congr hnext
  nodup := h.nodup
  back x hx := by rw [hnext x hx, hprev _ (h.next_mem hx), h.back x hx]

/-- A node linked in behind one of a ring is in the ring. -/
theorem Ring.insert (h : Ring next prev a (p ++ x :: s))
    (hlink : LinkedIn next prev next' prev' x new) (hnew : new ∉ p ++ x :: s) :
    Ring next' prev' a (p ++ x :: new :: s) := by
  obtain ⟨hfront, htail⟩ := h.seg.split
  obtain ⟨-, hrest⟩ := seg_cons_iff.mp htail
  have hx : x ∉ p ++ s := (nodup_middle.mp h.nodup).1
  have hother : ∀ y ∈ p ++ s, y ≠ x ∧ y ≠ new := fun y hy =>
    ⟨fun heq => hx (heq ▸ hy), fun heq => hnew (mem_middle.mpr (.inr (heq ▸ hy)))⟩
  have hkeep : ∀ y ∈ p ++ s, next' y = next y :=
    fun y hy => hlink.next_other y (hother y hy).1 (hother y hy).2
  have hassoc : p ++ x :: new :: s = (p ++ [x]) ++ new :: s := by simp
  refine ⟨?_, ?_, ?_⟩
  · refine (hfront.congr fun y hy => hkeep y (List.mem_append_left _ hy)).append (.cons ?_)
    rw [hlink.next_node]
    refine .cons ?_
    rw [hlink.next_new]
    exact hrest.congr fun y hy => hkeep y (List.mem_append_right _ hy)
  · rw [hassoc, nodup_middle, List.append_assoc]
    exact ⟨hnew, h.nodup⟩
  · intro y hy
    rw [hassoc, mem_middle, List.append_assoc, List.singleton_append, mem_middle] at hy
    obtain rfl | rfl | hy := hy
    · rw [hlink.next_new, hlink.prev_node]
    · rw [hlink.next_node, hlink.prev_new]
    · have hmem : y ∈ p ++ x :: s := mem_middle.mpr (.inr hy)
      have hne : next y ≠ next x :=
        fun heq => (hother y hy).1 (h.next_inj hmem (mem_middle.mpr (.inl rfl)) heq)
      have hold : next y ≠ new := fun heq => hnew (heq ▸ h.next_mem hmem)
      rw [hkeep y hy, hlink.prev_other _ hold hne, h.back y hmem]

/-- A ring without a node that is not its first. -/
theorem Ring.erase (h : Ring next prev a (p ++ x :: cut :: s))
    (hcut : CutOut next prev next' prev' x cut) : Ring next' prev' a (p ++ x :: s) := by
  have hadj := h.adjacent
  obtain ⟨hfront, htail⟩ := h.seg.split
  obtain ⟨-, hrest⟩ := seg_cons_iff.mp (seg_cons_iff.mp htail).2
  have hassoc : p ++ x :: cut :: s = (p ++ [x]) ++ cut :: s := by simp
  have hshort : (p ++ [x]) ++ s = p ++ x :: s := by simp
  have hcutNot : cut ∉ p ++ x :: s ∧ (p ++ x :: s).Nodup := by
    have hnodup := h.nodup
    rwa [hassoc, nodup_middle, hshort] at hnodup
  have hx : x ∉ p ++ s := (nodup_middle.mp hcutNot.2).1
  have hother : ∀ y ∈ p ++ s, y ≠ x ∧ y ≠ cut := fun y hy =>
    ⟨fun heq => hx (heq ▸ hy), fun heq => hcutNot.1 (mem_middle.mpr (.inr (heq ▸ hy)))⟩
  have hkeep : ∀ y ∈ p ++ s, next' y = next y :=
    fun y hy => hcut.next_other y (hother y hy).1 (hother y hy).2
  refine ⟨?_, hcutNot.2, ?_⟩
  · rw [hadj.1] at hrest
    refine (hfront.congr fun y hy => hkeep y (List.mem_append_left _ hy)).append (.cons ?_)
    rw [hcut.next_node]
    exact hrest.congr fun y hy => hkeep y (List.mem_append_right _ hy)
  · intro y hy
    obtain rfl | hy := mem_middle.mp hy
    · rw [hcut.next_node, hcut.prev_node]
    · have hmem : ∀ z ∈ p ++ x :: s, z ∈ p ++ x :: cut :: s := by
        intro z hz
        rw [hassoc, mem_middle, hshort]
        exact .inr hz
      have hy' := hmem y (mem_middle.mpr (.inr hy))
      have hx' := hmem x (mem_middle.mpr (.inl rfl))
      have hne : next y ≠ next cut :=
        fun heq => (hother y hy).2 (h.next_inj hy' (by simp) heq)
      have hold : next y ≠ cut := by
        rw [← hadj.1]
        exact fun heq => (hother y hy).1 (h.next_inj hy' hx' heq)
      rw [hkeep y hy, hcut.prev_other _ hne hold, h.back y hy']

/-- The four links are written, and the node is in the ring. -/
theorem Ring.insert_update [DecidableEq α] (h : Ring next prev a (p ++ x :: s))
    (hnew : new ∉ p ++ x :: s) :
    Ring (Function.update (Function.update next new (next x)) x new)
      (Function.update (Function.update prev new x) (next x) new) a (p ++ x :: new :: s) := by
  have hx : x ∈ p ++ x :: s := by simp
  exact h.insert (linkedIn_update (ne_of_mem_of_not_mem hx hnew)
    (ne_of_mem_of_not_mem (h.next_mem hx) hnew)) hnew

/-- The links at both ends are written, and the node is the last one of the ring. -/
theorem Ring.append_update [DecidableEq α] (h : Ring next prev a (a :: l))
    (hnew : new ∉ a :: l) :
    Ring (Function.update (Function.update next new a) (prev a) new)
      (Function.update (Function.update prev new (prev a)) a new) a (a :: (l ++ [new])) := by
  obtain ⟨p, x, hsplit⟩ := cons_append_eq a l
  have hlast : a :: l = p ++ [x] := by rw [← hsplit, List.append_nil]
  rw [hlast] at h hnew
  have hinsert := h.insert_update hnew
  rw [h.last.1, ← h.last.2] at hinsert
  rw [hsplit, ← h.last.2]
  exact hinsert

/-- The links are written, and the node is out of the ring. -/
theorem Ring.erase_update [DecidableEq α] (h : Ring next prev a (a :: (l ++ cut :: s))) :
    Ring (Function.update (Function.update next (prev cut) (next cut)) cut cut)
      (Function.update (Function.update prev (next cut) (prev cut)) cut cut) a
      (a :: (l ++ s)) := by
  obtain ⟨hprev, hnext⟩ := h.not_alone
  obtain ⟨p, x, hsplit⟩ := cons_append_eq a l
  rw [hsplit] at h ⊢
  rw [h.adjacent.2] at hprev ⊢
  exact h.erase (cutOut_update hprev hnext)

end Ring

/-! ## Many rings -/

section Rings

variable {prev prev' : α → α} {lists lists' : α → Option (List α)}

/-- Each list and its first node are a ring, and no node is in two. A node that is not the
first of a list has none. -/
structure Rings (next prev : α → α) (lists : α → Option (List α)) : Prop where
  ring : ∀ a l, lists a = some l → Ring next prev a (a :: l)
  apart : ∀ a l b k x, lists a = some l → lists b = some k → x ∈ a :: l → x ∈ b :: k → a = b

/-- Only the links of the nodes of the lists matter, and there may be fewer lists. -/
theorem Rings.sub (h : Rings next prev lists)
    (hsub : ∀ a l, lists' a = some l → lists a = some l)
    (hsame : ∀ a l, lists' a = some l → ∀ x ∈ a :: l, next' x = next x ∧ prev' x = prev x) :
    Rings next' prev' lists' where
  ring a l ha := (h.ring a l (hsub a l ha)).congr (fun x hx => (hsame a l ha x hx).1)
    fun x hx => (hsame a l ha x hx).2
  apart a l b k x ha hb := h.apart a l b k x (hsub a l ha) (hsub b k hb)

/-- One list is another one, of nodes that are in no other list, and the links of these
stay. -/
theorem Rings.set [DecidableEq α] (h : Rings next prev lists)
    (hring : Ring next' prev' a (a :: l))
    (hown : ∀ x ∈ a :: l, ∀ b k, lists b = some k → x ∈ b :: k → b = a)
    (hframe : ∀ b k, lists b = some k → b ≠ a → ∀ x ∈ b :: k,
      next' x = next x ∧ prev' x = prev x) :
    Rings next' prev' (Function.update lists a (some l)) where
  ring b k hb := by
    by_cases hba : b = a
    · rw [hba, Function.update_self] at hb
      obtain rfl := Option.some.inj hb
      rw [hba]
      exact hring
    · rw [Function.update_of_ne hba] at hb
      have hsame := hframe b k hb hba
      exact (h.ring b k hb).congr (fun x hx => (hsame x hx).1) fun x hx => (hsame x hx).2
  apart b k b' k' x hb hb' hx hx' := by
    by_cases hba : b = a
    · by_cases hba' : b' = a
      · rw [hba, hba']
      · rw [hba, Function.update_self] at hb
        obtain rfl := Option.some.inj hb
        rw [Function.update_of_ne hba'] at hb'
        exact hba.trans (hown x (hba ▸ hx) b' k' hb' hx').symm
    · rw [Function.update_of_ne hba] at hb
      by_cases hba' : b' = a
      · rw [hba', Function.update_self] at hb'
        obtain rfl := Option.some.inj hb'
        exact (hown x (hba' ▸ hx') b k hb hx).trans hba'.symm
      · rw [Function.update_of_ne hba'] at hb'
        exact h.apart b k b' k' x hb hb' hx hx'

theorem not_mem_set [DecidableEq α] {x : α} (h : ∀ b k, lists b = some k → x ∉ b :: k)
    (hx : x ∉ a :: l) {b : α} {k : List α}
    (hb : Function.update lists a (some l) b = some k) : x ∉ b :: k := by
  by_cases hba : b = a
  · rw [hba, Function.update_self] at hb
    obtain rfl := Option.some.inj hb
    rwa [hba]
  · rw [Function.update_of_ne hba] at hb
    exact h b k hb

end Rings

end DList
