/-
Toadb.Lib.Pipeline — cursors on top of cursors.

A node of a pipeline takes what the cursor below hands out: it adds to each item
what the state says about it (`attach`), keeps the items that pass a test
(`filter`), or makes another item of each (`through`). The last two have a
memory of their own, which the next item finds as the one before left it.
`pour` gives item after item to a sink, until it refuses one; `drain` does so
with the items of a cursor, and `feed` with those of a cursor that depends on
what the sink has become.
-/
import Toadb.Lib.Cursor
import Mathlib.Data.List.Forall2

namespace Cursor

universe u v w x
variable {σ : Type u} {α : Type v} {β : Type w} {κ : Type x}

/-! ## Nodes -/

section

variable (next : Nat → σ → Option (Option α × σ))

/-- Each item with what the state after it says of it. -/
def attach (g : σ → α → β) (fuel : Nat) (s : σ) : Option (Option β × σ) :=
  (next fuel s).map fun (a, s) => (a.map (g s), s)

/-- The next item that passes the test. -/
def filter (test : α → κ → Bool × κ) : Nat → σ × κ → Option (Option α × (σ × κ))
  | 0, _ => none
  | fuel + 1, (s, k) =>
    match next fuel s with
    | none => none
    | some (none, s) => some (none, s, k)
    | some (some a, s) =>
      match test a k with
      | (true, k) => some (some a, s, k)
      | (false, k) => filter test fuel (s, k)

/-- What is made of each item. -/
def through (f : α → κ → β × κ) (fuel : Nat) : σ × κ → Option (Option β × (σ × κ))
  | (s, k) => (next fuel s).map fun (a, s) =>
    match a with
    | none => (none, s, k)
    | some a => (some (f a k).1, s, (f a k).2)

/-- The loop that gives each item to a sink: how many it took, and whether it took all. -/
def drain {π : Type w} (sink : α → π → Option (Bool × π)) :
    Nat → σ → π → Nat → Option (Option Nat × π)
  | 0, _, _, _ => none
  | fuel + 1, s, p, taken =>
    match next fuel s with
    | none => none
    | some (none, _) => some (some taken, p)
    | some (some a, s) =>
      match sink a p with
      | none => none
      | some (false, p) => some (none, p)
      | some (true, p) => drain sink fuel s p (taken + 1)

/-- The loop that gives each item to a sink, where what comes next depends on the sink:
whether it took all, and how many. -/
def feed {π : Type w} (next : π → Nat → σ → Option (Option α × σ))
    (sink : α → π → Option (Bool × π)) :
    Nat → σ → π → Nat → Option ((Bool × Nat) × π)
  | 0, _, _, _ => none
  | fuel + 1, s, p, taken =>
    match next p fuel s with
    | none => none
    | some (none, _) => some ((true, taken), p)
    | some (some a, s) =>
      match sink a p with
      | none => none
      | some (false, p) => some ((false, taken), p)
      | some (true, p) => feed next sink fuel s p (taken + 1)

end

/-- Item after item, until one is refused. -/
def pour {π : Type w} (sink : α → π → Option (Bool × π)) : List α → π → Option (Bool × π)
  | [], p => some (true, p)
  | a :: as, p =>
    (sink a p).bind fun (ok, p) => if ok then pour sink as p else some (false, p)

/-! ## What they hand out -/

variable {next : Nat → σ → Option (Option α × σ)} {s t : σ} {as : List α}

/-- From a state with `I` every call leads to one with `I`, and an item is there what `P`
says. -/
def Keeps (next : Nat → σ → Option (Option α × σ)) (I : σ → Prop) (P : σ → α → Prop) : Prop :=
  ∀ fuel s a s', I s → next fuel s = some (a, s') → I s' ∧ ∀ x ∈ a, P s' x

theorem Keeps.returns {I : σ → Prop} {P : σ → α → Prop} {a : Option α}
    (h : Keeps next I P) (hs : I s)
    (hreturns : Returns (fun fuel => next fuel s) (a, t)) : I t ∧ ∀ x ∈ a, P t x := by
  obtain ⟨k, hk⟩ := hreturns
  exact h k s a t hs (hk k (Nat.le_refl k))

/-- The answer with one fuel less. -/
theorem Returns.succ {f : Nat → Option β} {r : β} (h : Returns f r) :
    ∃ n, ∀ fuel, n ≤ fuel → ∃ k, fuel = k + 1 ∧ f k = some r := by
  obtain ⟨n, hn⟩ := h
  exact ⟨n + 1, fun fuel hfuel => ⟨fuel - 1, by omega, hn _ (by omega)⟩⟩

/-- Each item is handed out with what the state says of it. -/
theorem Yields.attach {I : σ → Prop} {P : σ → α → Prop} (g : σ → α → β)
    (hkeeps : Keeps next I P) (h : Yields next s as t) (hs : I s) :
    ∃ bs, List.Forall₂ (fun a b => ∃ s', I s' ∧ P s' a ∧ b = g s' a) as bs ∧
      Yields (attach next g) s bs t := by
  induction h with
  | done hdone =>
    exact ⟨[], .nil,
      .done (hdone.imp fun k hk fuel hfuel => by simp [Cursor.attach, hk fuel hfuel])⟩
  | @item s s' t a as hitem _ ih =>
    obtain ⟨hs', ha⟩ := hkeeps.returns hs hitem
    obtain ⟨bs, hbs, hyields⟩ := ih hs'
    have hfirst : Returns (fun fuel => Cursor.attach next g fuel s) (some (g s' a), s') :=
      hitem.imp fun k hk fuel hfuel => by simp [Cursor.attach, hk fuel hfuel]
    exact ⟨g s' a :: bs, .cons ⟨s', hs', ha a rfl, rfl⟩ hbs, .item hfirst hyields⟩

/-- A test whose answer does not depend on the memory keeps what passes it. -/
theorem Yields.filter {test : α → κ → Bool × κ} {p : α → Bool} (h : Yields next s as t)
    (htest : ∀ a ∈ as, ∀ k, (test a k).1 = p a) (k : κ) :
    ∃ k', Yields (Cursor.filter next test) (s, k) (as.filter p) (t, k') := by
  induction h generalizing k with
  | done hdone =>
    obtain ⟨n, hn⟩ := hdone
    exact ⟨k, .done (.of_succ (k := n) fun fuel hfuel => by
      simp [Cursor.filter, hn fuel hfuel])⟩
  | @item s s' t a as hitem _ ih =>
    obtain ⟨ha, hrest⟩ := List.forall_mem_cons.mp htest
    obtain ⟨k₁, hk₁⟩ : ∃ k₁, test a k = (p a, k₁) := ⟨(test a k).2, by rw [← ha k]⟩
    obtain ⟨k', hyields⟩ := ih hrest k₁
    obtain ⟨n, hn⟩ := hitem
    refine ⟨k', ?_⟩
    cases hp : p a with
    | true =>
      rw [List.filter_cons_of_pos hp]
      rw [hp] at hk₁
      exact .item (.of_succ (k := n) fun fuel hfuel => by
        simp [Cursor.filter, hn fuel hfuel, hk₁]) hyields
    | false =>
      rw [List.filter_cons_of_neg (by simp [hp])]
      rw [hp] at hk₁
      refine .of_first (fun r hr => ?_) hyields
      obtain ⟨n', hn'⟩ := hr
      refine .of_succ (k := max n n') fun fuel hfuel => ?_
      have hnext : next fuel s = some (some a, s') := hn fuel (by omega)
      have hloop : Cursor.filter next test fuel (s', k₁) = some r := hn' fuel (by omega)
      simp [Cursor.filter, hnext, hk₁, hloop]

/-- Where the memory keeps `J`, and an item depends on nothing else of it. -/
theorem Yields.through {f : α → κ → β × κ} {g : α → β} {J : κ → Prop} (h : Yields next s as t)
    (hf : ∀ a ∈ as, ∀ k, J k → (f a k).1 = g a ∧ J (f a k).2) {k : κ} (hk : J k) :
    ∃ k', Yields (Cursor.through next f) (s, k) (as.map g) (t, k') := by
  induction h generalizing k with
  | done hdone =>
    exact ⟨k, .done (hdone.imp fun n hn fuel hfuel => by
      simp [Cursor.through, hn fuel hfuel])⟩
  | @item s s' t a as hitem _ ih =>
    obtain ⟨ha, hrest⟩ := List.forall_mem_cons.mp hf
    obtain ⟨hitem', hk'⟩ := ha k hk
    obtain ⟨k', hyields⟩ := ih hrest hk'
    exact ⟨k', .item (hitem.imp fun n hn fuel hfuel => by
      simp [Cursor.through, hn fuel hfuel, hitem']) hyields⟩

/-- A drained cursor gives the sink its items, and counts them if none is refused. -/
theorem Yields.drain {π : Type w} {sink : α → π → Option (Bool × π)} (h : Yields next s as t)
    (p : π) (taken : Nat) :
    ∃ n, ∀ fuel, n ≤ fuel → drain next sink fuel s p taken =
      (pour sink as p).map fun (ok, p) =>
        (if ok then some (taken + as.length) else none, p) := by
  induction h generalizing p taken with
  | done hdone =>
    obtain ⟨n, hn⟩ := hdone.succ
    refine ⟨n, fun fuel hfuel => ?_⟩
    obtain ⟨fuel, rfl, hnext⟩ := hn fuel hfuel
    simp [Cursor.drain, hnext, pour]
  | @item s s' t a as hitem _ ih =>
    obtain ⟨n, hn⟩ := hitem.succ
    cases hsink : sink a p with
    | none =>
      refine ⟨n, fun fuel hfuel => ?_⟩
      obtain ⟨fuel, rfl, hnext⟩ := hn fuel hfuel
      simp [Cursor.drain, hnext, pour, hsink]
    | some took =>
      obtain ⟨ok, p'⟩ := took
      cases ok with
      | false =>
        refine ⟨n, fun fuel hfuel => ?_⟩
        obtain ⟨fuel, rfl, hnext⟩ := hn fuel hfuel
        simp [Cursor.drain, hnext, pour, hsink]
      | true =>
        obtain ⟨n', hn'⟩ := ih p' (taken + 1)
        refine ⟨max n (n' + 1), fun fuel hfuel => ?_⟩
        obtain ⟨fuel, rfl, hnext⟩ := hn fuel (by omega)
        simp only [Cursor.drain, hnext, hsink, hn' fuel (by omega), pour, Option.bind_some,
          if_true, List.length_cons]
        rw [Nat.add_assoc, Nat.add_comm 1]

/-! ## One item at a time -/

section

variable {ι : Type*} {At : σ → List ι → Prop} {Now : ι → σ → α → List ι → Prop}

/-- From a state that has the items `is` before it the cursor hands out the first of them. -/
structure Serves (next : Nat → σ → Option (Option α × σ)) (At : σ → List ι → Prop)
    (Now : ι → σ → α → List ι → Prop) : Prop where
  done : ∀ s, At s [] → ∃ t, Returns (fun fuel => next fuel s) (none, t)
  item : ∀ s i is, At s (i :: is) → ∃ a t,
    Returns (fun fuel => next fuel s) (some a, t) ∧ Now i t a is
  now : ∀ i t a is, Now i t a is → At t is

/-- The items of `At` that are left when a test has dropped some. -/
def Left (At : σ → List ι → Prop) (q : ι → Bool) (s : σ × κ) (is : List ι) : Prop :=
  ∃ all, At s.1 all ∧ is = all.filter q

/-- A test whose answer depends on nothing but the item. -/
theorem Serves.filter (test : α → κ → Bool × κ) {q : ι → Bool} (h : Serves next At Now)
    (htest : ∀ i t a is, Now i t a is → ∀ k, (test a k).1 = q i) :
    Serves (Cursor.filter next test) (Left At q) fun i s a is => ∃ all,
      Now i s.1 a all ∧ is = all.filter q := by
  have hcall : ∀ all s (k : κ), At s all → match all.filter q with
      | [] => ∃ t, Returns (fun fuel => Cursor.filter next test fuel (s, k)) (none, t)
      | i :: is =>
        ∃ a t rest, Returns (fun fuel => Cursor.filter next test fuel (s, k)) (some a, t) ∧
          Now i t.1 a rest ∧ is = rest.filter q := by
    intro all
    induction all with
    | nil =>
      intro s k hs
      obtain ⟨t, n, hn⟩ := h.done s hs
      exact ⟨(t, k), .of_succ (k := n) fun fuel hfuel => by
        simp [Cursor.filter, hn fuel hfuel]⟩
    | cons i all ih =>
      intro s k hs
      obtain ⟨a, t, ⟨n, hn⟩, hnow⟩ := h.item s i all hs
      obtain ⟨k', hk'⟩ : ∃ k', test a k = (q i, k') :=
        ⟨(test a k).2, by rw [← htest i t a all hnow k]⟩
      cases hq : q i with
      | true =>
        rw [List.filter_cons_of_pos hq]
        rw [hq] at hk'
        exact ⟨a, (t, k'), all, .of_succ (k := n) fun fuel hfuel => by
          simp [Cursor.filter, hn fuel hfuel, hk'], hnow, rfl⟩
      | false =>
        rw [List.filter_cons_of_neg (by simp [hq])]
        rw [hq] at hk'
        -- the loop goes on behind the item
        have hloop : ∀ r, Returns (fun fuel => Cursor.filter next test fuel (t, k')) r →
            Returns (fun fuel => Cursor.filter next test fuel (s, k)) r := by
          rintro r ⟨n', hn'⟩
          refine .of_succ (k := max n n') fun fuel hfuel => ?_
          have hnext : next fuel s = some (some a, t) := hn fuel (by omega)
          have hrest : Cursor.filter next test fuel (t, k') = some r := hn' fuel (by omega)
          simp [Cursor.filter, hnext, hk', hrest]
        have hrest := ih t k' (h.now i t a all hnow)
        split at hrest
        · obtain ⟨last, hlast⟩ := hrest
          exact ⟨last, hloop _ hlast⟩
        · obtain ⟨b, t', rest, hb, hnow', heq⟩ := hrest
          exact ⟨b, t', rest, hloop _ hb, hnow', heq⟩
  refine ⟨?_, ?_, ?_⟩
  · rintro ⟨s, k⟩ ⟨all, hs, heq⟩
    have hend := hcall all s k hs
    rwa [← heq] at hend
  · rintro ⟨s, k⟩ i is ⟨all, hs, heq⟩
    have hfirst := hcall all s k hs
    rw [← heq] at hfirst
    obtain ⟨a, t, rest, hreturns, hnow, hrest⟩ := hfirst
    exact ⟨a, t, hreturns, rest, hnow, hrest⟩
  · rintro i ⟨t, k⟩ a is ⟨all, hnow, rfl⟩
    exact ⟨all, h.now i t a all hnow, rfl⟩

/-- All items that are left have a property. -/
theorem Serves.forall {G : ι → Prop} (h : Serves next At Now) :
    Serves next (fun s is => At s is ∧ ∀ i ∈ is, G i) fun i s a is => Now i s a is ∧
      G i ∧ ∀ i ∈ is, G i := by
  refine ⟨fun s hs => h.done s hs.1, fun s i is hs => ?_,
    fun i t a is hnow => ⟨h.now i t a is hnow.1, hnow.2.2⟩⟩
  obtain ⟨a, t, hreturns, hnow⟩ := h.item s i is hs.1
  exact ⟨a, t, hreturns, hnow, List.forall_mem_cons.mp hs.2⟩

/-- What is made of each item, where the memory keeps `J`. -/
theorem Serves.through {f : α → κ → β × κ} {J : κ → Prop} (h : Serves next At Now)
    (hf : ∀ i t a is, Now i t a is → ∀ k, J k → J (f a k).2) :
    Serves (Cursor.through next f) (fun s is => At s.1 is ∧ J s.2)
      fun i s b is => ∃ a k, Now i s.1 a is ∧ J k ∧ b = (f a k).1 ∧ s.2 = (f a k).2 := by
  refine ⟨?_, ?_, ?_⟩
  · rintro ⟨s, k⟩ ⟨hs, -⟩
    obtain ⟨t, n, hn⟩ := h.done s hs
    exact ⟨(t, k), n, fun fuel hfuel => by simp [Cursor.through, hn fuel hfuel]⟩
  · rintro ⟨s, k⟩ i is ⟨hs, hk⟩
    obtain ⟨a, t, ⟨n, hn⟩, hnow⟩ := h.item s i is hs
    exact ⟨(f a k).1, (t, (f a k).2),
      ⟨n, fun fuel hfuel => by simp [Cursor.through, hn fuel hfuel]⟩,
      a, k, hnow, hk, rfl, rfl⟩
  · rintro i ⟨t, k'⟩ b is ⟨a, k, hnow, hk, -, rfl⟩
    exact ⟨h.now i t a is hnow, hf i t a is hnow k hk⟩

end

/-! ## A sink that the cursor depends on -/

/-- What a sink becomes with each item, where `R` says what one item makes of it, and how many
it took. -/
inductive Feeds {ι : Type*} {π : Type w}
    (R : ι → π → Bool → π → Prop) : List ι → π → Bool × Nat → π → Prop
  | nil {p : π} : Feeds R [] p (true, 0) p
  | taken {i : ι} {is : List ι} {p p' last : π} {ok : Bool} {n : Nat} : R i p true p' →
      Feeds R is p' (ok, n) last →
      Feeds R (i :: is) p (ok, n + 1) last
  | refused {i : ι} {is : List ι} {p p' : π} : R i p false p' →
      Feeds R (i :: is) p (false, 0) p'

section

variable {ι κ : Type*} {π ρ : Type w} {R : ι → π → Bool → π → Prop}
  {Q : κ → ρ → Bool → ρ → Prop} {is : List ι} {p last : π}
  {ok : Bool} {n : Nat}

theorem Feeds.le (h : Feeds R is p (ok, n) last) :
    n ≤ is.length ∧ (ok = true → n = is.length) := by
  generalize hr : (ok, n) = r at h
  induction h generalizing n with
  | nil =>
    cases hr
    exact ⟨Nat.le_refl 0, fun _ => rfl⟩
  | taken _ _ ih =>
    cases hr
    obtain ⟨hle, hall⟩ := ih rfl
    exact ⟨Nat.succ_le_succ hle, fun hok => congrArg Nat.succ (hall hok)⟩
  | refused _ =>
    cases hr
    exact ⟨Nat.zero_le _, fun hok => absurd hok Bool.false_ne_true⟩

/-- The loop ends with the item that is refused, when there is one. -/
theorem Feeds.refused_last (h : Feeds R is p (false, n) last) :
    is ≠ [] ∧ ∃ i p', R i p' false last := by
  generalize hr : (false, n) = r at h
  induction h generalizing n with
  | nil => cases hr
  | taken _ _ ih =>
    cases hr
    exact ⟨List.cons_ne_nil _ _, (ih rfl).2⟩
  | @refused i is p p' hfirst => exact ⟨List.cons_ne_nil _ _, i, p, hfirst⟩

/-- A sink that refuses an item exactly when `P` is false of it takes those before the first
such item. -/
theorem Feeds.takeWhile {P : ι → Prop} [DecidablePred P]
    (hR : ∀ i p ok p', R i p ok p' → (ok = true ↔ P i)) (h : Feeds R is p (ok, n) last) :
    is.take n = is.takeWhile (fun i => P i) ∧ (ok = true ↔ ∀ i ∈ is, P i) := by
  generalize hr : (ok, n) = r at h
  induction h generalizing n with
  | nil =>
    cases hr
    exact ⟨rfl, iff_of_true rfl fun _ hmem => absurd hmem List.not_mem_nil⟩
  | @taken i is p p' last ok' n' hfirst _ ih =>
    cases hr
    obtain ⟨htake, hall⟩ := ih rfl
    have hi : P i := (hR i p true p' hfirst).mp rfl
    refine ⟨?_, by rw [List.forall_mem_cons, hall, and_iff_right hi]⟩
    rw [List.take_succ_cons, htake, List.takeWhile_cons_of_pos (by simpa using hi)]
  | @refused i is p p' hfirst =>
    cases hr
    have hi : ¬ P i := fun hi => Bool.false_ne_true ((hR i p false p' hfirst).mpr hi)
    refine ⟨?_, iff_of_false Bool.false_ne_true fun hall => hi (hall i List.mem_cons_self)⟩
    rw [List.take_zero, List.takeWhile_cons_of_neg (by simpa using hi)]

/-- A sink that gives the parts of each item to another one. -/
theorem Feeds.parts (parts : ι → List κ) (state : π → ρ)
    (hR : ∀ i p ok p', R i p ok p' → ∃ m, Feeds Q (parts i) (state p) (ok, m) (state p'))
    (h : Feeds R is p (ok, n) last) :
    ∃ m, Feeds Q (is.flatMap parts) (state p) (ok, m) (state last) := by
  have happend : ∀ {ks ks' : List κ} {q q' q'' : ρ} {r : Bool × Nat} {ok : Bool} {m : Nat},
      Feeds Q ks q r q' →
      r.1 = true → Feeds Q ks' q' (ok, m) q'' → ∃ m', Feeds Q (ks ++ ks') q (ok, m') q'' := by
    intro ks ks' q q' q'' r ok m hfirst hr hrest
    induction hfirst with
    | nil => exact ⟨m, hrest⟩
    | taken hk _ ih =>
      obtain ⟨m', hm'⟩ := ih hr hrest
      exact ⟨m' + 1, .taken hk hm'⟩
    | refused _ => cases hr
  have hrefused : ∀ {ks : List κ} (ks' : List κ) {q q' : ρ} {r : Bool × Nat},
      Feeds Q ks q r q' → r.1 = false →
      Feeds Q (ks ++ ks') q r q' := by
    intro ks ks' q q' r hks hr
    induction hks with
    | nil => cases hr
    | taken hk _ ih => exact .taken hk (ih hr)
    | refused hk => exact .refused hk
  generalize hr : (ok, n) = r at h
  induction h generalizing n with
  | nil =>
    cases hr
    exact ⟨0, .nil⟩
  | @taken i is p p' last ok' n' hfirst _ ih =>
    cases hr
    obtain ⟨m, hparts⟩ := hR i p true p' hfirst
    obtain ⟨m', hrest⟩ := ih rfl
    exact happend hparts rfl hrest
  | @refused i is p p' hfirst =>
    cases hr
    obtain ⟨m, hparts⟩ := hR i p false p' hfirst
    exact ⟨m, hrefused _ hparts rfl⟩

end

/-- The loop, from a state and a sink that have the items `is` before them. -/
theorem feed_returns {ι : Type*} {π : Type w} (next : π → Nat → σ → Option (Option α × σ))
    (sink : α → π → Option (Bool × π))
    (At : σ → π → List ι → Prop) {R : ι → π → Bool → π → Prop}
    (hdone : ∀ s p, At s p [] → ∃ t, Returns (fun fuel => next p fuel s) (none, t))
    (hitem : ∀ s p i is, At s p (i :: is) → ∃ a t ok p',
      Returns (fun fuel => next p fuel s) (some a, t) ∧
      sink a p = some (ok, p') ∧ R i p ok p' ∧
        (ok = true → At t p' is)) {is : List ι} {s : σ} {p : π} (h : At s p is)
    (taken : Nat) :
    ∃ ok n last, Returns (fun fuel => feed next sink fuel s p taken) ((ok, taken + n), last) ∧
      Feeds R is p (ok, n) last := by
  induction is generalizing s p taken with
  | nil =>
    obtain ⟨t, n, hn⟩ := hdone s p h
    exact ⟨true, 0, p, .of_succ (k := n) fun fuel hfuel => by
      simp [feed, hn fuel hfuel], .nil⟩
  | cons i is ih =>
    obtain ⟨a, t, ok, p', ⟨n, hn⟩, hsink, hR, hnext⟩ := hitem s p i is h
    cases ok with
    | false =>
      exact ⟨false, 0, p', .of_succ (k := n) fun fuel hfuel => by
        simp [feed, hn fuel hfuel, hsink], .refused hR⟩
    | true =>
      obtain ⟨ok, m, last, ⟨n', hn'⟩, hfeeds⟩ := ih (hnext rfl) (taken + 1)
      refine ⟨ok, m + 1, last, .of_succ (k := max n n') fun fuel hfuel => ?_,
        .taken hR hfeeds⟩
      have hfirst : next p fuel s = some (some a, t) := hn fuel (by omega)
      have hrest : feed next sink fuel t p' (taken + 1) = some ((ok, taken + 1 + m), last) :=
        hn' fuel (by omega)
      rw [feed, hfirst]
      simp only [hsink, hrest]
      rw [Nat.add_assoc, Nat.add_comm 1]

end Cursor
