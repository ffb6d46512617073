/-
Toadb.Lib.Framing — messages framed in a byte stream.

A `Framing` is an encoder of messages together with the decoder that takes the
first message off the front of a stream, and the one law that ties them:
`next bs = some (a, r)` exactly when `bs` starts with the encoding of the valid
message `a` and goes on with `r`.

  * `drain` takes every complete message off, and leaves a `pending` tail;
    `drain_append` says that a stream may be drained in pieces;
  * `next_of_prefix` is the case split of a receiver that has read a part of a
    valid stream: the first message is there, or the part is shorter than it.

Nothing here names a particular format.
-/
import Mathlib.Data.List.Basic
import Mathlib.Tactic.Common

universe u v

/-- An encoder, and the decoder of the first message of a stream. -/
structure Framing (α : Type u) (β : Type v) where
  encode : α → List β
  next : List β → Option (α × List β)
  Valid : α → Prop
  encode_ne_nil : ∀ a, encode a ≠ []
  next_eq_some : ∀ {bs a r}, next bs = some (a, r) ↔ Valid a ∧ bs = encode a ++ r

namespace Framing

variable {α : Type u} {β : Type v} (F : Framing α β)

/-! ## Streams of messages -/

/-- The stream of a list of messages. -/
def encodeAll (as : List α) : List β := as.flatMap F.encode

@[simp] theorem encodeAll_nil : F.encodeAll [] = [] := rfl

@[simp] theorem encodeAll_cons (a : α) (as : List α) :
    F.encodeAll (a :: as) = F.encode a ++ F.encodeAll as := rfl

@[simp] theorem encodeAll_append (as bs : List α) :
    F.encodeAll (as ++ bs) = F.encodeAll as ++ F.encodeAll bs := by
  simp [encodeAll]

theorem length_encode_pos (a : α) : 0 < (F.encode a).length :=
  List.length_pos_of_ne_nil (F.encode_ne_nil a)

theorem next_encode {a : α} (h : F.Valid a) (r : List β) :
    F.next (F.encode a ++ r) = some (a, r) :=
  F.next_eq_some.mpr ⟨h, rfl⟩

@[simp] theorem next_nil : F.next [] = none := by
  rw [Option.eq_none_iff_forall_ne_some]
  rintro ⟨a, r⟩ h
  have hlen := congrArg List.length (F.next_eq_some.mp h).2
  have hpos := F.length_encode_pos a
  simp at hlen
  omega

theorem length_lt_of_next {bs r : List β} {a : α} (h : F.next bs = some (a, r)) :
    r.length < bs.length := by
  have hpos := F.length_encode_pos a
  rw [(F.next_eq_some.mp h).2, List.length_append]
  omega

/-- More bytes behind a complete message do not change it. -/
theorem next_append {bs r : List β} {a : α} (h : F.next bs = some (a, r)) (cs : List β) :
    F.next (bs ++ cs) = some (a, r ++ cs) := by
  obtain ⟨hv, rfl⟩ := F.next_eq_some.mp h
  rw [List.append_assoc]
  exact F.next_encode hv (r ++ cs)

/-- The message that `cs` completes ends in `cs`. -/
theorem length_le_of_next {bs cs r : List β} {a : α} (hnone : F.next bs = none)
    (h : F.next (bs ++ cs) = some (a, r)) : r.length ≤ cs.length := by
  obtain ⟨hv, heq⟩ := F.next_eq_some.mp h
  rcases List.append_eq_append_iff.mp heq with ⟨t, -, hcs⟩ | ⟨s, hbs, -⟩
  · rw [hcs, List.length_append]
    omega
  · rw [hbs, F.next_encode hv s] at hnone
    cases hnone

/-- A receiver that holds the front `bs` of a valid stream holds its first message, or
less than that. -/
theorem next_of_prefix {bs cs : List β} {a : α} {as : List α} (hv : F.Valid a)
    (h : bs ++ cs = F.encodeAll (a :: as)) :
    (∃ r, F.next bs = some (a, r) ∧ r ++ cs = F.encodeAll as) ∨
      (F.next bs = none ∧ ∃ t, t ≠ [] ∧ F.encode a = bs ++ t ∧ cs = t ++ F.encodeAll as) := by
  rw [encodeAll_cons] at h
  rcases List.append_eq_append_iff.mp h with ⟨t, ht, hcs⟩ | ⟨r, hr, has⟩
  · by_cases hnil : t = []
    · subst hnil
      refine .inl ⟨[], ?_, ?_⟩
      · rw [List.append_nil] at ht
        rw [← ht]
        simpa using F.next_encode hv []
      · simpa using hcs
    · refine .inr ⟨?_, t, hnil, ht, hcs⟩
      cases hn : F.next bs with
      | none => rfl
      | some p =>
        obtain ⟨b, r⟩ := p
        -- the longer stream decodes to the same message, with nothing behind it
        have hlong := F.next_append hn t
        have hself := F.next_encode hv []
        rw [List.append_nil, ht, hlong] at hself
        have hempty : r ++ t = [] := congrArg Prod.snd (Option.some.inj hself)
        exact absurd (List.append_eq_nil_iff.mp hempty).2 hnil
  · exact .inl ⟨r, F.next_eq_some.mpr ⟨hv, hr⟩, has.symm⟩

/-! ## Taking every complete message off -/

/-- At most `n` messages off the front of a stream. -/
def drainFuel : Nat → List β → List α × List β
  | 0, bs => ([], bs)
  | n + 1, bs =>
    match F.next bs with
    | none => ([], bs)
    | some (a, r) => (a :: (drainFuel n r).1, (drainFuel n r).2)

/-- Every complete message of a stream, and the tail that holds none. -/
def drain (bs : List β) : List α × List β := F.drainFuel bs.length bs

/-- The tail of a stream behind its last complete message. -/
def pending (bs : List β) : List β := (F.drain bs).2

/-- Fuel beyond the stream's length changes nothing. -/
theorem drainFuel_eq {n : Nat} {bs : List β} (h : bs.length ≤ n) :
    F.drainFuel n bs = F.drain bs := by
  suffices hall : ∀ n m bs, bs.length ≤ n → bs.length ≤ m →
      F.drainFuel n bs = F.drainFuel m bs from
    hall n bs.length bs h (Nat.le_refl _)
  intro n
  induction n with
  | zero =>
    intro m bs hn _
    have hnil : bs = [] := List.length_eq_zero_iff.mp (by omega)
    subst hnil
    cases m <;> simp [drainFuel]
  | succ n ih =>
    intro m bs hn hm
    cases m with
    | zero =>
      have hnil : bs = [] := List.length_eq_zero_iff.mp (by omega)
      subst hnil
      simp [drainFuel]
    | succ m =>
      cases hnext : F.next bs with
      | none => simp [drainFuel, hnext]
      | some p =>
        obtain ⟨a, r⟩ := p
        have hlt := F.length_lt_of_next hnext
        simp only [drainFuel, hnext]
        rw [ih m r (by omega) (by omega)]

theorem drain_of_none {bs : List β} (h : F.next bs = none) : F.drain bs = ([], bs) := by
  rw [drain]
  cases bs with
  | nil => rfl
  | cons b bs => simp [drainFuel, h]

theorem drain_of_some {bs r : List β} {a : α} (h : F.next bs = some (a, r)) :
    F.drain bs = (a :: (F.drain r).1, (F.drain r).2) := by
  have hlt := F.length_lt_of_next h
  obtain ⟨k, hk⟩ : ∃ k, bs.length = k + 1 ∧ r.length ≤ k := ⟨bs.length - 1, by omega⟩
  rw [drain, hk.1, drainFuel, h]
  simp only [F.drainFuel_eq hk.2]

@[simp] theorem drain_nil : F.drain [] = ([], []) := F.drain_of_none F.next_nil

/-- A valid stream in front comes out message by message. -/
theorem drain_encodeAll_append {as : List α} (hv : ∀ a ∈ as, F.Valid a) (r : List β) :
    F.drain (F.encodeAll as ++ r) = (as ++ (F.drain r).1, (F.drain r).2) := by
  induction as with
  | nil => rfl
  | cons a as ih =>
    have hnext : F.next (F.encodeAll (a :: as) ++ r) = some (a, F.encodeAll as ++ r) := by
      rw [encodeAll_cons, List.append_assoc]
      exact F.next_encode (hv a List.mem_cons_self) _
    rw [F.drain_of_some hnext, ih fun b hb => hv b (List.mem_cons_of_mem a hb)]
    rfl

/-- A drained stream is its messages and the tail, and the tail holds no message. -/
theorem drain_spec (bs : List β) :
    (∀ a ∈ (F.drain bs).1, F.Valid a) ∧ bs = F.encodeAll (F.drain bs).1 ++ F.pending bs ∧
      F.next (F.pending bs) = none := by
  induction hn : bs.length using Nat.strongRecOn generalizing bs with
  | ind n ih =>
    cases hnext : F.next bs with
    | none =>
      rw [pending, F.drain_of_none hnext]
      exact ⟨by simp, rfl, hnext⟩
    | some p =>
      obtain ⟨a, r⟩ := p
      have hlt := F.length_lt_of_next hnext
      obtain ⟨hv, hbs⟩ := F.next_eq_some.mp hnext
      obtain ⟨hvalid, hr, hnone⟩ := ih r.length (by omega) r rfl
      rw [pending, F.drain_of_some hnext]
      refine ⟨?_, ?_, hnone⟩
      · intro b hb
        rcases List.mem_cons.mp hb with rfl | hb
        · exact hv
        · exact hvalid b hb
      · rw [encodeAll_cons, List.append_assoc, hbs]
        congr 1

/-- A stream may be drained in pieces. -/
theorem drain_append (bs cs : List β) :
    F.drain (bs ++ cs) =
      ((F.drain bs).1 ++ (F.drain (F.pending bs ++ cs)).1,
        F.pending (F.pending bs ++ cs)) := by
  obtain ⟨hv, hbs, -⟩ := F.drain_spec bs
  have h := F.drain_encodeAll_append hv (F.pending bs ++ cs)
  rwa [← List.append_assoc, ← hbs] at h

theorem pending_append (bs cs : List β) :
    F.pending (bs ++ cs) = F.pending (F.pending bs ++ cs) := by
  rw [pending, drain_append]

theorem pending_of_none {bs : List β} (h : F.next bs = none) : F.pending bs = bs := by
  rw [pending, F.drain_of_none h]

/-- The messages drained off the front of a valid stream are its first ones, and the tail
goes on with the rest. -/
theorem drain_of_prefix {bs cs : List β} {as : List α} (hv : ∀ a ∈ as, F.Valid a)
    (h : bs ++ cs = F.encodeAll as) :
    ∃ rest, as = (F.drain bs).1 ++ rest ∧ F.pending bs ++ cs = F.encodeAll rest := by
  induction as generalizing bs with
  | nil =>
    obtain ⟨rfl, rfl⟩ := List.append_eq_nil_iff.mp h
    exact ⟨[], by simp, by simp [pending]⟩
  | cons a as ih =>
    rcases F.next_of_prefix (hv a List.mem_cons_self) h with ⟨r, hnext, hr⟩ | ⟨hnone, -⟩
    · obtain ⟨rest, has, hrest⟩ := ih (fun b hb => hv b (List.mem_cons_of_mem a hb)) hr
      rw [pending, F.drain_of_some hnext]
      exact ⟨rest, by rw [List.cons_append, ← has], hrest⟩
    · rw [pending, F.drain_of_none hnone]
      exact ⟨a :: as, rfl, h⟩

end Framing
