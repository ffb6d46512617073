/-
Toadb.Lib.Scanner — scanners of rules, by longest match.

A rule is a pattern, a regular expression, with an action for the text that it
matches. From the front of the input the rule that matches the longest text is
taken, and of several that do the first.

`next_eq` says when a given rule takes a given text, and `next_some` that what
is taken is matched, and nothing longer is. What a pattern can match is bounded
by the symbols its words begin with (`firsts`) and consist of (`alphabet`),
which are computed.
-/
import Mathlib.Computability.RegularExpressions

namespace Toadb

namespace Scanner

universe u v

/-! ## Patterns -/

section Patterns

variable {α : Type u}

/-- One of these symbols. -/
def oneOf : List α → RegularExpression α
  | [] => 0
  | c :: cs => .char c + oneOf cs

/-- These symbols, one after the other. -/
def word : List α → RegularExpression α
  | [] => 1
  | c :: cs => .char c * word cs

/-- A pattern one or more times. -/
def plus (p : RegularExpression α) : RegularExpression α := p * p.star

/-- A pattern or nothing. -/
def optional (p : RegularExpression α) : RegularExpression α := p + 1

theorem mem_oneOf {cs w : List α} : w ∈ (oneOf cs).matches' ↔ ∃ c ∈ cs, w = [c] := by
  induction cs with
  | nil => exact ⟨False.elim, fun ⟨c, hc, _⟩ => absurd hc List.not_mem_nil⟩
  | cons c cs ih =>
    rw [oneOf, RegularExpression.matches'_add, Language.mem_add, ih]
    simp only [List.mem_cons, exists_eq_or_imp]
    exact Iff.rfl

theorem mem_word {cs w : List α} : w ∈ (word cs).matches' ↔ w = cs := by
  induction cs generalizing w with
  | nil => exact Iff.rfl
  | cons c cs ih =>
    rw [word, RegularExpression.matches'_mul, Language.mem_mul]
    constructor
    · rintro ⟨a, rfl, b, hb, rfl⟩
      rw [ih.mp hb, List.singleton_append]
    · rintro rfl
      exact ⟨[c], rfl, cs, ih.mpr rfl, rfl⟩

theorem mem_optional {p : RegularExpression α} {w : List α} :
    w ∈ (optional p).matches' ↔ w ∈ p.matches' ∨ w = [] := Iff.rfl

theorem mem_mul {p q : RegularExpression α} {w : List α} :
    w ∈ (p * q).matches' ↔ ∃ a ∈ p.matches', ∃ b ∈ q.matches', a ++ b = w := Language.mem_mul

theorem mem_star {p : RegularExpression α} {w : List α} :
    w ∈ p.star.matches' ↔ ∃ L : List (List α), w = L.flatten ∧ ∀ y ∈ L, y ∈ p.matches' :=
  Language.mem_kstar

/-- A word of single symbols. -/
theorem mem_star_oneOf {cs w : List α} : w ∈ (oneOf cs).star.matches' ↔ ∀ c ∈ w, c ∈ cs := by
  rw [mem_star]
  constructor
  · rintro ⟨L, rfl, hL⟩ c hc
    obtain ⟨y, hy, hcy⟩ := List.mem_flatten.mp hc
    obtain ⟨d, hd, rfl⟩ := mem_oneOf.mp (hL y hy)
    rwa [List.mem_singleton.mp hcy]
  · intro h
    refine ⟨w.map fun c => [c], ?_, ?_⟩
    · rw [← List.flatMap_def, List.flatMap_singleton']
    · intro y hy
      obtain ⟨c, hc, rfl⟩ := List.mem_map.mp hy
      exact mem_oneOf.mpr ⟨c, h c hc, rfl⟩

theorem mem_plus_oneOf {cs w : List α} :
    w ∈ (plus (oneOf cs)).matches' ↔ w ≠ [] ∧ ∀ c ∈ w, c ∈ cs := by
  rw [plus, mem_mul]
  constructor
  · rintro ⟨a, ha, b, hb, rfl⟩
    obtain ⟨c, hc, rfl⟩ := mem_oneOf.mp ha
    refine ⟨by simp, ?_⟩
    intro d hd
    rcases List.mem_cons.mp hd with rfl | hd
    · exact hc
    · exact mem_star_oneOf.mp hb d hd
  · rintro ⟨hne, h⟩
    obtain ⟨c, w, rfl⟩ := List.exists_cons_of_ne_nil hne
    obtain ⟨hc, hw⟩ := List.forall_mem_cons.mp h
    exact ⟨[c], mem_oneOf.mpr ⟨c, hc, rfl⟩, w, mem_star_oneOf.mpr hw, rfl⟩

/-! ### What words are made of -/

/-- The symbols of a pattern. -/
def alphabet : RegularExpression α → List α
  | .zero | .epsilon => []
  | .char c => [c]
  | .plus p q | .comp p q => alphabet p ++ alphabet q
  | .star p => alphabet p

theorem mem_alphabet {p : RegularExpression α} {w : List α} (h : w ∈ p.matches') :
    ∀ c ∈ w, c ∈ alphabet p := by
  induction p generalizing w with
  | zero => exact h.elim
  | epsilon =>
    cases h
    exact fun c hc => absurd hc List.not_mem_nil
  | char a =>
    cases h
    exact fun c hc => hc
  | plus p q ihp ihq =>
    intro c hc
    rcases h with hp | hq
    · exact List.mem_append_left _ (ihp hp c hc)
    · exact List.mem_append_right _ (ihq hq c hc)
  | comp p q ihp ihq =>
    intro c hc
    obtain ⟨a, ha, b, hb, rfl⟩ := Language.mem_mul.mp h
    rcases List.mem_append.mp hc with hca | hcb
    · exact List.mem_append_left _ (ihp ha c hca)
    · exact List.mem_append_right _ (ihq hb c hcb)
  | star p ih =>
    intro c hc
    obtain ⟨L, rfl, hL⟩ := Language.mem_kstar.mp h
    obtain ⟨y, hy, hcy⟩ := List.mem_flatten.mp hc
    exact ih (hL y hy) c hcy

/-- The symbols that words of a pattern begin with. -/
def firsts : RegularExpression α → List α
  | .zero | .epsilon => []
  | .char c => [c]
  | .plus p q => firsts p ++ firsts q
  | .comp p q => firsts p ++ if p.matchEpsilon then firsts q else []
  | .star p => firsts p

/-- A pattern without the empty word. -/
theorem nil_mem_iff [DecidableEq α] (p : RegularExpression α) :
    [] ∈ p.matches' ↔ p.matchEpsilon = true :=
  (RegularExpression.rmatch_iff_matches' p []).symm

theorem mem_firsts [DecidableEq α] {p : RegularExpression α} {c : α} {w : List α}
    (h : c :: w ∈ p.matches') :
    c ∈ firsts p := by
  induction p generalizing c w with
  | zero => exact h.elim
  | epsilon => cases h
  | char a =>
    cases h
    exact List.mem_cons_self
  | plus p q ihp ihq =>
    rcases h with hp | hq
    · exact List.mem_append_left _ (ihp hp)
    · exact List.mem_append_right _ (ihq hq)
  | comp p q ihp ihq =>
    obtain ⟨a, ha, b, hb, heq⟩ := Language.mem_mul.mp h
    cases a with
    | nil =>
      obtain rfl : b = c :: w := heq
      refine List.mem_append_right _ ?_
      rw [if_pos ((nil_mem_iff p).mp ha)]
      exact ihq hb
    | cons d a =>
      obtain ⟨rfl, -⟩ := List.cons.inj heq
      exact List.mem_append_left _ (ihp ha)
  | star p ih =>
    obtain ⟨L, heq, hL⟩ := Language.mem_kstar.mp h
    -- the first piece that is not empty
    induction L with
    | nil => cases heq
    | cons y L ihL =>
      cases y with
      | nil => exact ihL heq fun z hz => hL z (List.mem_cons_of_mem _ hz)
      | cons d y =>
        obtain ⟨rfl, -⟩ := List.cons.inj heq
        exact ih (hL _ List.mem_cons_self)

end Patterns

/-! ## Longest match -/

/-- A pattern, and what is done with the text that it matches. -/
structure Rule (α : Type u) (τ : Type v) where
  pattern : RegularExpression α
  action : List α → τ

section Match

variable {α : Type u} {τ : Type v} [DecidableEq α]

/-- The longest text of at most `n` symbols at the front of the input. -/
def longestUpTo (p : RegularExpression α) (input : List α) : Nat → Nat
  | 0 => 0
  | n + 1 => if p.rmatch (input.take (n + 1)) then n + 1 else longestUpTo p input n

/-- The length of the longest text that a pattern matches, 0 when there is none. -/
def longest (p : RegularExpression α) (input : List α) : Nat :=
  longestUpTo p input input.length

/-- The length of the longest text that any of the rules matches. -/
def best (rules : List (Rule α τ)) (input : List α) : Nat :=
  (rules.map fun r => longest r.pattern input).foldr max 0

/-- What the first rule that matches the longest text makes of it, and the rest of the
input. -/
def next (rules : List (Rule α τ)) (input : List α) : Option (τ × List α) :=
  if best rules input = 0 then none
  else (rules.find? fun r => longest r.pattern input = best rules input).map fun r =>
    (r.action (input.take (best rules input)), input.drop (best rules input))

variable {p : RegularExpression α} {input : List α} {rules : List (Rule α τ)}

theorem longestUpTo_le (p : RegularExpression α) (input : List α) (n : Nat) :
    longestUpTo p input n ≤ n := by
  induction n with
  | zero => exact Nat.le_refl 0
  | succ n ih =>
    rw [longestUpTo]
    split
    · exact Nat.le_refl _
    · exact Nat.le_succ_of_le ih

theorem longestUpTo_matches (n : Nat) (h : 0 < longestUpTo p input n) :
    input.take (longestUpTo p input n) ∈ p.matches' := by
  induction n with
  | zero => exact absurd h (Nat.lt_irrefl 0)
  | succ n ih =>
    rw [longestUpTo] at h ⊢
    split at h
    next hmatch =>
      rw [if_pos hmatch]
      exact (RegularExpression.rmatch_iff_matches' _ _).mp hmatch
    next hmatch =>
      rw [if_neg hmatch]
      exact ih h

theorem le_longestUpTo {n m : Nat} (hm : m ≤ n) (h : input.take m ∈ p.matches') :
    m ≤ longestUpTo p input n := by
  induction n with
  | zero => exact hm
  | succ n ih =>
    rw [longestUpTo]
    split
    next => exact hm
    next hmatch =>
      refine ih (Nat.lt_succ_iff.mp (Nat.lt_of_le_of_ne hm ?_))
      rintro rfl
      exact hmatch ((RegularExpression.rmatch_iff_matches' _ _).mpr h)

theorem longest_le (p : RegularExpression α) (input : List α) :
    longest p input ≤ input.length :=
  longestUpTo_le p input input.length

theorem longest_matches (h : 0 < longest p input) :
    input.take (longest p input) ∈ p.matches' :=
  longestUpTo_matches input.length h

/-- A text at the front that the pattern matches is at most the longest. -/
theorem le_longest {w rest : List α} (h : w ∈ p.matches') :
    w.length ≤ longest p (w ++ rest) := by
  refine le_longestUpTo ?_ ?_
  · rw [List.length_append]
    exact Nat.le_add_right _ _
  · rwa [List.take_left]

theorem longest_le_best {r : Rule α τ} (h : r ∈ rules) (input : List α) :
    longest r.pattern input ≤ best rules input := by
  induction rules with
  | nil => cases h
  | cons r' rules ih =>
    rw [best, List.map_cons, List.foldr_cons]
    rcases List.mem_cons.mp h with rfl | h
    · exact Nat.le_max_left _ _
    · exact (ih h).trans (Nat.le_max_right _ _)

/-- A text that some rule matches is the longest. -/
theorem exists_best (h : 0 < best rules input) :
    ∃ r ∈ rules, longest r.pattern input = best rules input := by
  induction rules with
  | nil => exact absurd h (Nat.lt_irrefl 0)
  | cons r rules ih =>
    have hbest : best (r :: rules) input =
        max (longest r.pattern input) (best rules input) := rfl
    rw [hbest] at h ⊢
    rcases Nat.le_total (best rules input) (longest r.pattern input) with hle | hle
    · exact ⟨r, List.mem_cons_self, (Nat.max_eq_left hle).symm⟩
    · rw [Nat.max_eq_right hle] at h ⊢
      obtain ⟨r', hr', heq⟩ := ih h
      exact ⟨r', List.mem_cons_of_mem r hr', heq⟩

theorem best_le_length (rules : List (Rule α τ)) (input : List α) :
    best rules input ≤ input.length := by
  rcases Nat.eq_zero_or_pos (best rules input) with h | h
  · exact h ▸ Nat.zero_le _
  · obtain ⟨r, -, heq⟩ := exists_best h
    exact heq ▸ longest_le r.pattern input

/-- What is taken is a text that one of the rules matches, and none matches more. -/
theorem next_some {t : τ} {rest : List α} (h : next rules input = some (t, rest)) :
    ∃ r ∈ rules, ∃ w, w ≠ [] ∧ w ∈ r.pattern.matches' ∧ input = w ++ rest ∧ t = r.action w ∧
      ∀ r' ∈ rules, ∀ u ∈ r'.pattern.matches', u <+: input → u.length ≤ w.length := by
  rw [next] at h
  split at h
  next => cases h
  next hpos =>
    obtain ⟨r, hfind, htake⟩ := Option.map_eq_some_iff.mp h
    obtain ⟨rfl, rfl⟩ := Prod.mk.inj htake
    have hlongest : longest r.pattern input = best rules input := by
      simpa using List.find?_some hfind
    have hlen : (input.take (best rules input)).length = best rules input := by
      rw [List.length_take, Nat.min_eq_left (best_le_length rules input)]
    refine ⟨r, List.mem_of_find?_eq_some hfind, input.take (best rules input), ?_, ?_,
      (List.take_append_drop _ _).symm, rfl, ?_⟩
    · rw [← List.length_pos_iff, hlen]
      exact Nat.pos_of_ne_zero hpos
    · rw [← hlongest]
      exact longest_matches (by omega)
    · rintro r' hr' u hu ⟨v, rfl⟩
      rw [hlen]
      exact (le_longest hu).trans (longest_le_best hr' _)

/-- A rule takes a text when it matches it, no rule matches more, and none before it matches
as much. -/
theorem next_eq {before after : List (Rule α τ)} {r : Rule α τ}
    {w rest : List α} (hne : w ≠ []) (hmatch : w ∈ r.pattern.matches')
    (hmost : ∀ r' ∈ before ++ r :: after, ∀ u ∈ r'.pattern.matches', u <+: w ++ rest →
      u.length ≤ w.length)
    (hfirst : ∀ r' ∈ before, w ∉ r'.pattern.matches') :
    next (before ++ r :: after) (w ++ rest) = some (r.action w, rest) := by
  have hmem : r ∈ before ++ r :: after := List.mem_append_right _ List.mem_cons_self
  have hge : w.length ≤ best (before ++ r :: after) (w ++ rest) :=
    (le_longest hmatch).trans (longest_le_best hmem (w ++ rest))
  have hpos : 0 < w.length := List.length_pos_iff.mpr hne
  have hmatches (r' : Rule α τ)
      (hlongest : longest r'.pattern (w ++ rest) = best (before ++ r :: after) (w ++ rest)) :
      (w ++ rest).take (best (before ++ r :: after) (w ++ rest)) ∈ r'.pattern.matches' := by
    rw [← hlongest]
    exact longest_matches (by omega)
  have hbest : best (before ++ r :: after) (w ++ rest) = w.length := by
    refine Nat.le_antisymm ?_ hge
    obtain ⟨r', hr', hlongest⟩ := exists_best (Nat.lt_of_lt_of_le hpos hge)
    have hle := hmost r' hr' _ (hmatches r' hlongest) (List.take_prefix _ _)
    rwa [List.length_take, Nat.min_eq_left (best_le_length _ _)] at hle
  have hr : longest r.pattern (w ++ rest) = w.length :=
    Nat.le_antisymm (hbest ▸ longest_le_best hmem (w ++ rest)) (le_longest hmatch)
  have hbefore : before.find? (fun r' => longest r'.pattern (w ++ rest) = w.length) =
      none := by
    rw [List.find?_eq_none]
    intro r' hr' hlongest
    have hu := hmatches r' ((of_decide_eq_true hlongest).trans hbest.symm)
    rw [hbest, List.take_left] at hu
    exact hfirst r' hr' hu
  rw [next, if_neg (by omega), hbest, List.find?_append, hbefore, Option.none_or,
    List.find?_cons_of_pos (by simpa using hr),
    Option.map_some, List.take_left, List.drop_left]

end Match

end Scanner

end Toadb
