/-
Toadb.Parser.ExprTextTheorems — is the text of an expression parsed back to it?

The tokens of an expression that needs no parentheses are parsed to it
(`parse_tokens`), and its text is scanned to them, token by token, with one
exception: a minus sign directly in front of a number is taken together with
it, as a negative number (`scan_render`). A token is lost then, and no
expression of the tokens that are left has as many nodes.
-/
import Toadb.Parser.Grammar
import Toadb.Portal.RowTextTheorems

namespace Toadb

open Scanner
open Precedence (Adjacent Unbracketed WellFormed)

/-- A list is run through, not the type of its members. -/
local instance (priority := high) decidableMembers {α : Type} (p : α → Prop)
    [DecidablePred p] (as : List α) :
    Decidable (∀ a ∈ as, p a) :=
  List.decidableBAll p as

/-! ## The scanner, match by match -/

section Scan

variable {text rest : List UInt8} {t : Option Token}

theorem scanNext_lt (h : text ≠ []) : (scanNext text).2.length < text.length := by
  rw [scanNext]
  split
  next found hfound =>
    have hnext : Scanner.next scannerRules text = some (found.1, found.2) := hfound
    obtain ⟨r, -, w, hne, -, heq, -⟩ := next_some hnext
    have hpos := List.length_pos_iff.mpr hne
    rw [heq, List.length_append]
    omega
  next =>
    rw [List.length_tail]
    have hpos := List.length_pos_iff.mpr h
    omega

theorem scanTokens_succ (h : text ≠ []) (fuel : Nat) :
    scanTokens (fuel + 1) text = (scanNext text).1.toList ++
      scanTokens fuel (scanNext text).2 := by
  cases text with
  | nil => exact absurd rfl h
  | cons c text => rfl

/-- There is a match for each byte at most. -/
theorem scanTokens_of_le {fuel : Nat} (h : text.length ≤ fuel) :
    scanTokens fuel text = scan text := by
  induction fuel using Nat.strong_induction_on generalizing text with
  | _ fuel ih =>
    by_cases hne : text = []
    · subst hne
      cases fuel <;> rfl
    · have hlt := scanNext_lt hne
      obtain ⟨fuel, rfl⟩ := Nat.exists_eq_succ_of_ne_zero (show fuel ≠ 0 by omega)
      obtain ⟨len, hlen⟩ := Nat.exists_eq_succ_of_ne_zero (show text.length ≠ 0 by omega)
      rw [scan, hlen, scanTokens_succ hne, scanTokens_succ hne, ih fuel (by omega) (by omega),
        ih len (by omega) (by omega)]

/-- The tokens of a text begin with that of the first match. -/
theorem scan_of_next (h : next scannerRules text = some (t, rest)) :
    scan text = t.toList ++ scan rest := by
  have hne : text ≠ [] := by
    obtain ⟨r, -, w, hne, -, rfl, -⟩ := next_some h
    exact fun hnil => hne (List.append_eq_nil_iff.mp hnil).1
  have hnext : scanNext text = (t, rest) := by rw [scanNext, h]
  have hlt := scanNext_lt hne
  obtain ⟨len, hlen⟩ := Nat.exists_eq_succ_of_ne_zero (show text.length ≠ 0 by omega)
  rw [hnext] at hlt
  change rest.length < text.length at hlt
  rw [scan, hlen, scanTokens_succ hne, hnext]
  simp only
  rw [scanTokens_of_le (by omega)]

end Scan

/-! ## What the rules match -/

section Rules

variable {r : Rule UInt8 (Option Token)} {u w rest : List UInt8} {c d : UInt8}

/-- The symbols behind the first of a pattern's words. -/
theorem mem_firsts_deriv {p : RegularExpression UInt8} (h : c :: d :: u ∈ p.matches') :
    d ∈ firsts (p.deriv c) := by
  have hmatch : (p.deriv c).rmatch (d :: u) = true :=
    (RegularExpression.rmatch_iff_matches' p (c :: d :: u)).mpr h
  exact mem_firsts ((RegularExpression.rmatch_iff_matches' _ _).mp hmatch)

/-- A text does not go beyond one that is followed by a byte it has not. -/
theorem length_le_of_bytes (hpre : u <+: w ++ rest)
    (hrest : ∀ c, rest.head? = some c → c ∉ u) :
    u.length ≤ w.length := by
  by_contra hlong
  obtain ⟨v, rfl⟩ := List.prefix_of_prefix_length_le (List.prefix_append _ _) hpre (by omega)
  rcases v with _ | ⟨c, v⟩
  · simp at hlong
  · obtain ⟨after, hafter⟩ := (List.prefix_append_right_inj _).mp hpre
    refine hrest c ?_ (List.mem_append_right _ List.mem_cons_self)
    rw [← hafter]
    rfl

/-- The bytes of identifiers. -/
def identBytes : List UInt8 := letters ++ digits ++ [95]

theorem mem_letters : c ∈ letters ↔
    65 ≤ c.toNat ∧ c.toNat ≤ 90 ∨ 97 ≤ c.toNat ∧ c.toNat ≤ 122 := by
  simp only [letters, List.mem_append, List.mem_map, List.mem_range]
  constructor
  · rintro (⟨i, hi, rfl⟩ | ⟨i, hi, rfl⟩) <;>
      rw [UInt8.toNat_ofNat_of_lt' (show _ < 256 by omega)] <;> omega
  · rintro (h | h)
    · refine .inl ⟨c.toNat - 65, by omega, ?_⟩
      rw [Nat.add_sub_cancel' h.1, UInt8.ofNat_toNat]
    · refine .inr ⟨c.toNat - 97, by omega, ?_⟩
      rw [Nat.add_sub_cancel' h.1, UInt8.ofNat_toNat]

theorem mem_identBytes (h : c ∈ letters) : c ∈ identBytes :=
  List.mem_append_left _ (List.mem_append_left _ h)

theorem mem_keywordPattern {text : List UInt8} (h : u ∈ (keywordPattern text).matches') :
    ∀ c ∈ u, ∃ a ∈ text, c ∈ eitherCase a := by
  induction text generalizing u with
  | nil =>
    cases h
    exact fun c hc => absurd hc List.not_mem_nil
  | cons a text ih =>
    obtain ⟨v, hv, w, hw, rfl⟩ := mem_mul.mp h
    obtain ⟨b, hb, rfl⟩ := mem_oneOf.mp hv
    intro c hc
    rcases List.mem_cons.mp hc with rfl | hc
    · exact ⟨a, List.mem_cons_self, hb⟩
    · obtain ⟨a', ha', hc'⟩ := ih hw c hc
      exact ⟨a', List.mem_cons_of_mem a ha', hc'⟩

/-- A keyword may be written in capitals. -/
theorem self_mem_keywordPattern (text : List UInt8) :
    text ∈ (keywordPattern text).matches' := by
  induction text with
  | nil => rfl
  | cons a text ih =>
    exact mem_mul.mpr ⟨[a], mem_oneOf.mpr ⟨a, List.mem_cons_self, rfl⟩, text, ih, rfl⟩

theorem keywords_capitals : ∀ k ∈ keywords, ∀ c ∈ ascii k.text,
    65 ≤ c.toNat ∧ c.toNat ≤ 90 := by
  decide

/-- Keywords are of letters. -/
theorem letters_of_keyword (hr : r ∈ keywordRules) (hu : u ∈ r.pattern.matches') :
    ∀ c ∈ u, c ∈ letters := by
  intro c hc
  obtain ⟨k, hk, rfl⟩ := List.mem_map.mp hr
  obtain ⟨a, ha, hmem⟩ := mem_keywordPattern hu c hc
  have hcapital := keywords_capitals k hk a ha
  simp only [eitherCase, List.mem_cons, List.not_mem_nil, or_false] at hmem
  rw [mem_letters]
  rcases hmem with rfl | rfl
  · exact .inl hcapital
  · rw [UInt8.toNat_add]
    refine .inr ?_
    change 97 ≤ (a.toNat + 32) % 256 ∧ (a.toNat + 32) % 256 ≤ 122
    omega

/-- Matches that begin with a letter are keywords or identifiers. -/
theorem letter_notMem_firsts : ∀ r ∈ stringRule :: symbolRules.take 2 ++ symbolRules.drop 3,
    ∀ c ∈ firsts r.pattern,
    c ∉ letters := by
  have hranges : ∀ r ∈ stringRule :: symbolRules.take 2 ++ symbolRules.drop 3,
      ∀ c ∈ firsts r.pattern,
      ¬ (65 ≤ c.toNat ∧ c.toNat ≤ 90 ∨ 97 ≤ c.toNat ∧ c.toNat ≤ 122) := by
    decide
  exact fun r hr c hc hmem => hranges r hr c hc (mem_letters.mp hmem)

theorem identBytes_of_identify (h : w ∈ identifyPattern.matches') :
    ∀ c ∈ w, c ∈ identBytes := by
  obtain ⟨a, ha, b, hb, rfl⟩ := mem_mul.mp h
  obtain ⟨c, hc, rfl⟩ := mem_oneOf.mp ha
  exact List.forall_mem_cons.mpr ⟨mem_identBytes hc, mem_star_oneOf.mp hb⟩

theorem identify_letter (h : w ∈ identifyPattern.matches') :
    ∃ c w', w = c :: w' ∧ c ∈ letters := by
  obtain ⟨a, ha, b, -, rfl⟩ := mem_mul.mp h
  obtain ⟨c, hc, rfl⟩ := mem_oneOf.mp ha
  exact ⟨c, b, rfl, hc⟩

theorem otherRules_split : stringRule :: symbolRules = (stringRule :: symbolRules.take 2) ++
    ⟨identifyPattern, fun yytext => some (.ident (cString yytext))⟩ :: symbolRules.drop 3 :=
  rfl

/-- Words end where other bytes than those of identifiers begin. -/
theorem word_most (hc : c ∈ letters) (hrest : ∀ d, rest.head? = some d → d ∉ identBytes)
    (hr : r ∈ scannerRules) (hu : u ∈ r.pattern.matches') (hpre : u <+: (c :: w) ++ rest) :
    u.length ≤ (c :: w).length := by
  rcases u with _ | ⟨b, u⟩
  · exact Nat.zero_le _
  · obtain rfl : b = c := (List.cons_prefix_cons.mp hpre).1
    refine length_le_of_bytes hpre fun d hd hmem => hrest d hd ?_
    rcases List.mem_append.mp hr with hkeyword | hother
    · exact mem_identBytes (letters_of_keyword hkeyword hu d hmem)
    · rw [otherRules_split] at hother
      rcases List.mem_append.mp hother with hother | hother
      · exact absurd hc
          (letter_notMem_firsts r (List.mem_append_left _ hother) b (mem_firsts hu))
      · rcases List.mem_cons.mp hother with rfl | hother
        · exact identBytes_of_identify hu d hmem
        · exact absurd hc
            (letter_notMem_firsts r (List.mem_append_right _ hother) b (mem_firsts hu))

theorem scannerRules_split {before after : List (Rule UInt8 (Option Token))}
    (h : symbolRules = before ++ r :: after) :
    scannerRules = (keywordRules ++ stringRule :: before) ++ r :: after := by
  rw [scannerRules, h, List.append_assoc, List.cons_append]

/-- One of the rules behind that of the strings takes a text when it matches it, no rule
matches more, and none before it matches as much. -/
theorem next_symbolRule {before after : List (Rule UInt8 (Option Token))}
    (h : symbolRules = before ++ r :: after)
    (hne : w ≠ []) (hmatch : w ∈ r.pattern.matches')
    (hmost : ∀ r' ∈ scannerRules, ∀ u ∈ r'.pattern.matches', u <+: w ++ rest →
      u.length ≤ w.length)
    (hfirst : ∀ r' ∈ keywordRules ++ stringRule :: before, w ∉ r'.pattern.matches') :
    next scannerRules (w ++ rest) = some (r.action w, rest) := by
  rw [scannerRules_split h] at hmost ⊢
  exact next_eq hne hmatch hmost hfirst

/-- The same for a text that does not begin with a letter: the keywords do not matter then. -/
theorem next_symbolRule_cons {before after : List (Rule UInt8 (Option Token))}
    (h : symbolRules = before ++ r :: after)
    (hc : c ∉ letters) (hmatch : c :: w ∈ r.pattern.matches')
    (hmost : ∀ r' ∈ stringRule :: symbolRules, ∀ u, c :: u ∈ r'.pattern.matches' →
      u <+: w ++ rest → u.length ≤ w.length)
    (hfirst : ∀ r' ∈ stringRule :: before, c :: w ∉ r'.pattern.matches') :
    next scannerRules (c :: (w ++ rest)) = some (r.action (c :: w), rest) := by
  have hkeyword (r' : Rule UInt8 (Option Token)) (hr : r' ∈ keywordRules) (u : List UInt8) :
      c :: u ∉ r'.pattern.matches' :=
    fun hmem => hc (letters_of_keyword hr hmem c List.mem_cons_self)
  refine next_symbolRule h (List.cons_ne_nil c w) hmatch ?_ ?_
  · intro r' hr u hu hpre
    rcases u with _ | ⟨b, u⟩
    · exact Nat.zero_le _
    · obtain ⟨rfl, htail⟩ := List.cons_prefix_cons.mp hpre
      rcases List.mem_append.mp hr with hr | hr
      · exact absurd hu (hkeyword r' hr u)
      · exact Nat.succ_le_succ (hmost r' hr u hu htail)
  · intro r' hr
    rcases List.mem_append.mp hr with hr | hr
    · exact hkeyword r' hr w
    · exact hfirst r' hr

/-- An identifier is a token. -/
theorem next_ident {s : CString} (h : IsIdentifier s.val)
    (hrest : ∀ d, rest.head? = some d → d ∉ identBytes) :
    next scannerRules (s.val ++ rest) = some (some (.ident s), rest) := by
  obtain ⟨hmatch, hkeyword⟩ := h
  obtain ⟨c, w, hw, hc⟩ := identify_letter hmatch
  have htake : next scannerRules (s.val ++ rest) =
      some (some (.ident (cString s.val)), rest) := by
    have hsplit : symbolRules = symbolRules.take 2 ++
      ⟨identifyPattern, fun yytext => some (.ident (cString yytext))⟩ :: symbolRules.drop 3 :=
        rfl
    refine next_symbolRule hsplit (hw ▸ List.cons_ne_nil c w) hmatch ?_ ?_
    · rw [hw]
      exact fun r hr u hu hpre => word_most hc hrest hr hu hpre
    · intro r hr hmem
      rcases List.mem_append.mp hr with hr | hr
      · exact hkeyword r hr hmem
      · rw [hw] at hmem
        exact letter_notMem_firsts r (List.mem_append_left _ hr) c (mem_firsts hmem) hc
  rw [htake, cString_self]

theorem keywordRules_split : ∀ k ∈ [Keyword.and, .or, .not], ∃ before after,
    keywordRules = before ++ keywordRule k :: after ∧ ∀ r ∈ before,
      ascii k.text ∉ r.pattern.matches' := by
  have hothers : ∀ k ∈ [Keyword.and, .or, .not], ∀ j ∈ keywords.take 14, j ≠ k →
      ascii k.text ∉ (keywordPattern (ascii j.text)).matches' := by
    decide
  intro k hk
  have hbefore (n : Nat) (hn : n ≤ 14) (hne : ∀ j ∈ keywords.take n, j ≠ k) :
      ∀ r ∈ (keywords.take n).map keywordRule, ascii k.text ∉ r.pattern.matches' := by
    intro r hr
    obtain ⟨j, hj, rfl⟩ := List.mem_map.mp hr
    exact hothers k hk j (List.take_subset_take_left keywords hn hj) (hne j hj)
  simp only [List.mem_cons, List.not_mem_nil, or_false] at hk
  rcases hk with rfl | rfl | rfl
  · exact ⟨(keywords.take 12).map keywordRule, (keywords.drop 13).map keywordRule, rfl,
      hbefore 12 (by omega) (by decide)⟩
  · exact ⟨(keywords.take 13).map keywordRule, (keywords.drop 14).map keywordRule, rfl,
      hbefore 13 (by omega) (by decide)⟩
  · exact ⟨(keywords.take 14).map keywordRule, (keywords.drop 15).map keywordRule, rfl,
      hbefore 14 (by omega) (by decide)⟩

theorem keyword_letters : ∀ k ∈ [Keyword.and, .or, .not],
    (∃ c w', ascii k.text = c :: w' ∧ c ∈ letters) ∧
    ascii k.text ∈ (keywordRule k).pattern.matches' := by
  intro k hk
  refine ⟨?_, self_mem_keywordPattern (ascii k.text)⟩
  simp only [List.mem_cons, List.not_mem_nil, or_false] at hk
  rcases hk with rfl | rfl | rfl
  · exact ⟨65, [78, 68], rfl, by decide⟩
  · exact ⟨79, [82], rfl, by decide⟩
  · exact ⟨78, [79, 84], rfl, by decide⟩

/-- A word operator is a token. -/
theorem next_keyword {k : Keyword} (hk : k ∈ [Keyword.and, .or, .not])
    (hrest : ∀ d, rest.head? = some d → d ∉ identBytes) :
    next scannerRules (ascii k.text ++ rest) = some (some (.keyword k), rest) := by
  obtain ⟨before, after, hsplit, hbefore⟩ := keywordRules_split k hk
  obtain ⟨⟨c, w, hw, hc⟩, hmatch⟩ := keyword_letters k hk
  have hrules : scannerRules = before ++
      keywordRule k :: (after ++ stringRule :: symbolRules) := by
    rw [scannerRules, hsplit, List.append_assoc, List.cons_append]
  rw [hrules]
  refine next_eq (hw ▸ List.cons_ne_nil c w) hmatch ?_ hbefore
  rw [← hrules, hw]
  exact fun r hr u hu hpre => word_most hc hrest hr hu hpre

/-! ### Symbols -/

/-- The operators of one byte. -/
def symbols : List UInt8 := ascii "+-*/%<>="

/-- The bytes that make more than a symbol of it. -/
def joins (c : UInt8) : List UInt8 :=
  if c = 45 then digits ++ [45, 46] else if c = 60 then [61, 62]
    else if c = 62 then [61] else []

theorem symbol_notMem_letters : ∀ c ∈ symbols, c ∉ letters := by decide

theorem symbol_rules : ∀ c ∈ symbols, [c] ∈ selfPattern.matches' ∧
    (∀ r ∈ stringRule :: symbolRules.take 3, [c] ∉ r.pattern.matches') ∧
    ∀ r ∈ stringRule :: symbolRules, ∀ d ∈ firsts (r.pattern.deriv c), d ∈ joins c := by
  decide

/-- A symbol is a token. -/
theorem next_symbol (hc : c ∈ symbols) (hrest : ∀ d, rest.head? = some d → d ∉ joins c) :
    next scannerRules (c :: rest) = some (some (.self c), rest) := by
  have hsplit : symbolRules = symbolRules.take 3 ++
    ⟨selfPattern, fun yytext => some (.self (yytext.headD 0))⟩ :: symbolRules.drop 4 := rfl
  obtain ⟨hself, hbefore, hbehind⟩ := symbol_rules c hc
  refine next_symbolRule_cons (w := []) hsplit (symbol_notMem_letters c hc) hself ?_ hbefore
  intro r hr u hu hpre
  rcases u with _ | ⟨d, u⟩
  · exact Nat.zero_le _
  · obtain ⟨after, rfl⟩ := hpre
    exact absurd (hbehind r hr d (mem_firsts_deriv hu)) (hrest d rfl)

/-- The operators of two bytes, with their tokens. -/
def pairs : List (UInt8 × UInt8 × Token) :=
  [(60, 61, .lessEq), (62, 61, .greaterEq), (60, 62, .notEq)]

theorem pair_notMem_letters : ∀ p ∈ pairs, p.1 ∉ letters := by decide

theorem firsts_deriv_pair : ∀ p ∈ pairs, ∀ r ∈ stringRule :: symbolRules,
    firsts ((r.pattern.deriv p.1).deriv p.2.1) = [] := by
  decide

theorem symbolRules_pair : ∀ p ∈ pairs, ∃ before after,
    symbolRules = before ++ ⟨word [p.1, p.2.1], fun _ => some p.2.2⟩ :: after ∧
      ∀ r ∈ stringRule :: before, [p.1, p.2.1] ∉ r.pattern.matches' := by
  have hbefore : ∀ q ∈ pairs.zipIdx 5, ∀ r ∈ stringRule :: symbolRules.take q.2,
      [q.1.1, q.1.2.1] ∉ r.pattern.matches' := by
    decide
  intro p hp
  simp only [pairs, List.mem_cons, List.not_mem_nil, or_false] at hp
  rcases hp with rfl | rfl | rfl
  · exact ⟨symbolRules.take 5, symbolRules.drop 6, rfl,
      hbefore ((60, 61, .lessEq), 5) (by decide)⟩
  · exact ⟨symbolRules.take 6, symbolRules.drop 7, rfl,
      hbefore ((62, 61, .greaterEq), 6) (by decide)⟩
  · exact ⟨symbolRules.take 7, [], rfl, hbefore ((60, 62, .notEq), 7) (by decide)⟩

/-- An operator of two bytes is a token. -/
theorem next_pair {t : Token} (hp : (c, d, t) ∈ pairs) (rest : List UInt8) :
    next scannerRules ([c, d] ++ rest) = some (some t, rest) := by
  obtain ⟨before, after, hsplit, hbefore⟩ := symbolRules_pair _ hp
  refine next_symbolRule_cons hsplit (pair_notMem_letters _ hp) (mem_word.mpr rfl) ?_ hbefore
  intro r hr u hu hpre
  rcases u with _ | ⟨b, _ | ⟨e, u⟩⟩
  · exact Nat.zero_le _
  · exact Nat.le_refl 1
  · obtain rfl : b = d := (List.cons_prefix_cons.mp hpre).1
    have hmatch := (RegularExpression.rmatch_iff_matches' r.pattern _).mpr hu
    have hmem := mem_firsts_deriv
        ((RegularExpression.rmatch_iff_matches' (r.pattern.deriv _) _).mp hmatch)
    rw [firsts_deriv_pair _ hp r hr] at hmem
    cases hmem

/-! ### Spaces -/

theorem space_notMem_firsts : ∀ r ∈ stringRule :: symbolRules.take 4 ++ symbolRules.drop 5,
    32 ∉ firsts r.pattern := by
  decide

theorem space_notMem_comment :
    32 ∉ firsts (word [45, 45] * (oneOf (noneOf [10, 13])).star) := by
  decide

/-- What begins with a space is white space: no other rule, and no comment. -/
theorem spaces_of_match (hr : r ∈ stringRule :: symbolRules)
    (hu : 32 :: u ∈ r.pattern.matches') :
    32 :: u ∈ (plus (oneOf spaces)).matches' := by
  have hsplit : stringRule :: symbolRules = (stringRule :: symbolRules.take 4) ++
    ⟨whitespacePattern, fun _ => none⟩ :: symbolRules.drop 5 := rfl
  rw [hsplit] at hr
  rcases List.mem_append.mp hr with hr | hr
  · exact absurd (mem_firsts hu) (space_notMem_firsts r (List.mem_append_left _ hr))
  · rcases List.mem_cons.mp hr with rfl | hr
    · rcases hu with hspaces | hcomment
      · exact hspaces
      · exact absurd (mem_firsts hcomment) space_notMem_comment
    · exact absurd (mem_firsts hu) (space_notMem_firsts r (List.mem_append_right _ hr))

theorem alphabet_spaces : ∀ d ∈ alphabet (plus (oneOf spaces)), d ∈ spaces := by decide

/-- Spaces have no token. -/
theorem next_spaces (n : Nat) (hrest : ∀ d, rest.head? = some d → d ∉ spaces) :
    next scannerRules (List.replicate (n + 1) 32 ++ rest) = some (none, rest) := by
  have hspaces : List.replicate (n + 1) (32 : UInt8) ∈ (plus (oneOf spaces)).matches' := by
    refine mem_plus_oneOf.mpr ⟨List.cons_ne_nil _ _, ?_⟩
    intro c hc
    rw [List.eq_of_mem_replicate hc]
    decide
  have hsplit : symbolRules = symbolRules.take 4 ++
      ⟨whitespacePattern, fun _ => none⟩ :: symbolRules.drop 5 := rfl
  refine next_symbolRule_cons hsplit (by decide) (.inl hspaces) ?_ ?_
  · intro r hr u hu hpre
    refine length_le_of_bytes hpre fun d hd hmem => hrest d hd (alphabet_spaces d ?_)
    exact mem_alphabet (spaces_of_match hr hu) d (List.mem_cons_of_mem 32 hmem)
  · intro r hr hmem
    exact absurd (mem_firsts hmem) (space_notMem_firsts r (List.mem_append_left _ hr))

/-! ### Numbers -/

/-- The bytes that a number goes on with. -/
def numberBytes : List UInt8 := digits ++ [46, 69, 101]

/-- What comes behind the digits of a number. -/
def Behind (tail : List UInt8) : Prop :=
  ∀ c, tail.head? = some c → c ∈ ([46, 69, 101] : List UInt8)

theorem behind_point (u : List UInt8) : Behind ([46] ++ u) := by
  rintro c ⟨⟩
  decide

theorem behind_exponent (h : u ∈ exponent.matches') : Behind u := by
  intro c hc
  obtain ⟨v, rfl⟩ := List.head?_eq_some_iff.mp hc
  have hfirst : ∀ d ∈ firsts exponent, d ∈ ([46, 69, 101] : List UInt8) := by decide
  exact hfirst c (mem_firsts h)

/-- The words of numbers: a sign or none, digits, and what may come behind them. -/
theorem number_of_match
    (hu : u ∈ intNumberPattern.matches' ∨ u ∈ floatNumberPattern.matches') :
    ∃ sgn ds tail, u = sgn ++ (ds ++ tail) ∧ (sgn = [] ∨ sgn = [45]) ∧
      (∀ c ∈ ds, c ∈ digits) ∧ Behind tail := by
  have hsign {v : List UInt8} (h : v ∈ sign.matches') : v = [] ∨ v = [45] :=
    (mem_optional.mp h).symm
  rcases hu with hint | ((((hfloat | hfloat) | hfloat) | hfloat) | hfloat)
  · obtain ⟨sgn, hsgn, ds, hds, rfl⟩ := mem_mul.mp hint
    exact ⟨sgn, ds, [], by rw [List.append_nil], hsign hsgn, (mem_plus_oneOf.mp hds).2, nofun⟩
  · obtain ⟨sgn, hsgn, body, hbody, rfl⟩ := mem_mul.mp hfloat
    obtain ⟨ds, hds, behind, hbehind, rfl⟩ := mem_mul.mp hbody
    obtain ⟨point, rfl, v, -, rfl⟩ := mem_mul.mp hbehind
    exact ⟨sgn, ds, _, rfl, hsign hsgn, (mem_plus_oneOf.mp hds).2, behind_point v⟩
  · obtain ⟨sgn, hsgn, behind, hbehind, rfl⟩ := mem_mul.mp hfloat
    obtain ⟨point, rfl, v, -, rfl⟩ := mem_mul.mp hbehind
    exact ⟨sgn, [], _, rfl, hsign hsgn, nofun, behind_point v⟩
  · obtain ⟨sgn, hsgn, body, hbody, rfl⟩ := mem_mul.mp hfloat
    obtain ⟨ds, hds, behind, hbehind, rfl⟩ := mem_mul.mp hbody
    obtain ⟨point, rfl, v, -, rfl⟩ := mem_mul.mp hbehind
    exact ⟨sgn, ds, _, rfl, hsign hsgn, (mem_plus_oneOf.mp hds).2, behind_point v⟩
  · obtain ⟨sgn, hsgn, body, hbody, rfl⟩ := mem_mul.mp hfloat
    obtain ⟨ds, hds, behind, hbehind, rfl⟩ := mem_mul.mp hbody
    exact ⟨sgn, ds, behind, rfl, hsign hsgn, (mem_plus_oneOf.mp hds).2,
      behind_exponent hbehind⟩
  · obtain ⟨sgn, hsgn, body, hbody, rfl⟩ := mem_mul.mp hfloat
    obtain ⟨ds, hds, behind, hbehind, rfl⟩ := mem_mul.mp hbody
    obtain ⟨point, rfl, v, -, rfl⟩ := mem_mul.mp hbehind
    exact ⟨sgn, ds, _, rfl, hsign hsgn, mem_star_oneOf.mp hds, behind_point v⟩

/-- Digits end where another byte begins. -/
theorem takeWhile_digits {ds : List UInt8} (hds : ∀ c ∈ ds, c ∈ digits)
    (hrest : ∀ d, rest.head? = some d → d ∉ digits) :
    (ds ++ rest).takeWhile (fun c => digits.contains c) = ds := by
  rw [List.takeWhile_append_of_pos fun c hc => List.contains_iff_mem.mpr (hds c hc)]
  cases rest with
  | nil => exact List.append_nil ds
  | cons d rest =>
    rw [List.takeWhile_cons_of_neg (by simpa using hrest d rfl), List.append_nil]

theorem sign_eq {sgn sgn' ds x y : List UInt8} (hsgn : sgn = [] ∨ sgn = [45])
    (hsgn' : sgn' = [] ∨ sgn' = [45])
    (hds : ∀ c ∈ ds, c ∈ digits) (hne : ds ≠ []) (hy : ∀ c, y.head? = some c → c ≠ 45)
    (heq : sgn ++ (ds ++ x) = sgn' ++ y) : sgn = sgn' ∧ ds ++ x = y := by
  obtain ⟨b, ds, rfl⟩ := List.exists_cons_of_ne_nil hne
  rcases hsgn with rfl | rfl <;> rcases hsgn' with rfl | rfl
  · exact ⟨rfl, heq⟩
  · obtain rfl : b = 45 := (List.cons.inj heq).1
    exact absurd (hds 45 List.mem_cons_self) (by decide)
  · refine absurd rfl (hy 45 ?_)
    rw [← show [45] ++ (b :: ds ++ x) = y from heq]
    rfl
  · exact ⟨rfl, (List.cons.inj heq).2⟩

/-- A number ends where other bytes than those of numbers begin. -/
theorem number_most {sgn ds : List UInt8} (hsgn : sgn = [] ∨ sgn = [45])
    (hds : ∀ c ∈ ds, c ∈ digits) (hne : ds ≠ [])
    (hrest : ∀ d, rest.head? = some d → d ∉ numberBytes)
    (hu : u ∈ intNumberPattern.matches' ∨ u ∈ floatNumberPattern.matches')
    (hpre : u <+: (sgn ++ ds) ++ rest) :
    u.length ≤ (sgn ++ ds).length := by
  by_contra hlong
  obtain ⟨v, rfl⟩ := List.prefix_of_prefix_length_le (List.prefix_append _ _) hpre (by omega)
  obtain ⟨d, v, rfl⟩ := List.exists_cons_of_ne_nil (show v ≠ [] by rintro rfl; simp at hlong)
  have hd : d ∉ numberBytes := by
    obtain ⟨after, hafter⟩ := (List.prefix_append_right_inj _).mp hpre
    exact hrest d (by rw [← hafter]; rfl)
  obtain ⟨sgn', ds', tail, heq, hsgn', hds', htail⟩ := number_of_match hu
  have htailDigits : ∀ c, tail.head? = some c → c ∉ digits := by
    intro c hc
    have hnot : ∀ c ∈ ([46, 69, 101] : List UInt8), c ∉ digits := by decide
    exact hnot c (htail c hc)
  have hminus : ∀ c, (ds' ++ tail).head? = some c → c ≠ 45 := by
    rintro c hc rfl
    rcases ds' with _ | ⟨b, ds'⟩
    · exact absurd (htail 45 hc) (by decide)
    · obtain rfl : b = 45 := Option.some.inj hc
      exact absurd (hds' 45 List.mem_cons_self) (by decide)
  rw [List.append_assoc] at heq
  obtain ⟨rfl, hbody⟩ := sign_eq hsgn hsgn' hds hne hminus heq
  -- both texts have the same digits
  have hdDigits : ∀ b, (d :: v).head? = some b → b ∉ digits := by
    rintro b ⟨⟩ hmem
    exact hd (List.mem_append_left _ hmem)
  have hdigits := congrArg (List.takeWhile fun c => digits.contains c) hbody
  rw [takeWhile_digits hds hdDigits, takeWhile_digits hds' htailDigits] at hdigits
  subst hdigits
  obtain rfl := List.append_cancel_left hbody
  exact hd (List.mem_append_right _ (htail d rfl))

theorem digit_notMem_letters : ∀ c ∈ 45 :: digits, c ∉ letters := by decide

theorem digit_notMem_firsts : ∀ r ∈ stringRule :: symbolRules.drop 2, ∀ c ∈ digits,
    c ∉ firsts r.pattern ∧ c ∉ firsts (r.pattern.deriv 45) := by
  decide

/-- Digits begin the matches of the rules of numbers only, with a minus sign or without. -/
theorem digit_notMatch (hr : r ∈ keywordRules ++ stringRule :: symbolRules.drop 2)
    (hc : c ∈ digits) :
    (∀ u, c :: u ∉ r.pattern.matches') ∧ ∀ u, 45 :: c :: u ∉ r.pattern.matches' := by
  rcases List.mem_append.mp hr with hr | hr
  · have hbytes := fun u hu => letters_of_keyword hr (u := u) hu
    refine ⟨fun u hu => ?_, fun u hu => ?_⟩
    · exact digit_notMem_letters c (List.mem_cons_of_mem 45 hc)
        (hbytes _ hu c List.mem_cons_self)
    · exact digit_notMem_letters 45 List.mem_cons_self (hbytes _ hu 45 List.mem_cons_self)
  · have hfirsts := digit_notMem_firsts r hr c hc
    exact ⟨fun u hu => hfirsts.1 (mem_firsts hu), fun u hu => hfirsts.2 (mem_firsts_deriv hu)⟩

/-- The rules of numbers, and the others. -/
theorem mem_scannerRules (hr : r ∈ scannerRules) :
    r.pattern = intNumberPattern ∨ r.pattern = floatNumberPattern ∨
      r ∈ keywordRules ++ stringRule :: symbolRules.drop 2 := by
  rcases List.mem_append.mp hr with hr | hr
  · exact .inr (.inr (List.mem_append_left _ hr))
  · rcases List.mem_cons.mp hr with rfl | hr
    · exact .inr (.inr (List.mem_append_right _ List.mem_cons_self))
    · rcases List.mem_cons.mp hr with rfl | hr
      · exact .inl rfl
      · rcases List.mem_cons.mp hr with rfl | hr
        · exact .inr (.inl rfl)
        · exact .inr (.inr (List.mem_append_right _ (List.mem_cons_of_mem _ hr)))

/-- A number is a token, together with a sign directly in front of it. -/
theorem next_number {sgn ds : List UInt8} (hsgn : sgn = [] ∨ sgn = [45])
    (hds : ∀ c ∈ ds, c ∈ digits) (hne : ds ≠ [])
    (hrest : ∀ d, rest.head? = some d → d ∉ numberBytes) :
    next scannerRules ((sgn ++ ds) ++ rest) =
      some (some (.intNumber (atoi (sgn ++ ds))), rest) := by
  have hsplit : symbolRules = [] ++
    ⟨intNumberPattern, fun yytext => some (.intNumber (atoi yytext))⟩ :: symbolRules.drop 1 :=
      rfl
  have hmatch : sgn ++ ds ∈ intNumberPattern.matches' :=
    mem_mul.mpr ⟨sgn, mem_optional.mpr hsgn.symm, ds, mem_plus_oneOf.mpr ⟨hne, hds⟩, rfl⟩
  -- other rules match a minus sign at most
  have hother (r : Rule UInt8 (Option Token))
      (hr : r ∈ keywordRules ++ stringRule :: symbolRules.drop 2)
      (u : List UInt8) (hu : u ∈ r.pattern.matches') (hpre : u <+: (sgn ++ ds) ++ rest) :
        u = [] ∨ u = [45] ∧ sgn = [45] := by
    obtain ⟨b, ds, rfl⟩ := List.exists_cons_of_ne_nil hne
    have hb := digit_notMatch hr (hds b List.mem_cons_self)
    rcases u with _ | ⟨c, u⟩
    · exact .inl rfl
    · rcases hsgn with rfl | rfl
      · obtain rfl : c = b := (List.cons_prefix_cons.mp hpre).1
        exact absurd hu (hb.1 u)
      · obtain ⟨rfl, htail⟩ := List.cons_prefix_cons.mp hpre
        rcases u with _ | ⟨d, u⟩
        · exact .inr ⟨rfl, rfl⟩
        · obtain rfl : d = b := (List.cons_prefix_cons.mp htail).1
          exact absurd hu (hb.2 u)
  have hlen : 0 < ds.length := List.length_pos_iff.mpr hne
  refine next_symbolRule hsplit (by simp [hne]) hmatch ?_ ?_
  · intro r hr u hu hpre
    rcases mem_scannerRules hr with hint | hfloat | hr
    · exact number_most hsgn hds hne hrest (.inl (hint ▸ hu)) hpre
    · exact number_most hsgn hds hne hrest (.inr (hfloat ▸ hu)) hpre
    · rcases hother r hr u hu hpre with rfl | ⟨rfl, rfl⟩
      · exact Nat.zero_le _
      · rw [List.length_append, List.length_singleton]
        omega
  · intro r hr hmem
    have hr' : r ∈ keywordRules ++ stringRule :: symbolRules.drop 2 := by
      refine (List.mem_append.mp hr).elim (List.mem_append_left _) fun hstring =>
        List.mem_append_right _ ?_
      rw [List.mem_singleton.mp hstring]
      exact List.mem_cons_self
    rcases hother r hr' _ hmem (List.prefix_append _ _) with hnil | ⟨hone, rfl⟩
    · exact hne (List.append_eq_nil_iff.mp hnil).2
    · exact hne (List.append_cancel_left (hone.trans (List.append_nil _).symm))

end Rules

/-! ## Numbers and their digits -/

theorem mem_digits {c : Char} (h : c.isDigit = true) : UInt8.ofNat c.toNat ∈ digits := by
  simp only [Char.isDigit, Bool.and_eq_true, decide_eq_true_eq, ge_iff_le,
    UInt32.le_iff_toNat_le] at h
  have hlo : 48 ≤ c.toNat := h.1
  have hhi : c.toNat ≤ 57 := h.2
  refine List.mem_map.mpr ⟨c.toNat - 48, List.mem_range.mpr (by omega), ?_⟩
  rw [Nat.add_sub_cancel' hlo]

/-- The text of a number that is not negative. -/
theorem decimal_natCast (n : Nat) :
    decimal n = (Nat.toDigits 10 n).map fun c => UInt8.ofNat c.toNat := by
  rw [decimal, if_neg (by omega)]
  rfl

theorem decimal_digits (n : Nat) : ∀ c ∈ decimal n, c ∈ digits := by
  rw [decimal_natCast]
  intro b hb
  obtain ⟨c, hc, rfl⟩ := List.mem_map.mp hb
  exact mem_digits (Nat.isDigit_of_mem_toDigits (by omega) (by omega) hc)

theorem decimal_ne_nil (n : Nat) : decimal n ≠ [] := by
  rw [decimal_natCast]
  simp

theorem takeWhile_decimal (n : Nat) :
    (decimal n).takeWhile (fun c => digits.contains c) = decimal n := by
  have h : (decimal n ++ []).takeWhile (fun c => digits.contains c) = decimal n :=
    takeWhile_digits (decimal_digits n) nofun
  rwa [List.append_nil] at h

/-- The digits of a number stand for it. -/
theorem digitsValue_decimal (n : Nat) : digitsValue (decimal n) = n := by
  rw [digitsValue, takeWhile_decimal, decimal_natCast, List.foldl_map]
  refine Eq.trans (List.foldl_ext _ _ 0 ?_) Nat.ofDigitChars_ten_toDigits
  intro m c hc
  have hdigit : c.isDigit = true := Nat.isDigit_of_mem_toDigits (by omega) (by omega) hc
  simp only [Char.isDigit, Bool.and_eq_true, decide_eq_true_eq, ge_iff_le,
    UInt32.le_iff_toNat_le] at hdigit
  have hhi : c.toNat ≤ 57 := hdigit.2
  rw [UInt8.toNat_ofNat', Nat.mod_eq_of_lt (by omega)]
  rfl

/-- The number of an `int` is read back from its text. -/
theorem atoi_decimal {n : Nat} (h : n < 2 ^ 31) : atoi (decimal n) = BitVec.ofNat 32 n := by
  have hhead : (decimal n).head? ≠ some 45 := by
    intro hhead
    obtain ⟨tail, htail⟩ := List.head?_eq_some_iff.mp hhead
    exact absurd (decimal_digits n 45 (htail ▸ List.mem_cons_self)) (by decide)
  rw [atoi, if_neg hhead, digitsValue_decimal]
  have hmin : max (-2 ^ 63) (min (2 ^ 63 - 1) (n : Int)) = n := by omega
  rw [hmin, BitVec.ofInt_natCast]

/-! ## The tokens of an expression -/

/-- The tokens that expressions have. -/
inductive ExprToken : Token → Prop where
  | ident (s : CString) (h : IsIdentifier s.val) : ExprToken (.ident s)
  | intNumber (n : Nat) (h : n < 2 ^ 31) : ExprToken (.intNumber (BitVec.ofNat 32 n))
  | keyword (k : Keyword) (h : k ∈ [Keyword.and, .or, .not]) : ExprToken (.keyword k)
  | self (c : UInt8) (h : c ∈ symbols) : ExprToken (.self c)
  | pair (c d : UInt8) (t : Token) (h : (c, d, t) ∈ pairs) : ExprToken t

/-- The bytes that make another token of it when they follow. -/
def blockers : Token → List UInt8
  | .ident _ | .keyword _ => identBytes
  | .intNumber _ => numberBytes
  | .self c => joins c
  | _ => []

theorem text_intNumber {n : Nat} (h : n < 2 ^ 31) :
    (Token.intNumber (BitVec.ofNat 32 n)).text = decimal n := by
  rw [Token.text, BitVec.toInt_eq_toNat_of_lt]
  · rw [BitVec.toNat_ofNat, Nat.mod_eq_of_lt (by omega)]
  · rw [BitVec.toNat_ofNat]
    omega

theorem text_pair {c d : UInt8} {t : Token} (h : (c, d, t) ∈ pairs) :
    t.text = [c, d] ∧ blockers t = [] := by
  simp only [pairs, List.mem_cons, List.not_mem_nil, or_false, Prod.mk.injEq] at h
  rcases h with ⟨rfl, rfl, rfl⟩ | ⟨rfl, rfl, rfl⟩ | ⟨rfl, rfl, rfl⟩ <;> exact ⟨rfl, rfl⟩

/-- A word operator. -/
def Token.isWord : Token → Bool
  | .keyword _ => true
  | _ => false

/-- A number. -/
def Token.isNumber : Token → Bool
  | .intNumber _ => true
  | _ => false

theorem pairs_isNumber : ∀ p ∈ pairs, ¬ p.2.2.isNumber = true := by decide

section Tokens

variable {t x y : Token} {rest : List UInt8}

/-- A token of an expression is scanned as itself when nothing that joins it follows. -/
theorem next_token (ht : ExprToken t) (hrest : ∀ d, rest.head? = some d → d ∉ blockers t) :
    next scannerRules (t.text ++ rest) = some (some t, rest) := by
  cases ht with
  | ident s h => exact next_ident h hrest
  | intNumber n h =>
    rw [text_intNumber h]
    have htake := next_number (.inl rfl) (decimal_digits n) (decimal_ne_nil n) hrest
    rwa [List.nil_append, atoi_decimal h] at htake
  | keyword k h => exact next_keyword h hrest
  | self c h => exact next_symbol h hrest
  | pair c d t h =>
    rw [(text_pair h).1]
    exact next_pair h rest

theorem letters_or_digit : ∀ c ∈ letters ++ digits, c ∉ spaces := by decide

/-- The first byte of a token, which is no space. -/
theorem text_head (ht : ExprToken t) : ∃ c cs, t.text = c :: cs ∧ c ∉ spaces := by
  cases ht with
  | ident s h =>
    obtain ⟨c, cs, hs, hc⟩ := identify_letter h.1
    exact ⟨c, cs, hs, letters_or_digit c (List.mem_append_left _ hc)⟩
  | intNumber n h =>
    obtain ⟨c, cs, hs⟩ := List.exists_cons_of_ne_nil (decimal_ne_nil n)
    refine ⟨c, cs, (text_intNumber h).trans hs,
      letters_or_digit c (List.mem_append_right _ ?_)⟩
    exact decimal_digits n c (hs ▸ List.mem_cons_self)
  | keyword k h =>
    obtain ⟨⟨c, cs, hs, hc⟩, -⟩ := keyword_letters k h
    exact ⟨c, cs, hs, letters_or_digit c (List.mem_append_left _ hc)⟩
  | self c h =>
    have hsymbols : ∀ c ∈ symbols, c ∉ spaces := by decide
    exact ⟨c, [], rfl, hsymbols c h⟩
  | pair c d t h =>
    have hpairs : ∀ p ∈ pairs, p.1 ∉ spaces := by decide
    exact ⟨c, [d], (text_pair h).1, hpairs _ h⟩

/-- No token is joined by a space. -/
theorem space_notMem_blockers (ht : ExprToken t) : 32 ∉ blockers t := by
  cases ht with
  | ident s h => exact (by decide : 32 ∉ identBytes)
  | intNumber n h => exact (by decide : 32 ∉ numberBytes)
  | keyword k h => exact (by decide : 32 ∉ identBytes)
  | self c h =>
    have hsymbols : ∀ c ∈ symbols, 32 ∉ joins c := by decide
    exact hsymbols c h
  | pair c d t h =>
    rw [(text_pair h).2]
    exact List.not_mem_nil

theorem symbols_joins : ∀ c ∈ symbols,
    (∀ d ∈ letters, d ∉ joins c) ∧ (c ≠ 45 → ∀ d ∈ digits, d ∉ joins c) ∧
    43 ∉ joins c ∧ (c ≠ 45 → 45 ∉ joins c) := by
  decide

/-- Neighbours without a space between them stay apart: they are no words, not both minus
signs, and not a minus sign and a number. -/
theorem head_notMem_blockers (hx : ExprToken x) (hy : ExprToken y)
    (hadj : Adjacent exprGrammar x y)
    (hxword : x.isWord = false) (hyword : y.isWord = false)
    (hminus : ¬ (x = minus ∧ y = minus))
    (hsigned : ¬ (x = minus ∧ y.isNumber = true)) {d : UInt8} (hd : y.text.head? = some d) :
    d ∉ blockers x := by
  -- behind an operand there is an operator that is a symbol
  have hsymbol (hbinary : (exprGrammar.binary y).isSome) (bs : List UInt8)
      (hsymbols : ∀ c ∈ symbols, c ∉ bs) : d ∉ bs := by
    cases hy with
    | ident | intNumber => cases hbinary
    | keyword => cases hyword
    | self c h =>
      cases hd
      exact hsymbols d h
    | pair c e t h =>
      rw [(text_pair h).1] at hd
      cases hd
      have hpairs : ∀ p ∈ pairs, p.1 ∈ symbols := by decide
      exact hsymbols d (hpairs _ h)
  cases hx with
  | ident s h => exact hsymbol (hadj.1 rfl) identBytes (by decide)
  | intNumber n h => exact hsymbol (hadj.1 rfl) numberBytes (by decide)
  | keyword => cases hxword
  | pair c e t h =>
    rw [(text_pair h).2]
    exact List.not_mem_nil
  | self c h =>
    obtain ⟨hletters, hdigits, hplus, hsign⟩ := symbols_joins c h
    have hnext := hadj.2 rfl
    cases hy with
    | ident s hs =>
      obtain ⟨b, cs, hcs, hb⟩ := identify_letter hs.1
      have hdb : d = b := by
        rw [Token.text, hcs] at hd
        exact (Option.some.inj hd).symm
      exact hdb ▸ hletters b hb
    | intNumber n hn =>
      refine hdigits (fun hc => hsigned ⟨congrArg Token.self hc, rfl⟩) d
        (decimal_digits n d ?_)
      rw [text_intNumber hn] at hd
      exact List.mem_of_mem_head? hd
    | keyword => cases hyword
    | self b hb =>
      cases hd
      rcases hnext with hoperand | hunary
      · cases hoperand
      · change (if d = 43 ∨ d = 45 then some 8 else none).isSome = true at hunary
        split at hunary
        next hsgn =>
          rcases hsgn with rfl | rfl
          · exact hplus
          · exact hsign fun hc => hminus ⟨congrArg Token.self hc, rfl⟩
        next => cases hunary
    | pair b e t hb =>
      have hpairs : ∀ p ∈ pairs, exprGrammar.operand p.2.2 = false ∧
          (exprGrammar.unary p.2.2).isSome = false := by
        decide
      obtain ⟨hoperand, hunary⟩ := hpairs _ hb
      simp only at hoperand hunary
      rw [hoperand, hunary] at hnext
      rcases hnext with hfalse | hfalse <;> cases hfalse

end Tokens

/-! ## The text -/

/-- Words have a space around them, and two minus signs one between them. -/
def Spaced (x y : Nat × Token) : Prop :=
  y.1 = 0 → x.2.isWord = false ∧ y.2.isWord = false ∧ ¬ (x.2 = minus ∧ y.2 = minus)

/-- A minus sign directly in front of a number. -/
def Signed (x y : Nat × Token) : Prop := x.2 = minus ∧ y.1 = 0 ∧ y.2.isNumber = true

instance (x y : Nat × Token) : Decidable (Signed x y) :=
  inferInstanceAs (Decidable (_ ∧ _ ∧ _))

/-- The tokens that are scanned: a number takes the sign directly in front of it. -/
def mergeSigns : List (Nat × Token) → List Token
  | [] => []
  | [x] => [x.2]
  | x :: y :: items =>
    if Signed x y then .intNumber (atoi (x.2.text ++ y.2.text)) :: mergeSigns items
    else x.2 :: mergeSigns (y :: items)

section Items

variable {x y : Nat × Token} {items : List (Nat × Token)}

theorem render_cons (x : Nat × Token) (items : List (Nat × Token)) :
    render (x :: items) = List.replicate x.1 32 ++ (x.2.text ++ render items) := by
  rw [render, List.flatMap_cons, List.append_assoc, render]

/-- What is printed behind a token begins with a space, or with the next token. -/
theorem head_render (hitems : ∀ y ∈ items, ExprToken y.2) {d : UInt8}
    (hd : (render items).head? = some d) :
    ∃ y rest, items = y :: rest ∧ (y.1 ≠ 0 ∧ d = 32 ∨ y.1 = 0 ∧ y.2.text.head? = some d) := by
  rcases items with _ | ⟨⟨n, t⟩, items⟩
  · cases hd
  · refine ⟨(n, t), items, rfl, ?_⟩
    rw [render_cons] at hd
    cases n with
    | zero =>
      obtain ⟨c, cs, ht, -⟩ := text_head (hitems _ List.mem_cons_self)
      refine .inr ⟨rfl, ?_⟩
      simp only at ht hd ⊢
      rw [ht] at hd ⊢
      exact hd
    | succ n => exact .inl ⟨Nat.succ_ne_zero n, (Option.some.inj hd).symm⟩

/-- What may stand around an item. -/
structure Neighbours (x y : Nat × Token) : Prop where
  adjacent : Adjacent exprGrammar x.2 y.2
  spaced : Spaced x y

theorem ends_item (hx : ExprToken x.2) (hitems : ∀ y ∈ items, ExprToken y.2)
    (hchain : (x :: items).IsChain Neighbours)
    (hsigned : ∀ y ∈ items.head?, ¬ Signed x y) (d : UInt8)
    (hd : (render items).head? = some d) : d ∉ blockers x.2 := by
  obtain ⟨y, rest, rfl, ⟨-, rfl⟩ | ⟨hzero, hhead⟩⟩ := head_render hitems hd
  · exact space_notMem_blockers hx
  · have hneighbours := (List.isChain_cons_cons.mp hchain).1
    obtain ⟨hxword, hyword, hminus⟩ := hneighbours.spaced hzero
    exact head_notMem_blockers hx
      (hitems y List.mem_cons_self) hneighbours.adjacent hxword hyword hminus
      (fun h => hsigned y rfl ⟨h.1, hzero, h.2⟩) hhead

/-- Spaces and a token are scanned to the token. -/
theorem scan_spaces_append {n : Nat} {text rest : List UInt8} {t : Token}
    (hhead : ∃ c cs, text = c :: cs ∧ c ∉ spaces)
    (hnext : next scannerRules (text ++ rest) = some (some t, rest)) :
    scan (List.replicate n 32 ++ (text ++ rest)) = t :: scan rest := by
  have htoken : scan (text ++ rest) = t :: scan rest := scan_of_next hnext
  cases n with
  | zero => exact htoken
  | succ n =>
    obtain ⟨c, cs, rfl, hc⟩ := hhead
    rw [scan_of_next (next_spaces n (by rintro d ⟨⟩; exact hc)), htoken]
    rfl

/-- The text of the tokens of an expression is scanned to them, but for the signs that numbers
take. -/
theorem scan_render (hitems : ∀ x ∈ items, ExprToken x.2)
    (hchain : items.IsChain Neighbours) :
    scan (render items) = mergeSigns items := by
  induction items using mergeSigns.induct with
  | case1 => rfl
  | case2 x =>
    have hx := hitems x List.mem_cons_self
    have hnext : next scannerRules (x.2.text ++ render []) = some (some x.2, render []) :=
      next_token hx fun d hd => by cases hd
    rw [render_cons, scan_spaces_append (text_head hx) hnext]
    rfl
  | case3 x y items hsigned ih =>
    obtain ⟨hy, hrest⟩ := List.forall_mem_cons.mp (List.forall_mem_cons.mp hitems).2
    obtain ⟨hx, hzero, hnumber⟩ := hsigned
    obtain ⟨m, t⟩ := x
    obtain ⟨n, u⟩ := y
    obtain rfl : t = minus := hx
    obtain rfl : n = 0 := hzero
    have hends := ends_item hy hrest (List.isChain_cons_cons.mp hchain).2
        (by rintro z - ⟨hminus, -⟩; rw [hminus] at hnumber; cases hnumber)
    rw [mergeSigns, if_pos ⟨rfl, rfl, hnumber⟩,
      ← ih hrest (List.isChain_cons_cons.mp hchain).2.tail]
    cases hy with
    | ident => cases hnumber
    | keyword => cases hnumber
    | self => cases hnumber
    | pair c d t h => exact absurd hnumber (pairs_isNumber _ h)
    | intNumber k hk =>
      have hnext := next_number (.inr rfl) (decimal_digits k) (decimal_ne_nil k) hends
      have htext : minus.text ++ (Token.intNumber (BitVec.ofNat 32 k)).text =
          [45] ++ decimal k := by
        rw [text_intNumber hk]
        rfl
      rw [render_cons, render_cons, List.replicate_zero, List.nil_append,
        ← List.append_assoc minus.text, htext]
      exact scan_spaces_append ⟨45, decimal k, rfl, by decide⟩ hnext
  | case4 x y items hsigned ih =>
    obtain ⟨hx, hrest⟩ := List.forall_mem_cons.mp hitems
    rw [render_cons, scan_spaces_append (text_head hx) (next_token hx ?_),
      ih hrest hchain.tail, mergeSigns, if_neg hsigned]
    exact ends_item hx hrest hchain (by rintro _ ⟨⟩; exact hsigned)

/-- Without a sign in front of a number all tokens are kept. -/
theorem mergeSigns_eq (h : items.IsChain fun x y => ¬ Signed x y) :
    mergeSigns items = items.map Prod.snd := by
  induction items using mergeSigns.induct with
  | case1 => rfl
  | case2 x => rfl
  | case3 x y items hsigned _ => exact absurd hsigned (List.isChain_cons_cons.mp h).1
  | case4 x y items hsigned ih =>
    rw [mergeSigns, if_neg hsigned, ih (List.isChain_cons_cons.mp h).2,
      List.map_cons, List.map_cons,
    List.map_cons]

theorem length_mergeSigns_le (items : List (Nat × Token)) :
    (mergeSigns items).length ≤ items.length := by
  induction items using mergeSigns.induct with
  | case1 => exact Nat.le_refl 0
  | case2 x => exact Nat.le_refl 1
  | case3 x y items hsigned ih =>
    rw [mergeSigns, if_pos hsigned]
    simp only [List.length_cons]
    omega
  | case4 x y items hsigned ih =>
    rw [mergeSigns, if_neg hsigned]
    simp only [List.length_cons] at ih ⊢
    omega

/-- Each sign that a number takes is a token less. -/
theorem length_mergeSigns (h : ¬ items.IsChain fun x y => ¬ Signed x y) :
    (mergeSigns items).length < items.length := by
  induction items using mergeSigns.induct with
  | case1 => exact absurd List.isChain_nil h
  | case2 x => exact absurd (List.isChain_singleton x) h
  | case3 x y items hsigned _ =>
    have hle := length_mergeSigns_le items
    rw [mergeSigns, if_pos hsigned]
    simp only [List.length_cons]
    omega
  | case4 x y items hsigned ih =>
    have hlt := ih fun hchain => h (List.isChain_cons_cons.mpr ⟨hsigned, hchain⟩)
    rw [mergeSigns, if_neg hsigned]
    simp only [List.length_cons] at hlt ⊢
    omega

end Items

/-! ## The tree -/

/-- The operands and operators of an expression. -/
def ExprNode.size : ExprNode → Nat
  | .aExpr _ left right => 1 + left.size + right.size
  | .boolExpr _ left right => 1 + left.size + right.size
  | .notExpr arg => 1 + arg.size
  | .columnRef _ | .constValue _ | .functionClause _ => 1
  | .null => 0

section Tree

variable {atof : List UInt8 → BitVec 32} {t : Token} {e : Precedence.Tree Token}

theorem size_unaryNode (h : (exprGrammar.unary t).isSome) (arg : ExprNode) :
    (unaryNode t arg).size = 1 + arg.size := by
  cases t with
  | keyword k => cases k <;> first | rfl | cases h
  | self c => rfl
  | _ => cases h

theorem size_binaryNode (t : Token) (left right : ExprNode) :
    (binaryNode t left right).size = 1 + left.size + right.size := by
  cases t with
  | keyword k => cases k <;> rfl
  | _ => rfl

theorem size_operandNode (h : exprGrammar.operand t = true) :
    (operandNode atof t).size = 1 := by
  cases t with
  | ident | string | intNumber | floatNumber => rfl
  | _ => cases h

/-- Each token of a tree makes a node. -/
theorem size_exprNode (h : WellFormed exprGrammar e) :
    (exprNode atof e).size = e.tokens.length := by
  induction e with
  | leaf t => exact size_operandNode h
  | unary t arg ih =>
    obtain ⟨-, hunary, harg⟩ := h
    rw [exprNode, size_unaryNode hunary, ih harg, Precedence.Tree.tokens,
      List.length_cons, Nat.add_comm]
  | binary t left right ihl ihr =>
    obtain ⟨-, hleft, hright⟩ := h
    rw [exprNode, size_binaryNode, ihl hleft, ihr hright, Precedence.Tree.tokens,
      List.length_append, List.length_cons]
    omega

/-- What is parsed has as many nodes as there are tokens. -/
theorem size_parseExpr {tokens : List Token} {node : ExprNode}
    (h : parseExpr atof tokens = some node) :
    node.size = tokens.length := by
  obtain ⟨tree, htree, rfl⟩ := Option.map_eq_some_iff.mp h
  obtain ⟨rfl, hmade⟩ := Precedence.parse_some htree
  exact size_exprNode hmade.wellFormed

end Tree

section Expression

variable {atof : List UInt8 → BitVec 32} {e : Expr}

theorem binaryNode_token (op : BinaryOp) (left right : ExprNode) :
    binaryNode op.token left right = op.node left right := by
  cases op <;> rfl

theorem exprNode_tree (e : Expr) : exprNode atof e.tree = e.node := by
  induction e with
  | column name h => rfl
  | integer n h => rfl
  | negative arg ih => rw [Expr.tree, exprNode, ih, Expr.node]; rfl
  | not arg ih => rw [Expr.tree, exprNode, ih, Expr.node]; rfl
  | binary op left right ihl ihr =>
    rw [Expr.tree, exprNode, ihl, ihr, binaryNode_token, Expr.node]

theorem isSome_token (op : BinaryOp) : (exprGrammar.binary op.token).isSome := by
  cases op <;> rfl

theorem wellFormed_tree (e : Expr) : WellFormed exprGrammar e.tree := by
  induction e with
  | column name h => rfl
  | integer n h => rfl
  | negative arg ih => exact ⟨rfl, rfl, ih⟩
  | not arg ih => exact ⟨rfl, rfl, ih⟩
  | binary op left right ihl ihr => exact ⟨isSome_token op, ihl, ihr⟩

theorem exprToken_token (op : BinaryOp) : ExprToken op.token := by
  cases op with
  | or => exact .keyword .or (by decide)
  | and => exact .keyword .and (by decide)
  | lessEqual => exact .pair 60 61 .lessEq (by decide)
  | greaterEqual => exact .pair 62 61 .greaterEq (by decide)
  | notEqual => exact .pair 60 62 .notEq (by decide)
  | less | equal | greater | plus | minus | multiple | division | mod =>
    exact .self _ (by decide)

theorem exprToken_tokens (e : Expr) : ∀ t ∈ e.tree.tokens, ExprToken t := by
  induction e with
  | column name h => exact List.forall_mem_singleton.mpr (.ident name h)
  | integer n h => exact List.forall_mem_singleton.mpr (.intNumber n h)
  | negative arg ih => exact List.forall_mem_cons.mpr ⟨.self 45 (by decide), ih⟩
  | not arg ih => exact List.forall_mem_cons.mpr ⟨.keyword .not (by decide), ih⟩
  | binary op left right ihl ihr =>
    exact List.forall_mem_append.mpr ⟨ihl, List.forall_mem_cons.mpr ⟨exprToken_token op, ihr⟩⟩

theorem operand_of_binary {t : Token} (h : (exprGrammar.binary t).isSome) :
    exprGrammar.operand t = false := by
  cases t with
  | ident | string | intNumber | floatNumber => cases h
  | _ => rfl

/-- The items of an expression's tokens. -/
theorem chain_fits {items : List (Nat × Token)} (htokens : items.map Prod.snd = e.tree.tokens)
    (hspaced : items.IsChain Spaced) : items.IsChain Neighbours := by
  have hadjacent :=
    (Precedence.tokens_chain (fun t => operand_of_binary) (wellFormed_tree e)).1
  rw [← htokens, List.isChain_map,
    List.isChain_iff_forall_rel_of_append_cons_cons] at hadjacent
  rw [List.isChain_iff_forall_rel_of_append_cons_cons] at hspaced ⊢
  exact fun x y before after hsplit => ⟨hadjacent hsplit, hspaced hsplit⟩

/-- The text of an expression that needs no parentheses is parsed to it exactly when no minus
sign stands directly in front of a digit. -/
theorem exprText_iff (atof : List UInt8 → BitVec 32) (e : Expr)
    (h : Unbracketed exprGrammar e.tree)
    (items : List (Nat × Token)) (htokens : items.map Prod.snd = e.tree.tokens)
    (hspaced : items.IsChain Spaced) :
    parseExpr atof (scan (render items)) = some e.node ↔
      items.IsChain fun x y => ¬ Signed x y := by
  have hitems : ∀ x ∈ items, ExprToken x.2 :=
    fun x hx => exprToken_tokens e x.2 (htokens ▸ List.mem_map_of_mem hx)
  have hlength : items.length = e.tree.tokens.length := by rw [← htokens, List.length_map]
  rw [scan_render hitems (chain_fits htokens hspaced)]
  constructor
  · intro hparse
    by_contra hsigned
    have hlt := length_mergeSigns hsigned
    have hsize := size_parseExpr hparse
    have htree : exprNode atof e.tree = e.node := exprNode_tree e
    rw [← htree, size_exprNode (wellFormed_tree e)] at hsize
    omega
  · intro hchain
    rw [mergeSigns_eq hchain, htokens, parseExpr,
      Precedence.parse_tokens (wellFormed_tree e) h, Option.map_some,
      exprNode_tree]

end Expression

theorem isIdentifier_a : IsIdentifier (cString (ascii "a")).val := by decide

theorem lt_one : 1 < 2 ^ 31 := by decide

/-- `a - 1`. -/
def aMinusOne : Expr :=
  .binary .minus (.column (cString (ascii "a")) isIdentifier_a) (.integer 1 lt_one)

/-- Its tokens, with a number of spaces in front of the minus sign and of the digit. -/
def aMinusOneItems (m n : Nat) : List (Nat × Token) :=
  [(0, .ident (cString (ascii "a"))), (m, minus), (n, .intNumber 1)]

/-- `a - 1`, with spaces. -/
theorem exprText_spaced :
    parseExpr (fun _ => 0) (scan (render (aMinusOneItems 1 1))) = some aMinusOne.node :=
  (exprText_iff (fun _ => 0) aMinusOne ⟨trivial, trivial, nofun, nofun⟩
    (aMinusOneItems 1 1) rfl
    (by simp [aMinusOneItems, Spaced])).mpr (by decide)

/-- `a-1` is the column and the number -1, with nothing between them. -/
theorem exprText_signed : Unbracketed exprGrammar aMinusOne.tree ∧
    (aMinusOneItems 0 0).map Prod.snd = aMinusOne.tree.tokens ∧
      (aMinusOneItems 0 0).IsChain Spaced ∧
    render (aMinusOneItems 0 0) = ascii "a-1" ∧
    parseExpr (fun _ => 0) (scan (ascii "a-1")) = none ∧ some aMinusOne.node ≠ none := by
  refine ⟨⟨trivial, trivial, nofun, nofun⟩, rfl, ?_, by decide, ?_, Option.some_ne_none _⟩
  · simp [aMinusOneItems, Spaced, minus, Token.isWord]
  · have hscan : scan (ascii "a-1") = [.ident (cString (ascii "a")), .intNumber (-1)] := by
      decide +kernel
    rw [hscan]
    rfl

end Toadb
