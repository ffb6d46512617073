/-
Toadb.Parser.StringLiteralTheorems — do string literals survive the scanner?

Between its quotes a string is matched piece by piece: a backslash and a byte,
two quotes, or any other byte (`mem_piece`). A backslash is one of the other
bytes as well, so the longest match takes a backslash in front of the closing
quote together with it whenever there is a further quote on the line
(`quote_in_body`). Two quotes stay two in the value (`stringValue_writeLiteral`).
-/
import Toadb.Parser.Scanner
import Toadb.Storage.TuplesTheorems

namespace Toadb

open Scanner

/-! ## Literals -/

/-- A single quote. -/
def quote : UInt8 := 39

/-- A string with each single quote doubled. -/
def doubleQuotes (s : List UInt8) : List UInt8 :=
  s.flatMap fun c => if c = quote then [quote, quote] else [c]

/-- A string as a literal. -/
def writeLiteral (s : CString) : List UInt8 := quote :: (doubleQuotes s.val ++ [quote])

/-- The rest of a line. -/
def line (text : List UInt8) : List UInt8 := text.takeWhile (· ≠ 10)

/-- The literal in front of the text is one token with its value. -/
def Survives (s rest : CString) : Prop :=
  next scannerRules (writeLiteral s ++ rest.val) = some (some (.string s), rest.val)

theorem doubleQuotes_cons (c : UInt8) (s : List UInt8) :
    doubleQuotes (c :: s) = (if c = quote then [quote, quote] else [c]) ++
      doubleQuotes s := by
  rw [doubleQuotes, List.flatMap_cons, doubleQuotes]

/-- A string with a quote gets longer. -/
theorem doubleQuotes_eq_self_iff {s : List UInt8} : doubleQuotes s = s ↔ quote ∉ s := by
  have hle (s : List UInt8) : s.length ≤ (doubleQuotes s).length := by
    induction s with
    | nil => exact Nat.le_refl 0
    | cons c s ih =>
      rw [doubleQuotes_cons, List.length_append, List.length_cons]
      split <;> simp <;> omega
  induction s with
  | nil => exact ⟨fun _ => List.not_mem_nil, fun _ => rfl⟩
  | cons c s ih =>
    rw [doubleQuotes_cons, List.mem_cons, not_or]
    by_cases hc : c = quote
    · rw [if_pos hc]
      constructor
      · intro h
        have hlen := congrArg List.length h
        have hrest := hle s
        simp only [List.length_append, List.length_cons, List.length_nil] at hlen
        omega
      · rintro ⟨hne, -⟩
        exact absurd hc.symm hne
    · rw [if_neg hc, List.singleton_append, List.cons_inj_right]
      exact ⟨fun h => ⟨fun heq => hc heq.symm, ih.mp h⟩, fun h => ih.mpr h.2⟩

theorem mem_doubleQuotes {c : UInt8} {s : List UInt8} (h : c ∈ doubleQuotes s) : c ∈ s := by
  obtain ⟨d, hd, hc⟩ := List.mem_flatMap.mp h
  split at hc
  next heq =>
    subst heq
    rcases List.mem_pair.mp hc with rfl | rfl <;> exact hd
  next => exact List.mem_singleton.mp hc ▸ hd

/-! ## Between the quotes -/

section Body

variable {q : UInt8} {x y w : List UInt8}

theorem mem_noneOf {c : UInt8} {cs : List UInt8} : c ∈ noneOf cs ↔ c ∉ cs := by
  have hc : c ∈ (List.range 256).map UInt8.ofNat :=
    List.mem_map.mpr ⟨c.toNat, List.mem_range.mpr c.toNat_lt, UInt8.ofNat_toNat⟩
  rw [noneOf, List.mem_filter]
  simp [hc]

/-- One piece of a string. -/
def piece (q : UInt8) : RegularExpression UInt8 :=
  word [92] * oneOf (noneOf [10]) + word [q, q] + oneOf (noneOf [q, 10])

theorem mem_piece : w ∈ (piece q).matches' ↔
    (∃ c, c ≠ 10 ∧ w = [92, c]) ∨ w = [q, q] ∨ ∃ c, c ≠ q ∧ c ≠ 10 ∧ w = [c] := by
  have hpair : w ∈ (word [92] * oneOf (noneOf [10])).matches' ↔
      ∃ c, c ≠ 10 ∧ w = [92, c] := by
    rw [mem_mul]
    constructor
    · rintro ⟨a, ha, b, hb, rfl⟩
      obtain ⟨c, hc, rfl⟩ := mem_oneOf.mp hb
      rw [mem_word.mp ha]
      exact ⟨c, List.mem_singleton.not.mp (mem_noneOf.mp hc), rfl⟩
    · rintro ⟨c, hc, rfl⟩
      exact ⟨[92], mem_word.mpr rfl, [c],
        mem_oneOf.mpr ⟨c, mem_noneOf.mpr (List.mem_singleton.not.mpr hc), rfl⟩, rfl⟩
  have hother : w ∈ (oneOf (noneOf [q, 10])).matches' ↔ ∃ c, c ≠ q ∧ c ≠ 10 ∧ w = [c] := by
    rw [mem_oneOf]
    simp only [mem_noneOf, List.mem_pair, not_or, and_assoc]
  rw [piece, RegularExpression.matches'_add, RegularExpression.matches'_add,
    Language.mem_add, Language.mem_add,
    hpair, mem_word, hother, or_assoc]

theorem quotedPattern_eq (q : UInt8) :
    quotedPattern q = .char q * ((piece q).star * .char q) := rfl

theorem mem_quotedPattern :
    w ∈ (quotedPattern q).matches' ↔ ∃ body ∈ (piece q).star.matches',
      w = q :: (body ++ [q]) := by
  rw [quotedPattern_eq, mem_mul]
  constructor
  · rintro ⟨a, rfl, b, hb, rfl⟩
    obtain ⟨body, hbody, c, rfl, rfl⟩ := mem_mul.mp hb
    exact ⟨body, hbody, rfl⟩
  · rintro ⟨body, hbody, rfl⟩
    exact ⟨[q], rfl, body ++ [q], mem_mul.mpr ⟨body, hbody, [q], rfl, rfl⟩, rfl⟩

theorem append_mem_body (hx : x ∈ (piece q).star.matches')
    (hy : y ∈ (piece q).star.matches') :
    x ++ y ∈ (piece q).star.matches' := by
  obtain ⟨L, rfl, hL⟩ := mem_star.mp hx
  obtain ⟨L', rfl, hL'⟩ := mem_star.mp hy
  refine mem_star.mpr ⟨L ++ L', List.flatten_append.symm, ?_⟩
  intro z hz
  exact (List.mem_append.mp hz).elim (hL z) (hL' z)

theorem piece_mem_body (h : w ∈ (piece q).matches') : w ∈ (piece q).star.matches' :=
  mem_star.mpr ⟨[w], by simp, fun y hy => List.mem_singleton.mp hy ▸ h⟩

/-- A text without quotes, on one line. -/
theorem mem_body_of_plain (hq : q ∉ w) (hn : 10 ∉ w) : w ∈ (piece q).star.matches' := by
  induction w with
  | nil => exact Language.nil_mem_kstar _
  | cons c w ih =>
    obtain ⟨hcq, hwq⟩ := not_or.mp (List.mem_cons.not.mp hq)
    obtain ⟨hcn, hwn⟩ := not_or.mp (List.mem_cons.not.mp hn)
    exact append_mem_body (piece_mem_body
      (mem_piece.mpr (.inr (.inr ⟨c, Ne.symm hcq, Ne.symm hcn, rfl⟩)))) (ih hwq hwn)

/-- The first quote between the quotes has a backslash in front of it, or a quote behind
it. -/
theorem quote_in_body (hq : q ≠ 92) (h : x ++ q :: y ∈ (piece q).star.matches') (hx : q ∉ x) :
    x.getLast? = some 92 ∨ y.head? = some q := by
  obtain ⟨L, heq, hL⟩ := mem_star.mp h
  clear h
  induction L generalizing x with
  | nil => simp at heq
  | cons z L ih =>
    obtain ⟨hz, hrest⟩ := List.forall_mem_cons.mp hL
    rw [List.flatten_cons] at heq
    rcases mem_piece.mp hz with ⟨c, -, rfl⟩ | rfl | ⟨c, hc, -, rfl⟩
    · -- a backslash and a byte
      rcases x with _ | ⟨b, _ | ⟨d, x⟩⟩
      · cases hq (List.cons.inj heq).1
      · exact .inl (congrArg some (List.cons.inj heq).1)
      · obtain ⟨-, htail⟩ := List.cons.inj heq
        obtain ⟨-, htail⟩ := List.cons.inj htail
        have hx' : q ∉ x := fun hmem =>
            hx (List.mem_cons_of_mem _ (List.mem_cons_of_mem _ hmem))
        refine (ih hx' htail hrest).imp_left fun hlast => ?_
        rw [List.getLast?_cons_cons, List.getLast?_cons, hlast]
        rfl
    · -- two quotes
      rcases x with _ | ⟨b, x⟩
      · exact .inr (congrArg List.head? (List.cons.inj heq).2)
      · exact absurd (List.mem_cons.mpr (.inl (List.cons.inj heq).1.symm)) hx
    · rcases x with _ | ⟨b, x⟩
      · cases hc (List.cons.inj heq).1.symm
      · have hx' : q ∉ x := fun hmem => hx (List.mem_cons_of_mem _ hmem)
        refine (ih hx' (List.cons.inj heq).2 hrest).imp_left fun hlast => ?_
        rw [List.getLast?_cons, hlast]
        rfl

end Body

/-! ## The value -/

theorem zero_notMem_doubleQuotes (s : CString) : 0 ∉ doubleQuotes s.val :=
  fun h => s.property (mem_doubleQuotes h)

/-- Only the ends of a literal are stripped. -/
theorem stringValue_writeLiteral (s : CString) :
    (stringValue (writeLiteral s)).val = doubleQuotes s.val := by
  have hzero : 0 ∉ doubleQuotes s.val ++ [quote] := by
    rw [List.mem_append, not_or]
    exact ⟨zero_notMem_doubleQuotes s, by decide⟩
  change (cString (doubleQuotes s.val ++ [quote])).val.dropLast = doubleQuotes s.val
  rw [cString_self ⟨_, hzero⟩]
  exact List.dropLast_concat

theorem stringValue_eq_iff {s : CString} :
    stringValue (writeLiteral s) = s ↔ quote ∉ s.val := by
  rw [Subtype.ext_iff, stringValue_writeLiteral, doubleQuotes_eq_self_iff]

/-! ## The rules -/

/-- Only the rule of the strings has a word that begins with a quote. -/
theorem quote_notMem_firsts : ∀ r ∈ keywordRules ++ symbolRules,
    quote ∉ firsts r.pattern := by
  decide

theorem newline_notMem_alphabet : 10 ∉ alphabet stringPattern := by
  decide +kernel

/-- Only the rule of the strings gives a string. -/
theorem stringRule_of_action {r : Rule UInt8 (Option Token)} {w : List UInt8} {s : CString}
    (hr : r ∈ scannerRules) (h : some (.string s) = r.action w) : r = stringRule := by
  rcases List.mem_append.mp hr with hkeyword | hr
  · obtain ⟨keyword, -, rfl⟩ := List.mem_map.mp hkeyword
    cases h
  · rcases List.mem_cons.mp hr with rfl | hsymbol
    · rfl
    · rw [symbolRules] at hsymbol
      simp only [List.mem_cons, List.not_mem_nil, or_false] at hsymbol
      rcases hsymbol with rfl | rfl | rfl | rfl | rfl | rfl | rfl | rfl <;> cases h

/-! ## The literal in a text -/

section Literal

variable {s rest : CString} {text u v : List UInt8}

/-- The first quote of a line, with what is around it. -/
theorem split_line (h : quote ∈ line text) :
    ∃ before after, text = before ++ quote :: after ∧ quote ∉ before ∧ 10 ∉ before := by
  obtain ⟨before, after, hline, hbefore⟩ := List.eq_append_cons_of_mem h
  refine ⟨before, after ++ text.dropWhile (· ≠ 10), ?_, hbefore, ?_⟩
  · rw [← List.cons_append, ← List.append_assoc, ← hline, line,
      List.takeWhile_append_dropWhile]
  · intro hmem
    have hnewline : 10 ∈ line text := hline ▸ List.mem_append_left _ hmem
    simpa using List.mem_takeWhile_imp hnewline

theorem mem_line {before : List UInt8} {c : UInt8} (hn : 10 ∉ before) (hc : c ∈ before)
    (text : List UInt8) :
    c ∈ line (before ++ text) := by
  rw [line, List.takeWhile_append_of_pos]
  · exact List.mem_append_left _ hc
  · intro b hb
    refine decide_eq_true ?_
    rintro rfl
    exact hn hb

/-- A literal whose value has no quote. -/
theorem writeLiteral_eq (h : quote ∉ s.val) :
    writeLiteral s = quote :: (s.val ++ [quote]) := by
  rw [writeLiteral, doubleQuotes_eq_self_iff.mpr h]

/-- A match that goes beyond the literal ends with a quote of the same line. The literal's own
closing quote is then taken with a backslash in front of it, or with a quote behind it. -/
theorem longer_match (hs : quote ∉ s.val) (hu : u ∈ stringPattern.matches')
    (heq : u = writeLiteral s ++ v) (hv : v ≠ []) (hpre : v <+: text) :
    (s.val.getLast? = some 92 ∧ quote ∈ line text) ∨
      text.head? = some quote ∧ quote ∈ line text.tail := by
  have hnewline : 10 ∉ u := fun hmem => newline_notMem_alphabet (mem_alphabet hu 10 hmem)
  have hsingle : u ∈ (quotedPattern quote).matches' := by
    rcases hu with hsingle | hdouble
    · exact hsingle
    · obtain ⟨body, -, hbody⟩ := mem_quotedPattern.mp hdouble
      rw [heq, writeLiteral] at hbody
      cases (List.cons.inj hbody).1
  obtain ⟨body, hbody, hword⟩ := mem_quotedPattern.mp hsingle
  obtain ⟨v', c, rfl⟩ := (List.eq_nil_or_concat' v).resolve_left hv
  obtain ⟨after, rfl⟩ := hpre
  have hends : body ++ [quote] = (s.val ++ quote :: v') ++ [c] := by
    rw [heq, writeLiteral_eq hs] at hword
    have htail := (List.cons.inj hword).2
    simpa using htail.symm
  obtain ⟨rfl, hc⟩ := List.append_inj' hends rfl
  obtain rfl : quote = c := (List.cons.inj hc).1
  have hn : 10 ∉ v' ++ [quote] := fun hmem => hnewline (heq ▸ List.mem_append_right _ hmem)
  rcases quote_in_body (by decide) hbody hs with hbackslash | hquote
  · exact .inl ⟨hbackslash,
      mem_line hn (List.mem_append_right _ (List.mem_singleton_self _)) after⟩
  · obtain ⟨v'', rfl⟩ := List.head?_eq_some_iff.mp hquote
    refine .inr ⟨rfl, ?_⟩
    exact mem_line (fun hmem => hn (List.mem_cons_of_mem _ hmem))
      (List.mem_append_right v'' (List.mem_singleton_self _)) after

/-- A backslash at the end of the string takes the closing quote along. -/
theorem match_backslash (hs : quote ∉ s.val) (hn : 10 ∉ s.val)
    (hlast : s.val.getLast? = some 92)
    {before : List UInt8} (hq : quote ∉ before) (hbefore : 10 ∉ before) :
    writeLiteral s ++ (before ++ [quote]) ∈ stringPattern.matches' := by
  obtain ⟨init, hinit⟩ := List.getLast?_eq_some_iff.mp hlast
  have hpair : [92, quote] ∈ (piece quote).star.matches' :=
    piece_mem_body (mem_piece.mpr (.inl ⟨quote, by decide, rfl⟩))
  have hinitBody : init ∈ (piece quote).star.matches' :=
    mem_body_of_plain (fun h => hs (hinit ▸ List.mem_append_left _ h))
      (fun h => hn (hinit ▸ List.mem_append_left _ h))
  refine .inl (mem_quotedPattern.mpr ⟨init ++ ([92, quote] ++ before), ?_, ?_⟩)
  · exact append_mem_body hinitBody (append_mem_body hpair (mem_body_of_plain hq hbefore))
  · rw [writeLiteral_eq hs, hinit]
    simp [quote]

/-- A quote behind the literal makes a pair with the closing one. -/
theorem match_pair (hs : quote ∉ s.val) (hn : 10 ∉ s.val) {before : List UInt8}
    (hq : quote ∉ before) (hbefore : 10 ∉ before) :
    writeLiteral s ++ (quote :: before ++ [quote]) ∈ stringPattern.matches' := by
  have hpair : [quote, quote] ∈ (piece quote).star.matches' :=
    piece_mem_body (mem_piece.mpr (.inr (.inl rfl)))
  refine .inl (mem_quotedPattern.mpr ⟨s.val ++ ([quote, quote] ++ before), ?_, ?_⟩)
  · exact append_mem_body (mem_body_of_plain hs hn)
      (append_mem_body hpair (mem_body_of_plain hq hbefore))
  · rw [writeLiteral_eq hs]
    simp [quote]

/-- The literal of a string without quotes is taken when no match goes beyond it. -/
theorem survives_of_no_longer (hs : quote ∉ s.val) (hn : 10 ∉ s.val)
    (hbackslash : s.val.getLast? = some 92 → quote ∉ line rest.val)
    (hquote : rest.val.head? = some quote → quote ∉ line rest.val.tail) :
    Survives s rest := by
  have hmatch : writeLiteral s ∈ stringPattern.matches' :=
    .inl (mem_quotedPattern.mpr ⟨s.val, mem_body_of_plain hs hn, writeLiteral_eq hs⟩)
  have hother {r : Rule UInt8 (Option Token)}
      (hr : r ∈ keywordRules ++ symbolRules) {u : List UInt8}
      (hu : u ∈ r.pattern.matches') (hpre : u <+: writeLiteral s ++ rest.val) : u = [] := by
    rcases u with _ | ⟨b, u⟩
    · rfl
    · obtain rfl : b = quote := (List.cons_prefix_cons.mp hpre).1
      exact absurd (mem_firsts hu) (quote_notMem_firsts r hr)
  have htake : next scannerRules (writeLiteral s ++ rest.val) =
      some (stringRule.action (writeLiteral s), rest.val) := by
    refine next_eq (List.cons_ne_nil _ _) hmatch ?_ ?_
    · intro r hr u hu hpre
      rcases List.mem_append.mp hr with hkeyword | hr
      · rw [hother (List.mem_append_left _ hkeyword) hu hpre]
        exact Nat.zero_le _
      · rcases List.mem_cons.mp hr with rfl | hsymbol
        · by_contra hlong
          obtain ⟨v, rfl⟩ :=
            List.prefix_of_prefix_length_le (List.prefix_append _ _) hpre (by omega)
          have hv : v ≠ [] := by
            rintro rfl
            simp at hlong
          rcases longer_match hs hu rfl hv
            ((List.prefix_append_right_inj _).mp hpre) with ⟨hlast, hmem⟩ | ⟨hhead, hmem⟩
          · exact hbackslash hlast hmem
          · exact hquote hhead hmem
        · rw [hother (List.mem_append_right _ hsymbol) hu hpre]
          exact Nat.zero_le _
    · intro r hr hmem
      exact absurd (hother (List.mem_append_left _ hr) hmem (List.prefix_append _ _))
        (List.cons_ne_nil _ _)
  rw [Survives, htake]
  exact congrArg (fun value => some (some (Token.string value), rest.val))
    (stringValue_eq_iff.mpr hs)

/-- What goes beyond a literal that is taken is not matched. -/
theorem Survives.not_longer (h : Survives s rest)
    (hu : writeLiteral s ++ v ∈ stringPattern.matches') (hv : v ≠ []) :
    ¬ v <+: rest.val := by
  intro hpre
  obtain ⟨r, hr, w, -, -, hw, -, hmost⟩ := next_some h
  obtain rfl := List.append_cancel_right hw
  have hlen := hmost stringRule (List.mem_append_right _ List.mem_cons_self) _ hu
    ((List.prefix_append_right_inj _).mpr hpre)
  rw [List.length_append] at hlen
  exact hv (List.length_eq_zero_iff.mp (by omega))

end Literal

/-- A literal is scanned as one token with the string as its value, and ends at its own
closing quote, exactly when the string has no quote, and the line has no quote to which the
match could go on: none at all behind a backslash at the string's end, and none but the first
behind a quote that follows directly. -/
theorem stringLiteral_iff {s : CString} (hn : 10 ∉ s.val) (rest : CString) :
    Survives s rest ↔ quote ∉ s.val ∧ (s.val.getLast? = some 92 → quote ∉ line rest.val) ∧
      (rest.val.head? = some quote → quote ∉ line rest.val.tail) := by
  constructor
  · intro h
    have hs : quote ∉ s.val := by
      obtain ⟨r, hr, w, -, -, hw, hvalue, -⟩ := next_some h
      obtain rfl := List.append_cancel_right hw
      obtain rfl := stringRule_of_action hr hvalue
      exact stringValue_eq_iff.mp (Token.string.inj (Option.some.inj hvalue)).symm
    refine ⟨hs, ?_, ?_⟩
    · intro hlast hmem
      obtain ⟨before, after, htext, hq, hbefore⟩ := split_line hmem
      refine h.not_longer (match_backslash hs hn hlast hq hbefore) (by simp) ⟨after, ?_⟩
      rw [htext]
      simp
    · intro hhead hmem
      obtain ⟨tail, htail⟩ := List.head?_eq_some_iff.mp hhead
      rw [htail] at hmem
      obtain ⟨before, after, htext, hq, hbefore⟩ := split_line hmem
      refine h.not_longer (match_pair hs hn hq hbefore) (by simp) ⟨after, ?_⟩
      change tail = _ at htext
      rw [htail, htext]
      simp
  · rintro ⟨hs, hbackslash, hquote⟩
    exact survives_of_no_longer hs hn hbackslash hquote

/-- `'a\b'` in front of `, 'c'`. -/
theorem stringLiteral_backslash :
    Survives ⟨[97, 92, 98], by decide⟩ ⟨[44, 32, 39, 99, 39], by decide⟩ :=
  (stringLiteral_iff (by decide) _).mpr ⟨by decide, by decide, by decide⟩

/-- `'it''s'` keeps its two quotes. -/
theorem stringLiteral_doubled :
    ¬ ∀ s rest : CString, 10 ∉ s.val → Survives s rest := by
  intro h
  obtain ⟨r, hr, w, -, -, hw, hvalue, -⟩ :=
    next_some (h ⟨[105, 116, 39, 115], by decide⟩ ⟨[], by decide⟩ (by decide))
  obtain rfl := List.append_cancel_right hw
  obtain rfl := stringRule_of_action hr hvalue
  exact absurd (stringValue_eq_iff.mp (Token.string.inj (Option.some.inj hvalue)).symm)
    (by decide)

end Toadb
