/-
Toadb.Lib.Precedence — expressions by precedence declarations.

A grammar of operands, prefix and binary operators is ambiguous, and every
conflict is resolved by levels: when a rule is complete and an operator is
next, the higher level wins, and between equal levels the operator's
associativity decides (`resolve`). `parse` is the parser that does so, with a
stack of the rules that still miss their last operand.

A tree needs no parentheses (`Unbracketed`) when no conflict on its tokens is
resolved against it. `parse_tokens` says that such a tree is what its tokens
are parsed to, and `parse_some` that nothing else is ever the result.
-/
import Mathlib.Data.List.Chain

namespace Toadb

namespace Precedence

universe u

/-! ## Grammars -/

/-- `%left`, `%right`, `%nonassoc`. -/
inductive Assoc where
  | left | right | nonassoc
  deriving DecidableEq, Repr

/-- What to do with a complete rule when a token is next. -/
inductive Decision where
  | reduce | shift | error
  deriving DecidableEq, Repr

/-- The level of the rule against that of the token; equal levels are up to the
associativity. -/
def resolve (rule : Nat) (token : Nat × Assoc) : Decision :=
  if token.1 < rule then .reduce
  else if rule < token.1 then .shift
  else
    match token.2 with
    | .left => .reduce
    | .right => .shift
    | .nonassoc => .error

/-- Which tokens are operands, which are operators in front of one, and with which level, and
which stand between two. -/
structure OpGrammar (τ : Type u) where
  operand : τ → Bool
  unary : τ → Option Nat
  binary : τ → Option (Nat × Assoc)

/-- A tree over tokens. -/
inductive Tree (τ : Type u) where
  | leaf (t : τ)
  | unary (t : τ) (arg : Tree τ)
  | binary (t : τ) (left right : Tree τ)

variable {τ : Type u}

/-- The tokens of a tree, from left to right. -/
def Tree.tokens : Tree τ → List τ
  | .leaf t => [t]
  | .unary t arg => t :: arg.tokens
  | .binary t left right => left.tokens ++ t :: right.tokens

/-! ## Parsing -/

/-- A rule that misses its last operand. -/
inductive Frame (τ : Type u) where
  | unary (t : τ)
  | binary (left : Tree τ) (t : τ)

/-- The rule with its last operand. -/
def Frame.close : Frame τ → Tree τ → Tree τ
  | .unary t, e => .unary t e
  | .binary left t, e => .binary t left e

/-- All rules of a stack, from its top. -/
def closeAll (stack : List (Frame τ)) (e : Tree τ) : Tree τ :=
  stack.foldl (fun e f => f.close e) e

section Parse

variable (g : OpGrammar τ)

/-- The level of a rule. -/
def Frame.level : Frame τ → Nat
  | .unary t => (g.unary t).getD 0
  | .binary _ t => ((g.binary t).map Prod.fst).getD 0

/-- Reduce as long as the token that is next does not decide otherwise. -/
def reduceFor (token : Nat × Assoc) :
    List (Frame τ) → Tree τ → Option (List (Frame τ) × Tree τ)
  | [], e => some ([], e)
  | f :: stack, e =>
    match resolve (f.level g) token with
    | .reduce => reduceFor token stack (f.close e)
    | .shift => some (f :: stack, e)
    | .error => none

/-- A token is read: the stack, and the operand on top of it if there is one. -/
def step (s : List (Frame τ) × Option (Tree τ))
    (t : τ) : Option (List (Frame τ) × Option (Tree τ)) :=
  match s with
  | (stack, none) =>
    if g.operand t then some (stack, some (.leaf t))
    else (g.unary t).map fun _ => (.unary t :: stack, none)
  | (stack, some e) =>
    (g.binary t).bind fun token => (reduceFor g token stack e).map fun (stack, e) =>
      (.binary e t :: stack, none)

/-- The tokens are read one after the other. -/
def run : List τ → List (Frame τ) × Option (Tree τ) →
    Option (List (Frame τ) × Option (Tree τ))
  | [], s => some s
  | t :: ts, s => (step g s t).bind (run ts)

/-- The tree of the tokens. At the end all rules are reduced. -/
def parse (ts : List τ) : Option (Tree τ) :=
  (run g ts ([], none)).bind fun (stack, operand) => operand.map (closeAll stack)

end Parse

/-! ## Trees without parentheses -/

/-- The rules that are open at the end of a tree's tokens, the innermost first. -/
def Tree.openRules : Tree τ → List (Frame τ)
  | .leaf _ => []
  | .unary t arg => arg.openRules ++ [.unary t]
  | .binary t left right => right.openRules ++ [.binary left t]

/-- The last operand. -/
def Tree.last : Tree τ → Tree τ
  | .leaf t => .leaf t
  | .unary _ arg => arg.last
  | .binary _ _ right => right.last

/-- The operators that are read with nothing but their left operand in front. -/
def Tree.leftOps : Tree τ → List τ
  | .leaf _ | .unary _ _ => []
  | .binary t left _ => left.leftOps ++ [t]

section Trees

variable (g : OpGrammar τ)

/-- The token's operator goes under the rule. -/
def Shifts (f : Frame τ) (t : τ) : Prop :=
  ∃ token, g.binary t = some token ∧ resolve (f.level g) token = .shift

/-- The rule is complete before the token's operator. -/
def Reduces (f : Frame τ) (t : τ) : Prop :=
  ∃ token, g.binary t = some token ∧ resolve (f.level g) token = .reduce

/-- The tokens of the tree are those of the grammar. -/
def WellFormed : Tree τ → Prop
  | .leaf t => g.operand t = true
  | .unary t arg => g.operand t = false ∧ (g.unary t).isSome ∧ WellFormed arg
  | .binary t left right => (g.binary t).isSome ∧ WellFormed left ∧ WellFormed right

/-- The tree needs no parentheses: operators of a last operand go under its rule, and the
rules of a left operand are complete before the operator. -/
def Unbracketed : Tree τ → Prop
  | .leaf _ => True
  | .unary t arg => Unbracketed arg ∧ ∀ o ∈ arg.leftOps, Shifts g (.unary t) o
  | .binary t left right => Unbracketed left ∧ Unbracketed right ∧
      (∀ f ∈ left.openRules, Reduces g f t) ∧ ∀ o ∈ right.leftOps, Shifts g (.binary left t) o

end Trees

/-! ## A tree from its tokens -/

variable {g : OpGrammar τ} {e : Tree τ} {stack : List (Frame τ)}

theorem closeAll_append (stack stack' : List (Frame τ)) (e : Tree τ) :
    closeAll (stack ++ stack') e = closeAll stack' (closeAll stack e) := List.foldl_append

/-- A tree is its last operand with the open rules around it. -/
theorem closeAll_openRules (e : Tree τ) : closeAll e.openRules e.last = e := by
  induction e with
  | leaf t => rfl
  | unary t arg ih =>
    rw [Tree.openRules, Tree.last, closeAll_append, ih]
    rfl
  | binary t left right _ ih =>
    rw [Tree.openRules, Tree.last, closeAll_append, ih]
    rfl

theorem reduceFor_reduces {token : Nat × Assoc} {fs : List (Frame τ)}
    (h : ∀ f ∈ fs, resolve (f.level g) token = .reduce)
    (stack : List (Frame τ)) (e : Tree τ) :
    reduceFor g token (fs ++ stack) e = reduceFor g token stack (closeAll fs e) := by
  induction fs generalizing e with
  | nil => rfl
  | cons f fs ih =>
    obtain ⟨hf, hfs⟩ := List.forall_mem_cons.mp h
    rw [List.cons_append, reduceFor]
    simp only [hf]
    exact ih hfs (f.close e)

theorem reduceFor_shift {token : Nat × Assoc}
    (h : ∀ f, stack.head? = some f → resolve (f.level g) token = .shift)
    (e : Tree τ) : reduceFor g token stack e = some (stack, e) := by
  cases stack with
  | nil => rfl
  | cons f stack =>
    rw [reduceFor]
    simp only [h f rfl]

/-- Behind the tokens of a tree that needs no parentheses its last operand is on top of the
rules that are still open. -/
theorem run_tokens (hwf : WellFormed g e) (hunbracketed : Unbracketed g e)
    (htop : ∀ f, stack.head? = some f → ∀ o ∈ e.leftOps, Shifts g f o) (rest : List τ) :
    run g (e.tokens ++ rest) (stack, none) =
      run g rest (e.openRules ++ stack, some e.last) := by
  induction e generalizing stack rest with
  | leaf t =>
    have hoperand : g.operand t = true := hwf
    rw [Tree.tokens, List.singleton_append, run, step, if_pos hoperand]
    rfl
  | unary t arg ih =>
    obtain ⟨hoperand, hunary, harg⟩ := hwf
    obtain ⟨hu, hshifts⟩ := hunbracketed
    obtain ⟨level, hlevel⟩ := Option.isSome_iff_exists.mp hunary
    rw [Tree.tokens, List.cons_append, run, step,
      if_neg (by rw [hoperand]; exact Bool.false_ne_true), hlevel,
      Option.map_some, Option.bind_some, ih harg hu, Tree.openRules,
        Tree.last, List.append_assoc]
    · rfl
    · rintro f ⟨⟩ o ho
      exact hshifts o ho
  | binary t left right ihl ihr =>
    obtain ⟨hbinary, hleft, hright⟩ := hwf
    obtain ⟨hul, hur, hreduces, hshifts⟩ := hunbracketed
    obtain ⟨token, htoken⟩ := Option.isSome_iff_exists.mp hbinary
    have hleftTop : ∀ f, stack.head? = some f → ∀ o ∈ left.leftOps, Shifts g f o :=
      fun f hf o ho => htop f hf o (List.mem_append_left _ ho)
    rw [Tree.tokens, List.append_assoc, ihl hleft hul hleftTop,
      List.cons_append, run, step, htoken]
    -- the rules of the left operand are complete, and the operator goes under what is below
    have hreduced : reduceFor g token (left.openRules ++ stack) left.last =
        some (stack, left) := by
      rw [reduceFor_reduces, closeAll_openRules, reduceFor_shift]
      · intro f hf
        obtain ⟨token', htoken', hshift⟩ :=
          htop f hf t (List.mem_append_right _ (List.mem_singleton_self _))
        rw [htoken, Option.some.injEq] at htoken'
        rw [htoken']
        exact hshift
      · intro f hf
        obtain ⟨token', htoken', hreduce⟩ := hreduces f hf
        rw [htoken, Option.some.injEq] at htoken'
        rw [htoken']
        exact hreduce
    simp only [Option.bind_some, hreduced, Option.map_some]
    rw [ihr hright hur, Tree.openRules, Tree.last, List.append_assoc]
    · rfl
    · rintro f ⟨⟩ o ho
      exact hshifts o ho

/-- A tree that needs no parentheses is what its tokens are parsed to. -/
theorem parse_tokens (hwf : WellFormed g e) (h : Unbracketed g e) :
    parse g e.tokens = some e := by
  have htop : ∀ f, ([] : List (Frame τ)).head? = some f → ∀ o ∈ e.leftOps,
      Shifts g f o := nofun
  have hrun := run_tokens hwf h htop []
  rw [List.append_nil, List.append_nil] at hrun
  rw [parse, hrun]
  exact congrArg some (closeAll_openRules e)

/-! ## What stands next to each other -/

/-- Behind an operand there is a binary operator, and behind an operator an operand or an
operator in front of one. -/
def Adjacent (g : OpGrammar τ) (a b : τ) : Prop :=
  (g.operand a = true → (g.binary b).isSome) ∧
    (g.operand a = false → g.operand b = true ∨ (g.unary b).isSome)

theorem tokens_ne_nil (e : Tree τ) : e.tokens ≠ [] := by
  cases e with
  | leaf t => exact List.cons_ne_nil t []
  | unary t arg => exact List.cons_ne_nil t arg.tokens
  | binary t left right =>
    exact List.append_ne_nil_of_right_ne_nil _ (List.cons_ne_nil t right.tokens)

/-- The tokens of a tree fit next to each other, where operators are no operands; the last one
is an operand. -/
theorem tokens_chain (hsep : ∀ t, (g.binary t).isSome → g.operand t = false)
    (hwf : WellFormed g e) :
    e.tokens.IsChain (Adjacent g) ∧
      (∀ t ∈ e.tokens.head?, g.operand t = true ∨ (g.unary t).isSome) ∧
      ∀ t ∈ e.tokens.getLast?, g.operand t = true := by
  induction e with
  | leaf t =>
    refine ⟨List.isChain_singleton t, ?_, ?_⟩
    · rintro _ ⟨⟩
      exact .inl hwf
    · rintro _ ⟨⟩
      exact hwf
  | unary t arg ih =>
    obtain ⟨hoperand, hunary, harg⟩ := hwf
    obtain ⟨hchain, hfirst, hlast⟩ := ih harg
    refine ⟨List.isChain_cons.mpr ⟨fun b hb => ⟨fun h => ?_, fun _ => hfirst b hb⟩, hchain⟩,
      ?_, ?_⟩
    · rw [hoperand] at h
      cases h
    · rintro _ ⟨⟩
      exact .inr hunary
    · rw [Tree.tokens, List.getLast?_cons_of_ne_nil (tokens_ne_nil arg)]
      exact hlast
  | binary t left right ihl ihr =>
    obtain ⟨hbinary, hleft, hright⟩ := hwf
    obtain ⟨hchainl, hfirstl, hlastl⟩ := ihl hleft
    obtain ⟨hchainr, hfirstr, hlastr⟩ := ihr hright
    rw [Tree.tokens]
    refine ⟨List.isChain_append.mpr
      ⟨hchainl, List.isChain_cons.mpr ⟨fun b hb => ⟨fun h => ?_, fun _ => hfirstr b hb⟩,
      hchainr⟩, fun a ha b hb => ⟨fun _ => ?_, fun h => ?_⟩⟩, ?_, ?_⟩
    · rw [hsep t hbinary] at h
      cases h
    · cases hb
      exact hbinary
    · rw [hlastl a ha] at h
      cases h
    · rw [List.head?_append_of_ne_nil _ (tokens_ne_nil left)]
      exact hfirstl
    · rw [List.getLast?_append_of_ne_nil _ (List.cons_ne_nil _ _),
        List.getLast?_cons_of_ne_nil (tokens_ne_nil right)]
      exact hlastr

/-! ## Nothing else is a result -/

/-- The tokens of a stack and of the operand on top of it. -/
def stackTokens : List (Frame τ) → List τ
  | [] => []
  | .unary t :: stack => stackTokens stack ++ [t]
  | .binary left t :: stack => stackTokens stack ++ (left.tokens ++ [t])

theorem tokens_closeAll (stack : List (Frame τ)) (e : Tree τ) :
    (closeAll stack e).tokens = stackTokens stack ++ e.tokens := by
  induction stack generalizing e with
  | nil => rfl
  | cons f stack ih =>
    rw [closeAll, List.foldl_cons, ← closeAll, ih]
    cases f with
    | unary t => simp [stackTokens, Frame.close, Tree.tokens]
    | binary left t => simp [stackTokens, Frame.close, Tree.tokens]

section Sound

variable (g)

/-- A tree that the parser has made: of its tokens, and without parentheses. -/
structure Made (e : Tree τ) : Prop where
  wellFormed : WellFormed g e
  unbracketed : Unbracketed g e

/-- A rule that the parser waits with. -/
def FrameOk : Frame τ → Prop
  | .unary t => g.operand t = false ∧ (g.unary t).isSome
  | .binary left t => (g.binary t).isSome ∧ Made g left ∧ ∀ f ∈ left.openRules, Reduces g f t

/-- The operators that a rule on the stack has at its left. -/
def Frame.leftOps : Frame τ → List τ
  | .unary _ => []
  | .binary left t => left.leftOps ++ [t]

/-- Operators go under the rule on top. -/
def Under (stack : List (Frame τ)) (ops : List τ) : Prop :=
  ∀ f, stack.head? = some f → ∀ o ∈ ops, Shifts g f o

/-- The rules on the stack, each under the next one. -/
def StackOk : List (Frame τ) → Prop
  | [] => True
  | f :: stack => FrameOk g f ∧ Under g stack f.leftOps ∧ StackOk stack

variable {g}

theorem leftOps_close (f : Frame τ) (e : Tree τ) : (f.close e).leftOps = f.leftOps := by
  cases f <;> rfl

theorem openRules_close (f : Frame τ) (e : Tree τ) :
    (f.close e).openRules = e.openRules ++ [f] := by
  cases f <;> rfl

/-- A rule gets its last operand. -/
theorem FrameOk.close {f : Frame τ} (hf : FrameOk g f) (he : Made g e)
    (hops : ∀ o ∈ e.leftOps, Shifts g f o) :
    Made g (f.close e) := by
  cases f with
  | unary t => exact ⟨⟨hf.1, hf.2, he.wellFormed⟩, he.unbracketed, hops⟩
  | binary left t =>
    obtain ⟨hbinary, hleft, hreduces⟩ := hf
    exact ⟨⟨hbinary, hleft.wellFormed, he.wellFormed⟩, hleft.unbracketed,
      he.unbracketed, hreduces, hops⟩

theorem StackOk.close {f : Frame τ} (hstack : StackOk g (f :: stack)) (he : Made g e)
    (hunder : Under g (f :: stack) e.leftOps) :
    StackOk g stack ∧ Made g (f.close e) ∧ Under g stack (f.close e).leftOps := by
  obtain ⟨hf, hbelow, hrest⟩ := hstack
  exact ⟨hrest, hf.close he (hunder f rfl), (leftOps_close f e).symm ▸ hbelow⟩

/-- The rules that are reduced become the open rules of the operand, and the operator goes
under what is left. -/
theorem reduceFor_ok {t : τ} {token : Nat × Assoc} (ht : g.binary t = some token)
    {stack' : List (Frame τ)} {e' : Tree τ} (hstack : StackOk g stack) (he : Made g e)
    (hunder : Under g stack e.leftOps) (hopen : ∀ f ∈ e.openRules, Reduces g f t)
    (h : reduceFor g token stack e = some (stack', e')) :
    (StackOk g stack' ∧ Made g e' ∧ Under g stack' (e'.leftOps ++ [t]) ∧
      ∀ f ∈ e'.openRules, Reduces g f t) ∧
      stackTokens stack' ++ e'.tokens = stackTokens stack ++ e.tokens := by
  induction stack generalizing e with
  | nil =>
    obtain ⟨rfl, rfl⟩ := Prod.mk.inj (Option.some.inj h)
    exact ⟨⟨trivial, he, nofun, hopen⟩, rfl⟩
  | cons f stack ih =>
    rw [reduceFor] at h
    split at h
    next hreduce =>
      obtain ⟨hrest, hmade, hbelow⟩ := hstack.close he hunder
      have hopen' : ∀ f' ∈ (f.close e).openRules, Reduces g f' t := by
        rw [openRules_close]
        intro f' hf'
        rcases List.mem_append.mp hf' with hold | hnew
        · exact hopen f' hold
        · exact List.mem_singleton.mp hnew ▸ ⟨token, ht, hreduce⟩
      obtain ⟨hok, htokens⟩ := ih hrest hmade hbelow hopen' h
      refine ⟨hok, htokens.trans ?_⟩
      have hclose := tokens_closeAll [f] e
      have hstackTokens : stackTokens (f :: stack) =
          stackTokens stack ++ stackTokens [f] := by
        cases f <;> simp [stackTokens]
      rw [hstackTokens, List.append_assoc, ← hclose]
      rfl
    next hshift =>
      obtain ⟨rfl, rfl⟩ := Prod.mk.inj (Option.some.inj h)
      refine ⟨⟨hstack, he, ?_, hopen⟩, rfl⟩
      rintro f' ⟨⟩ o ho
      rcases List.mem_append.mp ho with hold | hnew
      · exact hunder f rfl o hold
      · exact List.mem_singleton.mp hnew ▸ ⟨token, ht, hshift⟩
    next => cases h

/-- Where the parser is: with an operand it is a leaf. -/
def StateOk (g : OpGrammar τ) (s : List (Frame τ) × Option (Tree τ)) : Prop :=
  StackOk g s.1 ∧ ∀ e, s.2 = some e → ∃ t, e = .leaf t ∧ g.operand t = true

/-- The tokens that were read. -/
def stateTokens (s : List (Frame τ) × Option (Tree τ)) : List τ :=
  stackTokens s.1 ++ (s.2.map Tree.tokens).getD []

theorem step_ok {s s' : List (Frame τ) × Option (Tree τ)} {t : τ} (hs : StateOk g s)
    (h : step g s t = some s') :
    StateOk g s' ∧ stateTokens s' = stateTokens s ++ [t] := by
  obtain ⟨stack, operand⟩ := s
  obtain ⟨hstack, hoperand⟩ := hs
  cases operand with
  | none =>
    rw [step] at h
    split at h
    next ht =>
      cases h
      exact ⟨⟨hstack, by rintro e ⟨⟩; exact ⟨t, rfl, ht⟩⟩, by simp [stateTokens, Tree.tokens]⟩
    next ht =>
      obtain ⟨level, hlevel, rfl⟩ := Option.map_eq_some_iff.mp h
      refine ⟨⟨⟨⟨Bool.eq_false_iff.mpr ht, Option.isSome_of_eq_some hlevel⟩, ?_, hstack⟩,
        nofun⟩, ?_⟩
      · exact fun f _ o ho => absurd ho List.not_mem_nil
      · simp [stateTokens, stackTokens]
  | some e =>
    obtain ⟨t', rfl, ht'⟩ := hoperand e rfl
    obtain ⟨token, htoken, h⟩ := Option.bind_eq_some_iff.mp h
    obtain ⟨⟨stack', e'⟩, hreduce, rfl⟩ := Option.map_eq_some_iff.mp h
    have hleaf : Made g (.leaf t') := ⟨ht', trivial⟩
    obtain ⟨⟨hstack', hmade, hunder, hopen⟩, htokens⟩ := reduceFor_ok htoken hstack hleaf
      (fun f _ o ho => absurd ho List.not_mem_nil)
        (fun f hf => absurd hf List.not_mem_nil) hreduce
    refine ⟨⟨⟨⟨Option.isSome_of_eq_some htoken, hmade, hopen⟩, hunder, hstack'⟩, nofun⟩, ?_⟩
    simp only [stateTokens, stackTokens, Option.map_some, Option.map_none,
      Option.getD_some, Option.getD_none,
      List.append_nil]
    rw [← List.append_assoc, htokens]

theorem run_ok {ts : List τ} {s s' : List (Frame τ) × Option (Tree τ)} (hs : StateOk g s)
    (h : run g ts s = some s') : StateOk g s' ∧ stateTokens s' = stateTokens s ++ ts := by
  induction ts generalizing s with
  | nil =>
    cases h
    exact ⟨hs, (List.append_nil _).symm⟩
  | cons t ts ih =>
    obtain ⟨mid, hstep, hrun⟩ := Option.bind_eq_some_iff.mp h
    obtain ⟨hmid, htokens⟩ := step_ok hs hstep
    obtain ⟨hs', htokens'⟩ := ih hmid hrun
    refine ⟨hs', ?_⟩
    rw [htokens', htokens, List.append_assoc, List.singleton_append]

theorem closeAll_made (hstack : StackOk g stack) (he : Made g e)
    (hunder : Under g stack e.leftOps) :
    Made g (closeAll stack e) := by
  induction stack generalizing e with
  | nil => exact he
  | cons f stack ih =>
    obtain ⟨hrest, hmade, hbelow⟩ := hstack.close he hunder
    exact ih hrest hmade hbelow

/-- What is parsed has the tokens that were read, and needs no parentheses. -/
theorem parse_some {ts : List τ} (h : parse g ts = some e) : e.tokens = ts ∧ Made g e := by
  obtain ⟨⟨stack, operand⟩, hrun, hclose⟩ := Option.bind_eq_some_iff.mp h
  obtain ⟨e', rfl, rfl⟩ := Option.map_eq_some_iff.mp hclose
  obtain ⟨⟨hstack, hoperand⟩, htokens⟩ := run_ok (s := ([], none)) ⟨trivial, nofun⟩ hrun
  obtain ⟨t, rfl, ht⟩ := hoperand e' rfl
  refine ⟨?_, closeAll_made hstack ⟨ht, trivial⟩ fun f _ o ho => absurd ho List.not_mem_nil⟩
  rw [tokens_closeAll]
  exact htokens

end Sound

end Precedence

end Toadb
