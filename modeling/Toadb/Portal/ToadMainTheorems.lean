/-
Toadb.Portal.ToadMainTheorems — what a command leaves behind.

Every phase of `ToadMainEntry` makes a context below "queryExcutor" and
switches back to it (`InQuery`), and the clean-up deletes the context that is
then current. A statement that fails the analysis returns before the switch:
the clean-up deletes "queryTree" alone, and "queryExcutor" stays a child of
the context of the worker (`frame_of_failure`).

`Tracks` ties the contexts of a worker in the middle of a command to the
steps done. `toadMainEntry_leavesNothing_iff` puts it together with the
invariant of the transactions of `SessionTheorems`.
-/
import Toadb.Portal.SessionTheorems

namespace Toadb

open Transition

variable {n : Nat}

/-! ## Contexts -/

/-- Contexts that are neither dead nor below a dead one stay. -/
theorem destroyContexts_append {dead : List Nat} {cs ds : List MemContext}
    (h : ∀ c ∈ cs, c.context ∉ dead ∧ c.parent ∉ dead) :
    destroyContexts dead (cs ++ ds) = cs ++ destroyContexts dead ds := by
  induction cs with
  | nil => rfl
  | cons c cs ih =>
    obtain ⟨hc, hcs⟩ := List.forall_mem_cons.mp h
    simp [destroyContexts, hc.1, hc.2, ih hcs]

/-- The children of a dead context go with it. -/
theorem destroyContexts_children {dead : List Nat} {cs : List MemContext} {parent : Nat}
    (hparent : parent ∈ dead) (h : ∀ c ∈ cs, c.parent = parent) :
    destroyContexts dead cs = [] := by
  induction cs generalizing dead with
  | nil => rfl
  | cons c cs ih =>
    obtain ⟨hc, hcs⟩ := List.forall_mem_cons.mp h
    have hdead : c.context ∈ dead ∨ c.parent ∈ dead := .inr (by rw [hc]; exact hparent)
    rw [destroyContexts, if_pos hdead]
    exact ih (List.mem_cons_of_mem _ hparent) hcs

/-- Contexts are numbered by age. -/
structure EntryFrame.Ordered (f : EntryFrame) : Prop where
  current : f.mem.current < f.mem.fresh
  contexts : ∀ c ∈ f.mem.contexts, c.parent < c.context ∧ c.context < f.mem.fresh

/-- Between two phases of a command that was entered with the contexts of `f`: "queryExcutor"
is current, and everything else that is new is below it. -/
structure InQuery (f g : EntryFrame) : Prop where
  preContext : g.preContext = f.mem.current
  current : g.mem.current = f.mem.fresh
  fresh : f.mem.fresh < g.mem.fresh
  contexts : ∃ below, g.mem.contexts =
    f.mem.contexts ++ ⟨f.mem.fresh, f.mem.current⟩ :: below ∧
    ∀ c ∈ below, c.parent = f.mem.fresh

section Frames

variable {f g : EntryFrame}

theorem inQuery_start (f : EntryFrame) :
    InQuery f ((f.step .startTransaction).step .newQueryExcutor) where
  preContext := rfl
  current := rfl
  fresh := Nat.lt_succ_self _
  contexts := ⟨[], rfl, nofun⟩

/-- A phase that switches back. -/
theorem InQuery.phase (h : InQuery f g) :
    InQuery f ((g.step .newContext).step .switchContext) where
  preContext := h.preContext
  current := h.current
  fresh := Nat.lt_succ_of_lt h.fresh
  contexts := by
    obtain ⟨below, hcontexts, hbelow⟩ := h.contexts
    refine ⟨below ++ [⟨g.mem.fresh, g.mem.current⟩], ?_, ?_⟩
    · change g.mem.contexts ++ _ = _
      rw [hcontexts, List.append_assoc, List.cons_append]
    · intro c hc
      obtain hc | hc := List.mem_append.mp hc
      · exact hbelow c hc
      · obtain rfl := List.mem_singleton.mp hc
        exact h.current

theorem InQuery.executeQueries (trees : List SubParserTree) :
    ∀ {g : EntryFrame}, InQuery f g →
      InQuery f ((executeQueries trees).foldl EntryFrame.step g) := by
  induction trees with
  | nil => exact id
  | cons node rest ih =>
    intro g h
    unfold Toadb.executeQueries
    split
    · rw [List.foldl_append]
      exact ih h.phase.phase
    · exact h.phase

/-- The clean-up of a command that got back to "queryExcutor". -/
theorem InQuery.endret (hf : f.Ordered) (h : InQuery f g) :
    ([.deleteContext, .finishTransaction].foldl EntryFrame.step g).mem =
      ⟨f.mem.contexts, f.mem.current, g.mem.fresh⟩ := by
  obtain ⟨below, hcontexts, hbelow⟩ := h.contexts
  have hold : ∀ c ∈ f.mem.contexts, c.context ∉ [f.mem.fresh] ∧ c.parent ∉ [f.mem.fresh] := by
    intro c hc
    have hage := hf.contexts c hc
    simp only [List.mem_singleton]
    omega
  have hgone : destroyContexts [f.mem.fresh] g.mem.contexts = f.mem.contexts := by
    rw [hcontexts, destroyContexts_append hold, destroyContexts, if_pos (by simp),
      destroyContexts_children (List.mem_cons_self ..) hbelow, List.append_nil]
  simp [EntryFrame.step, MemManger.switchContext, MemManger.deleteContext,
    h.preContext, h.current, hgone]

/-- A statement of the command has no query: its table or a column of it is not found. -/
def AnalysisFails (query : ParserTree) : Prop :=
  ∃ parserTree, query = some parserTree ∧ ∃ tree ∈ parserTree, tree.transformed = false

theorem analysisFails_some {parserTree : List SubParserTree} :
    AnalysisFails (some parserTree) ↔ parserTree.all (·.transformed) = false := by
  simp [AnalysisFails]

/-- The contexts after a command that passes the analysis, or does not parse. -/
theorem frame_of_success {query : ParserTree} (hf : f.Ordered) (h : ¬ AnalysisFails query) :
    ∃ fresh, f.mem.fresh < fresh ∧
      ((toadMainEntry query).foldl EntryFrame.step f).mem =
        ⟨f.mem.contexts, f.mem.current, fresh⟩ := by
  have hphases : InQuery f ((queryPhases query).foldl EntryFrame.step
      ((f.step .startTransaction).step .newQueryExcutor)) := by
    cases query with
    | none => exact inQuery_start f
    | some trees =>
      have hall : trees.all (·.transformed) = true := by
        rwa [analysisFails_some, Bool.not_eq_false] at h
      simp only [queryPhases, queryAnalyzeAndRewrite, hall, if_true]
      rw [List.foldl_append]
      exact (inQuery_start f).phase.executeQueries trees
  refine ⟨_, hphases.fresh, ?_⟩
  simp only [toadMainEntry, List.foldl_append]
  exact hphases.endret hf

/-- The contexts after a command that fails the analysis. -/
theorem frame_of_failure {query : ParserTree} (hf : f.Ordered) (h : AnalysisFails query) :
    ((toadMainEntry query).foldl EntryFrame.step f).mem =
      ⟨f.mem.contexts ++ [⟨f.mem.fresh, f.mem.current⟩], f.mem.current, f.mem.fresh + 2⟩ := by
  obtain ⟨trees, rfl, -⟩ := id h
  have hall : trees.all (·.transformed) = false := analysisFails_some.mp h
  have hcurrent := hf.current
  have hold : ∀ c ∈ f.mem.contexts,
      c.context ∉ [f.mem.fresh + 1] ∧ c.parent ∉ [f.mem.fresh + 1] := by
    intro c hc
    have hage := hf.contexts c hc
    simp only [List.mem_singleton]
    omega
  have hgone : destroyContexts [f.mem.fresh + 1] (f.mem.contexts ++
        [⟨f.mem.fresh, f.mem.current⟩, ⟨f.mem.fresh + 1, f.mem.fresh⟩]) =
      f.mem.contexts ++ [⟨f.mem.fresh, f.mem.current⟩] := by
    rw [destroyContexts_append hold]
    have hne : f.mem.current ≠ f.mem.fresh + 1 := by omega
    simp [destroyContexts, hne]
  simp [toadMainEntry, queryPhases, queryAnalyzeAndRewrite, hall, EntryFrame.step,
    MemManger.newContext,
    MemManger.switchContext, MemManger.deleteContext, hgone]

/-- A command leaves the contexts numbered by age. -/
theorem ordered_of_command (query : ParserTree) (hf : f.Ordered) :
    ((toadMainEntry query).foldl EntryFrame.step f).Ordered := by
  by_cases h : AnalysisFails query
  · have hmem := frame_of_failure hf h
    constructor
    · rw [hmem]
      exact Nat.lt_add_right 2 hf.current
    · rw [hmem]
      intro c hc
      obtain hc | hc := List.mem_append.mp hc
      · exact ⟨(hf.contexts c hc).1, Nat.lt_add_right 2 (hf.contexts c hc).2⟩
      · obtain rfl := List.mem_singleton.mp hc
        exact ⟨hf.current, Nat.lt_add_of_pos_right Nat.two_pos⟩
  · obtain ⟨fresh, hfresh, hmem⟩ := frame_of_success hf h
    constructor
    · rw [hmem]
      exact hf.current.trans hfresh
    · rw [hmem]
      exact fun c hc => ⟨(hf.contexts c hc).1, (hf.contexts c hc).2.trans hfresh⟩

end Frames

/-! ## A worker in the middle of a command -/

/-- The contexts are those of `f` after the steps of the script that are done. -/
def Tracks (f : EntryFrame) (script : List EntryStep) (x : ServTask) : Prop :=
  ∃ done, script = done ++ x.todo ∧ x.frame = done.foldl EntryFrame.step f

/-- What a step of the workers does to the thread of one of them. -/
inductive ThreadStep (x : ServTask) : ServTask → Prop where
  /-- The contexts and the steps left of the command stay. -/
  | same {y : ServTask} (todo : y.todo = x.todo) (frame : y.frame = x.frame)
      (executed : y.executed = x.executed) : ThreadStep x y
  /-- The next step of the command. -/
  | next {y : ServTask} (step : EntryStep) (todo : x.todo = step :: y.todo)
      (frame : y.frame = x.frame.step step) (executed : x.executed <+: y.executed) :
        ThreadStep x y

theorem threadStep_enter (x : ServTask) (k k' : Worker) {step : EntryStep}
    {rest : List EntryStep}
    (htodo : x.todo = step :: rest) : ThreadStep x ((x.enter k step rest).observe k k') := by
  refine .next step htodo rfl ?_
  cases step with
  | execute kind => exact List.prefix_append ..
  | _ => exact List.prefix_rfl

/-- A step that is not the arrival of a command at the worker. -/
theorem threadStep {s t : SessionSys n} {a : Fin n × SessionCall} {w : Fin n}
    (hstep : sessionStep s a = some t) (hcommand : ∀ query, a ≠ (w, .command query)) :
    ThreadStep (s.tasks w) (t.tasks w) := by
  obtain ⟨v, call⟩ := a
  -- A step of one worker changes its own thread.
  have hat : ∀ x, (v = w → ThreadStep (s.tasks w) x) →
      ThreadStep (s.tasks w) (Function.update s.tasks v x w) := by
    intro x hx
    by_cases hv : w = v
    · subst hv
      rw [Function.update_self]
      exact hx rfl
    · rw [Function.update_of_ne hv]
      exact .same rfl rfl rfl
  cases sessionEffect hstep with
  | beginTask memory => exact hat _ fun hv => hv ▸ .same rfl rfl rfl
  | command query =>
    exact hat _ fun hv => absurd (congrArg (·, SessionCall.command query) hv) (hcommand query)
  | next step rest trans htodo => exact hat _ fun hv => hv ▸ threadStep_enter _ _ _ htodo
  | row call rest trans => exact hat _ fun hv => hv ▸ .same rfl rfl rfl
  | proceed trans => exact hat _ fun hv => hv ▸ .same rfl rfl rfl
  | finishTask => exact hat _ fun hv => hv ▸ .same rfl rfl rfl

theorem Tracks.step {f : EntryFrame} {script : List EntryStep} {x y : ServTask}
    (h : Tracks f script x) (hstep : ThreadStep x y) : Tracks f script y := by
  obtain ⟨done, hscript, hframe⟩ := h
  cases hstep with
  | same htodo hsame => exact ⟨done, by rw [hscript, htodo], by rw [hsame, hframe]⟩
  | next step htodo hnext =>
    refine ⟨done ++ [step], ?_, ?_⟩
    · rw [hscript, htodo, List.append_assoc, List.singleton_append]
    · rw [hnext, hframe, List.foldl_append, List.foldl_cons, List.foldl_nil]

/-- The contexts of every worker are numbered by age when it entered its last command, and it
is somewhere in that command. -/
def FrameOk (x : ServTask) : Prop :=
  ∃ f script, f.Ordered ∧ Tracks f script x ∧
    (script = [] ∨ ∃ query, script = toadMainEntry query)

/-- Between two commands the contexts are numbered by age. -/
theorem ordered_of_rest {x : ServTask} (h : FrameOk x) (htodo : x.todo = []) :
    x.frame.Ordered := by
  obtain ⟨f, script, hf, ⟨done, hscript, hframe⟩, hcommand⟩ := h
  rw [htodo, List.append_nil] at hscript
  subst hscript
  rw [hframe]
  obtain rfl | ⟨query, rfl⟩ := hcommand
  · exact hf
  · exact ordered_of_command query hf

/-- A command arrives at a worker that has done the one before. -/
theorem command_task {s t : SessionSys n} {w : Fin n} {query : ParserTree}
    (hstep : sessionStep s (w, .command query) = some t) :
    (s.tasks w).todo = [] ∧ t.tasks w = { s.tasks w with todo := toadMainEntry query } := by
  cases sessionEffect hstep with
  | command _ _ htodo => exact ⟨htodo, Function.update_self ..⟩

theorem frameOk_step {s t : SessionSys n} {a : Fin n × SessionCall}
    (h : ∀ w, FrameOk (s.tasks w))
    (hstep : sessionStep s a = some t) (w : Fin n) : FrameOk (t.tasks w) := by
  by_cases hcommand : ∃ query, a = (w, .command query)
  case pos =>
    obtain ⟨query, rfl⟩ := hcommand
    obtain ⟨htodo, htask⟩ := command_task hstep
    rw [htask]
    exact ⟨(s.tasks w).frame, toadMainEntry query,
      ordered_of_rest (h w) htodo, ⟨[], rfl, rfl⟩,
      .inr ⟨query, rfl⟩⟩
  case neg =>
    obtain ⟨f, script, hf, htracks, hscript⟩ := h w
    have hthread := threadStep hstep (fun query hq => hcommand ⟨query, hq⟩)
    exact ⟨f, script, hf, htracks.step hthread, hscript⟩

theorem frameOk_init {s : SessionSys n} (h : SessionInit s) (w : Fin n) :
    FrameOk (s.tasks w) := by
  obtain ⟨hcurrent, hcontexts⟩ := h.fresh w
  refine ⟨(s.tasks w).frame, [], ⟨hcurrent, hcontexts⟩, ⟨[], ?_, rfl⟩, .inl rfl⟩
  simpa using (h.waiting w).2.1

/-! ## What a command leaves behind -/

/-- The worker's thread after a command, `x` before it and `y` after it: the current context
is the one at entry and every other context of the command is gone; unless an explicit
transaction is open, there is none; and no statement of the command outside an explicit
transaction shares its id or its snapshot with another one. -/
structure LeavesNothing (x y : ServTask) (k : Worker) : Prop where
  current : y.frame.mem.current = x.frame.mem.current
  contexts : y.frame.mem.contexts = x.frame.mem.contexts
  closed : k.context.ts ≠ .begin → k.mine = false ∧ k.context.ts = .idle
  own : x.executed <+: y.executed ∧ ∀ i j r r', y.executed[i]? = some r →
    y.executed[j]? = some r' →
    i ≠ j → x.executed.length ≤ i → r.explicit = false →
      r.xid ≠ r'.xid ∧ r.snapshot ≠ r'.snapshot

/-- Of two statements that are apart it does not matter which one is the first. -/
theorem apart_of_ne {rs : List ExecutedStatement}
    (h : rs.Pairwise ExecutedStatement.Apart) {i j : Nat}
    {r r' : ExecutedStatement} (hi : rs[i]? = some r) (hj : rs[j]? = some r') (hne : i ≠ j) :
    r.Apart r' := by
  obtain ⟨hilt, rfl⟩ := List.getElem?_eq_some_iff.mp hi
  obtain ⟨hjlt, rfl⟩ := List.getElem?_eq_some_iff.mp hj
  have hall := List.pairwise_iff_getElem.mp h
  obtain hlt | hlt := Nat.lt_or_gt_of_ne hne
  · exact hall i j hilt hjlt hlt
  · intro hplain
    have happart := hall j i hjlt hilt hlt hplain.symm
    exact ⟨happart.1.symm, happart.2.symm⟩

/-- A worker that is done with a command has followed its script. -/
theorem run_command {s t u : SessionSys n} {w : Fin n} {query : ParserTree}
    {bs : List (Fin n × SessionCall)} (hstep : sessionStep s (w, .command query) = some t)
    (hrun : run sessionStep t bs = some u) (hone : ∀ query, (w, .command query) ∉ bs)
    (hdone : (u.tasks w).todo = []) :
    (u.tasks w).frame = (toadMainEntry query).foldl EntryFrame.step (s.tasks w).frame ∧
      (s.tasks w).executed <+: (u.tasks w).executed := by
  have hinv : Tracks (s.tasks w).frame (toadMainEntry query) (u.tasks w) ∧
      (s.tasks w).executed <+: (u.tasks w).executed := by
    have halong : Along sessionStep (fun _ a => ∀ query, a ≠ (w, .command query)) t bs :=
      (along_iff_forall_mem hrun).mpr fun a ha query hq => hone query (by rw [← hq]; exact ha)
    refine run_invariant (I := fun v : SessionSys n =>
      Tracks (s.tasks w).frame (toadMainEntry query) (v.tasks w) ∧
        (s.tasks w).executed <+: (v.tasks w).executed) ?_ ?_ halong hrun
    · intro v a v' h hok hstep
      have hthread := threadStep hstep hok
      refine ⟨h.1.step hthread, ?_⟩
      cases hthread with
      | same _ _ hexecuted => exact hexecuted ▸ h.2
      | next _ _ _ hexecuted => exact h.2.trans hexecuted
    · rw [(command_task hstep).2]
      exact ⟨⟨[], rfl, rfl⟩, List.prefix_rfl⟩
  obtain ⟨⟨done, hscript, hframe⟩, hexecuted⟩ := hinv
  rw [hdone, List.append_nil] at hscript
  exact ⟨by rw [hframe, hscript], hexecuted⟩

/-- Whatever the other workers do and however the command ends, when `ToadMainEntry` returns
nothing of the command is left exactly when its text does not parse or every statement of it
passes the analysis. -/
theorem toadMainEntry_leavesNothing_iff {s₀ s t u : SessionSys n} {w : Fin n}
    {query : ParserTree} {as bs : List (Fin n × SessionCall)} (hinit : SessionInit s₀)
    (hreach : run sessionStep s₀ as = some s)
    (hcommand : sessionStep s (w, .command query) = some t)
    (hrun : run sessionStep t bs = some u) (hone : ∀ query, (w, .command query) ∉ bs)
    (hdone : (u.tasks w).todo = [] ∧ (u.trans.workers w).phase = .ready) :
    LeavesNothing (s.tasks w) (u.tasks w) (u.trans.workers w) ↔ ¬ AnalysisFails query := by
  have hframe : (s.tasks w).frame.Ordered :=
    ordered_of_rest
      (run_invariant_of_step (I := fun v : SessionSys n => ∀ w, FrameOk (v.tasks w))
      frameOk_step (frameOk_init hinit) hreach w) (command_task hcommand).1
  obtain ⟨hend, hexecuted⟩ := run_command hcommand hrun hone hdone.1
  constructor
  · intro hnothing hfails
    have hcontexts := hnothing.contexts
    rw [hend, frame_of_failure hframe hfails] at hcontexts
    simp at hcontexts
  · intro hpasses
    have hok : SessionOk False u := by
      refine run_invariant_of_step (fun h hstep => sessionOk_step h False.elim hstep)
        (sessionOk_init hinit) (run_append.mpr ⟨s, hreach, run_cons.mpr ⟨t, hcommand, hrun⟩⟩)
    obtain ⟨fresh, -, hmem⟩ := frame_of_success hframe hpasses
    refine ⟨by rw [hend, hmem], by rw [hend, hmem], ?_, hexecuted, ?_⟩
    · intro hbegin
      obtain hfits | hfits := status_of_rest (hok w) hdone.1
      · exact ⟨by simpa [hdone.2] using hfits.2, hfits.1⟩
      · exact absurd hfits.2.1 hbegin
    · intro i j r r' hi hj hne _ hplain
      exact apart_of_ne (hok w).history.apart hi hj hne (.inl hplain)

/-- A worker with a client that has sent no command yet. -/
def oneClient : SessionSys 1 := exec sessionStep oneWorker [newClient]

/-- Two queries in one command. -/
def twoQueries : ParserTree := some [⟨.other, true, true⟩, ⟨.other, true, true⟩]

/-- The accesses of `twoQueries`: every query starts a transaction, takes a snapshot, and
ends. -/
def twoQueriesRun : List (Fin 1 × SessionCall) :=
  [.next, .proceed, .proceed, .next, .next, .next, .next, .next, .next,
    .next, .next, .proceed,
    .proceed, .row .insertTuple, .next, .next, .next, .proceed, .next, .next, .next, .proceed,
    .proceed, .next, .next, .proceed, .proceed, .next, .next, .next, .proceed,
      .next, .next].map (0, ·)

/-- The worker after `query`, when its accesses are `bs`. -/
def afterCommand (query : ParserTree) (bs : List (Fin 1 × SessionCall)) : SessionSys 1 :=
  exec sessionStep oneClient ((0, .command query) :: bs)

theorem twoQueries_leaveNothing :
    LeavesNothing (oneClient.tasks 0) ((afterCommand twoQueries twoQueriesRun).tasks 0)
      ((afterCommand twoQueries twoQueriesRun).trans.workers 0) := by
  have hclient : run sessionStep oneWorker [newClient] = some oneClient :=
    run_exec (by decide)
  have hafter : run sessionStep oneClient ((0, .command twoQueries) :: twoQueriesRun) =
      some (afterCommand twoQueries twoQueriesRun) := run_exec (by decide)
  obtain ⟨t, hcommand, hrun⟩ := run_cons.mp hafter
  have hpasses : ¬ AnalysisFails twoQueries := by
    unfold twoQueries
    rw [analysisFails_some]
    decide
  have hone : ∀ query, ((0 : Fin 1), SessionCall.command query) ∉ twoQueriesRun := by
    intro query hmem
    simp [twoQueriesRun] at hmem
  have hdone : ((afterCommand twoQueries twoQueriesRun).tasks 0).todo = [] ∧
      ((afterCommand twoQueries twoQueriesRun).trans.workers 0).phase = .ready := by decide
  exact (toadMainEntry_leavesNothing_iff oneWorker_init hclient hcommand hrun hone hdone).mpr
    hpasses

/-- A query on a table that is not there: "queryExcutor" stays behind. -/
theorem missingTable_leavesContext :
    SessionInit oneWorker ∧ run sessionStep oneWorker [newClient] = some oneClient ∧
      ∃ u, run sessionStep oneClient
        ([(0, .command (some [⟨.other, false, true⟩])), (0, .next),
          (0, .proceed), (0, .proceed)] ++ List.replicate 4
          (0, .next) ++ [(0, .proceed)]) = some u ∧
        ((u.tasks 0).todo = [] ∧ (u.trans.workers 0).phase = .ready) ∧
        (oneClient.tasks 0).frame.mem.contexts = [] ∧
        (u.tasks 0).frame.mem.contexts = [⟨1, 0⟩] ∧
        ¬ LeavesNothing (oneClient.tasks 0) (u.tasks 0) (u.trans.workers 0) := by
  refine ⟨oneWorker_init, run_exec (by decide), _, run_exec (by decide),
    by decide, by decide, by decide, ?_⟩
  intro hnothing
  have hcontexts := hnothing.contexts
  revert hcontexts
  decide

end Toadb
