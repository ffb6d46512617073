/-
Toadb.Storage.RelCacheTheorems — which tables the list of the dictionary has.

  * `Dictionary.ListsTables` — the list has exactly the tables in use, and each is found by
    its name;
  * `Dictionary.PrevInverse` — `prev` goes back where `next` came from;
  * `Dictionary.Newest`      — the invariant of a list in which the newest tables come first.

Every node has the head for its `prev`. So a release sets the `next` of the head, whatever
comes before the table that is released: the tables before it are lost
(`dictionary_lists_iff`).
-/
import Toadb.Storage.RelCache

namespace Toadb

open DList Transition

namespace Dictionary

/-! ## What the list is for -/

/-- The list has exactly the tables that were added and not yet released, and `FindTblInfo`
finds each by its name and nothing else. -/
structure ListsTables (d : Dictionary) : Prop where
  list : ∃ l, Seg d.next (d.next gTblList) l gTblList ∧ gTblList ∉ l ∧ l.Nodup ∧
    ∀ tbl, tbl ∈ l ↔ tbl ∈ d.tables
  found : ∀ tbl ∈ d.tables, d.findTblInfo (d.tableName tbl) = some tbl
  notFound : ∀ filename, (∀ tbl ∈ d.tables, d.tableName tbl ≠ filename) →
    d.findTblInfo filename = some nullAddr

/-- `prev` is the inverse of `next` on the ring. -/
def PrevInverse (d : Dictionary) : Prop :=
  ∀ node ∈ gTblList :: d.tables, d.prev (d.next node) = node

/-- The list has the tables, the newest first, and every node has the head before it. -/
structure Newest (d : Dictionary) : Prop where
  list : Seg d.next (d.next gTblList) d.tables gTblList
  prev : ∀ node ∈ gTblList :: d.tables, d.prev node = gTblList
  nodup : (gTblList :: d.tables).Nodup
  null : nullAddr ∉ d.tables
  names : (d.tables.map d.tableName).Nodup

theorem newest_init : init.Newest where
  list := .nil gTblList
  prev := by simp [init]
  nodup := List.nodup_singleton _
  null := List.not_mem_nil
  names := List.nodup_nil

variable {d d' : Dictionary} {thisTbl tbl : Nat} {filename : CString}

/-! ## Finding a table -/

/-- The loop over a part of the list. -/
theorem findFrom_seg {l : List Nat} {temp : Nat} (h : Seg d.next temp l gTblList)
    (hmem : ∀ tbl ∈ l, tbl ∈ d.tables) (hhead : gTblList ∉ d.tables)
    (hnull : nullAddr ∉ d.tables) (fuel : Nat) (hfuel : l.length < fuel) :
    d.findFrom filename fuel temp
      = some ((l.find? fun tbl => d.tableName tbl = filename).getD nullAddr) := by
  induction l generalizing temp fuel with
  | nil =>
    rw [seg_nil_iff] at h
    cases fuel with
    | zero => cases hfuel
    | succ fuel => simp [findFrom, h]
  | cons tbl l ih =>
    obtain ⟨rfl, hnext⟩ := seg_cons_iff.mp h
    rw [List.forall_mem_cons] at hmem
    cases fuel with
    | zero => cases hfuel
    | succ fuel =>
      have hstop : ¬ (temp = nullAddr ∨ temp = gTblList) := by
        rintro (rfl | rfl)
        · exact hnull hmem.1
        · exact hhead hmem.1
      rw [findFrom, if_neg hstop, if_neg (not_not_intro hmem.1)]
      by_cases hname : d.tableName temp = filename
      · simp [hname]
      · rw [if_neg hname, ih hnext hmem.2 fuel (by simpa using hfuel), List.find?_cons_of_neg]
        simpa using hname

theorem Newest.findTblInfo (h : d.Newest) (filename : CString) :
    d.findTblInfo filename
      = some ((d.tables.find? fun tbl => d.tableName tbl = filename).getD nullAddr) :=
  findFrom_seg h.list (fun _ hmem => hmem) (List.nodup_cons.mp h.nodup).1 h.null _
    (Nat.lt_succ_self _)

theorem Newest.findTblInfo_none (h : d.Newest)
    (hname : ∀ tbl ∈ d.tables, d.tableName tbl ≠ filename) :
    d.findTblInfo filename = some nullAddr := by
  rw [h.findTblInfo, List.find?_eq_none.mpr (by simpa using hname), Option.getD_none]

theorem Newest.findTblInfo_some (h : d.Newest) (hmem : tbl ∈ d.tables) :
    d.findTblInfo (d.tableName tbl) = some tbl := by
  rw [h.findTblInfo]
  cases hfind : d.tables.find? fun t => d.tableName t = d.tableName tbl with
  | none =>
    have hnot := List.find?_eq_none.mp hfind tbl hmem
    simp at hnot
  | some found =>
    have hname : d.tableName found = d.tableName tbl := by simpa using List.find?_some hfind
    rw [Option.getD_some,
      List.inj_on_of_nodup_map h.names (List.mem_of_find?_eq_some hfind) hmem hname]

theorem Newest.listsTables (h : d.Newest) : d.ListsTables where
  list := ⟨d.tables, h.list, (List.nodup_cons.mp h.nodup).1, (List.nodup_cons.mp h.nodup).2,
    fun _ => Iff.rfl⟩
  found _ hmem := h.findTblInfo_some hmem
  notFound _ hname := h.findTblInfo_none hname

/-! ## The links after a call -/

theorem allocTblInfo_next {x : Nat} (h : x ≠ thisTbl) :
    (d.allocTblInfo thisTbl).next x = d.next x :=
  Function.update_of_ne h _ _

theorem allocTblInfo_prev {x : Nat} (h : x ≠ thisTbl) :
    (d.allocTblInfo thisTbl).prev x = d.prev x :=
  Function.update_of_ne h _ _

@[simp] theorem linkTblInfo_tables :
    (d.linkTblInfo thisTbl).tables = thisTbl :: d.tables := rfl

@[simp] theorem linkTblInfo_tableName : (d.linkTblInfo thisTbl).tableName = d.tableName := rfl

@[simp] theorem linkTblInfo_next_head : (d.linkTblInfo thisTbl).next gTblList = thisTbl := by
  simp [linkTblInfo]

theorem linkTblInfo_next_self (h : thisTbl ≠ gTblList) :
    (d.linkTblInfo thisTbl).next thisTbl = d.next gTblList := by
  simp [linkTblInfo, h]

theorem linkTblInfo_next {x : Nat} (hhead : x ≠ gTblList) (h : x ≠ thisTbl) :
    (d.linkTblInfo thisTbl).next x = d.next x := by
  simp [linkTblInfo, hhead, h]

@[simp] theorem linkTblInfo_prev_self :
    (d.linkTblInfo thisTbl).prev thisTbl = d.prev (d.next gTblList) :=
  Function.update_self _ _ _

theorem linkTblInfo_prev {x : Nat} (h : x ≠ thisTbl) :
    (d.linkTblInfo thisTbl).prev x = d.prev x :=
  Function.update_of_ne h _ _

/-- The ring stays among the head and the tables. -/
theorem Newest.next_mem (h : d.Newest) {node : Nat} (hnode : node ∈ gTblList :: d.tables) :
    d.next node ∈ gTblList :: d.tables := by
  rw [List.mem_cons] at hnode ⊢
  rcases hnode with rfl | hnode
  · have hlist := h.list
    revert hlist
    cases d.tables with
    | nil => exact fun hlist => .inl (seg_nil_iff.mp hlist)
    | cons first rest =>
      intro hlist
      rw [(seg_cons_iff.mp hlist).1]
      exact .inr List.mem_cons_self
  · exact h.list.next_mem hnode

theorem Unused.ne (hunused : d.Unused thisTbl) {node : Nat}
    (hnode : node ∈ gTblList :: d.tables) :
    node ≠ thisTbl := by
  rintro rfl
  exact (List.mem_cons.mp hnode).elim hunused.2.1 hunused.2.2

theorem Newest.head_not_mem (h : d.Newest) : gTblList ∉ d.tables :=
  (List.nodup_cons.mp h.nodup).1

/-! ## Adding a table -/

theorem Newest.allocTblInfo (h : d.Newest) (hunused : d.Unused thisTbl) :
    (d.allocTblInfo thisTbl).Newest where
  list := by
    rw [allocTblInfo_next hunused.2.1.symm]
    exact h.list.congr fun x hx => allocTblInfo_next (hunused.ne (List.mem_cons_of_mem _ hx))
  prev node hnode := by rw [allocTblInfo_prev (hunused.ne hnode), h.prev node hnode]
  nodup := h.nodup
  null := h.null
  names := h.names

theorem Newest.linkTblInfo (h : d.Newest) (hunused : d.Unused thisTbl)
    (hname : d.tableName thisTbl ∉ d.tables.map d.tableName) :
    (d.linkTblInfo thisTbl).Newest where
  list := by
    rw [linkTblInfo_next_head, linkTblInfo_tables]
    refine .cons ?_
    rw [linkTblInfo_next_self hunused.2.1]
    refine h.list.congr fun x hx =>
      linkTblInfo_next ?_ (hunused.ne (List.mem_cons_of_mem _ hx))
    rintro rfl
    exact h.head_not_mem hx
  prev node hnode := by
    by_cases hself : node = thisTbl
    · rw [hself, linkTblInfo_prev_self, h.prev _ (h.next_mem List.mem_cons_self)]
    · rw [linkTblInfo_prev hself, h.prev]
      simpa [hself] using hnode
  nodup := by
    rw [linkTblInfo_tables]
    refine (List.Perm.nodup_iff (List.Perm.swap _ _ _)).mpr
      (List.nodup_cons.mpr ⟨?_, h.nodup⟩)
    exact fun hmem => hunused.ne hmem rfl
  null := by
    rw [linkTblInfo_tables]
    exact List.not_mem_cons_of_ne_of_not_mem hunused.1.symm h.null
  names := List.nodup_cons.mpr ⟨hname, h.names⟩

/-- A table that could not be opened was never in the list. -/
theorem releaseTblInfo_allocTblInfo (hunused : d.Unused thisTbl) :
    (d.allocTblInfo thisTbl).releaseTblInfo thisTbl = d.allocTblInfo thisTbl := by
  have hnext : (d.allocTblInfo thisTbl).next thisTbl = nullAddr := Function.update_self _ _ _
  have htables : (d.allocTblInfo thisTbl).tables.erase thisTbl = d.tables :=
    List.erase_of_not_mem hunused.2.2
  rw [releaseTblInfo, if_neg (fun hand => hand.1 hnext), htables]
  rfl

/-- A table that could not be opened leaves the list as it was, and another one comes
first. -/
theorem Newest.addTblInfo (h : d.Newest) (hunused : d.Unused thisTbl)
    (hname : ∀ tbl ∈ d.tables, d.tableName tbl ≠ filename) (made : Bool) :
    (d.addTblInfo filename thisTbl made).2.Newest ∧
      (d.addTblInfo filename thisTbl made).2.tables
        = if made then thisTbl :: d.tables else d.tables := by
  have halloc := h.allocTblInfo hunused
  cases made with
  | false =>
    have hfailed : (d.addTblInfo filename thisTbl false).2 = d.allocTblInfo thisTbl :=
      releaseTblInfo_allocTblInfo hunused
    rw [hfailed]
    exact ⟨halloc, rfl⟩
  | true =>
    have hnames : d.tables.map (Function.update d.tableName thisTbl filename)
        = d.tables.map d.tableName := by
      refine List.map_congr_left fun tbl hmem => Function.update_of_ne ?_ _ _
      exact hunused.ne (List.mem_cons_of_mem _ hmem)
    have hnamed : ({ d.allocTblInfo thisTbl with
        tableName := Function.update d.tableName thisTbl filename } : Dictionary).Newest :=
      ⟨halloc.list, halloc.prev, halloc.nodup, halloc.null, hnames ▸ h.names⟩
    refine ⟨hnamed.linkTblInfo hunused ?_, rfl⟩
    change Function.update d.tableName thisTbl filename thisTbl
      ∉ d.tables.map (Function.update d.tableName thisTbl filename)
    rw [hnames, Function.update_self]
    simpa using hname

/-! ## Releasing a table -/

theorem Newest.unlinks (h : d.Newest) (hmem : tbl ∈ d.tables) :
    d.next tbl ≠ nullAddr ∧ d.prev tbl ≠ nullAddr := by
  have hnull : nullAddr ∉ gTblList :: d.tables := by
    rw [List.mem_cons, not_or]
    exact ⟨by decide, h.null⟩
  constructor
  · intro heq
    exact hnull (heq ▸ h.next_mem (List.mem_cons_of_mem _ hmem))
  · rw [h.prev tbl (List.mem_cons_of_mem _ hmem)]
    decide

/-- The head is set to what comes after the table. -/
theorem Newest.releaseTblInfo_eq (h : d.Newest) (hmem : tbl ∈ d.tables) :
    d.releaseTblInfo tbl = ⟨Function.update d.next gTblList (d.next tbl),
      Function.update d.prev (d.next tbl) gTblList, d.tableName, d.tables.erase tbl⟩ := by
  have hprev := h.prev tbl (List.mem_cons_of_mem _ hmem)
  have hne : tbl ≠ gTblList := by
    rintro rfl
    exact h.head_not_mem hmem
  rw [releaseTblInfo, if_pos (h.unlinks hmem)]
  simp [hprev, hne]

/-- The links of the tables behind one that is released. -/
theorem Newest.seg_behind (h : d.Newest) {newer older : List Nat}
    (htables : d.tables = newer ++ tbl :: older) :
    Seg (d.releaseTblInfo tbl).next
      ((d.releaseTblInfo tbl).next gTblList) older gTblList := by
  have hmem : tbl ∈ d.tables := by simp [htables]
  have hlist := h.list
  rw [htables] at hlist
  have hhead : (d.releaseTblInfo tbl).next gTblList = d.next tbl := by
    rw [h.releaseTblInfo_eq hmem]
    exact Function.update_self gTblList _ d.next
  rw [hhead]
  refine (seg_cons_iff.mp hlist.split.2).2.congr fun x hx => ?_
  have hne : x ≠ gTblList := by
    rintro rfl
    exact h.head_not_mem (by simp [htables, hx])
  rw [h.releaseTblInfo_eq hmem]
  exact Function.update_of_ne hne _ d.next

theorem Newest.releaseTblInfo (h : d.Newest) (hmem : tbl ∈ d.tables)
    (hfirst : d.next gTblList = tbl) : (d.releaseTblInfo tbl).Newest := by
  obtain ⟨rest, htables⟩ : ∃ rest, d.tables = tbl :: rest := by
    have hlist := h.list
    rw [hfirst] at hlist
    cases htables : d.tables with
    | nil => rw [htables] at hmem; cases hmem
    | cons first rest =>
      rw [htables] at hlist
      exact ⟨rest, by rw [(seg_cons_iff.mp hlist).1]⟩
  have hseg : Seg (d.releaseTblInfo tbl).next _ rest gTblList :=
    h.seg_behind (show d.tables = [] ++ tbl :: rest from htables)
  have hnodup := h.nodup
  have hnull := h.null
  have hnames := h.names
  have hprev := h.prev
  rw [h.releaseTblInfo_eq hmem, htables, List.erase_cons_head] at hseg ⊢
  rw [htables] at hnodup hnull hnames hprev
  have hsub : gTblList :: rest ⊆ gTblList :: tbl :: rest :=
    List.cons_subset_cons _ (List.subset_cons_self _ _)
  refine ⟨hseg, ?_, ?_, List.not_mem_of_not_mem_cons hnull, (List.nodup_cons.mp hnames).2⟩
  · intro node hnode
    by_cases hnext : node = d.next tbl
    · rw [hnext]
      exact Function.update_self _ _ _
    · exact (Function.update_of_ne hnext _ _).trans (hprev node (hsub hnode))
  · exact hnodup.sublist (List.Sublist.cons_cons _ (List.sublist_cons_self _ _))

/-- The tables before one that is released are lost. -/
theorem Newest.releaseTblInfo_lost (h : d.Newest) (hmem : tbl ∈ d.tables)
    (hfirst : d.next gTblList ≠ tbl) : ¬ (d.releaseTblInfo tbl).ListsTables := by
  intro hlists
  obtain ⟨l, hseg, hhead, -, hsame⟩ := hlists.list
  obtain ⟨newer, older, htables⟩ := List.append_of_mem hmem
  have hbehind := h.seg_behind htables
  have hnot := h.head_not_mem
  have hnodup := (List.nodup_cons.mp h.nodup).2
  have hlist := h.list
  rw [htables] at hnot hnodup hlist
  have hl : l = older := hseg.unique hbehind hhead fun hmem' => hnot (by simp [hmem'])
  cases newer with
  | nil => exact hfirst (seg_cons_iff.mp hlist).1
  | cons first newer =>
    have hne : first ≠ tbl := by
      rintro rfl
      simp at hnodup
    have hkept : first ∈ (d.releaseTblInfo tbl).tables := by
      rw [h.releaseTblInfo_eq hmem, htables]
      exact (List.mem_erase_of_ne hne).mpr List.mem_cons_self
    have hlost : first ∉ older := by
      rintro hmem'
      simp [hmem'] at hnodup
    exact hlost (hl ▸ (hsame first).mpr hkept)

/-! ## Calls -/

/-- A table that is released is the first of the list. -/
def ReleasesFirst (d : Dictionary) (call : DictionaryCall) : Prop :=
  ∀ tbl, call = .releaseTblInfo tbl → d.next gTblList = tbl

instance (d : Dictionary) : ∀ call, Decidable (d.ReleasesFirst call)
  | .loadTblInfo _ _ _ => isTrue nofun
  | .createTblInfo _ _ _ => isTrue nofun
  | .releaseTblInfo tbl =>
    decidable_of_iff (d.next gTblList = tbl)
      ⟨fun hfirst _ heq => hfirst.trans (DictionaryCall.releaseTblInfo.inj heq),
        fun h => h tbl rfl⟩

theorem Newest.found_or_not (h : d.Newest) (filename : CString) :
    (∃ tbl ∈ d.tables, d.findTblInfo filename = some tbl ∧ tbl ≠ nullAddr) ∨
      (∀ tbl ∈ d.tables, d.tableName tbl ≠ filename) ∧
        d.findTblInfo filename = some nullAddr := by
  by_cases hname : ∃ tbl ∈ d.tables, d.tableName tbl = filename
  · obtain ⟨tbl, hmem, rfl⟩ := hname
    refine .inl ⟨tbl, hmem, h.findTblInfo_some hmem, ?_⟩
    rintro rfl
    exact h.null hmem
  · have hnone : ∀ tbl ∈ d.tables, d.tableName tbl ≠ filename := by simpa using hname
    exact .inr ⟨hnone, h.findTblInfo_none hnone⟩

/-- Where a call ends. -/
theorem Newest.call_cases (h : d.Newest) {call : DictionaryCall}
    (hcall : d.call call = some d') :
    (∃ tbl ∈ d.tables, call = .releaseTblInfo tbl ∧ d' = d.releaseTblInfo tbl) ∨
      (∀ tbl, call ≠ .releaseTblInfo tbl) ∧
        (d.tables ≠ [] ∧ d' = d ∨
          ∃ filename thisTbl, d.Unused thisTbl ∧
            (∀ tbl ∈ d.tables, d.tableName tbl ≠ filename) ∧
            d' = (d.addTblInfo filename thisTbl call.adds).2) := by
  cases call with
  | loadTblInfo filename thisTbl opened =>
    refine .inr ⟨nofun, ?_⟩
    by_cases hunused : d.Unused thisTbl
    · rw [Dictionary.call, if_pos hunused, loadTblInfo] at hcall
      obtain ⟨tbl, hmem, hfound, hnull⟩ | ⟨hname, hfound⟩ := h.found_or_not filename
      · simp [hfound, hnull] at hcall
        exact .inl ⟨List.ne_nil_of_mem hmem, hcall.symm⟩
      · simp [hfound] at hcall
        exact .inr ⟨filename, thisTbl, hunused, hname, hcall.symm⟩
    · rw [Dictionary.call, if_neg hunused] at hcall
      cases hcall
  | createTblInfo tableName thisTbl created =>
    refine .inr ⟨nofun, ?_⟩
    by_cases hunused : d.Unused thisTbl
    · rw [Dictionary.call, if_pos hunused, createTblInfo] at hcall
      obtain ⟨tbl, hmem, hfound, hnull⟩ | ⟨hname, hfound⟩ := h.found_or_not tableName
      · simp [hfound, hnull] at hcall
        exact .inl ⟨List.ne_nil_of_mem hmem, hcall.symm⟩
      · simp [hfound] at hcall
        exact .inr ⟨tableName, thisTbl, hunused, hname, hcall.symm⟩
    · rw [Dictionary.call, if_neg hunused] at hcall
      cases hcall
  | releaseTblInfo tbl =>
    by_cases hmem : tbl ∈ d.tables
    · rw [Dictionary.call, if_pos hmem, Option.some.injEq] at hcall
      exact .inl ⟨tbl, hmem, rfl, hcall.symm⟩
    · rw [Dictionary.call, if_neg hmem] at hcall
      cases hcall

/-- A call keeps the newest tables first exactly when it does not release another one. -/
theorem Newest.call (h : d.Newest) {call : DictionaryCall} (hcall : d.call call = some d') :
    (d.ReleasesFirst call → d'.Newest) ∧ (d'.ListsTables → d.ReleasesFirst call) := by
  obtain ⟨tbl, hmem, rfl, rfl⟩ | ⟨hother, hadd⟩ := h.call_cases hcall
  · constructor
    · exact fun hfirst => h.releaseTblInfo hmem (hfirst tbl rfl)
    · intro hlists released heq
      cases heq
      by_contra hfirst
      exact h.releaseTblInfo_lost hmem hfirst hlists
  · refine ⟨fun _ => ?_, fun _ tbl heq => absurd heq (hother tbl)⟩
    obtain ⟨-, rfl⟩ | ⟨filename, thisTbl, hunused, hname, rfl⟩ := hadd
    · exact h
    · exact (h.addTblInfo hunused hname _).1

/-- With a table in the list, `prev` goes back from the head to the head. -/
theorem Newest.not_prevInverse (h : d.Newest) (hne : d.tables ≠ []) : ¬ d.PrevInverse := by
  obtain ⟨tbl, hmem⟩ := List.exists_mem_of_ne_nil _ hne
  intro hinverse
  have hself := hinverse tbl (List.mem_cons_of_mem _ hmem)
  rw [h.prev _ (h.next_mem (List.mem_cons_of_mem _ hmem))] at hself
  exact h.head_not_mem (hself ▸ hmem)

theorem Newest.prevInverse (h : d.Newest) (hnil : d.tables = []) : d.PrevInverse := by
  intro node hnode
  have hnext := h.next_mem hnode
  rw [hnil, List.mem_singleton] at hnode hnext
  rw [hnext, h.prev _ List.mem_cons_self, hnode]

/-- A call on a list without tables. -/
theorem Newest.call_nil (h : d.Newest) (hnil : d.tables = []) {call : DictionaryCall}
    (hcall : d.call call = some d') :
    d'.Newest ∧ (call.adds = false → d'.tables = []) ∧
      (call.adds = true → d'.tables ≠ []) := by
  obtain ⟨tbl, hmem, -⟩ | ⟨-, ⟨hne, -⟩ | ⟨filename, thisTbl, hunused, hname, rfl⟩⟩ :=
    h.call_cases hcall
  · rw [hnil] at hmem
    cases hmem
  · exact absurd hnil hne
  · obtain ⟨hnewest, htables⟩ := h.addTblInfo hunused hname call.adds
    refine ⟨hnewest, fun hadds => ?_, fun hadds => ?_⟩
    · rw [htables, hadds, hnil]
      rfl
    · rw [htables, hadds]
      exact List.cons_ne_nil _ _

/-! ## Runs -/

/-- In every state of a run the list has the tables and `prev` is the inverse of `next`
exactly when no call adds a table. And in every state it has the tables exactly when each
table that is released is the first of the list, which is the newest one. -/
theorem dictionary_lists_iff {calls : List DictionaryCall}
    (hrun : run call init calls = some d) :
    ((∀ done rest d', calls = done ++ rest → run call init done = some d' →
        d'.ListsTables ∧ d'.PrevInverse) ↔ ∀ c ∈ calls, c.adds = false) ∧
      ((∀ done rest d', calls = done ++ rest →
        run call init done = some d' → d'.ListsTables) ↔
        Along call ReleasesFirst init calls) := by
  constructor
  · rw [← along_iff_forall_mem hrun]
    refine run_property_iff (I := fun d => d.Newest ∧ d.tables = [])
      (fun h => ⟨h.1.listsTables, h.1.prevInverse h.2⟩) ?_ ⟨newest_init, rfl⟩ hrun
    intro d c d' h hcall
    obtain ⟨hnewest, hkept, hadded⟩ := h.1.call_nil h.2 hcall
    refine ⟨fun hadds => ⟨hnewest, hkept hadds⟩, fun hlists => ?_⟩
    by_contra hadds
    exact hnewest.not_prevInverse (hadded (by simpa using hadds)) hlists.2
  · exact run_property_iff Newest.listsTables (fun h hcall => h.call hcall) newest_init hrun

def tableNameT : CString := cString [116]
def tableNameU : CString := cString [117]

/-- The table `t` is created, `u` is not there, is created and is dropped. -/
def newestDropped : List DictionaryCall :=
  [.createTblInfo tableNameT 2 true, .loadTblInfo tableNameU 3 false,
    .createTblInfo tableNameU 3 true, .releaseTblInfo 3]

theorem newestDropped_lists : (exec call init newestDropped).ListsTables := by
  have hrun := run_exec (show (run call init newestDropped).isSome = true by decide)
  exact (dictionary_lists_iff hrun).2.mpr (by decide) newestDropped [] _
    (List.append_nil _).symm hrun

/-- `CREATE TABLE t`, `CREATE TABLE u`, `DROP TABLE t`. -/
def olderDropped : List DictionaryCall :=
  [.createTblInfo tableNameT 2 true, .createTblInfo tableNameU 3 true, .releaseTblInfo 2]

/-- The table `u` is not found any more; and before the DROP `prev` leads from the head to the
head. -/
theorem olderDropped_loses :
    (run call init olderDropped).isSome = true ∧
      tableNameU ∈ (exec call init olderDropped).tables.map
        (exec call init olderDropped).tableName ∧
      (exec call init olderDropped).findTblInfo tableNameU = some nullAddr ∧
      ¬ (exec call init olderDropped).ListsTables ∧
      ¬ (exec call init (olderDropped.take 2)).PrevInverse := by
  refine ⟨by decide, by decide, by decide, fun hlists => ?_, fun hinverse => ?_⟩
  · have hfound := hlists.found 3 (by decide)
    revert hfound
    decide
  · have hhead := hinverse 2 (by decide)
    revert hhead
    decide

end Dictionary

end Toadb
