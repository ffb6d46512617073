/-
Toadb.Plan.TargetListTheorems — are target lists free of repetitions?

An entry of a target list is identified by its table and its name (`SameTarget`).
`MergetTargetList` looks an entry up by its name and compares the table of the
first one it finds, so it adds exactly the entries that `isRepeated` does not
see in the first list (`mergetTargetList_eq`). An entry of another table with
the same name hides what is behind it (`mergetTargetList_iff`). A table's own
list has entries of that table only, and there the lookup is enough
(`targetsOf_foldl`).
-/
import Toadb.Plan.QueryTheorems

namespace Toadb

/-! ## Identity of entries -/

/-- The entries have the same name. -/
def SameTargetName (te1 te2 : TargetEntry) : Prop :=
  ∃ name1 name2, te1.name = some name1 ∧ te2.name = some name2 ∧ sameName name1 name2 = true

/-- The entries are of the same table, and have the same name. -/
def SameTarget (te1 te2 : TargetEntry) : Prop :=
  te1.rindex = te2.rindex ∧ SameTargetName te1 te2

/-- No entry is repeated. -/
def NoRepeat (targetList : List TargetEntry) : Prop :=
  targetList.Pairwise fun te1 te2 => ¬ SameTarget te1 te2

section Names

variable {te1 te2 te3 : TargetEntry}

theorem SameTargetName.symm (h : SameTargetName te1 te2) : SameTargetName te2 te1 := by
  obtain ⟨name1, name2, h1, h2, hsame⟩ := h
  refine ⟨name2, name1, h2, h1, ?_⟩
  rw [sameName, beq_iff_eq] at hsame ⊢
  exact hsame.symm

theorem SameTargetName.trans (h : SameTargetName te1 te2) (h' : SameTargetName te2 te3) :
    SameTargetName te1 te3 := by
  obtain ⟨name1, name2, h1, h2, hsame⟩ := h
  obtain ⟨name2', name3, h2', h3, hsame'⟩ := h'
  obtain rfl : name2 = name2' := Option.some.inj (h2.symm.trans h2')
  refine ⟨name1, name3, h1, h3, ?_⟩
  rw [sameName, beq_iff_eq] at hsame hsame' ⊢
  exact hsame.trans hsame'

theorem SameTarget.symm (h : SameTarget te1 te2) : SameTarget te2 te1 := ⟨h.1.symm, h.2.symm⟩

end Names

/-! ## The lookup -/

section Lookup

variable {targetList new : List TargetEntry} {target te : TargetEntry}

theorem sameTargetName_iff : SameTargetName te target ↔
    ∃ colName, target.name = some colName ∧ te.name.any (sameName colName) = true := by
  constructor
  · intro h
    obtain ⟨colName, name, hcol, hname, hsame⟩ := h.symm
    exact ⟨colName, hcol, by rw [hname]; exact hsame⟩
  · rintro ⟨colName, hcol, hany⟩
    obtain ⟨name, hname, hsame⟩ := (Option.any_eq_true ..).mp hany
    exact SameTargetName.symm ⟨colName, name, hcol, hname, hsame⟩

/-- The first entry of the name is found. -/
theorem queryRangTblTarget_eq_some :
    queryRangTblTarget targetList target.name = some te ↔ SameTargetName te target ∧
      ∃ before after, targetList = before ++ te :: after ∧ ∀ te' ∈ before,
        ¬ SameTargetName te' target := by
  cases hname : target.name with
  | none =>
    have hnone (te : TargetEntry) : ¬ SameTargetName te target := by
      rintro ⟨-, name, -, hsome, -⟩
      rw [hname] at hsome
      cases hsome
    exact ⟨nofun, fun h => absurd h.1 (hnone te)⟩
  | some colName =>
    have hany (te : TargetEntry) : SameTargetName te target ↔
        te.name.any (sameName colName) = true := by
      rw [sameTargetName_iff, hname]
      exact ⟨by rintro ⟨_, ⟨⟩, h⟩; exact h, fun h => ⟨colName, rfl, h⟩⟩
    change targetList.find? (fun te => te.name.any (sameName colName)) = some te ↔ _
    simp only [List.find?_eq_some_iff_append, hany, Bool.not_eq_true', Bool.not_eq_true]

/-- The first entry of the name is of the table. -/
theorem isRepeated_iff : isRepeated targetList target = true ↔
    ∃ before te after, targetList = before ++ te :: after ∧ SameTarget te target ∧
      ∀ te' ∈ before, ¬ SameTargetName te' target := by
  rw [isRepeated, Option.any_eq_true]
  constructor
  · rintro ⟨te, hfound, hrindex⟩
    obtain ⟨hname, before, after, hsplit, hbefore⟩ := queryRangTblTarget_eq_some.mp hfound
    exact ⟨before, te, after, hsplit, ⟨of_decide_eq_true hrindex, hname⟩, hbefore⟩
  · rintro ⟨before, te, after, hsplit, ⟨hrindex, hname⟩, hbefore⟩
    exact ⟨te, queryRangTblTarget_eq_some.mpr ⟨hname, before, after, hsplit, hbefore⟩,
      decide_eq_true hrindex⟩

theorem isRepeated_of_append (hnew : ∀ te ∈ new, ¬ SameTarget te target) :
    isRepeated (targetList ++ new) target = isRepeated targetList target := by
  rw [Bool.eq_iff_iff, isRepeated_iff, isRepeated_iff]
  constructor
  · rintro ⟨before, te, after, hsplit, hsame, hbefore⟩
    rcases List.append_eq_append_iff.mp hsplit with ⟨mid, rfl, hmid⟩ | ⟨mid, hmid, hafter⟩
    · exact absurd hsame (hnew te (hmid ▸ List.mem_append_right _ List.mem_cons_self))
    · rcases mid with _ | ⟨te', mid⟩
      · exact absurd hsame
          (hnew te (List.mem_of_mem_head? (by rw [← List.nil_append new, ← hafter]; rfl)))
      · obtain ⟨rfl, -⟩ := List.cons.inj hafter
        exact ⟨before, te, mid, hmid, hsame, hbefore⟩
  · rintro ⟨before, te, after, rfl, hsame, hbefore⟩
    exact ⟨before, te, after ++ new, by
      rw [List.append_assoc, List.cons_append], hsame, hbefore⟩

end Lookup

/-! ## Merging -/

section Merge

variable {target1 target2 : List TargetEntry}

/-- The entries of the second list that are not seen in the first one are added. -/
theorem mergetTargetList_eq (h2 : NoRepeat target2) :
    mergetTargetList target1 target2 = target1 ++ target2.filter fun te =>
      !isRepeated target1 te := by
  suffices h : ∀ new : List TargetEntry, (∀ te ∈ target2, ∀ te' ∈ new, ¬ SameTarget te' te) →
      mergetTargetList (target1 ++ new) target2 =
        target1 ++ new ++ target2.filter fun te => !isRepeated target1 te by
    have hnil := h [] fun te _ te' hmem => absurd hmem List.not_mem_nil
    rwa [List.append_nil] at hnil
  induction target2 with
  | nil => exact fun new _ => (List.append_nil _).symm
  | cons te target2 ih =>
    intro new hnew
    obtain ⟨hte, hrest⟩ := List.pairwise_cons.mp h2
    obtain ⟨hnewte, hnewrest⟩ := List.forall_mem_cons.mp hnew
    have hstep : mergetTargetList (target1 ++ new) (te :: target2) =
        mergetTargetList (if isRepeated target1 te then target1 ++ new
          else target1 ++ new ++ [te]) target2 := by
      rw [← isRepeated_of_append hnewte]
      rfl
    rw [hstep, List.filter_cons]
    cases hrepeated : isRepeated target1 te with
    | true => exact ih hrest new hnewrest
    | false =>
      have hnew' : ∀ te1 ∈ target2, ∀ te' ∈ new ++ [te], ¬ SameTarget te' te1 := by
        intro te1 hte1 te' hte'
        rcases List.mem_append.mp hte' with hold | hlast
        · exact hnewrest te1 hte1 te' hold
        · exact List.mem_singleton.mp hlast ▸ hte te1 hte1
      have htail := ih hrest (new ++ [te]) hnew'
      rw [← List.append_assoc] at htail
      rw [List.append_assoc _ [te], List.singleton_append] at htail
      exact htail

/-- The union of two target lists, in the order of the first one. -/
structure IsUnion (target1 target2 result : List TargetEntry) : Prop where
  first : target1 <+: result
  subset : ∀ te ∈ result, te ∈ target1 ∨ te ∈ target2
  complete : ∀ te ∈ target2, te ∈ result ∨ ∃ te' ∈ target1, SameTarget te' te
  noRepeat : NoRepeat result

/-- No entry of the second list is hidden in the first one, by an entry of its name in front
of it. -/
def NotHidden (target1 target2 : List TargetEntry) : Prop :=
  ∀ before te after, target1 = before ++ te :: after → ∀ te2 ∈ target2, SameTarget te te2 →
    ∀ te' ∈ before, ¬ SameTargetName te' te2

/-- The lookup sees the entry when it is not hidden. -/
theorem isRepeated_of_notHidden {te te2 : TargetEntry} (h : NotHidden target1 target2)
    (hte : te ∈ target1)
    (hte2 : te2 ∈ target2) (hsame : SameTarget te te2) : isRepeated target1 te2 = true := by
  obtain ⟨before, after, hsplit⟩ := List.append_of_mem hte
  exact isRepeated_iff.mpr ⟨before, te, after, hsplit, hsame,
    h before te after hsplit te2 hte2 hsame⟩

/-- It does not see what is hidden, when nothing is repeated. -/
theorem not_isRepeated_of_hidden {before after : List TargetEntry} {te te' te2 : TargetEntry}
    (h1 : NoRepeat (before ++ te :: after)) (hsame : SameTarget te te2) (hmem : te' ∈ before)
    (hname : SameTargetName te' te2) : isRepeated (before ++ te :: after) te2 = false := by
  rw [Bool.eq_false_iff]
  intro hrepeated
  obtain ⟨front, te1, back, hsplit, hsame1, hfront⟩ := isRepeated_iff.mp hrepeated
  have hapart := (List.pairwise_append.mp h1).2.2
  rcases List.append_eq_append_iff.mp hsplit with ⟨mid, rfl, -⟩ | ⟨mid, rfl, hmid⟩
  · exact hfront te' (List.mem_append_left _ hmem) hname
  · rcases mid with _ | ⟨te1', mid⟩
    · rw [List.append_nil] at hmem
      exact hfront te' hmem hname
    · obtain ⟨rfl, -⟩ := List.cons.inj hmid
      refine hapart te1 (List.mem_append_right _ List.mem_cons_self) te List.mem_cons_self ?_
      exact ⟨hsame1.1.trans hsame.1.symm, hsame1.2.trans hsame.2.symm⟩

theorem isUnion_iff (h1 : NoRepeat target1) (h2 : NoRepeat target2) :
    IsUnion target1 target2 (mergetTargetList target1 target2) ↔
      NotHidden target1 target2 := by
  have heq : mergetTargetList target1 target2 = target1 ++ target2.filter fun te =>
      !isRepeated target1 te :=
    mergetTargetList_eq h2
  constructor
  · rintro ⟨-, -, -, hnoRepeat⟩ before te after rfl te2 hte2 hsame te' hte' hname
    have hadded := not_isRepeated_of_hidden h1 hsame hte' hname
    rw [heq] at hnoRepeat
    refine (List.pairwise_append.mp hnoRepeat).2.2 te
      (List.mem_append_right _ List.mem_cons_self) te2 ?_ hsame
    exact List.mem_filter.mpr ⟨hte2, by rw [hadded]; rfl⟩
  · intro h
    rw [heq]
    refine ⟨List.prefix_append _ _, fun te hte => ?_, fun te hte => ?_, ?_⟩
    · exact (List.mem_append.mp hte).imp_right fun hadded => (List.mem_filter.mp hadded).1
    · cases hrepeated : isRepeated target1 te with
      | false =>
        exact .inl
          (List.mem_append_right _ (List.mem_filter.mpr ⟨hte, by rw [hrepeated]; rfl⟩))
      | true =>
        obtain ⟨before, te', after, rfl, hsame, -⟩ := isRepeated_iff.mp hrepeated
        exact .inr ⟨te', List.mem_append_right _ List.mem_cons_self, hsame⟩
    · refine List.pairwise_append.mpr ⟨h1, h2.filter _, fun te hte te2 hadded hsame => ?_⟩
      obtain ⟨hte2, hnot⟩ := List.mem_filter.mp hadded
      rw [isRepeated_of_notHidden h hte hte2 hsame] at hnot
      cases hnot

end Merge

/-! ## The list of a table -/

/-- The targets of a table: all of that table, and none repeated. -/
structure TargetsOf (rte : RangTblEntry) : Prop where
  rindex : ∀ te ∈ rte.targetList, te.rindex = rte.rindex
  noRepeat : NoRepeat rte.targetList

/-- A target of the table is added. -/
theorem TargetsOf.add {rte : RangTblEntry} (h : TargetsOf rte) {target : TargetEntry}
    (htarget : target.rindex = rte.rindex) :
    TargetsOf (addRangTblTargetEntry target rte) := by
  unfold addRangTblTargetEntry
  split
  next => exact h
  next hnew =>
    refine ⟨List.forall_mem_append.mpr ⟨h.rindex, List.forall_mem_singleton.mpr htarget⟩, ?_⟩
    refine List.pairwise_append.mpr ⟨h.noRepeat, List.pairwise_singleton _ _, ?_⟩
    rintro te hte target' htarget' hsame
    obtain rfl := List.mem_singleton.mp htarget'
    refine hnew ?_
    -- the entry that is found is of the table, like all of the list
    obtain ⟨colName, hcol, hany⟩ := sameTargetName_iff.mp hsame.2
    rw [queryRangTblTarget, hcol, Option.bind_eq_bind, Option.bind_some]
    cases hfound : rte.targetList.find? fun te => te.name.any (sameName colName) with
    | none => exact absurd hany (List.find?_eq_none.mp hfound te hte)
    | some te' => exact decide_eq_true (h.rindex te' (List.mem_of_find?_eq_some hfound))

/-- Targets are added one after the other. -/
def addTargets (targets : List TargetEntry) (rte : RangTblEntry) : RangTblEntry :=
  targets.foldl (fun rte target => addRangTblTargetEntry target rte) rte

theorem targetsOf_foldl {rte : RangTblEntry} (h : TargetsOf rte) {targets : List TargetEntry}
    (htargets : ∀ target ∈ targets, target.rindex = rte.rindex) :
    TargetsOf (addTargets targets rte) := by
  induction targets generalizing rte with
  | nil => exact h
  | cons target targets ih =>
    obtain ⟨htarget, hrest⟩ := List.forall_mem_cons.mp htargets
    refine ih (h.add htarget) fun te hte => (hrest te hte).trans ?_
    have hkey := key_addRangTblTargetEntry target rte
    exact (congrArg Prod.fst hkey).symm

/-- A merge gives the union exactly when the second list has nothing that is hidden in the
first one. The target list of a table stays free of repetitions. -/
theorem targetLists_iff {target1 target2 : List TargetEntry} (h1 : NoRepeat target1)
    (h2 : NoRepeat target2) :
    IsUnion target1 target2 (mergetTargetList target1 target2) ∧
      (∀ (rte : RangTblEntry) (targets : List TargetEntry), TargetsOf rte →
        (∀ target ∈ targets, target.rindex = rte.rindex) → TargetsOf
        (addTargets targets rte)) ↔
    NotHidden target1 target2 := by
  rw [isUnion_iff h1 h2]
  exact and_iff_left fun rte targets hrte htargets => targetsOf_foldl hrte htargets

/-- A column `x` of a table. -/
def targetX (rindex : Nat) : TargetEntry :=
  ⟨some (cString [120]), ⟨cString [120], none, .int, 0⟩, rindex, 0⟩

theorem noRepeat_targetX : NoRepeat [targetX 1, targetX 2] := by
  refine List.pairwise_pair.mpr ?_
  rintro ⟨hrindex, -⟩
  cases hrindex

/-- A column in front of the other one is merged. -/
theorem targetLists_front : IsUnion [targetX 1, targetX 2] [targetX 1]
    (mergetTargetList [targetX 1, targetX 2] [targetX 1]) := by
  have hhidden : NotHidden [targetX 1, targetX 2] [targetX 1] := by
    rintro (_ | ⟨te1, _ | ⟨te2, before⟩⟩) te after hsplit te2 hte2 hsame te' hte'
    · cases hte'
    · obtain ⟨-, hrest⟩ := List.cons.inj hsplit
      obtain ⟨rfl, -⟩ := List.cons.inj hrest
      obtain rfl := List.mem_singleton.mp hte2
      cases hsame.1
    · exact absurd (List.cons.inj (List.cons.inj hsplit).2).2 (by simp)
  exact ((targetLists_iff noRepeat_targetX (List.pairwise_singleton _ _)).mpr hhidden).1

/-- A column behind the other one is repeated. -/
theorem targetLists_behind : NoRepeat [targetX 1, targetX 2] ∧ NoRepeat [targetX 2] ∧
    mergetTargetList [targetX 1, targetX 2] [targetX 2] = [targetX 1, targetX 2, targetX 2] ∧
    ¬ NoRepeat [targetX 1, targetX 2, targetX 2] := by
  refine ⟨noRepeat_targetX, List.pairwise_singleton _ _, by decide, fun h => ?_⟩
  have hself : ¬ SameTarget (targetX 2) (targetX 2) :=
    List.rel_of_pairwise_cons (List.pairwise_cons.mp h).2 (List.mem_singleton_self _)
  exact hself ⟨rfl, _, _, rfl, rfl, rfl⟩

end Toadb
