/-
Toadb.Buffer.GroupMembersTheorems — which pins a group fetch leaves when it fails.

The loop stops at the first member whose page cannot be got (`StopsAt`), with the pages of the
columns `asked` for before it. `ReleasePageList` is told the `memNum` of that member, which
says nothing about them: it releases that many pages, or one (`releasePageList_spec`). So
nothing is left exactly when no more pages than that were got (`groupFetch_fails_iff`).
-/
import Toadb.Buffer.GroupMembers
import Toadb.Buffer.ResourceOwnerTheorems
import Mathlib.Data.List.Count

namespace Toadb

variable {N m : Nat} {s t : OwnerSys N m} {w : Fin m} {num : Nat} {wanted : Nat → Nat → Bool}
  {members : List (GroupMember N)} {pages : List (Fin N)} {r : PinnedPages N m}

/-! ## Members -/

/-- The columns whose page is asked for. -/
def asked (wanted : Nat → Nat → Bool) :
    Nat → Nat → List (GroupMember N) → List (GroupMember N)
  | _, _, [] => []
  | colIndex, subPageNum, member :: members =>
      if wanted colIndex subPageNum then
        member :: asked wanted (colIndex + 1) (subPageNum + 1) members
      else asked wanted (colIndex + 1) subPageNum members

/-- The pages that are asked for among the members `pre` can be got, they are less than `num`,
and the next member has a page that cannot be got. -/
structure StopsAt (wanted : Nat → Nat → Bool) (num colIndex subPageNum : Nat)
    (pre : List (GroupMember N)) (bad : GroupMember N) : Prop where
  valid : ∀ member ∈ pre, member.pageno ≠ invalidPageNum
  got : ∀ member ∈ asked wanted colIndex subPageNum pre, member.page.isSome = true
  few : subPageNum + (asked wanted colIndex subPageNum pre).length < num
  bad : bad.pageno = invalidPageNum ∨
    wanted (colIndex + pre.length)
      (subPageNum + (asked wanted colIndex subPageNum pre).length) = true ∧
      bad.page = none

theorem refCnt_getPageByIndex (id id' : Fin N) :
    ((s.getPageByIndex w (some id)).bufferDesc id').refCnt =
    (s.bufferDesc id').refCnt + [id].count id' := by
  by_cases h : id' = id
  · subst h
    simp [OwnerSys.getPageByIndex, OwnerSys.readPage, OwnerSys.setOwner, BufferDesc.pin]
  · simp [OwnerSys.getPageByIndex, OwnerSys.readPage, OwnerSys.setOwner, h, Ne.symm h]

/-- What the loop has done where it ends. -/
structure LoopEnds (num : Nat) (wanted : Nat → Nat → Bool) (s : OwnerSys N m)
    (pages : List (Fin N)) (colIndex : Nat)
    (members : List (GroupMember N)) (r : PinnedPages N m) : Prop where
  pins : ∃ new, r.pages = pages ++ new ∧
    ∀ id, (r.sys.bufferDesc id).refCnt = (s.bufferDesc id).refCnt + new.count id
  length : r.pages.length ≤ max num (pages.length + 1)
  stops : r.pages.length < num → ∃ pre post, members = pre ++ r.memberData :: post ∧
    StopsAt wanted num colIndex pages.length pre r.memberData ∧
      r.pages.length = pages.length + (asked wanted colIndex pages.length pre).length

/-- The page of a member that is got comes before the rest. -/
theorem LoopEnds.cons_got {colIndex : Nat} {member : GroupMember N} {id : Fin N}
    (h : LoopEnds num wanted (s.getPageByIndex w (some id)) (pages ++ [id])
      (colIndex + 1) members r)
    (hvalid : member.pageno ≠ invalidPageNum) (hwanted : wanted colIndex pages.length = true)
    (hpage : member.page = some id) (hnum : pages.length + 1 < num) :
    LoopEnds num wanted s pages colIndex (member :: members) r := by
  obtain ⟨⟨new, hnew, hrefs⟩, hlength, hstops⟩ := h
  have hlen : (pages ++ [id]).length = pages.length + 1 := by simp
  refine ⟨⟨id :: new, by rw [hnew, List.append_assoc]; rfl, fun id' => ?_⟩, by
    omega, fun hfew => ?_⟩
  · rw [hrefs, refCnt_getPageByIndex, Nat.add_assoc, ← List.count_append]
    rfl
  · obtain ⟨pre, post, hmembers, hstop, hcount⟩ := hstops hfew
    rw [hlen] at hstop hcount
    have hasked : asked wanted colIndex pages.length (member :: pre) =
        member :: asked wanted (colIndex + 1) (pages.length + 1) pre := by
          rw [asked, if_pos hwanted]
    refine ⟨member :: pre, post, by rw [hmembers]; rfl, ⟨?_, ?_, ?_, ?_⟩, ?_⟩
    · exact List.forall_mem_cons.mpr ⟨hvalid, hstop.valid⟩
    · rw [hasked]
      exact List.forall_mem_cons.mpr ⟨by rw [hpage]; rfl, hstop.got⟩
    · rw [hasked, List.length_cons]
      have hless := hstop.few
      omega
    · rw [hasked, List.length_cons, List.length_cons]
      have hbad := hstop.bad
      rwa [Nat.add_assoc, Nat.add_comm 1, Nat.add_assoc, Nat.add_comm 1] at hbad
    · rw [hcount, hasked, List.length_cons]
      omega

/-- A member that is not asked for. -/
theorem LoopEnds.cons_skipped {colIndex : Nat} {member : GroupMember N}
    (h : LoopEnds num wanted s pages (colIndex + 1) members r)
    (hvalid : member.pageno ≠ invalidPageNum)
    (hwanted : wanted colIndex pages.length ≠ true) :
    LoopEnds num wanted s pages colIndex (member :: members) r := by
  refine ⟨h.pins, h.length, fun hfew => ?_⟩
  obtain ⟨pre, post, hmembers, hstop, hcount⟩ := h.stops hfew
  have hasked : asked wanted colIndex pages.length (member :: pre) =
      asked wanted (colIndex + 1) pages.length pre := by rw [asked, if_neg hwanted]
  refine ⟨member :: pre, post, by rw [hmembers]; rfl, ⟨?_, ?_, ?_, ?_⟩, by
    rw [hasked, hcount]⟩
  · exact List.forall_mem_cons.mpr ⟨hvalid, hstop.valid⟩
  · rw [hasked]
    exact hstop.got
  · rw [hasked]
    exact hstop.few
  · rw [hasked, List.length_cons]
    have hbad := hstop.bad
    rwa [Nat.add_assoc, Nat.add_comm 1] at hbad

theorem memberPagesLoop_ends {colIndex : Nat}
    (h : memberPagesLoop w num wanted s pages colIndex members = some r) :
    LoopEnds num wanted s pages colIndex members r := by
  induction members generalizing s pages colIndex with
  | nil => cases h
  | cons member members ih =>
    -- The loop ends at this member, without its page.
    have hhere (hbad : member.pageno = invalidPageNum ∨ wanted colIndex pages.length = true ∧
        member.page = none) :
        LoopEnds num wanted s pages colIndex (member :: members) ⟨s, pages, member⟩ := by
      refine ⟨⟨[], by simp, by simp⟩, by
        dsimp only; omega, fun hfew => ⟨[], members, rfl, ⟨?_, ?_, ?_, ?_⟩, rfl⟩⟩
      · simp
      · simp [asked]
      · exact hfew
      · exact hbad
    rw [memberPagesLoop] at h
    split at h
    · rename_i hinvalid
      cases h
      exact hhere (.inl hinvalid)
    · rename_i hvalid
      split at h
      · rename_i hwanted
        split at h
        · rename_i hpage
          cases h
          exact hhere (.inr ⟨hwanted, hpage⟩)
        · rename_i id hpage
          dsimp only at h
          split at h
          · rename_i hnum
            cases h
            refine ⟨⟨[id], rfl, refCnt_getPageByIndex id⟩, by simp, fun hfew => ?_⟩
            dsimp only at hfew
            omega
          · rename_i hnum
            rw [List.length_append, List.length_singleton] at hnum
            exact (ih h).cons_got hvalid hwanted hpage (by omega)
      · rename_i hwanted
        exact (ih h).cons_skipped hvalid hwanted

/-- The loop ends where `StopsAt` says. -/
theorem StopsAt.memberPagesLoop {colIndex : Nat} {pre post : List (GroupMember N)}
    {bad : GroupMember N} (h : StopsAt wanted num colIndex pages.length pre bad) : ∃ r,
    memberPagesLoop w num wanted s pages colIndex (pre ++ bad :: post) = some r ∧
      r.memberData = bad ∧
      r.pages.length = pages.length + (asked wanted colIndex pages.length pre).length := by
  induction pre generalizing s pages colIndex with
  | nil =>
    refine ⟨⟨s, pages, bad⟩, ?_, rfl, rfl⟩
    rw [List.nil_append, Toadb.memberPagesLoop]
    by_cases hinvalid : bad.pageno = invalidPageNum
    · rw [if_pos hinvalid]
    · obtain ⟨hwanted, hpage⟩ := h.bad.resolve_left hinvalid
      have hwanted' : wanted colIndex pages.length = true := hwanted
      rw [if_neg hinvalid, if_pos hwanted', hpage]
  | cons member pre ih =>
    obtain ⟨hvalid, hvalids⟩ := List.forall_mem_cons.mp h.valid
    have hgot := h.got
    have hfew := h.few
    have hbad := h.bad
    rw [List.cons_append, Toadb.memberPagesLoop, if_neg hvalid]
    by_cases hwanted : wanted colIndex pages.length = true
    · have hasked : asked wanted colIndex pages.length (member :: pre) =
          member :: asked wanted (colIndex + 1) (pages.length + 1) pre := by
            rw [asked, if_pos hwanted]
      rw [hasked] at hgot hfew hbad ⊢
      rw [List.length_cons] at hfew
      rw [List.length_cons, List.length_cons] at hbad
      obtain ⟨hpage, hpages⟩ := List.forall_mem_cons.mp hgot
      obtain ⟨id, hid⟩ := Option.isSome_iff_exists.mp hpage
      have hlen : (pages ++ [id]).length = pages.length + 1 := by simp
      rw [if_pos hwanted, hid]
      dsimp only
      rw [if_neg (by omega)]
      have hrest : StopsAt wanted num (colIndex + 1) (pages ++ [id]).length pre bad := by
        rw [hlen]
        refine ⟨hvalids, hpages, by omega, ?_⟩
        rwa [Nat.add_assoc, Nat.add_comm 1, Nat.add_assoc, Nat.add_comm 1]
      obtain ⟨r, hr, hmember, hcount⟩ := ih hrest
      refine ⟨r, hr, hmember, ?_⟩
      rw [hlen] at hcount
      rw [hcount, List.length_cons]
      omega
    · have hasked : asked wanted colIndex pages.length (member :: pre) =
          asked wanted (colIndex + 1) pages.length pre := by rw [asked, if_neg hwanted]
      rw [hasked] at hgot hfew hbad ⊢
      rw [List.length_cons] at hbad
      rw [if_neg hwanted]
      refine ih ⟨hvalids, hgot, hfew, ?_⟩
      rwa [Nat.add_assoc, Nat.add_comm 1]

/-! ## The release -/

/-- The first pages of the list are released: `num` of them, or one. -/
theorem releasePageList_spec {rest : List (Option (Fin N))}
    (hrest : ∀ page ∈ rest, page = none)
    (hpins : ∀ id, pages.count id ≤ (s.bufferDesc id).refCnt) :
    (releasePageList w num s (pages.map some ++ rest)).2 =
        List.replicate (min pages.length (max 1 num)) none ++
          (pages.drop (max 1 num)).map some ++ rest ∧
      ∀ id, ((releasePageList w num s (pages.map some ++ rest)).1.bufferDesc id).refCnt +
        (pages.take (max 1 num)).count id =
        (s.bufferDesc id).refCnt := by
  induction pages generalizing s num with
  | nil =>
    have hstay : releasePageList w num s (List.map some [] ++ rest) = (s, rest) := by
      rw [List.map_nil, List.nil_append]
      cases rest with
      | nil => rfl
      | cons page rest =>
        rw [hrest page List.mem_cons_self]
        rfl
    rw [hstay]
    simp
  | cons id pages ih =>
    have hone : ∀ id', ((s.releasePage w id).bufferDesc id').refCnt + [id].count id' =
        (s.bufferDesc id').refCnt := by
      intro id'
      have hpin := hpins id'
      rw [List.count_cons] at hpin
      rw [refCnt_releasePage, List.count_singleton]
      by_cases heq : id' = id
      · subst heq
        simp only [BEq.rfl, if_true] at hpin ⊢
        omega
      · simp [heq, Ne.symm heq]
    rw [List.map_cons, List.cons_append, releasePageList]
    dsimp only
    by_cases hnum : num ≤ 1
    · have hmax : max 1 num = 1 := by omega
      rw [if_pos hnum, hmax]
      refine ⟨?_, hone⟩
      simp
    · obtain ⟨k, rfl⟩ : ∃ k, num = k + 1 := ⟨num - 1, by omega⟩
      have hmax : max 1 (k + 1) = max 1 k + 1 := by omega
      have hrestPins : ∀ id', pages.count id' ≤
          ((s.releasePage w id).bufferDesc id').refCnt := by
        intro id'
        have hpin := hpins id'
        have hpin' := hone id'
        rw [List.count_cons] at hpin
        rw [List.count_singleton] at hpin'
        omega
      obtain ⟨hlist, hrefs⟩ :
          (releasePageList w k (s.releasePage w id) (pages.map some ++ rest)).2 = _ ∧ _ :=
        ih hrestPins
      rw [if_neg hnum, hmax, Nat.add_sub_cancel]
      refine ⟨?_, fun id' => ?_⟩
      · dsimp only
        rw [hlist, List.length_cons, Nat.add_min_add_right, List.replicate_succ,
          List.drop_succ_cons]
        rfl
      · have hmore := hrefs id'
        have hpin' := hone id'
        rw [List.take_succ_cons, List.count_cons]
        rw [List.count_singleton] at hpin'
        dsimp only
        omega

/-! ## The result -/

/-- No pin is more or less than before. -/
def SamePins (s t : OwnerSys N m) : Prop :=
  ∀ id, (t.bufferDesc id).refCnt = (s.bufferDesc id).refCnt

/-- Before a page that cannot be got, one page at most was got, or no more than the `memNum`
of the member with that page. -/
def FewGot (wanted : Nat → Nat → Bool) (num : Nat)
    (memberData : Option (List (GroupMember N))) : Prop :=
  ∀ members, memberData = some members → ∀ pre bad post, members = pre ++ bad :: post →
    StopsAt wanted num 0 0 pre bad →
    (asked wanted 0 0 pre).length ≤ max 1 bad.memNum

/-- What is left after the release. -/
theorem LoopEnds.release (h : LoopEnds num wanted s [] 0 members r) (w : Fin m)
    {pagelist : List (Option (Fin N))} (hempty : ∀ page ∈ pagelist, page = none) :
    (SamePins s
      (releasePageList w r.memberData.memNum r.sys (writePages pagelist r.pages)).1 ↔
        r.pages.length ≤ max 1 r.memberData.memNum) ∧
      ((∀ page ∈ (releasePageList w r.memberData.memNum r.sys
        (writePages pagelist r.pages)).2, page = none) ↔
        r.pages.length ≤ max 1 r.memberData.memNum) := by
  obtain ⟨new, hnew, hrefs⟩ := h.pins
  rw [List.nil_append] at hnew
  subst hnew
  have hrest : ∀ page ∈ pagelist.drop r.pages.length, page = none := fun page hpage =>
    hempty page (List.mem_of_mem_drop hpage)
  have hcount : ∀ id, r.pages.count id ≤ (r.sys.bufferDesc id).refCnt :=
    fun id => by rw [hrefs]; omega
  obtain ⟨hlist, hpins⟩ : (releasePageList w r.memberData.memNum r.sys
      (r.pages.map some ++ pagelist.drop r.pages.length)).2 = _ ∧ _ :=
        releasePageList_spec hrest hcount
  rw [writePages]
  refine ⟨?_, ?_⟩
  · -- The pins that are left are those of the pages behind.
    have hleft : ∀ id,
        ((releasePageList w r.memberData.memNum r.sys
          (r.pages.map some ++ pagelist.drop r.pages.length)).1.bufferDesc
        id).refCnt = (s.bufferDesc id).refCnt +
          (r.pages.drop (max 1 r.memberData.memNum)).count id := by
      intro id
      have hdrop : (r.pages.take (max 1 r.memberData.memNum)).count id +
          (r.pages.drop (max 1 r.memberData.memNum)).count id = r.pages.count id := by
        rw [← List.count_append, List.take_append_drop]
      have hall := hpins id
      rw [hrefs] at hall
      omega
    rw [← List.drop_eq_nil_iff]
    constructor
    · intro hsame
      refine List.eq_nil_iff_forall_not_mem.mpr fun id hid => ?_
      have hpos := List.count_pos_iff.mpr hid
      have heq := hsame id
      rw [hleft] at heq
      omega
    · intro hnil id
      rw [hleft, hnil, List.count_nil, Nat.add_zero]
  · rw [hlist, ← List.drop_eq_nil_iff]
    constructor
    · intro hnone
      refine List.eq_nil_iff_forall_not_mem.mpr fun id hid => ?_
      have hmem : some id ∈ List.replicate
          (min r.pages.length (max 1 r.memberData.memNum)) none ++
          (r.pages.drop (max 1 r.memberData.memNum)).map some ++
            pagelist.drop r.pages.length :=
        List.mem_append_left _ (List.mem_append_right _ (List.mem_map_of_mem hid))
      exact absurd (hnone _ hmem) (by simp)
    · intro hnil page hpage
      rw [hnil, List.map_nil, List.append_nil, List.mem_append, List.mem_replicate] at hpage
      obtain ⟨-, rfl⟩ | hrest := hpage
      · rfl
      · exact hempty page (List.mem_of_mem_drop hrest)

/-- A loop that ends without all the pages. -/
theorem LoopEnds.fewGot_iff (h : LoopEnds num wanted s [] 0 members r) (w : Fin m)
    (hfew : r.pages.length ≠ num) :
    FewGot wanted num (some members) ↔ r.pages.length ≤ max 1 r.memberData.memNum := by
  have hlength := h.length
  rw [List.length_nil] at hlength
  by_cases hless : r.pages.length < num
  · obtain ⟨pre, post, hmembers, hstop, hcount⟩ := h.stops hless
    rw [List.length_nil, Nat.zero_add] at hcount
    rw [hcount]
    constructor
    · intro hall
      exact hall members rfl pre _ post hmembers hstop
    · intro hle members' heq pre' bad post' hmembers' hstop'
      cases heq
      -- Both ways to say where the loop stops are the same.
      obtain ⟨r₁, hr₁, hbad₁, hcount₁⟩ : ∃ r₁,
          memberPagesLoop w num wanted r.sys [] 0 (pre ++ r.memberData :: post) =
        some r₁ ∧ _ := hstop.memberPagesLoop
      obtain ⟨r₂, hr₂, hbad₂, hcount₂⟩ : ∃ r₂,
          memberPagesLoop w num wanted r.sys [] 0 (pre' ++ bad :: post') =
        some r₂ ∧ _ := hstop'.memberPagesLoop
      rw [← hmembers] at hr₁
      rw [← hmembers', hr₁, Option.some.injEq] at hr₂
      subst hr₂
      rw [List.length_nil, Nat.zero_add] at hcount₁ hcount₂
      rw [← hbad₂, ← hcount₂, hcount₁, hbad₁]
      exact hle
  · refine iff_of_true (fun _ _ pre bad post _ hstop => ?_) (by omega)
    have hnone := hstop.few
    omega

/-- A fetch that fails changes no pin, and leaves no page in the list of the caller, exactly
when few pages were got before. -/
theorem groupFetch_fails_iff {memberData : Option (List (GroupMember N))} :
    (∀ {colNum : Nat}, OwnerSys.getGroupMemberPages w colNum memberData s = some (none, t) →
      (SamePins s t ↔ FewGot everyColumn colNum memberData)) ∧
    ∀ {found ret : Int} {colindexList : List Nat}
      {pageList pageList' : List (Option (Fin N))}, 0 < found →
      (∀ page ∈ pageList, page = none) →
      OwnerSys.getGroupMemberPagesOpt w found colindexList memberData pageList s =
        some (ret, pageList', t) → ret ≤ 0 →
        ((SamePins s t ∧ ∀ page ∈ pageList', page = none) ↔
          FewGot (columnsOf colindexList) pageList.length memberData) := by
  cases memberData with
  | none =>
    refine ⟨fun h => ?_, fun hfound _ h hret => ?_⟩
    · cases h
      exact iff_of_true (fun _ => rfl) fun _ hsome => by cases hsome
    · rw [OwnerSys.getGroupMemberPagesOpt, if_neg (by omega)] at h
      cases h
      omega
  | some members =>
    refine ⟨fun {colNum} h => ?_,
      fun {found ret colindexList pageList pageList'} hfound hempty h hret => ?_⟩
    · rw [OwnerSys.getGroupMemberPages] at h
      obtain ⟨r, hr, hrest⟩ := Option.bind_eq_some_iff.mp h
      have hends := memberPagesLoop_ends hr
      by_cases hfew : r.pages.length ≠ colNum
      · simp only [if_pos hfew, Option.pure_def, Option.some.injEq,
          Prod.mk.injEq, true_and] at hrest
        rw [hends.fewGot_iff w hfew, ← hrest]
        exact (hends.release w fun page hpage => (List.mem_replicate.mp hpage).2).1
      · simp [if_neg hfew] at hrest
    · rw [OwnerSys.getGroupMemberPagesOpt, if_neg (by omega)] at h
      obtain ⟨r, hr, hrest⟩ := Option.bind_eq_some_iff.mp h
      have hends := memberPagesLoop_ends hr
      by_cases hfew : r.pages.length ≠ pageList.length
      · simp only [if_pos hfew, Option.pure_def, Option.some.injEq, Prod.mk.injEq] at hrest
        obtain ⟨-, hlist, hsys⟩ := hrest
        obtain ⟨hpins, hpages⟩ := hends.release w hempty
        rw [hends.fewGot_iff w hfew, ← hlist, ← hsys, hpins, hpages, and_self]
      · simp only [if_neg hfew, Option.pure_def, Option.some.injEq, Prod.mk.injEq] at hrest
        omega

/-- A pool of three buffers, with one worker. -/
def threeBuffers : OwnerSys 3 1 where
  bufferDesc _ := ⟨⟨0, 0, 0, 0, .main⟩, .vlid, false, 0, 0, none⟩
  owner _ := createResourceOwnerPool 3
  pages _ := []

/-- The members of a group of three columns, of which the pages of the first `n` can be
got. -/
def firstPages (n : Nat) : List (GroupMember 3) :=
  (List.finRange 3).map fun col => ⟨1, col.val + 1, if col.val < n then some col else none⟩

theorem fewGot_firstPages {num : Nat} {wanted : Nat → Nat → Bool}
    (h : ((memberPagesLoop 0 num wanted threeBuffers [] 0 (firstPages 1)).any fun r =>
      r.pages.length ≠ num ∧ r.pages.length ≤ 1) = true) :
      FewGot wanted num (some (firstPages 1)) := by
  rw [Option.any_eq_true] at h
  obtain ⟨r, hr, hboth⟩ := h
  obtain ⟨hfew, hle⟩ := of_decide_eq_true hboth
  exact ((memberPagesLoop_ends hr).fewGot_iff 0 hfew).mpr (by omega)

/-- One page is got and released, by both functions. -/
theorem firstPages_samePins :
    (∃ t, OwnerSys.getGroupMemberPages 0 3 (some (firstPages 1)) threeBuffers =
      some (none, t) ∧ SamePins threeBuffers t) ∧
    ∃ pageList t, OwnerSys.getGroupMemberPagesOpt 0 1 [0, 2] (some (firstPages 1))
      [none, none] threeBuffers =
        some (0, pageList, t) ∧ SamePins threeBuffers t ∧ ∀ page ∈ pageList, page = none := by
  have hevery :
      ((OwnerSys.getGroupMemberPages 0 3 (some (firstPages 1)) threeBuffers).any fun r =>
        r.1 = none) = true := by
    decide
  have hscan :
      ((OwnerSys.getGroupMemberPagesOpt 0 1 [0, 2] (some (firstPages 1))
        [none, none] threeBuffers).any
      fun r => r.1 = 0) = true := by decide
  rw [Option.any_eq_true] at hevery hscan
  obtain ⟨⟨list, t⟩, ht, hnone⟩ := hevery
  obtain ⟨⟨ret, pageList, u⟩, hu, hzero⟩ := hscan
  obtain rfl : list = none := of_decide_eq_true hnone
  obtain rfl : ret = 0 := of_decide_eq_true hzero
  refine ⟨⟨t, ht, (groupFetch_fails_iff.1 ht).mpr (fewGot_firstPages (by decide))⟩,
    pageList, u, hu, ?_⟩
  exact ((groupFetch_fails_iff (t := u)).2 (by decide) (by simp) hu (by decide)).mpr
    (fewGot_firstPages (by decide))

/-- Two pages are got, and one of them is released. -/
theorem secondPage_leaks :
    (∃ t, OwnerSys.getGroupMemberPages 0 3 (some (firstPages 2)) threeBuffers =
      some (none, t) ∧
      (t.bufferDesc 1).refCnt = 1 ∧ ¬ SamePins threeBuffers t) ∧
    ∃ pageList t, OwnerSys.getGroupMemberPagesOpt 0 1 [0, 1, 2] (some (firstPages 2))
      [none, none, none] threeBuffers =
        some (0, pageList, t) ∧ pageList = [none, some 1, none] ∧
          (t.bufferDesc 1).refCnt = 1 ∧
          ¬ (SamePins threeBuffers t ∧ ∀ page ∈ pageList, page = none) := by
  have hevery :
      ((OwnerSys.getGroupMemberPages 0 3 (some (firstPages 2)) threeBuffers).any fun r =>
      r.1 = none ∧ (r.2.bufferDesc 1).refCnt = 1) = true := by decide
  have hscan :
      ((OwnerSys.getGroupMemberPagesOpt 0 1 [0, 1, 2] (some (firstPages 2))
        [none, none, none] threeBuffers).any
      fun r => r.1 = 0 ∧ r.2.1 = [none, some 1, none] ∧
        (r.2.2.bufferDesc 1).refCnt = 1) = true := by decide
  rw [Option.any_eq_true] at hevery hscan
  obtain ⟨⟨list, t⟩, ht, hboth⟩ := hevery
  obtain ⟨⟨ret, pageList, u⟩, hu, hall⟩ := hscan
  obtain ⟨rfl, ht1⟩ := of_decide_eq_true hboth
  obtain ⟨rfl, rfl, hu1⟩ := of_decide_eq_true hall
  refine ⟨⟨t, ht, ht1, fun hsame => ?_⟩, _, u, hu, rfl, hu1, fun hsame => ?_⟩
  · have hpin := hsame 1
    rw [ht1] at hpin
    cases hpin
  · exact absurd (hsame.2 (some 1) (by simp)) (by simp)

end Toadb
