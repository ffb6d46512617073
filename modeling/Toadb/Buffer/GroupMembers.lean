/-
Toadb.Buffer.GroupMembers — the pages of the columns of a group (`GetGroupMemberPages`,
`GetGroupMemberPagesOpt` and `ReleasePageList` of `buffer.c`).

The item of a group is a list of `MemberData`, one for each column, and both functions go
through it. `GetGroupMemberPages` gets the first page of every column,
`GetGroupMemberPagesOpt` those of the columns of a scan. The state is that of
`ResourceOwner.lean`, and what `GetPageByIndex` comes to for a column is an argument. The
pages that `GetGroupInfo` keeps are the place of the scan in the group file, and are not here:
what it found is an argument of `GetGroupMemberPagesOpt`, and the state is the one after it.
-/
import Toadb.Buffer.ResourceOwner
import Toadb.Storage.TupleHeader

namespace Toadb

variable {N m : Nat}

/-! ## Members -/

/-- `MemberData`, with the number of its first page, and what `GetPageByIndex` comes to for
this page. -/
structure GroupMember (N : Nat) where
  memNum : Nat
  pageno : Nat
  page : Option (Fin N)
  deriving DecidableEq

/-- Where the loop over the members ends: the pages it has got and the member it is at. -/
structure PinnedPages (N m : Nat) where
  sys : OwnerSys N m
  pages : List (Fin N)
  memberData : GroupMember N

/-- The loop over the members, for `num` pages. The page of a column is got when `wanted` says
so, of the index of the column and the number of pages so far. No result is a read behind the
last member. -/
def memberPagesLoop (w : Fin m) (num : Nat) (wanted : Nat → Nat → Bool) :
    OwnerSys N m → List (Fin N) → Nat → List (GroupMember N) → Option (PinnedPages N m)
  | _, _, _, [] => none
  | s, pages, colIndex, member :: members =>
      if member.pageno = invalidPageNum then some ⟨s, pages, member⟩
      else if wanted colIndex pages.length then
        match member.page with
        | none => some ⟨s, pages, member⟩
        | some id =>
            let s := s.getPageByIndex w (some id)
            let pages := pages ++ [id]
            if num ≤ pages.length then some ⟨s, pages, member⟩
            else memberPagesLoop w num wanted s pages (colIndex + 1) members
      else memberPagesLoop w num wanted s pages (colIndex + 1) members

/-! ## Lists of pages -/

/-- `ReleasePageList`: the pages up to the first that is not there, but at most `num` and at
least one. -/
def releasePageList (w : Fin m) (num : Nat) :
    OwnerSys N m → List (Option (Fin N)) → OwnerSys N m × List (Option (Fin N))
  | s, some id :: pagelist =>
      let s := s.releasePage w id
      if num ≤ 1 then (s, none :: pagelist)
      else
        let (s, pagelist) := releasePageList w (num - 1) s pagelist
        (s, none :: pagelist)
  | s, pagelist => (s, pagelist)

/-- A page list with its first pages written. -/
def writePages (pagelist : List (Option (Fin N)))
    (pages : List (Fin N)) : List (Option (Fin N)) :=
  pages.map some ++ pagelist.drop pages.length

/-! ## The functions -/

/-- `GetGroupMemberPages` asks for the page of every column. -/
def everyColumn (_ _ : Nat) : Bool := true

/-- `GetGroupMemberPages`: the page list that is returned, and the state. -/
def OwnerSys.getGroupMemberPages (w : Fin m) (colNum : Nat)
    (memberData : Option (List (GroupMember N))) (s : OwnerSys N m) :
    Option (Option (List (Option (Fin N))) × OwnerSys N m) :=
  match memberData with
  | none => some (none, s)
  | some members => do
      let r ← memberPagesLoop w colNum everyColumn s [] 0 members
      let pagelist := writePages (List.replicate colNum none) r.pages
      if r.pages.length ≠ colNum then
        pure (none, (releasePageList w r.memberData.memNum r.sys pagelist).1)
      else pure (some pagelist, r.sys)

/-- `GetGroupMemberPagesOpt` asks for the page of the next column of the scan. -/
def columnsOf (colindexList : List Nat) (colIndex subPageNum : Nat) : Bool :=
  colindexList[subPageNum]? == some colIndex

/-- `GetGroupMemberPagesOpt` after `GetGroupInfo`, which returned `found`: what is returned,
the page list of the scan, and the state. -/
def OwnerSys.getGroupMemberPagesOpt (w : Fin m) (found : Int) (colindexList : List Nat)
    (memberData : Option (List (GroupMember N)))
    (pageList : List (Option (Fin N))) (s : OwnerSys N m) :
    Option (Int × List (Option (Fin N)) × OwnerSys N m) :=
  if found ≤ 0 then some (found, pageList, s)
  else
    match memberData with
    | none => some (found, pageList, s)
    | some members => do
        let r ← memberPagesLoop w pageList.length (columnsOf colindexList) s [] 0 members
        let pagelist := writePages pageList r.pages
        if r.pages.length ≠ pageList.length then
          let (s, pagelist) := releasePageList w r.memberData.memNum r.sys pagelist
          pure (0, pagelist, s)
        else pure (found, pagelist, r.sys)

end Toadb
