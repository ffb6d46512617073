/-
Toadb.Storage.TupleHeader — transaction ids, row positions and the version
header that every stored column value carries (`public_types.h`, `xtid.h`,
`tablecom.h`).

A transaction id (`XTID`) is an unsigned 64-bit number in the source. It is
a `Nat` here, with the reduction modulo 2^64 written out at the two places where
the source adds to one (`GetNewTransactionID`, `GetActiveXtids`).
-/
import Mathlib.Logic.Basic
import Mathlib.Algebra.Order.Ring.Int

namespace Toadb

/-! ## Transaction ids -/

/-- Number of values of the 64-bit type. -/
def xtidModulus : Nat := 2 ^ 64

/-- `INVALID_XTID`, that is `(XTID)(-1)`. -/
def invalidXtid : Nat := 2 ^ 64 - 1

/-- `CLEAN_XTID`. -/
def cleanXtid : Nat := 0

/-- `XTID_ISINVALID`. -/
def xtidIsInvalid (xid : Nat) : Bool := xid == invalidXtid

theorem xtidIsInvalid_iff (xid : Nat) : xtidIsInvalid xid = true ↔ xid = invalidXtid := by
  simp [xtidIsInvalid]

@[simp] theorem xtidIsInvalid_invalidXtid : xtidIsInvalid invalidXtid = true := by
  simp [xtidIsInvalid]

/-! ## Positions and headers -/

/-- `PageOffset`: segment and page number. -/
structure PageOffset where
  segno : Nat
  pageno : Nat
  deriving DecidableEq, Repr

/-- `INVALID_PAGE_NUM`. -/
def invalidPageNum : Nat := 0

/-- `PAGE_HEAD_PAGE_NUM`. -/
def pageHeadPageNum : Nat := 1

/-- `RowPosition`: where one stored item lives. -/
structure RowPosition where
  pageIndex : PageOffset
  itemIndex : Nat
  deriving DecidableEq, Repr

/-- The all-zero position a fresh header carries: no older version. -/
def RowPosition.none : RowPosition := ⟨⟨0, 0⟩, 0⟩

/-- `TupleHeader`: the creating and the deleting transaction of a version
and the position of the version it superseded. -/
structure TupleHeader where
  tmin : Nat
  tmax : Nat
  tinfo : Nat
  cid : Nat
  undo : RowPosition
  deriving DecidableEq, Repr

end Toadb
