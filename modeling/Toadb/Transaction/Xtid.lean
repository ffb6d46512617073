/-
Toadb.Transaction.Xtid — the levels of the transaction ids, access by access
(`SetHighLevelTransaction` and `SetLowLevelTransaction` of `xtid.c`,
`atomic_compare_exchange64` of `atom.c`).

Any worker may be in a call at any time. A call reads the level, and then goes round its loop:
it stops when its copy has reached the id already, or swaps the id in, or gets the level as
its new copy. `passedHigh` and `passedLow` are history variables that no step reads: the ids
that the calls were given.
-/
import Toadb.Lib.Transition
import Toadb.Transaction.Snapshot
import Mathlib.Logic.Function.Basic

namespace Toadb

/-- `atomic_compare_exchange64`: its result, and what is in memory and in `*expected` then. -/
def atomicCompareExchange64 (value expected newval : Nat) : Bool × Nat × Nat :=
  (value == expected, if value = expected then newval else value, value)

/-- A round of the loop: the level, and the copy it goes on with. `reached` is the test at its
beginning. -/
def levelRound (reached : Bool) (level copy xid : Nat) : Nat × Option Nat :=
  if reached then (level, none)
  else
    let (ret, level, copy) := atomicCompareExchange64 level copy xid
    (level, if ret then none else some copy)

/-- Where a worker is: in no call, or at the beginning of a round with its copy. -/
inductive XtidPoint where
  | outside
  | high (xid copy : Nat)
  | low (xid copy : Nat)
  deriving DecidableEq, Repr

/-- The counters and the workers. -/
structure XtidSys (n : Nat) where
  info : TransactionIDInfo
  points : Fin n → XtidPoint
  passedHigh : List Nat
  passedLow : List Nat

/-- The calls and the rounds of a worker. -/
inductive XtidAct (n : Nat) where
  | setHighLevel (w : Fin n) (xid : Nat)
  | setLowLevel (w : Fin n) (xid : Nat)
  | proceed (w : Fin n)
  deriving DecidableEq, Repr

namespace XtidSys

variable {n : Nat}

/-- No call is in progress, and none was made. -/
def start (n : Nat) (info : TransactionIDInfo) : XtidSys n :=
  ⟨info, fun _ => .outside, [], []⟩

/-- Overwrite where a worker is. -/
def setPoint (s : XtidSys n) (w : Fin n) (point : XtidPoint) : XtidSys n :=
  { s with points := Function.update s.points w point }

/-- The next round of a call. -/
def proceed (s : XtidSys n) (w : Fin n) : Option (XtidSys n) :=
  match s.points w with
  | .outside => none
  | .high xid copy =>
      let (level, copy) := levelRound (decide (copy ≥ xid)) s.info.highLevelXtid copy xid
      some ({ s with info := { s.info with highLevelXtid := level } }.setPoint w
        (copy.elim .outside (.high xid)))
  | .low xid copy =>
      let (level, copy) := levelRound (decide (copy ≤ xid)) s.info.lowLevelXtid copy xid
      some ({ s with info := { s.info with lowLevelXtid := level } }.setPoint w
        (copy.elim .outside (.low xid)))

/-- One access. A call with `INVALID_XTID` returns after the first one. -/
def step (s : XtidSys n) : XtidAct n → Option (XtidSys n)
  | .setHighLevel w xid =>
      if s.points w = .outside then
        some ({ s with passedHigh := xid :: s.passedHigh }.setPoint w
          (if xtidIsInvalid xid then .outside else .high xid s.info.highLevelXtid))
      else none
  | .setLowLevel w xid =>
      if s.points w = .outside then
        some ({ s with passedLow := xid :: s.passedLow }.setPoint w
          (if xtidIsInvalid xid then .outside else .low xid s.info.lowLevelXtid))
      else none
  | .proceed w => s.proceed w

end XtidSys

end Toadb
