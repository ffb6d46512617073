/-
Toadb.Storage.RelCache — the list of tables of the data dictionary (`relCache.c`).

The list is a ring of `DList` nodes behind the head `g_TblList`; a node and its table have one
address. A table is linked in behind the head, and it is cut out of the list where it is
released. The calls come one after the other, since each holds the lock of the dictionary.

An address is a number, 0 is NULL. `tables` are the tables that were added and not yet
released: their memory is in use. The links of a node keep what they were when its memory is
released.
-/
import Toadb.Lib.Transition
import Toadb.Lib.DList
import Toadb.Storage.Tuples
import Mathlib.Data.List.Basic

namespace Toadb

/-- NULL. -/
def nullAddr : Nat := 0

/-- `g_TblList`. -/
def gTblList : Nat := 1

/-- The list nodes and the names of the tables. -/
structure Dictionary where
  next : Nat → Nat
  prev : Nat → Nat
  tableName : Nat → CString
  tables : List Nat

/-- `InitTblInfo`. -/
def Dictionary.init : Dictionary where
  next := Function.update (fun _ => nullAddr) gTblList gTblList
  prev := Function.update (fun _ => nullAddr) gTblList gTblList
  tableName _ := ⟨[], nofun⟩
  tables := []

namespace Dictionary

/-- The loop of `FindTblInfo`. It is nothing where the loop comes to memory that is not in
use. -/
def findFrom (d : Dictionary) (filename : CString) : Nat → Nat → Option Nat
  | 0, _ => none
  | fuel + 1, temp =>
    if temp = nullAddr ∨ temp = gTblList then some nullAddr
    else if temp ∉ d.tables then none
    else if d.tableName temp = filename then some temp
    else d.findFrom filename fuel (d.next temp)

/-- `FindTblInfo`. A loop that goes on for longer than there are tables never ends: nothing
too. -/
def findTblInfo (d : Dictionary) (filename : CString) : Option Nat :=
  d.findFrom filename (d.tables.length + 1) (d.next gTblList)

/-- `AllocTblInfo`. -/
def allocTblInfo (d : Dictionary) (thisTbl : Nat) : Dictionary :=
  { d with
    next := Function.update d.next thisTbl nullAddr
    prev := Function.update d.prev thisTbl nullAddr }

/-- The table is linked in behind the head. -/
def linkTblInfo (d : Dictionary) (thisTbl : Nat) : Dictionary :=
  let d := { d with prev := Function.update d.prev thisTbl (d.prev (d.next gTblList)) }
  let d := { d with next := Function.update d.next thisTbl (d.next gTblList) }
  { d with
    next := Function.update d.next gTblList thisTbl
    tables := thisTbl :: d.tables }

/-- `ReleaseTblInfo`. -/
def releaseTblInfo (d : Dictionary) (tblInfo : Nat) : Dictionary :=
  let d :=
    if d.next tblInfo ≠ nullAddr ∧ d.prev tblInfo ≠ nullAddr then
      let d := { d with next := Function.update d.next (d.prev tblInfo) (d.next tblInfo) }
      { d with prev := Function.update d.prev (d.next tblInfo) (d.prev tblInfo) }
    else d
  { d with tables := d.tables.erase tblInfo }

/-- What both calls do where the table is not in the list: `made` says whether its files could
be opened or made. The definition of the table has its name. -/
def addTblInfo (d : Dictionary) (filename : CString) (thisTbl : Nat) (made : Bool) :
    Nat × Dictionary :=
  let d := d.allocTblInfo thisTbl
  if made then
    (thisTbl, { d with tableName := Function.update d.tableName thisTbl filename }.linkTblInfo
      thisTbl)
  else (nullAddr, d.releaseTblInfo thisTbl)

/-- `LoadTblInfo`: the table and the list after it. -/
def loadTblInfo (d : Dictionary) (filename : CString) (thisTbl : Nat) (opened : Bool) :
    Option (Nat × Dictionary) := do
  let found ← d.findTblInfo filename
  if found ≠ nullAddr then return (found, d)
  else return d.addTblInfo filename thisTbl opened

/-- `CreateTblInfo`. A table of the name is an error. -/
def createTblInfo (d : Dictionary) (tableName : CString) (thisTbl : Nat) (created : Bool) :
    Option (Nat × Dictionary) := do
  let found ← d.findTblInfo tableName
  if found ≠ nullAddr then return (nullAddr, d)
  else return d.addTblInfo tableName thisTbl created

/-- Memory that `AllocMem` may give. -/
def Unused (d : Dictionary) (thisTbl : Nat) : Prop :=
  thisTbl ≠ nullAddr ∧ thisTbl ≠ gTblList ∧ thisTbl ∉ d.tables

instance (d : Dictionary) (thisTbl : Nat) : Decidable (d.Unused thisTbl) :=
  inferInstanceAs (Decidable (_ ∧ _ ∧ _))

end Dictionary

/-- A call, with the memory that it gets and whether the files of the table can be opened or
made. -/
inductive DictionaryCall where
  | loadTblInfo (filename : CString) (thisTbl : Nat) (opened : Bool)
  | createTblInfo (tableName : CString) (thisTbl : Nat) (created : Bool)
  | releaseTblInfo (tblInfo : Nat)

/-- The call opens or makes the files of a table, which then is in the list. -/
def DictionaryCall.adds : DictionaryCall → Bool
  | .loadTblInfo _ _ opened => opened
  | .createTblInfo _ _ created => created
  | .releaseTblInfo _ => false

/-- One call. Only a table that is in use is released. -/
def Dictionary.call (d : Dictionary) : DictionaryCall → Option Dictionary
  | .loadTblInfo filename thisTbl opened =>
    if d.Unused thisTbl then (d.loadTblInfo filename thisTbl opened).map Prod.snd else none
  | .createTblInfo tableName thisTbl created =>
    if d.Unused thisTbl then (d.createTblInfo tableName thisTbl created).map Prod.snd
      else none
  | .releaseTblInfo tblInfo =>
    if tblInfo ∈ d.tables then some (d.releaseTblInfo tblInfo) else none

end Toadb
