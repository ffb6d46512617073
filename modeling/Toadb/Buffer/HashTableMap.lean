/-
Toadb.Buffer.HashTableMap — the calls of a hash table in its memory, and the
finite map they are to behave as.

`createHashTable` and `hashStep` are the functions of `Buffer.HashTable` in
the block that `HashTableCreate` asks for. An access behind the block is not
the table's own memory, so a call that makes one has no result here.

`MapStep` says what the table is for: a map from keys to slots, `maxSize` of
them, and a slot holds the value it was filled with.
-/
import Toadb.Lib.Refinement
import Toadb.Buffer.HashTable

namespace Toadb

/-! ## The table in its block -/

/-- The arguments of `HashTableCreate` that decide the layout. -/
structure HashTableArgs where
  partNum : Nat
  maxSize : Nat
  valueSize : Nat
  nameLen : Nat

/-- `hashtableLen` in `HashTableCreate`: the bytes of the table and of its name. -/
def HashTableArgs.hashtableLen (args : HashTableArgs) : Int :=
  toInt (getHashTableSize args.partNum args.maxSize args.valueSize + args.nameLen)

/-- Region `i` of the layout is there and lies in the block. -/
def HashTableArgs.inBlock (args : HashTableArgs) (i : Nat) : Bool :=
  (initHashTable args.partNum args.maxSize args.valueSize)[i]?.any fun r =>
    decide (r.Within args.hashtableLen)

variable {κ ν : Type}

/-- `HashTableCreate`: `InitHashTable` links the entries and writes the segments. -/
def createHashTable (args : HashTableArgs) (getHashKey : κ → Nat) (blank : HashElement κ ν) :
    Option (HashTableInfo κ ν) :=
  if args.inBlock 0 && args.inBlock 1 then
    some (hashTableCreate args.partNum args.maxSize getHashKey blank)
  else none

/-- A call for the key of a value. -/
inductive HashCall (κ ν : Type) where
  | getFreeEntry (tag : κ) (value : ν)
  | findEntry (tag : κ)
  | deleteEntry (tag : κ)

def HashCall.tag : HashCall κ ν → κ
  | .getFreeEntry tag _ => tag
  | .findEntry tag => tag
  | .deleteEntry tag => tag

/-- What a call answers; an entry comes with the value that is stored in it. -/
inductive HashAnswer (ν : Type) where
  | entry (flag : HashOp) (entry : Option (Nat × ν))
  | found (entry : Option (Nat × ν))
  | deleted (ok : Bool)

variable [DecidableEq κ]

/-- An entry with the value of `GetEntryValue`. -/
def HashTableInfo.withValue (table : HashTableInfo κ ν)
    (entry : Option Nat) : Option (Nat × ν) :=
  entry.map fun e => (e, (table.element e).value)

/-- The functions themselves. -/
def hashAnswer (table : HashTableInfo κ ν) : HashCall κ ν → HashAnswer ν × HashTableInfo κ ν
  | .getFreeEntry tag value =>
      match hashGetFreeEntry table (table.getHashKey tag) tag value with
      | (flag, entry, table) => (.entry flag (table.withValue entry), table)
  | .findEntry tag =>
      let key := table.getHashKey tag
      (.found (table.withValue (hashFindEntry table key tag (getPartitionIndex key table))),
        table)
  | .deleteEntry tag =>
      match hashDeleteEntry table (table.getHashKey tag) tag with
      | (ok, table) => (.deleted ok, table)

/-- A call goes to the bucket array of its partition, which is behind the entries and the
segment array. -/
def hashStep (args : HashTableArgs) (table : HashTableInfo κ ν) (call : HashCall κ ν) :
    Option (HashAnswer ν × HashTableInfo κ ν) :=
  if args.inBlock (2 + getPartitionIndex (table.getHashKey call.tag) table) then
    some (hashAnswer table call) else none

/-! ## The map -/

/-- A map from keys to slots with their values. -/
def SlotMap (κ ν : Type) : Type := κ → Option (Nat × ν)

/-- Slot `e` belongs to no key. -/
def SlotMap.Unused (m : SlotMap κ ν) (e : Nat) : Prop := ∀ k v, m k ≠ some (e, v)

/-- What a call on a map of `cap` slots may answer, and the map after it. -/
inductive MapStep (cap : Nat) : SlotMap κ ν → HashCall κ ν → HashAnswer ν → SlotMap κ ν → Prop
  | find (m : SlotMap κ ν) (k : κ) : MapStep cap m (.findEntry k) (.found (m k)) m
  | present (m : SlotMap κ ν) (k : κ) (value : ν) (slot : Nat × ν) (hk : m k = some slot) :
      MapStep cap m (.getFreeEntry k value) (.entry .find (some slot)) m
  | insert (m : SlotMap κ ν) (k : κ) (value : ν) (e : Nat) (hk : m k = none) (he : e < cap)
      (hunused : m.Unused e) :
      MapStep cap m (.getFreeEntry k value) (.entry .insert (some (e, value)))
        (fun k' => if k' = k then some (e, value) else m k')
  | full (m : SlotMap κ ν) (k : κ) (value : ν) (hk : m k = none)
      (hfull : ∀ e < cap, ¬ m.Unused e) :
      MapStep cap m (.getFreeEntry k value) (.entry .null none) m
  | delete (m : SlotMap κ ν) (k : κ) :
      MapStep cap m (.deleteEntry k) (.deleted (m k).isSome)
        (fun k' => if k' = k then none else m k')

end Toadb
