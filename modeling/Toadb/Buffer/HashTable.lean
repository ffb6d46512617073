/-
Toadb.Buffer.HashTable — the partitioned hash table of the buffer pool
(`hashtab.c`), and its layout in memory.

The elements live in one array, allocated once. Every element is on the free
list or on the chain of one bucket of one partition; both are linked through
`link`, so a list of element numbers stands for each of them. A value starts
with its key (`keyValueSize` bytes are compared), so an element holds the
key `tag` and the rest `value` apart.

`HashGetFreeEntry` runs under the lock of the key's partition, the free list
lock nested in it, and is one function from table to table here.
`HashDeleteEntry` gives the partition lock back before it takes the free
list lock: `hashUnlinkEntry` and `putFreeList` are its two halves.
-/
import Mathlib.Logic.Function.Basic
import Mathlib.Data.List.Basic
import Mathlib.Algebra.Order.Ring.Int
import Toadb.Lib.Regions

namespace Toadb

/-! ## Layout numbers -/

/-- Number of values of `HASHKEY`, an unsigned 64-bit type. -/
def hashKeyModulus : Nat := 2 ^ 64

/-- `HASH_BITS`. -/
def hashBits : Nat := 64

/-- `HASH_SEGMENT_SIZE`: buckets in one partition. -/
def hashSegmentBuckets : Nat := 32

/-- `getAlignNum`: the next power of two of an `unsigned int`. -/
def getAlignNum (num : Nat) : Nat :=
  let mask := (num + (2 ^ 32 - 1)) % 2 ^ 32
  let mask := mask ||| (mask >>> 1)
  let mask := mask ||| (mask >>> 2)
  let mask := mask ||| (mask >>> 4)
  let mask := mask ||| (mask >>> 8)
  let mask := mask ||| (mask >>> 16)
  mask + 1

/-- `getShiftNum`: how often the key can be halved before it is zero. -/
def getShiftNum (key : Nat) : Nat := Nat.log2 key

/-! ## The table -/

/-- `HashElement` with the value stored behind it. -/
structure HashElement (κ ν : Type) where
  hashKey : Nat
  tag : κ
  value : ν

/-- `HashTableInfo`. `element` is the array `buckets` of the source. -/
structure HashTableInfo (κ ν : Type) where
  maxNum : Nat
  partitionNum : Nat
  partitionMask : Nat
  partitionShift : Nat
  hashSegmentSize : Nat
  getHashKey : κ → Nat
  element : Nat → HashElement κ ν
  freeHashElementList : List Nat
  freeNum : Nat
  usedNum : Nat
  segBuckets : Nat → Nat → List Nat

/-- `HashOp`. -/
inductive HashOp where
  | find | insert | delete | null
  deriving DecidableEq, Repr

variable {κ ν : Type}

/-- A shift count of a `HASHKEY`. From `HASH_BITS` on C leaves the shift open; the processor
takes the count modulo `HASH_BITS`. -/
def hashShift (count : Nat) : Nat := count % hashBits

/-- `HashTableCreate` and `InitHashTable`: all elements are free, and the first one is also
when there is room for none. `blank` is the content of the fresh memory. -/
def hashTableCreate (partNum maxSize : Nat) (getHashKey : κ → Nat)
    (blank : HashElement κ ν) : HashTableInfo κ ν :=
  let partitionShift := hashBits - getShiftNum (getAlignNum partNum)
  { maxNum := maxSize
    partitionNum := partNum
    partitionShift := partitionShift
    partitionMask := hashKeyModulus - 2 ^ hashShift partitionShift
    hashSegmentSize := hashSegmentBuckets
    getHashKey := getHashKey
    element := fun _ => blank
    freeHashElementList := 0 :: List.range' 1 (maxSize - 1)
    freeNum := maxSize
    usedNum := 0
    segBuckets := fun _ _ => [] }

/-- `GetPartitionIndex`: in C the shift of the mask binds before the `&`. The `int` that is
returned is here the number with the same bits. -/
def getPartitionIndex (key : Nat) (table : HashTableInfo κ ν) : Nat :=
  (key &&& (table.partitionMask >>> hashShift table.partitionShift)) % 2 ^ 32

/-- `GetBucketIndex`: in C the remainder of the inverted mask binds before the `&`. -/
def getBucketIndex (key : Nat) (table : HashTableInfo κ ν) : Nat :=
  key &&& ((hashKeyModulus - 1 - table.partitionMask) % table.hashSegmentSize)

/-- Replace the chain of one bucket. -/
def HashTableInfo.setBucket (table : HashTableInfo κ ν) (p b : Nat) (bucket : List Nat) :
    HashTableInfo κ ν :=
  { table with
    segBuckets := Function.update table.segBuckets p
      (Function.update (table.segBuckets p) b bucket) }

/-- `GetFromFreeList`. -/
def getFromFreeList (table : HashTableInfo κ ν) : Option Nat × HashTableInfo κ ν :=
  match table.freeHashElementList with
  | [] => (none, table)
  | entry :: rest =>
      (some entry, { table with freeHashElementList := rest, freeNum := table.freeNum - 1 })

/-- `PutFreeList`. -/
def putFreeList (table : HashTableInfo κ ν) (entry : Nat) : HashTableInfo κ ν :=
  { table with
    freeHashElementList := entry :: table.freeHashElementList
    freeNum := table.freeNum + 1 }

/-! ## Find, insert, delete -/

variable [DecidableEq κ]

/-- The comparison of the chain walks: same hash key and same compared bytes. -/
def hashMatches (table : HashTableInfo κ ν) (key : Nat) (tag : κ) (entry : Nat) : Bool :=
  decide ((table.element entry).hashKey = key) && decide ((table.element entry).tag = tag)

/-- `GetHashEntryFromBucket`. -/
def getHashEntryFromBucket (table : HashTableInfo κ ν) (bucket : List Nat) (key : Nat)
    (tag : κ) : Option Nat :=
  bucket.find? (hashMatches table key tag)

/-- `DeleteHashEntryFromBucket`: the first match is unlinked. -/
def deleteHashEntryFromBucket (table : HashTableInfo κ ν) (bucket : List Nat) (key : Nat)
    (tag : κ) : Option Nat × List Nat :=
  (bucket.find? (hashMatches table key tag), bucket.eraseP (hashMatches table key tag))

/-- `HashFindEntry`, under the lock of `partition`. -/
def hashFindEntry (table : HashTableInfo κ ν) (key : Nat) (tag : κ) (partition : Nat) :
    Option Nat :=
  getHashEntryFromBucket table (table.segBuckets partition (getBucketIndex key table)) key tag

/-- `HashGetFreeEntry`: the present entry, or a new one holding the value, or
nothing when the free list is empty. -/
def hashGetFreeEntry (table : HashTableInfo κ ν) (key : Nat) (tag : κ) (value : ν) :
    HashOp × Option Nat × HashTableInfo κ ν :=
  let p := getPartitionIndex key table
  let b := getBucketIndex key table
  match getHashEntryFromBucket table (table.segBuckets p b) key tag with
  | some entry => (.find, some entry, table)
  | none =>
      match getFromFreeList table with
      | (none, table) => (.null, none, table)
      | (some entry, table) =>
          let table := table.setBucket p b (entry :: table.segBuckets p b)
          (.insert, some entry,
            { table with
              usedNum := table.usedNum + 1
              element := Function.update table.element entry ⟨key, tag, value⟩ })

/-- `HashDeleteEntry` up to the release of the partition lock: the element is
unlinked and belongs to nobody. -/
def hashUnlinkEntry (table : HashTableInfo κ ν) (key : Nat) (tag : κ) :
    Option Nat × HashTableInfo κ ν :=
  let p := getPartitionIndex key table
  let b := getBucketIndex key table
  match deleteHashEntryFromBucket table (table.segBuckets p b) key tag with
  | (some entry, bucket) =>
      (some entry, { table.setBucket p b bucket with usedNum := table.usedNum - 1 })
  | (none, _) => (none, table)

/-- `HashDeleteEntry`: `false` stands for the return value -1. -/
def hashDeleteEntry (table : HashTableInfo κ ν) (key : Nat) (tag : κ) :
    Bool × HashTableInfo κ ν :=
  match hashUnlinkEntry table key tag with
  | (some entry, table) => (true, putFreeList table entry)
  | (none, table) => (false, table)

/-- The value stored for a key: `HashFindEntry` in the key's partition, then
`GetEntryValue`. -/
def HashTableInfo.lookup (table : HashTableInfo κ ν) (tag : κ) : Option ν :=
  let key := table.getHashKey tag
  (hashFindEntry table key tag (getPartitionIndex key table)).map fun entry =>
    (table.element entry).value

/-! ## The memory of a table

`HashTableCreate` asks for one block: the `HashTableInfo`, then what
`InitHashTable` lays out behind it. `getHashTableSize` computes the bytes and
`initHashTable` walks over them; both count in an `int`. -/

open Regions (Region)

/-- `HASH_ELEMENT_SIZE`: the link and the key in front of a value. -/
def hashElementSize : Nat := 16

/-- `sizeof(HashSegment)`: a lock and the address of the buckets. -/
def sizeofHashSegment : Nat := 16

/-- `sizeof(PHashElement)`. -/
def sizeofBucket : Nat := 8

/-- `sizeof(HashTableInfo)`. -/
def sizeofHashTableInfo : Nat := 160

/-- What an `int` keeps of a sum. -/
def toInt (n : Int) : Int := Int.bmod n (2 ^ 32)

/-- `GetHashTableSize`: `len` is an `int` after every statement. -/
def getHashTableSize (partNum maxNum valueSize : Nat) : Int :=
  let len := toInt ((getAlignNum maxNum * (valueSize + hashElementSize) : Nat))
  let len := toInt (len + getAlignNum partNum * (sizeofHashSegment + len))
  toInt (len + sizeofHashTableInfo)

/-- The loop of `InitHashTable` over the segments: the bucket array of each. -/
def segBucketArrays : Nat → Int → List Region
  | 0, _ => []
  | segments + 1, offset =>
      ⟨offset, hashSegmentBuckets * sizeofBucket⟩ ::
        segBucketArrays segments (toInt (offset + (hashSegmentBuckets * sizeofBucket : Nat)))

/-- `InitHashTable`: the entries with their values, the segment array, and the bucket array of
each segment. -/
def initHashTable (partNum maxNum valueSize : Nat) : List Region :=
  let offset : Int := sizeofHashTableInfo
  let buckets : Region := ⟨offset, maxNum * (valueSize + hashElementSize)⟩
  let offset := toInt (offset + (maxNum * (valueSize + hashElementSize) : Nat))
  let segmentArray : Region := ⟨offset, partNum * sizeofHashSegment⟩
  let offset := toInt (offset + (partNum * sizeofHashSegment : Nat))
  buckets :: segmentArray :: segBucketArrays partNum offset

end Toadb
