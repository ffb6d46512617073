/-
Toadb.Buffer.HashTableMapTheorems — the hash table behaves as a finite map.

`slot` is the map a table stands for. `EntriesOk` adds the two counters to
the invariant of the table; `hashAnswer_maps` is the step lemma and
`hashTable_refines_iff` the result: for every hash function and all calls
the table is the map, when it has more than one partition, room for an
element, and a block that holds what is laid out.
-/
import Mathlib.Data.List.Perm.Subperm
import Toadb.Buffer.HashTableTheorems
import Toadb.Buffer.HashTableLayoutTheorems
import Toadb.Buffer.HashTableMap

namespace Toadb

open Refinement (run Behaves run_refines run_singleton behaves_singleton)
open Regions (Region)

variable {κ ν : Type}

/-! ## The counters -/

/-- Every entry is in one place, and the counters count them. -/
structure EntriesOk (table : HashTableInfo κ ν) : Prop where
  ok : HashTableOk table fun _ => False
  free : table.freeNum = table.freeHashElementList.length
  counts : table.usedNum + table.freeNum = table.maxNum

theorem hashTableCreate_entriesOk {maxSize : Nat} (hmax : 0 < maxSize) (partNum : Nat)
    (getHashKey : κ → Nat) (blank : HashElement κ ν) :
    EntriesOk (hashTableCreate partNum maxSize getHashKey blank) where
  ok := hashTableCreate_ok hmax partNum getHashKey blank
  free := by rw [hashTableCreate_free hmax, List.length_range]; rfl
  counts := Nat.zero_add maxSize

variable {table : HashTableInfo κ ν}

/-- With an element on a chain the free list is not all there is. -/
theorem EntriesOk.freeNum_lt (h : EntriesOk table) {p b e : Nat}
    (he : e ∈ table.segBuckets p b) :
    table.freeNum < table.maxNum := by
  have hnodup : (e :: table.freeHashElementList).Nodup :=
    List.nodup_cons.mpr ⟨h.ok.disjoint p b e he, h.ok.free_nodup⟩
  have hsub : e :: table.freeHashElementList ⊆ List.range table.maxNum := by
    intro x hx
    refine List.mem_range.mpr ((h.ok.cover x).mpr ?_)
    rcases List.mem_cons.mp hx with rfl | hx
    · exact .inr (.inr ⟨p, b, he⟩)
    · exact .inl hx
  have hle := (List.subperm_of_subset hnodup hsub).length_le
  rw [List.length_range, List.length_cons, ← h.free] at hle
  exact hle

variable [DecidableEq κ]

/-- A free element is the slot of no key. -/
theorem EntriesOk.unused_of_free (h : EntriesOk table) {e : Nat}
    (he : e ∈ table.freeHashElementList) :
    SlotMap.Unused table.slot e := by
  intro k v hslot
  obtain ⟨p, b, hmem, -, -⟩ := (h.ok.slot_eq_some_iff k e v).mp hslot
  exact h.ok.disjoint p b e hmem he

/-- When the free list is empty every slot is used. -/
theorem EntriesOk.used_of_free_nil (h : EntriesOk table)
    (hfree : table.freeHashElementList = []) {e : Nat}
    (he : e < table.maxNum) : ¬ SlotMap.Unused table.slot e := by
  intro hunused
  rcases (h.ok.cover e).mp he with hin | hheld | ⟨p, b, hin⟩
  · rw [hfree] at hin
    exact List.not_mem_nil hin
  · exact hheld
  · exact hunused _ _ ((h.ok.slot_eq_some_iff _ e _).mpr ⟨p, b, hin, rfl, rfl⟩)

/-! ## One call -/

/-- A call that gets an entry. -/
theorem EntriesOk.getFreeEntry (h : EntriesOk table) (tag : κ) (value : ν) :
    EntriesOk (hashAnswer table (.getFreeEntry tag value)).2 ∧
      MapStep table.maxNum table.slot (.getFreeEntry tag value)
        (hashAnswer table (.getFreeEntry tag value)).1
        (hashAnswer table (.getFreeEntry tag value)).2.slot := by
  rcases hashGetFreeEntry_slot_cases table tag value with ⟨entry, heq,
    hslot⟩ | ⟨hslot, hfree, heq⟩ |
    ⟨entry, rest, hslot, hfree, heq⟩
  · simp only [hashAnswer, heq]
    exact ⟨h, .present _ tag value _ hslot⟩
  · simp only [hashAnswer, heq]
    exact ⟨h, .full _ tag value hslot fun e he => h.used_of_free_nil hfree he⟩
  · simp only [hashAnswer, heq]
    have hmem : entry ∈ table.freeHashElementList := hfree ▸ List.mem_cons_self ..
    have hlen : table.freeNum = rest.length + 1 := by rw [h.free, hfree, List.length_cons]
    have hslots : HashTableOk (table.insertEntry tag value entry rest) (fun _ => False) ∧
        ∀ k, (table.insertEntry tag value entry rest).slot k
          = if k = tag then some (entry, value) else table.slot k :=
            h.ok.slot_insertEntry hfree hslot
    have hval : (table.insertEntry tag value entry rest).withValue (some entry) =
        some (entry, value) := by
      simp [HashTableInfo.withValue, HashTableInfo.insertEntry]
    refine ⟨⟨hslots.1, ?_, ?_⟩, ?_⟩
    · show table.freeNum - 1 = rest.length
      omega
    · show table.usedNum + 1 + (table.freeNum - 1) = table.maxNum
      have hcounts := h.counts
      omega
    · rw [hval, funext hslots.2]
      exact .insert _ tag value entry hslot ((h.ok.cover entry).mpr (.inl hmem))
        (h.unused_of_free hmem)

theorem EntriesOk.deleteEntry (h : EntriesOk table) (tag : κ) :
    EntriesOk (hashAnswer table (.deleteEntry tag)).2 ∧
      MapStep table.maxNum table.slot (.deleteEntry tag)
        (hashAnswer table (.deleteEntry tag)).1
        (hashAnswer table (.deleteEntry tag)).2.slot := by
  rcases hashUnlinkEntry_cases table tag with ⟨entry, hfind, heq⟩ | ⟨hnone, heq⟩
  · simp only [hashAnswer, hashDeleteEntry, heq]
    obtain ⟨hok, hslots⟩ := h.ok.slot_removeEntry hfind
    have hmem : entry ∈ table.chain tag := ((h.ok.find_eq_some_iff tag entry).mp hfind).1
    have hput := hok.putFreeList (.inr rfl)
    have hheld : (fun e => (False ∨ e = entry) ∧ e ≠ entry) = fun _ => False := by
      funext e
      simp
    rw [hheld] at hput
    have hcounts := h.counts
    have hlt := h.freeNum_lt hmem
    refine ⟨⟨hput, ?_, ?_⟩, ?_⟩
    · show table.freeNum + 1 = (entry :: table.freeHashElementList).length
      rw [List.length_cons, h.free]
    · show table.usedNum - 1 + (table.freeNum + 1) = table.maxNum
      omega
    · have hsome : (table.slot tag).isSome = true := by
        rw [slot_eq, hfind]
        rfl
      have hstep : MapStep table.maxNum table.slot (.deleteEntry tag) _ _ :=
        MapStep.delete table.slot tag
      rw [hsome, ← funext hslots] at hstep
      exact hstep
  · simp only [hashAnswer, hashDeleteEntry, heq]
    rw [lookup_eq_slot, Option.map_eq_none_iff] at hnone
    have hstep : MapStep table.maxNum table.slot (.deleteEntry tag) _ _ :=
      MapStep.delete table.slot tag
    have hsame : (fun k => if k = tag then none else table.slot k) = table.slot := by
      funext k
      split
      · rename_i hk
        rw [hk, hnone]
      · rfl
    rw [hnone, hsame] at hstep
    exact ⟨h, hstep⟩

/-- Every call keeps the entries and answers as the map. -/
theorem hashAnswer_maps (h : EntriesOk table) (call : HashCall κ ν) :
    EntriesOk (hashAnswer table call).2 ∧
      MapStep table.maxNum table.slot call (hashAnswer table call).1
        (hashAnswer table call).2.slot := by
  cases call with
  | getFreeEntry tag value => exact h.getFreeEntry tag value
  | findEntry tag => exact ⟨h, .find _ tag⟩
  | deleteEntry tag => exact h.deleteEntry tag

/-- What the calls leave as it is. -/
structure SameShape (table table' : HashTableInfo κ ν) : Prop where
  maxNum : table'.maxNum = table.maxNum
  getHashKey : table'.getHashKey = table.getHashKey
  partition : ∀ key, getPartitionIndex key table' = getPartitionIndex key table

theorem hashAnswer_sameShape (table : HashTableInfo κ ν) (call : HashCall κ ν) :
    SameShape table (hashAnswer table call).2 := by
  cases call with
  | getFreeEntry tag value =>
    rcases hashGetFreeEntry_slot_cases table tag value with ⟨entry, heq, -⟩ | ⟨-, -,
      heq⟩ | ⟨entry, rest, -, -, heq⟩ <;>
    · simp only [hashAnswer, heq]
      exact ⟨rfl, rfl, fun _ => rfl⟩
  | findEntry tag => exact ⟨rfl, rfl, fun _ => rfl⟩
  | deleteEntry tag =>
    rcases hashUnlinkEntry_cases table tag with ⟨entry, -, heq⟩ | ⟨-, heq⟩ <;>
    · simp only [hashAnswer, hashDeleteEntry, heq]
      exact ⟨rfl, rfl, fun _ => rfl⟩

/-! ## The block -/

variable {args : HashTableArgs}

theorem length_segBucketArrays (segments : Nat) (offset : Int) :
    (segBucketArrays segments offset).length = segments := by
  induction segments generalizing offset with
  | zero => rfl
  | succ segments ih => rw [segBucketArrays, List.length_cons, ih]

theorem length_initHashTable (partNum maxNum valueSize : Nat) :
    (initHashTable partNum maxNum valueSize).length = 2 + partNum := by
  rw [initHashTable, List.length_cons, List.length_cons, length_segBucketArrays]
  omega

theorem inBlock_iff (i : Nat) :
    args.inBlock i = true ↔ ∃ r,
      (initHashTable args.partNum args.maxSize args.valueSize)[i]? = some r ∧
      r.Within args.hashtableLen := by
  rw [HashTableArgs.inBlock, Option.any_eq_true]
  simp only [decide_eq_true_eq]

/-- A partition that is not there is in no block. -/
theorem lt_of_inBlock {i : Nat} (h : args.inBlock i = true) : i < 2 + args.partNum := by
  obtain ⟨r, hr, -⟩ := (inBlock_iff i).mp h
  rw [← length_initHashTable args.partNum args.maxSize args.valueSize]
  exact (List.getElem?_eq_some_iff.mp hr).1

/-- All regions are in the block exactly when the block reaches behind the last. -/
theorem forall_inBlock_iff :
    (∀ i < 2 + args.partNum, args.inBlock i = true) ↔
      ((160 + (args.maxSize * (args.valueSize + 16) + 272 * args.partNum) : Nat) : Int) ≤
        args.hashtableLen := by
  have hle : args.hashtableLen ≤ 2 ^ 31 - 1 := toInt_le _
  rw [← initHashTable_within_iff hle]
  constructor
  · intro hall r hr
    obtain ⟨i, hi, rfl⟩ := List.mem_iff_getElem.mp hr
    rw [length_initHashTable] at hi
    obtain ⟨r, hr, hwithin⟩ := (inBlock_iff i).mp (hall i hi)
    rw [List.getElem?_eq_getElem] at hr
    exact Option.some.inj hr ▸ hwithin
  · intro hall i hi
    rw [← length_initHashTable args.partNum args.maxSize args.valueSize] at hi
    exact (inBlock_iff i).mpr ⟨_, List.getElem?_eq_getElem hi, hall _ (List.getElem_mem hi)⟩

theorem hashtableLen_eq (hpart : 1 ≤ args.partNum) (hpartInt : args.partNum < 2 ^ 31)
    (hmax : 1 ≤ args.maxSize) (hmaxInt : args.maxSize < 2 ^ 31) :
    args.hashtableLen = toInt
      ((2 ^ Nat.clog 2 args.maxSize * (args.valueSize + 16) + 2 ^ Nat.clog 2 args.partNum *
        (16 + 2 ^ Nat.clog 2 args.maxSize * (args.valueSize + 16)) + 160 + args.nameLen :
        Nat)) := by
  rw [HashTableArgs.hashtableLen, getHashTableSize_eq hpart hpartInt hmax hmaxInt,
    toInt_toInt_add, Nat.cast_add _ args.nameLen]

/-! ## The result -/

/-- In all runs of calls, with every hash function, the table is a map and its entries are in
place. -/
def RefinesMap (args : HashTableArgs) (blank : HashElement κ ν) : Prop :=
  ∀ getHashKey : κ → Nat, (∀ k, getHashKey k < hashKeyModulus) →
    ∀ calls : List (HashCall κ ν),
    ∃ table answers table', createHashTable args getHashKey blank = some table ∧
      run (hashStep args) table calls = some (answers, table') ∧
        Behaves (MapStep args.maxSize) (fun _ => none) calls answers table'.slot ∧
          EntriesOk table'

theorem createHashTable_slot (partNum maxSize : Nat) (getHashKey : κ → Nat)
    (blank : HashElement κ ν) :
    (hashTableCreate partNum maxSize getHashKey blank).slot = fun _ => none := by
  funext k
  simp [slot_eq, getHashEntryFromBucket, HashTableInfo.chain, hashTableCreate]

/-- With the regions in the block and the partition indices in range every call can be
executed. -/
theorem refinesMap_of_inBlock {blank : HashElement κ ν} (htwo : 2 ≤ args.partNum)
    (hint : args.partNum < 2 ^ 31)
    (hpow : args.partNum = 2 ^ Nat.clog 2 args.partNum) (hmax : 0 < args.maxSize)
    (hblock : ∀ i < 2 + args.partNum, args.inBlock i = true) : RefinesMap args blank := by
  intro getHashKey _ calls
  have hcreate : createHashTable args getHashKey blank
      = some (hashTableCreate args.partNum args.maxSize getHashKey blank) := by
    rw [createHashTable, hblock 0 (by omega), hblock 1 (by omega)]
    rfl
  have hstep : ∀ (t : HashTableInfo κ ν) (call : HashCall κ ν),
      EntriesOk t ∧ SameShape (hashTableCreate args.partNum args.maxSize getHashKey blank) t →
        ∃ answer t', hashStep args t call = some (answer, t') ∧
          (EntriesOk t' ∧
            SameShape (hashTableCreate args.partNum args.maxSize getHashKey blank) t') ∧
            MapStep args.maxSize t.slot call answer t'.slot := by
    rintro t call ⟨hok, hshape⟩
    have hindex : getPartitionIndex (t.getHashKey call.tag) t < args.partNum := by
      rw [hshape.partition, getPartitionIndex_eq htwo hint]
      conv_rhs => rw [hpow]
      exact Nat.mod_lt _ (Nat.two_pow_pos _)
    obtain ⟨hok', hmap⟩ := hashAnswer_maps hok call
    have hkeep := hashAnswer_sameShape t call
    refine ⟨_, _, if_pos (hblock _ (by omega)), ⟨hok', hkeep.maxNum.trans hshape.maxNum,
      hkeep.getHashKey.trans hshape.getHashKey,
        fun key => (hkeep.partition key).trans (hshape.partition key)⟩, ?_⟩
    rwa [hshape.maxNum] at hmap
  have hstart := hashTableCreate_entriesOk hmax args.partNum getHashKey blank
  obtain ⟨answers, t', hrun, ⟨hok, -⟩, hall⟩ :=
    run_refines hstep calls ⟨hstart, rfl, rfl, fun _ => rfl⟩
  rw [createHashTable_slot] at hall
  exact ⟨_, answers, t', hcreate, hrun, hall, hok⟩

/-- A search for a key reaches the partition of the key. -/
theorem RefinesMap.inBlock {blank : HashElement κ ν} (h : RefinesMap args blank) {key : Nat}
    (hkey : key < hashKeyModulus) :
    args.inBlock 0 = true ∧ args.inBlock 1 = true ∧
      args.inBlock (2 + getPartitionIndex key
        (hashTableCreate args.partNum args.maxSize (fun _ => key) blank)) = true := by
  obtain ⟨table, answers, table', hcreate, hrun, -, -⟩ :=
    h (fun _ => key) (fun _ => hkey) [.findEntry blank.tag]
  unfold createHashTable at hcreate
  split at hcreate
  · rename_i hblock
    rw [Bool.and_eq_true] at hblock
    obtain rfl := Option.some.inj hcreate
    obtain ⟨answer, -, hstep⟩ := run_singleton hrun
    unfold hashStep at hstep
    split at hstep
    · rename_i hpart
      exact ⟨hblock.1, hblock.2, hpart⟩
    · cases hstep
  · cases hcreate

/-- An insertion needs a slot. -/
theorem MapStep.pos_of_insert {cap : Nat} {m m' : SlotMap κ ν} {call : HashCall κ ν}
    {entry : Option (Nat × ν)}
    (h : MapStep cap m call (.entry .insert entry) m') : 0 < cap := by
  cases h with
  | insert _ _ _ _ he _ => exact Nat.zero_lt_of_lt he

/-- A table for no element has one. -/
theorem RefinesMap.maxSize_pos {blank : HashElement κ ν} (h : RefinesMap args blank) :
    0 < args.maxSize := by
  refine Nat.pos_of_ne_zero fun hzero => ?_
  obtain ⟨table, answers, table', hcreate, hrun, hall, -⟩ :=
    h (fun _ => 0) (fun _ => by unfold hashKeyModulus; omega)
      [.getFreeEntry blank.tag blank.value]
  obtain ⟨answer, rfl, hstep⟩ := run_singleton hrun
  have hmap := behaves_singleton hall
  unfold createHashTable at hcreate
  split at hcreate
  · obtain rfl := Option.some.inj hcreate
    have hfree :
        (hashTableCreate args.partNum args.maxSize
          (fun _ : κ => 0) blank).freeHashElementList = [0] := by
      rw [hzero]
      rfl
    unfold hashStep at hstep
    split at hstep
    · rcases hashGetFreeEntry_slot_cases
        (hashTableCreate args.partNum args.maxSize (fun _ : κ => 0) blank) blank.tag
        blank.value with ⟨entry, -, hslot⟩ | ⟨-, hnil, -⟩ | ⟨entry, rest, -, -, heq⟩
      · rw [createHashTable_slot] at hslot
        cases hslot
      · rw [hfree] at hnil
        cases hnil
      · simp only [hashAnswer, heq, Option.some.injEq, Prod.mk.injEq] at hstep
        obtain ⟨rfl, rfl⟩ := hstep
        have hpos := hmap.pos_of_insert
        omega
    · cases hstep
  · cases hcreate

/-- A table whose number of partitions is a power of two behaves as a finite map exactly when
there is more than one partition, an element, and room in the block for all of the layout. -/
theorem hashTable_refines_iff {args : HashTableArgs} (hint : args.partNum < 2 ^ 31)
    (hmaxInt : args.maxSize < 2 ^ 31)
    (hpow : ∃ k, args.partNum = 2 ^ k) (blank : HashElement κ ν) :
    RefinesMap args blank ↔ 2 ≤ args.partNum ∧ 1 ≤ args.maxSize ∧
      ((160 + (args.maxSize * (args.valueSize + 16) + 272 * args.partNum) : Nat) : Int)
        ≤ Int.bmod ((2 ^ Nat.clog 2 args.maxSize * (args.valueSize + 16) + args.partNum *
            (16 + 2 ^ Nat.clog 2 args.maxSize * (args.valueSize + 16)) + 160 + args.nameLen :
            Nat)) (2 ^ 32) := by
  have hclog : args.partNum = 2 ^ Nat.clog 2 args.partNum :=
    PowerOfTwo.eq_pow_clog_iff.mpr hpow
  have hpos : 1 ≤ args.partNum := hclog ▸ Nat.two_pow_pos _
  have hroom : 1 ≤ args.maxSize → ((∀ i < 2 + args.partNum, args.inBlock i = true) ↔ _) :=
    fun hmax => by
    rw [forall_inBlock_iff, hashtableLen_eq hpos hint hmax hmaxInt, ← hclog]
  constructor
  · intro h
    have hmax := h.maxSize_pos
    -- With one partition the key 1 is its own index.
    have htwo : 2 ≤ args.partNum := by
      by_contra hone
      obtain ⟨-, -, hin⟩ :=
        h.inBlock (show 1 < hashKeyModulus by unfold hashKeyModulus; omega)
      have hlt := lt_of_inBlock hin
      obtain ⟨partNum, maxSize, valueSize, nameLen⟩ := args
      obtain rfl : partNum = 1 := by dsimp only at hpos hone; omega
      rw [getPartitionIndex_one] at hlt
      dsimp only at hlt
      omega
    refine ⟨htwo, hmax, (hroom hmax).mp fun i hi => ?_⟩
    obtain ⟨h0, h1, -⟩ := h.inBlock (show 0 < hashKeyModulus by unfold hashKeyModulus; omega)
    match i with
    | 0 => exact h0
    | 1 => exact h1
    | p + 2 =>
      obtain ⟨-, -, hin⟩ :=
        h.inBlock (show p < hashKeyModulus by unfold hashKeyModulus; omega)
      rw [getPartitionIndex_eq htwo hint, ← hclog, Nat.mod_eq_of_lt (by omega),
        Nat.add_comm] at hin
      exact hin
  · rintro ⟨htwo, hmax, hfits⟩
    exact refinesMap_of_inBlock htwo hint hclog hmax ((hroom hmax).mpr hfits)

/-- Four partitions for 1024 values of 40 bytes. -/
theorem hashTable_refines_four :
    RefinesMap ⟨4, 1024, 40, 15⟩ (⟨0, 0, 0⟩ : HashElement Nat Nat) := by
  refine (hashTable_refines_iff (by decide) (by decide) ⟨2, rfl⟩ _).mpr
    ⟨by decide, by decide, ?_⟩
  rw [show Nat.clog 2 1024 = 10 from Nat.clog_pow 2 10 Nat.one_lt_two]
  decide

/-- With one partition the first search for a key with hash 1 goes to the second one. -/
theorem hashTable_refines_fails :
    ¬ RefinesMap ⟨1, 1024, 40, 15⟩ (⟨0, 0, 0⟩ : HashElement Nat Nat) := by
  intro h
  obtain ⟨-, -, hin⟩ := h.inBlock (show 1 < hashKeyModulus by unfold hashKeyModulus; omega)
  have hout : HashTableArgs.inBlock ⟨1, 1024, 40, 15⟩
      (2 + getPartitionIndex 1 (numberTable 1 1024)) = false := by decide
  have hsame : getPartitionIndex 1
      (hashTableCreate 1 1024 (fun _ => 1) (⟨0, 0, 0⟩ : HashElement Nat Nat))
      = getPartitionIndex 1 (numberTable 1 1024) := rfl
  rw [hsame, hout] at hin
  cases hin

end Toadb
