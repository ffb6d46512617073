/-
Toadb.Buffer.HashTableLayoutTheorems — when the layout of a hash table fits
its block and its indices are in range.

`getAlignNum` is the next power of two (`getAlignNum_eq`), so the bytes that
are asked for and the partition index have closed forms
(`getHashTableSize_eq`, `getPartitionIndex_eq`). The walk of `initHashTable`
is the walk of `Lib.Regions` (`initHashTable_eq`). `hashTable_layout_iff`
puts them together: the number of partitions has to be a power of two other
than 1, and the bytes asked for have to hold what the walk lays out.
-/
import Toadb.Lib.PowerOfTwo
import Toadb.Buffer.HashTable

namespace Toadb

open Regions (Region layOut)

/-! ## The next power of two -/

theorem getAlignNum_eq {num : Nat} (hpos : 1 ≤ num) (hle : num ≤ 2 ^ 32) :
    getAlignNum num = 2 ^ Nat.clog 2 num := by
  obtain ⟨mask, rfl⟩ := Nat.exists_eq_succ_of_ne_zero (Nat.one_le_iff_ne_zero.mp hpos)
  have hmask : (mask.succ + (2 ^ 32 - 1)) % 2 ^ 32 = mask := by omega
  unfold getAlignNum
  rw [hmask]
  have hsmears := (PowerOfTwo.smears_self mask).or_shift.or_shift.or_shift.or_shift.or_shift
  exact hsmears.succ_eq (by omega)

theorem getShiftNum_pow (k : Nat) : getShiftNum (2 ^ k) = k := Nat.log2_two_pow

theorem clog_le_of_int {num : Nat} (hint : num < 2 ^ 31) : Nat.clog 2 num ≤ 31 :=
  (Nat.clog_le_iff_le_pow Nat.one_lt_two).mpr hint.le

/-! ## The indices -/

variable {κ ν : Type}

/-- With more than one partition, the index is the key modulo the rounded number of
partitions. -/
theorem getPartitionIndex_eq {partNum : Nat} (htwo : 2 ≤ partNum)
    (hint : partNum < 2 ^ 31) (maxSize key : Nat)
    (getHashKey : κ → Nat) (blank : HashElement κ ν) :
    getPartitionIndex key (hashTableCreate partNum maxSize getHashKey blank) =
      key % 2 ^ Nat.clog 2 partNum := by
  have hle := clog_le_of_int hint
  have hpos : 0 < Nat.clog 2 partNum := Nat.clog_pos Nat.one_lt_two htwo
  unfold getPartitionIndex hashTableCreate
  dsimp only
  rw [getAlignNum_eq (by omega) (by omega), getShiftNum_pow]
  generalize Nat.clog 2 partNum = k at hle hpos ⊢
  have hshift : hashShift (hashBits - k) = 64 - k :=
    Nat.mod_eq_of_lt (by unfold hashBits; omega)
  have hsplit : hashKeyModulus = 2 ^ k * 2 ^ (64 - k) := by
    rw [← pow_add, Nat.add_sub_cancel' (by omega)]
    rfl
  have hmask : (hashKeyModulus - 2 ^ (64 - k)) >>> (64 - k) = 2 ^ k - 1 := by
    rw [hsplit, Nat.shiftRight_eq_div_pow, ← Nat.sub_one_mul,
      Nat.mul_div_cancel _ (Nat.two_pow_pos _)]
  rw [hshift, hmask, Nat.and_two_pow_sub_one_eq_mod]
  have hlt : key % 2 ^ k < 2 ^ k := Nat.mod_lt _ (Nat.two_pow_pos k)
  have hpow : 2 ^ k ≤ 2 ^ 31 := Nat.pow_le_pow_right Nat.two_pos hle
  exact Nat.mod_eq_of_lt (by omega)

/-- With one partition the mask is not shifted out and the index is the key. -/
theorem getPartitionIndex_one (maxSize key : Nat) (getHashKey : κ → Nat)
    (blank : HashElement κ ν) :
    getPartitionIndex key (hashTableCreate 1 maxSize getHashKey blank) = key % 2 ^ 32 := by
  have hmask : (hashTableCreate 1 maxSize getHashKey blank).partitionMask >>>
      hashShift (hashTableCreate 1 maxSize getHashKey blank).partitionShift = 2 ^ 64 - 1 := by
    show (hashKeyModulus - 2 ^ hashShift (hashBits - getShiftNum (getAlignNum 1))) >>>
      hashShift (hashBits - getShiftNum (getAlignNum 1)) = 2 ^ 64 - 1
    decide
  rw [getPartitionIndex, hmask, Nat.and_two_pow_sub_one_eq_mod, Nat.mod_mod_of_dvd]
  exact Nat.pow_dvd_pow 2 (by omega)

/-- The bucket index is masked with less than the number of buckets. -/
theorem getBucketIndex_lt (partNum maxSize key : Nat) (getHashKey : κ → Nat)
    (blank : HashElement κ ν) :
    getBucketIndex key (hashTableCreate partNum maxSize getHashKey blank) <
      hashSegmentBuckets :=
  Nat.and_le_right.trans_lt (Nat.mod_lt _ (show 0 < 32 by omega))

/-- Both indices are in range, for every key. -/
structure IndicesInRange (table : HashTableInfo κ ν) : Prop where
  partition : ∀ key < hashKeyModulus, getPartitionIndex key table < table.partitionNum
  bucket : ∀ key < hashKeyModulus, getBucketIndex key table < table.hashSegmentSize

theorem indicesInRange_iff {partNum : Nat} (hpos : 1 ≤ partNum)
    (hint : partNum < 2 ^ 31) (maxSize : Nat)
    (getHashKey : κ → Nat) (blank : HashElement κ ν) :
    IndicesInRange (hashTableCreate partNum maxSize getHashKey blank) ↔
      ∃ k, 1 ≤ k ∧ partNum = 2 ^ k := by
  have hbucket := fun key => getBucketIndex_lt partNum maxSize key getHashKey blank
  obtain rfl | htwo : partNum = 1 ∨ 2 ≤ partNum := by omega
  · constructor
    · intro hall
      have h1 : getPartitionIndex 1 _ < 1 :=
        hall.partition 1 (by unfold hashKeyModulus; omega)
      rw [getPartitionIndex_one] at h1
      omega
    · rintro ⟨k, hk, hpow⟩
      exact absurd hpow (Nat.one_lt_two_pow (by omega)).ne
  · have hkpos : 0 < Nat.clog 2 partNum := Nat.clog_pos Nat.one_lt_two htwo
    have hle : partNum ≤ 2 ^ Nat.clog 2 partNum := Nat.le_pow_clog Nat.one_lt_two partNum
    constructor
    · intro hall
      refine ⟨Nat.clog 2 partNum, hkpos, hle.antisymm (not_lt.mp fun hlt => ?_)⟩
      -- A key equal to the number of partitions is its own index.
      have hkey : getPartitionIndex partNum _ < partNum :=
        hall.partition partNum (by unfold hashKeyModulus; omega)
      rw [getPartitionIndex_eq htwo hint, Nat.mod_eq_of_lt hlt] at hkey
      exact hkey.false
    · rintro ⟨k, -, hpow⟩
      have heq : partNum = 2 ^ Nat.clog 2 partNum := PowerOfTwo.eq_pow_clog_iff.mpr ⟨k, hpow⟩
      refine ⟨fun key _ => ?_, fun key _ => hbucket key⟩
      show getPartitionIndex key _ < partNum
      rw [getPartitionIndex_eq htwo hint]
      conv_rhs => rw [heq]
      exact Nat.mod_lt _ (Nat.two_pow_pos _)

/-! ## The block -/

theorem toInt_of_lt {x : Int} (h0 : 0 ≤ x) (hx : x ≤ 2 ^ 31 - 1) : toInt x = x := by
  unfold toInt
  rw [Int.bmod_def]
  split <;> omega

theorem toInt_le (x : Int) : toInt x ≤ 2 ^ 31 - 1 := by
  unfold toInt
  rw [Int.bmod_def]
  split <;> omega

@[simp] theorem toInt_toInt_add (x y : Int) :
    toInt (toInt x + y) = toInt (x + y) := Int.bmod_add_bmod

theorem toInt_add_toInt (x y : Int) : toInt (x + toInt y) = toInt (x + y) := Int.add_bmod_bmod

/-- A factor can be computed from what the `int` keeps. -/
theorem toInt_mul_add_toInt (x c y : Int) :
    toInt (x * (c + toInt y)) = toInt (x * (c + y)) := by
  have hsum : toInt (c + toInt y) = toInt (c + y) := toInt_add_toInt c y
  unfold toInt at hsum ⊢
  rw [← Int.mul_bmod_bmod, hsum, Int.mul_bmod_bmod]

/-- Room for the rounded number of elements once, and once more in every partition. -/
theorem getHashTableSize_eq {partNum maxNum : Nat} (hpart : 1 ≤ partNum)
    (hpartInt : partNum < 2 ^ 31)
    (hmax : 1 ≤ maxNum) (hmaxInt : maxNum < 2 ^ 31) (valueSize : Nat) :
    getHashTableSize partNum maxNum valueSize
      = toInt ((2 ^ Nat.clog 2 maxNum * (valueSize + 16) + 2 ^ Nat.clog 2 partNum *
          (16 + 2 ^ Nat.clog 2 maxNum * (valueSize + 16)) + 160 : Nat)) := by
  unfold getHashTableSize
  rw [getAlignNum_eq hpart (by omega), getAlignNum_eq hmax (by omega)]
  dsimp only [hashElementSize, sizeofHashSegment, sizeofHashTableInfo]
  generalize 2 ^ Nat.clog 2 partNum = p
  generalize 2 ^ Nat.clog 2 maxNum * (valueSize + 16) = len
  push_cast
  rw [toInt_toInt_add, add_assoc, toInt_toInt_add, add_comm _ (160 : Int), ← add_assoc,
    ← toInt_add_toInt, toInt_mul_add_toInt, toInt_add_toInt, add_right_comm]

theorem segBucketArrays_eq (segments : Nat) (offset : Int) :
    segBucketArrays segments offset
      = layOut toInt offset
        (List.replicate segments (hashSegmentBuckets * sizeofBucket)) := by
  induction segments generalizing offset with
  | zero => rfl
  | succ segments ih => rw [segBucketArrays, ih, List.replicate_succ, Regions.layOut_cons]

theorem initHashTable_eq (partNum maxNum valueSize : Nat) :
    initHashTable partNum maxNum valueSize
      = layOut toInt sizeofHashTableInfo
          (maxNum * (valueSize + hashElementSize) :: partNum * sizeofHashSegment ::
            List.replicate partNum (hashSegmentBuckets * sizeofBucket)) := by
  rw [Regions.layOut_cons, Regions.layOut_cons, ← segBucketArrays_eq]
  rfl

theorem layout_sum (partNum maxNum valueSize : Nat) :
    (maxNum * (valueSize + hashElementSize) :: partNum * sizeofHashSegment ::
      List.replicate partNum (hashSegmentBuckets * sizeofBucket)).sum
        = maxNum * (valueSize + 16) + 272 * partNum := by
  rw [List.sum_cons, List.sum_cons, List.sum_replicate_nat]
  unfold hashElementSize sizeofHashSegment hashSegmentBuckets sizeofBucket
  omega

/-- The walk stays in a block of at most `INT_MAX` bytes exactly when its last byte does. -/
theorem initHashTable_within_iff {size : Int} (hsize : size ≤ 2 ^ 31 - 1)
    (partNum maxNum valueSize : Nat) :
    (∀ r ∈ initHashTable partNum maxNum valueSize, r.Within size) ↔
      ((160 + (maxNum * (valueSize + 16) + 272 * partNum) : Nat) : Int) ≤ size := by
  rw [initHashTable_eq]
  by_cases hinfo : (sizeofHashTableInfo : Int) ≤ size
  · rw [Regions.layOut_within_iff (fun x => toInt_of_lt) hsize _ (Int.natCast_nonneg _) hinfo,
      layout_sum,
      Nat.cast_add 160]
    rfl
  · constructor
    · intro hall
      obtain ⟨-, hstop⟩ := hall _ (List.mem_cons_self ..)
      unfold Region.stop at hstop
      dsimp only at hstop
      omega
    · intro hall
      unfold sizeofHashTableInfo at hinfo
      omega

/-- Then the regions are disjoint. -/
theorem initHashTable_apart {partNum maxNum valueSize : Nat} {size : Int}
    (hsize : size ≤ 2 ^ 31 - 1)
    (hroom : ((160 + (maxNum * (valueSize + 16) + 272 * partNum) : Nat) : Int) ≤ size) :
    (initHashTable partNum maxNum valueSize).Pairwise Region.Apart := by
  rw [initHashTable_eq]
  refine Regions.layOut_apart (fun x => toInt_of_lt) (Int.natCast_nonneg _) ?_
  rw [layout_sum]
  unfold sizeofHashTableInfo
  omega

/-! ## The result -/

/-- The table lies in the bytes `GetHashTableSize` computes, and every key finds its place in
it. -/
structure LayoutOk (partNum maxNum valueSize : Nat) (table : HashTableInfo κ ν) : Prop where
  within : ∀ r ∈ initHashTable partNum maxNum valueSize,
    r.Within (getHashTableSize partNum maxNum valueSize)
  apart : (initHashTable partNum maxNum valueSize).Pairwise Region.Apart
  indices : IndicesInRange table

/-- The layout is right exactly for a power of two of partitions, more than one, when the
`int` that is asked for holds the elements, the segments and the buckets. -/
theorem hashTable_layout_iff {partNum maxNum valueSize : Nat} (hpart : 1 ≤ partNum)
    (hpartInt : partNum < 2 ^ 31)
    (hmax : 1 ≤ maxNum) (hmaxInt : maxNum < 2 ^ 31) (getHashKey : κ → Nat)
    (blank : HashElement κ ν) :
    LayoutOk partNum maxNum valueSize (hashTableCreate partNum maxNum getHashKey blank) ↔
      (∃ k, 1 ≤ k ∧ partNum = 2 ^ k) ∧
        ((160 + (maxNum * (valueSize + 16) + 272 * partNum) : Nat) : Int)
          ≤ Int.bmod ((2 ^ Nat.clog 2 maxNum * (valueSize + 16) + 2 ^ Nat.clog 2 partNum *
              (16 + 2 ^ Nat.clog 2 maxNum * (valueSize + 16)) + 160 : Nat)) (2 ^ 32) := by
  have hsize := getHashTableSize_eq hpart hpartInt hmax hmaxInt valueSize
  have hwithin := initHashTable_within_iff (hsize ▸ toInt_le _) partNum maxNum valueSize
  have hindices := indicesInRange_iff hpart hpartInt maxNum getHashKey blank
  rw [hsize] at hwithin
  constructor
  · intro hall
    exact ⟨hindices.mp hall.indices, hwithin.mp (hsize ▸ hall.within)⟩
  · rintro ⟨hpow, hroom⟩
    exact ⟨hsize ▸ hwithin.mpr hroom,
      initHashTable_apart (toInt_le _) hroom, hindices.mpr hpow⟩

/-- A table of numbers, the hash of a number being the number. -/
def numberTable (partNum maxNum : Nat) : HashTableInfo Nat Nat :=
  hashTableCreate partNum maxNum (fun tag => tag) ⟨0, 0, 0⟩

/-- Four partitions for 1024 values of 40 bytes. -/
theorem hashTable_layout_four : LayoutOk 4 1024 40 (numberTable 4 1024) := by
  refine (hashTable_layout_iff (by omega) (by omega) (by omega) (by omega) _ _).mpr
    ⟨⟨2, by omega, rfl⟩, ?_⟩
  rw [show Nat.clog 2 1024 = 10 from Nat.clog_pow 2 10 Nat.one_lt_two,
    show Nat.clog 2 4 = 2 from Nat.clog_pow 2 2 Nat.one_lt_two]
  decide

/-- With one element of one byte the bucket arrays reach behind the block. Of three partitions
the key 3 finds none, and with one partition every key but 0 misses it. -/
theorem hashTable_layout_fails :
    ¬ LayoutOk 2 1 1 (numberTable 2 1) ∧ ¬ LayoutOk 3 1024 40 (numberTable 3 1024) ∧
      ¬ LayoutOk 1 1024 40 (numberTable 1 1024) := by
  refine ⟨fun hall => ?_, fun hall => ?_, fun hall => ?_⟩
  · have hout : ¬ ∀ r ∈ initHashTable 2 1 1, r.Within (getHashTableSize 2 1 1) := by decide
    exact hout hall.within
  · have hthree : getPartitionIndex 3 (numberTable 3 1024) = 3 := by decide
    have hlt : getPartitionIndex 3 (numberTable 3 1024) < 3 :=
      hall.indices.partition 3 (by unfold hashKeyModulus; omega)
    omega
  · have hone : getPartitionIndex 1 (numberTable 1 1024) = 1 := by decide
    have hlt : getPartitionIndex 1 (numberTable 1 1024) < 1 :=
      hall.indices.partition 1 (by unfold hashKeyModulus; omega)
    omega

end Toadb
