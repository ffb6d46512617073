/-
Toadb.Buffer.HashTableTheorems — the hash table refines a finite map.

`HashTableOk` is the invariant: an element on a chain carries its own hash
key and sits in the bucket of that key, a chain holds a key at most once,
and every element is in exactly one place: on a chain, on the free list, or
`held` by a `HashDeleteEntry` that has unlinked it and not freed it yet.
Under it `slot` and `lookup` answer from the one element that carries the
key (`slot_eq_some_iff`), and insertion and deletion change the answer for
their own key only (`slot_insertEntry`, `slot_removeEntry`).
-/
import Toadb.Buffer.HashTable

namespace Toadb

variable {κ ν : Type}

/-! ## Chains -/

/-- The chain a key belongs to. -/
def HashTableInfo.chain (table : HashTableInfo κ ν) (tag : κ) : List Nat :=
  let key := table.getHashKey tag
  table.segBuckets (getPartitionIndex key table) (getBucketIndex key table)

theorem setBucket_self (table : HashTableInfo κ ν) (p b : Nat) (bucket : List Nat) :
    (table.setBucket p b bucket).segBuckets p b = bucket := by
  simp [HashTableInfo.setBucket]

theorem setBucket_of_ne (table : HashTableInfo κ ν) {p b p' b' : Nat} (bucket : List Nat)
    (h : ¬ (p' = p ∧ b' = b)) :
    (table.setBucket p b bucket).segBuckets p' b' = table.segBuckets p' b' := by
  by_cases hp : p' = p
  · subst hp
    have hb : b' ≠ b := fun hb => h ⟨rfl, hb⟩
    simp [HashTableInfo.setBucket, hb]
  · simp [HashTableInfo.setBucket, hp]

theorem mem_setBucket {table : HashTableInfo κ ν} {p b p' b' e : Nat} {bucket : List Nat} :
    e ∈ (table.setBucket p b bucket).segBuckets p' b' ↔
      (p' = p ∧ b' = b ∧ e ∈ bucket) ∨
        (¬ (p' = p ∧ b' = b) ∧ e ∈ table.segBuckets p' b') := by
  by_cases hpb : p' = p ∧ b' = b
  · obtain ⟨rfl, rfl⟩ := hpb
    simp [setBucket_self]
  · simp [setBucket_of_ne table bucket hpb, hpb, ← and_assoc]

/-- Unlinking the only match of a chain without repetitions removes exactly it. -/
theorem mem_eraseP_iff {p : Nat → Bool} {e : Nat} :
    ∀ {chain : List Nat}, chain.Nodup → chain.find? p = some e →
      (∀ x ∈ chain, p x = true → x = e) → ∀ x, x ∈ chain.eraseP p ↔ x ∈ chain ∧ x ≠ e
  | [], _, hfind, _, _ => by simp at hfind
  | y :: chain, hnodup, hfind, honly, x => by
    obtain ⟨hy, hnodup⟩ := List.nodup_cons.mp hnodup
    cases hpy : p y with
    | true =>
      have hye : y = e := honly y (List.mem_cons_self ..) hpy
      rw [List.eraseP_cons_of_pos hpy, List.mem_cons]
      constructor
      · intro hx
        exact ⟨.inr hx, fun hxe => hy (hye ▸ hxe ▸ hx)⟩
      · rintro ⟨hx, hne⟩
        rcases hx with rfl | hx
        · exact absurd hye hne
        · exact hx
    | false =>
      have hye : y ≠ e := by
        rintro rfl
        have := List.find?_some hfind
        rw [hpy] at this
        cases this
      have hfind' : chain.find? p = some e := by simpa [List.find?_cons, hpy] using hfind
      have hrest := mem_eraseP_iff hnodup hfind'
        (fun z hz => honly z (List.mem_cons_of_mem _ hz)) x
      rw [List.eraseP_cons_of_neg (by simp [hpy]), List.mem_cons, List.mem_cons, hrest]
      constructor
      · rintro (rfl | ⟨hx, hne⟩)
        · exact ⟨.inl rfl, hye⟩
        · exact ⟨.inr hx, hne⟩
      · rintro ⟨rfl | hx, hne⟩
        · exact .inl rfl
        · exact .inr ⟨hx, hne⟩

/-! ## The invariant -/

/-- The invariant of the table, with the elements that are `held`. -/
structure HashTableOk (table : HashTableInfo κ ν) (held : Nat → Prop) : Prop where
  placed : ∀ p b e, e ∈ table.segBuckets p b →
    (table.element e).hashKey = table.getHashKey (table.element e).tag ∧
      p = getPartitionIndex (table.element e).hashKey table ∧
      b = getBucketIndex (table.element e).hashKey table
  unique : ∀ p b e e', e ∈ table.segBuckets p b → e' ∈ table.segBuckets p b →
    (table.element e).tag = (table.element e').tag → e = e'
  chain_nodup : ∀ p b, (table.segBuckets p b).Nodup
  free_nodup : table.freeHashElementList.Nodup
  disjoint : ∀ p b e, e ∈ table.segBuckets p b → e ∉ table.freeHashElementList
  held_off : ∀ e, held e → e ∉ table.freeHashElementList ∧ ∀ p b, e ∉ table.segBuckets p b
  /-- No element is lost. -/
  cover : ∀ e, e < table.maxNum ↔
    e ∈ table.freeHashElementList ∨ held e ∨ ∃ p b, e ∈ table.segBuckets p b

theorem hashTableCreate_free {maxSize : Nat} (hmax : 0 < maxSize) (partNum : Nat)
    (getHashKey : κ → Nat) (blank : HashElement κ ν) :
    (hashTableCreate partNum maxSize getHashKey blank).freeHashElementList =
      List.range maxSize := by
  obtain ⟨n, rfl⟩ := Nat.exists_eq_succ_of_ne_zero hmax.ne'
  rw [List.range_eq_range', List.range'_succ]
  rfl

theorem hashTableCreate_ok {maxSize : Nat} (hmax : 0 < maxSize) (partNum : Nat)
    (getHashKey : κ → Nat) (blank : HashElement κ ν) :
    HashTableOk (hashTableCreate partNum maxSize getHashKey blank) fun _ => False := by
  have hfree := hashTableCreate_free hmax partNum getHashKey blank
  constructor
  case free_nodup => rw [hfree]; exact List.nodup_range
  case cover => intro e; rw [hfree]; simp [hashTableCreate]
  all_goals simp [hashTableCreate]

variable {table : HashTableInfo κ ν} {held : Nat → Prop}

/-- An element on a chain is on the chain of its own key. -/
theorem HashTableOk.mem_chain (h : HashTableOk table held) {p b e : Nat}
    (he : e ∈ table.segBuckets p b) : e ∈ table.chain (table.element e).tag := by
  obtain ⟨hkey, rfl, rfl⟩ := h.placed p b e he
  rw [HashTableInfo.chain, ← hkey]
  exact he

/-! ## Insertion and removal of an element -/

/-- `HashGetFreeEntry` on an absent key with a free element left. -/
def HashTableInfo.insertEntry (table : HashTableInfo κ ν) (tag : κ) (value : ν) (entry : Nat)
    (rest : List Nat) : HashTableInfo κ ν :=
  let key := table.getHashKey tag
  { table.setBucket (getPartitionIndex key table) (getBucketIndex key table)
      (entry :: table.chain tag) with
    freeHashElementList := rest
    freeNum := table.freeNum - 1
    usedNum := table.usedNum + 1
    element := Function.update table.element entry ⟨key, tag, value⟩ }

theorem mem_insertEntry {tag : κ} {value : ν} {entry : Nat} {rest : List Nat} {p b e : Nat} :
    e ∈ (table.insertEntry tag value entry rest).segBuckets p b ↔
      (e = entry ∧ p = getPartitionIndex (table.getHashKey tag) table ∧
        b = getBucketIndex (table.getHashKey tag) table) ∨ e ∈ table.segBuckets p b := by
  show e ∈ (table.setBucket _ _ (entry :: table.chain tag)).segBuckets p b ↔ _
  rw [mem_setBucket, List.mem_cons]
  constructor
  · rintro (⟨rfl, rfl, rfl | he⟩ | ⟨-, he⟩)
    · exact .inl ⟨rfl, rfl, rfl⟩
    · exact .inr he
    · exact .inr he
  · rintro (⟨rfl, rfl, rfl⟩ | he)
    · exact .inl ⟨rfl, rfl, .inl rfl⟩
    · by_cases hpb : p = getPartitionIndex (table.getHashKey tag) table ∧
          b = getBucketIndex (table.getHashKey tag) table
      · obtain ⟨rfl, rfl⟩ := hpb
        exact .inl ⟨rfl, rfl, .inr he⟩
      · exact .inr ⟨hpb, he⟩

/-- A free element enters the table on the chain of an absent key. -/
theorem HashTableOk.insertEntry (h : HashTableOk table held) {tag : κ}
    {value : ν} {entry : Nat}
    {rest : List Nat} (hfree : table.freeHashElementList = entry :: rest)
    (habsent : ∀ p b e, e ∈ table.segBuckets p b → (table.element e).tag ≠ tag) :
    HashTableOk (table.insertEntry tag value entry rest) held := by
  have hfn := h.free_nodup
  rw [hfree, List.nodup_cons] at hfn
  -- The new element is on no chain yet, so the chained elements keep their content.
  have hnew : ∀ p b e, e ∈ table.segBuckets p b → e ≠ entry := by
    intro p b e he heq
    exact h.disjoint p b e he (by simp [hfree, heq])
  have hold : ∀ p b e, e ∈ table.segBuckets p b →
      (table.insertEntry tag value entry rest).element e = table.element e := fun p b e he =>
    Function.update_of_ne (hnew p b e he) _ _
  have hself : (table.insertEntry tag value entry rest).element entry
      = ⟨table.getHashKey tag, tag, value⟩ := Function.update_self _ _ _
  refine ⟨?_, ?_, ?_, hfn.2, ?_, ?_, ?_⟩
  · intro p b e he
    rcases mem_insertEntry.mp he with ⟨rfl, rfl, rfl⟩ | he
    · rw [hself]; exact ⟨rfl, rfl, rfl⟩
    · rw [hold p b e he]; exact h.placed p b e he
  · intro p b e e' he he' htag
    rcases mem_insertEntry.mp he with ⟨heq, -, -⟩ | hchain
    · rcases mem_insertEntry.mp he' with ⟨heq', -, -⟩ | hchain'
      · exact heq.trans heq'.symm
      · rw [heq, hself, hold p b e' hchain'] at htag
        exact absurd htag.symm (habsent p b e' hchain')
    · rcases mem_insertEntry.mp he' with ⟨heq', -, -⟩ | hchain'
      · rw [heq', hself, hold p b e hchain] at htag
        exact absurd htag (habsent p b e hchain)
      · rw [hold p b e hchain, hold p b e' hchain'] at htag
        exact h.unique p b e e' hchain hchain' htag
  · intro p b
    by_cases hpb : p = getPartitionIndex (table.getHashKey tag) table ∧
        b = getBucketIndex (table.getHashKey tag) table
    · obtain ⟨rfl, rfl⟩ := hpb
      show (HashTableInfo.segBuckets (table.setBucket _ _ _) _ _).Nodup
      rw [setBucket_self, List.nodup_cons]
      exact ⟨fun he => hnew _ _ entry he rfl, h.chain_nodup _ _⟩
    · have hsame : (table.insertEntry tag value entry rest).segBuckets p b
          = table.segBuckets p b := by
        show HashTableInfo.segBuckets (table.setBucket _ _ _) p b = _
        exact setBucket_of_ne table _ hpb
      rw [hsame]; exact h.chain_nodup p b
  · intro p b e he hrest
    rcases mem_insertEntry.mp he with ⟨rfl, -, -⟩ | he
    · exact hfn.1 hrest
    · exact h.disjoint p b e he (hfree ▸ List.mem_cons_of_mem _ hrest)
  · intro e he
    obtain ⟨hoff, hchain⟩ := h.held_off e he
    rw [hfree, List.mem_cons, not_or] at hoff
    refine ⟨hoff.2, fun p b hmem => ?_⟩
    rcases mem_insertEntry.mp hmem with ⟨heq, -, -⟩ | hmem
    · exact hoff.1 heq
    · exact hchain p b hmem
  · intro e
    show e < table.maxNum ↔ e ∈ rest ∨ held e ∨ ∃ p b, e ∈ HashTableInfo.segBuckets _ p b
    rw [h.cover e, hfree, List.mem_cons]
    constructor
    · rintro ((rfl | he) | he | ⟨p, b, he⟩)
      · exact .inr (.inr ⟨_, _, mem_insertEntry.mpr (.inl ⟨rfl, rfl, rfl⟩)⟩)
      · exact .inl he
      · exact .inr (.inl he)
      · exact .inr (.inr ⟨p, b, mem_insertEntry.mpr (.inr he)⟩)
    · rintro (he | he | ⟨p, b, he⟩)
      · exact .inl (.inr he)
      · exact .inr (.inl he)
      · rcases mem_insertEntry.mp he with ⟨rfl, -, -⟩ | he
        · exact .inl (.inl rfl)
        · exact .inr (.inr ⟨p, b, he⟩)

/-- `hashUnlinkEntry` on a present key. -/
def HashTableInfo.removeEntry (table : HashTableInfo κ ν) (tag : κ)
    (bucket : List Nat) : HashTableInfo κ ν :=
  let key := table.getHashKey tag
  { table.setBucket (getPartitionIndex key table) (getBucketIndex key table) bucket with
    usedNum := table.usedNum - 1 }

theorem mem_removeEntry (h : HashTableOk table held) {tag : κ}
    {entry : Nat} {bucket : List Nat} (hentry : entry ∈ table.chain tag)
    (hbucket : ∀ e, e ∈ bucket ↔ e ∈ table.chain tag ∧ e ≠ entry) {p b e : Nat} :
    e ∈ (table.removeEntry tag bucket).segBuckets p b ↔
      e ∈ table.segBuckets p b ∧ e ≠ entry := by
  show e ∈ (table.setBucket _ _ bucket).segBuckets p b ↔ _
  rw [mem_setBucket, hbucket]
  constructor
  · rintro (⟨rfl, rfl, he⟩ | ⟨hpb, he⟩)
    · exact he
    · refine ⟨he, ?_⟩
      rintro rfl
      -- The removed element is on the chain of its own key only.
      obtain ⟨-, hp, hb⟩ := h.placed p b e he
      obtain ⟨-, hp', hb'⟩ := h.placed _ _ e hentry
      exact hpb ⟨hp.trans hp'.symm, hb.trans hb'.symm⟩
  · rintro ⟨he, hne⟩
    by_cases hpb : p = getPartitionIndex (table.getHashKey tag) table ∧
        b = getBucketIndex (table.getHashKey tag) table
    · obtain ⟨rfl, rfl⟩ := hpb
      exact .inl ⟨rfl, rfl, he, hne⟩
    · exact .inr ⟨hpb, he⟩

/-- The unlinked element becomes held and everything else stays. -/
theorem HashTableOk.removeEntry (h : HashTableOk table held) {tag : κ} {entry : Nat}
    {bucket : List Nat} (hentry : entry ∈ table.chain tag) (hnodup : bucket.Nodup)
    (hbucket : ∀ e, e ∈ bucket ↔ e ∈ table.chain tag ∧ e ≠ entry) :
    HashTableOk (table.removeEntry tag bucket) fun e => held e ∨ e = entry := by
  have hmem : ∀ {p b e : Nat}, e ∈ (table.removeEntry tag bucket).segBuckets p b ↔
      e ∈ table.segBuckets p b ∧ e ≠ entry := mem_removeEntry h hentry hbucket
  refine ⟨?_, ?_, ?_, h.free_nodup, ?_, ?_, ?_⟩
  · exact fun p b e he => h.placed p b e (hmem.mp he).1
  · exact fun p b e e' he he' htag => h.unique p b e e' (hmem.mp he).1 (hmem.mp he').1 htag
  · intro p b
    by_cases hpb : p = getPartitionIndex (table.getHashKey tag) table ∧
        b = getBucketIndex (table.getHashKey tag) table
    · obtain ⟨rfl, rfl⟩ := hpb
      show (HashTableInfo.segBuckets (table.setBucket _ _ _) _ _).Nodup
      rw [setBucket_self]; exact hnodup
    · show (HashTableInfo.segBuckets (table.setBucket _ _ _) p b).Nodup
      rw [setBucket_of_ne table _ hpb]; exact h.chain_nodup p b
  · exact fun p b e he => h.disjoint p b e (hmem.mp he).1
  · rintro e (he | rfl)
    · exact ⟨(h.held_off e he).1, fun p b hin => (h.held_off e he).2 p b (hmem.mp hin).1⟩
    · exact ⟨h.disjoint _ _ e hentry, fun p b hin => (hmem.mp hin).2 rfl⟩
  · intro e
    show e < table.maxNum ↔ e ∈ table.freeHashElementList ∨ (held e ∨ e = entry) ∨ _
    rw [h.cover e]
    constructor
    · rintro (he | he | ⟨p, b, he⟩)
      · exact .inl he
      · exact .inr (.inl (.inl he))
      · by_cases heq : e = entry
        · exact .inr (.inl (.inr heq))
        · exact .inr (.inr ⟨p, b, hmem.mpr ⟨he, heq⟩⟩)
    · rintro (he | (he | rfl) | ⟨p, b, he⟩)
      · exact .inl he
      · exact .inr (.inl he)
      · exact .inr (.inr ⟨_, _, hentry⟩)
      · exact .inr (.inr ⟨p, b, (hmem.mp he).1⟩)

/-- `PutFreeList`: a held element becomes free. -/
theorem HashTableOk.putFreeList (h : HashTableOk table held) {entry : Nat}
    (hentry : held entry) :
    HashTableOk (putFreeList table entry) fun e => held e ∧ e ≠ entry := by
  obtain ⟨hfree, hoff⟩ := h.held_off entry hentry
  refine ⟨h.placed, h.unique, h.chain_nodup, List.nodup_cons.mpr ⟨hfree, h.free_nodup⟩,
    ?_, ?_, ?_⟩
  · intro p b e he hin
    rcases List.mem_cons.mp hin with rfl | hin
    · exact hoff p b he
    · exact h.disjoint p b e he hin
  · rintro e ⟨he, hne⟩
    refine ⟨fun hin => ?_, (h.held_off e he).2⟩
    rcases List.mem_cons.mp hin with heq | hin
    · exact hne heq
    · exact (h.held_off e he).1 hin
  · intro e
    show e < table.maxNum ↔ e ∈ entry :: table.freeHashElementList ∨ _
    rw [h.cover e, List.mem_cons]
    constructor
    · rintro (he | he | he)
      · exact .inl (.inr he)
      · by_cases heq : e = entry
        · exact .inl (.inl heq)
        · exact .inr (.inl ⟨he, heq⟩)
      · exact .inr (.inr he)
    · rintro ((rfl | he) | ⟨he, -⟩ | he)
      · exact .inr (.inl hentry)
      · exact .inl he
      · exact .inr (.inl he)
      · exact .inr (.inr he)

/-! ## Lookup -/

variable [DecidableEq κ]

theorem hashTableCreate_lookup (partNum maxSize : Nat) (getHashKey : κ → Nat)
    (blank : HashElement κ ν) (tag : κ) :
    (hashTableCreate partNum maxSize getHashKey blank).lookup tag = none := by
  simp [HashTableInfo.lookup, hashFindEntry, getHashEntryFromBucket, hashTableCreate]

/-- The match on the chain of a key is the element that carries the key. -/
theorem HashTableOk.find_eq_some_iff (h : HashTableOk table held) (tag : κ) (e : Nat) :
    getHashEntryFromBucket table (table.chain tag) (table.getHashKey tag) tag = some e ↔
      e ∈ table.chain tag ∧ (table.element e).tag = tag := by
  constructor
  · intro hfind
    have hmatch := List.find?_some hfind
    simp only [hashMatches, Bool.and_eq_true, decide_eq_true_eq] at hmatch
    exact ⟨List.mem_of_find?_eq_some hfind, hmatch.2⟩
  · rintro ⟨hmem, htag⟩
    have hkey : hashMatches table (table.getHashKey tag) tag e = true := by
      simp [hashMatches, htag, (h.placed _ _ e hmem).1]
    cases hfind : getHashEntryFromBucket table (table.chain tag)
      (table.getHashKey tag) tag with
    | none =>
      have := List.find?_eq_none.mp hfind e hmem
      exact absurd hkey this
    | some e' =>
      have hmatch := List.find?_some hfind
      simp only [hashMatches, Bool.and_eq_true, decide_eq_true_eq] at hmatch
      rw [h.unique _ _ e e' hmem (List.mem_of_find?_eq_some hfind) (htag.trans hmatch.2.symm)]

/-- The element that carries a key, with its value. -/
def HashTableInfo.slot (table : HashTableInfo κ ν) (tag : κ) : Option (Nat × ν) :=
  (getHashEntryFromBucket table (table.chain tag) (table.getHashKey tag) tag).map fun entry =>
    (entry, (table.element entry).value)

theorem slot_eq (table : HashTableInfo κ ν) (tag : κ) :
    table.slot tag = (getHashEntryFromBucket table (table.chain tag) (table.getHashKey tag)
      tag).map fun entry => (entry, (table.element entry).value) := rfl

theorem lookup_eq (table : HashTableInfo κ ν) (tag : κ) :
    table.lookup tag = (getHashEntryFromBucket table (table.chain tag) (table.getHashKey tag)
      tag).map fun entry => (table.element entry).value := rfl

theorem lookup_eq_slot (table : HashTableInfo κ ν) (tag : κ) :
    table.lookup tag = (table.slot tag).map Prod.snd := by
  rw [lookup_eq, slot_eq, Option.map_map]
  rfl

theorem HashTableOk.slot_eq_some_iff (h : HashTableOk table held)
    (tag : κ) (e : Nat) (v : ν) :
    table.slot tag = some (e, v) ↔ ∃ p b, e ∈ table.segBuckets p b ∧
      (table.element e).tag = tag ∧ (table.element e).value = v := by
  rw [slot_eq, Option.map_eq_some_iff]
  constructor
  · rintro ⟨e', hfind, heq⟩
    obtain ⟨rfl, rfl⟩ := Prod.mk.inj heq
    obtain ⟨hmem, htag⟩ := (h.find_eq_some_iff tag e').mp hfind
    exact ⟨_, _, hmem, htag, rfl⟩
  · rintro ⟨p, b, hmem, rfl, rfl⟩
    exact ⟨e, (h.find_eq_some_iff _ e).mpr ⟨h.mem_chain hmem, rfl⟩, rfl⟩

theorem HashTableOk.slot_eq_none_iff (h : HashTableOk table held) (tag : κ) :
    table.slot tag = none ↔ ∀ p b e, e ∈ table.segBuckets p b →
      (table.element e).tag ≠ tag := by
  constructor
  · intro hnone p b e he htag
    have hsome := (h.slot_eq_some_iff tag e (table.element e).value).mpr ⟨p, b, he, htag, rfl⟩
    rw [hnone] at hsome
    cases hsome
  · intro hall
    cases hslot : table.slot tag with
    | none => rfl
    | some slot =>
      obtain ⟨p, b, he, htag, -⟩ := (h.slot_eq_some_iff tag slot.1 slot.2).mp hslot
      exact absurd htag (hall p b _ he)

/-- What a lookup answers from. -/
theorem HashTableOk.lookup_eq_some_iff (h : HashTableOk table held) (tag : κ) (v : ν) :
    table.lookup tag = some v ↔ ∃ p b e, e ∈ table.segBuckets p b ∧
      (table.element e).tag = tag ∧ (table.element e).value = v := by
  rw [lookup_eq_slot, Option.map_eq_some_iff]
  constructor
  · rintro ⟨⟨e, v⟩, hslot, rfl⟩
    obtain ⟨p, b, hall⟩ := (h.slot_eq_some_iff tag e v).mp hslot
    exact ⟨p, b, e, hall⟩
  · rintro ⟨p, b, e, hall⟩
    exact ⟨(e, v), (h.slot_eq_some_iff tag e v).mpr ⟨p, b, hall⟩, rfl⟩

/-- Two tables whose chained elements agree answer alike. -/
theorem slot_congr {t t' : HashTableInfo κ ν} {held' : Nat → Prop} (h : HashTableOk t held)
    (h' : HashTableOk t' held') {k : κ}
    (hsame : ∀ e v, (∃ p b, e ∈ t.segBuckets p b ∧ (t.element e).tag = k ∧
      (t.element e).value = v) ↔ ∃ p b, e ∈ t'.segBuckets p b ∧ (t'.element e).tag = k ∧
      (t'.element e).value = v) : t'.slot k = t.slot k := by
  refine Option.ext fun ⟨e, v⟩ => ?_
  rw [h'.slot_eq_some_iff, h.slot_eq_some_iff, hsame]

/-! ## The operations -/

/-- The three answers of `HashGetFreeEntry`. -/
theorem hashGetFreeEntry_slot_cases (table : HashTableInfo κ ν) (tag : κ) (value : ν) :
    (∃ entry, hashGetFreeEntry table (table.getHashKey tag) tag value
        = (.find, some entry, table) ∧
        table.slot tag = some (entry, (table.element entry).value)) ∨
    (table.slot tag = none ∧ table.freeHashElementList = [] ∧
      hashGetFreeEntry table (table.getHashKey tag) tag value = (.null, none, table)) ∨
    (∃ entry rest, table.slot tag = none ∧ table.freeHashElementList = entry :: rest ∧
      hashGetFreeEntry table (table.getHashKey tag) tag value
        = (.insert, some entry, table.insertEntry tag value entry rest)) := by
  have hslot := slot_eq table tag
  unfold HashTableInfo.chain at hslot
  unfold hashGetFreeEntry
  dsimp only at hslot ⊢
  split
  · rename_i entry hfind
    rw [hfind] at hslot
    exact .inl ⟨entry, rfl, hslot⟩
  · rename_i hfind
    rw [hfind] at hslot
    cases hfree : table.freeHashElementList with
    | nil => exact .inr (.inl ⟨hslot, rfl, by simp [getFromFreeList, hfree]⟩)
    | cons entry rest =>
      exact .inr (.inr ⟨entry, rest, hslot, rfl, by
        simp [getFromFreeList, hfree, HashTableInfo.insertEntry, HashTableInfo.setBucket,
          HashTableInfo.chain]⟩)

theorem hashGetFreeEntry_cases (table : HashTableInfo κ ν) (tag : κ) (value : ν) :
    (∃ entry, hashGetFreeEntry table (table.getHashKey tag) tag value
        = (.find, some entry, table) ∧
        table.lookup tag = some (table.element entry).value) ∨
    (table.lookup tag = none ∧ table.freeHashElementList = [] ∧
      hashGetFreeEntry table (table.getHashKey tag) tag value = (.null, none, table)) ∨
    (∃ entry rest, table.lookup tag = none ∧ table.freeHashElementList = entry :: rest ∧
      hashGetFreeEntry table (table.getHashKey tag) tag value
        = (.insert, some entry, table.insertEntry tag value entry rest)) := by
  rw [lookup_eq_slot]
  rcases hashGetFreeEntry_slot_cases table tag value with ⟨entry, heq,
    hslot⟩ | ⟨hslot, hfree, heq⟩ |
    ⟨entry, rest, hslot, hfree, heq⟩
  · exact .inl ⟨entry, heq, by rw [hslot]; rfl⟩
  · exact .inr (.inl ⟨by rw [hslot]; rfl, hfree, heq⟩)
  · exact .inr (.inr ⟨entry, rest, by rw [hslot]; rfl, hfree, heq⟩)

/-- A key that is not present is inserted; the other keys answer as before. -/
theorem HashTableOk.slot_insertEntry (h : HashTableOk table held) {tag : κ} {value : ν}
    {entry : Nat} {rest : List Nat} (hfree : table.freeHashElementList = entry :: rest)
    (habsent : table.slot tag = none) :
    HashTableOk (table.insertEntry tag value entry rest) held ∧
      ∀ k, (table.insertEntry tag value entry rest).slot k
        = if k = tag then some (entry, value) else table.slot k := by
  have habsent := (h.slot_eq_none_iff tag).mp habsent
  have hok : HashTableOk (table.insertEntry tag value entry rest) held :=
    h.insertEntry hfree habsent
  have hself : (table.insertEntry tag value entry rest).element entry
      = ⟨table.getHashKey tag, tag, value⟩ := Function.update_self _ _ _
  have hold : ∀ p b e, e ∈ table.segBuckets p b →
      (table.insertEntry tag value entry rest).element e = table.element e := fun p b e he =>
    Function.update_of_ne (fun heq => h.disjoint p b e he (by simp [hfree, heq])) _ _
  refine ⟨hok, fun k => ?_⟩
  split
  · rename_i hk
    rw [hk]
    exact (hok.slot_eq_some_iff tag entry value).mpr
      ⟨_, _, mem_insertEntry.mpr (.inl ⟨rfl, rfl, rfl⟩), by rw [hself], by rw [hself]⟩
  · rename_i hk
    refine slot_congr h hok fun e v => ?_
    constructor
    · rintro ⟨p, b, he, htag, hv⟩
      exact ⟨p, b, mem_insertEntry.mpr (.inr he), by rw [hold p b e he, htag],
        by rw [hold p b e he, hv]⟩
    · rintro ⟨p, b, he, htag, hv⟩
      rcases mem_insertEntry.mp he with ⟨rfl, -, -⟩ | he
      · rw [hself] at htag
        exact absurd htag.symm hk
      · rw [hold p b e he] at htag hv
        exact ⟨p, b, he, htag, hv⟩

theorem HashTableOk.lookup_insertEntry (h : HashTableOk table held) {tag : κ} {value : ν}
    {entry : Nat} {rest : List Nat} (hfree : table.freeHashElementList = entry :: rest)
    (habsent : table.lookup tag = none) :
    HashTableOk (table.insertEntry tag value entry rest) held ∧
      ∀ k, (table.insertEntry tag value entry rest).lookup k
        = if k = tag then some value else table.lookup k := by
  rw [lookup_eq_slot, Option.map_eq_none_iff] at habsent
  have hslot : HashTableOk (table.insertEntry tag value entry rest) held ∧
      ∀ k, (table.insertEntry tag value entry rest).slot k
        = if k = tag then some (entry, value) else table.slot k :=
          h.slot_insertEntry hfree habsent
  refine ⟨hslot.1, fun k => ?_⟩
  rw [lookup_eq_slot, hslot.2 k, lookup_eq_slot]
  split <;> rfl

/-- The two answers of `hashUnlinkEntry`. -/
theorem hashUnlinkEntry_cases (table : HashTableInfo κ ν) (tag : κ) :
    (∃ entry, getHashEntryFromBucket table (table.chain tag) (table.getHashKey tag) tag
        = some entry ∧
      hashUnlinkEntry table (table.getHashKey tag) tag
        = (some entry, table.removeEntry tag
            ((table.chain tag).eraseP (hashMatches table (table.getHashKey tag) tag)))) ∨
    (table.lookup tag = none ∧
      hashUnlinkEntry table (table.getHashKey tag) tag = (none, table)) := by
  have hlookup := lookup_eq table tag
  cases hfind : getHashEntryFromBucket table (table.chain tag) (table.getHashKey tag) tag with
  | some entry =>
    refine .inl ⟨entry, rfl, ?_⟩
    unfold HashTableInfo.chain getHashEntryFromBucket at hfind
    simp only [hashUnlinkEntry, deleteHashEntryFromBucket, hfind]
    rfl
  | none =>
    rw [hfind] at hlookup
    refine .inr ⟨hlookup, ?_⟩
    unfold HashTableInfo.chain getHashEntryFromBucket at hfind
    simp only [hashUnlinkEntry, deleteHashEntryFromBucket, hfind]

theorem hashUnlinkEntry_maxNum (table : HashTableInfo κ ν) (tag : κ) :
    (hashUnlinkEntry table (table.getHashKey tag) tag).2.maxNum = table.maxNum := by
  rcases hashUnlinkEntry_cases table tag with ⟨entry, -, heq⟩ | ⟨-, heq⟩
  · rw [heq]
    rfl
  · rw [heq]

/-- The element that is unlinked was in a bucket. -/
theorem HashTableOk.unlinked_mem (h : HashTableOk table held) {tag : κ} {e : Nat}
    (hunlink : (hashUnlinkEntry table (table.getHashKey tag) tag).1 = some e) :
    ∃ p b, e ∈ table.segBuckets p b := by
  rcases hashUnlinkEntry_cases table tag with ⟨e', hfind, heq⟩ | ⟨-, heq⟩
  · rw [heq] at hunlink
    cases hunlink
    exact ⟨_, _, ((h.find_eq_some_iff tag e).mp hfind).1⟩
  · rw [heq] at hunlink
    cases hunlink

/-- Unlinking the element of a key makes that key absent. -/
theorem HashTableOk.slot_removeEntry (h : HashTableOk table held) {tag : κ} {entry : Nat}
    (hfind : getHashEntryFromBucket table (table.chain tag) (table.getHashKey tag) tag
      = some entry) :
    let table' := table.removeEntry tag
      ((table.chain tag).eraseP (hashMatches table (table.getHashKey tag) tag))
    (HashTableOk table' fun e => held e ∨ e = entry) ∧
      ∀ k, table'.slot k = if k = tag then none else table.slot k := by
  obtain ⟨hentry, htag⟩ := (h.find_eq_some_iff tag entry).mp hfind
  have honly : ∀ x ∈ table.chain tag, hashMatches table (table.getHashKey tag) tag x = true →
      x = entry := by
    intro x hx hmatch
    simp only [hashMatches, Bool.and_eq_true, decide_eq_true_eq] at hmatch
    exact h.unique _ _ x entry hx hentry (hmatch.2.trans htag.symm)
  have hbucket := mem_eraseP_iff (h.chain_nodup _ _) hfind honly
  have hnodup := (h.chain_nodup _ _).sublist
    (List.eraseP_sublist (p := hashMatches table (table.getHashKey tag) tag)
      (l := table.chain tag))
  have hok := h.removeEntry hentry hnodup hbucket
  have hmem : ∀ {p b e : Nat}, e ∈ (table.removeEntry tag
      ((table.chain tag).eraseP (hashMatches table (table.getHashKey tag) tag))).segBuckets p
        b ↔
      e ∈ table.segBuckets p b ∧ e ≠ entry := mem_removeEntry h hentry hbucket
  refine ⟨hok, fun k => ?_⟩
  split
  · rename_i hk
    refine (hok.slot_eq_none_iff k).mpr fun p b e he hek => ?_
    have hek : (table.element e).tag = tag := hek.trans hk
    obtain ⟨he, hne⟩ := hmem.mp he
    refine hne (h.unique _ _ e entry ?_ hentry (hek.trans htag.symm))
    exact hek ▸ h.mem_chain he
  · rename_i hk
    refine slot_congr h hok fun e v => ?_
    constructor
    · rintro ⟨p, b, he, hek, hv⟩
      refine ⟨p, b, hmem.mpr ⟨he, ?_⟩, hek, hv⟩
      rintro rfl
      exact hk (hek.symm.trans htag)
    · rintro ⟨p, b, he, hek, hv⟩
      exact ⟨p, b, (hmem.mp he).1, hek, hv⟩

theorem HashTableOk.lookup_removeEntry (h : HashTableOk table held) {tag : κ} {entry : Nat}
    (hfind : getHashEntryFromBucket table (table.chain tag) (table.getHashKey tag) tag
      = some entry) :
    let table' := table.removeEntry tag
      ((table.chain tag).eraseP (hashMatches table (table.getHashKey tag) tag))
    (HashTableOk table' fun e => held e ∨ e = entry) ∧
      ∀ k, table'.lookup k = if k = tag then none else table.lookup k := by
  obtain ⟨hok, hslot⟩ := h.slot_removeEntry hfind
  refine ⟨hok, fun k => ?_⟩
  rw [lookup_eq_slot, hslot k, lookup_eq_slot]
  split <;> rfl

/-- `hashUnlinkEntry` makes its key absent; the other keys answer as before. -/
theorem HashTableOk.lookup_hashUnlinkEntry (h : HashTableOk table held) (tag : κ) :
    let r := hashUnlinkEntry table (table.getHashKey tag) tag
    (HashTableOk r.2 fun e => held e ∨ r.1 = some e) ∧
      ∀ k, r.2.lookup k = if k = tag then none else table.lookup k := by
  rcases hashUnlinkEntry_cases table tag with ⟨entry, hfind, heq⟩ | ⟨hnone, heq⟩
  · rw [heq]
    obtain ⟨hok, hlookup⟩ := h.lookup_removeEntry hfind
    refine ⟨?_, hlookup⟩
    simpa only [Option.some.injEq, eq_comm] using hok
  · rw [heq]
    refine ⟨by simpa only [reduceCtorEq, or_false] using h, fun k => ?_⟩
    split
    · rename_i hk
      rw [hk]; exact hnone
    · rfl

end Toadb
