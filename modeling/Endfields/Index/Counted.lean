import Endfields.Index.Map
import Endfields.Model.Execute

/-!
# Counted keys

The index commands of `ef_execute` take a key with its length in front, copy it into a C string, and
the index measures that string again.

The index functions know a key by the hash of its C string only: `Db.indexPutAt`, `Db.indexGetAt`
and `Db.indexRemoveAt` are what they do for that hash.

* `Addresses key h`: the three commands act, on every handle, on the entry of the hash `h`. Every
  key addresses the entry of its bytes before the first zero byte (`addresses_cString`), and no
  other one (`Addresses.unique`).
* **`efExecute_honours_iff`**: keys address the entries of their own hashes, and keys with different
  hashes different entries, exactly if the bytes before their first zero bytes hash like the whole
  keys.
* `efExecute_confuses_keys`: two keys with a zero byte, one of which is found as the other.
-/

namespace Endfields.Model

open Endfields.Lib

namespace Db

/-! ### The entry of a hash -/

/-- The return value of a lookup command. -/
def retFound : Except Err ℕ → Ret
  | .error _ => .null
  | .ok found => .slotId found

end Db

/-! ### Keys in the caller's memory -/

/-- A key with its length in front, and whatever the caller's memory holds behind it.
Source: `endfields.h`, the comment on the index opcodes -/
def countedKey (key rest : List UInt8) : List UInt8 := UInt8.ofNat key.length :: (key ++ rest)

variable {key key' : List UInt8} {h : ℕ}

/-- The heap buffer holds the key and a zero byte. -/
lemma executeKey_countedKey (hlen : key.length ≤ 255) (rest : List UInt8) :
    executeKey (countedKey key rest) = key ++ [0] := by
  unfold executeKey countedKey
  have hcount : (UInt8.ofNat key.length).toNat = key.length := by
    rw [UInt8.toNat_ofNat']
    exact Nat.mod_eq_of_lt (by omega)
  rw [List.tail_cons, List.headD_cons, hcount, List.take_left']
  rfl

/-- The zero byte behind the key does not change its C string. -/
lemma cString_append_zero (key : List UInt8) : cString (key ++ [0]) = cString key := by
  unfold cString
  induction key with
  | nil => rfl
  | cons b key ih =>
      rw [List.cons_append, List.takeWhile_cons, List.takeWhile_cons, ih]

/-- **The index commands act on the entry of the key hash `h`**, on every handle and with any slot
parameter and memory behind the key. -/
structure Addresses (key : List UInt8) (h : ℕ) : Prop where
  put : ∀ (db : Db) (rest : List UInt8) (slotId field : ℕ), db.env.mallocFails = false →
    ((db.efExecute ⟨0x10, slotId, field⟩ (some (countedKey key rest))).ret,
      (db.efExecute ⟨0x10, slotId, field⟩ (some (countedKey key rest))).db) =
        Db.retSlotIfOk slotId (db.indexPutAt h slotId)
  get : ∀ (db : Db) (rest : List UInt8) (param field : ℕ), db.env.mallocFails = false →
    (db.efExecute ⟨0x11, param, field⟩ (some (countedKey key rest))).ret = Db.retFound (db.indexGetAt h)
  remove : ∀ (db : Db) (rest : List UInt8) (param field : ℕ), db.env.mallocFails = false →
    ((db.efExecute ⟨0x12, param, field⟩ (some (countedKey key rest))).ret,
      (db.efExecute ⟨0x12, param, field⟩ (some (countedKey key rest))).db) =
        Db.retDoneIfOk (db.indexRemoveAt h)

/-- The index hashes the bytes before the first zero byte. -/
lemma addresses_cString (hlen : key.length ≤ 255) : Addresses key (efKeyHash (cString key)) := by
  have hbuf : ∀ rest, cString (executeKey (countedKey key rest)) = cString key := by
    intro rest
    rw [executeKey_countedKey hlen, cString_append_zero]
  refine ⟨?_, ?_, ?_⟩
  · intro db rest slotId field hmalloc
    rw [← hbuf rest]
    unfold Db.efExecute
    rw [show Opcode.ofByte 0x10 = some .indexPut from rfl]
    simp only [hmalloc, Bool.false_eq_true, if_false]
    rfl
  · intro db rest param field hmalloc
    rw [← hbuf rest]
    unfold Db.efExecute
    rw [show Opcode.ofByte 0x11 = some .indexGet from rfl]
    simp only [hmalloc, Bool.false_eq_true, if_false]
    unfold Db.efIndexGet
    cases db.indexGetAt (efKeyHash (cString (executeKey (countedKey key rest)))) <;> rfl
  · intro db rest param field hmalloc
    rw [← hbuf rest]
    unfold Db.efExecute
    rw [show Opcode.ofByte 0x12 = some .indexRemove from rfl]
    simp only [hmalloc, Bool.false_eq_true, if_false]
    rfl

/-! ### One entry for each key -/

/-- A database whose only entry maps the key hash `h` to slot 0. -/
def soleEntry (h : ℕ) : Db := (Db.newMemory 1 16).setEntry (efHashHome 16 h) ⟨h, 320⟩

lemma soleEntry_facts : (Db.newMemory 1 16).hashCapacity = 16 ∧ (Db.newMemory 1 16).indexSeq = 0 ∧
    (Db.newMemory 1 16).env.mallocFails = false ∧ (Db.newMemory 1 16).sb.maxSlots = 1 ∧
      ∀ p, p < 16 → ((Db.newMemory 1 16).entry p).empty = true := by
  decide +kernel

variable {k : ℕ}

/-- Its buckets. -/
lemma entry_soleEntry (hh : h < u64) {p : ℕ} (hp : p < 16) :
    (p = efHashHome 16 h → (soleEntry h).entry p = ⟨h, 320⟩) ∧
      (p ≠ efHashHome 16 h → ((soleEntry h).entry p).empty = true) := by
  obtain ⟨-, -, -, -, hempty⟩ := soleEntry_facts
  unfold soleEntry
  rw [Db.entry_setEntry]
  refine ⟨?_, ?_⟩
  · intro heq
    rw [if_pos heq, Nat.mod_eq_of_lt hh]
    rfl
  · intro hne
    rw [if_neg hne]
    exact hempty p hp

lemma notEmpty_sole (h : ℕ) : ¬ (⟨h, 320⟩ : HashEntry).empty = true := by
  unfold HashEntry.empty
  simp only [decide_eq_true_eq]
  norm_num

lemma hashCapacity_soleEntry (h : ℕ) : (soleEntry h).hashCapacity = 16 := soleEntry_facts.1

/-- The entry is found. -/
lemma efIndexFindEntryUnlocked_soleEntry (hh : h < u64) :
    (soleEntry h).efIndexFindEntryUnlocked h = .ok ⟨h, 320⟩ := by
  have hlt : efHashHome 16 h < 16 := Db.efHashHome_lt (by decide) h
  have hentry := (entry_soleEntry hh hlt).1 rfl
  unfold Db.efIndexFindEntryUnlocked
  rw [hashCapacity_soleEntry, if_neg (by decide)]
  have hfind : (soleEntry h).findLoop h 16 (efHashHome 16 h) = some (efHashHome 16 h) := by
    unfold Db.findLoop
    rw [hashCapacity_soleEntry, Nat.mod_eq_of_lt hlt, hentry]
    exact (if_neg (notEmpty_sole h)).trans (if_pos rfl)
  rw [hfind]
  exact congrArg Except.ok hentry

/-- No other entry is. -/
lemma efIndexFindEntryUnlocked_soleEntry_of_ne (hh : h < u64) (hne : k ≠ h) :
    (soleEntry h).efIndexFindEntryUnlocked k = .error .notFound := by
  have hlt : efHashHome 16 k < 16 := Db.efHashHome_lt (by decide) k
  have hnext : (efHashHome 16 k + 1) % 16 < 16 := Nat.mod_lt _ (by decide)
  -- a probe ends at the first empty bucket, which is the home of the key or the bucket behind it
  have hfind : (soleEntry h).findLoop k 16 (efHashHome 16 k) = none := by
    unfold Db.findLoop
    rw [hashCapacity_soleEntry, Nat.mod_eq_of_lt hlt]
    by_cases hhome : efHashHome 16 k = efHashHome 16 h
    · have hsole := (entry_soleEntry hh hlt).1 hhome
      have hempty := (entry_soleEntry hh hnext).2 (by omega)
      rw [hsole]
      refine (if_neg (notEmpty_sole h)).trans ((if_neg (Ne.symm hne)).trans ?_)
      unfold Db.findLoop
      rw [hashCapacity_soleEntry]
      exact if_pos hempty
    · exact if_pos ((entry_soleEntry hh hlt).2 hhome)
  unfold Db.efIndexFindEntryUnlocked
  rw [hashCapacity_soleEntry, if_neg (by decide), hfind]

/-- A bucket lies behind the superblock. -/
lemma maxSlots_setEntry (db : Db) (b : ℕ) (e : HashEntry) :
    (db.setEntry b e).sb.maxSlots = db.sb.maxSlots := by
  refine load_congr ?_
  intro x _ hx
  exact (store_apply_of_outside (by omega)).trans (store_apply_of_outside (by omega))

/-- Lookups at two hashes differ on some handle. -/
lemma indexGetAt_soleEntry (hh : h < u64) :
    (soleEntry h).indexGetAt h = .ok 0 ∧ ∀ k, k ≠ h → (soleEntry h).indexGetAt k =
        .error .notFound := by
  obtain ⟨-, hseq, -, hmax, -⟩ := soleEntry_facts
  have hseq' : (soleEntry h).indexSeq = 0 := by
    unfold soleEntry
    generalize Db.newMemory 1 16 = db at hseq
    exact hseq
  have hstable : ∀ k, (soleEntry h).efIndexFindEntry k = (soleEntry h).efIndexFindEntryUnlocked k := by
    intro k
    unfold Db.efIndexFindEntry
    rw [hashCapacity_soleEntry, if_neg (by decide), hseq', if_neg (show ¬ 0 % 2 = 1 by decide),
        ite_self]
  have hmax' : (soleEntry h).sb.maxSlots = 1 := (maxSlots_setEntry _ _ _).trans hmax
  have hbase : (soleEntry h).slotsBase = 320 := by
    rw [(soleEntry h).slotsBase_eq, hashCapacity_soleEntry]
  refine ⟨?_, ?_⟩
  · unfold Db.indexGetAt
    rw [hstable, efIndexFindEntryUnlocked_soleEntry hh]
    simp only
    unfold Db.efOffsetToSlotId
    rw [hbase, hmax']
    rfl
  · intro k hne
    unfold Db.indexGetAt
    rw [hstable, efIndexFindEntryUnlocked_soleEntry_of_ne hh hne]

/-- **A key addresses one entry only.** -/
lemma Addresses.unique (hlen : key.length ≤ 255) (ha : Addresses key h) : h = efKeyHash
    (cString key) := by
  obtain ⟨-, -, hmalloc, -, -⟩ := soleEntry_facts
  by_contra hne
  obtain ⟨hfound, hother⟩ := indexGetAt_soleEntry (Db.efKeyHash_lt (cString key))
  have hget := ha.get (soleEntry (efKeyHash (cString key))) [] 0 0 hmalloc
  have hget' := (addresses_cString hlen).get (soleEntry (efKeyHash (cString key))) [] 0 0 hmalloc
  rw [hget, hfound, hother h hne] at hget'
  cases hget'

/-- **Counted keys are honoured up to their first zero byte.** -/
theorem efExecute_honours_iff (hlen : key.length ≤ 255) (hlen' : key'.length ≤ 255) :
    ((Addresses key (efKeyHash key) ∧ Addresses key' (efKeyHash key')) ∧
      (efKeyHash key ≠ efKeyHash key' → ¬ ∃ h, Addresses key h ∧ Addresses key' h)) ↔
      efKeyHash (cString key) = efKeyHash key ∧ efKeyHash (cString key') = efKeyHash key' := by
  refine ⟨?_, ?_⟩
  · rintro ⟨⟨ha, ha'⟩, -⟩
    exact ⟨(ha.unique hlen).symm, (ha'.unique hlen').symm⟩
  · rintro ⟨hsame, hsame'⟩
    refine ⟨⟨hsame ▸ addresses_cString hlen, hsame' ▸ addresses_cString hlen'⟩, ?_⟩
    rintro hne ⟨h, ha, ha'⟩
    rw [← hsame, ← hsame'] at hne
    exact hne ((ha.unique hlen).symm.trans (ha'.unique hlen'))

/-- Two keys without a zero byte. -/
theorem efExecute_honours_of_text :
    ((Addresses [97] (efKeyHash [97]) ∧ Addresses [98] (efKeyHash [98])) ∧
      (efKeyHash [97] ≠ efKeyHash [98] → ¬ ∃ h, Addresses [97] h ∧ Addresses [98] h)) ↔
      efKeyHash (cString [97]) = efKeyHash [97] ∧ efKeyHash (cString [98]) = efKeyHash [98] :=
  efExecute_honours_iff (by decide) (by decide)

/-- `a\0b` is put, and `a\0c` is found. -/
theorem efExecute_confuses_keys :
    let put := (Db.newMemory 1 16).efAllocSlot.2.2.efExecute ⟨0x10, 0, 0⟩
        (some (countedKey [97, 0, 98] []))
    efKeyHash [97, 0, 98] ≠ efKeyHash [97, 0, 99] ∧ put.ret = .pointer 320 ∧
      (put.db.efExecute ⟨0x11, 0, 0⟩ (some (countedKey [97, 0, 99] []))).ret = .slotId 0 := by
  decide +kernel

end Endfields.Model
