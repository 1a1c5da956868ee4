import Endfields.Blob.Runs
import Endfields.Model.Visit

/-!
# What a walk over the slots shows

`ef_foreach_used`, `ef_slot_iter_next` and `ef_blob_size` in the states of a run on blobs.

* `Db.usedFrom`: the slots that a walk meets; `foreachUsedLoop_eq` and `slotIterLoop_eq` read the
  two loops off it.
* `Db.slotIterCalls`: what an iterator answers to one call after the other.
* **`blobRun_visits`**: both walks show the heads, in order, and nothing else, and the size of a
  slot is that of its blob.
-/

namespace Endfields.Model

open Endfields.Lib

namespace Db

/-- The slots among the `n` from `i` on with the status of a head, in order. -/
def usedFrom (db : Db) (i n : ℕ) : List ℕ :=
  (List.range' i n).filter fun j => (db.slot j).status = statusUsed

/-- The answers of an iterator at `index` to `n` calls of `ef_slot_iter_next`. -/
def slotIterCalls (db : Db) : ℕ → ℕ → List IterStep
  | 0, _ => []
  | n + 1, index =>
      let (step, index, db) := db.efSlotIterNext index
      step :: db.slotIterCalls n index

/-- No walk meets a slot whose checksum is wrong. -/
def UsedValid (db : Db) : Prop :=
  ∀ j, j < db.sb.maxSlots → (db.slot j).status = statusUsed →
    db.efSlotHeaderCrcValid j (db.slot j) = true

variable {db : Db} {st : BlobStore} {fn : ℕ → Bool} {g : Geometry} {l : List ℕ} {ch : ℕ → List ℕ}
  {i j n : ℕ}

lemma usedFrom_succ_used (h : (db.slot i).status = statusUsed) :
    db.usedFrom i (n + 1) = i :: db.usedFrom (i + 1) n := by
  unfold usedFrom
  rw [List.range'_succ, List.filter_cons_of_pos (by rw [decide_eq_true_iff]; exact h)]

lemma usedFrom_succ_other (h : (db.slot i).status ≠ statusUsed) :
    db.usedFrom i (n + 1) = db.usedFrom (i + 1) n := by
  unfold usedFrom
  rw [List.range'_succ, List.filter_cons_of_neg (by rw [decide_eq_true_iff]; exact h)]

lemma usedFrom_append (db : Db) (i a b : ℕ) :
    db.usedFrom i (a + b) = db.usedFrom i a ++ db.usedFrom (i + a) b := by
  unfold usedFrom
  rw [← List.range'_append_1, List.filter_append]

lemma mem_usedFrom : j ∈ db.usedFrom i n ↔ i ≤ j ∧ j < i + n ∧ (db.slot j).status = statusUsed := by
  unfold usedFrom
  rw [List.mem_filter, List.mem_range'_1, decide_eq_true_iff, and_assoc]

/-- The visitor is shown the slots up to the first that it answers with `false`, and that one. -/
lemma foreachUsedLoop_eq (hv : db.UsedValid) (fn : ℕ → Bool) (hn : i + n ≤ db.sb.maxSlots) :
    db.foreachUsedLoop fn n i =
      (.ok, (db.usedFrom i n).takeWhile fn ++ ((db.usedFrom i n).dropWhile fn).take 1) := by
  induction n generalizing i with
  | zero => rfl
  | succ n ih =>
      have hrest := ih (i := i + 1) (by omega)
      unfold foreachUsedLoop
      by_cases hused : (db.slot i).status = statusUsed
      · have hgood : ¬ db.efSlotHeaderCrcValid i (db.slot i) = false := by
          rw [hv i (by omega) hused]
          exact Bool.noConfusion
        rw [if_neg (not_not.mpr hused), if_neg hgood, usedFrom_succ_used hused]
        by_cases hfn : fn i = true
        · rw [if_pos hfn, hrest, List.takeWhile_cons_of_pos hfn, List.dropWhile_cons_of_pos hfn]
          rfl
        · rw [if_neg hfn, List.takeWhile_cons_of_neg hfn, List.dropWhile_cons_of_neg hfn]
          rfl
      · rw [if_pos hused, usedFrom_succ_other hused]
        exact hrest

/-- The iterator finds the first of the slots, and goes on right after it. -/
lemma slotIterLoop_eq (hv : db.UsedValid) (hn : i + n ≤ db.sb.maxSlots) :
    (db.usedFrom i n = [] ∧ db.slotIterLoop n i = (.done, i + n)) ∨
      ∃ j, j < i + n ∧ db.usedFrom i n = j :: db.usedFrom (j + 1) (i + n - (j + 1)) ∧
        db.slotIterLoop n i = (.found j (db.slotPtr j), j + 1) := by
  induction n generalizing i with
  | zero => exact .inl ⟨rfl, rfl⟩
  | succ n ih =>
      unfold slotIterLoop
      by_cases hused : (db.slot i).status = statusUsed
      · have hgood : ¬ db.efSlotHeaderCrcValid i (db.slot i) = false := by
          rw [hv i (by omega) hused]
          exact Bool.noConfusion
        rw [if_neg (not_not.mpr hused), if_neg hgood, usedFrom_succ_used hused]
        refine .inr ⟨i, by omega, ?_, rfl⟩
        rw [show i + (n + 1) - (i + 1) = n by omega]
      · rw [if_pos hused, usedFrom_succ_other hused]
        have hend : i + (n + 1) = i + 1 + n := by omega
        rw [hend]
        exact ih (by omega)

/-- **The iterator** hands out the slots one by one, and then answers `0`. -/
lemma slotIterCalls_eq (hv : db.UsedValid) (n index : ℕ) :
    db.slotIterCalls n index =
      ((db.usedFrom index (db.sb.maxSlots - index)).map (fun i => IterStep.found i (db.slotPtr i)) ++
        List.replicate n IterStep.done).take n := by
  induction n generalizing db index with
  | zero => rfl
  | succ n ih =>
      -- the rest of the calls, on the handle after this one
      have hrest : ∀ (e : Err) (k : ℕ), (db.setError e).slotIterCalls n k =
          ((db.usedFrom k (db.sb.maxSlots - k)).map (fun i => IterStep.found i (db.slotPtr i)) ++
            List.replicate n IterStep.done).take n := fun e k => @ih (db.setError e) hv k
      unfold slotIterCalls efSlotIterNext
      rcases le_total db.sb.maxSlots index with hle | hle
      · -- beyond the last slot there is nothing
        rw [Nat.sub_eq_zero_of_le hle]
        show IterStep.done :: (db.setError .ok).slotIterCalls n index = _
        rw [hrest, Nat.sub_eq_zero_of_le hle]
        rfl
      · have hadd : index + (db.sb.maxSlots - index) = db.sb.maxSlots := Nat.add_sub_cancel' hle
        rcases slotIterLoop_eq hv hadd.le with ⟨hnil, hloop⟩ | ⟨j, -, hcons, hloop⟩
        · rw [hloop, hnil, hadd]
          show IterStep.done :: (db.setError .ok).slotIterCalls n db.sb.maxSlots = _
          rw [hrest, Nat.sub_self]
          rfl
        · rw [hloop, hcons, hadd]
          show IterStep.found j (db.slotPtr j) :: (db.setError .ok).slotIterCalls n (j + 1) = _
          have hlen : ∀ xs : List IterStep, n ≤ (xs ++ List.replicate n IterStep.done).length := by
            intro xs
            rw [List.length_append, List.length_replicate]
            exact Nat.le_add_left n _
          rw [hrest, List.map_cons, List.cons_append, List.take_succ_cons, List.replicate_succ',
            ← List.append_assoc, List.take_append_of_le_length (hlen _)]

/-- The slots from `index` on are those of all that are not before it. -/
lemma usedFrom_eq_filter (db : Db) (index : ℕ) :
    db.usedFrom index (db.sb.maxSlots - index) =
      (db.usedFrom 0 db.sb.maxSlots).filter fun i => index ≤ i := by
  rcases le_total db.sb.maxSlots index with hle | hle
  · rw [Nat.sub_eq_zero_of_le hle]
    refine (List.filter_eq_nil_iff.mpr fun i hi => ?_).symm
    have hlt := (mem_usedFrom.mp hi).2.1
    rw [decide_eq_true_iff]
    omega
  · have hsplit := usedFrom_append db 0 index (db.sb.maxSlots - index)
    rw [Nat.zero_add, Nat.add_sub_cancel' hle] at hsplit
    have hbefore : (db.usedFrom 0 index).filter (fun i => index ≤ i) = [] := by
      refine List.filter_eq_nil_iff.mpr fun i hi => ?_
      have hlt := (mem_usedFrom.mp hi).2.1
      rw [decide_eq_true_iff]
      omega
    have hfrom : (db.usedFrom index (db.sb.maxSlots - index)).filter (fun i => index ≤ i) =
        db.usedFrom index (db.sb.maxSlots - index) := by
      refine List.filter_eq_self.mpr fun i hi => ?_
      exact decide_eq_true (mem_usedFrom.mp hi).1
    rw [hsplit, List.filter_append, hbefore, hfrom, List.nil_append]

/-! ### The heads -/

/-- The slots of a walk are the heads. -/
lemma Stores.mem_usedFrom_iff (h : Stores g (db.view g) l st ch) (i : ℕ) :
    i ∈ db.usedFrom 0 db.sb.maxSlots ↔ st i ≠ none := by
  have hmax : db.sb.maxSlots = g.n := h.chains.maxSlots
  rw [mem_usedFrom, Nat.zero_add, hmax]
  constructor
  · rintro ⟨-, hlt, hused⟩
    rw [slot_eq h.chains.cap hlt] at hused
    rcases h.chains.cover i hlt (by rw [hused]; decide) with hlive | ⟨k, hk⟩
    · exact hlive
    · -- an overflow slot has another status
      rw [(h.chains.overflow k i hk).2] at hused
      exact absurd hused (by decide)
  · intro hi
    obtain ⟨hlt, hused⟩ := h.chains.head i hi
    rw [slot_eq h.chains.cap hlt]
    exact ⟨Nat.zero_le i, hlt, hused⟩

/-- **The size of a slot** is that of the blob of a head, and `0` elsewhere. -/
lemma Stores.efBlobSize_eq (h : Stores g (db.view g) l st ch) (i : ℕ) :
    db.efBlobSize i = (((st i).getD none).getD []).length := by
  have hmax : db.sb.maxSlots = g.n := h.chains.maxSlots
  have hmem := h.mem_usedFrom_iff i
  rw [mem_usedFrom, Nat.zero_add] at hmem
  unfold efBlobSize
  cases hst : st i with
  | none =>
      rw [hst] at hmem
      split_ifs with hout hused
      · rfl
      · rfl
      · -- a slot in use that is no head
        have hlt : i < db.sb.maxSlots := not_le.mp hout
        exact absurd rfl (hmem.mp ⟨Nat.zero_le i, hlt, not_not.mp hused⟩)
  | some x =>
      obtain ⟨-, hlt, hused⟩ := hmem.mpr (by rw [hst]; exact Option.some_ne_none x)
      rw [hmax] at hlt
      rw [if_neg (by omega), if_neg (not_not.mpr hused), slotPtr_eq h.chains.cap]
      exact (header_content h.chains.schema hlt (h.content i x hst)).2

/-- **What a walk shows**: the heads, in order. -/
structure VisitsHeads (st : BlobStore) (db : Db) (heads : List ℕ) : Prop where
  sorted : heads.Pairwise (· < ·)
  mem : ∀ i, i ∈ heads ↔ st i ≠ none
  foreach : ∀ fn : ℕ → Bool, (db.efForeachUsed fn).1 = .ok ∧
    (db.efForeachUsed fn).2.1 = heads.takeWhile fn ++ (heads.dropWhile fn).take 1
  iter : ∀ n index, db.slotIterCalls n index =
    (((heads.filter fun i => index ≤ i).map fun i => IterStep.found i (db.slotPtr i)) ++
      List.replicate n IterStep.done).take n
  size : ∀ i, db.efBlobSize i = (((st i).getD none).getD []).length

/-- **Both walks show the heads**: in every state of a run, when no slot in use has the checksum
`0`, one series holds every head once, in the order of the slots. `ef_foreach_used` shows it to the
visitor, up to and with the first slot that the visitor answers with `0`, and an iterator hands out
its part from where it stands, one slot for each call, and is then at the end. The size of a slot is
that of the blob it is the head of.
Source: `ef_grow.c`, `ef_foreach_used` and `ef_slot_iter_next`; `ef_blob.c`, `ef_blob_size` -/
theorem blobRun_visits (h : BlobRun st db) (hcrc : ∀ j, j < db.sb.maxSlots →
      (db.slot j).status ≠ statusFree → efSlotHeaderCrcCompute j (db.slot j) ≠ 0) :
    ∃ heads, VisitsHeads st db heads := by
  obtain ⟨hrun, -, g, l, ch, hst⟩ := h.stores
  have hvalid : db.UsedValid := by
    intro j hj hused
    refine hrun.slot_valid hj ?_ (hcrc j hj ?_)
    · rw [hused]
      rfl
    · rw [hused]
      decide
  refine ⟨db.usedFrom 0 db.sb.maxSlots, ?_, hst.mem_usedFrom_iff, fun fn => ?_, fun n index => ?_,
    hst.efBlobSize_eq⟩
  · have hlt : (List.range' 0 db.sb.maxSlots).Pairwise (· < ·) := List.pairwise_lt_range'
    exact hlt.filter _
  · unfold efForeachUsed
    rw [foreachUsedLoop_eq hvalid fn (Nat.zero_add _).le]
    exact ⟨rfl, rfl⟩
  · rw [slotIterCalls_eq hvalid, usedFrom_eq_filter]

/-- The walks over a database that holds one blob of two slots. -/
theorem blobRun_visits_withBlob :
    ∃ heads, VisitsHeads (Function.update (Function.update (fun _ => none) 0 (some none)) 0
      (some (some (List.replicate 41 7)))) withBlob heads :=
  blobRun_visits blobRun_withBlob (by decide +kernel)

end Db

end Endfields.Model
