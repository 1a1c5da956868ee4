import Endfields.Spec.Queue

/-!
# The pool of slots

The slots of a database without a hash index, outside transactions and with no lock held: the `FREE`
slots are on the free list, and the queue has slots of its own.

* `Core.Steady c`: a growth of the file, if there is one, succeeds and leaves the mapping at its
  address.
* `View.Calm g v`: the handle is bound to `g`, and nothing but its own calls changes the image.
* `View.Pool g v l q`: the free list is `l` and ends with the link `0`, it holds exactly the `FREE`
  slots, and the queue has the nodes `q`.
* **The steps**: taking the head (`Pool.popSlot`), giving a slot back (`Pool.pushSlot`), claiming a
  slot in the middle (`Pool.claimAt`), writing a slot that is neither free nor in the queue
  (`Pool.setSlot`), appending a new slot (`Pool.append`).
-/

namespace Endfields.Model

open Endfields.Lib

/-! ### What a growth needs of the system -/

namespace Core

variable {c c' c'' : Core}

/-- The address of the mapping. -/
def addr (c : Core) : ℕ :=
  match c.backend with
  | .file => c.mapAddr c.fileSize
  | .memory => 0

/-- No growth of a file fails in a system call. -/
def Unfailing (c : Core) : Prop := c.backend = .file → c.growFileErr = none

/-- A growth of a file does not fail, and leaves the mapping at its address. -/
def Steady (c : Core) : Prop := c.backend = .file →
  c.growFileErr = none ∧ ∀ size, c.fileSize ≤ size → c.mapAddr size = c.mapAddr c.fileSize

/-- The same handle; a file is at least as large. -/
structure Extends (c c' : Core) : Prop where
  isMapped : c'.isMapped = c.isMapped
  backend : c'.backend = c.backend
  growFileErr : c'.growFileErr = c.growFileErr
  mapAddr : c'.mapAddr = c.mapAddr
  fileSize : c.backend = .file → c.fileSize ≤ c'.fileSize

/-- A geometry extends itself. -/
lemma Extends.refl (c : Core) : c.Extends c := ⟨rfl, rfl, rfl, rfl, fun _ => le_rfl⟩

/-- The same geometry extends itself. -/
lemma Extends.of_eq (h : c' = c) : c.Extends c' := h ▸ Extends.refl c

/-- Extensions compose. -/
lemma Extends.trans (h : c.Extends c') (h' : c'.Extends c'') : c.Extends c'' where
  isMapped := h'.isMapped.trans h.isMapped
  backend := h'.backend.trans h.backend
  growFileErr := h'.growFileErr.trans h.growFileErr
  mapAddr := h'.mapAddr.trans h.mapAddr
  fileSize hf := (h.fileSize hf).trans (h'.fileSize (h.backend.trans hf))

/-- A buffer is not mapped again. -/
lemma steady_of_memory (h : c.backend = .memory) : c.Steady := by
  intro hf
  rw [h] at hf
  cases hf

/-- A growth that moves nothing is in particular one that does not fail. -/
lemma Steady.unfailing (h : c.Steady) : c.Unfailing := fun hf => (h hf).1

/-- What a growth needs of the system it still has after one. -/
lemma Steady.extends (h : c.Steady) (he : c.Extends c') : c'.Steady := by
  intro hf
  have hfile : c.backend = .file := he.backend.symm.trans hf
  obtain ⟨herr, haddr⟩ := h hfile
  have hle := he.fileSize hfile
  refine ⟨he.growFileErr.trans herr, fun size hsize => ?_⟩
  rw [he.mapAddr, haddr size (hle.trans hsize), haddr c'.fileSize hle]

/-- The mapping stays where it is. -/
lemma Steady.addr_eq (h : c.Steady) (he : c.Extends c') : c'.addr = c.addr := by
  unfold addr
  rw [he.backend, he.mapAddr]
  rcases hb : c.backend with _ | _
  · exact (h hb).2 _ (he.fileSize hb)
  · rfl

end Core

namespace View

/-- A handle without an index, outside transactions, that no other party interferes with. -/
structure Calm (g : Geometry) (v : View) : Prop extends View.Bound g v where
  mapped : v.core.isMapped = true
  schema : v.sb.schemaVersion = schemaVersion
  noIndex : g.cap = 0
  noTable : v.sb.hashCap = 0
  undoSlots : v.core.undoLogSlots = undoLogDefaultSlots
  idle : v.core.txnActive = false
  quiet : v.core.contention = []
  queueLock : v.sb.queueLock = 0
  indexLock : v.sb.indexWriteLock = 0

variable {g g' : Geometry} {v w : View} {i d : ℕ} {l l₁ l₂ q : List ℕ} {s : Slot} {c : Bool}

/-- The superblock words that a calm handle does not change. -/
structure SameSettings (v w : View) : Prop where
  core : w.core = v.core
  maxSlots : w.sb.maxSlots = v.sb.maxSlots
  schema : w.sb.schemaVersion = v.sb.schemaVersion
  hashCap : w.sb.hashCap = v.sb.hashCap
  queueLock : w.sb.queueLock = v.sb.queueLock
  indexLock : w.sb.indexWriteLock = v.sb.indexWriteLock

/-- The settings alone decide whether nothing stands in the way. -/
lemma Calm.congr (h : v.Calm g) (hw : SameSettings v w) : w.Calm g where
  toBound := h.toBound.congr (by rw [hw.core]) (by rw [hw.core]) (by rw [hw.core]) hw.maxSlots
  mapped := by rw [hw.core]; exact h.mapped
  schema := hw.schema.trans h.schema
  noIndex := h.noIndex
  noTable := hw.hashCap.trans h.noTable
  undoSlots := by rw [hw.core]; exact h.undoSlots
  idle := by rw [hw.core]; exact h.idle
  quiet := by rw [hw.core]; exact h.quiet
  queueLock := hw.queueLock.trans h.queueLock
  indexLock := hw.indexLock.trans h.indexLock

/-- A slot is no part of the settings. -/
lemma Calm.setSlot (h : v.Calm g) (i : ℕ) (s : Slot) : (v.setSlot i s).Calm g :=
  h.congr ⟨rfl, rfl, rfl, rfl, rfl, rfl⟩

/-- Without contention a lock attempt consumes nothing. -/
lemma Calm.tick_eq (h : v.Calm g) : v.tick = v := tick_of_quiet h.quiet

/-- The slots of a calm handle: `l` is the free list, `q` are the nodes of the queue. -/
structure Pool (g : Geometry) (v : View) (l q : List ℕ) : Prop extends View.Calm g v where
  linked : Linked g.idOf (fun i => (v.slots i).nextOffset) v.sb.freeListHead l 0
  nodup : l.Nodup
  mem_iff : ∀ i, i ∈ l ↔ i < g.n ∧ (v.slots i).status = statusFree
  count : g.n < u32 → v.sb.freeCount = l.length
  queue : v.HasQueue g q

/-- The slot is not one of the queue's. -/
def OffQueue (g : Geometry) (v : View) (q : List ℕ) (i : ℕ) : Prop :=
  i ∉ q ∧ v.sb.queueHead ≠ g.ptr i

/-- A slot that is neither QUEUED nor the dummy is off the queue. -/
lemma HasQueue.off_of_status (h : v.HasQueue g q) (hq : (v.slots i).status ≠ statusQueued)
    (hd : (v.slots i).status ≠ statusQueueDummy) : v.OffQueue g q i := by
  rcases h with ⟨h0, rfl⟩ | ⟨d, h⟩
  · refine ⟨List.not_mem_nil, ?_⟩
    rw [h0]
    exact (g.ptr_ne_zero i).symm
  · refine ⟨fun hi => hq (h.queued i hi), ?_⟩
    rw [h.head]
    intro heq
    exact hd (g.ptr_inj heq ▸ h.dummy)

/-- A queue stays what it is when its ends and its own slots do. -/
lemma HasQueue.congr_off (h : v.HasQueue g q) (hhead : w.sb.queueHead = v.sb.queueHead)
    (htail : w.sb.queueTail = v.sb.queueTail)
    (hslots : ∀ j, ¬ v.OffQueue g q j → w.slots j = v.slots j) : w.HasQueue g q := by
  rcases h with ⟨h0, hq⟩ | ⟨d, h⟩
  · exact .inl ⟨hhead.trans h0, hq⟩
  · refine .inr ⟨d, h.congr hhead htail fun i hi => hslots i fun hoff => ?_⟩
    rcases List.mem_cons.mp hi with rfl | hi
    · exact hoff.2 h.head
    · exact hoff.1 hi

/-- A listed slot is a slot of the layout. -/
lemma Pool.lt (h : v.Pool g l q) (hi : i ∈ l) : i < g.n := ((h.mem_iff i).mp hi).1

/-- A listed slot is FREE. -/
lemma Pool.free (h : v.Pool g l q) (hi : i ∈ l) : (v.slots i).status = statusFree :=
  ((h.mem_iff i).mp hi).2

/-- No more slots are listed than there are. -/
lemma Pool.length_le (h : v.Pool g l q) : l.length ≤ g.n := by
  have hsub := h.nodup.subperm fun i hi => List.mem_range.mpr (h.lt hi)
  simpa using hsub.length_le

/-- The list of a larger pool that has the slots of a smaller one is at least as long. -/
lemma Pool.length_le_grown {g' : Geometry} {l' q' : List ℕ} (h : v.Pool g l q) (h' : w.Pool g' l' q')
    (hn : g.n ≤ g'.n) (hslots : ∀ i, i < g.n → w.slots i = v.slots i) : l.length ≤ l'.length := by
  refine (h.nodup.subperm fun i hi => ?_).length_le
  have hlt := h.lt hi
  rw [h'.mem_iff, hslots i hlt]
  exact ⟨lt_of_lt_of_le hlt hn, h.free hi⟩

/-- What an allocation finds at the head of the list. -/
lemma Pool.freeHead (h : v.Pool g l q) (hi : v.freeHead g = some i) : ∃ l', l = i :: l' := by
  have hid : g.idOf v.sb.freeListHead = some i := by
    rw [freeHead_ptr hi]
    exact g.idOf_ptr (freeHead_lt hi)
  cases l with
  | nil =>
      have h0 : v.sb.freeListHead = 0 := h.linked
      rw [h0, g.idOf_zero] at hid
      cases hid
  | cons a l' =>
      have ha := h.linked.1
      rw [hid] at ha
      exact ⟨l', by rw [Option.some.inj ha]⟩

/-- An allocation finds no slot: the list is empty, or the count says so. -/
def Dry (v : View) : Prop := v.sb.freeListHead = 0 ∨ v.sb.freeCount = 0

/-- With a slot on the list and a count above zero, an allocation finds one. -/
lemma Pool.dry_of_freeHead (h : v.Pool g l q) (hnone : v.freeHead g = none) : v.Dry := by
  by_contra hdry
  obtain ⟨hhead, hcount⟩ := not_or.mp hdry
  cases l with
  | nil => exact hhead h.linked
  | cons a l =>
      have hid : g.idOf v.sb.freeListHead = some a := h.linked.1
      unfold View.freeHead at hnone
      rw [if_neg hcount, hid] at hnone
      cases hnone

/-- The list of a pool of less than `2 ^ 32` slots is as long as the count says. -/
lemma Pool.dry_iff (h : v.Pool g l q) (hn : g.n < u32) : v.Dry ↔ l = [] := by
  unfold View.Dry
  rw [h.count hn, List.length_eq_zero_iff, or_iff_right_of_imp]
  intro h0
  cases l with
  | nil => rfl
  | cons a l =>
      have hid : g.idOf v.sb.freeListHead = some a := h.linked.1
      rw [h0, g.idOf_zero] at hid
      cases hid

/-! ### The steps -/

/-- Writing a slot that is neither free nor in the queue, and stays so. -/
lemma Pool.setSlot (h : v.Pool g l q) (hi : (v.slots i).status ≠ statusFree)
    (hs : s.status ≠ statusFree) (hoff : v.OffQueue g q i) : (v.setSlot i s).Pool g l q := by
  have hil : i ∉ l := fun hm => hi (h.free hm)
  refine ⟨h.toCalm.setSlot i s, ?_, h.nodup, fun j => ?_, h.count, ?_⟩
  · refine h.linked.mono fun o a ha ho => ⟨ho, ?_⟩
    have hai : a ≠ i := fun heq => hil (heq ▸ ha)
    rw [setSlot_slots, Function.update_of_ne hai]
  · rw [setSlot_slots, Function.update_apply, h.mem_iff j]
    split_ifs with hji
    · simp only [hji, hi, hs]
    · rfl
  · refine h.queue.congr_off rfl rfl fun j hj => ?_
    have hji : j ≠ i := fun heq => hj (heq ▸ hoff)
    rw [setSlot_slots, Function.update_of_ne hji]

/-- A slot given up by the free list: the list without it, the slot in use. -/
lemma Pool.take (h : v.Pool g (l₁ ++ i :: l₂) q) (hset : SameSettings v w)
    (hqh : w.sb.queueHead = v.sb.queueHead) (hqt : w.sb.queueTail = v.sb.queueTail)
    (hcount : w.sb.freeCount = v.sb.freeCount - 1)
    (hlinked : Linked g.idOf (fun j => (w.slots j).nextOffset) w.sb.freeListHead (l₁ ++ l₂) 0)
    (hused : (w.slots i).status = statusUsed)
    (hstatus : ∀ j, j ≠ i → (w.slots j).status = (v.slots j).status)
    (hslots : ∀ j, (v.slots j).status ≠ statusFree → w.slots j = v.slots j) :
    w.Pool g (l₁ ++ l₂) q := by
  have hnd : (i :: (l₁ ++ l₂)).Nodup := (List.perm_middle.nodup_iff).mp h.nodup
  obtain ⟨hni, hnd'⟩ := List.nodup_cons.mp hnd
  refine ⟨h.toCalm.congr hset, hlinked, hnd', fun j => ?_, fun hn => ?_, ?_⟩
  · by_cases hji : j = i
    · subst hji
      simp [hni, hused]
    · rw [hstatus j hji, ← h.mem_iff j]
      simp [hji]
  · rw [hcount, h.count hn]
    simp
  · refine h.queue.congr_off hqh hqt fun j hj => hslots j fun hfree => ?_
    exact hj (h.queue.off_of_status (by rw [hfree]; simp) (by rw [hfree]; simp))

/-- Taking the head of the list. -/
lemma Pool.popSlot (h : v.Pool g (i :: l) q) : (v.popSlot c i).Pool g l q := by
  obtain ⟨hni, -⟩ := List.nodup_cons.mp h.nodup
  have hfree := h.free List.mem_cons_self
  have h' : v.Pool g ([] ++ i :: l) q := h
  refine h'.take ⟨rfl, rfl, rfl, rfl, rfl, rfl⟩ rfl rfl rfl ?_ ?_ ?_ ?_
  · rw [popSlot_head]
    refine h.linked.2.mono fun o a ha ho => ⟨ho, ?_⟩
    rw [popSlot_next, if_neg]
    rintro rfl
    exact hni ha
  · rw [popSlot_status, if_pos rfl]
  · intro j hj
    rw [popSlot_status, if_neg hj]
  · intro j hj
    have hji : j ≠ i := by
      rintro rfl
      exact hj hfree
    unfold View.popSlot
    rw [setSlot_slots, Function.update_of_ne hji]
    rfl

/-- Take slot `i` out of the list behind its predecessor `d`. -/
def claimAt (v : View) (d i : ℕ) : View :=
  (((v.setSb (v.sb.setFreeCount (v.sb.freeCount - 1))).setSlot d
    { v.slots d with nextOffset := (v.slots i).nextOffset })).setSlot i (v.allocated false i)

/-- A claim touches the claimed slot and its predecessor alone.
Source: `endfields.c`, `ef_alloc_slot` -/
lemma claimAt_slots_of_ne {j : ℕ} (hd : j ≠ d) (hi : j ≠ i) : (v.claimAt d i).slots j = v.slots j := by
  unfold View.claimAt
  rw [setSlot_slots, Function.update_of_ne hi, setSlot_slots, Function.update_of_ne hd]
  rfl

/-- A claim makes the claimed slot USED.
Source: `endfields.c`, `ef_alloc_slot` -/
lemma claimAt_status (hdi : d ≠ i) (j : ℕ) :
    ((v.claimAt d i).slots j).status = if j = i then statusUsed else (v.slots j).status := by
  by_cases hji : j = i
  · unfold View.claimAt
    rw [if_pos hji, hji, setSlot_slots, Function.update_self]
    exact Slot.sealed_status _ _ _
  rw [if_neg hji]
  by_cases hjd : j = d
  · subst hjd
    unfold View.claimAt
    rw [setSlot_slots, Function.update_of_ne hji, setSlot_slots, Function.update_self]
  · rw [claimAt_slots_of_ne hjd hji]

/-- The links of the list without the claimed slot. -/
lemma claimAt_linked {z : ℕ} (hl : Linked g.idOf (fun j => (v.slots j).nextOffset) v.sb.freeListHead
      (l₁ ++ d :: i :: l₂) z) (hnd : (l₁ ++ d :: i :: l₂).Nodup) :
    Linked g.idOf (fun j => ((v.claimAt d i).slots j).nextOffset) (v.claimAt d i).sb.freeListHead
      (l₁ ++ d :: l₂) z := by
  obtain ⟨-, hnd₂, hdisj⟩ := List.nodup_append.mp hnd
  obtain ⟨hd, hnd₃⟩ := List.nodup_cons.mp hnd₂
  obtain ⟨hi, -⟩ := List.nodup_cons.mp hnd₃
  have hdi : d ≠ i := fun heq => hd (heq ▸ List.mem_cons_self)
  have hnextd : ((v.claimAt d i).slots d).nextOffset = (v.slots i).nextOffset := by
    unfold View.claimAt
    rw [setSlot_slots, Function.update_of_ne hdi, setSlot_slots, Function.update_self]
  obtain ⟨y, hm, hn⟩ := linked_append.mp hl
  refine linked_append.mpr ⟨y, hm.mono fun o a ha ho => ⟨ho, ?_⟩, hn.1, ?_⟩
  · rw [claimAt_slots_of_ne (hdisj a ha d List.mem_cons_self)
      (hdisj a ha i (List.mem_cons_of_mem d List.mem_cons_self))]
  · show Linked _ _ ((v.claimAt d i).slots d).nextOffset l₂ z
    rw [hnextd]
    refine hn.2.2.mono fun o a ha ho => ⟨ho, ?_⟩
    have had : a ≠ d := fun heq => hd (heq ▸ List.mem_cons_of_mem i ha)
    have hai : a ≠ i := fun heq => hi (heq ▸ ha)
    rw [claimAt_slots_of_ne had hai]

/-- Claiming a slot in the middle of the list. -/
lemma Pool.claimAt (h : v.Pool g (l₁ ++ d :: i :: l₂) q) :
    (v.claimAt d i).Pool g (l₁ ++ d :: l₂) q := by
  have h' : v.Pool g ((l₁ ++ [d]) ++ i :: l₂) q := by
    rw [List.append_assoc]
    exact h
  have hdi : d ≠ i := by
    rintro rfl
    exact (List.nodup_cons.mp (List.nodup_append.mp h.nodup).2.1).1 List.mem_cons_self
  have hres : (v.claimAt d i).Pool g ((l₁ ++ [d]) ++ l₂) q := by
    refine h'.take ⟨rfl, rfl, rfl, rfl, rfl, rfl⟩ rfl rfl rfl ?_ ?_ ?_ ?_
    · rw [List.append_assoc]
      exact claimAt_linked h.linked h.nodup
    · rw [claimAt_status hdi, if_pos rfl]
    · intro j hj
      rw [claimAt_status hdi, if_neg hj]
    · intro j hj
      refine claimAt_slots_of_ne ?_ ?_
      · rintro rfl
        exact hj (h.free (by simp))
      · rintro rfl
        exact hj (h.free (by simp))
  rw [List.append_assoc] at hres
  exact hres

/-- Giving a slot back. -/
lemma Pool.pushSlot (h : v.Pool g l q) (hi : i < g.n) (hst : (v.slots i).status ≠ statusFree)
    (hoff : v.OffQueue g q i) : (v.pushSlot g i).Pool g (i :: l) q := by
  have hil : i ∉ l := fun hm => hst (h.free hm)
  refine ⟨h.toCalm.congr ⟨rfl, rfl, rfl, rfl, rfl, rfl⟩, ⟨g.idOf_ptr hi, ?_⟩, List.nodup_cons.mpr
      ⟨hil, h.nodup⟩,
    fun j => ?_, fun hn => ?_, ?_⟩
  · show Linked _ _ ((v.pushSlot g i).slots i).nextOffset l 0
    rw [pushSlot_slots_self]
    refine h.linked.mono fun o a ha ho => ⟨ho, ?_⟩
    have hai : a ≠ i := fun heq => hil (heq ▸ ha)
    rw [pushSlot_slots_of_ne hai]
  · by_cases hji : j = i
    · subst hji
      rw [pushSlot_slots_self]
      simp [hi, released]
    · rw [pushSlot_slots_of_ne hji, ← h.mem_iff j]
      simp [hji]
  · have hlen : (i :: l).length ≤ g.n := by
      have hnd := List.nodup_cons.mpr ⟨hil, h.nodup⟩
      have hsub := hnd.subperm fun j hj => List.mem_range.mpr (show j < g.n by
        rcases List.mem_cons.mp hj with rfl | hj
        · exact hi
        · exact h.lt hj)
      simpa using hsub.length_le
    show (v.sb.freeCount + 1) % u32 = _
    rw [h.count hn, List.length_cons] at *
    exact Nat.mod_eq_of_lt (by omega)
  · refine h.queue.congr_off rfl rfl fun j hj => ?_
    exact pushSlot_slots_of_ne fun heq => hj (heq ▸ hoff)

/-! ### Growth -/

/-- Halfway through a growth: the pool of the first `m` slots; the slots behind them are still to be
appended. -/
structure Growing (g : Geometry) (v : View) (m : ℕ) (l q : List ℕ) : Prop extends View.Calm g v where
  linked : Linked g.idOf (fun i => (v.slots i).nextOffset) v.sb.freeListHead l 0
  nodup : l.Nodup
  mem_iff : ∀ i, i ∈ l ↔ i < m ∧ (v.slots i).status = statusFree
  count : g.n < u32 → v.sb.freeCount = l.length
  queue : v.HasQueue g q
  below : ∀ i, ¬ v.OffQueue g q i → i < m

/-- A growth that has come to its end leaves a pool.
Source: `ef_grow.c`, `ef_grow` -/
lemma Growing.pool (h : v.Growing g g.n l q) : v.Pool g l q :=
  ⟨h.toCalm, h.linked, h.nodup, h.mem_iff, h.count, h.queue⟩

/-- Appending slot `m`. -/
lemma Growing.append {m : ℕ} (h : v.Growing g m l q) (hm : m < g.n) :
    (v.pushSlot g m).Growing g (m + 1) (m :: l) q := by
  have hml : m ∉ l := fun hmem => absurd ((h.mem_iff m).mp hmem).1 (lt_irrefl m)
  have hoff : v.OffQueue g q m := by
    by_contra hc
    exact absurd (h.below m hc) (lt_irrefl m)
  have hnd := List.nodup_cons.mpr ⟨hml, h.nodup⟩
  refine ⟨h.toCalm.congr ⟨rfl, rfl, rfl, rfl, rfl, rfl⟩, ⟨g.idOf_ptr hm, ?_⟩, hnd, fun j => ?_,
    fun hn => ?_, ?_, fun j hj => ?_⟩
  · show Linked _ _ ((v.pushSlot g m).slots m).nextOffset l 0
    rw [pushSlot_slots_self]
    refine h.linked.mono fun o a ha ho => ⟨ho, ?_⟩
    have ham : a ≠ m := fun heq => hml (heq ▸ ha)
    rw [pushSlot_slots_of_ne ham]
  · by_cases hjm : j = m
    · subst hjm
      rw [pushSlot_slots_self]
      simp [released]
    · rw [pushSlot_slots_of_ne hjm, List.mem_cons, h.mem_iff j]
      have hlt : j < m + 1 ↔ j < m := by omega
      simp [hjm, hlt]
  · have hlen : (m :: l).length ≤ m + 1 := by
      have hsub := hnd.subperm fun j hj => List.mem_range.mpr (show j < m + 1 by
        rcases List.mem_cons.mp hj with rfl | hj
        · exact Nat.lt_succ_self j
        · exact Nat.lt_succ_of_lt ((h.mem_iff j).mp hj).1)
      simpa using hsub.length_le
    show (v.sb.freeCount + 1) % u32 = _
    rw [h.count hn, List.length_cons] at *
    exact Nat.mod_eq_of_lt (by omega)
  · refine h.queue.congr_off rfl rfl fun j hj => ?_
    exact pushSlot_slots_of_ne fun heq => hj (heq ▸ hoff)
  · exact Nat.lt_succ_of_lt (h.below j hj)

/-- Slots have the same addresses in every geometry of one table size. -/
lemma ptr_of_cap_eq (hcap : g'.cap = g.cap) (i : ℕ) : g'.ptr i = g.ptr i := by
  unfold Geometry.ptr Geometry.base
  rw [hcap]

/-- A larger database has all the slots of the smaller one. -/
lemma idOf_of_le (hcap : g'.cap = g.cap) (hn : g.n ≤ g'.n) {o i : ℕ} (h : g.idOf o = some i) :
    g'.idOf o = some i := by
  obtain ⟨hi, hptr⟩ := (g.idOf_eq_some_iff _ _).mp h
  rw [hptr, ← ptr_of_cap_eq hcap]
  exact g'.idOf_ptr (lt_of_lt_of_le hi hn)

/-- More slots leave the queue alone.
Source: `ef_grow.c`, `ef_grow` -/
lemma HasQueue.enlarge (h : v.HasQueue g q) (hcap : g'.cap = g.cap) (hn : g.n ≤ g'.n)
    (hhead : w.sb.queueHead = v.sb.queueHead) (htail : w.sb.queueTail = v.sb.queueTail)
    (hslots : ∀ i, i < g.n → w.slots i = v.slots i) : w.HasQueue g' q := by
  have hptr := ptr_of_cap_eq hcap
  rcases h with ⟨h0, hq⟩ | ⟨d, h⟩
  · exact .inl ⟨hhead.trans h0, hq⟩
  have hmem : ∀ i ∈ q, w.slots i = v.slots i := fun i hi => hslots i (h.lt_of_mem hi)
  refine .inr ⟨d, lt_of_lt_of_le h.lt hn, ?_, ?_, ?_, h.nodup, fun i hi => ?_, fun i hi => ?_, ?_⟩
  · rw [hhead, h.head, hptr]
  · rw [hslots d h.lt]
    exact h.dummy
  · rw [hslots d h.lt]
    exact h.linked.mono fun o a ha ho => ⟨idOf_of_le hcap hn ho, by rw [hmem a ha]⟩
  · rw [hmem i hi]
    exact h.queued i hi
  · rw [hmem i hi]
    exact h.fits i hi
  · rw [htail, h.tail, hptr]

/-- The start of a growth: the slots that there are, in an enlarged image. -/
lemma Pool.growing (h : v.Pool g l q) (hw : w.Calm g') (hn : g.n ≤ g'.n)
    (hslots : ∀ i, i < g.n → w.slots i = v.slots i) (hhead : w.sb.freeListHead = v.sb.freeListHead)
    (hcount : w.sb.freeCount = v.sb.freeCount) (hqh : w.sb.queueHead = v.sb.queueHead)
    (hqt : w.sb.queueTail = v.sb.queueTail) : w.Growing g' g.n l q := by
  have hcap : g'.cap = g.cap := hw.noIndex.trans h.noIndex.symm
  refine ⟨hw, ?_, h.nodup, fun i => ?_, fun hu => ?_, h.queue.enlarge hcap hn hqh hqt hslots,
    fun i hi => ?_⟩
  · rw [hhead]
    refine h.linked.mono fun o a ha ho => ⟨idOf_of_le hcap hn ho, ?_⟩
    rw [hslots a (h.lt ha)]
  · rw [h.mem_iff i]
    refine and_congr_right fun hi => ?_
    rw [hslots i hi]
  · rw [hcount]
    exact h.count (lt_of_le_of_lt hn hu)
  · -- a slot of the queue is one of the old slots
    by_contra hge
    refine hi ⟨fun hmem => ?_, ?_⟩
    · rcases h.queue with ⟨-, rfl⟩ | ⟨d, hq⟩
      · cases hmem
      · exact hge (hq.lt_of_mem hmem)
    · rw [hqh, ptr_of_cap_eq hcap]
      intro heq
      rcases h.queue with ⟨h0, -⟩ | ⟨d, hq⟩
      · rw [h0] at heq
        exact g.ptr_ne_zero i heq.symm
      · exact hge (g.ptr_inj (hq.head.symm.trans heq) ▸ hq.lt)

end View

end Endfields.Model
