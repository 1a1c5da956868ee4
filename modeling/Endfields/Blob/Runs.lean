import Endfields.Blob.Read
import Endfields.Pool.Checksums

/-!
# Blobs that share a pool, over runs

The calls on the blobs of a database in memory, without a hash index, against a store of blobs.

* `BlobStore`: the slots that are heads, and the blob that each holds; `BlobOp.after` is what a call
  does to it, given its outcome.
* `Stores`: the chains of the pool hold the store; every call keeps that (`Stores.step`).
* `BlobRun.right`: where no slot in use has the checksum `0`, every head reads as its blob, a head is
  handed out only when it is none yet, and the slots in use are as many as the blobs take.
* **The slots of the blobs** (`blobRun_owns`): no slot is shared by two blobs, and none is lost.
-/

namespace Endfields.Model

open Endfields.Lib

/-- The heads that were handed out and not freed, with the blob that each holds, if any. -/
abbrev BlobStore := ℕ → Option (Option (List UInt8))

/-- The slots of a head that holds `x`. -/
def blobSlots (x : Option (List UInt8)) : ℕ := 1 + overflowNeed ((x.getD []).length - 40)

namespace Db

/-- The calls of a run. -/
inductive BlobOp
  | allocSlot
  | alloc
  | grow (newMaxSlots : ℕ)
  | writeBlob (slotId : ℕ) (data : List UInt8)
  | freeSlot (slotId : ℕ)

namespace BlobOp

/-- The same call among those on a pool. -/
def onPool : BlobOp → PoolOp
  | allocSlot => .allocSlot
  | alloc => .alloc
  | grow newMaxSlots => .grow newMaxSlots
  | writeBlob slotId data => .writeBlob slotId data
  | freeSlot slotId => .freeSlot slotId

/-- The call, with the slot that it hands out. -/
def run (op : BlobOp) (db : Db) : Err × ℕ × Db :=
  match op with
  | allocSlot => db.efAllocSlot
  | alloc => db.efAlloc
  | grow newMaxSlots => ((db.efGrow newMaxSlots).1, 0, (db.efGrow newMaxSlots).2)
  | writeBlob slotId data => ((db.efWriteBlob slotId data).1, 0, (db.efWriteBlob slotId data).2)
  | freeSlot slotId => ((db.efFreeSlot slotId).1, 0, (db.efFreeSlot slotId).2)

/-- What the call does to the blobs: a slot that is handed out is a head without a blob, a write
that fails for lack of slots leaves the head without one, and a write that is too long leaves it
alone. -/
def after (op : BlobOp) (err : Err) (id : ℕ) (st : BlobStore) : BlobStore :=
  match op with
  | allocSlot | alloc => if err = .ok then Function.update st id (some none) else st
  | grow _ => st
  | writeBlob slotId data =>
      if 0xFFFFFFFF < data.length then st
      else Function.update st slotId (some (if err = .ok then some data else none))
  | freeSlot slotId => Function.update st slotId none

/-- A write or a release is for a head, and the layouts that the call may lead to do not
overflow. -/
def Allowed (st : BlobStore) (db : Db) : BlobOp → Prop
  | allocSlot => True
  | alloc => roomFor (db.sb.maxSlots + 1)
  | grow newMaxSlots => roomFor newMaxSlots
  | writeBlob slotId data =>
      st slotId ≠ none ∧ (data.length ≤ 0xFFFFFFFF →
        roomFor (db.sb.maxSlots + overflowNeed (data.length - 40)))
  | freeSlot slotId => st slotId ≠ none

lemma run_onPool (op : BlobOp) (db : Db) : (op.run db).2.2 = (op.onPool.run db).2.2 := by
  cases op <;> rfl

end BlobOp

/-- The states of a new database in memory and of its blobs, whatever the calls return; no call
meets a slot whose checksum it takes for missing. -/
inductive BlobRun : BlobStore → Db → Prop
  | start (buffer : Mem) (bufferSize maxSlots : ℕ) (env : Env) (hquiet : env.contention = [])
      (hfits : layoutFits maxSlots 0)
      (hok : (efOpenMemoryHash buffer bufferSize maxSlots 0 true env).1 = .ok) :
      BlobRun (fun _ => none) (efOpenMemoryHash buffer bufferSize maxSlots 0 true env).2
  | step (st : BlobStore) (db : Db) (h : BlobRun st db) (env : Env) (hquiet : env.contention = [])
      (op : BlobOp) (ha : op.Allowed st db) (hcrc : (op.run { db with env := env }).1 ≠ .badChecksum) :
      BlobRun (op.after (op.run { db with env := env }).1 (op.run { db with env := env }).2.1 st)
        (op.run { db with env := env }).2.2

/-! ### The store in the chains -/

/-- The chains of the pool hold the store. -/
structure Stores (g : Geometry) (v : View) (l : List ℕ) (st : BlobStore) (ch : ℕ → List ℕ) : Prop where
  chains : v.Chains g l (fun i => st i ≠ none) ch
  content : ∀ i x, st i = some x → v.Content i (ch i) x

variable {g g' : Geometry} {v w : View} {db : Db} {l l' : List ℕ} {st : BlobStore} {ch : ℕ → List ℕ}
  {i j : ℕ} {x : Option (List UInt8)} {env : Env}

/-- Another head, and its chain, are kept. -/
lemma keepsOthers_own {live : ℕ → Prop} (h : v.Chains g l live ch) (hk : v.KeepsOthers g w i (ch i))
    (hi : live i) (hj : live j) (hji : j ≠ i) : ∀ k ∈ j :: ch j, w.slots k = v.slots k := by
  intro k hk'
  rcases List.mem_cons.mp hk' with rfl | hkc
  · exact hk k (h.head k hj).1 (h.ne_free_of_owned (.inl hj)) hji (h.not_mem_of_live hj)
  · refine hk k (h.lt_of_mem hkc) (h.ne_free_of_owned (.inr ⟨j, hkc⟩)) ?_ fun hki => ?_
    · rintro rfl
      exact h.not_mem_of_live hi hkc
    · exact hji (h.disjoint j i k hkc hki)

lemma content_of_same (hx : v.Content j (ch j) x) (hsame : ∀ k ∈ j :: ch j, w.slots k = v.slots k) :
    w.Content j (ch j) x :=
  hx.congr (by rw [hsame j List.mem_cons_self]) fun k hk => by
    rw [hsame k (List.mem_cons_of_mem j hk)]

namespace Stores

/-- The heads after one of them was written, freed or handed out. -/
lemma live_update (st : BlobStore) (i : ℕ) (y : Option (Option (List UInt8))) (j : ℕ) :
    Function.update st i y j ≠ none ↔ (j = i ∧ y ≠ none) ∨ (j ≠ i ∧ st j ≠ none) := by
  rw [Function.update_apply]
  split_ifs with hji <;> simp [hji]

/-- A pool that has grown holds the same store. -/
lemma grow (h : Stores g v l st ch) (hw : w.Pool g' l' []) (hgrown : View.GrownTo g v g' w) :
    Stores g' w l' st ch := by
  refine ⟨h.chains.grow hw hgrown, fun j x hx => content_of_same (h.content j x hx) fun k hk => ?_⟩
  have hj : st j ≠ none := by
    rw [hx]
    exact Option.some_ne_none x
  rcases List.mem_cons.mp hk with rfl | hk
  · exact hgrown.kept k (h.chains.head k hj).1
  · exact hgrown.kept k (h.chains.lt_of_mem hk)

/-- **A head is handed out**: the head of the free list. -/
lemma popSlot (h : Stores g v (i :: l) st ch) :
    st i = none ∧ Stores g (v.popSlot true i) l (Function.update st i (some none)) ch := by
  have hfree : (v.slots i).status = statusFree := h.chains.free List.mem_cons_self
  obtain ⟨hnone, hnot⟩ := h.chains.not_owned_of_free hfree
  have hother : ∀ j, j ≠ i → (v.popSlot true i).slots j = v.slots j := by
    intro j hj
    unfold View.popSlot
    rw [View.setSlot_slots, Function.update_of_ne hj]
    rfl
  have hself : (v.popSlot true i).slots i = v.allocated true i := by
    unfold View.popSlot
    rw [View.setSlot_slots, Function.update_self]
  have hchains := h.chains.addHead h.chains.toPool.popSlot (h.chains.lt List.mem_cons_self) hfree hother
    (by rw [hself]; exact Slot.sealed_status _ _ _) (by rw [hself]; exact Slot.sealed_nextOffset _ _ _)
  refine ⟨not_not.mp hnone, hchains.congr_live fun j => ?_, fun j x hx => ?_⟩
  · rw [live_update]
    by_cases hji : j = i <;> simp [hji]
  · rw [Function.update_apply] at hx
    split_ifs at hx with hji
    · subst hji
      rw [← Option.some.inj hx]
      refine ⟨h.chains.chain_eq_nil hnone, ?_⟩
      rw [hself]
      show ((Slot.sealed _ _ _).payload).take 4 = _
      rw [Slot.sealed_payload]
      rfl
    · refine content_of_same (h.content j x hx) fun k hk => hother k ?_
      rintro rfl
      rcases List.mem_cons.mp hk with heq | hk
      · exact hji heq.symm
      · exact hnot j hk

/-- **A head is written**. -/
lemma written {c : List ℕ} (h : Stores g v l st ch) (hi : st i ≠ none)
    (hw : w.Chains g' l' (fun j => st j ≠ none) (Function.update ch i c))
    (hk : v.KeepsOthers g w i (ch i)) (hx : w.Content i c x) :
    Stores g' w l' (Function.update st i (some x)) (Function.update ch i c) := by
  refine ⟨hw.congr_live fun j => ?_, fun j y hy => ?_⟩
  · rw [live_update]
    by_cases hji : j = i
    · simp [hji, hi]
    · simp [hji]
  · rw [Function.update_apply] at hy
    split_ifs at hy with hji
    · subst hji
      rw [Function.update_self, ← Option.some.inj hy]
      exact hx
    · rw [Function.update_of_ne hji]
      have hj : st j ≠ none := by
        rw [hy]
        exact Option.some_ne_none y
      exact content_of_same (h.content j y hy) (keepsOthers_own h.chains hk hi hj hji)

/-- **A head is freed**. -/
lemma freed (h : Stores g v l st ch) (hi : st i ≠ none)
    (hw : w.Chains g' l' (fun j => j ≠ i ∧ st j ≠ none) (Function.update ch i []))
    (hk : v.KeepsOthers g w i (ch i)) :
    Stores g' w l' (Function.update st i none) (Function.update ch i []) := by
  refine ⟨hw.congr_live fun j => ?_, fun j y hy => ?_⟩
  · rw [live_update]
    simp
  · rw [Function.update_apply] at hy
    split_ifs at hy with hji
    rw [Function.update_of_ne hji]
    have hj : st j ≠ none := by
      rw [hy]
      exact Option.some_ne_none y
    exact content_of_same (h.content j y hy) (keepsOthers_own h.chains hk hi hj hji)

/-- The store after an allocation. -/
def handedOut (r : Err × ℕ × Db) (st : BlobStore) : BlobStore :=
  if r.1 = .ok then Function.update st r.2.1 (some none) else st

/-- The heads are slots in use. -/
lemma writable (h : Stores g (db.view g) l st ch) (hi : st i ≠ none) : PoolOp.writable db i := by
  intro _
  obtain ⟨hlt, hused⟩ := h.chains.head i hi
  rw [slot_eq h.chains.cap hlt]
  exact .inr hused

/-- **A step**: every call leads from a pool that holds a store to one that holds the store after
it. -/
lemma step (h : Stores g (db.view g) l st ch) (op : BlobOp) (ha : op.Allowed st db)
    (hsteady : (db.view g).core.Steady) (hcrc : (op.run db).1 ≠ .badChecksum) : ∃ g' l' ch',
      Stores g' ((op.run db).2.2.view g') l' (op.after (op.run db).1 (op.run db).2.1 st) ch' ∧
        (db.view g).core.Extends ((op.run db).2.2.view g').core := by
  have hmax : db.sb.maxSlots = g.n := h.chains.maxSlots
  cases op with
  | allocSlot =>
      rcases efAllocSlotEx_pool h.chains.toPool true with ⟨herr, hview⟩ | ⟨l', hl, hok, hview⟩
      · refine ⟨g, l, ch, ?_, .of_eq (congrArg View.core hview)⟩
        show Stores g ((db.efAllocSlotEx true).2.2.view g) l (handedOut (db.efAllocSlotEx true) st) ch
        rw [hview, handedOut, if_neg herr]
        exact h
      · subst hl
        have hcore : ((db.efAllocSlotEx true).2.2.view g).core = (db.view g).core := by
          rw [hview]
          rfl
        refine ⟨g, l', ch, ?_, .of_eq hcore⟩
        show Stores g ((db.efAllocSlotEx true).2.2.view g) l' (handedOut (db.efAllocSlotEx true) st) ch
        rw [hview, handedOut, if_pos hok]
        exact h.popSlot.2
  | alloc =>
      have hroom : roomFor (db.sb.maxSlots + 1) := ha
      rw [hmax] at hroom
      obtain ⟨g', l', -, ⟨herr, -, hpool, hgrown⟩ | ⟨hok, w, hpool, hgrown, hview⟩⟩ :=
        efAllocEx_taken h.chains.toPool hroom hsteady.unfailing true
      · refine ⟨g', l', ch, ?_, hgrown.core⟩
        show Stores g' ((db.efAllocEx true).2.2.view g') l' (handedOut (db.efAllocEx true) st) ch
        rw [handedOut, if_neg herr]
        exact h.grow hpool hgrown
      · have hcore : ((db.efAllocEx true).2.2.view g').core = w.core := by
          rw [hview]
          rfl
        refine ⟨g', l', ch, ?_, hgrown.core.trans (.of_eq hcore)⟩
        show Stores g' ((db.efAllocEx true).2.2.view g') l' (handedOut (db.efAllocEx true) st) ch
        rw [hview, handedOut, if_pos hok]
        exact (h.grow hpool hgrown).popSlot.2
  | grow m =>
      rcases efGrow_grown h.chains.toPool (plain (show roomFor m from ha)) rfl
          fun _ => hsteady.unfailing with
        ⟨-, hview⟩ | ⟨-, hlt, ⟨l', hpool⟩, hkept, hfresh, -, hext⟩
      · refine ⟨g, l, ch, ?_, .of_eq (congrArg View.core hview)⟩
        show Stores g ((db.efGrow m).2.view g) l st ch
        rw [show (db.efGrow m).2.view g = db.view g from hview]
        exact h
      · exact ⟨_, l', ch, h.grow hpool ⟨hlt.le, hkept, hfresh, hext⟩, hext⟩
  | writeBlob i data =>
      obtain ⟨hi, hroom⟩ : st i ≠ none ∧ (data.length ≤ 0xFFFFFFFF →
        roomFor (db.sb.maxSlots + overflowNeed (data.length - 40))) := ha
      -- the store after a write of the data
      have hafter : ∀ e, BlobOp.after (.writeBlob i data) e 0 st = if 0xFFFFFFFF < data.length then st
          else Function.update st i (some (if e = .ok then some data else none)) := fun _ => rfl
      by_cases hlong : 0xFFFFFFFF < data.length
      · have hsame : (db.efWriteBlob i data).2 = db.setError .payloadLen := by
          unfold efWriteBlob
          rw [efDbRequireWrite_eq h.chains.writable]
          simp only
          rw [if_pos hlong]
        have hcore : ((db.efWriteBlob i data).2.view g).core = (db.view g).core := by
          rw [hsame]
          rfl
        refine ⟨g, l, ch, ?_, .of_eq hcore⟩
        show Stores g ((db.efWriteBlob i data).2.view g) l
          (BlobOp.after (.writeBlob i data) (db.efWriteBlob i data).1 0 st) ch
        rw [hsame, hafter, if_pos hlong]
        exact h
      · have hlen : data.length ≤ 0xFFFFFFFF := not_lt.mp hlong
        obtain ⟨-, g', l', c, hw, hk, hext, hx⟩ :=
          efWriteBlob_chains h.chains hi hlen (hmax ▸ hroom hlen) hsteady (.inr hcrc)
        refine ⟨g', l', Function.update ch i c, ?_, hext⟩
        show Stores g' ((db.efWriteBlob i data).2.view g') l'
          (BlobOp.after (.writeBlob i data) (db.efWriteBlob i data).1 0 st) _
        rw [hafter, if_neg hlong]
        exact h.written hi hw hk hx
  | freeSlot i =>
      have hi : st i ≠ none := ha
      obtain ⟨-, l', hw, hk, hcore⟩ := efFreeSlot_chains h.chains hi (.inr hcrc)
      exact ⟨g, l', _, h.freed hi hw hk, .of_eq hcore⟩

end Stores

/-- What the system does next leaves the store alone. -/
lemma Stores.withEnv (h : Stores g (db.view g) l st ch) (hquiet : env.contention = []) :
    Stores g (({ db with env := env } : Db).view g) l st ch :=
  ⟨⟨pool_withEnv h.chains.toPool hquiet, h.chains.head, h.chains.chain, h.chains.overflow,
    h.chains.disjoint, h.chains.cover⟩, h.content⟩

/-! ### Runs -/

/-- **Every state of a run** is one of a pool that holds the store. -/
lemma BlobRun.stores (h : BlobRun st db) :
    PoolRun SafeCall db ∧ db.backend = .memory ∧ ∃ g l ch, Stores g (db.view g) l st ch := by
  induction h with
  | start buffer bufferSize maxSlots env hquiet hfits hok =>
      refine ⟨.memory buffer bufferSize maxSlots env hquiet hfits hok, ?_⟩
      obtain ⟨g, hn, hpool⟩ := (efOpenMemoryHash_built hfits hok).pool hquiet
      refine ⟨(efOpenMemoryHash_buffer hok).2.2.1, g, _, fun _ => [], ⟨hpool, fun i hi => absurd rfl hi,
        fun i hi => absurd rfl hi, fun i j hj => absurd hj List.not_mem_nil,
        fun i i' j hj => absurd hj List.not_mem_nil,
        fun j hj hst => ?_⟩, fun i x hx => (by cases hx)⟩
      exact absurd (hpool.free (List.mem_range.mpr hj)) hst
  | step st db _ env hquiet op ha hcrc ih =>
      obtain ⟨hrun, hmem, g, l, ch, hst⟩ := ih
      obtain ⟨g', l', ch', hst'', hext⟩ :=
        (hst.withEnv hquiet).step op ha (Core.steady_of_memory hmem) hcrc
      refine ⟨?_, hext.backend.trans hmem, g', l', ch', hst''⟩
      rw [BlobOp.run_onPool]
      have hsafe : op.onPool.Safe { db with env := env } :=
        @PoolOp.safe_of_memory { db with env := env } hmem op.onPool
      refine .step db hrun hst.chains.mapped env hquiet op.onPool ?_ hsafe
      cases op with
      | allocSlot => trivial
      | alloc => exact ha
      | grow m => exact ha
      | writeBlob i data => exact ⟨hst.writable ha.1, ha.2⟩
      | freeSlot i => trivial

/-- The slots in use. -/
def usedSlots (db : Db) : Finset ℕ :=
  (Finset.range db.sb.maxSlots).filter fun i => (db.slot i).status ≠ statusFree

/-- The heads among the slots of the database. -/
def blobHeads (db : Db) (st : BlobStore) : Finset ℕ :=
  (Finset.range db.sb.maxSlots).filter fun i => (st i).isSome

/-- A head and its chain are as many slots as the length of its blob asks for. -/
lemma Stores.length_own (h : Stores g v l st ch) (hx : st i = some x) :
    (i :: ch i).length = blobSlots x := by
  rw [List.length_cons, Nat.add_comm]
  unfold blobSlots
  congr 1
  cases x with
  | none =>
      rw [(h.content i none hx).1]
      rfl
  | some b => exact (h.content i (some b) hx).2.2.1

/-- No slot is counted twice among them. -/
lemma Stores.card_own (h : Stores g v l st ch) (hx : st i = some x) :
    (i :: ch i).toFinset.card = blobSlots x := by
  have hi : st i ≠ none := by
    rw [hx]
    exact Option.some_ne_none x
  have hnd : (i :: ch i).Nodup :=
    List.nodup_cons.mpr ⟨h.chains.not_mem_of_live hi, h.chains.nodup_chain hi⟩
  rw [List.toFinset_card_of_nodup hnd]
  exact h.length_own hx

/-- **The slots in use** are the heads and their chains. -/
lemma Stores.card_used (h : Stores g (db.view g) l st ch) :
    db.usedSlots.card = ∑ i ∈ db.blobHeads st, blobSlots ((st i).getD none) := by
  have hmax : db.sb.maxSlots = g.n := h.chains.maxSlots
  have hslot : ∀ j, j < g.n → db.slot j = (db.view g).slots j := fun j hj => slot_eq h.chains.cap hj
  have hhead : ∀ i, i ∈ db.blobHeads st ↔ st i ≠ none := by
    intro i
    unfold blobHeads
    rw [Finset.mem_filter, Finset.mem_range, hmax, Option.isSome_iff_ne_none]
    exact ⟨fun hi => hi.2, fun hi => ⟨(h.chains.head i hi).1, hi⟩⟩
  have hunion : db.usedSlots = (db.blobHeads st).biUnion fun i => (i :: ch i).toFinset := by
    ext j
    unfold usedSlots
    rw [Finset.mem_filter, Finset.mem_range, hmax, Finset.mem_biUnion]
    constructor
    · rintro ⟨hj, hst⟩
      rw [hslot j hj] at hst
      rcases h.chains.cover j hj hst with hlive | ⟨i, hm⟩
      · exact ⟨j, (hhead j).mpr hlive, List.mem_toFinset.mpr List.mem_cons_self⟩
      · refine ⟨i, (hhead i).mpr (h.chains.overflow i j hm).1, List.mem_toFinset.mpr ?_⟩
        exact List.mem_cons_of_mem i hm
    · rintro ⟨i, hi, hj⟩
      have hlive := (hhead i).mp hi
      have hown : st j ≠ none ∨ ∃ i, j ∈ ch i := by
        rcases List.mem_cons.mp (List.mem_toFinset.mp hj) with rfl | hm
        · exact .inl hlive
        · exact .inr ⟨i, hm⟩
      have hlt := (h.chains.used_of_owned hown).1
      refine ⟨hlt, ?_⟩
      rw [hslot j hlt]
      exact h.chains.ne_free_of_owned hown
  rw [hunion, Finset.card_biUnion]
  · refine Finset.sum_congr rfl fun i hi => ?_
    obtain ⟨x, hx⟩ := Option.ne_none_iff_exists'.mp ((hhead i).mp hi)
    rw [h.card_own hx, hx]
    rfl
  · -- no slot belongs to two heads
    intro i hi i' hi' hne
    refine Finset.disjoint_left.mpr fun j hj hj' => ?_
    have hlive := (hhead i).mp hi
    have hlive' := (hhead i').mp hi'
    rcases List.mem_cons.mp (List.mem_toFinset.mp hj) with rfl | hm
    · rcases List.mem_cons.mp (List.mem_toFinset.mp hj') with heq | hm'
      · exact hne heq
      · exact h.chains.not_mem_of_live hlive hm'
    · rcases List.mem_cons.mp (List.mem_toFinset.mp hj') with rfl | hm'
      · exact h.chains.not_mem_of_live hlive' hm
      · exact hne (h.chains.disjoint i i' j hm hm')

/-- In a run a slot that has a checksum, and not `0`, passes its check. -/
lemma PoolRun.slot_valid (h : PoolRun SafeCall db) (hj : j < db.sb.maxSlots)
    (hhas : efSlotStatusHasCrc (db.slot j).status = true)
    (hne : efSlotHeaderCrcCompute j (db.slot j) ≠ 0) :
    db.efSlotHeaderCrcValid j (db.slot j) = true := by
  obtain ⟨g, l, q, hpool, hseal⟩ := h.sealed
  have hown := crcConsistent_of_sealed hpool.toBound hseal j hj hhas
  unfold efSlotHeaderCrcValid
  by_cases hon : db.sb.slotCrc = false
  · rw [if_pos hon]
  · rw [if_neg hon, if_neg (by simp [hhas]), if_neg (by rw [hown]; exact hne), if_pos hown]

/-- No slot in use has the checksum `0`.
Source: `endfields.c`, `ef_slot_header_crc_compute` -/
def CrcsNonzero (db : Db) : Prop :=
  ∀ i, i < db.sb.maxSlots → (db.slot i).status ≠ statusFree →
    efSlotHeaderCrcCompute i (db.slot i) ≠ 0

instance (db : Db) : Decidable db.CrcsNonzero := inferInstanceAs (Decidable (∀ _, _ → _))

/-- In a run, every slot in use then passes its check. -/
lemma Stores.crcValid (h : Stores g (db.view g) l st ch) (hrun : PoolRun SafeCall db)
    (hcrc : db.CrcsNonzero) (hi : st i ≠ none ∨ ∃ j, i ∈ ch j) :
    ((db.view g).slots i).crcValid (db.view g).sb.slotCrc i = true := by
  obtain ⟨hlt, hused⟩ := h.chains.used_of_owned hi
  have hmax : db.sb.maxSlots = g.n := h.chains.maxSlots
  have hslot : db.slot i = (db.view g).slots i := slot_eq h.chains.cap hlt
  have hne : (db.slot i).status ≠ statusFree := by
    rw [hslot]
    exact h.chains.ne_free_of_owned hi
  have hhas : efSlotStatusHasCrc (db.slot i).status = true := by
    rw [hslot]
    rcases hused with hs | hs <;> rw [hs] <;> rfl
  have hvalid := hrun.slot_valid (by omega) hhas (hcrc i (by omega) hne)
  rw [hslot] at hvalid
  exact hvalid

/-- What the database owes its blobs. -/
structure BlobsRight (st : BlobStore) (db : Db) : Prop where
  read : ∀ i x bufCap, st i = some x → db.efReadBlob i bufCap = shown bufCap x
  fresh : ∀ env : Env, env.contention = [] → (efAllocSlot { db with env := env }).1 = .ok →
    st (efAllocSlot { db with env := env }).2.1 = none
  used : db.usedSlots.card = ∑ i ∈ db.blobHeads st, blobSlots ((st i).getD none)

/-- **Refinement**: in every state of a run, when no slot in use has the checksum `0`, every head
reads as its blob, as far as the buffer goes, a head is handed out only when it is none yet, and the
slots in use are one for every head and those that its blob overflows into. -/
lemma BlobRun.right (h : BlobRun st db) (hcrc : db.CrcsNonzero) : BlobsRight st db := by
  obtain ⟨hrun, -, g, l, ch, hst⟩ := h.stores
  refine ⟨fun i x bufCap hx => ?_, fun env hquiet hok => ?_, hst.card_used⟩
  · have hi : st i ≠ none := by
      rw [hx]
      exact Option.some_ne_none x
    have hvalid := fun j hj => hst.crcValid hrun hcrc (i := j) hj
    exact efReadBlob_content hst.chains hi hvalid (hst.content i x hx) bufCap
  · have hpool := pool_withEnv hst.chains.toPool hquiet
    rcases efAllocSlotEx_pool hpool true with ⟨herr, -⟩ | ⟨l', hl, -, -⟩
    · exact absurd hok herr
    · have hfree : ((({ db with env := env } : Db).view g).slots
          (efAllocSlot { db with env := env }).2.1).status = statusFree := by
        refine hpool.free ?_
        rw [hl]
        exact List.mem_cons_self
      exact not_not.mp (hst.chains.not_owned_of_free hfree).1

/-! ### The slots of the blobs -/

/-- Every head has a chain of its own: the links behind it lead through `OVERFLOW` slots, as many as
its blob needs beyond the head, which hold the rest of its bytes. No slot is of two chains, and the
slots that are neither heads nor of a chain are `FREE`. -/
structure OwnsSlots (st : BlobStore) (db : Db) (chunks : ℕ → List ℕ) : Prop where
  head : ∀ i, st i ≠ none → i < db.sb.maxSlots ∧ (db.slot i).status = statusUsed
  chain : ∀ i, st i ≠ none → Linked db.efSlotAtOffset (fun j => (db.slot j).nextOffset)
    (db.slot i).nextOffset (chunks i) 0
  nodup : ∀ i, st i ≠ none → (chunks i).Nodup
  length : ∀ i x, st i = some x → (i :: chunks i).length = blobSlots x
  bytes : ∀ i b, st i = some (some b) → ((db.slot i).payload.drop 8 ++
    (chunks i).flatMap fun j => (db.slot j).payload).take b.length = b
  overflow : ∀ i j, j ∈ chunks i → st i ≠ none ∧ j < db.sb.maxSlots ∧
    (db.slot j).status = statusOverflow
  disjoint : ∀ i i' j, j ∈ chunks i → j ∈ chunks i' → i = i'
  cover : ∀ j, j < db.sb.maxSlots → st j = none → (∀ i, j ∉ chunks i) →
    (db.slot j).status = statusFree

/-- The chains of the pool, as the database has them. -/
lemma Stores.owns (h : Stores g (db.view g) l st ch) : OwnsSlots st db ch := by
  have hmax : db.sb.maxSlots = g.n := h.chains.maxSlots
  have hslot : ∀ j, j < g.n → db.slot j = (db.view g).slots j := fun j hj => slot_eq h.chains.cap hj
  have hhead : ∀ i, st i ≠ none → db.slot i = (db.view g).slots i := fun i hi =>
    hslot i (h.chains.head i hi).1
  have hchunk : ∀ i j, j ∈ ch i → db.slot j = (db.view g).slots j := fun i j hj =>
    hslot j (h.chains.lt_of_mem hj)
  refine ⟨fun i hi => ?_, fun i hi => ?_, fun i hi => h.chains.nodup_chain hi, fun i x hx =>
    h.length_own hx, fun i b hb => ?_, fun i j hj => ?_, h.chains.disjoint, fun j hj hnone hno => ?_⟩
  · rw [hmax, hhead i hi]
    exact h.chains.head i hi
  · rw [hhead i hi]
    refine (h.chains.chain i hi).mono fun o j hj hid => ⟨?_, ?_⟩
    · exact (efSlotAtOffset_eq h.chains.toBound o).trans hid
    · rw [hchunk i j hj]
  · have hi : st i ≠ none := by
      rw [hb]
      exact Option.some_ne_none _
    have hrest : ((ch i).flatMap fun j => (db.slot j).payload) =
        (ch i).flatMap fun j => ((db.view g).slots j).payload :=
      List.flatMap_congr fun j hj => by rw [hchunk i j hj]
    rw [hhead i hi, hrest]
    exact (h.content i (some b) hb).2.2.2
  · obtain ⟨hi, hst⟩ := h.chains.overflow i j hj
    rw [hmax, hchunk i j hj]
    exact ⟨hi, h.chains.lt_of_mem hj, hst⟩
  · rw [hmax] at hj
    rw [hslot j hj]
    by_contra hne
    rcases h.chains.cover j hj hne with hlive | ⟨i, hm⟩
    · exact hlive hnone
    · exact hno i hm

/-- **No slot is shared and none is lost**: in every state of a run the slots in use are the heads
and the chains behind them, each of which holds the blob of its head. -/
theorem blobRun_owns (h : BlobRun st db) : ∃ chunks, OwnsSlots st db chunks := by
  obtain ⟨-, -, g, l, ch, hst⟩ := h.stores
  exact ⟨ch, hst.owns⟩

/-- A new database of four slots, one of them handed out. -/
def withHead : Db := (BlobOp.allocSlot.run { newMemory 4 0 with env := Env.quiet }).2.2

/-- A blob that does not fit into its head is written there. -/
def withBlob : Db :=
  ((BlobOp.writeBlob 0 (List.replicate 41 7)).run { withHead with env := Env.quiet }).2.2

lemma blobRun_withHead : BlobRun (Function.update (fun _ => none) 0 (some none)) withHead := by
  have hrun : BlobRun (fun _ => none) (newMemory 4 0) :=
    .start _ _ 4 Env.quiet rfl (by decide) (by decide +kernel)
  have hid : (BlobOp.allocSlot.run { newMemory 4 0 with env := Env.quiet }).2.1 = 0 := by decide +kernel
  have hok : (BlobOp.allocSlot.run { newMemory 4 0 with env := Env.quiet }).1 = .ok := by decide +kernel
  have hstep := BlobRun.step _ _ hrun Env.quiet rfl .allocSlot trivial (by rw [hok]; decide)
  rw [hid, hok] at hstep
  exact hstep

lemma blobRun_withBlob : BlobRun (Function.update (Function.update (fun _ => none) 0 (some none)) 0
    (some (some (List.replicate 41 7)))) withBlob := by
  have hok : ((BlobOp.writeBlob 0 (List.replicate 41 7)).run
      { withHead with env := Env.quiet }).1 = .ok := by decide +kernel
  have hroom : ∀ _ : (List.replicate 41 (7 : UInt8)).length ≤ 0xFFFFFFFF,
      roomFor (withHead.sb.maxSlots + overflowNeed ((List.replicate 41 (7 : UInt8)).length - 40)) := by
    intro _
    decide +kernel
  have hstep := BlobRun.step _ _ blobRun_withHead Env.quiet rfl
    (.writeBlob 0 (List.replicate 41 7)) ⟨by simp, hroom⟩ (by rw [hok]; decide)
  rw [hok] at hstep
  exact hstep

/-- The blob of two slots has the head and one slot more. -/
theorem blobRun_owns_withBlob : ∃ chunks, OwnsSlots (Function.update
    (Function.update (fun _ => none) 0 (some none)) 0 (some (some (List.replicate 41 7)))) withBlob
    chunks :=
  blobRun_owns blobRun_withBlob

end Db

end Endfields.Model
