import Endfields.Lib.Rollback
import Endfields.Spec.Replay

/-!
# Transactions on the view

* `efTxnBegin_spec`: a begin takes the lock and starts an empty log; the slots and the rest of the
  superblock stay.
* **Abort** (`efTxnAbort_spec`): with slot records in the log, an abort applies their inverse
  actions, the last one first, and leaves the transaction.
* `LogIs g v rs`: the log of the view holds the slot records `rs`; each record helper adds its
  record (`efTxnRecordSlotStatus_spec`, …).
-/

namespace Endfields.Model

open Endfields.Lib

namespace View

/-- Enter or leave a transaction. -/
@[simps] def setActive (v : View) (active : Bool) : View :=
  { v with core := { v.core with txnActive := active } }

/-- The log of the view holds the slot records `rs`. -/
structure LogIs (g : Geometry) (v : View) (rs : List SlotRec) : Prop where
  holds : v.seg.Holds (rs.map (SlotRec.encode g))
  valid : ∀ r ∈ rs, r.Valid g

/-- The view once a transaction has begun: lock taken, state active, the log as `seg`. -/
def begun (v : View) (seg : Segment) : View :=
  ((v.setSb ((v.sb.setTxnLock 1).setTxnState txnStateActive)).setActive true).setSeg seg

/-- The view once a transaction has ended: state and lock cleared, the log as `seg`. -/
def ended (v : View) (seg : Segment) : View :=
  ((v.setSb ((v.sb.setTxnState txnStateNone).setTxnLock 0)).setActive false).setSeg seg

variable {g : Geometry} {v : View}

/-- A series of undone records keeps the handle in order. -/
lemma foldr_undo_ok (rs : List SlotRec) (h : v.Ok g) : (rs.foldr (undo g) v).Ok g := by
  induction rs with
  | nil => exact h
  | cons r rs ih => exact undo_ok ih

/-- A series of undone records keeps the geometry. -/
lemma foldr_undo_core (rs : List SlotRec) : (rs.foldr (undo g) v).core = v.core := by
  induction rs with
  | nil => rfl
  | cons r rs ih => rw [List.foldr_cons, undo_core, ih]

/-- The inverse actions do not look at the transaction state byte. -/
lemma foldr_undo_setTxnState (rs : List SlotRec) (t : ℕ) :
    rs.foldr (undo g) (v.setSb (v.sb.setTxnState t)) =
      (rs.foldr (undo g) v).setSb ((rs.foldr (undo g) v).sb.setTxnState t) := by
  induction rs with
  | nil => rfl
  | cons r rs ih =>
      rw [List.foldr_cons, List.foldr_cons, ih]
      cases r <;> rfl

/-- The transaction flag is no part of the order. -/
@[simp] lemma ok_setActive {b : Bool} : (v.setActive b).Ok g ↔ v.Ok g := by
  constructor
  · intro h
    exact ⟨h.toBound.congr rfl rfl rfl rfl, h.undoBase, h.undoSlots, h.size, h.schema⟩
  · intro h
    exact ⟨h.toBound.congr rfl rfl rfl rfl, h.undoBase, h.undoSlots, h.size, h.schema⟩

/-- A begun transaction leaves the handle in order. -/
lemma Ok.begun {seg : Segment} (h : v.Ok g) : (v.begun seg).Ok g := by
  unfold View.begun
  rw [ok_setSeg, ok_setActive]
  exact h.setSb rfl rfl

/-- An ended transaction leaves the handle in order. -/
lemma Ok.ended {seg : Segment} (h : v.Ok g) : (v.ended seg).Ok g := by
  unfold View.ended
  rw [ok_setSeg, ok_setActive]
  exact h.setSb rfl rfl

/-- The log is a matter of the segment alone. -/
lemma LogIs.congr {v' : View} {rs : List SlotRec} (h : v.LogIs g rs) (hseg : v'.seg = v.seg) :
    v'.LogIs g rs := ⟨by rw [hseg]; exact h.holds, h.valid⟩

/-- An empty log holds no records. -/
lemma LogIs.nil (h : v.seg.Holds []) : v.LogIs g [] := ⟨h, fun _ hr => absurd hr List.not_mem_nil⟩

/-- More slot records behind a log of slot records. -/
lemma LogIs.append {rs : List SlotRec} (h : v.LogIs g rs) {rs' : List SlotRec} {seg : Segment}
    (hvalid : ∀ r ∈ rs', r.Valid g)
    (hseg : seg.Holds (rs.map (SlotRec.encode g) ++ rs'.map (SlotRec.encode g))) :
    (v.setSeg seg).LogIs g (rs ++ rs') := by
  refine ⟨by rw [List.map_append]; exact hseg, fun r hr => ?_⟩
  rcases List.mem_append.mp hr with hr | hr
  · exact h.valid r hr
  · exact hvalid r hr

end View

namespace Db

variable {g : Geometry} {db : Db}

/-! ### The empty log -/

/-- A reset clears the segment and nothing else. -/
lemma efUndoReset_spec (h : (db.view g).Ok g) :
    ∃ seg, db.efUndoReset.view g = (db.view g).setSeg seg ∧ seg.Holds [] := by
  have hbase : db.undoLogBase = g.undoBase := h.undoBase
  have hslots : db.undoLogSlots = undoLogDefaultSlots := h.undoSlots
  have hne : g.undoBase ≠ 0 := by
    have := g.base_ge
    unfold Geometry.undoBase
    omega
  set m := memset db.mem g.undoBase 0 (undoLogBytes db.undoLogSlots) with hm
  refine ⟨⟨32, 0, g.segment m⟩, ?_, ?_⟩
  · unfold efUndoReset efUndoHeaderPtr
    rw [hbase, if_neg hne]
    simp only [view_efDbMarkMetaDirty]
    exact view_of_segment_write ({ db with undoTail := 32, undoRecordCount := 0 } : Db)
      fun x hx => memset_apply_of_outside (.inl hx)
  · refine ⟨rfl, rfl, by simp, rfl, ?_⟩
    show load (g.segment m) 0 4 = 0
    rw [load_segment]
    refine load_eq_zero fun x hx hx' => memset_apply_of_inside (by omega) ?_
    rw [hslots]
    simp only [undoLogBytes, undoLogDefaultSlots]
    omega

/-- A stored state changes that byte of the superblock.
Source: `ef_sb_layout.c`, `ef_sb_txn_state_store` -/
lemma efSbTxnStateStore_view (h : (db.view g).Ok g) (st : ℕ) (hst : st < 256) :
    (db.efSbTxnStateStore st).view g = (db.view g).setSb ((db.view g).sb.setTxnState st) := by
  have hschema : db.sb.schemaVersion = schemaVersion := h.schema
  unfold efSbTxnStateStore
  rw [hschema, if_neg (by decide), view_setTxnState, Nat.mod_eq_of_lt hst]

/-- A released lock clears that byte of the superblock.
Source: `ef_sb_layout.c`, `ef_sb_txn_lock_release` -/
lemma efSbTxnLockRelease_view (h : (db.view g).Ok g) :
    db.efSbTxnLockRelease.view g = (db.view g).setSb ((db.view g).sb.setTxnLock 0) := by
  have hschema : db.sb.schemaVersion = schemaVersion := h.schema
  unfold efSbTxnLockRelease
  rw [hschema, if_neg (by decide), view_setTxnLock]

/-- A lock attempt uses up one answer of the environment. -/
lemma view_contended : db.contended.2.view g = (db.view g).tick := by
  rcases hc : db.env.contention with _ | ⟨c, cs⟩
  · have hquiet : db.contended.2 = db := by
      unfold contended
      rw [hc]
    rw [hquiet]
    exact (View.tick_of_quiet hc).symm
  · have hcons : db.contended.2 = { db with env := { db.env with contention := cs } } := by
      unfold contended
      rw [hc]
    have hcs : cs = db.env.contention.tail := by rw [hc, List.tail_cons]
    rw [hcons, hcs]
    rfl

/-- Taking the transaction lock sets its byte, or fails and changes nothing. -/
lemma efSbTxnLockTryAcquire_spec (h : (db.view g).Ok g) :
    (db.efSbTxnLockTryAcquire.1 ≠ .ok ∧ db.efSbTxnLockTryAcquire.2.view g = (db.view g).tick) ∨
      ((db.view g).sb.txnLock = 0 ∧ db.efSbTxnLockTryAcquire.1 = .ok ∧
        db.efSbTxnLockTryAcquire.2.view g =
          (db.view g).tick.setSb ((db.view g).sb.setTxnLock 1)) := by
  have hschema : db.sb.schemaVersion = schemaVersion := h.schema
  have hview : db.contended.2.view g = (db.view g).tick := view_contended
  have hsb : db.contended.2.sb = (db.view g).sb := congrArg View.sb hview
  unfold efSbTxnLockTryAcquire
  rw [hschema, if_neg (by decide)]
  simp only [hsb]
  split_ifs with hbusy
  · exact .inl ⟨fun h0 => (by cases h0), hview⟩
  · refine .inr ⟨?_, rfl, ?_⟩
    · tauto
    · rw [view_setTxnLock, hview]
      rfl

/-! ### Begin -/

/-- **Begin.** Either the lock is not to be had and nothing changes, or the transaction starts with
an empty log. -/
lemma efTxnBegin_spec (h : (db.view g).Ok g) (hin : db.txnActive = false) :
    (db.efTxnBegin.1 ≠ .ok ∧ db.efTxnBegin.2.view g = (db.view g).tick) ∨
      ((db.view g).sb.txnLock = 0 ∧ db.efTxnBegin.1 = .ok ∧ ∃ seg, seg.Holds [] ∧
        db.efTxnBegin.2.view g = (db.view g).tick.begun seg) := by
  have hw : db.readonly = false := h.writable
  have hschema : db.sb.schemaVersion = schemaVersion := h.schema
  unfold efTxnBegin
  rw [hw, hschema, hin, if_neg (by simp), if_neg (by decide), if_neg (by simp)]
  rcases efSbTxnLockTryAcquire_spec h with ⟨herr, hview⟩ | ⟨hlock, herr, hview⟩
  · left
    rcases hr : db.efSbTxnLockTryAcquire with ⟨e, db₁⟩
    rw [hr] at herr hview
    cases e <;> first | exact absurd rfl herr | exact ⟨herr, hview⟩
  · right
    rcases hr : db.efSbTxnLockTryAcquire with ⟨e, db₁⟩
    rw [hr] at herr hview
    simp only at herr hview
    subst herr
    have hok₁ : (db₁.view g).Ok g := by
      rw [hview]
      exact (View.ok_tick.mpr h).congr rfl rfl rfl
    have hview₂ := efSbTxnStateStore_view hok₁ txnStateActive (by decide)
    set db₂ := db₁.efSbTxnStateStore txnStateActive with hdb₂
    set db₃ : Db := { db₂ with
      txnState := txnStateActive
      txnActive := true
      txnWriterPid := db₂.env.pid } with hdb₃
    have hview₃ : db₃.view g = (db₂.view g).setActive true := rfl
    have hok₃ : (db₃.view g).Ok g := by
      rw [hview₃, View.ok_setActive, hview₂]
      exact hok₁.congr rfl rfl rfl
    obtain ⟨seg, hreset, hseg⟩ := efUndoReset_spec hok₃
    refine ⟨hlock, rfl, seg, hseg, ?_⟩
    show (db₃.efUndoReset.efDbMarkMetaDirty.setError .ok).view g = _
    rw [view_setError, view_efDbMarkMetaDirty, hreset, hview₃, hview₂, hview]
    rfl

/-- A begin that succeeds starts the transaction with an empty log. -/
lemma efTxnBegin_of_ok (h : (db.view g).Ok g) (hok : db.efTxnBegin.1 = .ok) :
    db.txnActive = false ∧ ∃ seg, seg.Holds [] ∧
      db.efTxnBegin.2.view g = (db.view g).tick.begun seg := by
  have hw : db.readonly = false := h.writable
  have hschema : db.sb.schemaVersion = schemaVersion := h.schema
  have hin : db.txnActive = false := by
    by_contra hact
    unfold efTxnBegin at hok
    rw [hw, hschema, if_neg (by simp), if_neg (by decide), if_pos (by simpa using hact)] at hok
    cases hok
  rcases efTxnBegin_spec h hin with ⟨herr, -⟩ | ⟨-, -, hseg⟩
  · exact absurd hok herr
  · exact ⟨hin, hseg⟩

/-! ### Abort -/

/-- Leaving a transaction: an empty log and the lock released. -/
lemma txnEnd_spec (h : (db.view g).Ok g) :
    ∃ seg, seg.Holds [] ∧ db.txnEnd.view g = (db.view g).ended seg := by
  set db₁ : Db := { db with
    txnState := txnStateNone
    txnActive := false
    txnWriterPid := txnWriterNone } with hdb₁
  have hview₁ : db₁.view g = (db.view g).setActive false := rfl
  have hok₁ : (db₁.view g).Ok g := by rwa [hview₁, View.ok_setActive]
  obtain ⟨seg, hreset, hseg⟩ := efUndoReset_spec hok₁
  have hok₂ : (db₁.efUndoReset.view g).Ok g := by rwa [hreset, View.ok_setSeg]
  have hview₃ := efSbTxnStateStore_view hok₂ txnStateNone (by decide)
  have hok₃ : ((db₁.efUndoReset.efSbTxnStateStore txnStateNone).view g).Ok g := by
    rw [hview₃]
    exact hok₂.congr rfl rfl rfl
  refine ⟨seg, hseg, ?_⟩
  show ((db₁.efUndoReset.efSbTxnStateStore txnStateNone).efSbTxnLockRelease.efDbMarkMetaDirty).view
    g = _
  rw [view_efDbMarkMetaDirty, efSbTxnLockRelease_view hok₃, hview₃, hreset, hview₁]
  rfl

/-- The handle as the abort starts its replay. -/
def aborting (db : Db) : Db :=
  ({ db with txnState := txnStateAborting } : Db).efSbTxnStateStore txnStateAborting

/-- The first store of an abort.
Source: `ef_txn.c`, `ef_txn_abort` -/
lemma view_aborting (h : (db.view g).Ok g) :
    db.aborting.view g = (db.view g).setSb ((db.view g).sb.setTxnState txnStateAborting) := by
  have h' : (({ db with txnState := txnStateAborting } : Db).view g).Ok g := h
  exact efSbTxnStateStore_view h' txnStateAborting (by decide)

/-- The first store of an abort keeps the count of the table. -/
lemma hashEntryCount_aborting (db : Db) : db.aborting.hashEntryCount = db.hashEntryCount := by
  unfold aborting efSbTxnStateStore
  split_ifs <;> rfl

/-- The first store of an abort leaves the handle in order. -/
lemma ok_aborting (h : (db.view g).Ok g) : (db.aborting.view g).Ok g := by
  rw [view_aborting h]
  exact h.congr rfl rfl rfl

/-- **Abort.** When the records of the log can be undone, the last one first, an abort does it and
leaves the transaction. -/
lemma efTxnAbort_of_undone (h : (db.view g).Ok g) (hact : db.txnActive = true) {rs : List UndoRec}
    (hlog : (db.view g).seg.Holds rs) {y : Db} (hundone : Undone (UndoesTo g) rs db.aborting y) :
    db.efTxnAbort = (.ok, y.txnEnd.setError .ok) := by
  have hlog' : (db.aborting.view g).seg.Holds rs := by
    rw [view_aborting h]
    exact hlog
  have hreplay := efUndoReplayReverse_of_undone (ok_aborting h) hlog' hundone
  unfold aborting at hreplay
  unfold efTxnAbort
  rw [if_pos hact]
  simp only [hreplay]

/-- With slot records in the log, an abort undoes them, the last one first, and leaves the
transaction. -/
lemma efTxnAbort_spec (h : (db.view g).Ok g) (hact : db.txnActive = true) {rs : List SlotRec}
    (hlog : (db.view g).LogIs g rs) :
    ∃ db' seg, db.efTxnAbort = (.ok, db') ∧ seg.Holds [] ∧
      db'.view g = (rs.foldr (View.undo g) (db.view g)).ended seg := by
  have hok := ok_aborting h
  obtain ⟨y, hundone, hview, -⟩ := undone_slotRecs rs hlog.valid hok
  have hoky : (y.view g).Ok g := by
    rw [hview]
    exact View.foldr_undo_ok rs hok
  obtain ⟨seg, hseg, hend⟩ := txnEnd_spec hoky
  refine ⟨_, seg, efTxnAbort_of_undone h hact hlog.holds hundone, hseg, ?_⟩
  rw [view_setError, hend, hview, view_aborting h, View.foldr_undo_setTxnState]
  rfl

/-- An abort after a run that its log reverses: the view is one that `R` relates to the view the
run started from, with the transaction left. -/
lemma efTxnAbort_reverses (h : (db.view g).Ok g) (hact : db.txnActive = true) {rs : List SlotRec}
    (hlog : (db.view g).LogIs g rs) {R : View → View → Prop} {v : View}
    (hrev : Reverses (View.undo g) R v rs (db.view g)) (hrefl : R (db.view g) (db.view g)) :
    ∃ db' y seg, db.efTxnAbort = (.ok, db') ∧ y.Ok g ∧ y.core = (db.view g).core ∧ R y v ∧
      seg.Holds [] ∧ db'.view g = y.ended seg := by
  obtain ⟨db', seg, habort, hseg, hview⟩ := efTxnAbort_spec h hact hlog
  exact ⟨db', _, seg, habort, View.foldr_undo_ok rs h, View.foldr_undo_core rs, hrev _ hrefl, hseg,
    hview⟩

/-- **Transactions.** When every good step keeps the invariant and reverses with the records it
leaves, then after every run of good steps the abort succeeds and leads back, up to `R`. -/
theorem abort_of_run {α : Type*} (step : α → Db → Db) (good : α → Db → Prop) (inv : Db → Prop)
    (R : View → View → Prop) (hrefl : ∀ v, R v v)
    (hinv : ∀ s, inv s → (s.view g).Ok g ∧ s.txnActive = true)
    (hstep : ∀ a s rs, inv s → (s.view g).LogIs g rs → good a s →
      inv (step a s) ∧ ∃ rs', ((step a s).view g).LogIs g (rs ++ rs') ∧
        Reverses (View.undo g) R (s.view g) rs' ((step a s).view g))
    (h : inv db) (hlog : (db.view g).LogIs g []) (ops : List α) (hgood : GoodRun step good ops db) :
    ∃ db' y seg, (runAll step ops db).efTxnAbort = (.ok, db') ∧ y.Ok g ∧ R y (db.view g) ∧
      seg.Holds [] ∧ db'.view g = y.ended seg := by
  obtain ⟨hinv', rs, hlog', hrev⟩ := run_reverses (view g) inv
    (fun s rs => (s.view g).LogIs g rs) hstep ops db [] h hlog hgood
  obtain ⟨hok, hact⟩ := hinv _ hinv'
  obtain ⟨db', y, seg, habort, hoky, -, hback, hseg, hview⟩ :=
    efTxnAbort_reverses hok hact hlog' hrev (hrefl _)
  exact ⟨db', y, seg, habort, hoky, hback, hseg, hview⟩

/-! ### The record helpers -/

/-- The log has room for `k` more records. -/
def logRoom (db : Db) (k : ℕ) : Prop := db.undoTail + 32 * k ≤ undoLogBytes db.undoLogSlots

instance (db : Db) (k : ℕ) : Decidable (db.logRoom k) := inferInstanceAs (Decidable (_ ≤ _))

/-- The handle is inside a transaction whose log holds `us`. -/
structure Logging (g : Geometry) (db : Db) (us : List UndoRec) : Prop where
  ok : (db.view g).Ok g
  active : db.txnActive = true
  holds : (db.view g).seg.Holds us

/-- A log that holds `us` has room for the rest of its slots.
Source: `ef_undo.c`, `ef_undo_record_append` -/
lemma room_of_holds (h : (db.view g).Ok g) {us : List UndoRec} (hlog : (db.view g).seg.Holds us)
    (k : ℕ) : db.logRoom k ↔ us.length + k ≤ undoLogDefaultSlots := by
  have hslots : db.undoLogSlots = undoLogDefaultSlots := h.undoSlots
  have htail : db.undoTail = 32 + 32 * us.length := hlog.tail
  unfold logRoom
  rw [hslots, htail]
  simp only [undoLogBytes]
  omega

/-- `room_of_holds`, for a log of slot records. -/
lemma logRoom_iff (h : (db.view g).Ok g) {rs : List SlotRec} (hlog : (db.view g).LogIs g rs)
    (k : ℕ) : db.logRoom k ↔ rs.length + k ≤ undoLogDefaultSlots := by
  have hroom := room_of_holds h hlog.holds k
  rwa [List.length_map] at hroom

/-- `room_of_holds`, inside a transaction. -/
lemma Logging.room {us : List UndoRec} (h : Logging g db us) {k : ℕ} :
    db.logRoom k ↔ us.length + k ≤ undoLogDefaultSlots := room_of_holds h.ok h.holds k

/-- A transaction starts with an empty log, -/
lemma logging_of_begin (h : (db.view g).Ok g) (hok : db.efTxnBegin.1 = .ok) :
    Logging g db.efTxnBegin.2 [] := by
  obtain ⟨-, seg, hseg, hview⟩ := efTxnBegin_of_ok h hok
  refine ⟨?_, congrArg (fun v : View => v.core.txnActive) hview, ?_⟩
  · rw [hview]
    exact (View.ok_tick.mpr h).begun
  · rw [hview]
    exact hseg

/-- and with the slots as they were. -/
lemma slots_of_begin (h : (db.view g).Ok g) (hok : db.efTxnBegin.1 = .ok) (i : ℕ) :
    (db.efTxnBegin.2.view g).slots i = (db.view g).slots i := by
  obtain ⟨-, seg, -, hview⟩ := efTxnBegin_of_ok h hok
  rw [hview]
  rfl

/-- The end of a transaction leaves the slots. -/
lemma slot_txnEnd {i : ℕ} {err : Err} (h : (db.view g).Ok g) (hi : i < g.n) :
    (db.txnEnd.setError err).slot i = (db.view g).slots i := by
  obtain ⟨seg, -, hend⟩ := txnEnd_spec h
  have hcap : (db.txnEnd.view g).core.hashCapacity = g.cap := by
    rw [hend]
    exact h.cap
  rw [slot_setError, slot_eq hcap hi, hend]
  rfl

/-- The environment is no part of it. -/
lemma Logging.withEnv {us : List UndoRec} (h : Logging g db us) (env : Env) :
    Logging g { db with env := env } us where
  ok := ⟨h.ok.toBound.congr rfl rfl rfl rfl, h.ok.undoBase, h.ok.undoSlots, h.ok.size, h.ok.schema⟩
  active := h.active
  holds := h.holds

/-- An append of a slot record adds it to the log. -/
lemma append_slotRec (h : (db.view g).Ok g) (hact : (db.view g).core.txnActive = true)
    {rs : List SlotRec} (hlog : (db.view g).LogIs g rs) (hroom : rs.length < undoLogDefaultSlots)
    {r : SlotRec} (hr : r.Valid g) {kind : UndoKind} {target aux : ℕ} {before : List UInt8}
    (hb : before.length = 12)
    (henc : r.encode g = ⟨some kind, target % u64, aux % u64, before⟩) :
    ∃ seg, (db.efUndoRecordAppend kind target aux before).2.view g = (db.view g).setSeg seg ∧
      ((db.view g).setSeg seg).LogIs g (rs ++ [r]) := by
  obtain ⟨seg, hview, hholds⟩ := efUndoRecordAppend_spec kind target aux h hact hlog.holds hb
    (by simpa using hroom)
  refine ⟨seg, hview, hlog.append (by simpa using hr) ?_⟩
  rw [List.map_singleton, henc]
  exact hholds

section Helpers

variable {i st crc nx : ℕ} {rs : List SlotRec}

/-- A status record is appended.
Source: `ef_txn.c`, `ef_txn_record_slot_status` -/
lemma efTxnRecordSlotStatus_spec (h : (db.view g).Ok g)
    (hact : (db.view g).core.txnActive = true) (hlog : (db.view g).LogIs g rs)
    (hroom : rs.length < undoLogDefaultSlots) (hi : i < g.n) (hst : st < u32) (hcrc : crc < u32) :
    ∃ seg, (db.efTxnRecordSlotStatus i st crc).2.view g = (db.view g).setSeg seg ∧
      ((db.view g).setSeg seg).LogIs g (rs ++ [.status i st crc]) := by
  unfold efTxnRecordSlotStatus
  rw [efSlotToOffset_of_lt h.toBound hi]
  refine append_slotRec h hact hlog hroom (r := .status i st crc) ⟨hi, hst, hcrc⟩
    (by simp) ?_
  rw [Nat.mod_eq_of_lt (g.ptr_lt_u64 hi)]
  rfl

/-- A link record is appended.
Source: `ef_txn.c`, `ef_txn_record_slot_next` -/
lemma efTxnRecordSlotNext_spec (h : (db.view g).Ok g)
    (hact : (db.view g).core.txnActive = true) (hlog : (db.view g).LogIs g rs)
    (hroom : rs.length < undoLogDefaultSlots) (hi : i < g.n) (hnx : nx < u64) :
    ∃ seg, (db.efTxnRecordSlotNext i nx).2.view g = (db.view g).setSeg seg ∧
      ((db.view g).setSeg seg).LogIs g (rs ++ [.next i nx]) := by
  unfold efTxnRecordSlotNext
  rw [efSlotToOffset_of_lt h.toBound hi]
  refine append_slotRec h hact hlog hroom (r := .next i nx) ⟨hi, hnx⟩ (by simp) ?_
  rw [Nat.mod_eq_of_lt (g.ptr_lt_u64 hi)]
  rfl

/-- A payload record is appended.
Source: `ef_txn.c`, `ef_txn_record_slot_payload` -/
lemma efTxnRecordSlotPayload_spec (h : (db.view g).Ok g)
    (hact : (db.view g).core.txnActive = true) (hlog : (db.view g).LogIs g rs)
    (hroom : rs.length < undoLogDefaultSlots) (hi : i < g.n) {bs : List UInt8}
    (hbs : bs.length = 8) :
    ∃ seg, (db.efTxnRecordSlotPayload i bs).2.view g = (db.view g).setSeg seg ∧
      ((db.view g).setSeg seg).LogIs g (rs ++ [.payload i bs]) := by
  unfold efTxnRecordSlotPayload
  rw [efSlotToOffset_of_lt h.toBound hi]
  refine append_slotRec h hact hlog hroom (r := .payload i bs) ⟨hi, hbs⟩ (by simp [hbs]) ?_
  rw [Nat.mod_eq_of_lt (g.ptr_lt_u64 hi)]
  rfl

/-- An allocation record is appended.
Source: `ef_txn.c`, `ef_txn_record_slot_alloc` -/
lemma efTxnRecordSlotAlloc_spec (crc : ℕ) (h : (db.view g).Ok g)
    (hact : (db.view g).core.txnActive = true) {us : List UndoRec}
    (hlog : (db.view g).seg.Holds us) (hroom : us.length < undoLogDefaultSlots) (hi : i < g.n) :
    ∃ seg, (db.efTxnRecordSlotAlloc i statusFree crc).2.view g = (db.view g).setSeg seg ∧
      seg.Holds (us ++ [SlotRec.encode g (.alloc i crc)]) := by
  have hptr := Nat.mod_eq_of_lt (g.ptr_lt_u64 hi)
  unfold efTxnRecordSlotAlloc
  rw [efSlotToOffset_of_lt h.toBound hi]
  have hlen : (leBytes 4 statusFree ++ leBytes 4 crc ++ List.replicate 4 0).length = 12 := by simp
  obtain ⟨seg, hview, hholds⟩ := efUndoRecordAppend_spec .slotAlloc (g.ptr i) 0 h hact hlog hlen hroom
  rw [hptr] at hholds
  exact ⟨seg, hview, hholds⟩

/-- A record of the free count is appended.
Source: `ef_txn.c`, `ef_txn_record_free_count` -/
lemma efTxnRecordFreeCount_spec (delta : ℤ) (h : (db.view g).Ok g)
    (hact : (db.view g).core.txnActive = true) {us : List UndoRec}
    (hlog : (db.view g).seg.Holds us) (hroom : us.length < undoLogDefaultSlots) :
    ∃ seg, (db.efTxnRecordFreeCount delta).2.view g = (db.view g).setSeg seg ∧
      seg.Holds (us ++ [SlotRec.encode g (.freeCount delta)]) :=
  efUndoRecordAppend_spec .freeCount 0 (int64Word delta) h hact hlog (by simp) hroom

end Helpers

end Db

end Endfields.Model
