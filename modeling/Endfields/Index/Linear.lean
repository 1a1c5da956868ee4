import Endfields.Index.Map
import Endfields.Model.Reader
import Endfields.Model.Visit
import Endfields.Model.Write

/-!
# A read while the index is written

One read of the index runs step by step, and between two of its steps another thread makes complete
calls on the index of the same handle.

* `Reading`, `ReadRun`: the read with the handles it has met so far, and the steps of both threads.
  The steps of the read may be restricted by a condition on the state before them.
* `Linearises`: a slot that is returned is one that the key's hash led to on some handle of the run,
  and the payload is that of the slot.
* `readStep_alone`, `readStep_alone_slot`: with nothing between its steps the read is
  `ef_index_get`, or `ef_index_get_slot`.
* **`readRun_linearises`**: a read whose translation finds the slot region where the probe found it
  linearises, on every handle.
* `IndexInv.maxSlots_apply`: the writer never changes the number of slots, so that a translation is
  in place as soon as the slot region has not moved.
* `readRun_rehash_between`: a rehash between the second load of the sequence number and the
  translation makes the read return another slot.
-/

namespace Endfields.Model

open Endfields.Lib

namespace Db

/-- A read that has begun. `moments` are the handles the call has met, the present one first, and
`probed` is the one that the table was probed on last. -/
structure Reading where
  db : Db
  phase : ReadPhase
  moments : List Db
  probed : Db

/-- The start of a read. -/
def Reading.begin (db : Db) : Reading := ⟨db, .start, [db], db⟩

/-- The next step of the read.
Source: `ef_index.c`, `ef_index_get` and `ef_index_get_slot` -/
def Reading.advance (call : ReadCall) (c : Reading) : Reading :=
  { c with
    phase := readStep call c.db c.phase
    probed :=
      match c.phase with
      | .probe _ _ => c.db
      | .unlocked => c.db
      | _ => c.probed }

/-- A complete call of the writer, on whatever environment it meets. -/
def Reading.interrupt (env : Env) (op : IndexOp) (c : Reading) : Reading :=
  { c with
    db := (op.apply { c.db with env := env }).2
    moments := (op.apply { c.db with env := env }).2 :: c.moments }

/-- The states of a read that begins on `db₀`, with steps of the read under the condition `cond` and
complete calls of the writer between them. -/
inductive ReadRun (cond : Reading → Prop) (call : ReadCall) (db₀ : Db) : Reading → Prop
  | start : ReadRun cond call db₀ (.begin db₀)
  | read (c : Reading) (h : ReadRun cond call db₀ c) (hc : cond c) :
      ReadRun cond call db₀ (c.advance call)
  | write (c : Reading) (h : ReadRun cond call db₀ c) (env : Env) (op : IndexOp) :
      ReadRun cond call db₀ (c.interrupt env op)

/-- What a read that returned owes its caller. -/
def Linearises (call : ReadCall) (c : Reading) : Prop :=
  ∀ slotId payload, c.phase = .done (.ok (slotId, payload)) →
    (∃ db ∈ c.moments, db.resolve call.keyHash = .ok slotId) ∧
      ∀ bytes, payload = some bytes → ∃ db ∈ c.moments, bytes = db.slotPayload slotId

/-- At the translation the slot region begins where it began at the last probe, and has as many
slots. -/
def TranslatesInPlace (c : Reading) : Prop :=
  ∀ found, c.phase = .translate found →
    c.db.slotsBase = c.probed.slotsBase ∧ c.db.sb.maxSlots = c.probed.sb.maxSlots

/-! ### A read alone -/

/-- The phases a read goes through from `p` on when nothing comes between its steps. -/
def ReadsAlone (call : ReadCall) (db : Db) : ReadPhase → ReadPhase → Prop :=
  Relation.ReflTransGen fun p q => readStep call db p = q

variable {call : ReadCall} {db db₀ : Db} {g : Geometry} {c : Reading} {k : ℕ}

/-- The translation of an offset that is none of a slot, and of one that is. -/
lemma readStep_translate_error {e : HashEntry} {err : Err}
    (h : db.efOffsetToSlotId e.slotOffset = .error err) :
    readStep call db (.translate e) = .done (.error err) := by
  simp only [readStep, h]

/-- An entry that leads to a slot is translated to it. -/
lemma readStep_translate_ok {e : HashEntry} {slotId : ℕ}
    (h : db.efOffsetToSlotId e.slotOffset = .ok slotId) :
    readStep call db (.translate e) = slotFound call slotId := by
  simp only [readStep, h]

/-- A number that stays odd uses up the attempts. -/
lemma readsAlone_busy (hodd : db.indexSeq % 2 = 1) (left attempt : ℕ)
    (hleft : attempt + left + 1 = indexSeqReadMax) :
    ReadsAlone call db (.seqLoad attempt) (.done (.error .indexBusy)) := by
  induction left generalizing attempt with
  | zero =>
      refine .single ?_
      show (if db.indexSeq % 2 = 1 then nextAttempt attempt else _) = _
      rw [if_pos hodd]
      exact if_neg (by omega)
  | succ left ih =>
      refine .head ?_ (ih (attempt + 1) (by omega))
      show (if db.indexSeq % 2 = 1 then nextAttempt attempt else _) = _
      rw [if_pos hodd]
      exact if_pos (by omega)

/-- The end of the read, from the result of the lookup on. -/
lemma readsAlone_entryFound (call : ReadCall) (db : Db) (found : Except Err HashEntry) :
    ReadsAlone call db (entryFound found)
      (match found.bind fun e => db.efOffsetToSlotId e.slotOffset with
        | .error err => .done (.error err)
        | .ok slotId => slotFound call slotId) := by
  cases found with
  | error err => exact .refl
  | ok e =>
      refine .single ?_
      show readStep call db (.translate e) =
        (match db.efOffsetToSlotId e.slotOffset with
          | .error err => .done (.error err)
          | .ok slotId => slotFound call slotId)
      rcases hid : db.efOffsetToSlotId e.slotOffset with err | slotId
      · exact readStep_translate_error hid
      · exact readStep_translate_ok hid

/-- A lookup and the translation of the offset that it finds. -/
lemma efIndexGet_eq_bind (db : Db) (key : List UInt8) :
    db.efIndexGet key =
      (db.efIndexFindEntry (efKeyHash (cString key))).bind fun e =>
          db.efOffsetToSlotId e.slotOffset := by
  unfold efIndexGet indexGetAt
  rcases db.efIndexFindEntry (efKeyHash (cString key)) with err | e
  · rfl
  · rfl

/-- A lookup in a table of some capacity is a hit or a miss. -/
lemma efIndexFindEntryUnlocked_cases (hpos : db.hashCapacity ≠ 0) (k : ℕ) :
    db.efIndexFindEntryUnlocked k = .error .notFound ∨ ∃ e, db.efIndexFindEntryUnlocked k = .ok e := by
  unfold efIndexFindEntryUnlocked
  rw [if_neg hpos]
  rcases db.findLoop k db.hashCapacity (efHashHome db.hashCapacity k) with _ | pos
  · exact .inl rfl
  · exact .inr ⟨_, rfl⟩

/-- Alone, a read comes to the end of `ef_index_find_entry` with what that function finds. -/
lemma readsAlone_find (call : ReadCall) (db : Db) :
    ReadsAlone call db .start (entryFound (db.efIndexFindEntry call.keyHash)) := by
  generalize hk : call.keyHash = k
  have hfind : ∀ found, db.efIndexFindEntry k = found →
      ReadsAlone call db .start (entryFound found) →
      ReadsAlone call db .start (entryFound (db.efIndexFindEntry k)) := by
    intro found hfound hread
    rw [hfound]
    exact hread
  by_cases h0 : db.hashCapacity = 0
  · exact hfind (.error .nullArg) (if_pos h0) (.single (if_pos h0))
  by_cases hschema : db.sb.schemaVersion < schemaVersion
  · refine hfind (db.efIndexFindEntryUnlocked k) ((if_neg h0).trans (if_pos hschema)) ?_
    refine .head ((if_neg h0).trans (if_pos hschema)) (.single ?_)
    rw [← hk]
    rfl
  have hstart : readStep call db .start = .seqLoad 0 := (if_neg h0).trans (if_neg hschema)
  by_cases hodd : db.indexSeq % 2 = 1
  · exact hfind (.error .indexBusy) ((if_neg h0).trans ((if_neg hschema).trans (if_pos hodd)))
      (.head hstart (readsAlone_busy hodd 4095 0 rfl))
  refine hfind (db.efIndexFindEntryUnlocked k)
    ((if_neg h0).trans ((if_neg hschema).trans (if_neg hodd))) ?_
  refine .head hstart (.head (if_neg hodd) (.head rfl (.single ?_)))
  have hstable : decide (db.indexSeq = db.indexSeq ∧ db.indexSeq % 2 = 0) = true :=
    decide_eq_true ⟨rfl, by omega⟩
  show db.seqRecheck 0 db.indexSeq (db.efIndexFindEntryUnlocked call.keyHash) = _
  rw [hk]
  unfold seqRecheck
  rw [hstable]
  rcases efIndexFindEntryUnlocked_cases h0 k with hf | ⟨e, hf⟩
  · rw [hf]
    rfl
  · rw [hf]
    rfl

/-- With nothing between its steps, the read is `ef_index_get`. -/
theorem readStep_alone (db : Db) (key : List UInt8) :
    ReadsAlone (.get key) db .start
      (.done ((db.efIndexGet key).map fun slotId => (slotId, none))) := by
  refine (readsAlone_find (.get key) db).trans ?_
  have hread := readsAlone_entryFound (.get key) db (db.efIndexFindEntry (efKeyHash (cString key)))
  rw [← efIndexGet_eq_bind] at hread
  rcases hget : db.efIndexGet key with err | slotId
  · rw [hget] at hread
    exact hread
  · rw [hget] at hread
    exact hread

/-- What `ef_index_get_slot` hands out for the result of a read: its code, the slot and the
payload. -/
def Hands (db : Db) (result : Except Err (ℕ × Option (List UInt8)))
    (answer : Err × Option ℕ × List UInt8 × Db) : Prop :=
  match result with
  | .error err => answer.1 = err
  | .ok (slotId, payload) => answer.1 = .ok ∧ answer.2.1 = some (db.slotPtr slotId) ∧
      answer.2.2.1 = payload.getD []

/-- With nothing between its steps, the read with a payload is `ef_index_get_slot`. -/
theorem readStep_alone_slot (db : Db) (key : List UInt8) (bufCap : Option ℕ) :
    ∃ result, ReadsAlone (.getSlot key bufCap) db .start (.done result) ∧
      Hands db result (db.efIndexGetSlot key bufCap) := by
  have hread := (readsAlone_find (.getSlot key bufCap) db).trans (readsAlone_entryFound _ _ _)
  unfold efIndexGetSlot
  rw [show ReadCall.keyHash (.getSlot key bufCap) = efKeyHash (cString key) from rfl] at hread
  rcases hfind : db.efIndexFindEntry (efKeyHash (cString key)) with err | e
  · rw [hfind] at hread
    exact ⟨.error err, hread, rfl⟩
  rw [hfind] at hread
  rcases hid : db.efOffsetToSlotId e.slotOffset with err | slotId
  · rw [show (Except.ok e : Except Err HashEntry).bind (fun e => db.efOffsetToSlotId e.slotOffset) =
      .error err from hid] at hread
    exact ⟨.error err, hread, by simp only [hid]; rfl⟩
  rw [show (Except.ok e : Except Err HashEntry).bind (fun e => db.efOffsetToSlotId e.slotOffset) =
    .ok slotId from hid] at hread
  -- the copy is the last step
  have hcopy : ∀ result, db.copyPayload slotId (.getSlot key bufCap) = .done result →
      ReadsAlone (.getSlot key bufCap) db .start (.done result) := fun result h => hread.tail h
  simp only [hid]
  unfold copyPayload at hcopy
  unfold efPeekSlot at hcopy ⊢
  by_cases hlt : db.sb.maxSlots ≤ slotId
  · rw [if_pos hlt] at hcopy ⊢
    exact ⟨_, hcopy _ rfl, rfl⟩
  rw [if_neg hlt] at hcopy ⊢
  cases bufCap with
  | none => exact ⟨_, hcopy _ rfl, rfl, rfl, rfl⟩
  | some cap =>
      by_cases hcap : cap < db.efPayloadCapacity
      · refine ⟨_, hcopy _ (if_pos hcap), ?_⟩
        exact congrArg Prod.fst (if_pos hcap)
      · have hcap' : ¬ cap < (db.setError .ok).efPayloadCapacity := hcap
        refine ⟨_, hcopy _ (if_neg hcap), ?_⟩
        simp only [if_neg hcap']
        exact ⟨rfl, rfl, rfl⟩

/-! ### The invariant of the run -/

/-- What the local variables of a read say of the handles it has met: an entry that was found was
found on the handle that was probed last, and a slot id is what the key resolved to. -/
def PhaseInv (call : ReadCall) (moments : List Db) (probed : Db) : ReadPhase → Prop
  | .recheck _ _ (.ok e) | .translate e => probed ∈ moments ∧
      probed.efIndexFindEntryUnlocked call.keyHash = .ok e
  | .copy slotId => ∃ db ∈ moments, db.resolve call.keyHash = .ok slotId
  | .done (.ok (slotId, payload)) => (∃ db ∈ moments, db.resolve call.keyHash = .ok slotId) ∧
      ∀ bytes, payload = some bytes → ∃ db ∈ moments, bytes = db.slotPayload slotId
  | _ => True

/-- The present handle is among those the read has met, and the local variables tell of these. -/
structure ReadInv (call : ReadCall) (c : Reading) : Prop where
  now : c.db ∈ c.moments
  phase : PhaseInv call c.moments c.probed c.phase

/-- A longer run has met all the handles of a shorter one. -/
lemma PhaseInv.mono {moments moments' : List Db} {probed : Db} {p : ReadPhase}
    (h : PhaseInv call moments probed p) (hsub : moments ⊆ moments') :
    PhaseInv call moments' probed p := by
  unfold PhaseInv at h ⊢
  split at h
  · exact ⟨hsub h.1, h.2⟩
  · exact ⟨hsub h.1, h.2⟩
  · obtain ⟨db, hdb, hr⟩ := h
    exact ⟨db, hsub hdb, hr⟩
  · obtain ⟨⟨db, hdb, hr⟩, hbytes⟩ := h
    refine ⟨⟨db, hsub hdb, hr⟩, fun bytes hpay => ?_⟩
    obtain ⟨db', hdb', heq⟩ := hbytes bytes hpay
    exact ⟨db', hsub hdb', heq⟩
  · trivial

variable {moments : List Db} {probed : Db}

/-- A new attempt knows nothing. -/
lemma phaseInv_nextAttempt (attempt : ℕ) : PhaseInv call moments probed (nextAttempt attempt) := by
  unfold nextAttempt
  split_ifs
  · trivial
  · trivial

/-- The probe: the entry is found on the present handle. -/
lemma phaseInv_probe (hnow : db ∈ moments) (attempt seq1 : ℕ) :
    PhaseInv call moments db
      (.recheck attempt seq1 (db.efIndexFindEntryUnlocked call.keyHash)) := by
  rcases hf : db.efIndexFindEntryUnlocked call.keyHash with err | e
  · trivial
  · exact ⟨hnow, hf⟩

/-- What a probe finds, it finds at that moment.
Source: `ef_index.c`, `ef_index_find_entry_unlocked` -/
lemma phaseInv_unlocked (hnow : db ∈ moments) :
    PhaseInv call moments db (entryFound (db.efIndexFindEntryUnlocked call.keyHash)) := by
  rcases hf : db.efIndexFindEntryUnlocked call.keyHash with err | e
  · trivial
  · exact ⟨hnow, hf⟩

/-- The second look at the sequence keeps what was found.
Source: `ef_index.c`, `ef_index_find_entry` -/
lemma phaseInv_seqRecheck {attempt seq1 : ℕ} {found : Except Err HashEntry}
    (h : PhaseInv call moments probed (.recheck attempt seq1 found)) :
    PhaseInv call moments probed (db.seqRecheck attempt seq1 found) := by
  unfold seqRecheck
  cases found with
  | error err =>
      cases err with
      | notFound =>
          dsimp only
          split_ifs
          · trivial
          · exact phaseInv_nextAttempt attempt
      | _ => exact phaseInv_nextAttempt attempt
  | ok e =>
      dsimp only
      split_ifs
      · exact h
      · exact phaseInv_nextAttempt attempt

/-- The translation, where the slot region is where it was at the probe. -/
lemma phaseInv_translate {e : HashEntry} (hbase : db.slotsBase = probed.slotsBase)
    (hmax : db.sb.maxSlots = probed.sb.maxSlots) (h : PhaseInv call moments probed (.translate e)) :
    PhaseInv call moments probed (readStep call db (.translate e)) := by
  obtain ⟨hmem, hf⟩ := h
  have hcap : probed.hashCapacity = db.hashCapacity := by
    rw [db.slotsBase_eq, probed.slotsBase_eq] at hbase
    omega
  have hresolve : probed.resolve call.keyHash = db.efOffsetToSlotId e.slotOffset := by
    unfold resolve
    rw [hf]
    exact efOffsetToSlotId_congr hcap hmax.symm _
  rcases hid : db.efOffsetToSlotId e.slotOffset with err | slotId
  · rw [readStep_translate_error hid]
    trivial
  · rw [readStep_translate_ok hid]
    rw [hid] at hresolve
    cases call with
    | get key =>
        refine ⟨⟨probed, hmem, hresolve⟩, fun bytes hpay => ?_⟩
        cases hpay
    | getSlot key bufCap => exact ⟨probed, hmem, hresolve⟩

/-- The copy: the payload is that of the slot on the present handle. -/
lemma phaseInv_copy (hnow : db ∈ moments) {slotId : ℕ}
    (h : PhaseInv call moments probed (.copy slotId)) :
    PhaseInv call moments probed (db.copyPayload slotId call) := by
  have hnone : (∀ bytes : List UInt8, none = some bytes →
      ∃ db ∈ moments, bytes = db.slotPayload slotId) := by
    intro bytes hpay
    cases hpay
  unfold copyPayload
  cases call with
  | get key => exact ⟨h, hnone⟩
  | getSlot key bufCap =>
      dsimp only
      rcases db.efPeekSlot slotId with ⟨_ | p, db₁⟩
      · trivial
      cases bufCap with
      | none => exact ⟨h, hnone⟩
      | some cap =>
          dsimp only
          split_ifs
          · trivial
          · refine ⟨h, fun bytes hpay => ⟨db, hnow, ?_⟩⟩
            exact (Option.some.inj hpay).symm

/-- A step of the read keeps the invariant, if a translation is in place. -/
lemma ReadInv.read (h : ReadInv call c) (hc : TranslatesInPlace c) : ReadInv call (c.advance call) := by
  refine ⟨h.now, ?_⟩
  have hphase := h.phase
  have hnow := h.now
  unfold Reading.advance
  rcases hp : c.phase with _ | attempt | ⟨attempt, seq1⟩ | ⟨attempt, seq1, found⟩ | _ | e | slotId | r
  · -- the start asks for the capacity and the schema
    dsimp only [readStep]
    split_ifs
    · trivial
    · trivial
    · trivial
  · dsimp only [readStep]
    split_ifs
    · exact phaseInv_nextAttempt attempt
    · trivial
  · exact phaseInv_probe hnow attempt seq1
  · rw [hp] at hphase
    show PhaseInv call c.moments c.probed (c.db.seqRecheck attempt seq1 found)
    exact phaseInv_seqRecheck hphase
  · exact phaseInv_unlocked hnow
  · rw [hp] at hphase
    obtain ⟨hbase, hmax⟩ := hc e hp
    show PhaseInv call c.moments c.probed (readStep call c.db (.translate e))
    exact phaseInv_translate hbase hmax hphase
  · rw [hp] at hphase
    show PhaseInv call c.moments c.probed (c.db.copyPayload slotId call)
    exact phaseInv_copy hnow hphase
  · rw [hp] at hphase
    exact hphase

/-- A call of the writer keeps the invariant. -/
lemma ReadInv.write (h : ReadInv call c) (env : Env) (op : IndexOp) :
    ReadInv call (c.interrupt env op) :=
  ⟨List.mem_cons_self, h.phase.mono (List.subset_cons_self _ _)⟩

/-! ### Runs -/

/-- **A read whose translation finds the slot region in place linearises**: from every handle, with
any complete calls of the writer between any two steps of the read, a read that returns `EF_OK`
returns a slot that the key's hash led to on some handle of the run, with the payload of that slot.
Source: `ef_index.c`, `ef_index_get` and `ef_index_get_slot` -/
theorem readRun_linearises (hrun : ReadRun TranslatesInPlace call db₀ c) : Linearises call c := by
  have hinv : ReadInv call c := by
    induction hrun with
    | start => exact ⟨List.mem_cons_self, trivial⟩
    | read c _ hc ih => exact ih.read hc
    | write c _ env op ih => exact ih.write env op
  intro slotId payload hdone
  have hphase := hinv.phase
  rw [hdone] at hphase
  exact hphase

/-- A step of the read, or a call of the writer. -/
abbrev ReadTurn := Option (Env × IndexOp)

/-- The read after one turn. -/
def Reading.turn (call : ReadCall) (c : Reading) : ReadTurn → Reading
  | none => c.advance call
  | some (env, op) => c.interrupt env op

/-- The read after a series of turns. -/
def Reading.turns (call : ReadCall) (c : Reading) (ts : List ReadTurn) : Reading :=
  ts.foldl (·.turn call) c

/-- Whether the translation that comes next, if one does, is in place. -/
def Reading.inPlace (c : Reading) : Bool :=
  match c.phase with
  | .translate _ => c.db.slotsBase = c.probed.slotsBase ∧ c.db.sb.maxSlots = c.probed.sb.maxSlots
  | _ => true

/-- The condition, as a test. -/
lemma Reading.translatesInPlace (h : c.inPlace = true) : TranslatesInPlace c := by
  intro found hp
  unfold Reading.inPlace at h
  rw [hp] at h
  exact of_decide_eq_true h

/-- Whether all the translations of a series of turns are in place. -/
def Reading.staysInPlace (call : ReadCall) : Reading → List ReadTurn → Bool
  | _, [] => true
  | c, none :: ts => c.inPlace && staysInPlace call (c.advance call) ts
  | c, some (env, op) :: ts => staysInPlace call (c.interrupt env op) ts

/-- A series of turns in place is a run. -/
lemma ReadRun.turns (h : ReadRun TranslatesInPlace call db₀ c) {ts : List ReadTurn}
    (hin : c.staysInPlace call ts = true) : ReadRun TranslatesInPlace call db₀ (c.turns call ts) := by
  induction ts generalizing c with
  | nil => exact h
  | cons t ts ih =>
      rcases t with _ | ⟨env, op⟩
      · unfold Reading.staysInPlace at hin
        obtain ⟨hc, hin⟩ := Bool.and_eq_true_iff.mp hin
        exact ih (.read c h (Reading.translatesInPlace hc)) hin
      · exact ih (.write c h env op) hin

/-- A series of turns is a run without conditions. -/
lemma readRun_turns (h : ReadRun (fun _ => True) call db₀ c) (ts : List ReadTurn) :
    ReadRun (fun _ => True) call db₀ (c.turns call ts) := by
  induction ts generalizing c with
  | nil => exact h
  | cons t ts ih =>
      rcases t with _ | ⟨env, op⟩
      · exact ih (.read c h trivial)
      · exact ih (.write c h env op)

/-- One key that leads to slot 1, where a payload was written. -/
def oneKey : Db :=
  ((fourBuckets.efAllocSlot.2.2.efAllocSlot.2.2.efIndexPut [97] 1).2.efWritePayload 1 [104, 105]).2

/-- A rehash after the probe, so that the table is probed again, and a second key while the entry is
translated. -/
def busyWriter : List ReadTurn :=
  [none, none, none, some (Env.quiet, .rehash 8), none, none, none, none,
    some (Env.quiet, .put [98] 0), none, some (Env.quiet, .remove [97]), none]

/-- A read with its payload, with three calls of the writer between its steps. -/
theorem readRun_linearises_busy :
    ((Reading.begin oneKey).turns (.getSlot [97] (some 48)) busyWriter).phase =
        .done (.ok (1, some ([104, 105] ++ List.replicate 46 0))) ∧
      Linearises (.getSlot [97] (some 48))
        ((Reading.begin oneKey).turns (.getSlot [97] (some 48)) busyWriter) :=
  ⟨by decide +kernel, readRun_linearises (ReadRun.start.turns (by decide +kernel))⟩

/-- The read up to the translation, a rehash, and the translation. -/
def rehashBetween : Reading :=
  (Reading.begin oneKey).turns (.get [97]) [none, none, none, none, some (Env.quiet, .rehash 8), none]

/-- A rehash between the second load of the sequence number and the translation: the read returns
slot 0, where the key has led to slot 1 on both handles. -/
theorem readRun_rehash_between :
    ReadRun (fun _ => True) (.get [97]) oneKey rehashBetween ∧ ¬ Linearises
        (.get [97]) rehashBetween := by
  refine ⟨readRun_turns .start _, fun hlin => ?_⟩
  have hdone : rehashBetween.phase = .done (.ok (0, none)) := by decide +kernel
  have hone : ∀ db ∈ rehashBetween.moments, db.resolve (ReadCall.get [97]).keyHash = .ok 1 := by
    decide +kernel
  obtain ⟨⟨db, hdb, hr⟩, -⟩ := hlin 0 none hdone
  rw [hone db hdb] at hr
  cases hr

end Db

end Endfields.Model
