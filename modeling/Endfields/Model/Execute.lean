import Endfields.Model.Visit
import Endfields.Model.Write

/-!
# The command executor

`ef_execute.c`: one entry point that takes a packed command and dispatches on its opcode. `aux` is
the caller's memory, as its bytes; a null pointer is `none`.
-/

namespace Endfields.Model

open Endfields.Lib

/-- Source: `endfields.h`, `EF_OP_*` -/
inductive Opcode
  | getSlot | chase | getField | writePayload | setNext | setStatus | writeField | alloc | free | chaseN
  | indexPut | indexGet | indexRemove | indexClear | queuePush | queuePop
  deriving DecidableEq, Repr

/-- The opcode of a byte.
Source: `endfields.h`, `EF_OP_*` -/
def Opcode.ofByte : ℕ → Option Opcode
  | 0x01 => some getSlot
  | 0x02 => some chase
  | 0x03 => some getField
  | 0x04 => some writePayload
  | 0x05 => some setNext
  | 0x06 => some setStatus
  | 0x07 => some writeField
  | 0x08 => some alloc
  | 0x09 => some free
  | 0x0A => some chaseN
  | 0x10 => some indexPut
  | 0x11 => some indexGet
  | 0x12 => some indexRemove
  | 0x13 => some indexClear
  | 0x14 => some queuePush
  | 0x15 => some queuePop
  | _ => none

/-- Source: `endfields.h`, `struct ef_cmd` -/
structure Cmd where
  opcode : ℕ
  param : ℕ
  fieldOffset : ℕ
  deriving DecidableEq, Repr

/-- What the returned pointer leads to: nothing, a place in the mapping, the constant `1`, a new
buffer with a slot id, or the caller's buffer with a message. -/
inductive Ret
  | null
  | pointer (p : ℕ)
  | done
  | slotId (i : ℕ)
  | message (bs : List UInt8)
  deriving DecidableEq, Repr

/-- What a command leaves: its return value, the command and the caller's memory as they are written
to, and the handle. -/
structure Executed where
  ret : Ret
  cmd : Cmd
  aux : Option (List UInt8)
  db : Db

/-- The key of an index command, in its heap buffer: the counted bytes and a zero byte.
Source: `ef_execute.c`, `ef_execute` -/
def executeKey (aux : List UInt8) : List UInt8 := aux.tail.take (aux.headD 0).toNat ++ [0]

/-- The word at the start of the caller's memory. -/
def auxWord (bs : List UInt8) (w : ℕ) : ℕ := load (writeBytes (fun _ => 0) 0 bs) 0 w

namespace Db

/-- A slot pointer as a return value. -/
def retSlot : Option ℕ × Db → Ret × Db
  | (none, db) => (.null, db)
  | (some p, db) => (.pointer p, db)

/-- The slot after a call that succeeded. -/
def retSlotIfOk (slotId : ℕ) : Err × Db → Ret × Db
  | (.ok, db) => retSlot (db.efGetSlot slotId)
  | (_, db) => (.null, db)

/-- `(void *)1` after a call that succeeded. -/
def retDoneIfOk : Err × Db → Ret × Db
  | (.ok, db) => (.done, db)
  | (_, db) => (.null, db)

/-- A null pointer where data is due, after the check for a read-only handle.
Source: `endfields.c`, `ef_write_payload`; `ef_queue.c`, `ef_queue_push` and `ef_queue_pop` -/
def refuseNull (db : Db) : Db :=
  match db.efDbRequireWrite with
  | (.ok, db) => db.setError .nullArg
  | (_, db) => db

/-- Source: `ef_execute.c`, `ef_execute` -/
def efExecute (db : Db) (cmd : Cmd) (aux : Option (List UInt8)) : Executed :=
  let leave (r : Ret × Db) : Executed := ⟨r.1, cmd, aux, r.2⟩
  match Opcode.ofByte cmd.opcode, aux with
  | some .getSlot, _ => leave (retSlot (db.efGetSlot cmd.param))
  | some .chase, _ =>
      match db.efOffsetToPtr cmd.param with
      | (none, db) => leave (.null, db.setError .nullArg)
      | (some p, db) => leave (retSlot (db.efChase p))
  | some .getField, _ =>
      let (slot, db) := db.efGetSlot cmd.param
      leave (retSlot (efGetFieldPtr slot cmd.fieldOffset, db))
  | some .writePayload, some bs =>
      leave (retSlotIfOk cmd.param (db.efWritePayload cmd.param (bs.take cmd.fieldOffset)))
  | some .writePayload, none =>
      if cmd.fieldOffset = 0 then leave (retSlotIfOk cmd.param (db.efWritePayload cmd.param []))
      else leave (.null, db.refuseNull)
  | some .setNext, some bs =>
      leave (retSlotIfOk cmd.param (db.efSetNextOffset cmd.param (auxWord bs 8)))
  | some .setStatus, some bs =>
      leave (retSlotIfOk cmd.param (db.efSetStatus cmd.param (auxWord bs 4)))
  | some .writeField, some bs =>
      match db.efWriteField cmd.param cmd.fieldOffset (bs.headD 0) with
      | (.ok, db) =>
          let (slot, db) := db.efGetSlot cmd.param
          leave (retSlot (efGetFieldPtr slot cmd.fieldOffset, db))
      | (_, db) => leave (.null, db)
  | some .alloc, some bs =>
      match db.efAllocSlot with
      | (.ok, slotId, db) =>
          let (ret, db) := retSlot (db.efGetSlot slotId)
          ⟨ret, cmd, some (leBytes 8 slotId ++ bs.drop 8), db⟩
      | (_, _, db) => leave (.null, db)
  | some .free, _ => leave (retDoneIfOk (db.efFreeSlot cmd.param))
  | some .chaseN, _ =>
      if cmd.fieldOffset = 0 ∧ aux = none then leave (.null, db.setError .nullArg)
      else
        let hops := if cmd.fieldOffset = 0 then auxWord (aux.getD []) 4 else cmd.fieldOffset
        let (slot, hopsDone, db) := db.efChaseN cmd.param hops
        let (ret, db) := retSlot (slot, db)
        ⟨ret, { cmd with fieldOffset := hopsDone.getD 0 % 256 }, aux, db⟩
  | some .indexPut, some bs =>
      if db.env.mallocFails then leave (.null, db.setError .oom)
      else leave (retSlotIfOk cmd.param (db.efIndexPut (executeKey bs) cmd.param))
  | some .indexGet, some bs =>
      if db.env.mallocFails then leave (.null, db.setError .oom)
      else
        match db.efIndexGet (executeKey bs) with
        | .error _ => leave (.null, db)
        | .ok found => leave (.slotId found, db)
  | some .indexRemove, some bs =>
      if db.env.mallocFails then leave (.null, db.setError .oom)
      else leave (retDoneIfOk (db.efIndexRemove (executeKey bs)))
  | some .indexClear, _ => leave (retDoneIfOk db.efIndexClear)
  | some .queuePush, some bs => leave (retDoneIfOk (db.efQueuePush (bs.take cmd.fieldOffset)))
  | some .queuePush, none =>
      if cmd.fieldOffset = 0 then leave (retDoneIfOk (db.efQueuePush []))
      else leave (.null, db.refuseNull)
  | some .queuePop, some bs =>
      -- the parameter is the address to which the length of the message goes
      if cmd.param = 0 then leave (.null, db.refuseNull)
      else
        match db.efQueuePop cmd.fieldOffset with
        | (.ok, message, db) =>
            ⟨.message message, cmd, some (message ++ bs.drop message.length), db⟩
        | (_, _, db) => leave (.null, db)
  | some .queuePop, none => leave (.null, db.refuseNull)
  | some .setNext, none | some .setStatus, none | some .writeField, none | some .alloc, none
  | some .indexPut, none | some .indexGet, none | some .indexRemove, none =>
      leave (.null, db.setError .nullArg)
  | none, _ => leave (.null, db.setError .opcode)

end Db

end Endfields.Model
