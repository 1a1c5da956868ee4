import Endfields.Model.Open
import Mathlib.Logic.Function.Basic
import Mathlib.Tactic.TypeStar

/-!
# Several handles on one image

Parties that map one image, each through its own handle. A handle has its own copy of what it read
when it was opened; the bytes are those of the image, and every complete call sees what the calls
before it have left there.
-/

namespace Endfields.Model

open Endfields.Lib

/-- An image of `size` bytes and the handles that are open on it. What a handle holds as its bytes
is what they were after its last call. -/
structure Shared (ι : Type*) where
  mem : Mem
  size : ℕ
  handle : ι → Option Db

/-- The two opens of an image for writing. -/
inductive OpenKind
  | memory (maxSlots hashCapacity : ℕ)
  | file (initialSlots hashCapacity : ℕ)

namespace OpenKind

/-- Source: `endfields.c`, `ef_open_memory_hash` and `ef_open_ex_hash` on an image that is there -/
def run (m : Mem) (size : ℕ) (env : Env) : OpenKind → Err × Db
  | memory maxSlots hashCapacity => Db.efOpenMemoryHash m size maxSlots hashCapacity false env
  | file initialSlots hashCapacity => Db.efOpenExHash m size initialSlots hashCapacity env

/-- The capacity that the caller asks for. -/
def hashCapacity : OpenKind → ℕ
  | memory _ hashCapacity => hashCapacity
  | file _ hashCapacity => hashCapacity

/-- The number of bytes that the open maps. -/
def mapSize (m : Mem) (size : ℕ) : OpenKind → ℕ
  | memory _ _ =>
      efExpectedFileSize (Superblock.read m).maxSlots (efHashCapacityFromSb m)
        (if (Superblock.read m).schemaVersion = schemaVersion then undoLogDefaultSlots else 0)
  | file _ _ => size

end OpenKind

namespace Shared

variable {ι : Type*} [DecidableEq ι]

/-- A party opens the image; a handle comes of it only if that succeeds. -/
def opens (s : Shared ι) (i : ι) (env : Env) (kind : OpenKind) : Shared ι :=
  match s.handle i with
  | some _ => s
  | none =>
      let r := kind.run s.mem s.size env
      { s with
        mem := r.2.mem
        handle := Function.update s.handle i (if r.1 = .ok then some r.2 else none) }

/-- A party makes a complete call through its handle. -/
def calls (s : Shared ι) (i : ι) (env : Env) (f : Db → Err × Db) : Shared ι :=
  match s.handle i with
  | none => s
  | some db =>
      let r := f { db with mem := s.mem, env := env }
      { s with mem := r.2.mem, handle := Function.update s.handle i (some r.2) }

end Shared

end Endfields.Model
