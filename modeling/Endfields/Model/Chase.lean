import Endfields.Model.Slots

/-!
# Following links

`ef_chase`, one hop, and `ef_chase_n`, many hops with a cache of the offsets that were visited. A
function that returns a slot pointer or `NULL` returns `Option ℕ × Db`; `ef_chase_n` also returns
the hop count that it writes, if it writes one.
-/

namespace Endfields.Model

open Endfields.Lib

/-- Source: `ef_config.h`, `EF_CHASE_MAX_DEPTH` -/
def efChaseMaxDepth : ℕ := 1024

/-- Source: `endfields.c`, `EF_CHASE_VISIT_CACHE` -/
def efChaseVisitCache : ℕ := 64

/-- How the loop of `ef_chase_n` ends: with an error, at a slot without a link, or at an offset when
its rounds are used up. -/
inductive ChaseEnd
  | failed (err : Err)
  | landed (p hopsDone : ℕ)
  | reached (offset : ℕ)
  deriving DecidableEq, Repr

namespace Db

/-- Source: `endfields.c`, `ef_chase` -/
def efChase (db : Db) (current : ℕ) : Option ℕ × Db :=
  let next := (db.slotAt current).nextOffset
  if next = 0 then (none, db.setError .offset)
  else if next < db.slotsBase ∨ db.fileSize ≤ next then (none, db.setError .offset)
  else if (next - db.slotsBase) % 64 ≠ 0 then (none, db.setError .offset)
  else if (db.slotAt next).status ≠ statusUsed then (none, db.setError .slotFree)
  else (some next, db.setError .ok)

/-- Source: `endfields.c`, `ef_chase_offset_seen` -/
def efChaseOffsetSeen (offset : ℕ) (seen : List ℕ) : Bool := seen.contains offset

/-- The loop of `ef_chase_n`, with the rounds that are left, the number of the round, the offset and
the cache. -/
def chaseLoop (db : Db) : ℕ → ℕ → ℕ → List ℕ → ChaseEnd
  | 0, _, offset, _ => .reached offset
  | fuel + 1, i, offset, seen =>
      if efChaseOffsetSeen offset seen then .failed .chaseCycle
      else
        let seen := if seen.length < efChaseVisitCache then seen ++ [offset] else seen
        let slot := db.slotAt offset
        if slot.status ≠ statusUsed then .failed .slotFree
        else if slot.nextOffset = 0 then .landed offset (i + 1)
        else chaseLoop db fuel (i + 1) slot.nextOffset seen

/-- Source: `endfields.c`, `ef_chase_n` -/
def efChaseN (db : Db) (startOffset hops : ℕ) : Option ℕ × Option ℕ × Db :=
  if hops = 0 then
    if (db.efSlotAtOffset startOffset).isNone then (none, some 0, db.setError .offset)
    else
      let (p, db) := (db.setError .ok).efOffsetToPtr startOffset
      (p, some 0, db)
  else
    let limit := if efChaseMaxDepth < hops then efChaseMaxDepth else hops
    if startOffset < db.slotsBase ∨ db.fileSize ≤ startOffset then (none, none, db.setError .offset)
    else if (startOffset - db.slotsBase) % 64 ≠ 0 then (none, none, db.setError .offset)
    else
      match db.chaseLoop limit 0 startOffset [] with
      | .failed err => (none, none, db.setError err)
      | .landed p hopsDone => (some p, some hopsDone, db.setError .ok)
      | .reached offset =>
          if efChaseMaxDepth < hops then (none, none, db.setError .chaseDepth)
          else (some offset, some limit, db.setError .ok)

end Db

end Endfields.Model
