import Mathlib.Data.Nat.Notation
import Mathlib.Logic.Function.Basic
import Mathlib.Tactic.SplitIfs
import Mathlib.Tactic.TypeStar

/-!
# A word shared through compare-and-swap loops

Processes change one word. An update reads the word, computes the new one from what it has read, and
swaps it in if the word is still that; else it goes on with the word that it found, or reads again.
An update that has no new word for what it has read starts another round, up to a limit.

* `Loops`: the updates, and how their loops go; `Pc`: where a process is in its loop.
* `State`, `Action`, `step`: one process makes one atomic access; `Event`: what the outside sees of
  it.
* **`step_cases`**: what a step can do. The word changes by a whole update of the word that is
  there, or not at all, whatever the other processes have done since the update has read it.
-/

namespace Endfields.Lib.CasLoop

/-- The updates. -/
structure Loops (ω W : Type*) where
  /-- The new word for the one that was read. -/
  update : ω → W → Option W
  /-- The loop reads again when its swap has failed. -/
  rereads : ω → Bool
  /-- The rounds that find no new word. -/
  limit : ℕ

/-- Where a process is: out of the loop, before the read, or before the swap with what it has
read. -/
inductive Pc (ω W : Type*) where
  | idle
  | load (op : ω) (round : ℕ)
  | swap (op : ω) (round : ℕ) (seen : W)

/-- The word and the processes. -/
structure State (π ω W : Type*) where
  word : W
  pc : π → Pc ω W

/-- A process starts an update, or makes its next access. -/
inductive Action (π ω : Type*) where
  | call (p : π) (op : ω)
  | run (p : π)

/-- A step ends an update, gives it up, or does neither. -/
inductive Event (π ω : Type*) where
  | silent
  | done (p : π) (op : ω)
  | busy (p : π) (op : ω)

/-- The update that the process makes. -/
def Pc.runs {ω W : Type*} : Pc ω W → Option ω
  | .idle => none
  | .load op _ => some op
  | .swap op _ _ => some op

variable {π ω W : Type*} [DecidableEq π]

/-- The process is somewhere else. -/
def State.move (s : State π ω W) (p : π) (pc : Pc ω W) : State π ω W :=
  { s with pc := Function.update s.pc p pc }

@[simp] lemma pc_move_self (s : State π ω W) (p : π) (pc : Pc ω W) : (s.move p pc).pc p = pc := by
  unfold State.move
  exact Function.update_self p pc s.pc

lemma pc_move_of_ne (s : State π ω W) {p q : π} (pc : Pc ω W) (h : q ≠ p) :
    (s.move p pc).pc q = s.pc q := by
  unfold State.move
  exact Function.update_of_ne h pc s.pc

section Step

variable [DecidableEq W] (loops : Loops ω W)

/-- One atomic access of one process. -/
def step (s : State π ω W) : Action π ω → Option (Event π ω × State π ω W)
  | .call p op =>
      match s.pc p with
      | .idle => some (.silent, s.move p (.load op 1))
      | _ => none
  | .run p =>
      match s.pc p with
      | .idle => none
      | .load op round => some (.silent, s.move p (.swap op round s.word))
      | .swap op round seen =>
          match loops.update op seen with
          | none =>
              if loops.limit < round + 1 then some (.busy p op, s.move p .idle)
              else some (.silent, s.move p (.load op (round + 1)))
          | some new =>
              if s.word = seen then some (.done p op, { s.move p .idle with word := new })
              else if loops.rereads op then some (.silent, s.move p (.load op round))
              else some (.silent, s.move p (.swap op round s.word))

end Step

variable [DecidableEq W] {loops : Loops ω W} {s s' : State π ω W} {a : Action π ω} {e : Event π ω}

/-- **What a step can do**: start an update, go on with it, give it up, or end it. -/
lemma step_cases (h : step loops s a = some (e, s')) :
    (∃ p op, a = .call p op ∧ s.pc p = .idle ∧ e = .silent ∧ s' = s.move p (.load op 1)) ∨
      (∃ p op pc, a = .run p ∧ (s.pc p).runs = some op ∧ pc.runs = some op ∧ e = .silent ∧
        s' = s.move p pc) ∨
      (∃ p op, a = .run p ∧ (s.pc p).runs = some op ∧ e = .busy p op ∧ s' = s.move p .idle) ∨
      ∃ p op new, a = .run p ∧ (s.pc p).runs = some op ∧ loops.update op s.word = some new ∧
        e = .done p op ∧ s' = { s.move p .idle with word := new } := by
  cases a with
  | call p op =>
      rw [step] at h
      rcases hpc : s.pc p with _ | ⟨op', round⟩ | ⟨op', round, seen⟩
      · simp only [hpc, Option.some.injEq, Prod.mk.injEq] at h
        exact .inl ⟨p, op, rfl, hpc, h.1.symm, h.2.symm⟩
      · simp [hpc] at h
      · simp [hpc] at h
  | run p =>
      rw [step] at h
      rcases hpc : s.pc p with _ | ⟨op, round⟩ | ⟨op, round, seen⟩
      · simp [hpc] at h
      · simp only [hpc, Option.some.injEq, Prod.mk.injEq] at h
        exact .inr (.inl ⟨p, op, _, rfl, by rw [hpc]; rfl, rfl, h.1.symm, h.2.symm⟩)
      have hruns : (s.pc p).runs = some op := by
        rw [hpc]
        rfl
      simp only [hpc] at h
      rcases hup : loops.update op seen with _ | new
      · simp only [hup] at h
        split_ifs at h with hlim
        · simp only [Option.some.injEq, Prod.mk.injEq] at h
          exact .inr (.inr (.inl ⟨p, op, rfl, hruns, h.1.symm, h.2.symm⟩))
        · simp only [Option.some.injEq, Prod.mk.injEq] at h
          exact .inr (.inl ⟨p, op, _, rfl, hruns, rfl, h.1.symm, h.2.symm⟩)
      · simp only [hup] at h
        split_ifs at h with hseen
        · simp only [Option.some.injEq, Prod.mk.injEq] at h
          exact .inr (.inr (.inr ⟨p, op, new, rfl, hruns, hseen ▸ hup, h.1.symm, h.2.symm⟩))
        · simp only [Option.some.injEq, Prod.mk.injEq] at h
          exact .inr (.inl ⟨p, op, _, rfl, hruns, rfl, h.1.symm, h.2.symm⟩)
        · simp only [Option.some.injEq, Prod.mk.injEq] at h
          exact .inr (.inl ⟨p, op, _, rfl, hruns, rfl, h.1.symm, h.2.symm⟩)

end Endfields.Lib.CasLoop
