import Mathlib

/-!
# Rolling back a run of logged steps

A step of a system changes its state and appends records to a log; undoing the records in reverse
order is meant to lead back. This file has the argument that lifts that property from one step to a
run, for any states, records and notion of "the same state".

* `Reverses undo R v rs v'`: undoing the records `rs` takes every state that is the same as `v'` to
  one that is the same as `v`.
* **Runs** (`run_reverses`): when every step of a run reverses, with the log growing by the records
  of the step, the whole run does, with the whole log.
* `Undone undoes rs x y`: the same for inverse actions that are a relation, because they may fail.
-/

namespace Endfields.Lib

variable {V ρ : Type*} (undo : ρ → V → V) (R : V → V → Prop)

/-- Undoing the records `rs`, the last one first, leads from `v'` back to `v`, up to `R`. -/
def Reverses (v : V) (rs : List ρ) (v' : V) : Prop := ∀ x, R x v' → R (rs.foldr undo x) v

variable {undo R}

lemma Reverses.refl (v : V) : Reverses undo R v [] v := fun _ hx => hx

lemma Reverses.single {v v' : V} {r : ρ} (h : ∀ x, R x v' → R (undo r x) v) :
    Reverses undo R v [r] v' := h

/-- Logs compose as the steps do. -/
lemma Reverses.trans {v v' v'' : V} {rs rs' : List ρ} (h : Reverses undo R v rs v')
    (h' : Reverses undo R v' rs' v'') : Reverses undo R v (rs ++ rs') v'' := by
  intro x hx
  rw [List.foldr_append]
  exact h _ (h' x hx)

/-- What was the same state before a change that `R` does not see is the same after it. -/
lemma Reverses.congr_right {v v' w : V} {rs : List ρ} (h : Reverses undo R v rs v')
    (hw : ∀ x, R x w → R x v') : Reverses undo R v rs w := fun x hx => h x (hw x hx)

variable {S α : Type*} (step : α → S → S)

/-- A run of steps. -/
def runAll (ops : List α) (s : S) : S := ops.foldl (fun s a => step a s) s

/-- Every step of the run meets the condition `good` in the state it starts from. -/
def GoodRun (good : α → S → Prop) : List α → S → Prop
  | [], _ => True
  | a :: ops, s => good a s ∧ GoodRun good ops (step a s)

/-- Two conditions on the steps of a run are one. -/
lemma GoodRun.and {step : α → S → S} {good good' : α → S → Prop} {ops : List α} {s : S}
    (h : GoodRun step good ops s) (h' : GoodRun step good' ops s) :
    GoodRun step (fun a s => good a s ∧ good' a s) ops s := by
  induction ops generalizing s with
  | nil => trivial
  | cons a ops ih => exact ⟨⟨h.1, h'.1⟩, ih h.2 h'.2⟩

variable {step} {good : α → S → Prop} (view : S → V) (inv : S → Prop) (log : S → List ρ → Prop)

/-- **Runs.** When every good step keeps the invariant and reverses with the records it appends, so
does every run of good steps. -/
theorem run_reverses
    (hstep : ∀ a s rs, inv s → log s rs → good a s →
      inv (step a s) ∧ ∃ rs', log (step a s) (rs ++ rs') ∧
        Reverses undo R (view s) rs' (view (step a s))) :
    ∀ ops s rs, inv s → log s rs → GoodRun step good ops s →
      inv (runAll step ops s) ∧ ∃ rs', log (runAll step ops s) (rs ++ rs') ∧
        Reverses undo R (view s) rs' (view (runAll step ops s)) := by
  intro ops
  induction ops with
  | nil =>
      intro s rs hinv hlog _
      exact ⟨hinv, [], by simpa [runAll] using hlog, Reverses.refl _⟩
  | cons a ops ih =>
      intro s rs hinv hlog hgood
      obtain ⟨hinv', rs', hlog', hrev⟩ := hstep a s rs hinv hlog hgood.1
      obtain ⟨hinv'', rs'', hlog'', hrev'⟩ := ih (step a s) (rs ++ rs') hinv' hlog' hgood.2
      refine ⟨hinv'', rs' ++ rs'', ?_, hrev.trans hrev'⟩
      rw [← List.append_assoc]
      exact hlog''

/-! ### Inverse actions that may fail -/

variable {undoes : ρ → S → S → Prop}

/-- Undoing the records, the last one first, leads from `x` to `y`. -/
def Undone (undoes : ρ → S → S → Prop) : List ρ → S → S → Prop
  | [], x, y => x = y
  | r :: rs, x, y => ∃ m, Undone undoes rs x m ∧ undoes r m y

lemma undone_append {rs rs' : List ρ} {x y : S} :
    Undone undoes (rs ++ rs') x y ↔ ∃ m, Undone undoes rs' x m ∧ Undone undoes rs m y := by
  induction rs generalizing y with
  | nil => simp [Undone]
  | cons r rs ih =>
      simp only [List.cons_append, Undone, ih]
      constructor
      · rintro ⟨m, ⟨m', h₁, h₂⟩, h₃⟩
        exact ⟨m', h₁, m, h₂, h₃⟩
      · rintro ⟨m', h₁, m, h₂, h₃⟩
        exact ⟨m, ⟨m', h₁, h₂⟩, h₃⟩

lemma undone_singleton {r : ρ} {x y : S} : Undone undoes [r] x y ↔ undoes r x y := by
  simp [Undone]

/-- What every inverse action keeps, undoing a log keeps. -/
lemma Undone.preserves {P : S → Prop} (hstep : ∀ r x y, undoes r x y → P x → P y)
    {rs : List ρ} {x y : S}
    (h : Undone undoes rs x y) (hx : P x) : P y := by
  induction rs generalizing y with
  | nil => exact h ▸ hx
  | cons r rs ih =>
      obtain ⟨m, hm, hr⟩ := h
      exact hstep r m y hr (ih hm)

end Endfields.Lib
