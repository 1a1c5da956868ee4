import Mathlib.Data.List.Basic

/-!
# A first-in first-out queue

The abstract queue: a list of messages, and what a call on it shows its caller.

* `Fifo.Step q e q'`: the call with the outcome `e` takes the queue from `q` to `q'`.
* **First in, first out** (`Fifo.Steps.fifo`): over a whole run, what came out with what is left is
  what was there with what went in, in this order.
-/

namespace Endfields.Lib

namespace Fifo

variable {α : Type*}

/-- The outcome of a call: a message went in, a message came out, the queue was found empty, or the
call had nothing to do with the queue. -/
inductive Event (α : Type*)
  | pushed (a : α)
  | popped (a : α)
  | empty
  | silent

/-- What a call with a given outcome does to the queue. -/
def Step : List α → Event α → List α → Prop
  | q, .pushed a, q' => q' = q ++ [a]
  | q, .popped a, q' => q = a :: q'
  | q, .empty, q' => q = [] ∧ q' = []
  | q, .silent, q' => q' = q

/-- The message that went in. -/
def Event.input : Event α → List α
  | .pushed a => [a]
  | _ => []

/-- The message that came out. -/
def Event.output : Event α → List α
  | .popped a => [a]
  | _ => []

/-- The messages that went in, and those that came out, in order. -/
def inputs (es : List (Event α)) : List α := es.flatMap Event.input

def outputs (es : List (Event α)) : List α := es.flatMap Event.output

/-- Calls one after the other. -/
inductive Steps : List α → List (Event α) → List α → Prop
  | nil (q : List α) : Steps q [] q
  | snoc {q q' q'' : List α} {es : List (Event α)} {e : Event α} (h : Steps q es q')
      (hs : Step q' e q'') : Steps q (es ++ [e]) q''

variable {q q' : List α} {e : Event α} {es : List (Event α)}

lemma Step.fifo (h : Step q e q') : e.output ++ q' = q ++ e.input := by
  cases e with
  | pushed a => exact h
  | popped a =>
      have hq : q = a :: q' := h
      rw [hq]
      exact (List.append_nil _).symm
  | empty =>
      obtain ⟨rfl, rfl⟩ : q = [] ∧ q' = [] := h
      rfl
  | silent =>
      have hq : q' = q := h
      rw [hq]
      exact (List.append_nil _).symm

/-- **First in, first out.** -/
theorem Steps.fifo (h : Steps q es q') : outputs es ++ q' = q ++ inputs es := by
  induction h with
  | nil => exact (List.append_nil _).symm
  | snoc h hs ih =>
      have hstep := hs.fifo
      simp only [outputs, inputs, List.flatMap_append, List.flatMap_singleton] at ih ⊢
      rw [List.append_assoc, hstep, ← List.append_assoc, ih, List.append_assoc]

end Fifo

end Endfields.Lib
