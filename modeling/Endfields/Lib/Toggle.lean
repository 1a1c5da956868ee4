import Endfields.Lib.Chain

/-!
# A walk and one of its nodes

A list is walked along the links of the nodes that are `good`. One node `a` changes: it stops being
good, or starts to be, or keeps that. The other nodes and their links stay.

* `withNode lookup good a`: the nodes to go on at, with `a` counted as one of them whatever it is.
  The walk along it shows whether `a` is looked at at all.
* **The change** (`walk_toggle`, `length_walk_toggle`): the walk stays what it was if `a` is not
  looked at or counts as before; else its length changes.
-/

namespace Endfields.Lib

variable {ω α : Type*} [DecidableEq α] {lookup : ω → Option α} {good good' : α → Bool}
  {next next' : α → ω} {a : α} {k : ℕ} {off : ω}

/-- The node at a link, if it is good or `a`. -/
def withNode (lookup : ω → Option α) (good : α → Bool) (a : α) (o : ω) : Option α :=
  (lookup o).filter fun b => b = a ∨ good b

/-- The walk that does not go on at `a` is the other one up to `a`. -/
lemma walk_of_not_good (hgood : ∀ b, b ≠ a → good' b = good b) (hnext : ∀ b, b ≠ a → next' b = next b)
    (ha : good' a = false) : walk (fun o => (lookup o).filter good') next' k off =
      (walk (withNode lookup good a) next k off).takeWhile (· ≠ a) := by
  induction k generalizing off with
  | zero => rfl
  | succ k ih =>
      unfold walk
      have hat : withNode lookup good a off = (lookup off).filter fun b => b = a ∨ good b := rfl
      rw [hat]
      rcases lookup off with _ | b
      · rfl
      by_cases hba : b = a
      · subst hba
        simp [Option.filter_some, ha]
      · rcases hb : good b with _ | _
        · simp [Option.filter_some, hba, hgood b hba, hb]
        · simp only [Option.filter_some, hba, hgood b hba, hb, hnext b hba, if_true, decide_true,
            false_or]
          rw [List.takeWhile_cons_of_pos (by simpa using hba), ih]

/-- The walk that goes on at `a`. -/
lemma walk_of_good (hgood : ∀ b, b ≠ a → good' b = good b) (ha : good' a = true) :
    walk (fun o => (lookup o).filter good') next' k off =
      walk (withNode lookup good a) next' k off := by
  refine walk_congr (fun o => ?_) fun _ _ => rfl
  unfold withNode
  rcases lookup o with _ | b
  · rfl
  by_cases hba : b = a
  · subst hba
    simp [Option.filter, ha]
  · simp [Option.filter, hba, hgood b hba]

/-- Whether `a` is looked at does not depend on its own link. -/
lemma mem_walk_withNode (hnext : ∀ b, b ≠ a → next' b = next b) :
    a ∈ walk (withNode lookup good a) next' k off ↔ a ∈ walk (withNode lookup good a) next k off := by
  induction k generalizing off with
  | zero => rfl
  | succ k ih =>
      unfold walk
      rcases withNode lookup good a off with _ | b
      · rfl
      by_cases hba : b = a
      · simp [hba]
      · rw [List.mem_cons, List.mem_cons, hnext b hba, ih]

/-- **No change**: `a` counts as before, or is not looked at. -/
lemma walk_toggle (hgood : ∀ b, b ≠ a → good' b = good b) (hnext : ∀ b, b ≠ a → next' b = next b)
    (hboth : good a = true → good' a = true → next' a = next a)
    (h : a ∈ walk (withNode lookup good a) next k off → good' a = good a) :
    walk (fun o => (lookup o).filter good') next' k off =
      walk (fun o => (lookup o).filter good) next k off := by
  have hself : ∀ b, b ≠ a → good b = good b := fun _ _ => rfl
  by_cases heq : good' a = good a
  · rcases ha : good a with _ | _
    · rw [walk_of_not_good hgood hnext (heq.trans ha), walk_of_not_good hself (fun _ _ => rfl) ha]
    · have hall : next' = next := by
        funext b
        by_cases hba : b = a
        · rw [hba]
          exact hboth ha (heq.trans ha)
        · exact hnext b hba
      rw [walk_of_good hgood (heq.trans ha), walk_of_good hself ha, hall]
  -- `a` is not looked at, so both walks stop before it
  have hni : a ∉ walk (withNode lookup good a) next k off := fun hm => heq (h hm)
  have hni' := (mem_walk_withNode hnext).not.mpr hni
  have hall : ∀ {l : List α}, a ∉ l → l.takeWhile (· ≠ a) = l := by
    intro l hl
    refine List.takeWhile_eq_self_iff.mpr fun b hb => decide_eq_true ?_
    rintro rfl
    exact hl hb
  rcases ha : good a with _ | _
  · have ha' : good' a = true := by simpa [ha] using heq
    rw [walk_of_good hgood ha', walk_of_not_good hself (fun b hb => (hnext b hb).symm) ha, hall hni']
  · have ha' : good' a = false := by simpa [ha] using heq
    rw [walk_of_not_good hgood hnext ha', walk_of_good hself ha, hall hni]

/-- **A change**: `a` is looked at, and counts on one side only. -/
lemma length_walk_toggle (hgood : ∀ b, b ≠ a → good' b = good b)
    (hnext : ∀ b, b ≠ a → next' b = next b) (ha : a ∈ walk (withNode lookup good a) next k off)
    (hne : good' a ≠ good a) :
    (walk (fun o => (lookup o).filter good') next' k off).length ≠
      (walk (fun o => (lookup o).filter good) next k off).length := by
  have hshort : ∀ {l : List α}, a ∈ l → (l.takeWhile (· ≠ a)).length < l.length := by
    intro l hl
    refine lt_of_le_of_ne (List.takeWhile_sublist _).length_le fun heq => ?_
    have hsame := (List.takeWhile_prefix (l := l) (· ≠ a)).eq_of_length heq
    have hall := List.takeWhile_eq_self_iff.mp hsame a hl
    simp at hall
  have hself : ∀ b, b ≠ a → good b = good b := fun _ _ => rfl
  rcases hg : good a with _ | _
  · have hg' : good' a = true := by simpa [hg] using hne
    -- the old walk is the new one up to `a`
    have hold : walk (fun o => (lookup o).filter good) next k off =
        (walk (withNode lookup good a) next' k off).takeWhile (· ≠ a) :=
      walk_of_not_good hself (fun b hb => (hnext b hb).symm) hg
    rw [walk_of_good hgood hg', hold]
    exact (hshort ((mem_walk_withNode hnext).mpr ha)).ne'
  · have hg' : good' a = false := by simpa [hg] using hne
    rw [walk_of_not_good hgood hnext hg', walk_of_good hself hg]
    exact (hshort ha).ne

end Endfields.Lib
