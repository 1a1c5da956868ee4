import Mathlib

/-!
# Linked lists in a store

A linked list in a store is a link, a way to resolve a link to a node, and the link each node holds.
This file has the readings of such a list, for any links and nodes:

* `Chain resolve next off l`: from the link `off` on, the nodes are `l`, and the last link resolves
  to nothing.
* `Linked resolve next off l z`: the nodes `l` lead from the link `off` to the link `z`.
* `walk resolve next k off`: the nodes met along at most `k` links.
* `Endless resolve next ok off`: the list comes to no end before a node that is not `ok`.

A chain depends on the links of its own nodes only (`Chain.congr`) and is determined by them
(`Chain.unique`); a walk that stops early is one (`chain_walk`). A list that ends meets no node
twice (`Linked.nodup`), and goes on from a new link at its last node (`Linked.extend`).
-/

namespace Endfields.Lib

variable {ω α : Type*} (resolve : ω → Option α) (next : α → ω)

/-- From the link `off` on the list has exactly the nodes `l`. -/
def Chain : ω → List α → Prop
  | off, [] => resolve off = none
  | off, a :: l => resolve off = some a ∧ Chain (next a) l

/-- The nodes `l` lead from the link `off` to the link `z`. -/
def Linked : ω → List α → ω → Prop
  | off, [], z => off = z
  | off, a :: l, z => resolve off = some a ∧ Linked (next a) l z

instance decidableLinked [DecidableEq ω] [DecidableEq α] :
    (off : ω) → (l : List α) → (z : ω) → Decidable (Linked resolve next off l z)
  | off, [], z => inferInstanceAs (Decidable (off = z))
  | _, a :: l, z =>
      haveI := decidableLinked (next a) l z
      inferInstanceAs (Decidable (_ ∧ _))

/-- The nodes met along at most `k` links. -/
def walk : ℕ → ω → List α
  | 0, _ => []
  | k + 1, off =>
      match resolve off with
      | none => []
      | some a => a :: walk k (next a)

variable {resolve next} {off : ω} {l : List α}

/-- A chain depends on the links of its nodes only. -/
lemma Chain.congr {next' : α → ω} (h : Chain resolve next off l)
    (hnext : ∀ a ∈ l, next' a = next a) : Chain resolve next' off l := by
  induction l generalizing off with
  | nil => exact h
  | cons a l ih =>
      refine ⟨h.1, ?_⟩
      rw [hnext a List.mem_cons_self]
      exact ih h.2 fun b hb => hnext b (List.mem_cons_of_mem a hb)

/-- A link leads along one chain only. -/
lemma Chain.unique {l' : List α} (h : Chain resolve next off l)
    (h' : Chain resolve next off l') : l = l' := by
  induction l generalizing off l' with
  | nil =>
      cases l' with
      | nil => rfl
      | cons b l' => exact absurd (h.symm.trans h'.1) (by simp)
  | cons a l ih =>
      cases l' with
      | nil => exact absurd (h'.symm.trans h.1) (by simp)
      | cons b l' =>
          have hab : a = b := Option.some.inj (h.1.symm.trans h'.1)
          subst hab
          rw [ih h.2 h'.2]

/-- A walk that is long enough goes along the whole chain. -/
lemma Chain.walk_eq (h : Chain resolve next off l) {k : ℕ} (hk : l.length < k) :
    walk resolve next k off = l := by
  induction l generalizing off k with
  | nil =>
      obtain ⟨k, rfl⟩ : ∃ j, k = j + 1 := ⟨k - 1, by simp at hk; omega⟩
      have hnone : resolve off = none := h
      rw [walk, hnone]
  | cons a l ih =>
      rw [List.length_cons] at hk
      obtain ⟨k, rfl⟩ : ∃ j, k = j + 1 := ⟨k - 1, by omega⟩
      rw [walk, h.1]
      simp only
      rw [ih h.2 (by omega)]

lemma length_walk_le (k : ℕ) (off : ω) : (walk resolve next k off).length ≤ k := by
  induction k generalizing off with
  | zero => simp [walk]
  | succ k ih =>
      unfold walk
      rcases resolve off with _ | a
      · simp
      · simpa using ih (next a)

/-- A walk that stops before its links are used up has gone along a chain. -/
lemma chain_walk {k : ℕ} (h : (walk resolve next k off).length < k) :
    Chain resolve next off (walk resolve next k off) := by
  induction k generalizing off with
  | zero => simp at h
  | succ k ih =>
      unfold walk at h ⊢
      rcases hr : resolve off with _ | a
      · exact hr
      · rw [hr] at h
        simp only [List.length_cons] at h
        exact ⟨hr, ih (by omega)⟩

/-- Every node of a walk is one that some link resolves to. -/
lemma exists_of_mem_walk {k : ℕ} {a : α} (h : a ∈ walk resolve next k off) :
    ∃ o, resolve o = some a := by
  induction k generalizing off with
  | zero => simp [walk] at h
  | succ k ih =>
      unfold walk at h
      rcases hr : resolve off with _ | b
      · simp [hr] at h
      · rw [hr] at h
        rcases List.mem_cons.mp h with rfl | h
        · exact ⟨off, hr⟩
        · exact ih h

/-! ### Segments of a list -/

variable {resolve' : ω → Option α} {next' : α → ω} {z : ω}

/-- A segment is one of every store that resolves more. -/
lemma Linked.mono (h : Linked resolve' next' off l z)
    (hsub : ∀ o a, a ∈ l → resolve' o = some a → resolve o = some a ∧ next' a = next a) :
    Linked resolve next off l z := by
  induction l generalizing off with
  | nil => exact h
  | cons a l ih =>
      obtain ⟨hr, hn⟩ := hsub off a List.mem_cons_self h.1
      refine ⟨hr, ?_⟩
      rw [← hn]
      exact ih h.2 fun o b hb => hsub o b (List.mem_cons_of_mem a hb)

/-- Every node of a segment is one that some link resolves to. -/
lemma Linked.exists_of_mem (h : Linked resolve next off l z) {a : α} (ha : a ∈ l) :
    ∃ o, resolve o = some a := by
  induction l generalizing off with
  | nil => exact absurd ha List.not_mem_nil
  | cons b l ih =>
      rcases List.mem_cons.mp ha with rfl | ha
      · exact ⟨off, h.1⟩
      · exact ih h.2 ha

/-- A segment and what comes behind it. -/
lemma linked_append {l' : List α} : Linked resolve next off (l ++ l') z ↔
    ∃ y, Linked resolve next off l y ∧ Linked resolve next y l' z := by
  induction l generalizing off with
  | nil =>
      constructor
      · exact fun h => ⟨off, rfl, h⟩
      · rintro ⟨y, rfl, h⟩
        exact h
  | cons a l ih =>
      constructor
      · rintro ⟨hr, h⟩
        obtain ⟨y, hm, hn⟩ := ih.mp h
        exact ⟨y, ⟨hr, hm⟩, hn⟩
      · rintro ⟨y, ⟨hr, hm⟩, hn⟩
        exact ⟨hr, ih.mpr ⟨y, hm, hn⟩⟩

/-- A segment whose last link resolves to nothing is a chain. -/
lemma Linked.chain (h : Linked resolve next off l z) (hz : resolve z = none) :
    Chain resolve next off l := by
  induction l generalizing off with
  | nil =>
      have hoff : off = z := h
      rw [hoff]
      exact hz
  | cons a l ih => exact ⟨h.1, ih h.2⟩

/-- A chain is a segment whose last link resolves to nothing. -/
lemma Chain.linked (h : Chain resolve next off l) :
    ∃ z, Linked resolve next off l z ∧ resolve z = none := by
  induction l generalizing off with
  | nil => exact ⟨off, rfl, h⟩
  | cons a l ih =>
      obtain ⟨z, hz, hnone⟩ := ih h.2
      exact ⟨z, ⟨h.1, hz⟩, hnone⟩

/-- A walk goes along a segment and on from its last link. -/
lemma Linked.walk_eq (h : Linked resolve next off l z) (k : ℕ) :
    walk resolve next (l.length + k) off = l ++ walk resolve next k z := by
  induction l generalizing off with
  | nil =>
      have hoff : off = z := h
      rw [hoff, List.length_nil, Nat.zero_add, List.nil_append]
  | cons a l ih =>
      rw [List.length_cons, show l.length + 1 + k = (l.length + k) + 1 by omega, walk, h.1]
      simp only
      rw [ih h.2, List.cons_append]

/-- A walk depends on what its own nodes' links are. -/
lemma walk_congr {k : ℕ} (hr : ∀ o, resolve' o = resolve o)
    (hnext : ∀ a ∈ walk resolve next k off, next' a = next a) :
    walk resolve' next' k off = walk resolve next k off := by
  induction k generalizing off with
  | zero => rfl
  | succ k ih =>
      unfold walk at hnext ⊢
      rw [hr]
      rcases hro : resolve off with _ | a
      · rfl
      · rw [hro] at hnext
        simp only at hnext ⊢
        rw [hnext a List.mem_cons_self, ih fun b hb => hnext b (List.mem_cons_of_mem a hb)]

/-- The links of a list put through `f`: the walk meets the same nodes. `P` holds of the links that
the list has. -/
lemma walk_rename {k : ℕ} (f : ω → ω) (P : ω → Prop) (hr : ∀ o, P o → resolve' (f o) = resolve o)
    (hnext : ∀ o a, resolve o = some a → next' a = f (next a) ∧ P (next a)) (hoff : P off) :
    walk resolve' next' k (f off) = walk resolve next k off := by
  induction k generalizing off with
  | zero => rfl
  | succ k ih =>
      unfold walk
      rw [hr off hoff]
      rcases hro : resolve off with _ | a
      · rfl
      · obtain ⟨hna, hP⟩ := hnext off a hro
        simp only
        rw [hna, ih hP]

/-! ### Changing a list -/

/-- What comes behind a node of a list that ends depends on the node only. -/
lemma Linked.tail_unique {l' : List α} {a : α} (h : Linked resolve next (next a) l z)
    (h' : Linked resolve next (next a) l' z) (hz : resolve z = none) : l = l' :=
  (h.chain hz).unique (h'.chain hz)

/-- **A list that ends** meets no node twice. -/
lemma Linked.nodup (h : Linked resolve next off l z) (hz : resolve z = none) : l.Nodup := by
  induction l generalizing off with
  | nil => exact List.nodup_nil
  | cons a l ih =>
      refine List.nodup_cons.mpr ⟨fun hmem => ?_, ih h.2⟩
      -- a second visit would be followed by the whole list again
      obtain ⟨s, u, hl⟩ := List.append_of_mem hmem
      have hrest := h.2
      rw [hl] at hrest
      obtain ⟨y, -, hu⟩ := linked_append.mp hrest
      have heq := hu.2.tail_unique hrest hz
      have hlen := congrArg List.length heq
      rw [List.length_append, List.length_cons] at hlen
      omega

/-- **A new link** at the last node of a list. -/
lemma Linked.extend {pre : List α} {t : α} {z' : ω} (h : Linked resolve next off (pre ++ [t]) z)
    (hres : ∀ o a, resolve o = some a → resolve' o = some a) (hpre : ∀ a ∈ pre, next' a = next a)
    (hrest : Linked resolve' next' (next' t) l z') : Linked resolve' next' off (pre ++ t :: l) z' := by
  obtain ⟨y, hm, ht⟩ := linked_append.mp h
  refine linked_append.mpr ⟨y, hm.mono fun o a ha ho => ⟨hres o a ho, (hpre a ha).symm⟩, ?_, hrest⟩
  exact hres y t ht.1

/-! ### Lists that do not end -/

/-- Along the links from `off` on, the list does not end before a node that is not `ok`: it goes
round in a circle, or comes to such a node. -/
def Endless (resolve : ω → Option α) (next : α → ω) (ok : α → Prop) (off : ω) : Prop :=
  ∀ k, (∀ a ∈ walk resolve next k off, ok a) → (walk resolve next k off).length = k

variable {ok : α → Prop}

/-- A list that does not end has a node, and goes on behind it if that is `ok`. -/
lemma Endless.step (h : Endless resolve next ok off) :
    ∃ a, resolve off = some a ∧ (ok a → Endless resolve next ok (next a)) := by
  rcases hr : resolve off with _ | a
  · have hone := h 1
    simp [walk, hr] at hone
  · refine ⟨a, rfl, fun ha k hk => ?_⟩
    have hlen := h (k + 1)
    simp only [walk, hr, List.mem_cons, forall_eq_or_imp, List.length_cons, Nat.add_right_cancel_iff]
      at hlen
    exact hlen ⟨ha, hk⟩

/-- **Coinduction**: a property of links that each have a node, and whose next link has it again if
the node is `ok`, is one of lists that do not end. -/
lemma endless_of_step {P : ω → Prop}
    (hstep : ∀ off, P off → ∃ a, resolve off = some a ∧ (ok a → P (next a))) (hoff : P off) :
    Endless resolve next ok off := by
  intro k
  induction k generalizing off with
  | zero => exact fun _ => rfl
  | succ k ih =>
      obtain ⟨a, hr, hnext⟩ := hstep off hoff
      simp only [walk, hr, List.mem_cons, forall_eq_or_imp, List.length_cons,
        Nat.add_right_cancel_iff]
      exact fun ⟨ha, hk⟩ => ih (hnext ha) hk

/-- A list of `ok` nodes that comes to a link without a node does end. -/
lemma Linked.not_endless (h : Linked resolve next off l z) (hz : resolve z = none)
    (hl : ∀ a ∈ l, ok a) : ¬ Endless resolve next ok off := by
  induction l generalizing off with
  | nil =>
      intro he
      obtain ⟨a, hr, -⟩ := he.step
      have hoff : off = z := h
      rw [hoff, hz] at hr
      cases hr
  | cons a l ih =>
      intro he
      obtain ⟨b, hr, hstep⟩ := he.step
      have hab : a = b := Option.some.inj (h.1.symm.trans hr)
      subst hab
      exact ih h.2 (fun b hb => hl b (List.mem_cons_of_mem a hb)) (hstep (hl a List.mem_cons_self))

end Endfields.Lib
