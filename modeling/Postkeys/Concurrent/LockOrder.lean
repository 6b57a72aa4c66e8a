import Mathlib.Logic.Function.Basic
import Mathlib.Logic.Relation
import Mathlib.Data.List.Basic

/-! # Locks taken in order

Transactions take locks one at a time, in the order of a list, wait while another transaction holds
the next one, and release all of them at once.  If all the lists follow one order, no transactions
wait for each other in a circle (`Locks.not_deadlocked`). -/

namespace Concurrent

variable {ι L : Type}

/-- The locks each transaction holds and those it has yet to take. -/
structure Locks (ι L : Type) where
  held : ι → List L
  todo : ι → List L

namespace Locks

/-- Before the first lock is taken. -/
def start (wanted : ι → List L) : Locks ι L := ⟨fun _ => [], wanted⟩

/-- A transaction takes its next lock, which it may hold already, or ends. -/
inductive Step [DecidableEq ι] : Locks ι L → Locks ι L → Prop
  | acquire (s : Locks ι L) (i : ι) (x : L) (rest : List L) (hnext : s.todo i = x :: rest)
      (hfree : ∀ j, j ≠ i → x ∉ s.held j) :
      Step s ⟨Function.update s.held i (s.held i ++ [x]), Function.update s.todo i rest⟩
  | finish (s : Locks ι L) (i : ι) :
      Step s ⟨Function.update s.held i [], Function.update s.todo i []⟩

/-- The states that any interleaving of the transactions can reach. -/
def Reachable [DecidableEq ι] (wanted : ι → List L) (s : Locks ι L) : Prop :=
  Relation.ReflTransGen Step (start wanted) s

/-- The next lock of `i` is held by `j`. -/
def Waits (s : Locks ι L) (i j : ι) : Prop := ∃ x rest, s.todo i = x :: rest ∧ j ≠ i ∧ x ∈ s.held j

/-- Transactions wait for each other in a circle. -/
def Deadlocked (s : Locks ι L) : Prop := ∃ i, Relation.TransGen s.Waits i i

section Ordered

variable {before : L → L → Prop} {s s' : Locks ι L}

/-- No lock is held twice, and what a transaction holds comes before what it has yet to take. -/
structure Ordered (before : L → L → Prop) (s : Locks ι L) : Prop where
  exclusive : ∀ i j x, x ∈ s.held i → x ∈ s.held j → i = j
  sorted : ∀ i, (s.held i ++ s.todo i).Pairwise fun x y => before x y ∨ x = y

theorem Ordered.step [DecidableEq ι] (h : s.Ordered before) (hs : Step s s') : s'.Ordered before := by
  cases hs with
  | acquire i x rest hnext hfree =>
      refine ⟨fun j k y hj hk => ?_, fun j => ?_⟩
      · simp only [Function.update_apply] at hj hk
        split at hj <;> split at hk
        · rw [‹j = i›, ‹k = i›]
        · rw [List.mem_append, List.mem_singleton] at hj
          rcases hj with hj | rfl
          · rw [‹j = i›]
            exact h.exclusive i k y hj hk
          · exact absurd hk (hfree k ‹_›)
        · rw [List.mem_append, List.mem_singleton] at hk
          rcases hk with hk | rfl
          · rw [‹k = i›]
            exact h.exclusive j i y hj hk
          · exact absurd hj (hfree j ‹_›)
        · exact h.exclusive j k y hj hk
      · simp only [Function.update_apply]
        split
        · have hsorted := h.sorted i
          rw [hnext] at hsorted
          simpa using hsorted
        · exact h.sorted j
  | finish i =>
      refine ⟨fun j k y hj hk => ?_, fun j => ?_⟩
      · simp only [Function.update_apply] at hj hk
        split at hj
        · cases hj
        · split at hk
          · cases hk
          · exact h.exclusive j k y hj hk
      · simp only [Function.update_apply]
        split
        · exact List.Pairwise.nil
        · exact h.sorted j

theorem Ordered.reachable [DecidableEq ι] {wanted : ι → List L}
    (hwanted : ∀ i, (wanted i).Pairwise fun x y => before x y ∨ x = y) (hs : Reachable wanted s) :
    s.Ordered before := by
  induction hs with
  | refl => exact ⟨fun i j x hx => absurd hx List.not_mem_nil, hwanted⟩
  | tail _ hstep ih => exact ih.step hstep

/-- What a transaction holds comes before a lock it waits for. -/
theorem Ordered.before_next (h : s.Ordered before) {i : ι} {x y : L} {rest : List L}
    (hx : x ∈ s.held i) (hy : s.todo i = y :: rest) (hfree : y ∉ s.held i) : before x y := by
  have hsorted := h.sorted i
  rw [List.pairwise_append] at hsorted
  rcases hsorted.2.2 x hx y (by rw [hy]; exact List.mem_cons_self) with hlt | rfl
  · exact hlt
  · exact absurd hx hfree

/-- The locks that are waited for increase along a chain of waits. -/
theorem Ordered.chain (h : s.Ordered before) (htrans : ∀ x y z, before x y → before y z → before x z)
    {i j : ι} (hij : Relation.TransGen s.Waits i j) {x y : L} {rest rest' : List L}
    (hx : s.todo i = x :: rest) (hy : s.todo j = y :: rest') (hfree : y ∉ s.held j) : before x y := by
  induction hij generalizing y rest' with
  | single hwait =>
      obtain ⟨x', rest'', hx', -, hheld⟩ := hwait
      rw [hx] at hx'
      cases hx'
      exact h.before_next hheld hy hfree
  | tail _ hwait ih =>
      obtain ⟨z, rest'', hz, hne, hheld⟩ := hwait
      have hzfree := fun hown => hne (h.exclusive _ _ z hheld hown)
      exact htrans _ _ _ (ih hz hzfree) (h.before_next hheld hy hfree)

/-- **Locks taken in one order do not deadlock.** -/
theorem not_deadlocked [DecidableEq ι] {wanted : ι → List L}
    (hirrefl : ∀ x, ¬ before x x) (htrans : ∀ x y z, before x y → before y z → before x z)
    (hwanted : ∀ i, (wanted i).Pairwise fun x y => before x y ∨ x = y) (hs : Reachable wanted s) :
    ¬ s.Deadlocked := by
  rintro ⟨i, hcycle⟩
  have h := Ordered.reachable hwanted hs
  obtain ⟨j, hwait, -⟩ := Relation.TransGen.head'_iff.mp hcycle
  obtain ⟨x, rest, hx, hne, hheld⟩ := hwait
  exact hirrefl x (h.chain htrans hcycle hx hx fun hown => hne (h.exclusive _ _ x hheld hown))

end Ordered

end Locks

end Concurrent
