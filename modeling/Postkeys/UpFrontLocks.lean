import Postkeys.Concurrent.LockOrder
import Postkeys.Querier.Base
import Postkeys.Resp

/-! # Locks taken up front

A transaction takes the advisory locks of its keys in the order of the keys, but the locks are on
their hashes.  For a hash function and a set of keys, transactions that lock keys of the set never
wait for each other in a circle exactly if no two keys with one hash have a key with another hash
between them (`lockKeys_deadlock_free_iff`); a hash function without collisions is a special case. -/

namespace Postkeys

open Relational Concurrent

/-! ### The order of the keys -/

/-- The keys whose locks `lockKeys` takes, in this order. -/
def lockOrder (keys : List Bytes) : List Bytes :=
  match keys with
  | [] => []
  | [k] => [k]
  | _ => compact (sortStrings keys)

theorem compact_sublist (keys : List Bytes) : (compact keys).Sublist keys := by
  fun_induction compact keys with
  | case1 => exact List.Sublist.refl _
  | case2 k => exact List.Sublist.refl _
  | case3 k ks ih => exact ih.cons k
  | case4 k k' ks hne ih => exact ih.cons_cons k

theorem lockOrder_sorted (keys : List Bytes) : (lockOrder keys).Pairwise (· ≤ ·) := by
  unfold lockOrder
  split
  · exact List.Pairwise.nil
  · exact List.pairwise_singleton _ _
  · exact (List.pairwise_insertionSort (· ≤ ·) _).sublist (compact_sublist _)

theorem mem_of_mem_lockOrder {keys : List Bytes} {k : Bytes} (h : k ∈ lockOrder keys) : k ∈ keys := by
  unfold lockOrder at h
  split at h
  · exact h
  · exact h
  · exact (List.mem_insertionSort _).mp ((compact_sublist _).subset h)

theorem lockOrder_pair {a b : Bytes} (h : a < b) : lockOrder [a, b] = [a, b] := by
  have horder : lockOrder [a, b] = compact (sortStrings [a, b]) := rfl
  rw [horder, sortStrings]
  simp [List.insertionSort, h.le, compact, h.ne]

/-- The advisory locks of a transaction: the hashes of its keys. -/
def advisoryLocks (hash : Bytes → BitVec 32) (keys : List Bytes) : List (BitVec 32) :=
  (lockOrder keys).map hash

/-! ### The order of the locks -/

section Convex

variable {hash : Bytes → BitVec 32} {K : Set Bytes}

/-- No two keys with one hash have a key with another hash between them. -/
def Convex (hash : Bytes → BitVec 32) (K : Set Bytes) : Prop :=
  ∀ a ∈ K, ∀ b ∈ K, ∀ c ∈ K, a < b → b < c → hash a = hash c → hash b = hash a

/-- A hash comes before another one if one of its keys does. -/
def LockBefore (hash : Bytes → BitVec 32) (K : Set Bytes) (x y : BitVec 32) : Prop :=
  x ≠ y ∧ ∃ a ∈ K, ∃ b ∈ K, a < b ∧ hash a = x ∧ hash b = y

theorem Convex.lockBefore_trans (h : Convex hash K) (x y z : BitVec 32)
    (hxy : LockBefore hash K x y) (hyz : LockBefore hash K y z) : LockBefore hash K x z := by
  obtain ⟨hne, a, ha, b, hb, hab, rfl, rfl⟩ := hxy
  obtain ⟨hne', c, hc, d, hd, hcd, hcb, rfl⟩ := hyz
  -- `c` and `b` have one hash, so neither `a` nor `d` is between them
  have hac : a < d := by
    by_contra hda
    have hca : c < a := hcd.trans_le (not_lt.mp hda)
    exact hne ((h c hc a ha b hb hca hab hcb).trans hcb)
  have hbd : b < d := by
    by_contra hdb
    rcases lt_or_eq_of_le (not_lt.mp hdb) with hdb | rfl
    · exact hne' ((h c hc d hd b hb hcd hdb hcb).trans hcb).symm
    · exact hne' rfl
  refine ⟨fun heq => ?_, a, ha, d, hd, hac, rfl, rfl⟩
  exact hne (h a ha b hb d hd hab hbd heq).symm

/-- The locks of a transaction follow that order. -/
theorem advisoryLocks_sorted {keys : List Bytes} (hkeys : ∀ k ∈ keys, k ∈ K) :
    (advisoryLocks hash keys).Pairwise fun x y => LockBefore hash K x y ∨ x = y := by
  rw [advisoryLocks, List.pairwise_map]
  refine (lockOrder_sorted keys).imp_of_mem fun {a b} ha hb hab => ?_
  by_cases heq : hash a = hash b
  · exact Or.inr heq
  · have hlt : a < b := lt_of_le_of_ne hab fun h => heq (congrArg hash h)
    exact Or.inl ⟨heq, a, hkeys a (mem_of_mem_lockOrder ha), b, hkeys b (mem_of_mem_lockOrder hb), hlt,
      rfl, rfl⟩

end Convex

/-- Two transactions whose locks cross: each takes its first lock and then waits for the other. -/
theorem crossing_deadlock {L : Type} {x y : L} (hne : x ≠ y) :
    ∃ s, Locks.Reachable (fun i : Fin 2 => if i = 0 then [x, y] else [y, x]) s ∧ s.Deadlocked := by
  let wanted : Fin 2 → List L := fun i => if i = 0 then [x, y] else [y, x]
  let first : Locks (Fin 2) L := ⟨Function.update (fun _ => []) 0 [x], Function.update wanted 0 [y]⟩
  have hfirst : Locks.Step (Locks.start wanted) first :=
    .acquire _ 0 x [y] rfl fun _ _ => List.not_mem_nil
  have hsecond : Locks.Step first
      ⟨Function.update first.held 1 [y], Function.update first.todo 1 [x]⟩ := by
    refine .acquire first 1 y [x] rfl fun j hj hy => ?_
    have hj : j = 0 := by omega
    subst hj
    exact hne (List.mem_singleton.mp hy).symm
  refine ⟨_, (Relation.ReflTransGen.single hfirst).tail hsecond, 0, ?_⟩
  refine (Relation.TransGen.single (b := 1) ?_).tail ?_
  · exact ⟨y, [], rfl, by decide, List.mem_singleton.mpr rfl⟩
  · exact ⟨x, [], rfl, by decide, List.mem_singleton.mpr rfl⟩

/-- **Locking up front.**  For a hash function and a set of keys, no interleaving of transactions
that each lock keys of the set by one call of `lockKeys` lets them wait for each other in a circle,
if and only if no two of the keys with one hash have a key with another hash between them. -/
theorem lockKeys_deadlock_free_iff (hash : Bytes → BitVec 32) (K : Set Bytes) :
    (∀ (n : ℕ) (keys : Fin n → List Bytes), (∀ i, ∀ k ∈ keys i, k ∈ K) →
      ∀ s, Locks.Reachable (fun i => advisoryLocks hash (keys i)) s → ¬ s.Deadlocked) ↔
      Convex hash K := by
  constructor
  · intro hfree a ha b hb c hc hab hbc hhash
    by_contra hne
    obtain ⟨s, hs, hdead⟩ := crossing_deadlock (Ne.symm hne)
    refine hfree 2 (fun i => if i = 0 then [a, b] else [b, c]) ?_ s ?_ hdead
    · intro i k hk
      split at hk
      all_goals
        rcases List.mem_pair.mp hk with rfl | rfl <;> assumption
    · convert hs using 2 with i
      split
      · rw [advisoryLocks, lockOrder_pair hab]; rfl
      · rw [advisoryLocks, lockOrder_pair hbc, hhash]; rfl
  · intro hconvex n keys hkeys s hs
    exact Locks.not_deadlocked (fun x h => h.1 rfl) hconvex.lockBefore_trans
      (fun i => advisoryLocks_sorted (hkeys i)) hs

/-- The keys `a` and `c` have one hash, `b` has another: a transaction that locks `a` and `b` and one
that locks `b` and `c` wait for each other. -/
theorem lockKeys_deadlock :
    ∃ s, Locks.Reachable (fun i : Fin 2 => advisoryLocks (fun k => if k = utf8 "b" then 2 else 1)
      (if i = 0 then [utf8 "a", utf8 "b"] else [utf8 "b", utf8 "c"])) s ∧ s.Deadlocked := by
  have hlocks : (fun i : Fin 2 => advisoryLocks (fun k => if k = utf8 "b" then 2 else 1)
      (if i = 0 then [utf8 "a", utf8 "b"] else [utf8 "b", utf8 "c"])) =
      fun i => if i = 0 then [1, 2] else [2, 1] := by decide
  rw [hlocks]
  exact crossing_deadlock (by decide)

end Postkeys
