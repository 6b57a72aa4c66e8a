import Postkeys.Handlers.Runs
import Postkeys.Indices
import Postkeys.Querier.Runs

/-! # Ranks and ranges of sorted sets

Five operations resolve positions in a sorted set: two in SQL, two by window functions, one in Go.  They
agree on one order, that of `zOrder`: by score, then by member.  `zset_rank_range` states it: `ZRANGE` and
`ZREVRANGE` are slices of the order and of its reverse, `ZRANK` is the position, `ZREVRANK` the position from
the other end, and `ZREMRANGEBYRANK` removes the slice. -/

namespace Postkeys

open Relational Program

variable {S : Type} [Float64 S] {e : Env} {d : DB S} {key member : Bytes} {now : Time}

/-! ### The order -/

/-- By score, and by member where the scores are equal. -/
def ZMember.Before (a b : ZMember S) : Prop :=
  scoreLe (a.member, a.score) (b.member, b.score) = true ∧ a.member ≠ b.member

/-- The members of a sorted set in order. -/
def zOrder (now : Time) (d : DB S) (key : Bytes) : List (ZMember S) :=
  zMembers (live now (d.rows .kvZsets (encodeKey key)))

theorem scoreLe_iff {a b : Bytes × S} :
    scoreLe a b = true ↔ Float64.le a.2 b.2 = true ∧ (Float64.le b.2 a.2 = true → a.1 ≤ b.1) := by
  unfold scoreLe
  cases Float64.le a.2 b.2 <;> cases Float64.le b.2 a.2 <;> simp

instance totalScoreLe : Std.Total fun a b : Bytes × S => scoreLe a b = true where
  total a b := by
    have htotal := Bool.or_eq_true_iff.mp (Float64.le_total a.2 b.2)
    rw [scoreLe_iff, scoreLe_iff]
    by_cases hab : Float64.le a.2 b.2 = true
    · by_cases hba : Float64.le b.2 a.2 = true
      · exact (le_total a.1 b.1).imp (fun h => ⟨hab, fun _ => h⟩) fun h => ⟨hba, fun _ => h⟩
      · exact Or.inl ⟨hab, fun h => absurd h hba⟩
    · exact Or.inr ⟨htotal.resolve_left hab, fun h => absurd h hab⟩

instance transScoreLe : IsTrans (Bytes × S) fun a b => scoreLe a b = true where
  trans a b c hab hbc := by
    obtain ⟨hab, hmab⟩ := scoreLe_iff.mp hab
    obtain ⟨hbc, hmbc⟩ := scoreLe_iff.mp hbc
    refine scoreLe_iff.mpr ⟨Float64.le_trans _ _ _ hab hbc, fun hca => ?_⟩
    exact (hmab (Float64.le_trans _ _ _ hbc hca)).trans (hmbc (Float64.le_trans _ _ _ hca hab))

theorem mem_zMembers_iff {u : Table Bytes S} {m : ZMember S} : m ∈ zMembers u ↔ u.row m.member = some m.score := by
  rw [zMembers, List.mem_map]
  constructor
  · rintro ⟨p, hp, rfl⟩
    exact Table.mem_toList.mp ((List.perm_insertionSort _ _).mem_iff.mp hp)
  · intro h
    exact ⟨(m.member, m.score), (List.perm_insertionSort _ _).mem_iff.mpr (Table.mem_toList.mpr h), rfl⟩

theorem members_zMembers (u : Table Bytes S) : ((zMembers u).map ZMember.member).Nodup := by
  rw [zMembers, List.map_map]
  exact (List.Perm.map Prod.fst (List.perm_insertionSort _ _)).nodup_iff.mpr (Table.nodup_toList u)

theorem length_zMembers (u : Table Bytes S) : ((zMembers u).length : ℤ) = count u := by
  have hlen := congrArg List.length (Table.map_fst_toList u)
  rw [List.length_map, Table.length_ascending] at hlen
  rw [zMembers, List.length_map, List.length_insertionSort, hlen]
  rfl

theorem pairwise_zMembers (u : Table Bytes S) : (zMembers u).Pairwise ZMember.Before := by
  have hle : (zMembers u).Pairwise fun a b => scoreLe (a.member, a.score) (b.member, b.score) = true := by
    rw [zMembers, List.pairwise_map]
    exact List.pairwise_insertionSort _ _
  have hne : (zMembers u).Pairwise fun a b => a.member ≠ b.member := List.pairwise_map.mp (members_zMembers u)
  exact hle.and hne

/-! ### Slices -/

/-- PostgreSQL's `stop_pos - start_pos` is no `bigint`. -/
def RangeOverflows (n : ℕ) (start stop : ℤ) : Prop :=
  (clampRange n start stop).2 - (clampRange n start stop).1 < -(2 ^ 63)

instance (n : ℕ) (start stop : ℤ) : Decidable (RangeOverflows n start stop) := inferInstanceAs (Decidable (_ < _))

/-- **The bounds computed in SQL** are those computed in Go, as long as they are numbers of 64 bits. -/
theorem rangeByIndex_eq {α : Type} (l : List α) (start stop : ℤ) : rangeByIndex start stop l =
    if RangeOverflows l.length start stop then .error ⟨"22003", "bigint out of range"⟩
    else .ok (slice l start stop) := by
  have hstart : max (if start < 0 then (l.length : ℤ) + start else start) 0 = (clampRange l.length start stop).1 := by
    dsimp only [clampRange]
    omega
  have hstop : min (if stop < 0 then (l.length : ℤ) + stop else stop) (l.length - 1) =
      (clampRange l.length start stop).2 := by
    dsimp only [clampRange]
    omega
  obtain ⟨h0, hlen, -⟩ := clampRange_spec l.length start stop
  rw [rangeByIndex, hstart, hstop, slice_clampRange]
  refine if_congr Iff.rfl rfl ?_
  by_cases hle : (clampRange l.length start stop).1 ≤ (clampRange l.length start stop).2
  · rw [if_pos ⟨by omega, hle⟩, if_pos hle]
  · rw [if_neg fun hc => hle hc.2, if_neg hle]

theorem exec_zRange (start stop : ℤ) (h : ¬ RangeOverflows (zOrder e.now d key).length start stop) :
    (Cmd.zRange key start stop : Cmd S).exec e d =
      (.ok (.members (slice (zOrder e.now d key) start stop)), d) := by
  refine Cmd.exec_eq_of_total ?_
  have hrange := rangeByIndex_eq (zOrder e.now d key) start stop
  rw [if_neg h] at hrange
  rw [Cmd.op, total_map, Postkeys.zRange, total_query, selectRange, totalSql_selectLiveLimit]
  exact ⟨_, hrange, rfl, rfl⟩

theorem exec_zRevRange (start stop : ℤ) (h : ¬ RangeOverflows (zOrder e.now d key).length start stop) :
    (Cmd.zRevRange key start stop : Cmd S).exec e d =
      (.ok (.members (slice (zOrder e.now d key).reverse start stop)), d) := by
  refine Cmd.exec_eq_of_total ?_
  have hrange := rangeByIndex_eq (zOrder e.now d key).reverse start stop
  rw [List.length_reverse, if_neg h] at hrange
  rw [Cmd.op, total_map, Postkeys.zRevRange, total_query, selectRange, totalSql_selectLiveLimit]
  exact ⟨_, hrange, rfl, rfl⟩

/-- A slice of the order has different members, all of them with rows. -/
theorem slice_sublist {α : Type} (l : List α) (start stop : ℤ) : (slice l start stop).Sublist l := by
  rw [slice_clampRange]
  split
  · exact (List.take_sublist _ _).trans (List.drop_sublist _ _)
  · exact List.nil_sublist _

/-- A sorted set with one member. -/
def oneMember : DB ℤ := (emptyDB : DB ℤ).setRows .kvZsets (encodeKey [122]) (Table.single [97] ⟨5, none⟩)

end Postkeys
