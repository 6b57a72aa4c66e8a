import Postkeys.Ghost.Keys
import Postkeys.Querier.Runs

/-! # Keys written anew

The commands that store a result under a key remove what the key held and write the rows of the result.
`Rewritten` says what such a command is to leave behind: the rows without an expiry, the `kv_meta` row of their
type exactly if there are any, nothing in another table, and the other keys as they were. -/

namespace Postkeys

open Relational

variable {S : Type}

/-- The key holds the rows `u` and nothing else; no other key has changed. -/
structure Rewritten (d d' : DB S) (k : Bytes) (T : KeyType) (t : Tab) (u : Table t.Sub (Row S t)) : Prop where
  data : d'.rows t k = u
  listed : d'.rows .kvMeta k = if u = ∅ then ∅ else Table.single () ⟨T, none⟩
  others : ∀ t', t' ≠ .kvMeta → t' ≠ t → d'.rows t' k = ∅
  frame : ∀ t' k', k' ≠ k → d'.rows t' k' = d.rows t' k'

section rewritten
variable {d : DB S} {k : Bytes} {T : KeyType} {t : Tab} {u : Table t.Sub (Row S t)}

theorem rewritten_dropKey : Rewritten d (d.dropKey k) k T t ∅ where
  data := Store.rows_dropKey_self ..
  listed := by rw [if_pos rfl, Store.rows_dropKey_self]
  others _ _ _ := Store.rows_dropKey_self ..
  frame _ _ hk := Store.rows_dropKey_of_ne _ _ hk

theorem rewritten_setRows (ht : t ≠ .kvMeta) (hu : u ≠ ∅) :
    Rewritten d (((d.dropKey k).setRows t k u).setRows .kvMeta k (Table.single () ⟨T, none⟩)) k T t u where
  data := by rw [Store.rows_setRows_of_ne_table _ ht, Store.rows_setRows_self]
  listed := by rw [if_neg hu, Store.rows_setRows_self]
  others t' hm ht' := by
    rw [Store.rows_setRows_of_ne_table _ hm, Store.rows_setRows_of_ne_table _ ht', Store.rows_dropKey_self]
  frame t' k' hk := by
    rw [Store.rows_setRows_of_ne_key _ _ _ hk, Store.rows_setRows_of_ne_key _ _ _ hk,
      Store.rows_dropKey_of_ne _ _ hk]

/-- The type may be written before the rows. -/
theorem rewritten_setMeta (ht : t ≠ .kvMeta) (hu : u ≠ ∅) :
    Rewritten d (((d.dropKey k).setRows .kvMeta k (Table.single () ⟨T, none⟩)).setRows t k u) k T t u where
  data := Store.rows_setRows_self ..
  listed := by rw [if_neg hu, Store.rows_setRows_of_ne_table _ (Ne.symm ht), Store.rows_setRows_self]
  others t' hm ht' := by
    rw [Store.rows_setRows_of_ne_table _ ht', Store.rows_setRows_of_ne_table _ hm, Store.rows_dropKey_self]
  frame t' k' hk := by
    rw [Store.rows_setRows_of_ne_key _ _ _ hk, Store.rows_setRows_of_ne_key _ _ _ hk,
      Store.rows_dropKey_of_ne _ _ hk]

end rewritten

/-! ### Rows of sorted sets -/

/-- Members as rows without an expiry. -/
def scoreRow (m : ZMember S) : Bytes × Row S .kvZsets := (m.member, ⟨m.score, none⟩)

/-- The rows of a sorted set. -/
def scoreRows (ms : List (ZMember S)) : Table Bytes (Row S .kvZsets) :=
  ms.foldr (fun m u => u.put m.member ⟨m.score, none⟩) ∅

theorem scoreRows_row {ms : List (ZMember S)} (h : (ms.map ZMember.member).Nodup) (x : Bytes)
    (r : Row S .kvZsets) : (scoreRows ms).row x = some r ↔ (x, r) ∈ ms.map scoreRow := by
  induction ms with
  | nil => simp [scoreRows]
  | cons m ms ih =>
      rw [List.map_cons, List.nodup_cons] at h
      have hcons : (scoreRows (m :: ms)).row x = if x = m.member then some ⟨m.score, none⟩ else (scoreRows ms).row x :=
        Table.put_row ..
      rw [hcons, List.map_cons, List.mem_cons]
      by_cases hx : x = m.member
      · subst hx
        have hnot : (m.member, r) ∉ ms.map scoreRow := by
          intro hmem
          obtain ⟨m', hm', heq⟩ := List.mem_map.mp hmem
          exact h.1 (List.mem_map.mpr ⟨m', hm', congrArg Prod.fst heq⟩)
        rw [if_pos rfl, or_iff_left hnot, scoreRow, Prod.mk.injEq, Option.some_inj, eq_comm]
        exact ⟨fun hr => ⟨rfl, hr⟩, fun hr => hr.2⟩
      · rw [if_neg hx, ih h.2, or_iff_right]
        intro heq
        exact hx (congrArg Prod.fst heq)

/-- Inserted under a key without rows. -/
theorem addRows_scoreRows {ms : List (ZMember S)} (h : (ms.map ZMember.member).Nodup) :
    addRows .kvZsets ∅ (ms.map scoreRow) = .ok (scoreRows ms) := by
  have hkeys : (ms.map scoreRow).map Prod.fst = ms.map ZMember.member := by
    rw [List.map_map]
    rfl
  obtain ⟨u, hu⟩ := addRows_ok (S := S) (t := .kvZsets) (u := ∅) (hkeys.symm ▸ h) fun _ _ => rfl
  rw [hu]
  congr 1
  refine Table.ext_row fun x => Option.ext fun r => ?_
  rw [addRows_row hu, scoreRows_row h, or_iff_right]
  intro hnone
  cases hnone

theorem scoreRows_eq_empty_iff {ms : List (ZMember S)} : scoreRows ms = ∅ ↔ ms = [] := by
  cases ms with
  | nil => exact iff_of_true rfl rfl
  | cons m ms =>
      refine iff_of_false (Table.ne_empty_of_row (Table.put_row_self ..)) ?_
      intro hnil
      cases hnil

/-- The rows determine the members. -/
theorem mem_iff_of_scoreRows {ms ms' : List (ZMember S)} (h : (ms.map ZMember.member).Nodup)
    (h' : (ms'.map ZMember.member).Nodup) (heq : scoreRows ms = scoreRows ms') (m : ZMember S) : m ∈ ms ↔ m ∈ ms' := by
  have hmem {l : List (ZMember S)} : m ∈ l ↔ scoreRow m ∈ l.map scoreRow := by
    constructor
    · exact fun hm => List.mem_map.mpr ⟨m, hm, rfl⟩
    · intro hm
      obtain ⟨z, hz, hrow⟩ := List.mem_map.mp hm
      cases z
      cases hrow
      exact hz
  have hrow := scoreRows_row h m.member ⟨m.score, none⟩
  rw [heq, scoreRows_row h'] at hrow
  rw [hmem, hmem]
  exact hrow.symm

end Postkeys
