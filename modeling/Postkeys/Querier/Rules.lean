import Postkeys.Querier.Base

/-! # Postconditions of the shared helpers

One rule per helper of the storage operations, so that the proofs about an operation never look
into a helper again. -/

namespace Postkeys

open Relational Program

variable {S α : Type} {e : Env} {d : DB S} {k : Bytes} {Q : Unit → DB S → Prop}

/-- The type of a key at an instant. -/
def liveType (now : Time) (d : DB S) (k : Bytes) : Option KeyType :=
  (live now (d.rows .kvMeta k)).row ()

theorem liveType_eq {now : Time} {m : Row S .kvMeta} (hm : (d.rows .kvMeta k).row () = some m)
    (hlive : m.live now = true) : liveType now d k = some m.val := by
  rw [liveType, live, Table.mapRows_row, hm, Option.bind_some, if_pos hlive]

theorem exists_of_liveType {now : Time} {T : KeyType} (h : liveType now d k = some T) :
    ∃ m, (d.rows .kvMeta k).row () = some m ∧ m.live now = true ∧ m.val = T := by
  rw [liveType, live, Table.mapRows_row] at h
  obtain ⟨m, hm, hval⟩ := Option.bind_eq_some_iff.mp h
  split at hval
  · rename_i hlive
    exact ⟨m, hm, hlive, Option.some.inj hval⟩
  · cases hval

@[simp] theorem wp_lockKey : wp e (lockKey k) Q d ↔ Q () d := Iff.rfl

theorem wp_forEach_lockKey (keys : List Bytes) :
    wp e (Program.forEach lockKey keys) Q d ↔ Q () d := by
  induction keys with
  | nil => exact Iff.rfl
  | cons k ks ih => exact ih

@[simp] theorem wp_lockKeys (keys : List Bytes) :
    wp e (lockKeys keys) Q d ↔ Q () d := by
  unfold lockKeys
  split
  · exact Iff.rfl
  · exact Iff.rfl
  · exact wp_forEach_lockKey _

@[simp] theorem wp_getKeyType {Q : Option KeyType → DB S → Prop} :
    wp e (getKeyType k) Q d ↔ Q (liveType e.now d k) d := Iff.rfl

@[simp] theorem wp_requireType (kt : KeyType) (next : Option KeyType → Op S α)
    {Q : α → DB S → Prop} :
    wp e (requireType k kt next) Q d ↔
      (liveType e.now d k = none ∨ liveType e.now d k = some kt →
        wp e (next (liveType e.now d k)) Q d) := by
  rw [requireType, wp_bind, wp_getKeyType, wp_ite]
  constructor
  · intro h hk
    exact h.2 (by tauto)
  · intro h
    refine ⟨fun _ => wp_raise _, fun hk => h ?_⟩
    tauto

theorem putOr_meta (kt : KeyType) (x : Option Time) :
    putOr .kvMeta (d.rows .kvMeta k) () (⟨kt, x⟩ : Row S .kvMeta) (fun _ => ⟨kt, x⟩) =
      Table.single () ⟨kt, x⟩ := by
  unfold putOr
  cases (d.rows .kvMeta k).row () <;> exact Table.put_unit _ _

@[simp] theorem wp_setMeta (kt : KeyType) (x : Option Time) :
    wp e (setMeta k kt x) Q d ↔ Q () (d.setRows .kvMeta k (Table.single () ⟨kt, x⟩)) := by
  rw [setMeta, wp_bind, wp_lockKey, wp_query, wpSql_upsertRow, putOr_meta]

/-- Deleting a key from the tables one after the other removes all its rows. -/
theorem foldl_setRows_empty (d : DB S) (k : Bytes) :
    allTables.foldl (fun d t => d.setRows t k ∅) d = d.dropKey k := by
  refine Store.ext_rows fun t k' => ?_
  by_cases hk : k' = k
  · subst hk
    cases t <;> simp [allTables, dataTables]
  · simp [allTables, dataTables, hk]

@[simp] theorem wp_deleteKeyFromAllTables :
    wp e (deleteKeyFromAllTables k) Q d ↔ Q () (d.dropKey k) := by
  rw [← foldl_setRows_empty]
  exact Iff.rfl

/-! ### The helpers alone on a store -/

theorem eval_lockKeys (keys : List Bytes) :
    (lockKeys keys : Op S _).eval e (Tx.clean d) = (.ok (), Tx.clean d) := by
  have hall (ks : List Bytes) :
      (Program.forEach lockKey ks : Op S _).eval e (Tx.clean d) = (.ok (), Tx.clean d) := by
    induction ks with
    | nil => rfl
    | cons k ks ih => exact ih
  unfold lockKeys
  split
  · rfl
  · rfl
  · exact hall _

theorem eval_getKeyType :
    (getKeyType k : Op S _).eval e (Tx.clean d) = (.ok (liveType e.now d k), Tx.clean d) := rfl

theorem eval_deleteKeyFromAllTables :
    (deleteKeyFromAllTables k : Op S _).eval e (Tx.clean d) = (.ok (), Tx.clean (d.dropKey k)) := by
  rw [← foldl_setRows_empty]
  rfl

theorem eval_setMeta (kt : KeyType) (x : Option Time) : (setMeta k kt x : Op S _).eval e (Tx.clean d) =
    (.ok (), Tx.clean (d.setRows .kvMeta k (Table.single () ⟨kt, x⟩))) := by
  rw [← putOr_meta kt x]
  rfl

end Postkeys
