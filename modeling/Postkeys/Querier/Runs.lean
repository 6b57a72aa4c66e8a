import Postkeys.Querier.Rules
import Postkeys.Relational.Total

/-! # Operations that return

The companion of the postconditions of statements and helpers for operations that meet no error: one
rule per statement and per helper, so that what a successful operation does can be read off its text. -/

namespace Postkeys

open Relational Program

variable {S α β : Type} {e : Env} {d : DB S} {t : Tab} {k : Bytes} {Q : Unit → DB S → Prop}

/-! ### Statements -/

@[simp] theorem totalSql_selectLive (f : Table t.Sub (t.Val S) → β) {Q : β → DB S → Prop} :
    totalSql e (selectLive t k f) Q d ↔ Q (f (live e.now (d.rows t k))) d := Iff.rfl

@[simp] theorem totalSql_selectAll (f : Table t.Sub (Row S t) → β) {Q : β → DB S → Prop} :
    totalSql e (selectAll t k f) Q d ↔ Q (f (d.rows t k)) d := Iff.rfl

@[simp] theorem totalSql_selectLiveLimit (f : List ℕ → Table t.Sub (t.Val S) → Except PgError (List β))
    {Q : List β → DB S → Prop} :
    totalSql e (selectLiveLimit t k f) Q d ↔ ∃ l, f e.order (live e.now (d.rows t k)) = .ok l ∧ Q l d := by
  simp only [totalSql, selectLiveLimit, Sql.readRows, Env.ctx]
  cases f e.order (live e.now (d.rows t k)) <;> simp

@[simp] theorem totalSql_upsertRow (s : t.Sub) (r : Row S t) (f : Row S t → Row S t)
    :
    totalSql e (upsertRow t k s r f) Q d ↔ Q () (d.setRows t k (putOr t (d.rows t k) s r f)) := Iff.rfl

@[simp] theorem totalSql_insertRows (rows : List (t.Sub × Row S t)) :
    totalSql e (insertRows t k rows) Q d ↔
      ∃ u, addRows t (d.rows t k) rows = .ok u ∧ Q () (d.setRows t k u) := by
  simp only [totalSql, insertRows, Sql.onRows]
  cases addRows t (d.rows t k) rows <;> simp [Except.map]

@[simp] theorem totalSql_updateWhere (p : Time → t.Sub → Row S t → Bool) (f : Row S t → Row S t)
    {Q : List (t.Sub × Row S t) → DB S → Prop} :
    totalSql e (updateWhere t k p f) Q d ↔
      Q ((d.rows t k).restrict (p e.now)).toList
        (d.setRows t k ((d.rows t k).update (p e.now) f)) := Iff.rfl

@[simp] theorem total_lockKey : total e (lockKey k) Q d ↔ Q () d := Iff.rfl

@[simp] theorem total_lockKeys (keys : List Bytes) :
    total e (lockKeys keys) Q d ↔ Q () d := by
  have hall (ks : List Bytes) : total e (Program.forEach lockKey ks : Op S _) Q d ↔ Q () d := by
    induction ks with
    | nil => exact Iff.rfl
    | cons k ks ih => exact ih
  unfold lockKeys
  split
  · exact Iff.rfl
  · exact Iff.rfl
  · exact hall _

@[simp] theorem total_getKeyType {Q : Option KeyType → DB S → Prop} :
    total e (getKeyType k) Q d ↔ Q (liveType e.now d k) d := Iff.rfl

@[simp] theorem total_requireType (kt : KeyType) (next : Option KeyType → Op S α)
    {Q : α → DB S → Prop} :
    total e (requireType k kt next) Q d ↔
      (liveType e.now d k = none ∨ liveType e.now d k = some kt) ∧
        total e (next (liveType e.now d k)) Q d := by
  rw [requireType, total_bind, total_getKeyType, total_ite]
  constructor
  · rintro ⟨hraise, hnext⟩
    by_cases hk : liveType e.now d k = none ∨ liveType e.now d k = some kt
    · exact ⟨hk, hnext (by tauto)⟩
    · exact (hraise (by tauto)).elim
  · rintro ⟨hk, hnext⟩
    exact ⟨fun hne => (by tauto : False).elim, fun _ => hnext⟩

@[simp] theorem total_setMeta (kt : KeyType) (x : Option Time) :
    total e (setMeta k kt x) Q d ↔ Q () (d.setRows .kvMeta k (Table.single () ⟨kt, x⟩)) := by
  rw [setMeta, total_bind, total_lockKey, total_query, totalSql_upsertRow, putOr_meta]

@[simp] theorem total_deleteKeyFromAllTables :
    total e (deleteKeyFromAllTables k) Q d ↔ Q () (d.dropKey k) := by
  rw [← foldl_setRows_empty]
  exact Iff.rfl

end Postkeys
