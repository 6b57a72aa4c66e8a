import Postkeys.Relational.Hoare
import Postkeys.Schema

/-! # The SQL statements

The shapes of the statements the storage layer sends, as functions on the rows of one key in one
table: selections of live rows or of all rows, inserts with and without `ON CONFLICT`, updates and
deletes with a filter, `LIMIT` and `OFFSET`, and the moves of rows to another primary key. -/

namespace Postkeys

open Relational

variable {S α β : Type} {Q : Unit → DB S → Prop}

/-! ### Errors of the server -/

/-- A second row for a primary key. -/
def uniqueViolation (t : Tab) : PgError :=
  ⟨"23505", "duplicate key value violates unique constraint \"" ++ t.pkey ++ "\""⟩

/-- An upsert that meets a row it has written itself. -/
def cardinalityViolation : PgError :=
  ⟨"21000", "ON CONFLICT DO UPDATE command cannot affect row a second time"⟩

/-- `BIGINT` overflow. -/
def bigintOutOfRange : PgError := ⟨"22003", "bigint out of range"⟩

/-- `DOUBLE PRECISION` overflow. -/
def floatOutOfRange : PgError := ⟨"22003", "value out of range: overflow"⟩

/-! ### Selections -/

/-- A query over the live rows of a key. -/
def selectLive (t : Tab) (k : Bytes) (f : Table t.Sub (t.Val S) → β) : Stm S β :=
  Sql.readRows t k fun c u => .ok (f (live c.now u))

/-- A query over all rows of a key, expired ones included. -/
def selectAll (t : Tab) (k : Bytes) (f : Table t.Sub (Row S t) → β) : Stm S β :=
  Sql.readRows t k fun _ u => .ok (f u)

/-- The live rows of a key in no particular order. -/
def selectLiveRows (t : Tab) (k : Bytes) : Stm S (List (t.Sub × t.Val S)) :=
  Sql.readRows t k fun c u => .ok (Table.shuffle c.order (live c.now u).toList)

/-- The number of rows of a table. -/
def count {σ V : Type} (u : Table σ V) : ℤ := u.dom.card

/-- `LIMIT` and `OFFSET`. -/
def limitOffset (limit offset : ℤ) (l : List α) : Except PgError (List α) :=
  if offset < 0 then .error ⟨"2201X", "OFFSET must not be negative"⟩
  else if limit < 0 then .error ⟨"2201W", "LIMIT must not be negative"⟩
  else .ok ((l.drop offset.toNat).take limit.toNat)

/-- A query over the live rows of a key that returns rows and may be refused. -/
def selectLiveLimit (t : Tab) (k : Bytes)
    (f : List ℕ → Table t.Sub (t.Val S) → Except PgError (List β)) : Stm S (List β) :=
  Sql.readRows t k fun c u => f c.order (live c.now u)

/-! ### Inserts -/

/-- Add rows to a table, refusing a primary key that is taken. -/
def addRows (t : Tab) (u : Table t.Sub (Row S t)) :
    List (t.Sub × Row S t) → Except PgError (Table t.Sub (Row S t))
  | [] => .ok u
  | (s, r) :: rows =>
      match u.row s with
      | some _ => .error (uniqueViolation t)
      | none => addRows t (u.put s r) rows

/-- `INSERT`. -/
def insertRows (t : Tab) (k : Bytes) (rows : List (t.Sub × Row S t)) : Stm S Unit :=
  Sql.onRows t k fun _ u => (addRows t u rows).map fun u => (u, ())

/-- Write a row, or rewrite the one that is there. -/
def putOr (t : Tab) (u : Table t.Sub (Row S t)) (s : t.Sub) (r : Row S t)
    (f : Row S t → Row S t) : Table t.Sub (Row S t) :=
  u.put s ((u.row s).elim r f)

/-- `INSERT … ON CONFLICT DO UPDATE` of one row. -/
def upsertRow (t : Tab) (k : Bytes) (s : t.Sub) (r : Row S t) (f : Row S t → Row S t) :
    Stm S Unit :=
  Sql.onRows t k fun _ u => .ok (putOr t u s r f, ())

/-- Upsert several rows, each with its own rewrite. -/
def putAll (t : Tab) (f : Row S t → Row S t → Row S t) (u : Table t.Sub (Row S t)) :
    List (t.Sub × Row S t) → Table t.Sub (Row S t)
  | [] => u
  | (s, r) :: rows => putAll t f (putOr t u s r (f r)) rows

/-- `INSERT … ON CONFLICT DO UPDATE` of several rows of one key; `f` takes the new row and the old
one. -/
def upsertRows (t : Tab) (k : Bytes) (rows : List (t.Sub × Row S t))
    (f : Row S t → Row S t → Row S t) : Stm S Unit :=
  Sql.onRows t k fun _ u =>
    if (rows.map Prod.fst).Nodup then .ok (putAll t f u rows, ()) else .error cardinalityViolation

/-- Add the rows whose primary key is free, counting them. -/
def addFree (t : Tab) (u : Table t.Sub (Row S t)) :
    List (t.Sub × Row S t) → Table t.Sub (Row S t) × ℤ
  | [] => (u, 0)
  | (s, r) :: rows =>
      match u.row s with
      | some _ => addFree t u rows
      | none => ((addFree t (u.put s r) rows).1, (addFree t (u.put s r) rows).2 + 1)

/-- `INSERT … ON CONFLICT DO NOTHING`, with the number of rows inserted. -/
def insertIgnore (t : Tab) (k : Bytes) (rows : List (t.Sub × Row S t)) : Stm S ℤ :=
  Sql.onRows t k fun _ u => .ok (addFree t u rows)

/-! ### Deletes and updates -/

/-- `DELETE … WHERE key = $1`. -/
def deleteKey (t : Tab) (k : Bytes) : Stm S Unit := Sql.onRows t k fun _ _ => .ok (∅, ())

/-- `DELETE … WHERE key = $1 AND p`, with the number of rows deleted. -/
def deleteWhere (t : Tab) (k : Bytes) (p : t.Sub → Row S t → Bool) : Stm S ℤ :=
  Sql.onRows t k fun _ u =>
    .ok (u.restrict fun s r => !p s r, count (u.restrict p))

/-- `ORDER BY … ASC` or `DESC`. -/
inductive SortOrder
  | asc | desc
deriving DecidableEq, Repr

/-- A list sorted upwards in the given order. -/
def SortOrder.apply (o : SortOrder) (l : List α) : List α :=
  match o with
  | .asc => l
  | .desc => l.reverse

theorem mem_order {order : SortOrder} {l : List α} {a : α} : a ∈ order.apply l ↔ a ∈ l := by
  cases order <;> simp [SortOrder.apply]

/-- `DELETE` of the rows a subquery chooses, with the rows deleted. -/
def deleteRows (t : Tab) (k : Bytes) (choose : Table t.Sub (Row S t) → List (t.Sub × Row S t)) :
    Stm S (List (t.Sub × Row S t)) :=
  Sql.onRows t k fun _ u =>
    .ok (u.restrict fun s _ => s ∉ (choose u).map Prod.fst, choose u)

/-- The rows of a key that `SKIP LOCKED` lets a statement see. -/
def visible (c : Ctx Bytes Tab.Sub) (t : Tab) (k : Bytes) (u : Table t.Sub (Row S t)) :
    Table t.Sub (Row S t) :=
  u.restrict fun s _ => !c.hidden ⟨t, k, s⟩

/-- `DELETE` of the rows a subquery with `FOR UPDATE SKIP LOCKED` chooses, with the rows deleted. -/
def popRows (t : Tab) (k : Bytes)
    (choose : Time → Table t.Sub (Row S t) → List (t.Sub × Row S t)) :
    Stm S (List (t.Sub × Row S t)) :=
  Sql.onRows t k fun c u =>
    let rows := choose c.now (visible c t k u)
    .ok (u.restrict fun s _ => s ∉ rows.map Prod.fst, rows)

/-- The live rows of a table, with their expiry. -/
def liveRows {σ V : Type} (now : Time) (u : Table σ (Cell V)) : Table σ (Cell V) :=
  u.restrict fun _ r => r.live now

/-- `UPDATE … SET … WHERE key = $1 AND p`, with the rows updated. -/
def updateWhere (t : Tab) (k : Bytes) (p : Time → t.Sub → Row S t → Bool) (f : Row S t → Row S t) :
    Stm S (List (t.Sub × Row S t)) :=
  Sql.onRows t k fun c u => .ok (u.update (p c.now) f, (u.restrict (p c.now)).toList)

/-- `UPDATE … SET expires_at = $2 WHERE key = $1`. -/
def setExpiry (t : Tab) (k : Bytes) (e : Option Time) : Stm S Unit :=
  Sql.onRows t k fun _ u => .ok (u.update (fun _ _ => true) fun r => ⟨r.val, e⟩, ())

/-- `UPDATE … SET key = $2 WHERE key = $1`. -/
def moveKey (t : Tab) (k k' : Bytes) : Stm S Unit :=
  if k = k' then pure ()
  else do
    let rows ← Sql.onRows t k fun _ u => .ok (∅, u.toList)
    insertRows t k' rows

theorem map_eq_ok {ε : Type} {f : α → β} {x : Except ε α} {b : β} (h : x.map f = .ok b) :
    ∃ a, x = .ok a ∧ f a = b := by
  cases x with
  | error y => cases h
  | ok a => exact ⟨a, rfl, Except.ok.inj h⟩

/-- The rows of a table after an insert. -/
theorem addRows_row {t : Tab} {rows : List (t.Sub × Row S t)} {u u' : Table t.Sub (Row S t)}
    (h : addRows t u rows = .ok u') (s : t.Sub) (c : Row S t) :
    u'.row s = some c ↔ u.row s = some c ∨ (s, c) ∈ rows := by
  induction rows generalizing u with
  | nil =>
      cases h
      simp
  | cons p rows ih =>
      obtain ⟨s₀, r⟩ := p
      rw [addRows] at h
      split at h
      · cases h
      · rename_i hfree
        rw [ih h, Table.put_row, List.mem_cons, Prod.mk.injEq]
        by_cases hs : s = s₀
        · subst hs
          simp [hfree, eq_comm]
        · simp [hs]

/-! ### Postconditions of the statements -/

section rules
open Program
variable {e : Env} {d : DB S} {t : Tab} {k : Bytes}

theorem visible_ctx (u : Table t.Sub (Row S t)) : visible e.ctx t k u = u := Table.restrict_true u

@[simp] theorem wpSql_selectLive (f : Table t.Sub (t.Val S) → β) {Q : β → DB S → Prop} :
    wpSql e (selectLive t k f) Q d ↔ Q (f (live e.now (d.rows t k))) d := Iff.rfl

@[simp] theorem wpSql_selectAll (f : Table t.Sub (Row S t) → β) {Q : β → DB S → Prop} :
    wpSql e (selectAll t k f) Q d ↔ Q (f (d.rows t k)) d := Iff.rfl

@[simp] theorem wpSql_selectLiveLimit
    (f : List ℕ → Table t.Sub (t.Val S) → Except PgError (List β)) {Q : List β → DB S → Prop} :
    wpSql e (selectLiveLimit t k f) Q d ↔
      ∀ b, f e.order (live e.now (d.rows t k)) = .ok b → Q b d := wpSql_readRows t k _

@[simp] theorem wpSql_insertRows (rows : List (t.Sub × Row S t)) :
    wpSql e (insertRows t k rows) Q d ↔
      ∀ u, addRows t (d.rows t k) rows = .ok u → Q () (d.setRows t k u) := by
  simp only [wpSql, insertRows, Sql.onRows]
  cases addRows t (d.rows t k) rows <;> simp [Except.map]

@[simp] theorem wpSql_upsertRow (s : t.Sub) (r : Row S t) (f : Row S t → Row S t)
    :
    wpSql e (upsertRow t k s r f) Q d ↔ Q () (d.setRows t k (putOr t (d.rows t k) s r f)) := Iff.rfl

@[simp] theorem wpSql_upsertRows (rows : List (t.Sub × Row S t)) (f : Row S t → Row S t → Row S t)
    :
    wpSql e (upsertRows t k rows f) Q d ↔
      ((rows.map Prod.fst).Nodup → Q () (d.setRows t k (putAll t f (d.rows t k) rows))) := by
  simp only [wpSql, upsertRows, Sql.onRows]
  by_cases h : (rows.map Prod.fst).Nodup <;> simp [h]

@[simp] theorem wpSql_insertIgnore (rows : List (t.Sub × Row S t)) {Q : ℤ → DB S → Prop} :
    wpSql e (insertIgnore t k rows) Q d ↔
      Q (addFree t (d.rows t k) rows).2 (d.setRows t k (addFree t (d.rows t k) rows).1) := Iff.rfl

@[simp] theorem wpSql_deleteKey :
    wpSql e (deleteKey t k) Q d ↔ Q () (d.setRows t k ∅) := Iff.rfl

@[simp] theorem wpSql_deleteWhere (p : t.Sub → Row S t → Bool) {Q : ℤ → DB S → Prop} :
    wpSql e (deleteWhere t k p) Q d ↔
      Q (count ((d.rows t k).restrict p))
        (d.setRows t k ((d.rows t k).restrict fun s r => !p s r)) := Iff.rfl

@[simp] theorem wpSql_popRows (choose : Time → Table t.Sub (Row S t) → List (t.Sub × Row S t))
    {Q : List (t.Sub × Row S t) → DB S → Prop} :
    wpSql e (popRows t k choose) Q d ↔
      Q (choose e.now (d.rows t k))
        (d.setRows t k ((d.rows t k).restrict fun s _ =>
          s ∉ (choose e.now (d.rows t k)).map Prod.fst)) := by
  simp only [wpSql, popRows, Sql.onRows, visible_ctx]
  rfl

@[simp] theorem wpSql_updateWhere (p : Time → t.Sub → Row S t → Bool) (f : Row S t → Row S t)
    {Q : List (t.Sub × Row S t) → DB S → Prop} :
    wpSql e (updateWhere t k p f) Q d ↔
      Q ((d.rows t k).restrict (p e.now)).toList
        (d.setRows t k ((d.rows t k).update (p e.now) f)) := Iff.rfl

@[simp] theorem wpSql_setExpiry (x : Option Time) :
    wpSql e (setExpiry t k x) Q d ↔
      Q () (d.setRows t k ((d.rows t k).update (fun _ _ => true) fun r => ⟨r.val, x⟩)) := Iff.rfl

theorem wpSql_moveKey {k' : Bytes} (hk : k ≠ k') :
    wpSql e (moveKey t k k') Q d ↔
      ∀ u, addRows t (d.rows t k') (d.rows t k).toList = .ok u →
        Q () ((d.setRows t k ∅).setRows t k' u) := by
  have hrows : (d.setRows t k ∅).rows t k' = d.rows t k' :=
    Store.rows_setRows_of_ne_key _ _ _ (Ne.symm hk) _
  rw [moveKey, if_neg hk, wpSql_bind, ← hrows]
  exact wpSql_insertRows (d := d.setRows t k ∅) _

end rules

end Postkeys
