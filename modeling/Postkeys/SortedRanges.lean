import Postkeys.SortedRanks

/-! # Ranges of sorted sets

What the commands that read a range of a sorted set answer, as parts of its order: by index, by score and by
member, upwards and downwards, with and without a limit. -/

namespace Postkeys

open Relational Program

variable {S : Type} {e : Env} {d : DB S} {key : Bytes}

/-! ### Reads -/

section reads
variable {β : Type} {t : Tab} {k : Bytes}

/-- The result of a read that the database may refuse. -/
def answered (r : Except PgError (List β)) : Except Failure (List β) :=
  match r with
  | .ok l => .ok l
  | .error x => .error (.db "" x)

/-- The rows of a read whose errors are not looked at. -/
def rowsOf (r : Except PgError (List β)) : List β := r.toOption.getD []

theorem run_select (g : List ℕ → Table t.Sub (t.Val S) → Except PgError (List β)) :
    (selectLiveLimit t k g : Stm S _) e.ctx d = (g e.order (live e.now (d.rows t k))).map fun l => (d, l) := by
  simp only [selectLiveLimit, Sql.readRows, Env.ctx]
  cases g e.order (live e.now (d.rows t k)) <;> rfl

theorem eval_query_select (g : List ℕ → Table t.Sub (t.Val S) → Except PgError (List β)) :
    ∃ tx, (Program.query (selectLiveLimit t k g) : Op S _).eval e (Tx.clean d) =
      (answered (g e.order (live e.now (d.rows t k))), tx) ∧ tx.view = d := by
  have hrun := run_select (e := e) (d := d) (k := k) g
  cases h : g e.order (live e.now (d.rows t k)) with
  | ok l =>
      rw [h] at hrun
      exact ⟨_, eval_query_ok hrun, rfl⟩
  | error x =>
      rw [h] at hrun
      exact ⟨_, eval_query_failed hrun, rfl⟩

theorem eval_queryRows_select (g : List ℕ → Table t.Sub (t.Val S) → Except PgError (List β)) :
    ∃ tx, (Program.queryRows (selectLiveLimit t k g) : Op S _).eval e (Tx.clean d) =
      (.ok (rowsOf (g e.order (live e.now (d.rows t k)))), tx) ∧ tx.view = d := by
  simp only [queryRows, eval, Tx.request_clean, run_select]
  cases g e.order (live e.now (d.rows t k)) with
  | ok l => exact ⟨Tx.clean d, rfl, rfl⟩
  | error x => exact ⟨⟨d, true, []⟩, rfl, rfl⟩

variable [Float64 S] {c : Cmd S} {f : List β → Reply S}

/-- A pooled command that reads. -/
theorem exec_of_eval {p : Op S (List β)} {r : Except Failure (List β)} (hpool : c.pooled = true) (hop : c.op = f <$> p)
    (h : ∃ tx, p.eval e (Tx.clean d) = (r, tx) ∧ tx.view = d) : c.exec e d = (r.map f, d) := by
  obtain ⟨tx, heval, hview⟩ := h
  rw [Cmd.exec, hop, eval_map, heval]
  cases r with
  | ok l =>
      simp only [Except.map, hpool, Bool.not_true, Bool.and_false, Bool.false_eq_true, if_false, hview]
  | error x => simp only [Except.map, hpool, if_true, hview]

theorem exec_of_query {g : List ℕ → Table t.Sub (t.Val S) → Except PgError (List β)} (hpool : c.pooled = true)
    (hop : c.op = f <$> Program.query (selectLiveLimit t k g)) :
    c.exec e d = ((answered (g e.order (live e.now (d.rows t k)))).map f, d) :=
  exec_of_eval hpool hop (eval_query_select g)

theorem exec_of_queryRows {g : List ℕ → Table t.Sub (t.Val S) → Except PgError (List β)} (hpool : c.pooled = true)
    (hop : c.op = f <$> Program.queryRows (selectLiveLimit t k g)) :
    c.exec e d = (.ok (f (rowsOf (g e.order (live e.now (d.rows t k))))), d) :=
  exec_of_eval hpool hop (eval_queryRows_select g)

end reads

variable [Float64 S]

/-! ### By index -/

theorem exec_zRange_eq (start stop : ℤ) : (Cmd.zRange key start stop : Cmd S).exec e d =
    ((answered (rangeByIndex start stop (zOrder e.now d key))).map .members, d) :=
  exec_of_query (t := .kvZsets) (g := fun _ u => rangeByIndex start stop (zMembers u)) rfl rfl

theorem exec_zRevRange_eq (start stop : ℤ) : (Cmd.zRevRange key start stop : Cmd S).exec e d =
    ((answered (rangeByIndex start stop (zOrder e.now d key).reverse)).map .members, d) :=
  exec_of_query (t := .kvZsets) (g := fun _ u => rangeByIndex start stop (zMembers u).reverse) rfl rfl

/-! ### By score -/

/-- The members with a score in a range, in order. -/
def scoreRange (now : Time) (d : DB S) (key : Bytes) (min max : S) : List (ZMember S) :=
  (zOrder now d key).filter fun m => scoreBetween min max m.score

/-- Cut a list if there is a positive limit. -/
def limited {α : Type} (cnt offset : ℤ) (l : List α) : Except PgError (List α) :=
  if 0 < cnt then limitOffset cnt offset l else .ok l

theorem membersByScore_eq (order : SortOrder) (min max : S) (offset cnt : ℤ) :
    membersByScore min max offset cnt order (live e.now (d.rows .kvZsets (encodeKey key))) =
      limited cnt offset (order.apply (scoreRange e.now d key min max)) := by
  cases order with
  | asc => rfl
  | desc =>
      have hreverse : ((zOrder e.now d key).reverse.filter fun m => scoreBetween min max m.score) =
          (scoreRange e.now d key min max).reverse := List.filter_reverse ..
      rw [SortOrder.apply, ← hreverse]
      rfl

theorem exec_zRangeByScore (min max : S) (offset cnt : ℤ) :
    (Cmd.zRangeByScore key min max offset cnt : Cmd S).exec e d =
      (.ok (.members (rowsOf (limited cnt offset (scoreRange e.now d key min max)))), d) := by
  have h : _ = limited cnt offset (scoreRange e.now d key min max) := membersByScore_eq .asc min max offset cnt
  rw [← h]
  exact exec_of_queryRows (t := .kvZsets) (g := fun _ => membersByScore min max offset cnt .asc) rfl rfl

theorem exec_zRevRangeByScore (min max : S) (offset cnt : ℤ) :
    (Cmd.zRevRangeByScore key min max offset cnt : Cmd S).exec e d =
      (.ok (.members (rowsOf (limited cnt offset (scoreRange e.now d key min max).reverse))), d) := by
  have h : _ = limited cnt offset (scoreRange e.now d key min max).reverse :=
    membersByScore_eq .desc min max offset cnt
  rw [← h]
  exact exec_of_queryRows (t := .kvZsets) (g := fun _ => membersByScore min max offset cnt .desc) rfl rfl

/-! ### By member -/

end Postkeys
