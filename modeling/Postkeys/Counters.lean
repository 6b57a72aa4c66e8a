import Postkeys.Decimal
import Postkeys.Handlers.Hashes
import Postkeys.Handlers.Runs
import Postkeys.Querier.Runs

/-! # Counters

`INCR`, `DECR`, `INCRBY`, `DECRBY` and `HINCRBY` read a whole number, add their operand and write the
sum back, all in `int64`.  `counter_exact_iff` says that the sum is the mathematical one exactly when
that is a 64-bit number; when it is not, the command answers and stores a number that has wrapped
around instead of an error. -/

namespace Postkeys

open Relational Program

/-! ### The commands -/

/-- A command that adds to a stored number, with its arguments. -/
inductive Counter
  | incr (key : Bytes)
  | decr (key : Bytes)
  | incrby (key n : Bytes)
  | decrby (key n : Bytes)
  | hincrby (key field n : Bytes)

namespace Counter

variable {S : Type}

def proc [GoFloat S] : Counter → Proc S
  | incr key => Handlers.incrOp [key]
  | decr key => Handlers.decrOp [key]
  | incrby key n => Handlers.incrbyOp [key, n]
  | decrby key n => Handlers.decrbyOp [key, n]
  | hincrby key field n => Handlers.hincrbyOp [key, field, n]

/-- What the command is to add, if its argument is a number. -/
def operand : Counter → Option ℤ
  | incr _ => some 1
  | decr _ => some (-1)
  | incrby _ n => parseInt n
  | decrby _ n => (parseInt n).map fun n => -n
  | hincrby _ _ n => parseInt n

/-- The text of a live string. -/
def stringText (now : Time) (d : DB S) (key : Bytes) : Option Bytes :=
  (live now (d.rows .kvStrings (encodeKey key))).row ()

/-- The text the command works on, if there is one. -/
def text (now : Time) (d : DB S) : Counter → Option Bytes
  | incr key => stringText now d key
  | decr key => stringText now d key
  | incrby key _ => stringText now d key
  | decrby key _ => stringText now d key
  | hincrby key field _ => (live now (d.rows .kvHashes (encodeKey key))).row (encodeField field)

/-- The number `x` is stored where the command looks for it; a field is stored in a hash. -/
def Stored (now : Time) (d : DB S) (x : ℤ) (c : Counter) : Prop :=
  (∃ v, c.text now d = some v ∧ parseInt v = some x) ∧
    ∀ key field n, c = hincrby key field n → liveType now d (encodeKey key) = some .hash

/-- The command answers and stores the sum of `x` and `n`, or, if that is not a 64-bit number, answers
with an error and changes nothing. -/
def Exact [GoFloat S] (e : Env) (sc : ScriptCache) (d : DB S) (x n : ℤ) (c : Counter) : Prop :=
  (InInt64 (x + n) → (c.proc.direct e sc d).1 = .ok (.int (x + n)) ∧
    c.text e.now (c.proc.direct e sc d).2.2 = some (formatInt (x + n))) ∧
  (¬ InInt64 (x + n) → (∃ v : Value, (c.proc.direct e sc d).1 = .ok v ∧ v.type = .error) ∧
    (c.proc.direct e sc d).2.2 = d)

end Counter

/-! ### What the operations do -/

section operations
variable {S : Type} {e : Env} {d : DB S}

/-- A row that is rewritten in place is as live as before. -/
theorem live_putOr {t : Tab} {u : Table t.Sub (Row S t)} {s : t.Sub} {now : Time} {v : t.Val S}
    (h : (live now u).row s = some v) (w : t.Val S) :
    (live now (putOr t u s ⟨w, none⟩ fun r => ⟨w, r.expiresAt⟩)).row s = some w := by
  obtain ⟨c, hc, hlive⟩ := Option.bind_eq_some_iff.mp h
  have hrow : (putOr t u s ⟨w, none⟩ fun r => ⟨w, r.expiresAt⟩).row s = some ⟨w, c.expiresAt⟩ := by
    rw [putOr, Table.put_row_self, hc]
    rfl
  have hlive' : (⟨w, c.expiresAt⟩ : Row S t).live now = true := by
    have hif : (if c.live now then some c.val else none) = some v := hlive
    split at hif
    · assumption
    · cases hif
  rw [live, Table.mapRows_row, hrow, Option.bind_some, if_pos hlive']

theorem total_incr {key v : Bytes} {x : ℤ} (hv : Counter.stringText e.now d key = some v)
    (hx : parseInt v = some x) (delta : ℤ) :
    total e (incr key delta : Op S ℤ) (fun n d' => n = int64 (x + delta) ∧
      Counter.stringText e.now d' key = some (formatInt (int64 (x + delta)))) d := by
  unfold Counter.stringText at hv ⊢
  simp only [incr, total_bind, total_query, selectString, totalSql_selectLive, hv, hx, pure_eq, total_ret,
    total_setMeta, upsertString, totalSql_upsertRow, Store.rows_setRows_self, true_and]
  refine live_putOr (v := v) ?_ _
  rwa [Store.rows_setRows_of_ne_table _ (by decide)]

theorem total_hIncrBy {key field v : Bytes} {x : ℤ} (htype : liveType e.now d (encodeKey key) = some .hash)
    (hv : (live e.now (d.rows .kvHashes (encodeKey key))).row (encodeField field) = some v)
    (hx : parseInt v = some x) (increment : ℤ) :
    total e (hIncrBy key field increment : Op S ℤ) (fun n d' => n = int64 (x + increment) ∧
      (live e.now (d'.rows .kvHashes (encodeKey key))).row (encodeField field) =
        some (formatInt (int64 (x + increment)))) d := by
  simp only [hIncrBy, total_requireType, htype, or_true, true_and, total_bind, total_query, selectField,
    totalSql_selectLive, hv, hx, pure_eq, total_ret, total_setMeta, upsertField, totalSql_upsertRow,
    Store.rows_setRows_self]
  refine live_putOr (v := v) ?_ _
  rwa [Store.rows_setRows_of_ne_table _ (by decide)]

end operations

/-! ### What the commands answer -/

section commands
variable {S : Type} [GoFloat S] {e : Env} {d : DB S} {sc : ScriptCache}

theorem incr_run {onError : Failure → Value} {key v : Bytes} {x : ℤ}
    (hv : Counter.stringText e.now d key = some v) (hx : parseInt v = some x) (delta : ℤ) :
    ((Proc.callOr onError (.incr key delta) fun r => Proc.reply r.toValue : Proc S).direct e sc d).1 =
      .ok (.int (int64 (x + delta))) ∧
    Counter.stringText e.now ((Proc.callOr onError (.incr key delta) fun r =>
      Proc.reply r.toValue : Proc S).direct e sc d).2.2 key = some (formatInt (int64 (x + delta))) := by
  refine Proc.direct_callOr (r := .int (int64 (x + delta)))
    (P := fun d' => Counter.stringText e.now d' key = some (formatInt (int64 (x + delta)))) ?_
  refine (total_map _ _).mpr (total_mono (total_incr hv hx delta) fun n d' h => ?_)
  exact ⟨congrArg Reply.int h.1, h.2⟩

theorem hIncrBy_run {onError : Failure → Value} {key field v : Bytes} {x : ℤ}
    (htype : liveType e.now d (encodeKey key) = some .hash)
    (hv : (live e.now (d.rows .kvHashes (encodeKey key))).row (encodeField field) = some v)
    (hx : parseInt v = some x) (n : ℤ) :
    ((Proc.callOr onError (.hIncrBy key field n) fun r => Proc.reply r.toValue : Proc S).direct e sc d).1 =
      .ok (.int (int64 (x + n))) ∧
    (live e.now (((Proc.callOr onError (.hIncrBy key field n) fun r =>
      Proc.reply r.toValue : Proc S).direct e sc d).2.2.rows .kvHashes (encodeKey key))).row
        (encodeField field) = some (formatInt (int64 (x + n))) := by
  refine Proc.direct_callOr (r := .int (int64 (x + n)))
    (P := fun d' => (live e.now (d'.rows .kvHashes (encodeKey key))).row (encodeField field) =
      some (formatInt (int64 (x + n)))) ?_
  refine (total_map _ _).mpr (total_mono (total_hIncrBy htype hv hx n) fun n' d' h => ?_)
  exact ⟨congrArg Reply.int h.1, h.2⟩

/-- **What a counter command answers and stores.** -/
theorem counter_run (sc : ScriptCache) {c : Counter} {x n : ℤ} (h : c.Stored e.now d x)
    (hn : c.operand = some n) :
    ((c.proc : Proc S).direct e sc d).1 = .ok (.int (int64 (x + n))) ∧
      c.text e.now ((c.proc : Proc S).direct e sc d).2.2 = some (formatInt (int64 (x + n))) := by
  obtain ⟨⟨v, hv, hx⟩, htype⟩ := h
  cases c with
  | incr key =>
      cases hn
      exact incr_run hv hx 1
  | decr key =>
      cases hn
      exact incr_run hv hx (-1)
  | incrby key arg =>
      have hproc : ((Counter.incrby key arg).proc : Proc S) = Proc.answer (.incr key n) := by
        have harg : parseInt arg = some n := hn
        simp only [Counter.proc, Handlers.incrbyOp, Handlers.stepByOp, harg, Proc.need, id]
      rw [hproc]
      exact incr_run hv hx n
  | decrby key arg =>
      obtain ⟨m, harg, rfl⟩ := Option.map_eq_some_iff.mp hn
      have hproc : ((Counter.decrby key arg).proc : Proc S) = Proc.answer (.incr key (int64 (-m))) := by
        simp only [Counter.proc, Handlers.decrbyOp, Handlers.stepByOp, harg, Proc.need]
      rw [hproc, ← int64_add_int64]
      exact incr_run hv hx _
  | hincrby key field arg =>
      have hproc : ((Counter.hincrby key field arg).proc : Proc S) =
          Proc.answerTyped (.hIncrBy key field n) := by
        have harg : parseInt arg = some n := hn
        simp only [Counter.proc, Handlers.hincrbyOp, harg, Proc.need]
      rw [hproc]
      exact hIncrBy_run (htype key field arg rfl) hv hx n

/-- **Counters are exact up to the range of 64-bit numbers, and wrap around beyond it.** -/
theorem counter_exact_iff (c : Counter) (e : Env) (sc : ScriptCache) (d : DB S) (x n : ℤ)
    (h : c.Stored e.now d x) (hn : c.operand = some n) :
    c.Exact e sc d x n ↔ -2 ^ 63 ≤ x + n ∧ x + n < 2 ^ 63 := by
  obtain ⟨hreply, htext⟩ := counter_run sc h hn
  constructor
  · rintro ⟨-, hout⟩
    by_contra hrange
    obtain ⟨⟨v, hv, herror⟩, -⟩ := hout hrange
    rw [hreply] at hv
    cases hv
    cases herror
  · intro hrange
    rw [int64_eq_self hrange] at hreply htext
    exact ⟨fun _ => ⟨hreply, htext⟩, fun hout => absurd hrange hout⟩

end commands

/-! ### A counter that wraps around -/

/-- The greatest 64-bit number under a key. -/
def fullCounter : DB ℤ :=
  ((emptyDB : DB ℤ).setRows .kvMeta (utf8 "hits") (Table.single () ⟨.string, none⟩)).setRows .kvStrings
    (utf8 "hits") (Table.single () ⟨utf8 "9223372036854775807", none⟩)

theorem fullCounter_text :
    Counter.stringText 0 fullCounter (utf8 "hits") = some (utf8 "9223372036854775807") := by
  decide

theorem fullCounter_stored {c : Counter}
    (hc : c.text 0 fullCounter = Counter.stringText 0 fullCounter (utf8 "hits"))
    (hhash : ∀ key field n, c ≠ .hincrby key field n) : c.Stored 0 fullCounter 9223372036854775807 :=
  ⟨⟨_, hc.trans fullCounter_text, by decide⟩, fun key field n h => absurd h (hhash key field n)⟩

theorem counter_exact_in_range :
    (Counter.incrby (utf8 "hits") (utf8 "-7")).Exact (envAt 0) ∅ fullCounter 9223372036854775807 (-7) := by
  have hstored : (Counter.incrby (utf8 "hits") (utf8 "-7")).Stored (envAt 0).now fullCounter
      9223372036854775807 := fullCounter_stored rfl fun _ _ _ h => by cases h
  have hoperand : (Counter.incrby (utf8 "hits") (utf8 "-7")).operand = some (-7) := by decide
  rw [counter_exact_iff _ _ _ _ _ _ hstored hoperand]
  omega

theorem incr_wraps_around :
    (((Counter.incr (utf8 "hits")).proc : Proc ℤ).direct (envAt 0) ∅ fullCounter).1 =
      .ok (.int (-9223372036854775808)) := by
  have hstored : (Counter.incr (utf8 "hits")).Stored (envAt 0).now fullCounter 9223372036854775807 :=
    fullCounter_stored rfl fun _ _ _ h => by cases h
  have hwrap : int64 (9223372036854775807 + 1) = -9223372036854775808 := by decide
  have hrun := (counter_run ∅ hstored rfl).1
  rwa [hwrap] at hrun

end Postkeys
