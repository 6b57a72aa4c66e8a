import Postkeys.Exec

/-! # What a command handler does

A handler parses its arguments, calls the store, reads the clock and the cache of scripts, and
answers.  `Proc` is this sequence of steps; what the handler does next depends on the outcome of the
step before.  The same handler runs against the store itself (`Proc.direct`: every call is a
transaction of its own) and against an open transaction (`Proc.inTx`: nothing is rolled back before
the end).

`atomic` is `runTx` when it is met outside a transaction and a mere `LockKeys` inside one.  A panic
ends the process: both ways of running return it as an error. -/

namespace Postkeys

open Relational

/-- The cached scripts by their SHA1. -/
abbrev ScriptCache := Table Bytes Bytes

/-- The remaining work of a handler. -/
inductive Proc (S : Type)
  | reply (v : Value)
  | crash (message : String)
  | call (c : Cmd S) (next : Except Failure (Reply S) → Proc S)
  | read (next : Reading → Proc S)
  | scripts (update : ScriptCache → ScriptCache) (next : ScriptCache → Proc S)
  | atomic (keys : List Bytes) (body : Proc S) (next : Value → Proc S)

namespace Proc

variable {S : Type}

/-- Continue with the reply of a handler. -/
def andThen (k : Value → Proc S) : Proc S → Proc S
  | reply v => k v
  | crash m => crash m
  | call c next => call c fun r => andThen k (next r)
  | read next => read fun r => andThen k (next r)
  | scripts update next => scripts update fun sc => andThen k (next sc)
  | atomic keys body next => atomic keys body fun v => andThen k (next v)

/-- `resp.Err(err.Error())`. -/
def errReply (f : Failure) : Value := .err (utf8 (failureText f))

/-- `resp.ErrWrongType`. -/
def wrongType : Value := .errCustom (utf8 errWrongType)

/-- The error of a handler that looks for `WRONGTYPE` in the text first. -/
def errReplyTyped (f : Failure) : Value :=
  if containsText (utf8 (failureText f)) (utf8 "WRONGTYPE") then wrongType else errReply f

/-- Call the store and go on with what it returns; an error is the reply, worded by `onError`. -/
def callOr (onError : Failure → Value) (c : Cmd S) (next : Reply S → Proc S) : Proc S :=
  call c fun r =>
    match r with
    | .ok r => next r
    | .error f => reply (onError f)

/-- Call the store; an error is passed on as it is. -/
def store (c : Cmd S) (next : Reply S → Proc S) : Proc S := callOr errReply c next

/-- Call the store; a wrong type is answered with `WRONGTYPE`. -/
def storeTyped (c : Cmd S) (next : Reply S → Proc S) : Proc S := callOr errReplyTyped c next

/-! ### Inside a transaction -/

section inTx
variable [Float64 S]

/-- A handler inside an open transaction, from the scripts cached before to those cached after. -/
def inTx : Proc S → ScriptCache → Op S (Except String Value × ScriptCache)
  | reply v, sc => pure (.ok v, sc)
  | crash m, sc => pure (.error m, sc)
  | call c next, sc => do
      let r ← c.op.attempt
      match r with
      | .error (.crash m) => pure (.error m, sc)
      | r => inTx (next r) sc
  | read next, sc => .read fun r => inTx (next r) sc
  | scripts update next, sc => inTx (next sc) (update sc)
  | atomic keys body next, sc => do
      let locked ← (lockKeys (encodeKeys keys)).attempt
      match locked with
      | .error f => inTx (next (errReply f)) sc
      | .ok _ => do
          let r ← inTx body sc
          match r with
          | (.error m, sc) => pure (.error m, sc)
          | (.ok v, sc) => inTx (next v) sc

theorem inTx_neverFails (p : Proc S) (sc : ScriptCache) : (p.inTx sc).NeverFails := by
  induction p generalizing sc with
  | reply v => exact trivial
  | crash m => exact trivial
  | call c next ih =>
      rw [inTx]
      refine (Program.neverFails_attempt _).bind fun r => ?_
      match r with
      | .error (.crash m) => exact trivial
      | .error (.db context e) => exact ih _ sc
      | .error (.error m) => exact ih _ sc
      | .ok r => exact ih _ sc
  | read next ih => exact fun r => ih r sc
  | scripts update next ih => exact ih sc (update sc)
  | atomic keys body next ihbody ih =>
      rw [inTx]
      refine (Program.neverFails_attempt _).bind fun r => ?_
      cases r with
      | error f => exact ih _ sc
      | ok u =>
          refine (ihbody sc).bind fun r => ?_
          match r with
          | (.error m, sc) => exact trivial
          | (.ok v, sc) => exact ih v sc

/-- The body of a transaction; what stands for the reply after a panic is never looked at. -/
def txBody (p : Proc S) (sc : ScriptCache) : TxBody S where
  run := (fun r => r.1.toOption.getD .nullBulk) <$> p.inTx sc
  total := by
    rw [map_eq_pure_bind]
    exact (p.inTx_neverFails sc).bind fun _ => trivial

/-! ### `runTx` -/

/-- What the body of a transaction comes to in one attempt, if the attempt gets that far. -/
def bodyOutcome (a : Attempt) (keys : List Bytes) (body : Proc S) (sc : ScriptCache) (d : DB S) :
    Option (Except String Value × ScriptCache) :=
  match a.beginError, a.lockKeys keys d with
  | none, (.ok _, tx) => ((body.inTx sc).eval a.env tx).1.toOption
  | _, _ => none

/-- `runTx` from attempt `n` on.  Every round is one round of `runTxLoop`; the scripts an attempt
has cached stay cached when it is rolled back, and a panic ends the process. -/
def runAttempts (world : ℕ → Attempt) (keys : List Bytes) (body : Proc S) :
    ℕ → ℕ → ScriptCache → TxLog S → Option (Except String Value × ScriptCache × TxLog S)
  | 0, _, _, _ => none
  | fuel + 1, n, sc, log =>
      let outcome := match if 0 < n then (world n).cancelled else none with
        | some _ => none
        | none => bodyOutcome (world n) keys body sc log.db
      match outcome with
      | some (.error m, sc) => some (.error m, sc, { log with attempts := log.attempts + 1 })
      | _ =>
          let scAfter := (outcome.map Prod.snd).getD sc
          match runTxLoop world keys (body.txBody sc) 1 n log with
          | some (v, log) => some (.ok v, scAfter, log)
          | none => runAttempts world keys body fuel (n + 1) scAfter
              { log with attempts := log.attempts + 1 }

/-- An attempt that meets no error from outside. -/
def quietAttempt (e : Env) : Attempt := ⟨none, none, e, [], none⟩

/-! ### Outside a transaction -/

/-- A handler on the store itself, with the scripts cached and the database before and after. -/
def direct (e : Env) : Proc S → ScriptCache → DB S → Except String Value × ScriptCache × DB S
  | reply v, sc, d => (.ok v, sc, d)
  | crash m, sc, d => (.error m, sc, d)
  | call c next, sc, d =>
      match c.exec e d with
      | (.error (.crash m), d) => (.error m, sc, d)
      | (r, d) => direct e (next r) sc d
  | read next, sc, d => direct e (next e.reading) sc d
  | scripts update next, sc, d => direct e (next sc) (update sc) d
  | atomic keys body next, sc, d =>
      match runAttempts (fun _ => quietAttempt e) keys body (maxExecRetries + 1) 0 sc ⟨d, 0, []⟩ with
      | some (.ok v, sc, log) => direct e (next v) sc log.db
      | some (.error m, sc, log) => (.error m, sc, log.db)
      -- the fourth attempt always ends the loop
      | none => (.error "", sc, d)

end inTx

end Proc

end Postkeys
