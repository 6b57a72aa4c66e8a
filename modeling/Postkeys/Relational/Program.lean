import Postkeys.Relational.Store

/-! # Programs of SQL statements

A `Sql` statement reads and changes a store in one atomic step.  A `Program` is what a client
runs inside one transaction: statements, transaction-scoped advisory locks, readings of the
client's own clock and random source, and failures.  The client sees the outcome of every
statement, errors included, and decides what to do next; `query`, `acquire` and the other
smart constructors give up at the first error.

`Program.eval` runs a program on its own.  The transaction state `Tx` carries the rows as the
transaction sees them, whether the server has aborted the transaction (every later statement then
fails with `inFailedTransaction`), and the errors the server is going to report. -/

namespace Relational

/-- An error reported by the database server. -/
structure PgError where
  code : String
  message : String
deriving DecidableEq, Repr

/-- Why a program stops: an error of the server, with the text the program put before it, an
error of its own, or a run-time crash. -/
inductive Failure
  | db (context : String) (e : PgError)
  | error (message : String)
  | crash (message : String)
deriving DecidableEq, Repr

/-- What every statement answers once its transaction has been aborted. -/
def inFailedTransaction : PgError :=
  ⟨"25P02", "current transaction is aborted, commands ignored until end of transaction block"⟩

/-- What the server supplies to a statement besides the tables: the value of `NOW()`, the order
in which it returns rows nobody sorted, and the rows it hides from `SKIP LOCKED`. -/
structure Ctx {ι : Type} (K : Type) (sub : ι → Type) where
  now : ℤ
  order : List ℕ
  hidden : Loc K sub → Bool

/-- What the client reads from its own process: the time and a stream of random numbers. -/
structure Reading where
  time : ℤ
  random : List ℕ

variable {ι K Lk : Type} {sub ρ : ι → Type} {α β γ : Type}

/-! ### Statements -/

/-- One SQL statement: it fails, or changes the store and returns a result. -/
def Sql (K : Type) (sub ρ : ι → Type) (β : Type) :=
  Ctx K sub → Store K sub ρ → Except PgError (Store K sub ρ × β)

namespace Sql

instance : Monad (Sql K sub ρ) where
  pure b := fun _ d => .ok (d, b)
  bind m f := fun c d =>
    match m c d with
    | .ok (d', b) => f b c d'
    | .error e => .error e

/-- A statement that the server refuses. -/
def error (e : PgError) : Sql K sub ρ β := fun _ _ => .error e

/-- Read a whole table. -/
def scan (t : ι) (f : Ctx K sub → Table (K × sub t) (ρ t) → β) : Sql K sub ρ β := fun c d =>
  .ok (d, f c (d t))

/-- Read the whole store. -/
def readAll (f : Ctx K sub → Store K sub ρ → β) : Sql K sub ρ β := fun c d => .ok (d, f c d)

/-- Replace a whole table. -/
def replace [DecidableEq ι] (t : ι) (u : Table (K × sub t) (ρ t)) : Sql K sub ρ Unit := fun _ d =>
  .ok (Function.update d t u, ())

section rows
variable [DecidableEq K] [∀ t, DecidableEq (sub t)]

/-- Read the rows of one key in one table. -/
def readRows (t : ι) (k : K) (f : Ctx K sub → Table (sub t) (ρ t) → Except PgError β) :
    Sql K sub ρ β := fun c d =>
  match f c (d.rows t k) with
  | .ok b => .ok (d, b)
  | .error e => .error e

/-- Read the rows of several keys in one table. -/
def readRowsIn (t : ι) (ks : List K) (f : Ctx K sub → (K → Table (sub t) (ρ t)) → β) :
    Sql K sub ρ β := fun c d => .ok (d, f c fun k => if k ∈ ks then d.rows t k else ∅)

variable [DecidableEq ι]

/-- A statement on the rows of one key in one table. -/
def onRows (t : ι) (k : K)
    (f : Ctx K sub → Table (sub t) (ρ t) → Except PgError (Table (sub t) (ρ t) × β)) :
    Sql K sub ρ β := fun c d =>
  match f c (d.rows t k) with
  | .ok (u, b) => .ok (d.setRows t k u, b)
  | .error e => .error e

end rows

/-- Do the same for every element of a list, inside one statement. -/
def forEach (f : γ → Sql K sub ρ Unit) : List γ → Sql K sub ρ Unit
  | [] => pure ()
  | x :: xs => do
      f x
      forEach f xs

end Sql

/-- A statement together with the rows it locks without changing them (`FOR UPDATE`). -/
structure Stmt {ι : Type} (K : Type) (sub ρ : ι → Type) (β : Type) where
  run : Sql K sub ρ β
  locks : Ctx K sub → Store K sub ρ → Finset (Loc K sub) := fun _ _ => ∅

/-! ### Programs -/

/-- The remaining work of a client inside one transaction. -/
inductive Program {ι : Type} (K Lk : Type) (sub ρ : ι → Type) (α : Type) : Type 1
  | ret (a : α)
  | fail (e : Failure)
  | lock (l : Lk) (next : Except PgError Unit → Program K Lk sub ρ α)
  | tryLock (l : Lk) (next : Except PgError Bool → Program K Lk sub ρ α)
  | read (next : Reading → Program K Lk sub ρ α)
  | stmt {β : Type} (s : Stmt K sub ρ β) (next : Except PgError β → Program K Lk sub ρ α)

namespace Program

/-- Continue with `f` after `p`; a failure of `p` is final. -/
def bind (f : α → Program K Lk sub ρ β) : Program K Lk sub ρ α → Program K Lk sub ρ β
  | ret a => f a
  | fail e => fail e
  | lock l next => lock l fun r => bind f (next r)
  | tryLock l next => tryLock l fun r => bind f (next r)
  | read next => read fun r => bind f (next r)
  | stmt s next => stmt s fun r => bind f (next r)

instance : Monad (Program K Lk sub ρ) where
  pure := ret
  bind p f := bind f p

/-- Run `p` and hand its outcome, failures included, to the continuation. -/
def attempt : Program K Lk sub ρ α → Program K Lk sub ρ (Except Failure α)
  | ret a => ret (.ok a)
  | fail e => ret (.error e)
  | lock l next => lock l fun r => attempt (next r)
  | tryLock l next => tryLock l fun r => attempt (next r)
  | read next => read fun r => attempt (next r)
  | stmt s next => stmt s fun r => attempt (next r)

/-- Give up when the server reports an error. -/
def orFail (context : String) : Except PgError α → Program K Lk sub ρ α
  | .ok a => ret a
  | .error e => fail (.db context e)

/-- Send a statement; an error ends the program. -/
def query (s : Sql K sub ρ β) : Program K Lk sub ρ β := stmt ⟨s, fun _ _ => ∅⟩ (orFail "")

/-- Send a statement; an error, reported with a text before it, ends the program. -/
def queryContext (context : String) (s : Sql K sub ρ β) : Program K Lk sub ρ β :=
  stmt ⟨s, fun _ _ => ∅⟩ (orFail context)

/-- Send a statement that locks the rows `locks`; an error ends the program. -/
def queryForUpdate (s : Sql K sub ρ β) (locks : Ctx K sub → Store K sub ρ → Finset (Loc K sub)) :
    Program K Lk sub ρ β := stmt ⟨s, locks⟩ (orFail "")

/-- Send a statement and read its rows without asking whether they ended in an error. -/
def queryRows (s : Sql K sub ρ (List β)) : Program K Lk sub ρ (List β) :=
  stmt ⟨s, fun _ _ => ∅⟩ fun r => ret (r.toOption.getD [])

/-- Send a statement and ignore its outcome. -/
def queryIgnored (s : Sql K sub ρ β) : Program K Lk sub ρ Unit :=
  stmt ⟨s, fun _ _ => ∅⟩ fun _ => ret ()

/-- Take an advisory lock until the end of the transaction. -/
def acquire (l : Lk) : Program K Lk sub ρ Unit := lock l (orFail "")

/-- Take an advisory lock if it is free. -/
def tryAcquire (l : Lk) : Program K Lk sub ρ Bool := tryLock l (orFail "")

/-- The client's own clock. -/
def clock : Program K Lk sub ρ ℤ := read fun r => ret r.time

/-- The client's own random numbers. -/
def random : Program K Lk sub ρ (List ℕ) := read fun r => ret r.random

/-- Stop with an error of the client's own. -/
def raise (message : String) : Program K Lk sub ρ α := fail (.error message)

/-- Do the same for every element of a list. -/
def forEach (f : γ → Program K Lk sub ρ Unit) : List γ → Program K Lk sub ρ Unit
  | [] => ret ()
  | x :: xs => do
      f x
      forEach f xs

/-- The program never stops with a failure. -/
def NeverFails : Program K Lk sub ρ α → Prop
  | ret _ => True
  | fail _ => False
  | lock _ next => ∀ r, NeverFails (next r)
  | tryLock _ next => ∀ r, NeverFails (next r)
  | read next => ∀ r, NeverFails (next r)
  | stmt _ next => ∀ r, NeverFails (next r)

/-! ### Monad laws -/

@[simp] theorem pure_eq (a : α) : (pure a : Program K Lk sub ρ α) = ret a := rfl

@[simp] theorem ret_bind (a : α) (f : α → Program K Lk sub ρ β) : ret a >>= f = f a := rfl

@[simp] theorem fail_bind (e : Failure) (f : α → Program K Lk sub ρ β) :
    (fail e : Program K Lk sub ρ α) >>= f = fail e := rfl

@[simp] theorem lock_bind (l : Lk) (next : Except PgError Unit → Program K Lk sub ρ α)
    (f : α → Program K Lk sub ρ β) : lock l next >>= f = lock l fun r => next r >>= f := rfl

@[simp] theorem tryLock_bind (l : Lk) (next : Except PgError Bool → Program K Lk sub ρ α)
    (f : α → Program K Lk sub ρ β) : tryLock l next >>= f = tryLock l fun r => next r >>= f := rfl

@[simp] theorem read_bind (next : Reading → Program K Lk sub ρ α) (f : α → Program K Lk sub ρ β) :
    read next >>= f = read fun r => next r >>= f := rfl

@[simp] theorem stmt_bind (s : Stmt K sub ρ γ) (next : Except PgError γ → Program K Lk sub ρ α)
    (f : α → Program K Lk sub ρ β) : stmt s next >>= f = stmt s fun r => next r >>= f := rfl

theorem bind_ret (p : Program K Lk sub ρ α) : p >>= ret = p := by
  induction p with
  | ret a => rfl
  | fail e => rfl
  | lock l next ih => exact congrArg (lock l) (funext ih)
  | tryLock l next ih => exact congrArg (tryLock l) (funext ih)
  | read next ih => exact congrArg read (funext ih)
  | stmt s next ih => exact congrArg (stmt s) (funext ih)

theorem bind_bind (p : Program K Lk sub ρ α) (f : α → Program K Lk sub ρ β)
    (g : β → Program K Lk sub ρ γ) : p >>= f >>= g = p >>= fun a => f a >>= g := by
  induction p with
  | ret a => rfl
  | fail e => rfl
  | lock l next ih => exact congrArg (lock l) (funext ih)
  | tryLock l next ih => exact congrArg (tryLock l) (funext ih)
  | read next ih => exact congrArg read (funext ih)
  | stmt s next ih => exact congrArg (stmt s) (funext ih)

instance : LawfulMonad (Program K Lk sub ρ) :=
  LawfulMonad.mk' _ bind_ret (fun _ _ => rfl) bind_bind

/-! ### Running alone -/

end Program

/-- What a program meets when it runs alone: the value of `NOW()` and the row order for its
statements, and its own process' readings. -/
structure Env where
  now : ℤ
  order : List ℕ
  time : ℤ
  random : List ℕ

/-- The statement context of an environment; nothing is hidden. -/
def Env.ctx (e : Env) : Ctx K sub := ⟨e.now, e.order, fun _ => false⟩

/-- The process readings of an environment. -/
def Env.reading (e : Env) : Reading := ⟨e.time, e.random⟩

/-- The state of an open transaction: the rows it sees, whether the server has aborted it, and
the errors the server reports for the statements to come. -/
structure Tx {ι : Type} (K : Type) (sub ρ : ι → Type) where
  view : Store K sub ρ
  aborted : Bool
  faults : List (Option PgError)

namespace Tx

/-- A transaction that has just begun on `d` and meets no fault. -/
def clean (d : Store K sub ρ) : Tx K sub ρ := ⟨d, false, []⟩

/-- Run one request of the transaction: refused when the transaction is aborted, answered by the
next fault if there is one, and otherwise by `m`; an error aborts the transaction. -/
def request (tx : Tx K sub ρ) (m : Store K sub ρ → Except PgError (Store K sub ρ × β)) :
    Except PgError β × Tx K sub ρ :=
  if tx.aborted then (.error inFailedTransaction, tx)
  else match tx.faults.headD none with
    | some e => (.error e, ⟨tx.view, true, tx.faults.tail⟩)
    | none => match m tx.view with
      | .ok (d, b) => (.ok b, ⟨d, false, tx.faults.tail⟩)
      | .error e => (.error e, ⟨tx.view, true, tx.faults.tail⟩)

@[simp] theorem request_clean (d : Store K sub ρ)
    (m : Store K sub ρ → Except PgError (Store K sub ρ × β)) :
    (clean d).request m = match m d with
      | .ok (d', b) => (.ok b, clean d')
      | .error e => (.error e, ⟨d, true, []⟩) := rfl

end Tx

namespace Program

/-- Run a program alone, from a transaction state to its outcome and the state it leaves. -/
def eval (e : Env) : Program K Lk sub ρ α → Tx K sub ρ → Except Failure α × Tx K sub ρ
  | ret a, tx => (.ok a, tx)
  | fail f, tx => (.error f, tx)
  | lock _ next, tx =>
      let r := tx.request fun d => .ok (d, ())
      eval e (next r.1) r.2
  | tryLock _ next, tx =>
      let r := tx.request fun d => .ok (d, true)
      eval e (next r.1) r.2
  | read next, tx => eval e (next e.reading) tx
  | stmt s next, tx =>
      let r := tx.request (s.run e.ctx)
      eval e (next r.1) r.2

theorem eval_bind (e : Env) (p : Program K Lk sub ρ α) (f : α → Program K Lk sub ρ β)
    (tx : Tx K sub ρ) :
    eval e (p >>= f) tx = match eval e p tx with
      | (.ok a, tx') => eval e (f a) tx'
      | (.error x, tx') => (.error x, tx') := by
  induction p generalizing tx with
  | ret a => rfl
  | fail x => rfl
  | lock l next ih => exact ih _ _
  | tryLock l next ih => exact ih _ _
  | read next ih => exact ih _ _
  | stmt s next ih => exact ih _ _

variable {p : Program K Lk sub ρ α} {f : α → Program K Lk sub ρ β}

theorem eval_bind_ok {e : Env} {a : α}
    {tx tx' : Tx K sub ρ} (h : p.eval e tx = (.ok a, tx')) :
    eval e (p >>= f) tx = eval e (f a) tx' := by
  rw [eval_bind, h]

theorem eval_bind_error {e : Env} {x : Failure}
    {tx tx' : Tx K sub ρ} (h : p.eval e tx = (.error x, tx')) : eval e (p >>= f) tx = (.error x, tx') := by
  rw [eval_bind, h]

theorem eval_map (e : Env) (f : α → β) (p : Program K Lk sub ρ α) (tx : Tx K sub ρ) :
    eval e (f <$> p) tx = ((eval e p tx).1.map f, (eval e p tx).2) := by
  rw [map_eq_pure_bind, eval_bind]
  rcases eval e p tx with ⟨r, tx'⟩
  cases r <;> rfl

theorem eval_query_ok {e : Env} {s : Sql K sub ρ β} {b : β} {d d' : Store K sub ρ}
    (h : s e.ctx d = .ok (d', b)) :
    (query s : Program K Lk sub ρ β).eval e (Tx.clean d) = (.ok b, Tx.clean d') := by
  simp only [query, eval, Tx.request_clean, h, orFail]

theorem eval_query_failed {e : Env} {s : Sql K sub ρ β} {x : PgError} {d : Store K sub ρ}
    (h : s e.ctx d = .error x) :
    (query s : Program K Lk sub ρ β).eval e (Tx.clean d) = (.error (.db "" x), ⟨d, true, []⟩) := by
  simp only [query, eval, Tx.request_clean, h, orFail]

/-! ### Programs that never fail -/

theorem NeverFails.bind (hp : p.NeverFails)
    (hf : ∀ a, (f a).NeverFails) : (p >>= f).NeverFails := by
  induction p with
  | ret a => exact hf a
  | fail e => exact hp
  | lock l next ih => exact fun r => ih r (hp r)
  | tryLock l next ih => exact fun r => ih r (hp r)
  | read next ih => exact fun r => ih r (hp r)
  | stmt s next ih => exact fun r => ih r (hp r)

theorem neverFails_attempt (p : Program K Lk sub ρ α) : p.attempt.NeverFails := by
  induction p with
  | ret a => exact trivial
  | fail e => exact trivial
  | lock l next ih => exact ih
  | tryLock l next ih => exact ih
  | read next ih => exact ih
  | stmt s next ih => exact ih

theorem eval_attempt (e : Env) (p : Program K Lk sub ρ α) (tx : Tx K sub ρ) :
    p.attempt.eval e tx = (.ok (p.eval e tx).1, (p.eval e tx).2) := by
  induction p generalizing tx with
  | ret a => rfl
  | fail f => rfl
  | lock l next ih => exact ih _ _
  | tryLock l next ih => exact ih _ _
  | read next ih => exact ih _ _
  | stmt s next ih => exact ih _ _

theorem NeverFails.isSome (hp : p.NeverFails) (e : Env) (tx : Tx K sub ρ) :
    (p.eval e tx).1.toOption.isSome = true := by
  induction p generalizing tx with
  | ret a => rfl
  | fail f => exact hp.elim
  | lock l next ih => exact ih _ (hp _) _
  | tryLock l next ih => exact ih _ (hp _) _
  | read next ih => exact ih _ (hp _) _
  | stmt s next ih => exact ih _ (hp _) _

end Program

end Relational
