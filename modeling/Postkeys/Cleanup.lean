import Postkeys.Querier.Base

/-! # The background cleanup

One run of `deleteExpiredKeys`: it looks for keys with something expired and for `kv_meta` rows
without data, takes the locks of those keys that are free, and then, with the locks held, deletes
expired `kv_meta` rows, the data of those keys, the data of keys with an expired row, and `kv_meta`
rows left without data. -/

namespace Postkeys

open Relational

variable {S : Type}

/-- How many keys one run looks at per source. -/
def cleanupBatch : ℕ := 1000

/-- `expires_at IS NOT NULL AND expires_at <= now`. -/
def Cell.expired {V : Type} (now : Time) (c : Cell V) : Bool :=
  match c.expiresAt with
  | none => false
  | some t => decide (t ≤ now)

/-- Whether a table holds an expired row. -/
def anyExpired {σ V : Type} (now : Time) (u : Table σ (Cell V)) : Bool :=
  decide (u.restrict (fun _ r => r.expired now) ≠ ∅)

/-- The types whose `kv_meta` rows are checked for data. -/
def orphanTypes : List KeyType := [.string, .list, .hash, .set, .zset]

/-- Whether the key's `kv_meta` row names a table that has no row of the key. -/
def orphaned (d : DB S) (key : Bytes) : Bool :=
  match (d.rows .kvMeta key).row () with
  | none => false
  | some r => decide (r.val ∈ orphanTypes) && decide (d.rows r.val.table key = ∅)

/-- At most `cleanupBatch` of the given keys, whichever the server returns. -/
def batch (order : List ℕ) (keys : List Bytes) : List Bytes :=
  (Table.shuffle order keys).take cleanupBatch

/-- The candidates of a run. -/
def candidates (order : List ℕ) (now : Time) (d : DB S) : List Bytes :=
  ((allTables.flatMap fun t => batch order ((Table.ascending (d.keysOf t)).filter fun k =>
      anyExpired now (d.rows t k))) ++
    batch order ((Table.ascending (d.keysOf .kvMeta)).filter (orphaned d))).dedup

/-- Take the locks of those keys that are free, and keep those keys. -/
def tryLockKeys : List Bytes → Op S (List Bytes)
  | [] => pure []
  | k :: ks => do
      let locked ← Program.tryAcquire (.key k)
      let rest ← tryLockKeys ks
      pure (if locked then k :: rest else rest)

/-- Delete the expired `kv_meta` rows of the given keys, with the keys concerned. -/
def deleteExpiredMeta (now : Time) : List Bytes → Stm S (List Bytes)
  | [] => pure []
  | k :: ks => do
      let gone ← Sql.onRows .kvMeta k fun _ u =>
        .ok (u.restrict fun _ r => !r.expired now, anyExpired now u)
      let rest ← deleteExpiredMeta now ks
      pure (if gone then k :: rest else rest)

/-- Delete from a data table all rows of a key that has expired or has an expired row there. -/
def deleteExpiredData (t : Tab) (now : Time) (expired keys : List Bytes) : Stm S Unit :=
  Sql.forEach (fun k => Sql.onRows t k fun _ u =>
    .ok (if k ∈ expired ∨ anyExpired now u = true then ∅ else u, ())) keys

/-- Delete the `kv_meta` rows of the given keys that name a table without rows of the key. -/
def deleteOrphans (keys : List Bytes) : Stm S Unit :=
  Sql.forEach (fun k => do
    let gone ← Sql.readAll fun _ d => orphaned d k
    if gone then deleteKey .kvMeta k else pure ()) keys

/-- One run of the cleanup inside its transaction. -/
def deleteExpiredKeys : Op S Unit := do
  let acquired ← Program.tryAcquire .cleanup
  if acquired then do
    let t ← Program.clock
    let now := pgTime t
    let candidates ← Program.query (Sql.readAll fun c d => candidates c.order now d)
    let keys ← tryLockKeys candidates
    if keys = [] then pure ()
    else do
      let expired ← Program.query (deleteExpiredMeta now keys)
      Program.forEach (fun t => Program.query (deleteExpiredData t now expired keys)) dataTables
      Program.query (deleteOrphans keys)
  else pure ()

/-- A run of the cleanup, alone: the database after its transaction. -/
def runCleanup (e : Env) (d : DB S) : DB S :=
  match deleteExpiredKeys.eval e (Tx.clean d) with
  | (.ok _, tx) => if tx.aborted then d else tx.view
  | (.error _, _) => d

end Postkeys
