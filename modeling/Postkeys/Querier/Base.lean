import Postkeys.Statements

/-! # Shared helpers of the storage operations

Locks, the type of a key, its `kv_meta` row, and the removal of a key from all tables. -/

namespace Postkeys

open Relational

variable {S : Type}

/-- A Go time, in nanoseconds, as the database stores it. -/
def pgTime (ns : ℤ) : Time := ns / 1000

/-- `time.Until`, which stays within the range of a `Duration`. -/
def timeUntil (now t : ℤ) : ℤ := max (-(2 ^ 63)) (min (2 ^ 63 - 1) (t - now))

/-- The integer nearest to a number, the even one of two. -/
def roundToEven (q : ℚ) : ℤ :=
  let n := ⌊q⌋
  if q - n < 1 / 2 then n else if 1 / 2 < q - n then n + 1 else if n % 2 = 0 then n else n + 1

/-- The `float64` nearest to a number that is neither tiny nor huge: one with 53 binary digits. -/
def nearestDouble (q : ℚ) : ℚ :=
  let unit : ℚ := 2 ^ (Int.log 2 q - 52)
  roundToEven (q / unit) * unit

/-- `int64(d.Seconds())` of a duration that is not negative.  `Seconds` adds the whole seconds and
the rest as `float64`, so for a long duration the rest may be rounded up to a whole second. -/
def wholeSeconds (ns : ℤ) : ℤ :=
  ⌊nearestDouble ((ns / 1000000000 : ℤ) + nearestDouble ((ns % 1000000000 : ℤ) / 1000000000))⌋

/-- 2000-01-01, from which PostgreSQL counts. -/
def y2k : Time := 946684800000000

/-- A Go time after its way to the server: `pgx` sends the microseconds since 2000 in 64 bits. -/
def sentTime (ns : ℤ) : Time := y2k + int64 (pgTime ns - y2k)

/-- Whether a number of microseconds since 2000 is a `timestamptz`: minus infinity, infinity, or a
moment from 4714 BC to 294276 AD. -/
def isTimestamp (us : ℤ) : Bool :=
  us = -9223372036854775808 || us = 9223372036854775807 ||
    (-211813488000000000 ≤ us && us < 9223371331200000000)

/-- Bind a Go time to a parameter of type `timestamptz`. -/
def sendTime (ns : ℤ) : Stm S Time :=
  if isTimestamp (sentTime ns - y2k) then pure (sentTime ns)
  else Sql.error ⟨"22008", "timestamp out of range"⟩

/-- The error of an operation on a key of another type. -/
def errWrongType : String := "WRONGTYPE Operation against a key holding the wrong kind of value"

/-- `sort.Strings`. -/
def sortStrings (keys : List Bytes) : List Bytes := keys.insertionSort (· ≤ ·)

/-- `slices.Compact`: drop an element that equals the one before it. -/
def compact : List Bytes → List Bytes
  | [] => []
  | [k] => [k]
  | k :: k' :: ks => if k = k' then compact (k' :: ks) else k :: compact (k' :: ks)

/-- Take the advisory lock of a key. -/
def lockKey (key : Bytes) : Op S Unit := Program.acquire (.key key)

/-- Take the advisory locks of several keys in sorted order. -/
def lockKeys (keys : List Bytes) : Op S Unit :=
  match keys with
  | [] => pure ()
  | [k] => lockKey k
  | _ => Program.forEach lockKey (compact (sortStrings keys))

/-- The type of a live key. -/
def getKeyType (key : Bytes) : Op S (Option KeyType) :=
  Program.query (selectLive .kvMeta key fun u => u.row ())

/-- Fail unless the key is missing or of the expected type. -/
def readTypeCheck (key : Bytes) (expected : KeyType) : Op S Unit := do
  let keyType ← getKeyType key
  match keyType with
  | none => pure ()
  | some kt => if kt = expected then pure () else Program.raise errWrongType

/-- Go on if the key is missing or of type `kt`. -/
def requireType {α : Type} (key : Bytes) (kt : KeyType) (next : Option KeyType → Op S α) : Op S α := do
  let keyType ← getKeyType key
  if keyType ≠ none ∧ keyType ≠ some kt then Program.raise errWrongType else next keyType

/-- Write the `kv_meta` row of a key. -/
def setMeta (key : Bytes) (keyType : KeyType) (expiresAt : Option Time) : Op S Unit := do
  lockKey key
  Program.query (upsertRow .kvMeta key () ⟨keyType, expiresAt⟩ fun _ => ⟨keyType, expiresAt⟩)

/-- Write the type of several keys; an existing expiry stays. -/
def setMetaBatch (keys : List Bytes) (keyType : KeyType) : Op S Unit :=
  if keys = [] then pure ()
  else do
    lockKeys keys
    Program.query <| if keys.Nodup then
        Sql.forEach (fun k =>
          upsertRow .kvMeta k () ⟨keyType, none⟩ fun r => ⟨keyType, r.expiresAt⟩) keys
      else Sql.error cardinalityViolation

/-- All tables in the order in which a key is deleted from them. -/
def allTables : List Tab := .kvMeta :: dataTables

/-- Delete a key of any type. -/
def deleteKeyFromAllTables (key : Bytes) : Op S Unit := do
  lockKey key
  Program.forEach (fun t => Program.query (deleteKey t key)) allTables

/-- Delete several keys of any type. -/
def deleteKeysFromAllTables (keys : List Bytes) : Op S Unit :=
  if keys = [] then pure ()
  else do
    lockKeys keys
    Program.forEach (fun t => Program.query (Sql.forEach (deleteKey t) keys)) allTables

/-- The live rows of several keys in one table, in no particular order. -/
def selectLiveIn (t : Tab) (keys : List Bytes) : Stm S (List (Bytes × t.Sub × t.Val S)) :=
  Sql.readRowsIn t keys fun c rows =>
    Table.shuffle c.order <| keys.dedup.flatMap fun k =>
      (live c.now (rows k)).toList.map fun p => (k, p)

/-- `n` elements of a nonempty pool, chosen by the random numbers. -/
def sample {α : Type} (random : List ℕ) (pool : List α) (n : ℕ) : List α :=
  (List.range n).filterMap fun i => pool[(random.getD i 0) % pool.length]?

/-- The rows of a random query: `cnt` distinct ones, or `-cnt` with repetition, collected in a
slice of elements of `size` bytes. -/
def randomRows (t : Tab) (key : Bytes) (cnt size : ℤ) : Op S (List (t.Sub × t.Val S)) :=
  if 0 < cnt then
    Program.query (selectLiveLimit t key fun order u =>
      limitOffset cnt 0 (Table.shuffle order u.toList))
  else do
    let pool ← Program.query (selectLiveRows t key)
    let n := int64 (-cnt)
    if pool = [] then pure []
    else if n < 0 ∨ 2 ^ 48 < n * size then
      Program.fail (.crash "runtime error: makeslice: cap out of range")
    else do
      let random ← Program.random
      pure (sample random pool n.toNat)

end Postkeys
