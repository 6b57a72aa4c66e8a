import Postkeys.Querier.Strings

/-! # List operations

A list is the rows of its key in the order of their index.  Pushes take the key's lock and extend
the index range on one side; pops delete the outermost row that no other transaction has locked,
in one statement. -/

namespace Postkeys

open Relational

variable {S : Type}

/-- The number of rows of a list, expired ones included. -/
def selectListLength (key : Bytes) : Stm S ℤ := selectAll .kvLists key count

/-- The rows of a list from its head. -/
def listRows (u : Table ℤ (Row S .kvLists)) : List (ℤ × Row S .kvLists) := u.toList

/-! ### Pushes -/

/-- The shared part of `LPUSH` and `RPUSH`: `start` picks the boundary index and `index` the index
of the value at a position. -/
def push (key : Bytes) (values : List Bytes) (message : String)
    (start : Table ℤ (Row S .kvLists) → ℤ) (index : ℤ → ℕ → ℤ) : Op S ℤ := do
  let key := encodeKey key
  requireType key .list fun _ =>
    if values = [] then Program.queryContext "failed to get list length: " (selectListLength key)
    else do
      lockKey key
      let boundary ← Program.queryContext message (selectAll .kvLists key start)
      setMeta key .list none
      Program.query (insertRows .kvLists key
        (values.zipIdx.map fun p => (index boundary p.2, ⟨p.1, none⟩)))
      Program.queryContext "failed to get list length: " (selectListLength key)

def lPush (key : Bytes) (values : List Bytes) : Op S ℤ :=
  push key values "failed to get min index: "
    (fun u => ((listRows u).head?.map Prod.fst).getD 0)
    fun minIdx i => int64 (minIdx - (i + 1))

def rPush (key : Bytes) (values : List Bytes) : Op S ℤ :=
  push key values "failed to get max index: "
    (fun u => ((listRows u).getLast?.map Prod.fst).getD (-1))
    fun maxIdx i => int64 (maxIdx + (i + 1))

/-! ### Pops -/

def lPop (key : Bytes) : Op S (Option Bytes) := do
  let rows ← Program.query (popRows .kvLists (encodeKey key) fun _ u => (listRows u).take 1)
  pure (rows.head?.map fun r => r.2.val)

def rPop (key : Bytes) : Op S (Option Bytes) := do
  let rows ← Program.query (popRows .kvLists (encodeKey key) fun _ u => (listRows u).reverse.take 1)
  pure (rows.head?.map fun r => r.2.val)

/-- The statement of `popMulti`: one live row of the first list that has one nobody locked. -/
def popFirst (keys : List Bytes) (order : SortOrder) : Stm S (Option (Bytes × Bytes)) := do
  let winner ← Sql.readRowsIn .kvLists keys fun c rows =>
    keys.find? fun k => decide (liveRows c.now (visible c .kvLists k (rows k)) ≠ ∅)
  match winner with
  | none => pure none
  | some k => do
      let rows ← popRows .kvLists k fun now u => (order.apply (listRows (liveRows now u))).take 1
      pure (rows.head?.map fun r => (k, r.2.val))

def popMulti (keys : List Bytes) (order : SortOrder) : Op S (Option (Bytes × Bytes)) :=
  if keys = [] then pure none
  else do
    let popped ← Program.query (popFirst (encodeKeys keys) order)
    pure (popped.map fun p => (decodeKey p.1, p.2))

def lPopMulti (keys : List Bytes) : Op S (Option (Bytes × Bytes)) := popMulti keys .asc

def rPopMulti (keys : List Bytes) : Op S (Option (Bytes × Bytes)) := popMulti keys .desc

/-- The first key with live rows in a table; rows locked by others count here. -/
def firstLive (t : Tab) (keys : List Bytes) : Stm S (Option Bytes) :=
  Sql.readRowsIn t keys fun c rows => keys.find? fun k => decide (liveRows c.now (rows k) ≠ ∅)

/-- The statement of `popMultiN`: up to `cnt` live rows of the first list that has any. -/
def popFirstN (keys : List Bytes) (order : SortOrder) (cnt : ℤ) : Stm S (Option (Bytes × List Bytes)) := do
  let winner ← firstLive .kvLists keys
  match winner with
  | none => pure none
  | some k => do
      let rows ← popRows .kvLists k fun now u =>
        (order.apply (listRows (liveRows now u))).take cnt.toNat
      pure (if rows = [] then none else some (k, rows.map fun r => r.2.val))

def popMultiN (keys : List Bytes) (order : SortOrder) (cnt : ℤ) : Op S (Option (Bytes × List Bytes)) :=
  if keys = [] ∨ cnt ≤ 0 then pure none
  else do
    let popped ← Program.query (popFirstN (encodeKeys keys) order cnt)
    pure (popped.map fun p => (decodeKey p.1, p.2))

def lMPop (keys : List Bytes) (cnt : ℤ) : Op S (Option (Bytes × List Bytes)) := popMultiN keys .asc cnt

def rMPop (keys : List Bytes) (cnt : ℤ) : Op S (Option (Bytes × List Bytes)) :=
  popMultiN keys .desc cnt

/-- `INSERT INTO kv_lists … SELECT COALESCE(MIN(idx), 0) - 1`. -/
def insertHead (key value : Bytes) : Stm S Unit :=
  Sql.onRows .kvLists key fun _ u =>
    let minIdx := ((listRows u).head?.map Prod.fst).getD 0
    if minIdx - 1 < -(2 ^ 63) then .error bigintOutOfRange
    else (addRows .kvLists u [(minIdx - 1, ⟨value, none⟩)]).map fun u => (u, ())

def rPopLPush (source destination : Bytes) : Op S (Option Bytes) := do
  let source := encodeKey source
  let destination := encodeKey destination
  lockKeys [source, destination]
  let last ← Program.queryForUpdate
    (Sql.readRows .kvLists source fun c u => .ok (listRows (visible c .kvLists source u)).getLast?)
    fun c d => ((listRows (visible c .kvLists source (d.rows .kvLists source))).getLast?).elim ∅
      fun r => {⟨.kvLists, source, r.1⟩}
  match last with
  | none => pure none
  | some (idx, r) => do
      let _ ← Program.query (deleteWhere .kvLists source fun i _ => decide (i = idx))
      let _ ← Program.query (insertIgnore .kvMeta destination [((), ⟨.list, none⟩)])
      Program.query (insertHead destination r.val)
      pure (some r.val)

/-! ### Queries -/

def lLen (key : Bytes) : Op S ℤ := do
  let key := encodeKey key
  readTypeCheck key .list
  Program.query (selectLive .kvLists key count)

def lRange (key : Bytes) (start stop : ℤ) : Op S (List Bytes) := do
  let key := encodeKey key
  readTypeCheck key .list
  let total ← Program.queryContext "failed to get list count: " (selectListLength key)
  let r := clampRange total start stop
  if r.1 > r.2 then pure []
  else Program.queryRows (Sql.readRows .kvLists key fun _ u =>
    (limitOffset (r.2 - r.1 + 1) r.1 (listRows u)).map fun rows => rows.map fun row => row.2.val)

def lIndex (key : Bytes) (index : ℤ) : Op S (Option Bytes) :=
  Program.query (selectLive .kvLists (encodeKey key) fun u =>
    let pos := if 0 ≤ index then index else count u + index
    if pos < 0 then none else (u.toList[pos.toNat]?).map Prod.snd)

/-- The state of the `LPOS` loop. -/
structure LPosState where
  found : List ℤ
  skipped : ℤ

/-- The `LPOS` loop over the remaining values, `pos` being the position of the next one. -/
def lPosLoop (element : Bytes) (rank cnt maxlen : ℤ) (st : LPosState) (pos : ℤ) :
    List Bytes → List ℤ
  | [] => st.found
  | value :: values =>
      if 0 < maxlen ∧ maxlen < pos + 1 then st.found
      else if value = element then
        if 0 < rank ∧ st.skipped < rank - 1 then
          lPosLoop element rank cnt maxlen ⟨st.found, st.skipped + 1⟩ (pos + 1) values
        else
          let found := st.found ++ [pos]
          if 0 < cnt ∧ cnt ≤ found.length then found
          else lPosLoop element rank cnt maxlen ⟨found, st.skipped⟩ (pos + 1) values
      else lPosLoop element rank cnt maxlen st (pos + 1) values

def lPos (key element : Bytes) (rank cnt maxlen : ℤ) : Op S (List ℤ) := do
  let values ← Program.queryRows (selectAll .kvLists (encodeKey key) fun u =>
    (listRows u).map fun r => r.2.val)
  pure (lPosLoop element rank cnt maxlen ⟨[], 0⟩ 0 values)

/-! ### Other changes -/

def lRem (key : Bytes) (cnt : ℤ) (element : Bytes) : Op S ℤ := do
  let key := encodeKey key
  if cnt = 0 then
    Program.query (deleteWhere .kvLists key fun _ r => decide (r.val = element))
  else do
    let absCount := if cnt < 0 then int64 (-cnt) else cnt
    let order := if 0 < cnt then SortOrder.asc else .desc
    if absCount < 0 then Program.query (Sql.error ⟨"2201W", "LIMIT must not be negative"⟩)
    else do
      let rows ← Program.query (deleteRows .kvLists key fun u =>
        (order.apply ((listRows u).filter fun r => r.2.val = element)).take absCount.toNat)
      pure rows.length

def lTrim (key : Bytes) (start stop : ℤ) : Op S Unit := do
  let key := encodeKey key
  lockKey key
  let length ← Program.query (selectListLength key)
  if length = 0 then pure ()
  else
    let r := clampRange length start stop
    if r.1 > r.2 then do
      Program.query (deleteKey .kvMeta key)
      Program.query (deleteKey .kvLists key)
    else do
      let _ ← Program.query (deleteRows .kvLists key fun u =>
        ((listRows u).zipIdx.filter fun p => (p.2 : ℤ) < r.1 ∨ r.2 < p.2).map Prod.fst)
      pure ()

def lSet (key : Bytes) (index : ℤ) (element : Bytes) : Op S Unit := do
  let key := encodeKey key
  let total ← Program.query (selectListLength key)
  if total = 0 then Program.raise "ERR no such key"
  else
    let index := if index < 0 then total + index else index
    if index < 0 ∨ total ≤ index then Program.raise "ERR index out of range"
    else do
      let idx ← Program.query (selectAll .kvLists key fun u =>
        ((listRows u)[index.toNat]?).map Prod.fst)
      match idx with
      | none => Program.raise "no rows in result set"
      | some idx => do
          let _ ← Program.query (updateWhere .kvLists key (fun _ i _ => decide (i = idx))
            fun r => ⟨element, r.expiresAt⟩)
          pure ()

/-- Move the rows at the given indices up by one, in this order; every row must find its new index
free. -/
def shiftRows (u : Table ℤ (Row S .kvLists)) : List ℤ → Except PgError (Table ℤ (Row S .kvLists))
  | [] => .ok u
  | i :: is =>
      match u.row i with
      | none => shiftRows u is
      | some r =>
          if 2 ^ 63 ≤ i + 1 then .error bigintOutOfRange
          else if (u.row (i + 1)).isSome then .error (uniqueViolation .kvLists)
          else shiftRows ((u.restrict fun j _ => j ≠ i).put (i + 1) r) is

/-- `UPDATE kv_lists SET idx = idx + 1 WHERE key = $1 AND p`: the server visits the rows in an
order of its own and checks the primary key at each. -/
def shiftWhere (key : Bytes) (p : ℤ → Bool) : Stm S Unit :=
  Sql.onRows .kvLists key fun c u =>
    (shiftRows u (Table.shuffle c.order (((listRows u).map Prod.fst).filter p))).map fun u => (u, ())

def lInsert (key pivot element : Bytes) (before : Bool) : Op S ℤ := do
  let key := encodeKey key
  let pivotIdx ← Program.query (selectAll .kvLists key fun u =>
    ((listRows u).find? fun r => r.2.val = pivot).map Prod.fst)
  match pivotIdx with
  | none => pure (-1)
  | some pivotIdx => do
      lockKey key
      if before then
        Program.query (shiftWhere key fun i => decide (pivotIdx ≤ i))
        Program.query (insertRows .kvLists key [(pivotIdx, ⟨element, none⟩)])
      else
        Program.query (shiftWhere key fun i => decide (pivotIdx < i))
        Program.query (insertRows .kvLists key [(int64 (pivotIdx + 1), ⟨element, none⟩)])
      Program.query (selectListLength key)

end Postkeys
