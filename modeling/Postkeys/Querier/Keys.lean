import Postkeys.Querier.Base

/-! # Key operations

Deletion, expiry, renaming and copying of keys of any type, and the operations that look at the
whole key space. -/

namespace Postkeys

open Relational

variable {S : Type}

/-- One round of the `DEL` loop: whether the key was there. -/
def delKey (key : Bytes) : Op S Bool := do
  let keyType ← getKeyType key
  if keyType = none then pure false
  else do
    deleteKeyFromAllTables key
    pure true

/-- The `DEL` loop over the remaining keys, with the number deleted so far. -/
def delLoop (deleted : ℤ) : List Bytes → Op S ℤ
  | [] => pure deleted
  | key :: keys => do
      let found ← delKey key
      delLoop (if found then deleted + 1 else deleted) keys

def del (keys : List Bytes) : Op S ℤ := delLoop 0 (sortStrings (encodeKeys keys))

/-- `exists` of the source. -/
def existsKeys (keys : List Bytes) : Op S ℤ := do
  let rows ← Program.query (selectLiveIn .kvMeta (encodeKeys keys))
  pure (rows.length : ℤ)

/-- The flags of `EXPIRE` and its variants. -/
structure ExpireOptions where
  NX : Bool
  XX : Bool
  GT : Bool
  LT : Bool
deriving DecidableEq, Repr

/-- The filter on the `kv_meta` row: whether an expiry `new` may replace `old`. -/
def expireWhereClause (opts : ExpireOptions) (now new : Time) (old : Option Time) : Bool :=
  if opts.NX then old.isNone
  else if opts.XX then old.elim false fun t => now < t
  else if opts.GT then old.elim false fun t => now < t && t < new
  else if opts.LT then old.elim true fun t => now < t && new < t
  else old.elim true fun t => now < t

/-- Give a key the expiry `expiresAt`, in `kv_meta` and in the data table of its type. -/
def applyExpiry (key : Bytes) (expiresAt : Time) (opts : ExpireOptions) : Op S Bool := do
  let rows ← Program.query (updateWhere .kvMeta key
    (fun now _ r => expireWhereClause opts now expiresAt r.expiresAt) fun r => ⟨r.val, some expiresAt⟩)
  match rows with
  | [] => pure false
  | (_, r) :: _ =>
      match dataTableForType r.val with
      | none => pure true
      | some table => do
          Program.query (setExpiry table key (some expiresAt))
          pure true

def expire (key : Bytes) (ttl : ℤ) (opts : ExpireOptions) : Op S Bool := do
  let key := encodeKey key
  lockKey key
  let t ← Program.clock
  applyExpiry key (pgTime (t + ttl)) opts

def expireAt (key : Bytes) (timestamp : ℤ) (opts : ExpireOptions) : Op S Bool := do
  let key := encodeKey key
  lockKey key
  let expiresAt ← Program.query (sendTime timestamp)
  applyExpiry key expiresAt opts

/-- The expiry of a live key: missing, without expiry, or when it expires. -/
def selectExpiry (key : Bytes) : Stm S (Option (Option Time)) :=
  Sql.readRows .kvMeta key fun c u =>
    .ok ((u.row ()).bind fun r => if r.live c.now then some r.expiresAt else none)

def ttl (key : Bytes) : Op S ℤ := do
  let expiresAt ← Program.query (selectExpiry (encodeKey key))
  match expiresAt with
  | none => pure (-2)
  | some none => pure (-1)
  | some (some e) => do
      let t ← Program.clock
      let left := timeUntil t (e * 1000)
      if left < 0 then pure (-2) else pure (wholeSeconds left)

def pttl (key : Bytes) : Op S ℤ := do
  let expiresAt ← Program.query (selectExpiry (encodeKey key))
  match expiresAt with
  | none => pure (-2)
  | some none => pure (-1)
  | some (some e) => do
      let t ← Program.clock
      let left := Int.tdiv (timeUntil t (e * 1000)) 1000000
      if left < 0 then pure (-2) else pure left

def persist (key : Bytes) : Op S Bool := do
  let key := encodeKey key
  lockKey key
  let rows ← Program.query (updateWhere .kvMeta key
    (fun now _ r => r.expiresAt.elim false fun t => decide (now < t)) fun r => ⟨r.val, none⟩)
  if rows.isEmpty then pure false
  else do
    Program.forEach (fun t => Program.queryIgnored (setExpiry t key none)) dataTables
    pure true

/-- The live keys in the order of their stored form. -/
def liveKeys (now : Time) (u : Table (Bytes × Unit) (Cell KeyType)) : List Bytes :=
  (Table.ascending u.groups).filter fun k => ((live now (u.slice k)).row ()).isSome

def randomKey : Op S (Option Bytes) := do
  let keys ← Program.query (Sql.scan .kvMeta fun c u => Table.shuffle c.order (liveKeys c.now u))
  pure (keys.head?.map decodeKey)

/-- `strings.ReplaceAll` of one byte by another. -/
def replaceByte (old new : UInt8) (s : Bytes) : Bytes := s.map fun b => if b = old then new else b

/-- `SELECT key … WHERE key LIKE $1` over the live keys. -/
def selectKeysLike (pattern : Bytes) : Stm S (List Bytes) :=
  if pattern.contains 0 || !validString pattern then
    Sql.error ⟨"22021", "invalid byte sequence for encoding \"UTF8\""⟩
  else
    match likeItems pattern with
    | none => Sql.error ⟨"22025", "LIKE pattern must not end with escape character"⟩
    | some items => Sql.scan .kvMeta fun c u =>
        Table.shuffle c.order ((liveKeys c.now u).filter (likeMatch items))

def keys (pattern : Bytes) : Op S (List Bytes) := do
  let likePattern := replaceByte 63 95 (replaceByte 42 37 pattern)
  let rows ← Program.queryRows (selectKeysLike likePattern)
  pure (rows.map decodeKey)

def keyType (key : Bytes) : Op S (Option KeyType) := getKeyType (encodeKey key)

/-- The name of a type as it appears in messages. -/
def KeyType.text : KeyType → String
  | .string => "string"
  | .hash => "hash"
  | .list => "list"
  | .set => "set"
  | .zset => "zset"
  | .hyperloglog => "hyperloglog"

def rename (oldKey newKey : Bytes) : Op S Unit := do
  let oldKey := encodeKey oldKey
  let newKey := encodeKey newKey
  lockKeys [oldKey, newKey]
  let keyType ← getKeyType oldKey
  match keyType with
  | none => Program.raise "no such key"
  | some kt => do
      deleteKeyFromAllTables newKey
      match dataTableForType kt with
      | none => Program.raise ("unsupported key type for rename: " ++ kt.text)
      | some table => do
          Program.query (moveKey .kvMeta oldKey newKey)
          Program.query (moveKey table oldKey newKey)

/-- Copy the rows of a collection.  The first `INSERT` meets the connection still busy with the
rows being read, so only an empty collection is copied. -/
def copyRows (t : Tab) (kt : KeyType) (source destination : Bytes) : Op S Bool := do
  setMeta destination kt none
  let rows ← Program.queryRows (selectAll t source fun u => u.toList)
  match rows with
  | [] => pure true
  | _ :: _ => Program.raise "conn busy"

/-- The part of `copy` that depends on the type of the source. -/
def copyByType (kt : KeyType) (source destination : Bytes) : Op S Bool :=
  match kt with
  | .string => do
      let row ← Program.query (selectAll .kvStrings source fun u => u.row ())
      match row with
      | none => Program.raise "no rows in result set"
      | some r => do
          setMeta destination .string r.expiresAt
          Program.query (insertRows .kvStrings destination [((), r)])
          pure true
  | .hash => copyRows .kvHashes .hash source destination
  | .list => copyRows .kvLists .list source destination
  | .set => copyRows .kvSets .set source destination
  | .zset => copyRows .kvZsets .zset source destination
  | .hyperloglog => pure true

/-- `copy` of the source. -/
def copyKey (source destination : Bytes) (replace : Bool) : Op S Bool := do
  let source := encodeKey source
  let destination := encodeKey destination
  lockKeys [source, destination]
  let keyType ← getKeyType source
  match keyType with
  | none => pure false
  | some kt => do
      let destType ← getKeyType destination
      if destType ≠ none ∧ replace = false then pure false
      else do
        if destType ≠ none then deleteKeyFromAllTables destination
        copyByType kt source destination

def dbSize : Op S ℤ :=
  Program.query (Sql.scan .kvMeta fun c u => ((liveKeys c.now u).length : ℤ))

/-- `FLUSHDB`: the tables are emptied one after the other. -/
def flushDB : Op S Unit :=
  Program.forEach (fun t => Program.query (Sql.replace t ∅))
    [.kvStrings, .kvHashes, .kvLists, .kvSets, .kvZsets, .kvHyperloglog, .kvMeta]

end Postkeys
