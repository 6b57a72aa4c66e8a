import Postkeys.Command

/-! # The in-memory cache and the cached store

`Cache` is the map of the process from keys to values, each with an expiry of its own.
`CachedStore` puts it in front of the backend: `GET` is answered from the cache where that is
possible and fills it otherwise, every other call goes to the backend and drops from the cache the
keys its wrapper names.  The background goroutine and the notifications of other instances only
remove entries. -/

namespace Postkeys

open Relational

/-! ### The cache -/

/-- A cached value and when it expires, on the clock of the process. -/
structure Cache.Entry where
  value : Bytes
  expiresAt : ℤ
deriving DecidableEq, Repr

/-- The cache of the process. -/
structure Cache where
  items : Table Bytes Cache.Entry
  ttl : ℤ
  maxSize : ℤ

namespace Cache

/-- The configuration of the cache and of the store around it. -/
structure Config where
  ttl : ℤ
  maxSize : ℤ
  excludePatterns : List Bytes
  includePatterns : List Bytes

/-- An empty cache. -/
def new (cfg : Config) : Cache := ⟨∅, cfg.ttl, cfg.maxSize⟩

def get (now : ℤ) (key : Bytes) (c : Cache) : Option Bytes :=
  match c.items.row key with
  | none => none
  | some e => if e.expiresAt < now then none else some e.value

/-- `Set`: at the maximal size no new key is taken. -/
def set (now : ℤ) (key value : Bytes) (c : Cache) : Cache :=
  if 0 < c.maxSize ∧ c.maxSize ≤ c.items.dom.card ∧ (c.items.row key).isNone then c
  else { c with items := c.items.put key ⟨value, now + c.ttl⟩ }

def delete (key : Bytes) (c : Cache) : Cache :=
  { c with items := c.items.restrict fun k _ => k ≠ key }

def deleteMulti (keys : List Bytes) (c : Cache) : Cache := keys.foldl (fun c key => c.delete key) c

def flush (c : Cache) : Cache := { c with items := ∅ }

/-- One round of the background goroutine. -/
def cleanup (now : ℤ) (c : Cache) : Cache :=
  { c with items := c.items.restrict fun _ e => !decide (e.expiresAt < now) }

/-! ### What the operations leave -/

theorem row_of_get {now : ℤ} {key v : Bytes} {c : Cache} (h : c.get now key = some v) :
    ∃ e, c.items.row key = some e ∧ e.value = v := by
  unfold get at h
  split at h
  · cases h
  · rename_i e he
    split at h
    · cases h
    · exact ⟨e, he, Option.some.inj h⟩

theorem row_of_set {now : ℤ} {key value k : Bytes} {c : Cache} {e : Entry}
    (h : (c.set now key value).items.row k = some e) :
    c.items.row k = some e ∨ k = key ∧ e.value = value := by
  unfold set at h
  split at h
  · exact Or.inl h
  · rw [Table.put_row] at h
    split at h
    · rename_i hk
      cases h
      exact Or.inr ⟨hk, rfl⟩
    · exact Or.inl h

theorem row_of_delete {key k : Bytes} {c : Cache} {e : Entry}
    (h : (c.delete key).items.row k = some e) : c.items.row k = some e ∧ k ≠ key := by
  obtain ⟨hrow, hne⟩ := Table.restrict_row_some.mp h
  exact ⟨hrow, by simpa using hne⟩

theorem row_of_deleteMulti {keys : List Bytes} {k : Bytes} {c : Cache} {e : Entry}
    (h : (c.deleteMulti keys).items.row k = some e) : c.items.row k = some e ∧ k ∉ keys := by
  unfold deleteMulti at h
  induction keys generalizing c with
  | nil => exact ⟨h, by simp⟩
  | cons key keys ih =>
      obtain ⟨hrow, hkeys⟩ := ih h
      obtain ⟨hrow, hne⟩ := row_of_delete hrow
      exact ⟨hrow, by simp [hne, hkeys]⟩

theorem row_of_cleanup {now : ℤ} {k : Bytes} {c : Cache} {e : Entry}
    (h : (c.cleanup now).items.row k = some e) : c.items.row k = some e :=
  (Table.restrict_row_some.mp h).1

end Cache

/-! ### The cached store -/

/-- A store behind a cache. -/
structure CachedStore (S : Type) where
  backend : DB S
  cache : Cache
  excludePatterns : List Bytes
  includePatterns : List Bytes

variable {S : Type}

/-- Whether a `BITFIELD` call has an operation other than `GET`; `OVERFLOW` never reaches it as an
operation of its own. -/
def bitFieldHasWrites (ops : List BitFieldOp) : Bool := ops.any fun op => op.opType ≠ .get

/-- The keys that a call drops from the cache after the backend has answered it with a reply.  `DEL`
names the slice of keys as the backend leaves it, encoded and sorted. -/
def Cmd.invalidates : Cmd S → Reply S → List Bytes
  | .set key _ _, _ => [key]
  | .setNX key _ _, .bool true => [key]
  | .mSet pairs, _ => Table.ascending pairs.dom
  | .incr key _, _ => [key]
  | .append key _, _ => [key]
  | .setRange key _ _, _ => [key]
  | .bitField key ops, _ => if bitFieldHasWrites ops then [key] else []
  | .getEx key _ _, _ => [key]
  | .getDel key, _ => [key]
  | .getSet key _, _ => [key]
  | .incrByFloat key _, _ => [key]
  | .del ks, _ => sortStrings (encodeKeys ks)
  | .expire key _ _, .bool true => [key]
  | .persist key, _ => [key]
  | .rename oldKey newKey, _ => [oldKey, newKey]
  | .hIncrBy key _ _, _ => [key]
  | .zRangeStore dst _ _, _ => [dst]
  | .zRemRangeByScore key _ _, _ => [key]
  | .zRemRangeByRank key _ _, _ => [key]
  | .zIncrBy key _ _, _ => [key]
  | .zPopMin key _, _ => [key]
  | .lRem key _ _, _ => [key]
  | .lTrim key _ _, _ => [key]
  | .rPopLPush source destination, _ => [source, destination]
  | .pfAdd key _, _ => [key]
  | .pfMerge destKey _, _ => [destKey]
  | .hIncrByFloat key _ _, _ => [key]
  | .hSetNX key _ _, .bool true => [key]
  | .lSet key _ _, _ => [key]
  | .lInsert key _ _ _, _ => [key]
  | .sInterStore destination _, _ => [destination]
  | .sUnionStore destination _, _ => [destination]
  | .sDiffStore destination _, _ => [destination]
  | .zPopMax key _, .members (_ :: _) => [key]
  | .zUnionStore destination _ _ _, _ => [destination]
  | .zInterStore destination _ _ _, _ => [destination]
  | .expireAt key _ _, .bool true => [key]
  | .copy _ destination _, .bool true => [destination]
  | .setBit key _ _, _ => [key]
  | .bitOp _ destKey _, _ => [destKey]
  | _, _ => []

namespace CachedStore

/-- The pattern language of the cache: at most one `*` counts, at the end, at the start or, the
first one, in between. -/
def matchGlob (pattern str : Bytes) : Bool :=
  if pattern = str then true
  else if pattern.getLast? = some 42 then pattern.dropLast.isPrefixOf str
  else if pattern.head? = some 42 then pattern.tail.isSuffixOf str
  else if pattern.contains 42 then
    (pattern.takeWhile (· ≠ 42)).isPrefixOf str && (pattern.dropWhile (· ≠ 42)).tail.isSuffixOf str
  else false

def matchesAnyPattern (key : Bytes) (patterns : List Bytes) : Bool :=
  patterns.any fun pattern => matchGlob pattern key

/-- Include patterns come before exclude patterns; without patterns every key is cached. -/
def shouldCache (key : Bytes) (s : CachedStore S) : Bool :=
  if !s.includePatterns.isEmpty && matchesAnyPattern key s.includePatterns then true
  else if !s.excludePatterns.isEmpty && matchesAnyPattern key s.excludePatterns then false
  else true

/-- `NewCachedStore`. -/
def new (cfg : Cache.Config) (backend : DB S) : CachedStore S :=
  ⟨backend, Cache.new cfg, cfg.excludePatterns, cfg.includePatterns⟩

def invalidate (key : Bytes) (s : CachedStore S) : CachedStore S :=
  { s with cache := s.cache.delete key }

def invalidateMulti (keys : List Bytes) (s : CachedStore S) : CachedStore S :=
  { s with cache := s.cache.deleteMulti keys }

def flush (s : CachedStore S) : CachedStore S := { s with cache := s.cache.flush }

/-- The first step of `Get`: the cache, if the policy allows it. -/
def lookup (now : ℤ) (key : Bytes) (s : CachedStore S) : Option Bytes :=
  if s.shouldCache key then s.cache.get now key else none

/-- The last step of `Get`: what the backend had goes to the cache, if the policy allows it. -/
def fill (now : ℤ) (key value : Bytes) (s : CachedStore S) : CachedStore S :=
  if s.shouldCache key then { s with cache := s.cache.set now key value } else s

section calls
variable [Float64 S]

/-- `Get`, with the readings of the process clock at its lookup and at its fill. -/
def get (e : Env) (looked filled : ℤ) (key : Bytes) (s : CachedStore S) :
    Except Failure (Reply S) × CachedStore S :=
  match s.lookup looked key with
  | some v => (.ok (.value (some v)), s)
  | none =>
      let r := (Cmd.get key).exec e s.backend
      let s := { s with backend := r.2 }
      match r.1 with
      | .ok (.value (some v)) => (r.1, s.fill filled key v)
      | _ => (r.1, s)

/-- What a wrapper does to the cache once the backend has answered: nothing after an error. -/
def settle (c : Cmd S) (r : Except Failure (Reply S)) (s : CachedStore S) : CachedStore S :=
  match r, c with
  | .error _, _ => s
  | .ok _, .flushDB => s.flush
  | .ok reply, c => s.invalidateMulti (c.invalidates reply)

/-- A call other than `Get`. -/
def passOn (e : Env) (c : Cmd S) (s : CachedStore S) : Except Failure (Reply S) × CachedStore S :=
  let r := c.exec e s.backend
  (r.1, { s with backend := r.2 }.settle c r.1)

/-- One call through the cached store. -/
def call (e : Env) (looked filled : ℤ) (c : Cmd S) (s : CachedStore S) :
    Except Failure (Reply S) × CachedStore S :=
  match c with
  | .get key => s.get e looked filled key
  | c => s.passOn e c

end calls

end CachedStore

end Postkeys
