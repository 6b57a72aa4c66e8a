import Postkeys.Handlers.Replies

/-! # Commands on keys of any type, and on the server -/

namespace Postkeys.Handlers

open Relational Proc

variable {S : Type} [GoFloat S]

/-! ### Deletion and expiry -/

def delOp : List Bytes → Proc S
  | [] => wrongArgs "del"
  | keys => answer (.del keys)

/-- `UNLINK` is `DEL`. -/
def unlinkOp : List Bytes → Proc S := delOp

def existsOp : List Bytes → Proc S
  | [] => wrongArgs "exists"
  | keys => answer (.existsKeys keys)

/-- The flags of `EXPIRE` and its variants, one after the other. -/
def expireFlags (opts : ExpireOptions) : List Bytes → Except Value ExpireOptions
  | [] => .ok opts
  | a :: rest =>
      if toUpper a = utf8 "NX" then expireFlags { opts with NX := true } rest
      else if toUpper a = utf8 "XX" then expireFlags { opts with XX := true } rest
      else if toUpper a = utf8 "GT" then expireFlags { opts with GT := true } rest
      else if toUpper a = utf8 "LT" then expireFlags { opts with LT := true } rest
      else .error (.err (utf8 "ERR Unsupported option " ++ a))

def parseExpireOptions (args : List Bytes) : Except Value ExpireOptions :=
  (expireFlags ⟨false, false, false, false⟩ args).bind fun opts =>
    if opts.NX && (opts.XX || opts.GT || opts.LT) then
      .error (.err (utf8 "ERR NX and XX, GT or LT options at the same time are not compatible"))
    else if opts.GT && opts.LT then
      .error (.err (utf8 "ERR GT and LT options at the same time are not compatible"))
    else .ok opts

/-- `EXPIRE`, `PEXPIRE`, `EXPIREAT` and `PEXPIREAT`. -/
def expiryOp (cmd message : String) (command : Bytes → ℤ → ExpireOptions → Cmd S) : List Bytes → Proc S
  | key :: n :: options =>
      need (parseInt n) message fun n =>
        parsed (parseExpireOptions options) fun opts => answer (command key n opts)
  | _ => wrongArgs cmd

def expireOp : List Bytes → Proc S :=
  expiryOp "expire" notInteger fun key n opts => .expire key (seconds n) opts

def pexpireOp : List Bytes → Proc S :=
  expiryOp "pexpire" notInteger fun key n opts => .expire key (milliseconds n) opts

def expireatOp : List Bytes → Proc S :=
  expiryOp "expireat" errNotInteger fun key n opts => .expireAt key (unixTime n) opts

def pexpireatOp : List Bytes → Proc S :=
  expiryOp "pexpireat" errNotInteger fun key n opts => .expireAt key (unixMilli n) opts

def ttlOp : List Bytes → Proc S
  | [key] => answer (.ttl key)
  | _ => wrongArgs "ttl"

def pttlOp : List Bytes → Proc S
  | [key] => answer (.pttl key)
  | _ => wrongArgs "pttl"

def persistOp : List Bytes → Proc S
  | [key] => answer (.persist key)
  | _ => wrongArgs "persist"

/-! ### Types and names -/

def keysOp : List Bytes → Proc S
  | [pattern] => answer (.keys pattern)
  | _ => wrongArgs "keys"

def typeCmdOp : List Bytes → Proc S
  | [key] => answer (.keyType key)
  | _ => wrongArgs "type"

def renameOp : List Bytes → Proc S
  | [oldKey, newKey] => answer (.rename oldKey newKey)
  | _ => wrongArgs "rename"

/-- `COPY`; every option but `REPLACE` is ignored. -/
def copyOp : List Bytes → Proc S
  | source :: destination :: options =>
      answer (.copy source destination (options.any fun a => decide (toUpper a = utf8 "REPLACE")))
  | _ => wrongArgs "copy"

def randomKeyOp : List Bytes → Proc S
  | [] => answer .randomKey
  | _ => wrongArgs "randomkey"

/-- The encoding `OBJECT ENCODING` reports for a type. -/
def encodingOf : KeyType → String
  | .string => "raw"
  | .hash => "listpack"
  | .list => "quicklist"
  | .set => "listpack"
  | .zset => "skiplist"
  | .hyperloglog => "raw"

def objectOp : List Bytes → Proc S
  | [] => wrongArgs "object"
  | a :: rest =>
      let sub := toUpper a
      if sub = utf8 "ENCODING" then
        match rest with
        | [key] => store (.keyType key) fun r =>
            match r.asType with
            | none => err "ERR no such key"
            | some kt => reply (.bulkOf (utf8 (encodingOf kt)))
        | _ => wrongArgs "object encoding"
      else if sub = utf8 "HELP" then
        reply (bulks [utf8 "OBJECT <subcommand> [<arg> ...]. Subcommands are:", utf8 "ENCODING <key>",
          utf8 "    Return the kind of internal representation used to store the value at <key>."])
      else if sub = utf8 "FREQ" ∨ sub = utf8 "IDLETIME" ∨ sub = utf8 "REFCOUNT" then
        err ("ERR An LFU maxmemory policy is not selected, access frequency not tracked. Please note " ++
          "that when switching between maxmemory policies at runtime LFU and LRU data will take some " ++
          "time to adjust.")
      else reply (.err (utf8 "ERR Unknown subcommand or wrong number of arguments for '" ++ toLower a ++
        utf8 "'. Try OBJECT HELP."))

/-! ### `SCAN` -/

/-- One page of a list that is walked with a cursor; a cursor or a count below zero panics. -/
def scanPage (all : List Bytes) (cursor cnt : ℤ) : Proc S :=
  if (all.length : ℤ) ≤ cursor then reply (.arr [.bulkOf (utf8 "0"), .arr []])
  else
    let stop := min (int64 (cursor + cnt)) all.length
    if cursor < 0 ∨ stop < cursor then crash "runtime error: slice bounds out of range"
    else
      let nextCursor := if (all.length : ℤ) ≤ stop then utf8 "0" else formatInt stop
      reply (.arr [.bulkOf nextCursor, bulks ((all.take stop.toNat).drop cursor.toNat)])

/-- The options of `SCAN`. -/
structure ScanOptions where
  pattern : Bytes
  cnt : ℤ
  typeFilter : Bytes

/-- The options of `SCAN`; an unknown one is ignored. -/
def scanOptions (o : ScanOptions) : List Bytes → Except Value ScanOptions
  | [] => .ok o
  | a :: rest =>
      if toUpper a = utf8 "MATCH" then
        match rest with
        | pattern :: rest => scanOptions { o with pattern := pattern } rest
        | [] => .error (.err (utf8 "syntax error"))
      else if toUpper a = utf8 "COUNT" then
        match rest with
        | n :: rest =>
            match parseInt n with
            | none => .error (.err (utf8 notInteger))
            | some n => scanOptions { o with cnt := n } rest
        | [] => .error (.err (utf8 "syntax error"))
      else if toUpper a = utf8 "TYPE" then
        match rest with
        | kt :: rest => scanOptions { o with typeFilter := toLower kt } rest
        | [] => .error (.err (utf8 "syntax error"))
      else scanOptions o rest

/-- Keep the keys of one type; a key whose type cannot be read is skipped. -/
def filterByType (typeFilter : Bytes) (next : List Bytes → Proc S) : List Bytes → List Bytes → Proc S
  | kept, [] => next kept
  | kept, key :: keys =>
      call (.keyType key) fun r =>
        match r with
        | .error _ => filterByType typeFilter next kept keys
        | .ok r =>
            if utf8 (r.asType.elim "none" KeyType.text) = typeFilter then
              filterByType typeFilter next (kept ++ [key]) keys
            else filterByType typeFilter next kept keys

def scanOp : List Bytes → Proc S
  | [] => wrongArgs "scan"
  | cursor :: options =>
      need (parseInt cursor) "invalid cursor" fun cursor =>
        parsed (scanOptions ⟨utf8 "*", 10, []⟩ options) fun o =>
          store (.keys o.pattern) fun r =>
            if o.typeFilter = [] then scanPage r.asValues cursor o.cnt
            else filterByType o.typeFilter (fun keys => scanPage keys cursor o.cnt) [] r.asValues

/-! ### The server -/

/-- What the process knows of itself: the system it runs on and when it started. -/
structure Process where
  goos : Bytes
  goarch : Bytes
  startTime : ℤ

/-- The text of `INFO`. -/
def infoText (p : Process) (uptime dbSize : ℤ) : Bytes :=
  utf8 "# Server\nredis_version:7.0.0-postkeys\nos:" ++ p.goos ++ utf8 "\narch:" ++ p.goarch ++
  utf8 "\n\n# Stats\nuptime_in_seconds:" ++ formatInt (Int.tdiv uptime (10 ^ 9)) ++
  utf8 "\nuptime_in_days:" ++ formatInt (Int.tdiv uptime (86400 * 10 ^ 9)) ++
  utf8 "\n\n# Keyspace\ndb0:keys=" ++ formatInt dbSize ++ utf8 "\n"

/-- `INFO`; a database that cannot be counted is shown as empty. -/
def infoOp (p : Process) (_args : List Bytes) : Proc S :=
  read fun reading => call .dbSize fun r =>
    reply (.bulkOf (infoText p (reading.time - p.startTime) (r.toOption.elim 0 Reply.asInt)))

def dbsizeOp (_args : List Bytes) : Proc S := answer .dbSize

/-- `WATCH` does nothing. -/
def watchOp (_args : List Bytes) : Proc S := reply .ok

/-- `UNWATCH` does nothing. -/
def unwatchOp (_args : List Bytes) : Proc S := reply .ok

end Postkeys.Handlers
