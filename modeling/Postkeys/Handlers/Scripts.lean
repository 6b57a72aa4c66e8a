import Postkeys.Handlers.Keys

/-! # Scripts

The Lua interpreter is not part of the source.  What a script does is given from outside as a tree
of its calls of `redis.call` and `redis.pcall`: after every call it goes on with the reply, and in
the end it returns a value or fails with a message. -/

namespace Postkeys.Handlers

open Relational Proc

variable {S : Type}

/-- What a script does from some point on. -/
inductive Script
  | returns (v : Value)
  | fails (message : Bytes)
  | call (isProtected : Bool) (words : List Bytes) (next : Value → Script)

/-- The parts of the server that are given from outside: the process, how often a blocking command
polls, the hash function, and the meaning of a script with its keys and arguments. -/
structure Config where
  process : Process
  polls : ℕ
  scriptSHA1 : Bytes → Bytes
  lua : Bytes → List Bytes → List Bytes → Script

/-! ### Errors of scripts -/

/-- The line in `<string>:N:`, at the first place where this occurs. -/
def luaErrLine : Bytes → Option Bytes
  | [] => none
  | b :: s =>
      let marker := utf8 "<string>:"
      let rest := (b :: s).drop marker.length
      let digits := rest.takeWhile fun b => (digit b).isSome
      if marker.isPrefixOf (b :: s) ∧ digits ≠ [] ∧ rest[digits.length]? = some 58 then some digits
      else luaErrLine s

/-- `scriptError`: the error of the last `redis.call`, or the first line of the message. -/
def scriptError (sha message callErr : Bytes) : Bytes :=
  let msg := message.takeWhile (· ≠ 10)
  if callErr ≠ [] ∧ callErr.isSuffixOf msg = true then
    callErr ++ utf8 " script: " ++ sha ++ utf8 ", on @user_script:" ++
      (luaErrLine msg).getD (utf8 "?") ++ utf8 "."
  else utf8 "ERR Error running script: " ++ msg

/-! ### Running a script -/

/-- The commands a script may not call. -/
def notFromScripts : List String :=
  ["SUBSCRIBE", "PSUBSCRIBE", "UNSUBSCRIBE", "PUNSUBSCRIBE", "PUBLISH", "MULTI", "EXEC", "DISCARD",
    "WATCH", "UNWATCH", "EVAL", "EVALSHA", "SCRIPT"]

/-- `executeRedisCommand`; `execute` runs the commands that are allowed. -/
def executeRedisCommand (execute : Bytes → List Bytes → Proc S) : List Bytes → Proc S
  | [] => err "ERR Please specify at least one argument for redis.call()"
  | name :: args =>
      if toUpper name ∈ notFromScripts.map utf8 then
        err "ERR This Redis command is not allowed from a script"
      else execute (toUpper name) args

/-- Run a script; `callErr` is the last error of an unprotected call. -/
def runLua (execute : Bytes → List Bytes → Proc S) (sha : Bytes) : Script → Bytes → Proc S
  | .returns v, _ => reply v
  | .fails message, callErr => reply (.errCustom (scriptError sha message callErr))
  | .call isProtected words next, callErr =>
      (executeRedisCommand execute words).andThen fun v => runLua execute sha (next v)
        (if isProtected = false ∧ v.type = .error then v.str else callErr)

/-- `runScript`: one transaction that first locks the keys. -/
def runScript (cfg : Config) (execute : Bytes → List Bytes → Proc S) (script : Bytes)
    (keys argv : List Bytes) : Proc S :=
  atomic keys (runLua execute (cfg.scriptSHA1 script) (cfg.lua script keys argv) []) reply

/-! ### The commands -/

/-- The number of keys of `EVAL` and `EVALSHA`.  The sum `2 + numkeys` may overflow; `next` learns
whether it did. -/
def evalKeys (numkeys : Bytes) (rest : List Bytes) (next : ℤ → Proc S) : Proc S :=
  need (parseInt numkeys) errNotInteger fun n =>
    if n < 0 then err "ERR Number of keys can't be negative"
    else if (rest.length : ℤ) + 2 < int64 (2 + n) then
      err "ERR Number of keys can't be greater than number of args"
    else next n

/-- Run a script on the arguments that follow the number of keys, unless there are fewer of them. -/
def runOnKeys (cfg : Config) (execute : Bytes → List Bytes → Proc S) (script : Bytes) (n : ℤ)
    (rest : List Bytes) : Proc S :=
  if (rest.length : ℤ) < n then crash "runtime error: makeslice: len out of range"
  else runScript cfg execute script (rest.take n.toNat) (rest.drop n.toNat)

/-- `EVAL` caches its script once the keys have been read. -/
def evalOp (cfg : Config) (execute : Bytes → List Bytes → Proc S) : List Bytes → Proc S
  | script :: numkeys :: rest => evalKeys numkeys rest fun n =>
      if (rest.length : ℤ) < n then runOnKeys cfg execute script n rest
      else scripts (fun sc => sc.put (cfg.scriptSHA1 script) script) fun _ =>
        runOnKeys cfg execute script n rest
  | _ => wrongArgs "eval"

def evalshaOp (cfg : Config) (execute : Bytes → List Bytes → Proc S) : List Bytes → Proc S
  | sha :: numkeys :: rest => evalKeys numkeys rest fun n =>
      scripts id fun sc =>
        match sc.row (toLower sha) with
        | none => reply (.errCustom (utf8 "NOSCRIPT No matching script. Please use EVAL."))
        | some script => runOnKeys cfg execute script n rest
  | _ => wrongArgs "evalsha"

def scriptOp (cfg : Config) : List Bytes → Proc S
  | [] => wrongArgs "script"
  | a :: subArgs =>
      let subCmd := toUpper a
      if subCmd = utf8 "LOAD" then
        match subArgs with
        | [script] => scripts (fun sc => sc.put (cfg.scriptSHA1 script) script) fun _ =>
            reply (.bulkOf (cfg.scriptSHA1 script))
        | _ => wrongArgs "script load"
      else if subCmd = utf8 "EXISTS" then
        match subArgs with
        | [] => wrongArgs "script exists"
        | shas => scripts id fun sc =>
            reply (.arr (shas.map fun sha => boolInt (sc.row (toLower sha)).isSome))
      else if subCmd = utf8 "FLUSH" then scripts (fun _ => ∅) fun _ => reply .ok
      else if subCmd = utf8 "KILL" then err "NOTBUSY No scripts in execution right now."
      else if subCmd = utf8 "DEBUG" then reply .ok
      else reply (.err (utf8 "ERR Unknown subcommand or wrong number of arguments for '" ++ subCmd ++
        utf8 "'"))

end Postkeys.Handlers
