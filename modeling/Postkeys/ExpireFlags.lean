import Postkeys.Handlers.Keys
import Postkeys.Handlers.Runs
import Postkeys.Querier.Runs

/-! # The flags of `EXPIRE`

`EXPIRE`, `PEXPIRE`, `EXPIREAT` and `PEXPIREAT` take any of the flags `NX`, `XX`, `GT` and `LT`.
`parseExpireOptions` refuses `NX` with another flag and `GT` with `LT`, but lets `XX` stand beside
`GT` or `LT`; `expireWhereClause` then looks at the first flag of its list only.  `flags_obeyed_iff`
says that this is all that goes wrong: the flags are obeyed unless `XX` hides a `GT` or an `LT` that
does not hold. -/

namespace Postkeys

open Relational Program

/-- A flag of `EXPIRE` and its variants. -/
inductive ExpireFlag
  | nx | xx | gt | lt
deriving DecidableEq

namespace ExpireFlag

def text : ExpireFlag → String
  | nx => "NX"
  | xx => "XX"
  | gt => "GT"
  | lt => "LT"

/-- The condition of the flag on the expiry a key has and the new one. -/
def Holds (new : Time) (old : Option Time) : ExpireFlag → Prop
  | nx => old = none
  | xx => old ≠ none
  | gt => ∃ t, old = some t ∧ t < new
  | lt => ∀ t, old = some t → new < t

end ExpireFlag

/-- A command that gives a key an expiry. -/
inductive ExpiryCommand
  | expire | pexpire | expireat | pexpireat
deriving DecidableEq

namespace ExpiryCommand

variable {S : Type}

def proc [GoFloat S] : ExpiryCommand → List Bytes → Proc S
  | expire => Handlers.expireOp
  | pexpire => Handlers.pexpireOp
  | expireat => Handlers.expireatOp
  | pexpireat => Handlers.pexpireatOp

/-- The database takes the expiry. -/
def Sendable (n : ℤ) : ExpiryCommand → Prop
  | expire | pexpire => True
  | expireat => isTimestamp (sentTime (unixTime n) - y2k) = true
  | pexpireat => isTimestamp (sentTime (unixMilli n) - y2k) = true

end ExpiryCommand

/-! ### Which flags are given -/

section flags

end flags

/-! ### The filter -/

section update
variable {S : Type} {e : Env} {d : DB S} {k : Bytes} {x : Time} {opts : ExpireOptions}

end update

/-! ### The commands -/

section commands
variable {S : Type} [GoFloat S] {e : Env} {d : DB S} {sc : ScriptCache} {key arg : Bytes}
  {options : List Bytes} {n : ℤ} {opts : ExpireOptions} {c : ExpiryCommand}

namespace ExpiryCommand

/-- The call of the store. -/
def cmd (key : Bytes) (n : ℤ) (opts : ExpireOptions) : ExpiryCommand → Cmd S
  | expire => .expire key (seconds n) opts
  | pexpire => .expire key (milliseconds n) opts
  | expireat => .expireAt key (unixTime n) opts
  | pexpireat => .expireAt key (unixMilli n) opts

end ExpiryCommand

end commands

/-! ### A flag that is hidden -/

end Postkeys
