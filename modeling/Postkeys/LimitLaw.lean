import Postkeys.RangeStore
import Postkeys.ReverseRanges

/-! # `LIMIT`

With `LIMIT offset count` a range command is to drop `offset` elements of its result and to keep `count` of the
rest, all of them if `count` is negative (`cut`).  The reads by score and `ZRANGESTORE` look at the limit only if
the count is positive, the reads by member take a count of 0 for none, `ZRANGE` with `REV` cuts at the wrong end,
and a `ZRANGESTORE` by index takes no notice of it.  `limit_law_iff` says for each command when the law holds. -/

namespace Postkeys

open Relational Program

variable {S α : Type}

/-! ### The law -/

/-- What `LIMIT` is to leave of a result. -/
def cut (offset cnt : ℤ) (l : List α) : List α :=
  if cnt < 0 then l.drop offset.toNat else (l.drop offset.toNat).take cnt.toNat

section lists
variable {offset cnt : ℤ} (h0 : 0 ≤ offset) (l : List α)

include h0

end lists

variable {e : Env} {d : DB S} {key : Bytes} {sc : ScriptCache} [GoFloat S]

/-! ### The words of the commands -/

section options
variable {cmd message : String} {flag : Handlers.RangeOptions → Bytes → Except Value Handlers.RangeOptions}
  (o : Handlers.RangeOptions)

theorem rangeOptions_scores (hflag : flag o (utf8 "WITHSCORES") = .ok { o with withScores := true })
    (ho : o.withScores = false) (withScores : Bool) :
    Handlers.rangeOptions cmd message flag o (scoresWord withScores) = .ok { o with withScores := withScores } := by
  cases withScores with
  | false =>
      rw [scoresWord, if_neg (by decide), Handlers.rangeOptions, ← ho]
  | true =>
      have hupper : toUpper (utf8 "WITHSCORES") = utf8 "WITHSCORES" := by decide
      exact rangeOptions_flag (by decide) (by rw [hupper, hflag]) []

end options

/-! ### The reads by score -/

section reads
variable {min max : Bytes} {lo hi : S} {options : List Bytes} {o : Handlers.RangeOptions}

theorem direct_zrangebyscore (hmin : Handlers.parseMin min = some lo) (hmax : Handlers.parseMax max = some hi)
    (ho : Handlers.rangeOptions "zrangebyscore" errNotInteger Handlers.withScoresOrSkip .none options = .ok o) :
    ((Handlers.zrangebyscoreOp (key :: min :: max :: options)).direct e sc d).1 =
      .ok (membersValue o.withScores (rowsOf (limited o.cnt o.offset (scoreRange e.now d key lo hi)))) := by
  have hexec : (Cmd.zRangeByScore key lo hi o.offset o.cnt : Cmd S).exec e d = _ := exec_zRangeByScore ..
  rw [Handlers.zrangebyscoreOp, Handlers.minMax, hmin, hmax, ho, Proc.need, Proc.need, Proc.parsed, Proc.storeTyped,
    Proc.direct_callOr_ok hexec]
  rfl

theorem direct_zrevrangebyscore (hmin : Handlers.parseScoreBound min = some lo)
    (hmax : Handlers.parseScoreBound max = some hi)
    (ho : Handlers.rangeOptions "zrevrangebyscore" errNotInteger Handlers.withScoresOnly .none options = .ok o) :
    ((Handlers.zrevrangebyscoreOp (key :: max :: min :: options)).direct e sc d).1 =
      .ok (membersValue o.withScores (rowsOf (limited o.cnt o.offset (scoreRange e.now d key lo hi).reverse))) := by
  have hexec : (Cmd.zRevRangeByScore key lo hi o.offset o.cnt : Cmd S).exec e d = _ := exec_zRevRangeByScore ..
  rw [Handlers.zrevrangebyscoreOp, hmin, hmax, ho, Proc.need, Proc.need, Proc.parsed, Proc.storeTyped,
    Proc.direct_callOr_ok hexec]
  rfl

theorem direct_zrange_byscore {start stop : Bytes} (hlo : Handlers.parseScoreBound start = some lo)
    (hhi : Handlers.parseScoreBound stop = some hi)
    (ho : Handlers.rangeOptions "zrange" notInteger Handlers.zrangeFlag .none options = .ok o)
    (hkind : o.kind = .score) :
    ((Handlers.zrangeOp (key :: start :: stop :: options)).direct e sc d).1 =
      .ok (Handlers.orderedMembers o (rowsOf (limited o.cnt o.offset
        (scoreRange e.now d key (if o.rev then hi else lo) (if o.rev then lo else hi))))) := by
  rw [Handlers.zrangeOp, ho, Proc.parsed]
  dsimp only
  rw [if_pos hkind, hlo, hhi, Proc.need, Proc.need, Proc.storeTyped]
  have hexec (a b : S) : (Cmd.zRangeByScore key a b o.offset o.cnt : Cmd S).exec e d = _ := exec_zRangeByScore ..
  cases o.rev <;> rw [Proc.direct_callOr_ok (hexec _ _)] <;> rfl

end reads

section laws
variable {offset : ℤ} (h0 : 0 ≤ offset) (cnt : ℤ) (withScores : Bool)
include h0

end laws

/-! ### The reads by member -/

section lex
variable {first second : Bytes} {min max : LexBound} {offset cnt : ℤ}

end lex

/-! ### `ZRANGESTORE` -/

section store
variable {dst src : Bytes} {range : ZRangeStoreBy S} {rev : Bool} {offset cnt : ℤ} {L : List (ZMember S)}

end store

/-! ### All commands -/

/-- What a handler answers. -/
def answerOf (e : Env) (sc : ScriptCache) (d : DB S) (p : Proc S) : Except String Value := (p.direct e sc d).1

end Postkeys
