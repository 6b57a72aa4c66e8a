import Postkeys.Handlers.Lists

/-! # Sorted set commands -/

namespace Postkeys.Handlers

open Relational Proc

variable {S : Type} [GoFloat S]

/-! ### Bounds -/

/-- A score, exclusive ones moved by `shift`; `inf` and `negInf` are what the two infinities stand
for. -/
def parseBound (inf negInf : S) (shift : S → S) (s : Bytes) : Option S :=
  if s = utf8 "-inf" then some negInf
  else if s = utf8 "+inf" ∨ s = utf8 "inf" then some inf
  else
    match s with
    | 40 :: s => (Float64.parseFloat s).map shift
    | s => Float64.parseFloat s

/-- `parseScoreBound`: an exclusive bound is moved up, whichever end of the range it is. -/
def parseScoreBound : Bytes → Option S :=
  parseBound GoFloat.inf GoFloat.negInf fun x => Float64.add x GoFloat.tiny

/-- The lower bound of `ZRANGEBYSCORE`, `ZREMRANGEBYSCORE` and `ZCOUNT`. -/
def parseMin : Bytes → Option S :=
  parseBound GoFloat.big GoFloat.negBig fun x => Float64.add x GoFloat.tiny

/-- The upper bound of `ZRANGEBYSCORE`, `ZREMRANGEBYSCORE` and `ZCOUNT`. -/
def parseMax : Bytes → Option S :=
  parseBound GoFloat.big GoFloat.negBig fun x => GoFloat.sub x GoFloat.tiny

def errBound : String := "min or max is not a float"

/-- Both bounds of a command, in the order in which they are given. -/
def minMax (min max : Bytes) (next : S → S → Proc S) : Proc S :=
  need (parseMin min) "ERR min value is not a float" fun min =>
    need (parseMax max) "ERR max value is not a float" fun max => next min max

def parseLexBound (s : Bytes) : Option LexBound :=
  if s = utf8 "-" then some .minusInfinity
  else if s = utf8 "+" then some .plusInfinity
  else
    match s with
    | 91 :: value => some (.finite value true)
    | 40 :: value => some (.finite value false)
    | _ => none

def errLexBound : String := "ERR min or max not valid string range item"

def parseLexLimit : List Bytes → Except Value (ℤ × ℤ)
  | [] => .ok (0, -1)
  | [opt, offset, cnt] =>
      if toUpper opt ≠ utf8 "LIMIT" then .error syntaxError
      else
        match parseInt offset, parseInt cnt with
        | some offset, some cnt => .ok (offset, cnt)
        | _, _ => .error (.err (utf8 errNotInteger))
  | _ => .error syntaxError

/-! ### `ZADD` -/

/-- The flags at the front of `ZADD`, and what follows them. -/
def zaddFlags (o : ZAddOptions) : List Bytes → ZAddOptions × List Bytes
  | [] => (o, [])
  | a :: rest =>
      if toUpper a = utf8 "NX" then zaddFlags { o with NX := true } rest
      else if toUpper a = utf8 "XX" then zaddFlags { o with XX := true } rest
      else if toUpper a = utf8 "GT" then zaddFlags { o with GT := true } rest
      else if toUpper a = utf8 "LT" then zaddFlags { o with LT := true } rest
      else if toUpper a = utf8 "CH" then zaddFlags { o with CH := true } rest
      else (o, a :: rest)

/-- The scores and members of `ZADD`; `none` if a score is not a float. -/
def zaddMembers : List Bytes → Option (List (ZMember S))
  | score :: member :: rest => do
      let score ← Float64.parseFloat score
      let members ← zaddMembers rest
      pure (⟨member, score⟩ :: members)
  | _ => some []

def zaddOp : List Bytes → Proc S
  | key :: a :: b :: rest =>
      let parsed := zaddFlags ⟨false, false, false, false, false⟩ (a :: b :: rest)
      let o := parsed.1
      if o.NX && o.XX then err "ERR XX and NX options at the same time are not compatible"
      else if o.GT && o.LT then err "ERR GT and LT options at the same time are not compatible"
      else if (o.GT || o.LT) && o.NX then
        err "ERR GT/LT and NX options at the same time are not compatible"
      else if parsed.2.length = 0 ∨ parsed.2.length % 2 ≠ 0 then wrongArgs "zadd"
      else need (zaddMembers parsed.2) "ERR value is not a valid float" fun members =>
        answerTyped (.zAdd key members o)
  | _ => wrongArgs "zadd"

def zincrbyOp : List Bytes → Proc S
  | [key, increment, member] =>
      need (Float64.parseFloat increment) "ERR value is not a valid float" fun increment =>
        answerTyped (.zIncrBy key increment member)
  | _ => wrongArgs "zincrby"

/-! ### Ranges -/

/-- What `ZRANGESTORE` selects by. -/
inductive RangeKind
  | index | score | lex
deriving DecidableEq, Repr

/-- The options of the range commands. -/
structure RangeOptions where
  withScores : Bool
  kind : RangeKind
  rev : Bool
  offset : ℤ
  cnt : ℤ

/-- No options given. -/
def RangeOptions.none : RangeOptions := ⟨false, .index, false, 0, -1⟩

/-- The options of a range command: `LIMIT` with its two numbers, and what `flag` knows. -/
def rangeOptions (cmd message : String) (flag : RangeOptions → Bytes → Except Value RangeOptions)
    (o : RangeOptions) : List Bytes → Except Value RangeOptions
  | [] => .ok o
  | a :: rest =>
      if toUpper a = utf8 "LIMIT" then
        match rest with
        | offset :: cnt :: rest =>
            match parseInt offset, parseInt cnt with
            | some offset, some cnt =>
                rangeOptions cmd message flag { o with offset := offset, cnt := cnt } rest
            | _, _ => .error (.err (utf8 message))
        | _ => .error (.errWrongArgs cmd)
      else
        match flag o (toUpper a) with
        | .ok o => rangeOptions cmd message flag o rest
        | .error v => .error v

/-- The flags of `ZRANGE`; an unknown one is ignored. -/
def zrangeFlag (o : RangeOptions) (opt : Bytes) : Except Value RangeOptions :=
  if opt = utf8 "WITHSCORES" then .ok { o with withScores := true }
  else if opt = utf8 "BYSCORE" then .ok { o with kind := .score }
  else if opt = utf8 "BYLEX" then .error (.err (utf8 "ERR BYLEX not supported"))
  else if opt = utf8 "REV" then .ok { o with rev := true }
  else .ok o

/-- Members as they come, or reversed. -/
def orderedMembers (o : RangeOptions) (ms : List (ZMember S)) : Value :=
  membersValue o.withScores (if o.rev then ms.reverse else ms)

/-- `ZRANGE`; with `REV` the range is taken from the front and then reversed. -/
def zrangeOp : List Bytes → Proc S
  | key :: start :: stop :: options =>
      parsed (rangeOptions "zrange" notInteger zrangeFlag .none options) fun o =>
        if o.kind = .score then
          need (parseScoreBound start) errBound fun min => need (parseScoreBound stop) errBound fun max =>
            let bounds := if o.rev then (max, min) else (min, max)
            storeTyped (.zRangeByScore key bounds.1 bounds.2 o.offset o.cnt) fun r =>
              reply (orderedMembers o r.asMembers)
        else
          need (parseInt start) notInteger fun start => need (parseInt stop) notInteger fun stop =>
            storeTyped (.zRange key start stop) fun r => reply (orderedMembers o r.asMembers)
  | _ => wrongArgs "zrange"

def zrevrangeOp : List Bytes → Proc S
  | key :: start :: stop :: options =>
      need (parseInt start) notInteger fun start => need (parseInt stop) notInteger fun stop =>
        if options.all fun a => decide (toUpper a = utf8 "WITHSCORES") then
          storeTyped (.zRevRange key start stop) fun r =>
            reply (membersValue (decide (options ≠ [])) r.asMembers)
        else reply syntaxError
  | _ => wrongArgs "zrevrange"

/-- The flag of `ZREVRANGEBYSCORE`; an unknown one is an error. -/
def withScoresOnly (o : RangeOptions) (opt : Bytes) : Except Value RangeOptions :=
  if opt = utf8 "WITHSCORES" then .ok { o with withScores := true } else .error syntaxError

/-- The flag of `ZRANGEBYSCORE`; an unknown one is ignored. -/
def withScoresOrSkip (o : RangeOptions) (opt : Bytes) : Except Value RangeOptions :=
  if opt = utf8 "WITHSCORES" then .ok { o with withScores := true } else .ok o

/-- `ZREVRANGEBYSCORE` takes the upper bound first. -/
def zrevrangebyscoreOp : List Bytes → Proc S
  | key :: max :: min :: options =>
      need (parseScoreBound max) errBound fun max => need (parseScoreBound min) errBound fun min =>
        parsed (rangeOptions "zrevrangebyscore" errNotInteger withScoresOnly .none options) fun o =>
          storeTyped (.zRevRangeByScore key min max o.offset o.cnt) fun r =>
            reply (membersValue o.withScores r.asMembers)
  | _ => wrongArgs "zrevrangebyscore"

def zrangebyscoreOp : List Bytes → Proc S
  | key :: min :: max :: options =>
      minMax min max fun min max =>
        parsed (rangeOptions "zrangebyscore" errNotInteger withScoresOrSkip .none options) fun o =>
          storeTyped (.zRangeByScore key min max o.offset o.cnt) fun r =>
            reply (membersValue o.withScores r.asMembers)
  | _ => wrongArgs "zrangebyscore"

/-- `ZRANGEBYLEX` and `ZREVRANGEBYLEX`: the first bound given and the second. -/
def lexRangeOp (cmd : String) (command : Bytes → LexBound → LexBound → ℤ → ℤ → Cmd S) :
    List Bytes → Proc S
  | key :: first :: second :: limit =>
      need (parseLexBound first) errLexBound fun first =>
        need (parseLexBound second) errLexBound fun second =>
          parsed (parseLexLimit limit) fun l => answerTyped (command key first second l.1 l.2)
  | _ => wrongArgs cmd

def zrangebylexOp : List Bytes → Proc S := lexRangeOp "zrangebylex" .zRangeByLex

def zrevrangebylexOp : List Bytes → Proc S :=
  lexRangeOp "zrevrangebylex" fun key max min => .zRevRangeByLex key min max

def zlexcountOp : List Bytes → Proc S
  | [key, min, max] =>
      need (parseLexBound min) errLexBound fun min => need (parseLexBound max) errLexBound fun max =>
        answerTyped (.zLexCount key min max)
  | _ => wrongArgs "zlexcount"

/-- The flags of `ZRANGESTORE`; an unknown one is an error. -/
def zrangestoreFlag (o : RangeOptions) (opt : Bytes) : Except Value RangeOptions :=
  if opt = utf8 "BYSCORE" then .ok { o with kind := .score }
  else if opt = utf8 "BYLEX" then .ok { o with kind := .lex }
  else if opt = utf8 "REV" then .ok { o with rev := true }
  else .error syntaxError

/-- Two bounds, exchanged if the range is reversed. -/
def swapIf {α : Type} (rev : Bool) (a b : α) (f : α → α → ZRangeStoreBy S) : ZRangeStoreBy S :=
  if rev then f b a else f a b

/-- What `ZRANGESTORE` selects. -/
def rangeSelection (o : RangeOptions) (start stop : Bytes) (next : ZRangeStoreBy S → Proc S) : Proc S :=
  match o.kind with
  | .index =>
      need (parseInt start) errNotInteger fun start => need (parseInt stop) errNotInteger fun stop =>
        next (.index start stop)
  | .score =>
      need (parseScoreBound start) errBound fun min => need (parseScoreBound stop) errBound fun max =>
        next (swapIf o.rev min max .score)
  | .lex =>
      need (parseLexBound start) errLexBound fun min => need (parseLexBound stop) errLexBound fun max =>
        next (swapIf o.rev min max .lex)

def zrangestoreOp : List Bytes → Proc S
  | dst :: src :: start :: stop :: options =>
      parsed (rangeOptions "zrangestore" errNotInteger zrangestoreFlag .none options) fun o =>
        rangeSelection o start stop fun selection =>
          answerTyped (.zRangeStore dst src ⟨selection, o.rev, o.offset, o.cnt⟩)
  | _ => wrongArgs "zrangestore"

/-! ### Members -/

def zscoreOp : List Bytes → Proc S
  | [key, member] => answerTyped (.zScore key member)
  | _ => wrongArgs "zscore"

def zremOp : List Bytes → Proc S
  | key :: member :: members => answerTyped (.zRem key (member :: members))
  | _ => wrongArgs "zrem"

def zcardOp : List Bytes → Proc S
  | [key] => answerTyped (.zCard key)
  | _ => wrongArgs "zcard"

/-- `ZRANK` and `ZREVRANK`; what follows the member is ignored. -/
def zrankOp : List Bytes → Proc S
  | key :: member :: _ => answerTyped (.zRank key member)
  | _ => wrongArgs "zrank"

def zrevrankOp : List Bytes → Proc S
  | key :: member :: _ => answerTyped (.zRevRank key member)
  | _ => wrongArgs "zrevrank"

def zcountOp : List Bytes → Proc S
  | [key, min, max] => minMax min max fun min max => answerTyped (.zCount key min max)
  | _ => wrongArgs "zcount"

def zremrangebyscoreOp : List Bytes → Proc S
  | [key, min, max] => minMax min max fun min max => answerTyped (.zRemRangeByScore key min max)
  | _ => wrongArgs "zremrangebyscore"

def zremrangebyrankOp : List Bytes → Proc S
  | [key, start, stop] =>
      need (parseInt start) errNotInteger fun start => need (parseInt stop) errNotInteger fun stop =>
        answerTyped (.zRemRangeByRank key start stop)
  | _ => wrongArgs "zremrangebyrank"

/-- `ZRANDMEMBER`: one member, or an array of them. -/
def zrandmemberOp : List Bytes → Proc S
  | [key] => storeTyped (.zRandMember key 1) fun r =>
      reply (optBulk (r.asMembers.head?.map ZMember.member))
  | [key, cnt] =>
      need (parseInt cnt) errNotInteger fun cnt =>
        storeTyped (.zRandMember key cnt) fun r => reply (membersValue false r.asMembers)
  | [key, cnt, withScores] =>
      need (parseInt cnt) errNotInteger fun cnt =>
        if toUpper withScores = utf8 "WITHSCORES" then
          storeTyped (.zRandMember key cnt) fun r => reply (membersValue true r.asMembers)
        else reply syntaxError
  | _ => wrongArgs "zrandmember"

/-! ### Pops -/

/-- `ZPOPMIN` and `ZPOPMAX`; what follows the count is ignored. -/
def zpopOp (cmd : String) (command : Bytes → ℤ → Cmd S) : List Bytes → Proc S
  | [] => wrongArgs cmd
  | [key] => answerTyped (command key 1)
  | key :: cnt :: _ =>
      need ((parseInt cnt).filter (0 ≤ ·)) errNotInteger fun cnt => answerTyped (command key cnt)

def zpopminOp : List Bytes → Proc S := zpopOp "zpopmin" .zPopMin

def zpopmaxOp : List Bytes → Proc S := zpopOp "zpopmax" .zPopMax

/-- The two ends of a sorted set. -/
def minMaxSides : List Bytes := [utf8 "MIN", utf8 "MAX"]

/-- `doZMPop` without the call. -/
def zmpopCmd (keys : List Bytes) (side : Bytes) (cnt : ℤ) : Cmd S :=
  if side = utf8 "MIN" then .zMPopMin keys cnt else .zMPopMax keys cnt

def zmpopOp (args : List Bytes) : Proc S :=
  parseMPopHead args minMaxSides fun keys side cnt => answer (zmpopCmd keys side cnt)

def bzmpopOp (polls : ℕ) : List Bytes → Proc S := blockingMPop "bzmpop" minMaxSides zmpopCmd polls

/-! ### `ZSCAN` -/

/-- The options of `ZSCAN`: the pattern and the count; an unknown option is ignored. -/
def zscanOptions (pattern : Bytes) (cnt : ℤ) : List Bytes → Except Value (Bytes × ℤ)
  | [] => .ok (pattern, cnt)
  | a :: rest =>
      if toUpper a = utf8 "MATCH" then
        match rest with
        | pattern :: rest => zscanOptions pattern cnt rest
        | [] => .error syntaxError
      else if toUpper a = utf8 "COUNT" then
        match rest with
        | n :: rest =>
            match parseInt n with
            | none => .error (.err (utf8 errNotInteger))
            | some n => zscanOptions pattern n rest
        | [] => .error syntaxError
      else zscanOptions pattern cnt rest

def zscanOp : List Bytes → Proc S
  | key :: cursor :: options =>
      need (parseInt cursor) errNotInteger fun cursor =>
        parsed (zscanOptions (utf8 "*") 10 options) fun o => answerTyped (.zScan key cursor o.1 o.2)
  | _ => wrongArgs "zscan"

/-! ### `ZUNIONSTORE` and `ZINTERSTORE` -/

def aggregateOf (s : Bytes) : Option Aggregate :=
  if s = utf8 "SUM" then some .sum
  else if s = utf8 "MIN" then some .min
  else if s = utf8 "MAX" then some .max
  else none

/-- The options of `ZUNIONSTORE` and `ZINTERSTORE`: `pending` weights are still to come.  Weights
that are missing stay zero, and an unknown option is ignored. -/
def zstoreOptions (numKeys pending : ℕ) (weights : List S) (aggregate : Aggregate) :
    List Bytes → Except Value (List S × Aggregate)
  | [] => .ok (weights, aggregate)
  | a :: rest =>
      if 0 < pending then
        match Float64.parseFloat a with
        | none => .error (.err (utf8 "ERR weight value is not a float"))
        | some w =>
            zstoreOptions numKeys (pending - 1) (weights.set (numKeys - pending) w) aggregate rest
      else if toUpper a = utf8 "WEIGHTS" then
        zstoreOptions numKeys numKeys (List.replicate numKeys Float64.zero) aggregate rest
      else if toUpper a = utf8 "AGGREGATE" then
        match rest with
        | [] => .ok (weights, aggregate)
        | s :: rest =>
            match aggregateOf (toUpper s) with
            | none => .error syntaxError
            | some aggregate => zstoreOptions numKeys 0 weights aggregate rest
      else zstoreOptions numKeys 0 weights aggregate rest

/-- `ZUNIONSTORE` and `ZINTERSTORE`.  The sum `numkeys + 2` may overflow. -/
def zstoreOp (cmd : String) (command : Bytes → List Bytes → List S → Aggregate → Cmd S) :
    List Bytes → Proc S
  | destination :: numkeys :: key :: keys =>
      need ((parseInt numkeys).filter (0 < ·)) errNotInteger fun n =>
        let rest := key :: keys
        if (rest.length : ℤ) + 2 < int64 (n + 2) then wrongArgs cmd
        else if (rest.length : ℤ) < n then crash "runtime error: makeslice: len out of range"
        else parsed (zstoreOptions n.toNat 0 [] .sum (rest.drop n.toNat)) fun o =>
          answerTyped (command destination (rest.take n.toNat) o.1 o.2)
  | _ => wrongArgs cmd

def zunionstoreOp : List Bytes → Proc S := zstoreOp "zunionstore" .zUnionStore

def zinterstoreOp : List Bytes → Proc S := zstoreOp "zinterstore" .zInterStore

end Postkeys.Handlers
