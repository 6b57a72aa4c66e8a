import Postkeys.Querier.Lists

/-! # Sorted set operations

Members are ordered by score and, within one score, by their bytes. -/

namespace Postkeys

open Relational

variable {S : Type}

/-- A member with its score. -/
structure ZMember (S : Type) where
  member : Bytes
  score : S

section
variable [Float64 S]

/-- `ORDER BY score, member`. -/
def scoreLe (a b : Bytes × S) : Bool :=
  if Float64.le a.2 b.2 then
    if Float64.le b.2 a.2 then decide (a.1 ≤ b.1) else true
  else false

/-- The members of a sorted set from the lowest score. -/
def zMembers (u : Table Bytes S) : List (ZMember S) :=
  (u.toList.insertionSort fun a b => scoreLe a b).map fun p => ⟨p.1, p.2⟩

/-- The rows of a sorted set from the lowest score. -/
def zRows (u : Table Bytes (Row S .kvZsets)) : List (Bytes × Row S .kvZsets) :=
  u.toList.insertionSort fun a b => scoreLe (a.1, a.2.val) (b.1, b.2.val)

/-- `score >= min AND score <= max`. -/
def scoreBetween (min max s : S) : Bool := Float64.le min s && Float64.le s max

/-! ### `ZADD` -/

/-- The flags of `ZADD`. -/
structure ZAddOptions where
  NX : Bool
  XX : Bool
  GT : Bool
  LT : Bool
  CH : Bool
deriving DecidableEq, Repr

/-- What `ZADD` does with one member. -/
inductive ZAddAction
  | skip | update | add
deriving DecidableEq, Repr

/-- The decision of the `ZADD` loop for a member with an old score. -/
def zAddAction (opts : ZAddOptions) (score : S) (oldScore : Option S) : ZAddAction :=
  match oldScore with
  | some old =>
      if opts.NX then .skip
      else if opts.GT && Float64.goLe score old then .skip
      else if opts.LT && Float64.goLe old score then .skip
      else if Float64.goEq score old then .skip
      else .update
  | none => if opts.XX then .skip else .add

/-- The `ZADD` loop over the remaining members. -/
def zAddLoop (key : Bytes) (opts : ZAddOptions) (added changed : ℤ) :
    List (ZMember S) → Op S (ℤ × ℤ)
  | [] => pure (added, changed)
  | m :: members => do
      let oldScore ← Program.query (selectAll .kvZsets key fun u => (u.row m.member).map Cell.val)
      match zAddAction opts m.score oldScore with
      | .skip => zAddLoop key opts added changed members
      | .update => do
          let _ ← Program.query (updateWhere .kvZsets key (fun _ x _ => decide (x = m.member))
            fun r => ⟨m.score, r.expiresAt⟩)
          zAddLoop key opts added (changed + 1) members
      | .add => do
          Program.query (insertRows .kvZsets key [(m.member, ⟨m.score, none⟩)])
          zAddLoop key opts (added + 1) changed members

def zAdd (key : Bytes) (members : List (ZMember S)) (opts : ZAddOptions) : Op S ℤ := do
  let key := encodeKey key
  requireType key .zset fun keyType =>
    if keyType = none ∧ opts.XX then pure 0
    else do
      setMeta key .zset none
      let n ← zAddLoop key opts 0 0 members
      pure (if opts.CH then n.1 + n.2 else n.1)

def zIncrBy (key : Bytes) (increment : S) (member : Bytes) : Op S S := do
  let key := encodeKey key
  lockKey key
  let _ ← Program.query (insertIgnore .kvMeta key [((), ⟨.zset, none⟩)])
  Program.query (Sql.onRows .kvZsets key fun _ u =>
    match u.row member with
    | none => .ok (u.put member ⟨increment, none⟩, increment)
    | some r =>
        match Float64.pgAdd r.val increment with
        | none => .error floatOutOfRange
        | some s => .ok (u.put member ⟨s, r.expiresAt⟩, s))

/-! ### Ranges -/

/-- The part of a list between two positions, negative ones counting from the end.  The limit is
computed as a `bigint`, also where no row qualifies. -/
def rangeByIndex {α : Type} (start stop : ℤ) (l : List α) : Except PgError (List α) :=
  let total : ℤ := l.length
  let startPos := max (if start < 0 then total + start else start) 0
  let stopPos := min (if stop < 0 then total + stop else stop) (total - 1)
  if stopPos - startPos < -(2 ^ 63) then .error ⟨"22003", "bigint out of range"⟩
  else if 0 < total ∧ startPos ≤ stopPos then
    .ok ((l.drop startPos.toNat).take (stopPos - startPos + 1).toNat)
  else .ok []

/-- The statement of `zRange` and `zRevRange`. -/
def selectRange (key : Bytes) (start stop : ℤ) (order : SortOrder) : Stm S (List (ZMember S)) :=
  selectLiveLimit .kvZsets key fun _ u => rangeByIndex start stop (order.apply (zMembers u))

def zRange (key : Bytes) (start stop : ℤ) : Op S (List (ZMember S)) :=
  Program.query (selectRange (encodeKey key) start stop .asc)

def zRevRange (key : Bytes) (start stop : ℤ) : Op S (List (ZMember S)) :=
  Program.query (selectRange (encodeKey key) start stop .desc)

/-- The members with a score in a range; without a positive count there is neither limit nor
offset. -/
def membersByScore (min max : S) (offset cnt : ℤ) (order : SortOrder) (u : Table Bytes S) :
    Except PgError (List (ZMember S)) :=
  let members := (order.apply (zMembers u)).filter fun m => scoreBetween min max m.score
  if 0 < cnt then limitOffset cnt offset members else .ok members

def zRangeByScore (key : Bytes) (min max : S) (offset cnt : ℤ) : Op S (List (ZMember S)) :=
  Program.queryRows (selectLiveLimit .kvZsets (encodeKey key) fun _ u =>
    membersByScore min max offset cnt .asc u)

def zRevRangeByScore (key : Bytes) (min max : S) (offset cnt : ℤ) : Op S (List (ZMember S)) :=
  Program.queryRows (selectLiveLimit .kvZsets (encodeKey key) fun _ u =>
    membersByScore min max offset cnt .desc u)

/-- An end of a lexicographic range. -/
inductive LexBound
  | finite (value : Bytes) (inclusive : Bool)
  | minusInfinity
  | plusInfinity
deriving DecidableEq, Repr

/-- The condition of a bound on a member. -/
def lexBoundClause (b : LexBound) (isLower : Bool) (member : Bytes) : Bool :=
  match b with
  | .minusInfinity => isLower
  | .plusInfinity => !isLower
  | .finite value inclusive =>
      if isLower then decide (value < member) || (inclusive && decide (member = value))
      else decide (member < value) || (inclusive && decide (member = value))

/-- The members within two bounds, by their bytes. -/
def membersByLex (min max : LexBound) (order : SortOrder) (u : Table Bytes S) : List (Bytes × S) :=
  order.apply (u.toList.filter fun p => lexBoundClause min true p.1 && lexBoundClause max false p.1)

/-- The statement of `zRangeByLex` and `zRevRangeByLex`. -/
def selectByLex (key : Bytes) (min max : LexBound) (offset cnt : ℤ) (order : SortOrder) :
    Stm S (List Bytes) :=
  selectLiveLimit .kvZsets key fun _ u =>
    let members := (membersByLex min max order u).map Prod.fst
    if 0 < cnt then limitOffset cnt offset members
    else if 0 < offset then .ok (members.drop offset.toNat)
    else .ok members

def zRangeByLex (key : Bytes) (min max : LexBound) (offset cnt : ℤ) : Op S (List Bytes) :=
  Program.query (selectByLex (encodeKey key) min max offset cnt .asc)

def zRevRangeByLex (key : Bytes) (min max : LexBound) (offset cnt : ℤ) : Op S (List Bytes) :=
  Program.query (selectByLex (encodeKey key) min max offset cnt .desc)

def zLexCount (key : Bytes) (min max : LexBound) : Op S ℤ :=
  Program.query (selectLive .kvZsets (encodeKey key) fun u =>
    ((membersByLex min max .asc u).length : ℤ))

/-- What `ZRANGESTORE` selects by. -/
inductive ZRangeStoreBy (S : Type)
  | index (start stop : ℤ)
  | score (min max : S)
  | lex (min max : LexBound)

/-- The query of `ZRANGESTORE`. -/
structure ZRangeStoreSpec (S : Type) where
  selection : ZRangeStoreBy S
  rev : Bool
  offset : ℤ
  count : ℤ

/-- The members a `ZRANGESTORE` copies. -/
def rangeStoreMembers (spec : ZRangeStoreSpec S) (u : Table Bytes S) :
    Except PgError (List (ZMember S)) :=
  let order := if spec.rev then SortOrder.desc else .asc
  match spec.selection with
  | .index start stop => rangeByIndex start stop (order.apply (zMembers u))
  | .score min max => membersByScore min max spec.offset spec.count order u
  | .lex min max =>
      let members := (membersByLex min max order u).map fun p => ⟨p.1, p.2⟩
      if 0 < spec.count then limitOffset spec.count spec.offset members else .ok members

def zRangeStore (dst src : Bytes) (spec : ZRangeStoreSpec S) : Op S ℤ := do
  let srcEnc := encodeKey src
  let dstEnc := encodeKey dst
  deleteKeyFromAllTables dstEnc
  let n ← Program.query do
    let members ← selectLiveLimit .kvZsets srcEnc fun _ u => rangeStoreMembers spec u
    insertRows .kvZsets dstEnc (members.map fun m => (m.member, ⟨m.score, none⟩))
    pure (members.length : ℤ)
  if 0 < n then do
    setMeta dstEnc .zset none
    pure n
  else pure n

/-! ### Queries -/

def zScore (key member : Bytes) : Op S (Option S) :=
  Program.query (selectLive .kvZsets (encodeKey key) fun u => u.row member)

def zCard (key : Bytes) : Op S ℤ := Program.query (selectLive .kvZsets (encodeKey key) count)

def zCount (key : Bytes) (min max : S) : Op S ℤ :=
  Program.query (selectLive .kvZsets (encodeKey key) fun u =>
    count (u.restrict fun _ s => scoreBetween min max s))

/-- The position of a member in a list of members. -/
def rankOf (member : Bytes) (l : List (ZMember S)) : Option ℤ :=
  (l.findIdx? fun m => m.member = member).map fun (i : ℕ) => (i : ℤ)

def zRank (key member : Bytes) : Op S (Option ℤ) :=
  Program.query (selectLive .kvZsets (encodeKey key) fun u => rankOf member (zMembers u))

def zRevRank (key member : Bytes) : Op S (Option ℤ) :=
  Program.query (selectLive .kvZsets (encodeKey key) fun u => rankOf member (zMembers u).reverse)

def zRandMember (key : Bytes) (cnt : ℤ) : Op S (List (ZMember S)) :=
  if cnt = 0 then pure []
  else do
    let rows ← randomRows .kvZsets (encodeKey key) cnt 24
    pure (rows.map fun r => ⟨r.1, r.2⟩)

/-- Where the loop of `matchGlob` stands: in the pattern, in the text, and, once a `*` has been
passed, where that `*` is and from where on the text behind it is tried. -/
structure GlobState where
  pi : ℕ
  si : ℕ
  star : Option (ℕ × ℕ)
deriving DecidableEq, Repr

/-- One round of the loop, or the answer.  At the end of the text only stars may be left. -/
def globStep (pattern s : Bytes) (c : GlobState) : GlobState ⊕ Bool :=
  match s[c.si]? with
  | none => .inr ((pattern.drop c.pi).dropWhile (· == 42)).isEmpty
  | some b =>
      if pattern[c.pi]? = some 63 ∨ pattern[c.pi]? = some b then .inl ⟨c.pi + 1, c.si + 1, c.star⟩
      else if pattern[c.pi]? = some 42 then .inl ⟨c.pi + 1, c.si, some (c.pi, c.si)⟩
      else
        match c.star with
        | some (starIdx, matchIdx) => .inl ⟨starIdx + 1, matchIdx + 1, some (starIdx, matchIdx + 1)⟩
        | none => .inr false

/-- The loop, `none` when the rounds are used up. -/
def globLoop (pattern s : Bytes) : ℕ → GlobState → Option Bool
  | 0, _ => none
  | n + 1, c =>
      match globStep pattern s c with
      | .inl c => globLoop pattern s n c
      | .inr answer => some answer

/-- Glob matching with `*` and `?`.  Between two restarts the loop advances in the text or in the
pattern, and every restart lets the last `*` swallow one byte more. -/
def matchGlob (pattern s : Bytes) : Bool :=
  (globLoop pattern s ((s.length + 2) * (s.length + pattern.length + 2)) ⟨0, 0, none⟩).getD false

def zScan (key : Bytes) (cursor : ℤ) (pattern : Bytes) (cnt : ℤ) : Op S (ℤ × List (ZMember S)) := do
  let rows ← Program.queryRows (selectLive .kvZsets (encodeKey key) zMembers)
  let allMembers := rows.filter fun m =>
    pattern = [] ∨ pattern = [42] ∨ matchGlob pattern m.member = true
  let total : ℤ := allMembers.length
  if total ≤ cursor then pure (0, [])
  else
    let stop := min (int64 (cursor + cnt)) total
    if cursor < 0 ∨ stop < cursor then
      Program.fail (.crash "runtime error: slice bounds out of range")
    else
      pure (if total ≤ stop then 0 else stop, (allMembers.take stop.toNat).drop cursor.toNat)

/-! ### Removal -/

def zRem (key : Bytes) (members : List Bytes) : Op S ℤ :=
  Program.query (deleteWhere .kvZsets (encodeKey key) fun m _ => m ∈ members)

def zRemRangeByScore (key : Bytes) (min max : S) : Op S ℤ :=
  Program.query (deleteWhere .kvZsets (encodeKey key) fun _ r => scoreBetween min max r.val)

def zRemRangeByRank (key : Bytes) (start stop : ℤ) : Op S ℤ := do
  let key := encodeKey key
  lockKey key
  let total ← Program.query (selectLive .kvZsets key count)
  let r := clampRange total start stop
  if r.1 > r.2 ∨ total ≤ r.1 then pure 0
  else
    Program.query (Sql.onRows .kvZsets key fun c u =>
      let members := ((zMembers (live c.now u)).drop r.1.toNat).take (r.2 - r.1 + 1).toNat
      .ok (u.restrict fun m _ => m ∉ members.map ZMember.member,
        count (u.restrict fun m _ => m ∈ members.map ZMember.member)))

/-- `ZPOPMIN` and `ZPOPMAX`: select the members, then delete them. -/
def zPop (key : Bytes) (cnt : ℤ) (order : SortOrder) : Op S (List (ZMember S)) := do
  let key := encodeKey key
  let members ← Program.queryRows (selectLiveLimit .kvZsets key fun _ u =>
    limitOffset cnt 0 (order.apply (zMembers u)))
  if members = [] then pure []
  else do
    let _ ← Program.query (deleteWhere .kvZsets key fun m _ => m ∈ members.map ZMember.member)
    pure members

def zPopMin (key : Bytes) (cnt : ℤ) : Op S (List (ZMember S)) := zPop key cnt .asc

def zPopMax (key : Bytes) (cnt : ℤ) : Op S (List (ZMember S)) := zPop key cnt .desc

/-- The statement of `zMPop`: up to `cnt` live members of the first sorted set that has any. -/
def zPopFirstN (keys : List Bytes) (order : SortOrder) (cnt : ℤ) :
    Stm S (Option (Bytes × List (ZMember S))) := do
  let winner ← firstLive .kvZsets keys
  match winner with
  | none => pure none
  | some k => do
      let rows ← popRows .kvZsets k fun now u => (order.apply (zRows (liveRows now u))).take cnt.toNat
      pure (if rows = [] then none else some (k, rows.map fun r => ⟨r.1, r.2.val⟩))

def zMPop (keys : List Bytes) (order : SortOrder) (cnt : ℤ) :
    Op S (Option (Bytes × List (ZMember S))) :=
  if keys = [] ∨ cnt ≤ 0 then pure none
  else do
    let popped ← Program.query (zPopFirstN (encodeKeys keys) order cnt)
    pure (popped.map fun p => (decodeKey p.1, p.2))

def zMPopMin (keys : List Bytes) (cnt : ℤ) : Op S (Option (Bytes × List (ZMember S))) :=
  zMPop keys .asc cnt

def zMPopMax (keys : List Bytes) (cnt : ℤ) : Op S (Option (Bytes × List (ZMember S))) :=
  zMPop keys .desc cnt

/-! ### `ZUNIONSTORE` and `ZINTERSTORE` -/

/-- How the scores of one member are combined. -/
inductive Aggregate
  | sum | min | max
deriving DecidableEq, Repr

/-- The final score of a member. -/
def aggregateScores (aggregate : Aggregate) (scores : List S) : S :=
  match aggregate with
  | .min => scores.tail.foldl (fun m s => if Float64.goLt s m then s else m) (scores.headD Float64.zero)
  | .max => scores.tail.foldl (fun m s => if Float64.goLt m s then s else m) (scores.headD Float64.zero)
  | .sum => scores.foldl Float64.add Float64.zero

/-- Collect the weighted scores of the remaining keys. -/
def zUnionLoop (scores : Table Bytes (List S)) : List Bytes → List S → Op S (Table Bytes (List S))
  | [], _ => pure scores
  | _ :: _, [] => Program.fail (.crash "runtime error: index out of range")
  | key :: keys, weight :: weights => do
      let members ← zRange key 0 (-1)
      zUnionLoop
        (members.foldl (fun m z =>
          m.put z.member ((m.row z.member).getD [] ++ [Float64.mul z.score weight])) scores)
        keys weights

/-- Keep the members the remaining keys have too, with their weighted scores. -/
def zInterLoop (scores : Table Bytes (List S)) : List Bytes → List S → Op S (Table Bytes (List S))
  | [], _ => pure scores
  | key :: keys, weights => do
      let members ← zRange key 0 (-1)
      let found := fun m => (members.find? fun z : ZMember S => z.member = m).map ZMember.score
      match weights with
      | [] =>
          -- the weight is read only for a member that stays
          if scores.mapRows (fun m _ => found m) = ∅ then zInterLoop ∅ keys []
          else Program.fail (.crash "runtime error: index out of range")
      | weight :: weights =>
          zInterLoop
            (scores.mapRows fun m l => (found m).map fun s => l ++ [Float64.mul s weight])
            keys weights

/-- The members of the aggregated map, in the order in which it is walked. -/
def aggregated (aggregate : Aggregate) (order : List ℕ) (scores : Table Bytes (List S)) :
    List (ZMember S) :=
  (Table.shuffle order scores.toList).map fun p => ⟨p.1, aggregateScores aggregate p.2⟩

/-- Replace a key by a sorted set with the aggregated scores. -/
def storeScores (destination : Bytes) (aggregate : Aggregate) (scores : Table Bytes (List S)) :
    Op S ℤ := do
  deleteKeyFromAllTables destination
  if scores = ∅ then pure 0
  else do
    let order ← Program.random
    zAdd destination (aggregated aggregate order scores) ⟨false, false, false, false, false⟩

/-- The weights of a command; all one by default. -/
def weightsOr (weights : List S) (keys : List Bytes) : List S :=
  if weights = [] then keys.map fun _ => Float64.one else weights

def zUnionStore (destination : Bytes) (keys : List Bytes) (weights : List S)
    (aggregate : Aggregate) : Op S ℤ := do
  let destination := encodeKey destination
  let keys := encodeKeys keys
  let scores ← zUnionLoop ∅ keys (weightsOr weights keys)
  storeScores destination aggregate scores

def zInterStore (destination : Bytes) (keys : List Bytes) (weights : List S)
    (aggregate : Aggregate) : Op S ℤ := do
  let destination := encodeKey destination
  match encodeKeys keys, weightsOr weights keys with
  | [], _ => pure 0
  | key :: keys, weights => do
      let firstMembers ← zRange key 0 (-1)
      match weights with
      | [] =>
          if firstMembers = [] then do
            let scores ← zInterLoop ∅ keys []
            storeScores destination aggregate scores
          else Program.fail (.crash "runtime error: index out of range")
      | weight :: weights => do
          let scores ← zInterLoop
            (firstMembers.foldl (fun m z => Table.put m z.member [Float64.mul z.score weight]) ∅)
            keys weights
          storeScores destination aggregate scores

end

end Postkeys
