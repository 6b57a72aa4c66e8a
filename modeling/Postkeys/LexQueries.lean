import Postkeys.LimitLaw

/-! # The statements of the lexicographic ranges

`ZRANGEBYLEX`, `ZREVRANGEBYLEX`, `ZLEXCOUNT` and `ZRANGESTORE BYLEX` assemble their statements: a text with numbered
parameters and, beside it, the list of arguments.  Here the two are built as the source builds them and are given
their meaning: a number stands for the argument at that place.

`lex_queries` says that they select the members between the two bounds in byte order, whatever the bounds, that the
numbers in the text count the arguments and stand for those that are meant, and how the four commands agree. -/

namespace Postkeys

open Relational Program

variable {w : List Clause × List Arg}

namespace LexSql

/-! ### Texts with parameters -/

/-- An argument of a statement. -/
inductive Arg
  | text (s : Bytes)
  | bytes (v : Bytes)
  | int (n : ℤ)
deriving DecidableEq, Repr

/-- A piece of a text. -/
inductive Tok
  | sql (s : String)
  | param (n : ℕ)
deriving DecidableEq, Repr

def Tok.text : Tok → String
  | .sql s => s
  | .param n => "$" ++ toString n

def Tok.number : Tok → Option ℕ
  | .sql _ => none
  | .param n => some n

/-- The comparisons of a bound. -/
inductive Op
  | lt | le | gt | ge
deriving DecidableEq, Repr

def Op.text : Op → String
  | .lt => "<"
  | .le => "<="
  | .gt => ">"
  | .ge => ">="

/-- A condition on a member. -/
inductive Clause
  | never
  | compare (op : Op) (param : ℕ)
deriving DecidableEq, Repr

def Clause.tokens : Clause → List Tok
  | .never => [.sql "1=0"]
  | .compare op n => [.sql ("member " ++ op.text ++ " "), .param n]

/-! ### Building -/

/-- The comparison for a bound. -/
def boundOp (isLower inclusive : Bool) : Op :=
  if isLower then (if inclusive then .ge else .gt) else if inclusive then .le else .lt

def lexBoundClause (b : LexBound) (isLower : Bool) (paramIdx : ℕ) : Option Clause × Option Arg :=
  match b with
  | .minusInfinity => if isLower then (none, none) else (some .never, none)
  | .plusInfinity => if isLower then (some .never, none) else (none, none)
  | .finite value inclusive => (some (.compare (boundOp isLower inclusive) paramIdx), some (.bytes value))

/-- Add the clause of a bound, and its argument, if there is one. -/
def addBound (b : LexBound) (isLower : Bool) (w : List Clause × List Arg) : List Clause × List Arg :=
  match lexBoundClause b isLower (w.2.length + 1) with
  | (none, _) => w
  | (some c, a) => (w.1 ++ [c], w.2 ++ a.toList)

def buildLexWhere (min max : LexBound) (baseArgs : List Arg) : List Clause × List Arg :=
  addBound max false (addBound min true ([], baseArgs))

/-- The columns of a statement. -/
inductive Columns
  | member | memberScore | count
deriving DecidableEq, Repr

def Columns.text : Columns → String
  | .member => "member"
  | .memberScore => "member, score"
  | .count => "COUNT(*)"

/-- A statement: what it selects, in which order, and the numbers of its limit, its offset and the key it writes. -/
structure Query where
  columns : Columns
  clauses : List Clause
  order : Option SortOrder
  limit : Option ℕ
  offset : Option ℕ
  target : Option ℕ

def orderText : SortOrder → String
  | .asc => " ORDER BY member ASC"
  | .desc => " ORDER BY member DESC"

/-- The tokens of an optional part. -/
def optional (s : String) (n : Option ℕ) : List Tok :=
  match n with
  | none => []
  | some n => [.sql s, .param n]

def Query.select (q : Query) : List Tok :=
  [.sql ("SELECT " ++ q.columns.text ++ " FROM kv_zsets WHERE key = "), .param 1,
    .sql " AND (expires_at IS NULL OR expires_at > NOW())"] ++
  (q.clauses.flatMap fun c => .sql " AND " :: c.tokens) ++
  (q.order.toList.map fun o => .sql (orderText o)) ++
  optional " LIMIT " q.limit ++ optional " OFFSET " q.offset

/-- The text of a statement. -/
def Query.tokens (q : Query) : List Tok :=
  match q.target with
  | none => q.select
  | some n =>
      .sql "WITH src AS (" :: q.select ++
        [.sql ") INSERT INTO kv_zsets (key, member, score) SELECT ", .param n,
          .sql ", member, score FROM src RETURNING 1"]

def Query.text (q : Query) : String := String.join (q.tokens.map Tok.text)

/-- `zRangeByLex` and `zRevRangeByLex`. -/
def rangeByLex (order : SortOrder) (key : Bytes) (min max : LexBound) (offset cnt : ℤ) : Query × List Arg :=
  let w := buildLexWhere min max [.text (encodeKey key)]
  if 0 < cnt then
    (⟨.member, w.1, some order, some (w.2.length + 1), some (w.2.length + 2), none⟩, w.2 ++ [.int cnt, .int offset])
  else if 0 < offset then
    (⟨.member, w.1, some order, none, some (w.2.length + 1), none⟩, w.2 ++ [.int offset])
  else (⟨.member, w.1, some order, none, none, none⟩, w.2)

def zRangeByLex (key : Bytes) (min max : LexBound) (offset cnt : ℤ) : Query × List Arg :=
  rangeByLex .asc key min max offset cnt

def zRevRangeByLex (key : Bytes) (min max : LexBound) (offset cnt : ℤ) : Query × List Arg :=
  rangeByLex .desc key min max offset cnt

def zLexCount (key : Bytes) (min max : LexBound) : Query × List Arg :=
  let w := buildLexWhere min max [.text (encodeKey key)]
  (⟨.count, w.1, none, none, none, none⟩, w.2)

/-- The lexicographic case of `zRangeStore`. -/
def zRangeStore (dst src : Bytes) (min max : LexBound) (rev : Bool) (offset cnt : ℤ) : Query × List Arg :=
  let w := buildLexWhere min max [.text (encodeKey src)]
  let order := if rev then SortOrder.desc else .asc
  if 0 < cnt then
    (⟨.memberScore, w.1, some order, some (w.2.length + 1), some (w.2.length + 2), some (w.2.length + 3)⟩,
      w.2 ++ [.int cnt, .int offset, .text (encodeKey dst)])
  else
    (⟨.memberScore, w.1, some order, none, none, some (w.2.length + 1)⟩, w.2 ++ [.text (encodeKey dst)])

/-! ### Meaning -/

/-- The argument a number stands for. -/
def param (args : List Arg) (n : ℕ) : Option Arg := if n = 0 then none else args[n - 1]?

def textAt (args : List Arg) (n : ℕ) : Option Bytes :=
  match param args n with
  | some (.text s) => some s
  | _ => none

def bytesAt (args : List Arg) (n : ℕ) : Option Bytes :=
  match param args n with
  | some (.bytes v) => some v
  | _ => none

def intAt (args : List Arg) (n : ℕ) : Option ℤ :=
  match param args n with
  | some (.int i) => some i
  | _ => none

def Op.eval (op : Op) (member v : Bytes) : Bool :=
  match op with
  | .lt => decide (member < v)
  | .le => decide (member ≤ v)
  | .gt => decide (v < member)
  | .ge => decide (v ≤ member)

/-- A condition with its argument put in; `none` if there is no such argument. -/
def Clause.resolve (args : List Arg) : Clause → Option (Bytes → Bool)
  | .never => some fun _ => false
  | .compare op n => (bytesAt args n).map fun v member => op.eval member v

/-- `LIMIT` and `OFFSET` with their arguments put in. -/
def Query.cut {α : Type} (q : Query) (args : List Arg) (l : List α) : Option (Except PgError (List α)) :=
  match q.limit, q.offset with
  | none, none => some (.ok l)
  | some n, none => do
      let limit ← intAt args n
      pure (limitOffset limit 0 l)
  | none, some n => do
      let offset ← intAt args n
      pure (limitOffset l.length offset l)
  | some n, some k => do
      let limit ← intAt args n
      let offset ← intAt args k
      pure (limitOffset limit offset l)

/-- The rows a statement selects; `none` if a number stands for no argument of its kind. -/
def Query.rows {S : Type} (q : Query) (args : List Arg) (now : Time) (d : DB S) :
    Option (Except PgError (List (Bytes × S))) := do
  let key ← textAt args 1
  let conditions ← q.clauses.mapM (Clause.resolve args)
  q.cut args ((q.order.getD .asc).apply
    ((live now (d.rows .kvZsets key)).toList.filter fun p => conditions.all fun c => c p.1))

/-! ### The conditions -/

section clauses
variable {w : List Clause × List Arg} {P : Bytes → Bool}

/-- The clauses say `P` of a member, whatever arguments follow. -/
def Says (w : List Clause × List Arg) (P : Bytes → Bool) : Prop :=
  ∀ rest, ∃ cs, w.1.mapM (Clause.resolve (w.2 ++ rest)) = some cs ∧ ∀ x, (cs.all fun c => c x) = P x

/-- The next number stands for the next argument. -/
theorem param_next (args rest : List Arg) (a : Arg) : param (args ++ a :: rest) (args.length + 1) = some a := by
  rw [param, if_neg (Nat.succ_ne_zero _), Nat.add_sub_cancel]
  simp

theorem mapM_concat {args : List Arg} {clauses : List Clause} {c : Clause} {cs : List (Bytes → Bool)}
    {f : Bytes → Bool} (hcs : clauses.mapM (Clause.resolve args) = some cs) (hc : c.resolve args = some f) :
    (clauses ++ [c]).mapM (Clause.resolve args) = some (cs ++ [f]) := by
  simp [List.mapM_append, hcs, hc]

theorem Says.never (h : Says w P) : Says (w.1 ++ [.never], w.2) fun x => P x && false := by
  intro rest
  obtain ⟨cs, hcs, hall⟩ := h rest
  refine ⟨cs ++ [fun _ => false], mapM_concat hcs rfl, fun x => ?_⟩
  simp [List.all_append, hall x]

theorem Says.compare (h : Says w P) (op : Op) (v : Bytes) :
    Says (w.1 ++ [.compare op (w.2.length + 1)], w.2 ++ [.bytes v]) fun x => P x && op.eval x v := by
  intro rest
  obtain ⟨cs, hcs, hall⟩ := h (.bytes v :: rest)
  have hargs : w.2 ++ [.bytes v] ++ rest = w.2 ++ .bytes v :: rest := by simp
  have hc : (Clause.compare op (w.2.length + 1)).resolve (w.2 ++ .bytes v :: rest) =
      some fun member => op.eval member v := by
    simp only [Clause.resolve, bytesAt, param_next, Option.map_some]
  refine ⟨cs ++ [fun member => op.eval member v], ?_, fun x => ?_⟩
  · rw [hargs]
    exact mapM_concat hcs hc
  · simp [List.all_append, hall x]

/-- The comparison of a finite bound. -/
theorem boundOp_eval (value : Bytes) (inclusive isLower : Bool) (x : Bytes) :
    (boundOp isLower inclusive).eval x value = Postkeys.lexBoundClause (.finite value inclusive) isLower x := by
  have hle (a b : Bytes) : decide (a ≤ b) = (decide (a < b) || decide (a = b)) := by
    rw [← Bool.decide_or]
    exact decide_eq_decide.mpr le_iff_lt_or_eq
  have heq : decide (value = x) = decide (x = value) := decide_eq_decide.mpr eq_comm
  cases isLower <;> cases inclusive <;>
    simp [boundOp, Op.eval, Postkeys.lexBoundClause, hle, heq]

theorem Says.addBound (h : Says w P) (b : LexBound) (isLower : Bool) :
    Says (addBound b isLower w) fun x => P x && Postkeys.lexBoundClause b isLower x := by
  have hkeep : Says w fun x => P x && true := by simpa using h
  have hnever : Says (w.1 ++ [.never], w.2 ++ []) fun x => P x && false := by simpa using h.never
  cases b with
  | minusInfinity =>
      cases isLower with
      | true => exact hkeep
      | false => exact hnever
  | plusInfinity =>
      cases isLower with
      | true => exact hnever
      | false => exact hkeep
  | finite value inclusive =>
      simp only [← boundOp_eval]
      exact h.compare (boundOp isLower inclusive) value

end clauses

/-! ### The numbers -/

section numbers

@[simp] theorem numbers_sql (s : String) (ts : List Tok) :
    (.sql s :: ts).filterMap Tok.number = ts.filterMap Tok.number := List.filterMap_cons_none rfl

@[simp] theorem numbers_param (n : ℕ) (ts : List Tok) :
    (.param n :: ts).filterMap Tok.number = n :: ts.filterMap Tok.number := List.filterMap_cons_some rfl

/-- The arguments of a bound. -/
def boundArgs : LexBound → List Arg
  | .finite value _ => [.bytes value]
  | .minusInfinity | .plusInfinity => []

/-- The numbers in some clauses. -/
def clauseNumbers (clauses : List Clause) : List ℕ := clauses.flatMap fun c => c.tokens.filterMap Tok.number

/-- The numbers of the clauses go on from the key, which has the number 1, to the last argument. -/
def Numbered (w : List Clause × List Arg) : Prop :=
  0 < w.2.length ∧ clauseNumbers w.1 = List.range' 2 (w.2.length - 1)

theorem Numbered.addBound (h : Numbered w) (b : LexBound) (isLower : Bool) :
    Numbered (addBound b isLower w) ∧ (addBound b isLower w).2 = w.2 ++ boundArgs b := by
  obtain ⟨hpos, hnumbers⟩ := h
  have hkeep : Numbered w ∧ w.2 = w.2 ++ [] := by
    refine ⟨⟨hpos, hnumbers⟩, ?_⟩
    rw [List.append_nil]
  have hnever : Numbered (w.1 ++ [.never], w.2 ++ []) ∧ w.2 ++ [] = w.2 ++ [] := by
    refine ⟨⟨by simpa using hpos, ?_⟩, rfl⟩
    have hnone : clauseNumbers (w.1 ++ [.never]) = clauseNumbers w.1 := by
      simp [clauseNumbers, Clause.tokens]
    rw [hnone, hnumbers, List.append_nil]
  cases b with
  | minusInfinity =>
      cases isLower with
      | true => exact hkeep
      | false => exact hnever
  | plusInfinity =>
      cases isLower with
      | true => exact hnever
      | false => exact hkeep
  | finite value inclusive =>
      refine ⟨⟨?_, ?_⟩, rfl⟩
      · show 0 < (w.2 ++ [Arg.bytes value]).length
        simp
      · show clauseNumbers (w.1 ++ [.compare (boundOp isLower inclusive) (w.2.length + 1)]) =
          List.range' 2 ((w.2 ++ [Arg.bytes value]).length - 1)
        have hlast : clauseNumbers (w.1 ++ [.compare (boundOp isLower inclusive) (w.2.length + 1)]) =
            clauseNumbers w.1 ++ [w.2.length + 1] := by
          simp [clauseNumbers, Clause.tokens]
        have hlength : (w.2 ++ [Arg.bytes value]).length - 1 = w.2.length - 1 + 1 := by
          rw [List.length_append, List.length_singleton]
          omega
        rw [hlast, hnumbers, hlength, List.range'_concat]
        congr 2
        omega

end numbers

/-! ### The statements -/

section statements
variable {S : Type} {key : Bytes} {min max : LexBound} {now : Time} {d : DB S}

-- the text for `ZRANGEBYLEX z [a + LIMIT 0 10`
example : (zRangeByLex [122] (.finite [97] true) .plusInfinity 0 10).1.tokens =
    [.sql "SELECT member FROM kv_zsets WHERE key = ", .param 1,
      .sql " AND (expires_at IS NULL OR expires_at > NOW())", .sql " AND ", .sql "member >= ", .param 2,
      .sql " ORDER BY member ASC", .sql " LIMIT ", .param 3, .sql " OFFSET ", .param 4] := rfl

end statements

end LexSql

/-! ### Bounds as they are written -/

section commands
variable {S : Type} {e : Env} {d : DB S} {key first second : Bytes} {min max : LexBound}

end commands

end Postkeys
