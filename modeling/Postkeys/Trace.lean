import Postkeys.AuthGate

/-! # The trace log

With tracing on, every command that is read is written to the log, credentials replaced.  The
replacement looks for the first argument `AUTH` of a `HELLO`; the two functions that read the
options of a `HELLO` walk over them instead.

The line does not depend on a password exactly when the level does not trace the command, or the
command is `AUTH`, or no argument before the option `AUTH` is itself that word
(`traceCommand_hides_iff`). -/

namespace Postkeys

open Relational

/-! ### Texts of the log -/

/-- Whether a valid text has a control character other than white space, or the replacement
character. -/
def hasControl : Bytes → Bool
  | 0xC2 :: b :: s => decide (0x80 ≤ b ∧ b ≤ 0x9F) || hasControl (b :: s)
  | 0xEF :: 0xBF :: 0xBD :: _ => true
  | b :: s => decide (b < 0x20 ∧ b ≠ 9 ∧ b ≠ 10 ∧ b ≠ 13 ∨ b = 0x7F) || hasControl s
  | [] => false

/-- `isBinaryString`. -/
def isBinaryString (s : Bytes) : Bool := !validString s || hasControl s

/-- The verb `%.1f` on a quotient: a tie goes to the even digit. -/
def formatTenths (n unit : ℕ) : Bytes :=
  let tenths := 10 * n / unit
  let rest := 10 * n % unit
  let tenths := if unit < 2 * rest ∨ 2 * rest = unit ∧ tenths % 2 = 1 then tenths + 1 else tenths
  formatNat (tenths / 10) ++ utf8 "." ++ formatNat (tenths % 10)

/-- `formatTraceSize`. -/
def formatTraceSize (size : ℕ) : Bytes :=
  if size < 1024 then formatNat size ++ utf8 "B"
  else if size < 1024 * 1024 then formatTenths size 1024 ++ utf8 "KB"
  else formatTenths size (1024 * 1024) ++ utf8 "MB"

/-- `formatTraceString`. -/
def formatTraceString (s : Bytes) : Bytes :=
  if isBinaryString s then utf8 "<binary:" ++ formatTraceSize s.length ++ utf8 ">"
  else if 100 < s.length then
    utf8 "\"" ++ s.take 100 ++ utf8 "...\" (" ++ formatTraceSize s.length ++ utf8 ")"
  else utf8 "\"" ++ s ++ utf8 "\""

mutual

/-- `formatRESPValue`. -/
def formatRESPValue : Value → Bytes
  | ⟨type, str, num, bulk, array, _, _⟩ =>
      match type with
      | .array => utf8 "[" ++ (utf8 ", ").intercalate (formatRESPValues array) ++ utf8 "]"
      | .simpleString => utf8 "+" ++ str
      | .error => utf8 "-" ++ str
      | .integer => utf8 ":" ++ formatInt num
      | .null => utf8 "(nil)"
      | _ => formatTraceString bulk

def formatRESPValues : List Value → List Bytes
  | [] => []
  | v :: vs => formatRESPValue v :: formatRESPValues vs

end

theorem formatRESPValues_eq (vs : List Value) : formatRESPValues vs = vs.map formatRESPValue := by
  induction vs with
  | nil => rfl
  | cons v vs ih => rw [formatRESPValues, ih, List.map_cons]

/-! ### Redaction -/

/-- What stands in the log for a credential. -/
def redacted : Value := .bulkOf (utf8 "<redacted>")

/-- The arguments of a `HELLO`, with the two after the first `AUTH` replaced. -/
def redactHello : List Value → List Value
  | [] => []
  | a :: rest =>
      if toUpper a.bulk = utf8 "AUTH" then a :: ((rest.take 2).map (fun _ => redacted) ++ rest.drop 2)
      else a :: redactHello rest

/-- `redactSensitiveArgs`. -/
def redactSensitiveArgs (cmd : Value) : Value :=
  match cmd.type, cmd.array with
  | .array, name :: args =>
      if toUpper name.bulk = utf8 "AUTH" then
        if args = [] then cmd else .arr (name :: args.map fun _ => redacted)
      else if toUpper name.bulk = utf8 "HELLO" then .arr (name :: redactHello args)
      else cmd
  | _, _ => cmd

/-- The commands that are traced from the first level on. -/
def importantCommands : List String :=
  ["AUTH", "FLUSHDB", "FLUSHALL", "SHUTDOWN", "DEBUG", "CONFIG", "CLUSTER", "BGREWRITEAOF", "BGSAVE",
    "SAVE", "SLAVEOF", "REPLICAOF", "FAILOVER", "ACL", "SLOWLOG", "MIGRATE", "RESTORE", "DUMP"]

/-- The commands that only the third level traces. -/
def frequentCommands : List String :=
  ["GET", "SET", "MGET", "MSET", "SETEX", "SETNX", "GETSET", "HGET", "HSET", "HMGET", "HMSET",
    "HGETALL", "HDEL", "HEXISTS", "HLEN", "HKEYS", "HVALS", "LPUSH", "RPUSH", "LPOP", "RPOP", "LRANGE",
    "LLEN", "LINDEX", "LSET", "SADD", "SREM", "SMEMBERS", "SISMEMBER", "SCARD", "SPOP", "SRANDMEMBER",
    "ZADD", "ZREM", "ZRANGE", "ZRANGEBYSCORE", "ZRANK", "ZSCORE", "ZCARD", "ZINCRBY", "INCR", "DECR",
    "INCRBY", "DECRBY", "INCRBYFLOAT", "EXPIRE", "TTL", "PTTL", "EXPIREAT", "PEXPIRE", "PEXPIREAT",
    "PERSIST", "EXISTS", "DEL", "TYPE", "KEYS", "SCAN", "HSCAN", "SSCAN", "ZSCAN", "PING", "ECHO",
    "TIME", "DBSIZE", "PFADD", "PFCOUNT", "PFMERGE"]

/-- `getCommandLevel`. -/
def getCommandLevel (cmdName : Bytes) : ℤ :=
  if cmdName ∈ importantCommands.map utf8 then 1
  else if cmdName ∈ frequentCommands.map utf8 then 3
  else 2

/-- The name of a command, empty for anything else. -/
def commandName (cmd : Value) : Bytes :=
  match cmd.type, cmd.array with
  | .array, name :: _ => toUpper name.bulk
  | _, _ => []

/-- `traceCommand`: the line it writes, if any. -/
def traceCommand (traceLevel : ℤ) (remoteAddr : Bytes) (cmd : Value) : Option Bytes :=
  if traceLevel ≤ 0 then none
  else if getCommandLevel (commandName cmd) ≤ traceLevel then
    some (utf8 "[TRACE] " ++ remoteAddr ++ utf8 " <- " ++ formatRESPValue (redactSensitiveArgs cmd))
  else none

/-! ### The arguments taken as passwords -/

/-- The places of the passwords among the options of a `HELLO`. -/
def optionPasswords : List Value → List ℕ
  | [] => []
  | opt :: rest =>
      if toUpper opt.bulk = utf8 "AUTH" then
        match rest with
        | _ :: _ :: rest => 2 :: (optionPasswords rest).map (· + 3)
        | _ => []
      else if toUpper opt.bulk = utf8 "SETNAME" then
        match rest with
        | _ :: rest => (optionPasswords rest).map (· + 2)
        | [] => []
      else []

/-- The places of the passwords that `hello` reads: it takes the first argument for the version. -/
def helloPasswords (args : List Value) : List ℕ := (optionPasswords (args.drop 1)).map (· + 1)

/-- The place of the password that `CheckHelloAuth` reads, if there is one: it takes the first
argument for the version only if it is a number. -/
def checkedPassword (args : List Value) : Option ℕ :=
  match args with
  | [] => none
  | a :: rest =>
      if (parseInt a.bulk).isSome then (optionPasswords rest).head?.map (· + 1)
      else (optionPasswords args).head?

/-- The places of the arguments that the server takes as passwords. -/
def passwordArgs (cmdName : Bytes) (args : List Value) : List ℕ :=
  if cmdName = utf8 "AUTH" then (if args = [] then [] else [args.length - 1])
  else if cmdName = utf8 "HELLO" then helloPasswords args ++ (checkedPassword args).toList
  else []

/-! ### What the line depends on -/

/-- A password stands two after the word `AUTH`. -/
theorem optionPasswords_split {options : List Value} {i : ℕ} (h : i ∈ optionPasswords options) :
    ∃ pre a u p post, options = pre ++ a :: u :: p :: post ∧ toUpper a.bulk = utf8 "AUTH" ∧
      i = pre.length + 2 := by
  -- on the number of options: the recursion skips two or three of them
  induction hn : options.length using Nat.strong_induction_on generalizing options i with
  | _ n ih =>
    rw [optionPasswords.eq_def] at h
    match options with
    | [] => simp at h
    | opt :: rest =>
      dsimp only at h
      split_ifs at h with hopt hname
      · match rest with
        | [] => simp at h
        | [_] => simp at h
        | user :: password :: rest =>
          rcases List.mem_cons.mp h with rfl | h
          · exact ⟨[], opt, user, password, rest, rfl, hopt, rfl⟩
          · obtain ⟨j, hj, rfl⟩ := List.mem_map.mp h
            obtain ⟨pre, a, u, p, post, rfl, ha, rfl⟩ := ih rest.length (by simp at hn; omega) hj rfl
            exact ⟨opt :: user :: password :: pre, a, u, p, post, rfl, ha, rfl⟩
      · match rest with
        | [] => simp at h
        | client :: rest =>
          obtain ⟨j, hj, rfl⟩ := List.mem_map.mp h
          obtain ⟨pre, a, u, p, post, rfl, ha, rfl⟩ := ih rest.length (by simp at hn; omega) hj rfl
          exact ⟨opt :: client :: pre, a, u, p, post, rfl, ha, rfl⟩
      · simp at h

theorem passwordArgs_split {args : List Value} {i : ℕ}
    (h : i ∈ helloPasswords args ++ (checkedPassword args).toList) :
    ∃ pre a u p post, args = pre ++ a :: u :: p :: post ∧ toUpper a.bulk = utf8 "AUTH" ∧
      i = pre.length + 2 := by
  have hskip {a : Value} {rest : List Value} {j : ℕ} (hj : j ∈ optionPasswords rest) :
      ∃ pre b u p post, a :: rest = pre ++ b :: u :: p :: post ∧ toUpper b.bulk = utf8 "AUTH" ∧
        j + 1 = pre.length + 2 := by
    obtain ⟨pre, b, u, p, post, rfl, hb, rfl⟩ := optionPasswords_split hj
    exact ⟨a :: pre, b, u, p, post, rfl, hb, rfl⟩
  cases args with
  | nil => simp [helloPasswords, checkedPassword, optionPasswords] at h
  | cons a rest =>
      rw [List.mem_append] at h
      rcases h with h | h
      · obtain ⟨j, hj, rfl⟩ := List.mem_map.mp h
        exact hskip hj
      · rw [Option.mem_toList, checkedPassword] at h
        split at h
        · obtain ⟨j, hj, rfl⟩ := Option.map_eq_some_iff.mp h
          exact hskip (List.mem_of_mem_head? hj)
        · exact optionPasswords_split (List.mem_of_mem_head? h)

theorem redactHello_of_first {pre : List Value} {a : Value} (hpre : ∀ b ∈ pre, toUpper b.bulk ≠ utf8 "AUTH")
    (ha : toUpper a.bulk = utf8 "AUTH") (rest : List Value) :
    redactHello (pre ++ a :: rest) =
      pre ++ a :: ((rest.take 2).map (fun _ => redacted) ++ rest.drop 2) := by
  induction pre with
  | nil => rw [List.nil_append, redactHello, if_pos ha, List.nil_append]
  | cons b pre ih =>
      rw [List.cons_append, redactHello, if_neg (hpre b List.mem_cons_self),
        ih fun c hc => hpre c (List.mem_cons_of_mem b hc), List.cons_append]

/-- After an earlier `AUTH` the argument two after an option `AUTH` is left as it is. -/
theorem redactHello_keeps {pre : List Value} (hpre : ∃ b ∈ pre, toUpper b.bulk = utf8 "AUTH")
    (a u : Value) (post : List Value) :
    ∃ front, ∀ p, redactHello (pre ++ a :: u :: p :: post) = front ++ p :: post := by
  induction pre with
  | nil => simp at hpre
  | cons b pre ih =>
      by_cases hb : toUpper b.bulk = utf8 "AUTH"
      · refine ⟨b :: (((pre ++ [a, u]).take 2).map (fun _ => redacted) ++ (pre ++ [a, u]).drop 2), fun p => ?_⟩
        have hsplit : pre ++ a :: u :: p :: post = (pre ++ [a, u]) ++ p :: post := by simp
        have hlength : 2 ≤ (pre ++ [a, u]).length := by simp
        rw [List.cons_append, redactHello, if_pos hb, hsplit, List.take_append_of_le_length hlength,
          List.drop_append_of_le_length hlength]
        simp
      · obtain ⟨c, hc, hauth⟩ := hpre
        have hmem : c ∈ pre := by
          rcases List.mem_cons.mp hc with rfl | hc
          · exact absurd hauth hb
          · exact hc
        obtain ⟨front, hfront⟩ := ih ⟨c, hmem, hauth⟩
        exact ⟨b :: front, fun p => by rw [List.cons_append, redactHello, if_neg hb, hfront p]; rfl⟩

theorem intercalate_around (sep : Bytes) (front back : List Bytes) :
    ∃ left right : Bytes, ∀ x, sep.intercalate (front ++ x :: back) = left ++ x ++ right := by
  have hsuffix : ∃ right : Bytes, ∀ x, sep.intercalate (x :: back) = x ++ right := by
    cases back with
    | nil => exact ⟨[], fun x => by simp [List.intercalate]⟩
    | cons y back => exact ⟨sep ++ sep.intercalate (y :: back), fun x => by simp [List.intercalate]⟩
  induction front with
  | nil =>
      obtain ⟨right, hright⟩ := hsuffix
      exact ⟨[], right, fun x => by rw [List.nil_append, hright, List.nil_append]⟩
  | cons y front ih =>
      obtain ⟨left, right, h⟩ := ih
      refine ⟨y ++ sep ++ left, right, fun x => ?_⟩
      have hcons : sep.intercalate (y :: (front ++ x :: back)) =
          y ++ sep ++ sep.intercalate (front ++ x :: back) := by
        cases front <;> simp [List.intercalate]
      rw [List.cons_append, hcons, h x]
      simp

/-- An argument that is not replaced shows in the line. -/
theorem formatRESPValue_shows (front back : List Value) :
    formatRESPValue (.arr (front ++ .bulkOf (utf8 "a") :: back)) ≠
      formatRESPValue (.arr (front ++ .bulkOf (utf8 "b") :: back)) := by
  obtain ⟨left, right, h⟩ :=
    intercalate_around (utf8 ", ") (front.map formatRESPValue) (back.map formatRESPValue)
  have hshow (v : Value) : formatRESPValue (.arr (front ++ v :: back)) =
      (utf8 "[" ++ left) ++ formatRESPValue v ++ (right ++ utf8 "]") := by
    have harr (vs : List Value) : formatRESPValue (.arr vs) =
        utf8 "[" ++ (utf8 ", ").intercalate (formatRESPValues vs) ++ utf8 "]" := rfl
    rw [harr, formatRESPValues_eq, List.map_append, List.map_cons, h]
    simp
  rw [hshow, hshow]
  intro heq
  have hmiddle := List.append_cancel_left (List.append_cancel_right heq)
  exact absurd hmiddle (by decide)

theorem getCommandLevel_pos (cmdName : Bytes) : 1 ≤ getCommandLevel cmdName := by
  unfold getCommandLevel
  split
  · omega
  · split <;> omega

/-- Two commands of one name give one line if nothing is traced, or if they look the same after
redaction. -/
theorem traceCommand_eq_iff (traceLevel : ℤ) (remoteAddr : Bytes) (name : Value) (as bs : List Value) :
    traceCommand traceLevel remoteAddr (.arr (name :: as)) =
        traceCommand traceLevel remoteAddr (.arr (name :: bs)) ↔
      traceLevel < getCommandLevel (toUpper name.bulk) ∨
        formatRESPValue (redactSensitiveArgs (.arr (name :: as))) =
          formatRESPValue (redactSensitiveArgs (.arr (name :: bs))) := by
  have hpos := getCommandLevel_pos (toUpper name.bulk)
  have hname (vs : List Value) : commandName (.arr (name :: vs)) = toUpper name.bulk := rfl
  unfold traceCommand
  rw [hname, hname]
  by_cases hlow : traceLevel < getCommandLevel (toUpper name.bulk)
  · rw [if_neg (not_le.mpr hlow), if_neg (not_le.mpr hlow)]
    exact iff_of_true (by split <;> rfl) (Or.inl hlow)
  · rw [if_neg (by omega), if_pos (not_lt.mp hlow), if_neg (by omega), if_pos (not_lt.mp hlow)]
    simp [hlow]

/-- **The trace log and passwords.**  The line for a command is the same whatever stands in the
place of a password exactly if the command is not traced, or is `AUTH`, or no argument before the
option `AUTH` of the password is itself the word `AUTH`. -/
theorem traceCommand_hides_iff (traceLevel : ℤ) (remoteAddr : Bytes) (name : Value)
    (args : List Value) (i : ℕ) (hi : i ∈ passwordArgs (toUpper name.bulk) args) :
    (∀ p q, traceCommand traceLevel remoteAddr (.arr (name :: args.set i p)) =
        traceCommand traceLevel remoteAddr (.arr (name :: args.set i q))) ↔
      traceLevel < getCommandLevel (toUpper name.bulk) ∨ toUpper name.bulk = utf8 "AUTH" ∨
        ∀ a ∈ args.take (i - 2), toUpper a.bulk ≠ utf8 "AUTH" := by
  have hredact (vs : List Value) : redactSensitiveArgs (.arr (name :: vs)) =
      if toUpper name.bulk = utf8 "AUTH" then
        if vs = [] then .arr (name :: vs) else .arr (name :: vs.map fun _ => redacted)
      else if toUpper name.bulk = utf8 "HELLO" then .arr (name :: redactHello vs)
      else .arr (name :: vs) := rfl
  simp only [traceCommand_eq_iff, hredact]
  by_cases hlow : traceLevel < getCommandLevel (toUpper name.bulk)
  · simp [hlow]
  by_cases hauth : toUpper name.bulk = utf8 "AUTH"
  · -- `AUTH`: everything after the name is replaced
    refine iff_of_true (fun p q => Or.inr ?_) (Or.inr (Or.inl hauth))
    have hmap (v : Value) : (args.set i v).map (fun _ => redacted) = args.map fun _ => redacted := by
      rw [List.map_const', List.map_const', List.length_set]
    have hnil (v : Value) : (args.set i v = []) ↔ args = [] := by simp
    rw [if_pos hauth, if_pos hauth, hmap, hmap]
    by_cases h : args = []
    · subst h; rfl
    · rw [if_neg (mt (hnil p).mp h), if_neg (mt (hnil q).mp h)]
  · have hhello : toUpper name.bulk = utf8 "HELLO" := by
      by_contra hother
      rw [passwordArgs, if_neg hauth, if_neg hother] at hi
      cases hi
    rw [passwordArgs, if_neg hauth, if_pos hhello] at hi
    obtain ⟨pre, a, u, p₀, post, rfl, ha, rfl⟩ := passwordArgs_split hi
    have hset (v : Value) : (pre ++ a :: u :: p₀ :: post).set (pre.length + 2) v =
        pre ++ a :: u :: v :: post := by simp
    have htake : (pre ++ a :: u :: p₀ :: post).take (pre.length + 2 - 2) = pre := by simp
    simp only [hset, htake, if_pos hhello, hlow, hauth, false_or]
    constructor
    · intro hsame b hb hword
      obtain ⟨front, hfront⟩ := redactHello_keeps ⟨b, hb, hword⟩ a u post
      have hab := hsame (.bulkOf (utf8 "a")) (.bulkOf (utf8 "b"))
      rw [hfront, hfront] at hab
      exact formatRESPValue_shows (name :: front) post hab
    · intro hfirst p q
      rw [redactHello_of_first hfirst ha, redactHello_of_first hfirst ha]
      rfl

/-- The option of a plain `HELLO 3 AUTH user secret`. -/
theorem traceCommand_hides_hello :
    3 ∈ passwordArgs (utf8 "HELLO") (["3", "AUTH", "user", "secret"].map fun w => .bulkOf (utf8 w)) ∧
    ∀ p q, traceCommand 3 (utf8 "127.0.0.1:5000") (.arr (.bulkOf (utf8 "hello") ::
        (["3", "AUTH", "user", "secret"].map fun w => .bulkOf (utf8 w)).set 3 p)) =
      traceCommand 3 (utf8 "127.0.0.1:5000") (.arr (.bulkOf (utf8 "hello") ::
        (["3", "AUTH", "user", "secret"].map fun w => .bulkOf (utf8 w)).set 3 q)) :=
  ⟨by decide,
    (traceCommand_hides_iff 3 _ (.bulkOf (utf8 "hello")) _ 3 (by decide)).mpr
      (Or.inr (Or.inr (by decide)))⟩

/-- A client that calls itself `AUTH` has its password in the log. -/
theorem traceCommand_leaks :
    5 ∈ passwordArgs (utf8 "HELLO")
      (["3", "SETNAME", "AUTH", "AUTH", "user", "secret"].map fun w => .bulkOf (utf8 w)) ∧
    traceCommand 2 (utf8 "127.0.0.1:5000") (request ["HELLO", "3", "SETNAME", "AUTH", "AUTH", "user", "secret"]) ≠
      traceCommand 2 (utf8 "127.0.0.1:5000") (request ["HELLO", "3", "SETNAME", "AUTH", "AUTH", "user", "hunter"]) := by
  decide

end Postkeys
