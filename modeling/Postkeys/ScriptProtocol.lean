import Postkeys.Effects.Kinds
import Postkeys.Handlers.Dispatch

/-! # Scripts and the protocol of their caller

The protocol of a client comes with its context into the commands of its scripts.  `HGETALL` answers
a RESP3 client with a map, of which `respToLua` makes nil; a RESP2 client's script gets a table.
`script_protocol_iff` says when a script runs the same for both: exactly if no `HGETALL` of it comes to
a hash or a missing key. -/

namespace Postkeys.Handlers

open Relational Proc

variable {S : Type}

/-! ### What a script does -/

/-- What `respToLua` keeps of a reply: nothing of the types that it does not know. -/
def handed (v : Value) : Option Value :=
  if v.type ∈ [.simpleString, .error, .integer, .bulkString, .array, .null] then some v else none

/-- One call of a script: the transaction before it, the words, and what the script is handed. -/
structure ScriptCall (S : Type) where
  before : Tx Bytes Tab.Sub (Row S)
  words : List Bytes
  result : Option Value

/-- A call as the script sees it. -/
def ScriptCall.seen (c : ScriptCall S) : List Bytes × Option Value := (c.words, c.result)

section calls
variable [Float64 S]

/-- The calls of a script that runs in a transaction; a panic ends the process. -/
def Script.calls (execute : Bytes → List Bytes → Proc S) (e : Env) :
    Script → ScriptCache → Tx Bytes Tab.Sub (Row S) → List (ScriptCall S)
  | .call _ words next, sc, tx =>
      match ((executeRedisCommand execute words).inTx sc).eval e tx with
      | (.ok (.ok v, sc'), tx') => ⟨tx, words, handed v⟩ :: calls execute e (next v) sc' tx'
      | _ => [⟨tx, words, none⟩]
  | _, _, _ => []

/-- Go on with the reply of a handler, unless it has ended the process. -/
def resume (k : Value → Proc S) (r : Except String Value × ScriptCache) :
    Op S (Except String Value × ScriptCache) :=
  match r with
  | (.ok v, sc) => (k v).inTx sc
  | (.error m, sc) => pure (.error m, sc)

theorem inTx_andThen (k : Value → Proc S) (p : Proc S) (sc : ScriptCache) :
    (p.andThen k).inTx sc = p.inTx sc >>= resume k := by
  induction p generalizing sc with
  | reply v => rfl
  | crash m => rfl
  | call c next ih =>
      rw [andThen, inTx, inTx, bind_assoc]
      refine congrArg _ (funext fun r => ?_)
      rcases r with (⟨context, x⟩ | m | m) | r
      · exact ih _ sc
      · exact ih _ sc
      · rfl
      · exact ih _ sc
  | read next ih => exact congrArg Program.read (funext fun r => ih r sc)
  | scripts update next ih => exact ih sc (update sc)
  | atomic keys body next _ ih =>
      rw [andThen, inTx, inTx, bind_assoc]
      refine congrArg _ (funext fun r => ?_)
      cases r with
      | error f => exact ih _ sc
      | ok u =>
          dsimp only
          rw [bind_assoc]
          refine congrArg _ (funext fun r => ?_)
          rcases r with ⟨m | v, sc⟩
          · rfl
          · exact ih v sc

end calls

/-! ### `HGETALL` in a transaction -/

/-- `HGETALL` finds a hash, or no key, in this state of a transaction. -/
def FindsHash (e : Env) (tx : Tx Bytes Tab.Sub (Row S)) (key : Bytes) : Prop :=
  tx.aborted = false ∧ tx.faults.headD none = none ∧ tx.faults.tail.headD none = none ∧
    TypeOk e.now tx.view (encodeKey key) .hash

section hgetall
variable {e : Env} {tx : Tx Bytes Tab.Sub (Row S)} {key : Bytes}

theorem eval_read {β : Type} {s : Stm S β} {b : β} (hs : s e.ctx tx.view = .ok (tx.view, b))
    (haborted : tx.aborted = false) (hfault : tx.faults.headD none = none) :
    (Program.query s : Op S β).eval e tx = (.ok b, ⟨tx.view, false, tx.faults.tail⟩) := by
  simp only [Program.query, Program.eval, Tx.request, haborted, hfault, hs, Program.orFail]
  rfl

theorem eval_refused {β : Type} (tx : Tx Bytes Tab.Sub (Row S)) (s : Stm S β)
    (h : tx.aborted = true ∨ tx.faults.headD none ≠ none) :
    ∃ f tx', (Program.query s : Op S β).eval e tx = (.error f, tx') := by
  simp only [Program.query, Program.eval, Tx.request]
  by_cases haborted : tx.aborted = true
  · rw [if_pos haborted]
    exact ⟨_, _, rfl⟩
  · rw [if_neg haborted]
    obtain ⟨x, hx⟩ := Option.ne_none_iff_exists'.mp (h.resolve_left haborted)
    rw [hx]
    exact ⟨_, _, rfl⟩

theorem eval_getKeyType (haborted : tx.aborted = false) (hfault : tx.faults.headD none = none) (k : Bytes) :
    (getKeyType k : Op S _).eval e tx = (.ok (liveType e.now tx.view k), ⟨tx.view, false, tx.faults.tail⟩) :=
  eval_read rfl haborted hfault

theorem eval_readTypeCheck (haborted : tx.aborted = false) (hfault : tx.faults.headD none = none)
    {k : Bytes} {T : KeyType} (htype : TypeOk e.now tx.view k T) :
    (readTypeCheck k T : Op S _).eval e tx = (.ok (), ⟨tx.view, false, tx.faults.tail⟩) := by
  rw [readTypeCheck, Program.eval_bind_ok (eval_getKeyType haborted hfault k)]
  rcases htype with h | h <;> rw [h]
  · rfl
  · dsimp only
    rw [if_pos rfl]
    rfl

theorem hGetAll_found (h : FindsHash e tx key) :
    ∃ r tx', (hGetAll key : Op S _).eval e tx = (.ok r, tx') := by
  obtain ⟨haborted, hfirst, hsecond, htype⟩ := h
  rw [hGetAll, Program.eval_bind_ok (eval_readTypeCheck haborted hfirst htype),
    Program.eval_bind_ok (eval_read rfl rfl hsecond)]
  exact ⟨_, _, rfl⟩

theorem hGetAll_not_found (h : ¬ FindsHash e tx key) :
    ∃ f tx', (hGetAll key : Op S _).eval e tx = (.error f, tx') := by
  rw [hGetAll]
  by_cases hrefused : tx.aborted = true ∨ tx.faults.headD none ≠ none
  · obtain ⟨f, tx', heval⟩ := eval_refused (e := e) tx (selectLive .kvMeta (encodeKey key) fun u => u.row ())
      hrefused
    exact ⟨f, tx', Program.eval_bind_error (Program.eval_bind_error heval)⟩
  rw [not_or, not_not, Bool.not_eq_true] at hrefused
  obtain ⟨haborted, hfirst⟩ := hrefused
  by_cases htype : TypeOk e.now tx.view (encodeKey key) .hash
  · rw [Program.eval_bind_ok (eval_readTypeCheck haborted hfirst htype)]
    obtain ⟨f, tx', heval⟩ := eval_refused (e := e) ⟨tx.view, false, tx.faults.tail⟩
      (selectLiveRows .kvHashes (encodeKey key)) (Or.inr fun hnone => h ⟨haborted, hfirst, hnone, htype⟩)
    exact ⟨f, tx', Program.eval_bind_error heval⟩
  · obtain ⟨T, hT⟩ := Option.ne_none_iff_exists'.mp fun hnone => htype (Or.inl hnone)
    have hcheck : (readTypeCheck (encodeKey key) .hash : Op S _).eval e tx =
        (.error (.error errWrongType), ⟨tx.view, false, tx.faults.tail⟩) := by
      rw [readTypeCheck, Program.eval_bind_ok (eval_getKeyType haborted hfirst _), hT]
      dsimp only
      rw [if_neg fun heq : T = .hash => htype (Or.inr (heq ▸ hT))]
      rfl
    exact ⟨_, _, Program.eval_bind_error hcheck⟩

variable [Float64 S] {sc : ScriptCache}

/-- A key of another type, or an error, is answered to everybody alike. -/
theorem hgetallOp_not_found (h : ¬ FindsHash e tx key) (p q : ℤ) :
    ((hgetallOp p [key] : Proc S).inTx sc).eval e tx = ((hgetallOp q [key]).inTx sc).eval e tx := by
  obtain ⟨f, tx', heval⟩ := hGetAll_not_found h
  have hop : (Cmd.hGetAll key : Cmd S).op.attempt.eval e tx = (.ok (.error f), tx') := by
    rw [Program.eval_attempt, Cmd.op, Program.eval_map, heval]
    rfl
  rw [hgetallOp, hgetallOp, store, store, callOr, callOr, inTx, inTx, Program.eval_bind_ok hop,
    Program.eval_bind_ok hop]
  cases f <;> rfl

theorem hgetallOp_found (sc : ScriptCache) (h : FindsHash e tx key) :
    ∃ fields tx', ∀ p : ℤ, ((hgetallOp p [key] : Proc S).inTx sc).eval e tx =
      (.ok (.ok (if 3 ≤ p then .mapVal fields else flatFields fields), sc), tx') := by
  obtain ⟨r, tx', heval⟩ := hGetAll_found h
  have hop : ∃ r, (Cmd.hGetAll key : Cmd S).op.attempt.eval e tx = (.ok (.ok r), tx') := by
    rw [Program.eval_attempt, Cmd.op, Program.eval_map, heval]
    exact ⟨_, rfl⟩
  obtain ⟨r, hop⟩ := hop
  refine ⟨Table.shuffle e.reading.random r.asFields.toList, tx', fun p => ?_⟩
  rw [hgetallOp, store, callOr, inTx, Program.eval_bind_ok hop]
  rfl

end hgetall

/-! ### Two runs -/

section runs
variable [GoFloat S] {e : Env} {sc : ScriptCache} {tx : Tx Bytes Tab.Sub (Row S)}

/-- The call is a `HGETALL` that finds a hash or no key. -/
def ReadsHash (e : Env) (tx : Tx Bytes Tab.Sub (Row S)) (words : List Bytes) : Prop :=
  ∃ name key, words = [name, key] ∧ toUpper name = utf8 "HGETALL" ∧ FindsHash e tx key

/-- The other commands do not look at the protocol. -/
theorem executeInScript_other (cfg : Config) {name : Bytes} (hname : name ≠ utf8 "HGETALL") (p q : ℤ)
    (args : List Bytes) :
    (executeInScript cfg p name args : Proc S) = executeInScript cfg q name args := by
  have hsplit : ∃ pre post, ∀ p, (plainCommands cfg p true : List (String × (List Bytes → Proc S))) =
      pre ++ ("HGETALL", hgetallOp p) :: post :=
    ⟨(plainCommands cfg 2 true).take 37, (plainCommands cfg 2 true).drop 38, fun p => rfl⟩
  obtain ⟨pre, post, hsplit⟩ := hsplit
  have hfind (p : ℤ) : findHandler (plainCommands cfg p true : List (String × (List Bytes → Proc S))) name =
      findHandler (pre ++ post) name := by
    rw [hsplit, findHandler, findHandler, List.find?_append, List.find?_append,
      List.find?_cons_of_neg (by simpa using fun heq => hname heq.symm)]
  rw [executeInScript, executeInScript, dispatch, dispatch, hfind, hfind]

theorem executeInScript_hgetall (cfg : Config) (p : ℤ) (args : List Bytes) :
    (executeInScript cfg p (utf8 "HGETALL") args : Proc S) = hgetallOp p args := rfl

theorem redisCommand_same (cfg : Config) {words : List Bytes} (h : ¬ ReadsHash e tx words) (p q : ℤ) :
    ((executeRedisCommand (executeInScript cfg p) words).inTx sc).eval e tx =
      ((executeRedisCommand (executeInScript cfg q) words).inTx sc).eval e tx := by
  cases words with
  | nil => rfl
  | cons name args =>
      rw [executeRedisCommand, executeRedisCommand]
      split_ifs with hbanned
      · rfl
      by_cases hname : toUpper name = utf8 "HGETALL"
      · rw [hname, executeInScript_hgetall, executeInScript_hgetall]
        match args with
        | [] => rfl
        | [key] => exact hgetallOp_not_found (fun hfound => h ⟨name, key, rfl, hname, hfound⟩) p q
        | _ :: _ :: _ => rfl
      · rw [executeInScript_other cfg hname p q]

theorem redisCommand_reads (cfg : Config) (sc : ScriptCache) {words : List Bytes} (h : ReadsHash e tx words) :
    ∃ fields tx', ∀ p : ℤ, ((executeRedisCommand (executeInScript cfg p) words).inTx sc).eval e tx =
      (.ok (.ok (if 3 ≤ p then .mapVal fields else flatFields fields), sc), tx') := by
  obtain ⟨name, key, rfl, hname, hfound⟩ := h
  obtain ⟨fields, tx', heval⟩ := hgetallOp_found sc hfound
  refine ⟨fields, tx', fun p => ?_⟩
  rw [executeRedisCommand, hname, if_neg (by decide), executeInScript_hgetall, heval p]

/-- **When a script runs the same for both protocols**: it performs the same calls, is handed the
same Lua values and leaves the same transaction for a RESP2 and a RESP3 client exactly if no call of it
is a `HGETALL` that finds a hash or no key. -/
theorem script_protocol_iff (cfg : Config) (e : Env) (sha : Bytes) (s : Script) (callErr : Bytes)
    (sc : ScriptCache) (tx : Tx Bytes Tab.Sub (Row S)) :
    ((s.calls (executeInScript cfg 2) e sc tx).map ScriptCall.seen =
        (s.calls (executeInScript cfg 3) e sc tx).map ScriptCall.seen ∧
      (((runLua (executeInScript cfg 2) sha s callErr).inTx sc).eval e tx).2 =
        (((runLua (executeInScript cfg 3) sha s callErr).inTx sc).eval e tx).2) ↔
      ∀ c ∈ s.calls (executeInScript cfg 2) e sc tx, ¬ ReadsHash e c.before c.words := by
  induction s generalizing callErr sc tx with
  | returns v => exact ⟨fun _ c hc => absurd hc List.not_mem_nil, fun _ => ⟨rfl, rfl⟩⟩
  | fails message => exact ⟨fun _ c hc => absurd hc List.not_mem_nil, fun _ => ⟨rfl, rfl⟩⟩
  | call isProtected words next ih =>
      rw [Script.calls, Script.calls, runLua, runLua, inTx_andThen, inTx_andThen, Program.eval_bind,
        Program.eval_bind]
      by_cases hreads : ReadsHash e tx words
      · -- the table of the one is the nil of the other
        obtain ⟨fields, tx', heval⟩ := redisCommand_reads cfg sc hreads
        rw [heval 2, heval 3]
        refine iff_of_false (fun h => ?_) fun h => h _ (List.mem_cons_self ..) hreads
        have hhead := congrArg (fun l => l.head?.map Prod.snd) h.1
        cases hhead
      · rw [redisCommand_same cfg hreads 2 3]
        rcases ((executeRedisCommand (executeInScript cfg 3) words).inTx sc).eval e tx with ⟨r, tx'⟩
        match r with
        | .error f => exact iff_of_true ⟨rfl, rfl⟩ fun c hc => List.mem_singleton.mp hc ▸ hreads
        | .ok (.error m, sc') => exact iff_of_true ⟨rfl, rfl⟩ fun c hc => List.mem_singleton.mp hc ▸ hreads
        | .ok (.ok v, sc') =>
            dsimp only
            rw [List.map_cons, List.map_cons, List.forall_mem_cons, List.cons.injEq, and_iff_right rfl,
              and_iff_right hreads]
            exact ih v _ sc' tx'

end runs

/-- A script that asks for a hash and returns. -/
def asksHash : Script := .call false [utf8 "HGETALL", utf8 "h"] fun _ => .returns .ok

/-- A server on which every script does nothing. -/
def bareConfig : Config where
  process := ⟨utf8 "linux", utf8 "amd64", 0⟩
  polls := 0
  scriptSHA1 script := script
  lua _ _ _ := .returns .ok

/-- `redis.call('HGETALL', 'h')` without a key `h` gives a table, or nil. -/
theorem asksHash_differs :
    ∃ fields, (asksHash.calls (executeInScript bareConfig 2) (envAt 0) ∅ (Tx.clean (emptyDB : DB ℤ))).map
        ScriptCall.result = [some (flatFields fields)] ∧
      (asksHash.calls (executeInScript bareConfig 3) (envAt 0) ∅ (Tx.clean (emptyDB : DB ℤ))).map
        ScriptCall.result = [none] := by
  have hreads : ReadsHash (envAt 0) (Tx.clean (emptyDB : DB ℤ)) [utf8 "HGETALL", utf8 "h"] :=
    ⟨_, _, rfl, rfl, rfl, rfl, rfl, Or.inl rfl⟩
  obtain ⟨fields, tx', heval⟩ := redisCommand_reads bareConfig ∅ hreads
  refine ⟨fields, ?_, ?_⟩
  · rw [asksHash, Script.calls, heval 2]
    rfl
  · rw [asksHash, Script.calls, heval 3]
    rfl

end Postkeys.Handlers
