import Postkeys.PubSubMode

/-! # The protocol version of a connection

A client knows which version its replies are written in by what it was told: the `proto` field of
the last `HELLO` that was answered without an error, and 2 from the start and after `RESET`.  The
connection takes the version of every `HELLO` from its arguments before it is known whether the
command succeeds, so the two agree exactly as long as every refused `HELLO` asks for the version
already in use (`version_told_iff`). -/

namespace Postkeys

open Relational

namespace Server

variable {σ : Type} {srv : Server σ} {e : Env} {cmd : Value} {c : Conn} {w : World σ}
  {args : List Value}

/-! ### What a client is told -/

/-- The `proto` field of an answer to `HELLO`, a list of names each followed by its value. -/
def protoField : List Value → Option ℤ
  | name :: value :: rest => if name.bulk = utf8 "proto" then some value.num else protoField rest
  | _ => none

/-- The version a client expects after a command and its replies. -/
def toldVersion (version : ℤ) (step : Value × List Value) : ℤ :=
  match step.1.type, step.1.array, step.2 with
  | .array, name :: _, [reply] =>
      if reply.type = .error then version
      else if toUpper name.bulk = utf8 "HELLO" then (protoField reply.array).getD version
      else if toUpper name.bulk = utf8 "RESET" then 2
      else version
  | _, _, _ => version

/-- The version a client expects after a whole session. -/
def told (replies : List (Value × List Value)) : ℤ := replies.foldl toldVersion 2

theorem toldVersion_reply {n : Bytes} (h : IsCommand cmd n args) (v : ℤ)
    (reply : Value) : toldVersion v (cmd, [reply]) =
      if reply.type = .error then v
      else if n = utf8 "HELLO" then (protoField reply.array).getD v
      else if n = utf8 "RESET" then 2
      else v := by
  obtain ⟨name, htype, harr, rfl⟩ := h
  simp only [toldVersion, htype, harr]

theorem toldVersion_error {n : Bytes} (h : IsCommand cmd n args) (v : ℤ)
    {reply : Value} (herr : reply.type = .error) : toldVersion v (cmd, [reply]) = v := by
  rw [toldVersion_reply h, if_pos herr]

theorem toldVersion_other {n : Bytes} (h : IsCommand cmd n args)
    (hhello : n ≠ utf8 "HELLO") (hreset : n ≠ utf8 "RESET") (v : ℤ) (rs : List Value) :
    toldVersion v (cmd, rs) = v := by
  obtain ⟨name, htype, harr, rfl⟩ := h
  unfold toldVersion
  split
  · rename_i name' rest reply _ harr' hrs
    rw [harr] at harr'
    cases harr'
    rw [if_neg hhello, if_neg hreset, ite_self]
  · rfl

/-! ### `HELLO` -/

/-- Options of `HELLO` that are accepted: names, and logins with the password if there is one. -/
inductive HelloOptions (srv : Server σ) : List Value → Prop
  | nil : HelloOptions srv []
  | auth {opt user password : Value} {rest : List Value} (hopt : toUpper opt.bulk = utf8 "AUTH")
      (hpassword : srv.password ≠ [] → password.bulk = srv.password) (hrest : HelloOptions srv rest) :
      HelloOptions srv (opt :: user :: password :: rest)
  | setName {opt name : Value} {rest : List Value} (hopt : toUpper opt.bulk = utf8 "SETNAME")
      (hrest : HelloOptions srv rest) : HelloOptions srv (opt :: name :: rest)

/-- Arguments of `HELLO` that are accepted: the first, if it is a number, is 2 or 3. -/
def AcceptsHello (srv : Server σ) : List Value → Prop
  | [] => True
  | a :: options => (∀ v, parseInt a.bulk = some v → 2 ≤ v ∧ v ≤ 3) ∧ HelloOptions srv options

theorem helloOptions_none_iff :
    srv.helloOptions args = none ↔ HelloOptions srv args := by
  have hnames : utf8 "SETNAME" ≠ utf8 "AUTH" := by decide
  constructor
  · intro h
    fun_induction helloOptions srv args with
    | case1 => exact .nil
    | case2 => cases h
    | case3 opt hopt user password rest hwrong ih =>
        refine .auth hopt (fun hpw => ?_) (ih h)
        by_contra hne
        have hcheck : srv.checkAuth password.bulk = false := decide_eq_false (Ne.symm hne)
        have hrequires : srv.requiresAuth = true := decide_eq_true hpw
        rw [hcheck, hrequires] at hwrong
        exact hwrong rfl
    | case4 => cases h
    | case5 opt hauth hopt name rest ih => exact .setName hopt (ih h)
    | case6 => cases h
    | case7 => cases h
  · intro h
    induction h with
    | nil => rfl
    | auth hopt hpassword _ ih =>
        rw [helloOptions, if_pos hopt]
        by_cases hpw : srv.password = []
        · simpa [requiresAuth, hpw] using ih
        · simpa [checkAuth, hpassword hpw] using ih
    | setName hopt _ ih =>
        unfold helloOptions
        rw [if_neg (by rw [hopt]; exact hnames), if_pos hopt]
        exact ih

theorem helloOptions_type {v : Value} (h : srv.helloOptions args = some v) :
    v.type = .error := by
  fun_induction helloOptions srv args with
  | case1 => cases h
  | case2 => cases h; rfl
  | case3 opt hopt user password rest hwrong ih => exact ih h
  | case4 => cases h; rfl
  | case5 opt hauth hopt name rest ih => exact ih h
  | case6 => cases h; rfl
  | case7 => cases h; exact Value.err_type _

/-- An accepted `HELLO` is answered with the version the connection takes from its arguments. -/
theorem hello_of_accepts (h : AcceptsHello srv args) :
    srv.hello args = helloReply (getHelloProtocolVersion args) := by
  cases args with
  | nil => rfl
  | cons a options =>
      obtain ⟨hversion, hoptions⟩ := h
      rw [hello, helloOptions_none_iff.mpr hoptions]
      cases hparse : parseInt a.bulk with
      | none => simp [getHelloProtocolVersion, hparse]
      | some v =>
          have hv := hversion v hparse
          have hrange : ¬ (v < 2 ∨ 3 < v) := by omega
          rw [getHelloProtocolVersion, hparse, Option.any_some, if_neg (by rwa [decide_eq_true_eq]),
            Option.filter_some, if_pos (decide_eq_true hv)]
          rfl

theorem hello_of_refuses (h : ¬ AcceptsHello srv args) :
    (srv.hello args).type = .error := by
  cases args with
  | nil => exact absurd trivial h
  | cons a options =>
      rw [hello]
      split
      · exact Value.err_type _
      · rename_i hversion
        cases hoptions : srv.helloOptions options with
        | some v => exact helloOptions_type hoptions
        | none =>
            refine absurd ⟨fun v hv => ?_, helloOptions_none_iff.mp hoptions⟩ h
            rw [hv, Option.any_some, decide_eq_true_eq] at hversion
            omega

theorem getHelloProtocolVersion_range (args : List Value) :
    2 ≤ getHelloProtocolVersion args ∧ getHelloProtocolVersion args ≤ 3 := by
  cases args with
  | nil => decide
  | cons a rest =>
      rw [getHelloProtocolVersion]
      cases hv : (parseInt a.bulk).filter fun v => decide (2 ≤ v ∧ v ≤ 3) with
      | none => decide
      | some v =>
          have h := (Option.filter_eq_some_iff.mp hv).2
          rwa [decide_eq_true_eq] at h

theorem setProtocolVersion_of_range {v : ℤ} (h : 2 ≤ v ∧ v ≤ 3) (cl : Client) :
    (cl.setProtocolVersion v).protocolVersion = v := by
  rw [Client.setProtocolVersion, if_pos h]

/-! ### One command -/

theorem handleCommand_hello (h : IsCommand cmd (utf8 "HELLO") args) :
    (srv.handleCommand e cmd c w).1 = [srv.hello args] ∧
      (srv.handleCommand e cmd c w).2.1.client.protocolVersion = getHelloProtocolVersion args := by
  have hhandle (p : ℤ) : srv.handle e p cmd w.store = (srv.hello args, w.store) := handle_hello h p _
  obtain ⟨name, htype, harr, hname⟩ := h
  rw [handleCommand, htype, harr]
  dsimp only
  rw [hname, if_neg (by decide), if_pos rfl, hhandle]
  exact ⟨rfl, setProtocolVersion_of_range (getHelloProtocolVersion_range args) _⟩

/-- No command of an authenticated connection but `RESET` touches the version. -/
theorem handleAuthenticated_version {cmdName : Bytes} (args : List Value)
    (hreset : cmdName ≠ utf8 "RESET") :
    (srv.handleAuthenticated e cmd cmdName args c w).2.1.client.protocolVersion =
      c.client.protocolVersion := by
  let P (r : List Value × Conn × World σ) : Prop := r.2.1.client.protocolVersion = c.client.protocolVersion
  change P _
  refine ite_intro (fun _ => withHub_intro (fun _ => ?_) rfl) fun _ => ?_
  · unfold handleSubscribe
    split <;> rfl
  refine ite_intro (fun _ => withHub_intro (fun _ => ?_) rfl) fun _ => ?_
  · exact ite_intro (P := fun cl : Client => cl.protocolVersion = c.client.protocolVersion)
      (fun _ => rfl) fun _ => rfl
  refine ite_intro (fun _ => withHub_intro (fun _ => ?_) rfl) fun _ => ?_
  · unfold handlePSubscribe
    split <;> rfl
  refine ite_intro (fun _ => withHub_intro (fun _ => ?_) rfl) fun _ => ?_
  · exact ite_intro (P := fun cl : Client => cl.protocolVersion = c.client.protocolVersion)
      (fun _ => rfl) fun _ => rfl
  refine ite_intro (fun _ => ?_) fun _ => ?_
  · refine ite_intro (fun _ => rfl) fun _ => ?_
    split
    · split <;> rfl
    · rfl
  refine ite_intro (fun _ => ?_) fun _ => ?_
  · exact ite_intro (fun _ => rfl) fun _ => ite_intro (fun _ => rfl) fun _ => rfl
  refine ite_intro (fun h => absurd h hreset) fun _ => ?_
  refine ite_intro (fun _ => ?_) fun _ => ?_
  · split
    · rfl
    · exact (startTransaction_same ‹_›).2
  refine ite_intro (fun _ => ?_) fun _ => ?_
  · exact ite_intro (fun _ => rfl) fun _ => rfl
  refine ite_intro (fun _ => ?_) fun _ => ?_
  · split
    · rfl
    · exact (discardTransaction_same ‹_›).2
  refine ite_intro (fun _ => rfl) fun _ => ?_
  exact ite_intro (fun _ => (handleClient_same _ _ _).2) fun _ => rfl

/-- `RESET`, refused or carried out, leaves the version the client was told. -/
theorem handleCommand_reset_version (h : IsCommand cmd (utf8 "RESET") args) :
    (srv.handleCommand e cmd c w).2.1.client.protocolVersion =
      toldVersion c.client.protocolVersion (cmd, (srv.handleCommand e cmd c w).1) := by
  have hbranch : srv.handleAuthenticated e cmd (utf8 "RESET") args c w =
      if c.client.inPubSubMode && !c.client.useRESP3 then
        ([.err (utf8 "only (P)SUBSCRIBE / (P)UNSUBSCRIBE / PING / QUIT allowed in this context")], c, w)
      else srv.reset c w := rfl
  have hstep : srv.handleCommand e cmd c w =
      if !c.authenticated then ([.errCustom (utf8 "NOAUTH Authentication required.")], c, w)
      else srv.handleAuthenticated e cmd (utf8 "RESET") args c w := by
    obtain ⟨name, htype, harr, hname⟩ := h
    rw [handleCommand, htype, harr]
    dsimp only
    rw [hname, if_neg (by decide), if_neg (by decide)]
    refine if_congr Iff.rfl ?_ rfl
    rw [if_neg (by decide)]
  rw [hstep, hbranch]
  refine ite_intro (P := fun r : List Value × Conn × World σ =>
    r.2.1.client.protocolVersion = toldVersion c.client.protocolVersion (cmd, r.1)) (fun _ => ?_) fun _ => ?_
  · exact (toldVersion_error h _ rfl).symm
  refine ite_intro (P := fun r : List Value × Conn × World σ =>
    r.2.1.client.protocolVersion = toldVersion c.client.protocolVersion (cmd, r.1)) (fun _ => ?_) fun _ => ?_
  · exact (toldVersion_error h _ (Value.err_type _)).symm
  · have htold : toldVersion c.client.protocolVersion (cmd, (srv.reset c w).1) = 2 :=
      toldVersion_reply h _ _
    rw [htold]
    exact setProtocolVersion_of_range (by decide) _

/-- A command that is not a refused `HELLO` leaves the version the client was told. -/
theorem handleCommand_version
    (h : ∀ args, IsCommand cmd (utf8 "HELLO") args → AcceptsHello srv args) :
    (srv.handleCommand e cmd c w).2.1.client.protocolVersion =
      toldVersion c.client.protocolVersion (cmd, (srv.handleCommand e cmd c w).1) := by
  by_cases hcmd : ∃ name args, cmd.type = .array ∧ cmd.array = name :: args
  · obtain ⟨name, args, htype, harr⟩ := hcmd
    have hcmd : IsCommand cmd (toUpper name.bulk) args := ⟨name, htype, harr, rfl⟩
    by_cases hhello : toUpper name.bulk = utf8 "HELLO"
    · rw [hhello] at hcmd
      have hstep := @handleCommand_hello _ srv e cmd c w args hcmd
      rw [hstep.1, hstep.2, hello_of_accepts (h args hcmd), toldVersion_reply hcmd]
      rfl
    by_cases hreset : toUpper name.bulk = utf8 "RESET"
    · rw [hreset] at hcmd
      exact handleCommand_reset_version hcmd
    rw [toldVersion_other hcmd hhello hreset, handleCommand, htype, harr]
    dsimp only
    rw [if_neg hhello]
    refine ite_intro (P := fun r : List Value × Conn × World σ =>
      r.2.1.client.protocolVersion = c.client.protocolVersion) (fun _ => rfl) fun _ => ?_
    refine ite_intro (P := fun r : List Value × Conn × World σ =>
      r.2.1.client.protocolVersion = c.client.protocolVersion) (fun _ => ?_) fun _ =>
        handleAuthenticated_version args hreset
    exact ite_intro (P := fun r : List Value × Conn × World σ =>
      r.2.1.client.protocolVersion = c.client.protocolVersion) (fun _ => rfl) fun _ => rfl
  · have htold (rs : List Value) : toldVersion c.client.protocolVersion (cmd, rs) =
        c.client.protocolVersion := by
      unfold toldVersion
      split
      · rename_i name args _ htype harr _
        exact absurd ⟨name, args, htype, harr⟩ hcmd
      · rfl
    rw [htold, handleCommand]
    split
    · rename_i name args htype harr
      exact absurd ⟨name, args, htype, harr⟩ hcmd
    · rfl

/-- A refused `HELLO` sets the version it asks for, and the client is told nothing. -/
theorem handleCommand_refused (hcmd : IsCommand cmd (utf8 "HELLO") args)
    (hrefused : ¬ AcceptsHello srv args) :
    (srv.handleCommand e cmd c w).2.1.client.protocolVersion = getHelloProtocolVersion args ∧
      ∀ v, toldVersion v (cmd, (srv.handleCommand e cmd c w).1) = v := by
  have hstep := @handleCommand_hello _ srv e cmd c w args hcmd
  refine ⟨hstep.2, fun v => ?_⟩
  rw [hstep.1]
  exact toldVersion_error hcmd v (hello_of_refuses hrefused)

/-! ### Whole sessions -/

theorem serve_concat (steps : List (Env × Value)) (e : Env) (cmd : Value) (c : Conn) (w : World σ) :
    (srv.serve (steps ++ [(e, cmd)]) c w).conn =
        (srv.handleCommand e cmd (srv.serve steps c w).conn (srv.serve steps c w).world).2.1 ∧
      (srv.serve (steps ++ [(e, cmd)]) c w).replies = (srv.serve steps c w).replies ++
        [(cmd, (srv.handleCommand e cmd (srv.serve steps c w).conn (srv.serve steps c w).world).1)] := by
  induction steps generalizing c w with
  | nil => exact ⟨rfl, rfl⟩
  | cons step steps ih =>
      obtain ⟨e', cmd'⟩ := step
      have hrest := ih (srv.handleCommand e' cmd' c w).2.1 (srv.handleCommand e' cmd' c w).2.2
      exact ⟨hrest.1, congrArg (List.cons _) hrest.2⟩

theorem told_concat (replies : List (Value × List Value)) (step : Value × List Value) :
    told (replies ++ [step]) = toldVersion (told replies) step := by
  rw [told, List.foldl_concat]
  rfl

/-- **The version of a connection.**  After every command of a session the version is the one the
client was told, exactly if every `HELLO` that is refused, for its version, an option or a password,
asks for the version the connection has already. -/
theorem version_told_iff (srv : Server σ) (id : ℕ) (addr : Bytes) (createdAt : ℤ)
    (steps : List (Env × Value)) (w : World σ) :
    (∀ before, before <+: steps →
      (srv.serve before (srv.connect id addr createdAt) w).conn.client.protocolVersion =
        told (srv.serve before (srv.connect id addr createdAt) w).replies) ↔
    ∀ before e cmd args, before ++ [(e, cmd)] <+: steps → IsCommand cmd (utf8 "HELLO") args →
      ¬ AcceptsHello srv args → getHelloProtocolVersion args =
        (srv.serve before (srv.connect id addr createdAt) w).conn.client.protocolVersion := by
  constructor
  · intro h before e cmd args hprefix hcmd hrefused
    have hbefore := h before ((List.prefix_append _ _).trans hprefix)
    have hafter := h _ hprefix
    have hstep := @serve_concat _ srv before e cmd (srv.connect id addr createdAt) w
    rw [hstep.1, hstep.2, told_concat, (handleCommand_refused hcmd hrefused).1,
      (handleCommand_refused hcmd hrefused).2] at hafter
    exact hafter.trans hbefore.symm
  · intro h before
    induction before using List.reverseRecOn with
    | nil => exact fun _ => rfl
    | append_singleton before step ih =>
        intro hprefix
        obtain ⟨e, cmd⟩ := step
        have hbefore := ih ((List.prefix_append _ _).trans hprefix)
        have hstep := @serve_concat _ srv before e cmd (srv.connect id addr createdAt) w
        rw [hstep.1, hstep.2, told_concat, ← hbefore]
        by_cases haccepts : ∀ args, IsCommand cmd (utf8 "HELLO") args → AcceptsHello srv args
        · exact handleCommand_version haccepts
        · push Not at haccepts
          obtain ⟨args, hcmd, hrefused⟩ := haccepts
          rw [(handleCommand_refused hcmd hrefused).1, (handleCommand_refused hcmd hrefused).2]
          exact h before e cmd args hprefix hcmd hrefused

/-- `HELLO 3` with a wrong password is refused, and switches the connection to version 3. -/
theorem refused_hello_switches :
    let s := (mute "secret").serve
      [(⟨0, [], 0, []⟩, request ["HELLO", "3", "AUTH", "default", "wrong"])]
      ((mute "secret").connect 1 [] 0) ⟨(), ⟨⟨∅, ∅⟩, ⟨∅, ∅⟩⟩⟩
    s.replies.map (fun step => step.2.map Value.type) = [[.error]] ∧ told s.replies = 2 ∧
      s.conn.client.protocolVersion = 3 := by
  decide

end Server

end Postkeys
