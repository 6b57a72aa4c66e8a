import Postkeys.Connection

/-! # The authentication gate

With a password configured, a connection becomes authenticated only by a command that carries the
password, and until then nothing it sends reaches the store or the hub, and nothing of them reaches
it.  `serve_gate` states both for every sequence of commands; `handleCommand_authenticated` and
`handleCommand_unauthenticated` are the steps. -/

namespace Postkeys

open Relational

variable {args : List Value}

namespace Server

variable {σ : Type} {srv : Server σ} {e : Env} {cmd : Value} {c : Conn} {w : World σ}

/-- The words of a command: its name in capitals and its arguments. -/
def IsCommand (cmd : Value) (cmdName : Bytes) (args : List Value) : Prop :=
  ∃ name, cmd.type = .array ∧ cmd.array = name :: args ∧ toUpper name.bulk = cmdName

/-- An `AUTH` command with the password, or a `HELLO` command with an `AUTH` option and the password
at its place. -/
def CarriesPassword (password : Bytes) (cmd : Value) : Prop :=
  (∃ args pw, IsCommand cmd (utf8 "AUTH") args ∧ (args = [pw] ∨ ∃ user, args = [user, pw]) ∧
    pw.bulk = password) ∨
  ∃ args before opt user pw after, IsCommand cmd (utf8 "HELLO") args ∧
    args = before ++ opt :: user :: pw :: after ∧ toUpper opt.bulk = utf8 "AUTH" ∧ pw.bulk = password

/-- A `RESET` that was carried out. -/
def WasReset (step : Value × List Value) : Prop :=
  (∃ args, IsCommand step.1 (utf8 "RESET") args) ∧ step.2 = [.simple (utf8 "RESET")]

theorem IsCommand.name_eq {n n' : Bytes} {args args' : List Value} (h : IsCommand cmd n args)
    (h' : IsCommand cmd n' args') : n = n' := by
  obtain ⟨name, -, harr, rfl⟩ := h
  obtain ⟨name', -, harr', rfl⟩ := h'
  rw [harr] at harr'
  cases harr'
  rfl

theorem not_wasReset {n : Bytes} {rs : List Value} (h : IsCommand cmd n args)
    (hn : n ≠ utf8 "RESET") : ¬ WasReset (cmd, rs) := by
  rintro ⟨⟨args', h'⟩, -⟩
  exact hn (h.name_eq h')

/-! ### Passwords -/

theorem handle_auth (h : IsCommand cmd (utf8 "AUTH") args) (p : ℤ) (s : σ) :
    srv.handle e p cmd s = (srv.auth args, s) := by
  obtain ⟨name, htype, harr, hname⟩ := h
  rw [handle, htype, harr]
  dsimp only
  rw [hname]
  rfl

theorem handle_hello (h : IsCommand cmd (utf8 "HELLO") args) (p : ℤ) (s : σ) :
    srv.handle e p cmd s = (srv.hello args, s) := by
  obtain ⟨name, htype, harr, hname⟩ := h
  rw [handle, htype, harr]
  dsimp only
  rw [hname]
  rfl

/-- `AUTH` answers `OK` only to the password. -/
theorem auth_ok (hpw : srv.password ≠ []) (h : (srv.auth args).type = .simpleString) :
    ∃ pw, (args = [pw] ∨ ∃ user, args = [user, pw]) ∧ pw.bulk = srv.password := by
  have hrequires : srv.requiresAuth = true := decide_eq_true hpw
  have hcheck {pw : Value}
      (h : (if srv.checkAuth pw.bulk then Value.ok else wrongPass).type = .simpleString) :
      pw.bulk = srv.password := by
    split at h
    · rename_i hok
      exact (of_decide_eq_true hok).symm
    · cases h
  unfold auth at h
  rw [hrequires] at h
  split at h
  · rename_i hfalse
    cases hfalse
  · split at h
    · rename_i pw
      exact ⟨pw, Or.inl rfl, hcheck h⟩
    · rename_i user pw
      exact ⟨pw, Or.inr ⟨user, rfl⟩, hcheck h⟩
    · cases h

/-- The option loop of `CheckHelloAuth` succeeds only on an `AUTH` option with the password. -/
theorem checkHelloOptions_true (h : srv.checkHelloOptions args = (true, true)) :
    ∃ before opt user pw after, args = before ++ opt :: user :: pw :: after ∧
      toUpper opt.bulk = utf8 "AUTH" ∧ pw.bulk = srv.password := by
  fun_induction checkHelloOptions srv args with
  | case1 => cases h
  | case2 opt hopt user pw after =>
      rw [Prod.mk.injEq] at h
      exact ⟨[], opt, user, pw, after, rfl, hopt, (of_decide_eq_true h.2).symm⟩
  | case3 opt rest hopt => cases h
  | case4 opt hauth hname name rest ih =>
      obtain ⟨before, opt', user, pw, after, rfl, hopt, hpw⟩ := ih h
      exact ⟨opt :: name :: before, opt', user, pw, after, rfl, hopt, hpw⟩
  | case5 opt => cases h
  | case6 opt => cases h

theorem checkHelloAuth_true (h : srv.checkHelloAuth args = (true, true)) :
    ∃ before opt user pw after, args = before ++ opt :: user :: pw :: after ∧
      toUpper opt.bulk = utf8 "AUTH" ∧ pw.bulk = srv.password := by
  unfold checkHelloAuth at h
  split at h
  · cases h
  · rename_i a rest
    split at h
    · obtain ⟨before, opt, user, pw, after, rfl, hopt, hpw⟩ := checkHelloOptions_true h
      exact ⟨a :: before, opt, user, pw, after, rfl, hopt, hpw⟩
    · exact checkHelloOptions_true h

/-! ### Authenticated connections -/

theorem withHub_authenticated (f : Hub → Client → List Value × Client × Hub) :
    (srv.withHub c w f).2.1.authenticated = c.authenticated := by
  unfold withHub
  split <;> rfl

theorem keeps_ite {p : Prop} [Decidable p] {r r' : List Value × Conn × World σ} {b : Bool}
    (h : r.2.1.authenticated = b) (h' : r'.2.1.authenticated = b) :
    (if p then r else r').2.1.authenticated = b := by
  split
  · exact h
  · exact h'

/-- An authenticated connection stays so, unless it is reset. -/
theorem handleAuthenticated_authenticated {cmdName : Bytes}
    (hpw : srv.password ≠ []) (hcmd : IsCommand cmd cmdName args)
    (h : (srv.handleAuthenticated e cmd cmdName args c w).2.1.authenticated = true) :
    c.authenticated = true ∧ ¬ WasReset (cmd, (srv.handleAuthenticated e cmd cmdName args c w).1) := by
  by_cases hreset : cmdName = utf8 "RESET"
  · subst hreset
    have hrequires : srv.requiresAuth = true := decide_eq_true hpw
    have hbranch : srv.handleAuthenticated e cmd (utf8 "RESET") args c w =
        if c.client.inPubSubMode && !c.client.useRESP3 then
          ([.err (utf8 "only (P)SUBSCRIBE / (P)UNSUBSCRIBE / PING / QUIT allowed in this context")], c, w)
        else srv.reset c w := rfl
    rw [hbranch] at h ⊢
    split at h
    · refine ⟨h, fun hr => ?_⟩
      rename_i hmode
      have htype := congrArg (List.map Value.type) hr.2
      rw [if_pos hmode, List.map_singleton, Value.err_type] at htype
      exact absurd htype (by decide)
    · have hfalse : (srv.reset c w).2.1.authenticated = false := by simp [reset, hrequires]
      rw [hfalse] at h
      cases h
  · refine ⟨?_, not_wasReset hcmd hreset⟩
    rw [← h]
    unfold handleAuthenticated
    dsimp only
    rw [if_neg hreset]
    refine (keeps_ite (withHub_authenticated _) ?_).symm
    refine keeps_ite (withHub_authenticated _) ?_
    refine keeps_ite (withHub_authenticated _) ?_
    refine keeps_ite (withHub_authenticated _) ?_
    refine keeps_ite ?_ ?_
    · refine keeps_ite rfl ?_
      split
      · split <;> rfl
      · rfl
    refine keeps_ite (keeps_ite rfl (keeps_ite rfl rfl)) ?_
    refine keeps_ite ?_ ?_
    · cases c.client.startTransaction <;> rfl
    refine keeps_ite (keeps_ite rfl rfl) ?_
    refine keeps_ite ?_ ?_
    · cases c.client.discardTransaction <;> rfl
    exact keeps_ite rfl (keeps_ite rfl rfl)

/-- What one command can do to the authentication: it carries the password, or the connection was
authenticated before and is not reset. -/
theorem handleCommand_authenticated (hpw : srv.password ≠ [])
    (h : (srv.handleCommand e cmd c w).2.1.authenticated = true) :
    CarriesPassword srv.password cmd ∨
      c.authenticated = true ∧ ¬ WasReset (cmd, (srv.handleCommand e cmd c w).1) := by
  unfold handleCommand at h ⊢
  split at h
  · rename_i name args htype harr
    have hcmd : IsCommand cmd (toUpper name.bulk) args := ⟨name, htype, harr, rfl⟩
    dsimp only
    by_cases hauth : toUpper name.bulk = utf8 "AUTH"
    · rw [if_pos hauth] at h ⊢
      rw [hauth] at hcmd
      simp only [handle_auth hcmd, Bool.or_eq_true, decide_eq_true_eq] at h
      rcases h with h | h
      · exact Or.inr ⟨h, not_wasReset hcmd (by decide)⟩
      · obtain ⟨pw, hargs, heq⟩ := auth_ok hpw h.1
        exact Or.inl (Or.inl ⟨args, pw, hcmd, hargs, heq⟩)
    rw [if_neg hauth] at h ⊢
    by_cases hhello : toUpper name.bulk = utf8 "HELLO"
    · rw [if_pos hhello] at h ⊢
      rw [hhello] at hcmd
      simp only [Bool.or_eq_true, Bool.and_eq_true] at h
      rcases h with h | h
      · exact Or.inr ⟨h, not_wasReset hcmd (by decide)⟩
      · obtain ⟨before, opt, user, pw, after, hargs, hopt, heq⟩ := checkHelloAuth_true (Prod.ext h.1.1 h.1.2)
        exact Or.inl (Or.inr ⟨args, before, opt, user, pw, after, hcmd, hargs, hopt, heq⟩)
    rw [if_neg hhello] at h ⊢
    by_cases hc : c.authenticated = true
    · rw [if_neg (by simp [hc])] at h ⊢
      exact Or.inr (handleAuthenticated_authenticated hpw hcmd h)
    · rw [if_pos (by simp [hc])] at h
      split at h <;> exact absurd h hc
  · rename_i hother
    refine Or.inr ⟨h, ?_⟩
    rintro ⟨⟨args, name, htype, harr, -⟩, -⟩
    exact hother name args htype harr

/-- **Authentication over a run**: a connection that ends up authenticated was so at the start and
never reset, or carried the password after its last reset. -/
theorem serve_authenticated (hpw : srv.password ≠ []) {steps : List (Env × Value)} {c : Conn}
    {w : World σ} (h : (srv.serve steps c w).conn.authenticated = true) :
    (c.authenticated = true ∧ ∀ p ∈ (srv.serve steps c w).replies, ¬ WasReset p) ∨
      ∃ before cmd rs after, (srv.serve steps c w).replies = before ++ (cmd, rs) :: after ∧
        CarriesPassword srv.password cmd ∧ ∀ p ∈ after, ¬ WasReset p := by
  induction steps generalizing c w with
  | nil => exact Or.inl ⟨h, by simp [serve]⟩
  | cons step steps ih =>
      obtain ⟨e, cmd⟩ := step
      have hreplies : (srv.serve ((e, cmd) :: steps) c w).replies =
          (cmd, (srv.handleCommand e cmd c w).1) ::
            (srv.serve steps (srv.handleCommand e cmd c w).2.1 (srv.handleCommand e cmd c w).2.2).replies :=
        rfl
      rw [hreplies]
      rcases ih h with ⟨hstep, hrest⟩ | ⟨before, cmd', rs, after, hsplit, hcarries, hafter⟩
      · rcases handleCommand_authenticated hpw hstep with hcarries | ⟨hc, hreset⟩
        · exact Or.inr ⟨[], cmd, _, _, rfl, hcarries, hrest⟩
        · exact Or.inl ⟨hc, List.forall_mem_cons.mpr ⟨hreset, hrest⟩⟩
      · exact Or.inr ⟨_ :: before, cmd', rs, after, by rw [hsplit]; rfl, hcarries, hafter⟩

/-! ### Connections that are not authenticated -/

theorem handle_of_name {name : String} {v : Value}
    (h : IsCommand cmd (utf8 name) args)
    (hv : ∀ p s, srv.executeCommand e p (utf8 name) args s = (v, s)) (p : ℤ) (s : σ) :
    srv.handle e p cmd s = (v, s) := by
  obtain ⟨n, htype, harr, hname⟩ := h
  rw [handle, htype, harr]
  dsimp only
  rw [hname, hv]

/-- Until it has authenticated, a connection gets replies that do not depend on the shared state, and
leaves that state and its own subscriptions alone. -/
theorem handleCommand_unauthenticated (hc : c.authenticated = false) :
    ∃ rs c', (∀ w, srv.handleCommand e cmd c w = (rs, c', w)) ∧ c'.client.id = c.client.id ∧
      c'.client.inPubSubMode = c.client.inPubSubMode := by
  unfold handleCommand
  split
  · rename_i name args htype harr
    have hcmd : IsCommand cmd (toUpper name.bulk) args := ⟨name, htype, harr, rfl⟩
    dsimp only
    by_cases hauth : toUpper name.bulk = utf8 "AUTH"
    · rw [hauth] at hcmd
      simp only [if_pos hauth, handle_auth hcmd]
      exact ⟨_, _, fun w => rfl, rfl, rfl⟩
    simp only [if_neg hauth]
    by_cases hhello : toUpper name.bulk = utf8 "HELLO"
    · rw [hhello] at hcmd
      simp only [if_pos hhello, handle_hello hcmd]
      refine ⟨_, _, fun w => rfl, ?_, ?_⟩
      · unfold Client.setProtocolVersion
        split <;> rfl
      · unfold Client.setProtocolVersion
        split <;> rfl
    simp only [if_neg hhello, hc, Bool.not_false, if_true]
    by_cases hping : toUpper name.bulk = utf8 "PING"
    · rw [hping] at hcmd
      simp only [hping, true_or, if_true, respond, handle_of_name hcmd fun _ _ => rfl]
      exact ⟨_, c, fun w => rfl, rfl, rfl⟩
    by_cases hquit : toUpper name.bulk = utf8 "QUIT"
    · rw [hquit] at hcmd
      simp only [hquit, true_or, or_true, if_true, respond, handle_of_name hcmd fun _ _ => rfl]
      exact ⟨_, c, fun w => rfl, rfl, rfl⟩
    by_cases hcommand : toUpper name.bulk = utf8 "COMMAND"
    · rw [hcommand] at hcmd
      simp only [hcommand, or_true, if_true, respond, handle_of_name hcmd fun _ _ => rfl]
      exact ⟨_, c, fun w => rfl, rfl, rfl⟩
    simp only [hping, hquit, hcommand, or_self, if_false]
    exact ⟨_, c, fun w => rfl, rfl, rfl⟩
  · rename_i hother
    refine ⟨[.err (utf8 "invalid command format")], c, fun w => ?_, rfl, rfl⟩
    have hhandle (p : ℤ) (s : σ) : srv.handle e p cmd s = (.err (utf8 "invalid command format"), s) := by
      unfold handle
      split
      · rename_i name args htype harr
        exact absurd harr (hother name args htype)
      · rfl
    rw [respond, hhandle]

/-- The connection has not authenticated before any of the commands. -/
def NeverAuthenticated (srv : Server σ) (steps : List (Env × Value)) (c : Conn) (w : World σ) : Prop :=
  ∀ before, before <+: steps → before ≠ steps → (srv.serve before c w).conn.authenticated = false

theorem serve_unauthenticated {steps : List (Env × Value)} {c : Conn} {w : World σ}
    (h : srv.NeverAuthenticated steps c w) :
    ∃ replies c', (∀ w', srv.serve steps c w' = ⟨replies, c', w'⟩) ∧ c'.client.id = c.client.id ∧
      c'.client.inPubSubMode = c.client.inPubSubMode := by
  induction steps generalizing c with
  | nil => exact ⟨[], c, fun _ => rfl, rfl, rfl⟩
  | cons step steps ih =>
      obtain ⟨e, cmd⟩ := step
      have hc : c.authenticated = false := h [] List.nil_prefix (by simp)
      obtain ⟨rs, c₁, hstep, hid, hmode⟩ := @handleCommand_unauthenticated _ srv e cmd c hc
      have hrest : srv.NeverAuthenticated steps c₁ w := by
        intro before hbefore hne
        have hcons := h ((e, cmd) :: before) ((List.prefix_cons_inj _).mpr hbefore) fun heq =>
          hne (List.tail_eq_of_cons_eq heq)
        rwa [serve, hstep] at hcons
      obtain ⟨replies, c₂, hserve, hid₂, hmode₂⟩ := ih hrest
      refine ⟨(cmd, rs) :: replies, c₂, fun w' => ?_, hid₂.trans hid, hmode₂.trans hmode⟩
      rw [serve, hstep]
      simp only [hserve]

/-- **The gate**: with a password configured, whatever a client sends on a new connection, it is
authenticated only if it carried the password after its last reset; and as long as it has not
authenticated its replies are the same for any two states of the store and the hub, it changes
neither, and it has no subscription. -/
theorem serve_gate (srv : Server σ) (hpw : srv.password ≠ []) (id : ℕ) (addr : Bytes) (createdAt : ℤ)
    (steps : List (Env × Value)) :
    (∀ w, (srv.serve steps (srv.connect id addr createdAt) w).conn.authenticated = true →
      ∃ before cmd rs after, (srv.serve steps (srv.connect id addr createdAt) w).replies =
          before ++ (cmd, rs) :: after ∧
        CarriesPassword srv.password cmd ∧ ∀ p ∈ after, ¬ WasReset p) ∧
    ∀ w₁ w₂, srv.NeverAuthenticated steps (srv.connect id addr createdAt) w₁ →
      (srv.serve steps (srv.connect id addr createdAt) w₁).replies =
          (srv.serve steps (srv.connect id addr createdAt) w₂).replies ∧
        (∀ w ∈ [w₁, w₂], (srv.serve steps (srv.connect id addr createdAt) w).world = w ∧
          (srv.serve steps (srv.connect id addr createdAt) w).conn.client.inPubSubMode = false ∧
          (w.hub.Fresh id → srv.close (srv.serve steps (srv.connect id addr createdAt) w) = w)) := by
  constructor
  · intro w h
    rcases serve_authenticated hpw h with ⟨hstart, -⟩ | hcarried
    · have hfalse : (srv.connect id addr createdAt).authenticated = false := by
        simp [connect, requiresAuth, hpw]
      rw [hfalse] at hstart
      cases hstart
    · exact hcarried
  · intro w₁ w₂ hnever
    obtain ⟨replies, c, hserve, hid, hmode⟩ := serve_unauthenticated hnever
    refine ⟨by rw [hserve, hserve], fun w _ => ?_⟩
    rw [hserve]
    refine ⟨rfl, hmode, fun hfresh => ?_⟩
    have hclient : c.client.id = id := hid
    simp only [close, hclient, Hub.removeSubscriber_of_fresh hfresh, ite_self]

/-- A server whose store answers nothing. -/
def mute (password : String) : Server Unit where
  password := utf8 password
  pubsub := true
  executeWithOps _ _ _ _ s := (.nullBulk, s)
  flushDB _ s := (.ok (), s)
  runTx _ _ _ s := (.arr [], s)
  publish _ _ _ _ s := (.ok 0, s)

/-- `HELLO 3 SETNAME x AUTH default secret` authenticates. -/
theorem serve_gate_hello :
    ∃ before cmd rs after,
      ((mute "secret").serve [(⟨0, [], 0, []⟩, request ["HELLO", "3", "SETNAME", "x", "AUTH", "default", "secret"])]
        ((mute "secret").connect 1 [] 0) ⟨(), ⟨⟨∅, ∅⟩, ⟨∅, ∅⟩⟩⟩).replies = before ++ (cmd, rs) :: after ∧
      CarriesPassword (utf8 "secret") cmd ∧ ∀ p ∈ after, ¬ WasReset p :=
  (serve_gate (mute "secret") (by decide) 1 [] 0 _).1 _ (by decide)

end Server

end Postkeys
