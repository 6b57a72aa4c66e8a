import Postkeys.Effects.Commands
import Postkeys.Handlers.Replies

/-! # Runs of a handler

Rules for what a handler comes to when the calls of the store are known.  `Proc.direct` takes every
step at one moment; in `Proc.serial` every step meets an environment of its own, so that time passes
between two calls.  At one moment the two are the same (`serial_const`). -/

namespace Postkeys

open Relational Program

variable {S : Type} [Float64 S] {e : Env} {d d' : DB S}

/-- A command that returns one result and leaves one database. -/
theorem Cmd.exec_eq_of_total {c : Cmd S} {r : Reply S}
    (h : total e c.op (fun r' d'' => r' = r ∧ d'' = d') d) : c.exec e d = (.ok r, d') := by
  obtain ⟨r', hr, rfl, hd⟩ := Cmd.exec_total h
  exact Prod.ext hr hd

namespace Proc

/-- A handler on the store itself; step `n` is taken in the environment `world n`. -/
def serial (world : ℕ → Env) : Proc S → ℕ → ScriptCache → DB S → Except String Value × ScriptCache × DB S
  | reply v, _, sc, d => (.ok v, sc, d)
  | crash m, _, sc, d => (.error m, sc, d)
  | call c next, n, sc, d =>
      match c.exec (world n) d with
      | (.error (.crash m), d) => (.error m, sc, d)
      | (r, d) => serial world (next r) (n + 1) sc d
  | read next, n, sc, d => serial world (next (world n).reading) (n + 1) sc d
  | scripts update next, n, sc, d => serial world (next sc) n (update sc) d
  | atomic keys body next, n, sc, d =>
      match runAttempts (fun _ => quietAttempt (world n)) keys body (maxExecRetries + 1) 0 sc ⟨d, 0, []⟩ with
      | some (.ok v, sc, log) => serial world (next v) (n + 1) sc log.db
      | some (.error m, sc, log) => (.error m, sc, log.db)
      | none => (.error "", sc, d)

/-- **At one moment** a serial run is a direct one. -/
theorem serial_const (p : Proc S) (n : ℕ) (sc : ScriptCache) (d : DB S) :
    p.serial (fun _ => e) n sc d = p.direct e sc d := by
  induction p generalizing n sc d with
  | reply v => rfl
  | crash m => rfl
  | call c next ih =>
      rcases hexec : c.exec e d with ⟨r, d'⟩
      rw [serial, direct, hexec]
      match r with
      | .ok r => exact ih _ _ _ _
      | .error (.crash m) => rfl
      | .error (.db context x) => exact ih _ _ _ _
      | .error (.error m) => exact ih _ _ _ _
  | read next ih => exact ih _ _ _ _
  | scripts update next ih => exact ih _ _ _ _
  | atomic keys body next _ ih =>
      rw [serial, direct]
      match runAttempts (fun _ => quietAttempt e) keys body (maxExecRetries + 1) 0 sc ⟨d, 0, []⟩ with
      | some (.ok v, sc, log) => exact ih _ _ _ _
      | some (.error m, sc, log) => rfl
      | none => rfl

section serial
variable {world : ℕ → Env} {n : ℕ} {sc : ScriptCache} {onError : Failure → Value} {c : Cmd S}
  {next : Reply S → Proc S}

theorem serial_callOr_error {f : Failure} (h : c.exec (world n) d = (.error f, d')) (hf : ∀ m, f ≠ .crash m) :
    (callOr onError c next).serial world n sc d = (.ok (onError f), sc, d') := by
  rw [callOr, serial, h]
  cases f with
  | crash m => exact absurd rfl (hf m)
  | db context x => rfl
  | error m => rfl

end serial

section direct
variable {sc : ScriptCache} {onError : Failure → Value} {c : Cmd S} {next : Reply S → Proc S}

theorem direct_callOr_ok {r : Reply S} (h : c.exec e d = (.ok r, d')) :
    (callOr onError c next).direct e sc d = (next r).direct e sc d' := by
  rw [callOr, direct, h]

theorem direct_callOr_error {f : Failure} (h : c.exec e d = (.error f, d')) (hf : ∀ m, f ≠ .crash m) :
    (callOr onError c next).direct e sc d = (.ok (onError f), sc, d') := by
  rw [← serial_const _ 0]
  exact serial_callOr_error h hf

theorem direct_answerTyped {r : Reply S} (h : c.exec e d = (.ok r, d')) :
    (answerTyped c).direct e sc d = (.ok r.toValue, sc, d') := direct_callOr_ok h

/-- A command that returns a number. -/
theorem direct_answerTyped_int {op : Op S ℤ} (hop : c.op = Reply.int <$> op) {P : ℤ → DB S → Prop}
    (h : total e op P d) (sc : ScriptCache) :
    ∃ n d', (answerTyped c).direct e sc d = (.ok (.int n), sc, d') ∧ P n d' := by
  have htotal : total e c.op (fun r d' => ∃ n, r = .int n ∧ P n d') d := by
    rw [hop, total_map]
    exact total_mono h fun n d' hP => ⟨n, rfl, hP⟩
  obtain ⟨r, hr, n, rfl, hP⟩ := Cmd.exec_total htotal
  exact ⟨n, _, direct_answerTyped (Prod.ext hr rfl), hP⟩

/-- A handler that sends what the store returns, when the store meets no error. -/
theorem direct_callOr {r : Reply S} {P : DB S → Prop} (h : total e c.op (fun r' d' => r' = r ∧ P d') d) :
    ((callOr onError c fun r => reply r.toValue).direct e sc d).1 = .ok r.toValue ∧
      P ((callOr onError c fun r => reply r.toValue).direct e sc d).2.2 := by
  obtain ⟨r', hr, rfl, hP⟩ := Cmd.exec_total h
  rw [direct_callOr_ok (Prod.ext hr rfl)]
  exact ⟨rfl, hP⟩

omit [Float64 S] in
theorem errReply_type (f : Failure) : (errReply f).type = .error := by
  rw [errReply, Value.err]
  split <;> rfl

omit [Float64 S] in
theorem errReplyTyped_type (f : Failure) : (errReplyTyped f).type = .error := by
  rw [errReplyTyped]
  split
  · rfl
  · exact errReply_type f

/-- A reply that is no error comes from a result of the store. -/
theorem direct_callOr_result (honError : ∀ f, (onError f).type = .error) {v : Value} (hv : v.type ≠ .error)
    (h : ((callOr onError c fun r => reply r.toValue).direct e sc d).1 = .ok v) :
    ∃ r, c.exec e d = (.ok r, ((callOr onError c fun r => reply r.toValue).direct e sc d).2.2) ∧
      r.toValue = v := by
  rcases hexec : c.exec e d with ⟨r, d'⟩
  match r with
  | .ok r =>
      rw [direct_callOr_ok hexec] at h ⊢
      exact ⟨r, rfl, Except.ok.inj h⟩
  | .error (.crash m) =>
      rw [callOr, direct, hexec] at h
      cases h
  | .error (.db context x) =>
      rw [direct_callOr_error hexec nofun] at h
      cases h
      exact absurd (honError _) hv
  | .error (.error m) =>
      rw [direct_callOr_error hexec nofun] at h
      cases h
      exact absurd (honError _) hv

theorem direct_answer_ok {v : Value} (hv : v.type ≠ .error) (h : ((answer c).direct e sc d).1 = .ok v) :
    ∃ r, c.exec e d = (.ok r, ((answer c).direct e sc d).2.2) ∧ r.toValue = v :=
  direct_callOr_result errReply_type hv h

theorem direct_answerTyped_ok {v : Value} (hv : v.type ≠ .error)
    (h : ((answerTyped c).direct e sc d).1 = .ok v) :
    ∃ r, c.exec e d = (.ok r, ((answerTyped c).direct e sc d).2.2) ∧ r.toValue = v :=
  direct_callOr_result errReplyTyped_type hv h

end direct

end Proc

end Postkeys
