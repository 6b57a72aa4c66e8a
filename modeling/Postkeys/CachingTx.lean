import Postkeys.CacheTransparency

/-! # Transactions through the cached store

`CachingTx` wraps a transaction of the backend.  It runs every call inside the transaction and
collects, for the calls that are answered with a reply, the keys whose cached values will be stale;
a successful `Commit` drops them from the cache.

`finish_agrees` says when the cache agrees with the backend after the transaction.  `ZRANGESTORE` is
not wrapped, so it must not replace a string; a call that gives up half way is not recorded, so it
must not have changed a string before; and the keys are subject to the conditions of the cached
store. -/

namespace Postkeys

open Relational Program

variable {S : Type}

/-! ### The wrapper -/

/-- A transaction and the keys it has written. -/
structure CachingTx (S : Type) where
  tx : Tx Bytes Tab.Sub (Row S)
  dirty : List Bytes

/-- The calls of the transaction interface, apart from its end: `LockKeys` and the operations, which
`FlushDB` is not. -/
inductive TxCall (S : Type)
  | lockKeys (keys : List Bytes)
  | op (c : Cmd S) (h : c ≠ .flushDB)

/-- The keys that a call marks after the transaction has answered it with a reply: those that the
cached store would drop, except that `ZRangeStore` is the method of the wrapped transaction and
that `ZPopMin` marks its key only if it popped something. -/
def Cmd.marks (c : Cmd S) (r : Reply S) : List Bytes :=
  match c, r with
  | .zRangeStore _ _ _, _ => []
  | .zPopMin key _, .members (_ :: _) => [key]
  | .zPopMin _ _, _ => []
  | c, r => c.invalidates r

namespace CachingTx

/-- `BeginTx`. -/
def begin (d : DB S) : CachingTx S := ⟨Tx.clean d, []⟩

def mark (keys : List Bytes) (t : CachingTx S) : CachingTx S := { t with dirty := keys ∪ t.dirty }

/-- How a transaction is ended: `Commit`, over a connection that may break, or `Rollback`. -/
inductive Ending
  | commit (connected : Bool)
  | rollback
deriving DecidableEq, Repr

/-- `Commit` and `Rollback`: whether the transaction was committed, and the store afterwards.  The
server turns the `COMMIT` of an aborted transaction into a rollback. -/
def finish (ending : Ending) (t : CachingTx S) (s : CachedStore S) : Bool × CachedStore S :=
  match ending with
  | .rollback => (false, s)
  | .commit connected =>
      if connected && !t.tx.aborted then
        (true, { s with backend := t.tx.view }.invalidateMulti t.dirty)
      else (false, s)

section calls
variable [Float64 S]

/-- One call inside the transaction. -/
def call (e : Env) (c : TxCall S) (t : CachingTx S) : Except Failure (Reply S) × CachingTx S :=
  match c with
  | .lockKeys ks =>
      match (Postkeys.lockKeys (encodeKeys ks) : Op S Unit).eval e t.tx with
      | (.ok _, tx) => (.ok .ok, { t with tx := tx })
      | (.error f, tx) => (.error f, { t with tx := tx })
  | .op c _ =>
      match c.op.eval e t.tx with
      | (.ok reply, tx) => (.ok reply, { t with tx := tx }.mark (c.marks reply))
      | (.error f, tx) => (.error f, { t with tx := tx })

/-- The calls of a transaction, one after the other. -/
def run : List (Env × TxCall S) → CachingTx S → CachingTx S
  | [], t => t
  | (e, c) :: calls, t => run calls (t.call e c).2

end calls

end CachingTx

/-! ### What the wrapper gets right -/

/-- The calls whose writes of strings the wrapper records, in the tables the transaction sees. -/
structure Cmd.Covered (A : Set Bytes) (now : Time) (d : DB S) (c : Cmd S) : Prop where
  tracked : ∀ r, ∀ key ∈ c.marks r, key ∈ A
  clean : c.FailsClean now d
  stored : ∀ dst src spec, c = .zRangeStore dst src spec → d.rows .kvStrings (encodeKey dst) = ∅

/-- The same for all calls of the interface; locking is harmless. -/
def TxCall.Covered (A : Set Bytes) (now : Time) (d : DB S) : TxCall S → Prop
  | .lockKeys _ => True
  | .op c _ => c.Covered A now d

/-- All calls of a transaction that began at `now` are covered, as long as it can be committed. -/
def CachingTx.Covered [Float64 S] (A : Set Bytes) (now : Time) :
    List (Env × TxCall S) → CachingTx S → Prop
  | [], _ => True
  | (e, c) :: calls, t =>
      e.now = now ∧ (t.tx.aborted = false → c.Covered A now t.tx.view) ∧
        CachingTx.Covered A now calls (t.call e c).2

variable {A : Set Bytes} {e : Env} {now now' : Time} {d d' d'' : DB S} {ks ks' : List Bytes}
  {t : CachingTx S}

theorem StringsKept.trans (h : StringsKept ks d d') (h' : StringsKept ks' d' d'') :
    StringsKept (ks' ∪ ks) d d'' := by
  intro k hk
  rw [h' k fun key hkey => hk key (List.mem_union_iff.mpr (Or.inl hkey)),
    h k fun key hkey => hk key (List.mem_union_iff.mpr (Or.inr hkey))]

/-- The state of a transaction between two calls: it will be rolled back, or the strings that it
changed are marked. -/
def CachingTx.Marked (A : Set Bytes) (d : DB S) (t : CachingTx S) : Prop :=
  t.tx.aborted = true ∨
    t.tx = Tx.clean t.tx.view ∧ StringsKept t.dirty d t.tx.view ∧ ∀ key ∈ t.dirty, key ∈ A

/-- A program run inside the transaction: it is aborted, or the program ended as it should and the
transaction can go on. -/
theorem CachingTx.Marked.eval {α : Type} {p : Op S α} {Q : Except Failure α → DB S → Prop}
    {r : Except Failure α} {tx : Tx Bytes Tab.Sub (Row S)} (h : t.Marked A d)
    (hp : t.tx.aborted = false → p.Outcome e Q t.tx.view) (hev : p.eval e t.tx = (r, tx)) :
    tx.aborted = true ∨ t.tx = Tx.clean t.tx.view ∧ StringsKept t.dirty d t.tx.view ∧
      (∀ key ∈ t.dirty, key ∈ A) ∧ Q r tx.view ∧ tx = Tx.clean tx.view := by
  rcases h with hab | ⟨htx, hkept, hmem⟩
  · have hsame := eval_aborted (e := e) p t.tx hab
    rw [hev] at hsame
    exact Or.inl (by rw [show tx = t.tx from hsame, hab])
  · by_cases hab : tx.aborted = true
    · exact Or.inl hab
    · have hout := hp (by rw [htx]; rfl)
      rw [htx] at hev
      exact Or.inr ⟨htx, hkept, hmem, outcome_sound hout hev (by simpa using hab)⟩

section steps
variable [Float64 S]

/-- A covered call that is answered with a reply has changed strings only under keys it marks. -/
theorem Cmd.Covered.marks_kept {c : Cmd S} (hc : c ≠ .flushDB) (h : c.Covered A now d) :
    wp e c.op (fun r d' => StringsKept (c.marks r) d d') d := by
  have hkept := c.op_kept (e := e) (d := d) hc
  cases c
  case zRangeStore dst src spec =>
    have heffect : wp e (Cmd.zRangeStore dst src spec).op (fun _ d' => Replaced d d' .zset) d :=
      (wp_map _ _).mpr (replaced_of_settled (zRangeStore_effect dst src spec))
    refine wp_mono (wp_and hkept heffect) ?_
    rintro r d' ⟨hd', hrep⟩ k -
    by_cases hk : encodeKey dst = k
    · subst hk
      -- the destination held no string, and holds none now
      rcases hrep (encodeKey dst) with hsame | ⟨x, hfresh⟩
      · exact congrFun hsame .kvStrings
      · rw [h.stored dst src spec rfl]
        exact hfresh.other .kvStrings (by decide) (by decide)
    · exact hd' k fun key hkey => by
        rw [show key = dst from List.mem_singleton.mp hkey]
        exact hk
  case zPopMin key n =>
    refine kept_of_writes fun r k hk => ?_
    simp [Cmd.writes, typedRows, KeyType.table] at hk
  all_goals exact hkept

theorem CachingTx.Marked.lockKeys (h : t.Marked A d) (ks : List Bytes) :
    (t.call e (.lockKeys ks)).2.Marked A d := by
  have hwrites : (Postkeys.lockKeys (encodeKeys ks) : Op S Unit).Writes fun _ _ => False :=
    lockKeys_writes _
  have hout : (Postkeys.lockKeys (encodeKeys ks) : Op S Unit).Outcome e
      (fun _ d' => StringsKept [] t.tx.view d') t.tx.view :=
    (Within.outcome Store.AgreeOff.refl Store.AgreeOff.trans hwrites).mono
      fun _ _ hd k _ => hd .kvStrings k id
  rcases hev : (Postkeys.lockKeys (encodeKeys ks) : Op S Unit).eval e t.tx with ⟨r, tx⟩
  have hcall : (t.call e (.lockKeys ks)).2 = { t with tx := tx } := by
    unfold CachingTx.call
    cases r with
    | ok u => simp only [hev]
    | error f => simp only [hev]
  rw [hcall]
  rcases h.eval (fun _ => hout) hev with hab | ⟨-, hkept, hmem, hkept', hclean⟩
  · exact Or.inl hab
  · exact Or.inr ⟨hclean, hkept.trans hkept', hmem⟩

theorem CachingTx.Marked.op {c : Cmd S} (hc : c ≠ .flushDB)
    (h : t.Marked A d) (hcov : t.tx.aborted = false → c.Covered A e.now t.tx.view) :
    (t.call e (.op c hc)).2.Marked A d := by
  rcases hev : c.op.eval e t.tx with ⟨r, tx⟩
  rcases h.eval (fun hab => c.fails_kept hc (hcov hab).clean) hev with
    hab | ⟨htx, hkept, hmem, hfail, hclean⟩
  · left
    cases r with
    | ok r => simpa only [CachingTx.call, hev, CachingTx.mark] using hab
    | error f => simpa only [CachingTx.call, hev] using hab
  right
  have hcov := hcov (by rw [htx]; rfl)
  cases r with
  | error f =>
      simp only [CachingTx.call, hev]
      exact ⟨hclean, hkept.trans (hfail f rfl), hmem⟩
  | ok r =>
      have hmarks : StringsKept (c.marks r) t.tx.view tx.view :=
        wp_sound (hcov.marks_kept hc) (htx ▸ hev) (by rw [hclean]; rfl)
      simp only [CachingTx.call, hev, CachingTx.mark]
      refine ⟨hclean, hkept.trans hmarks, fun key hkey => ?_⟩
      rcases List.mem_union_iff.mp hkey with hkey | hkey
      · exact hcov.tracked r key hkey
      · exact hmem key hkey

/-- Calls keep the invariant. -/
theorem CachingTx.Marked.run (calls : List (Env × TxCall S)) (h : t.Marked A d)
    (hcov : CachingTx.Covered A now calls t) : (CachingTx.run calls t).Marked A d := by
  induction calls generalizing t with
  | nil => exact h
  | cons ec calls ih =>
      obtain ⟨e, c⟩ := ec
      obtain ⟨rfl, hc, hcalls⟩ := hcov
      refine ih ?_ hcalls
      cases c with
      | lockKeys ks => exact h.lockKeys ks
      | op c hne => exact h.op hne hc

/-! ### The end of the transaction -/

/-- **Transactions through the cache**: if the cache agrees with the backend when a transaction
begins and all its calls are covered, the cache agrees with the backend after a successful commit,
as long as nothing lapses; and a rollback or a failed commit changes nothing. -/
theorem CachingTx.finish_agrees (hinj : Set.InjOn encodeKey A) {s : CachedStore S}
    (h : s.cache.Agrees A now s.backend) (calls : List (Env × TxCall S))
    (hcov : CachingTx.Covered A now calls (CachingTx.begin s.backend)) (ending : Ending)
    {committed : Bool} {s' : CachedStore S}
    (hend : (CachingTx.run calls (CachingTx.begin s.backend)).finish ending s = (committed, s')) :
    (committed = true → ∀ now', NoLapse now now' s'.backend → s'.cache.Agrees A now' s'.backend) ∧
      (committed = false → s' = s) := by
  have hbegin : (CachingTx.begin s.backend).Marked A s.backend :=
    Or.inr ⟨rfl, StringsKept.refl _ _, fun key hkey => by cases hkey⟩
  have hrun := hbegin.run calls hcov
  unfold CachingTx.finish at hend
  cases ending with
  | rollback =>
      cases hend
      exact ⟨nofun, fun _ => rfl⟩
  | commit connected =>
      dsimp only at hend
      split at hend
      · rename_i hok
        cases hend
        refine ⟨fun _ now' hl => ?_, nofun⟩
        rcases hrun with hab | ⟨-, hkept, hmem⟩
        · simp [hab] at hok
        · exact (h.deleteMulti hinj hmem hkept).of_noLapse hl
      · cases hend
        exact ⟨nofun, fun _ => rfl⟩

end steps

/-- A store with the string `v` under the key `k`, in the table and in the cache. -/
def cachedText : CachedStore ℤ :=
  ((CachedStore.new ⟨1000, 0, [], []⟩
    ((Cmd.set [107] [118] 0).exec (envAt 0) emptyDB).2).get (envAt 0) 0 0 [107]).2

/-- `ZRANGESTORE k z 0 -1`. -/
def storeRange : TxCall ℤ := .op (.zRangeStore [107] [122] ⟨.index 0 (-1), false, 0, 0⟩) nofun

/-- `SET k w` in a transaction. -/
theorem finish_agrees_set :
    let r := (CachingTx.run [(envAt 0, .op (.set [107] [119] 0) nofun)]
      (CachingTx.begin cachedText.backend)).finish (.commit true) cachedText
    r.1 = true ∧ r.2.cache.Agrees {[107]} 0 r.2.backend := by
  have hempty : (CachedStore.new ⟨1000, 0, [], []⟩
      ((Cmd.set (S := ℤ) [107] [118] 0).exec (envAt 0) emptyDB).2).cache.Agrees {[107]} 0
        ((Cmd.set (S := ℤ) [107] [118] 0).exec (envAt 0) emptyDB).2 := fun key en hen => by cases hen
  have hagrees := (CachedStore.get_agrees (e := envAt 0) 0 0 hempty rfl).2.2
  intro r
  have hok : r.1 = true := by decide
  refine ⟨hok, ?_⟩
  have hfin := CachingTx.finish_agrees (A := {[107]}) (by simp) (s := cachedText) hagrees
    [(envAt 0, .op (.set [107] [119] 0) nofun)] ?_ (.commit true) rfl
  · exact hfin.1 hok 0 fun _ _ _ h => h
  · refine ⟨rfl, fun _ => ⟨fun r key hkey => ?_, trivial, fun _ _ _ h => by cases h⟩, trivial⟩
    simpa [Cmd.marks, Cmd.invalidates] using hkey

/-- `ZRANGESTORE k z 0 -1` in a transaction deletes the string and leaves it in the cache. -/
theorem zRangeStore_leaves_cached :
    let r := (CachingTx.run [(envAt 0, storeRange)]
      (CachingTx.begin cachedText.backend)).finish (.commit true) cachedText
    cachedText.lookup 0 [107] = some [118] ∧
      Reply.found ((Cmd.get [107]).exec (envAt 0) cachedText.backend).1 = some [118] ∧
      r.1 = true ∧ r.2.lookup 0 [107] = some [118] ∧
      Reply.found ((Cmd.get [107]).exec (envAt 0) r.2.backend).1 = none := by
  decide

end Postkeys
