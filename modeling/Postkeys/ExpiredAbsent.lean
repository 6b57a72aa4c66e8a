import Postkeys.Ghost.Keys

/-! # Expired keys against missing keys

A key whose rows have all expired should behave like a key without rows.  Reads do, and so do writes
that replace a key or choose among live rows; other writes meet the expired rows: they keep the old
expiry of a row they rewrite, count it, take it for an existing one, or bring it back to life.
`Cmd.Spares` says for every command which expired rows it must not meet, and
`replies_dropKey_of_spared` that the replies of a run whose commands all meet this condition are
those of the run from the database without the key. -/

namespace Postkeys

open Relational Program

variable {S : Type} {now : Time} {d d₁ d₂ : DB S} {k : Bytes}

/-! ### The condition -/

/-- No row of the key in table `t` that satisfies `P` has expired. -/
def NoneExpired (now : Time) (d : DB S) (t : Tab) (k : Bytes) (P : t.Sub → Row S t → Prop) : Prop :=
  ∀ s c, (d.rows t k).row s = some c → P s c → c.live now = true

/-- No row of the key in table `t` has expired. -/
def TableLive (now : Time) (d : DB S) (t : Tab) (k : Bytes) : Prop :=
  NoneExpired now d t k fun _ _ => True

/-- What `EXPIRE` must not meet: where it applies a future expiry, expired rows of the key's type. -/
def ExpirySpares (now x : Time) (opts : ExpireOptions) (d : DB S) (k : Bytes) : Prop :=
  ∀ m, (d.rows .kvMeta k).row () = some m → expireWhereClause opts now x m.expiresAt = true →
    now < x → ∀ t, dataTableForType m.val = some t → TableLive now d t k

/-- When a command leaves expired rows alone: it meets none of them among the rows it reads or
changes without a look at their expiry. -/
def Cmd.Spares [Float64 S] (e : Env) (c : Cmd S) (d : DB S) : Prop :=
  match c with
  | .incr key _ | .append key _ | .setRange key _ _ | .setBit key _ _ =>
      TableLive e.now d .kvStrings (encodeKey key)
  | .incrByFloat key _ => TypeOk e.now d (encodeKey key) .string →
      TableLive e.now d .kvStrings (encodeKey key)
  | .bitField key ops => ∀ st, bitFieldLoop ⟨[], [], false⟩ ops = some st → st.modified = true →
      TableLive e.now d .kvStrings (encodeKey key)
  | .getEx key t p => p = true ∨ 0 < t →
      (live e.now (d.rows .kvStrings (encodeKey key))).row () ≠ none →
        TableLive e.now d .kvMeta (encodeKey key)
  | .expire key t opts => ExpirySpares e.now (pgTime (e.time + t)) opts d (encodeKey key)
  | .expireAt key timestamp opts => ExpirySpares e.now (sentTime timestamp) opts d (encodeKey key)
  | .persist key => ∀ m x, (d.rows .kvMeta (encodeKey key)).row () = some m →
      m.expiresAt = some x → e.now < x → ∀ t ∈ dataTables, TableLive e.now d t (encodeKey key)
  | .copy source destination replace => ∀ T, liveType e.now d (encodeKey source) = some T →
      liveType e.now d (encodeKey destination) = none ∨ replace = true →
        (T ≠ .hyperloglog → TableLive e.now d T.table (encodeKey source)) ∧
        (T = .string → liveType e.now d (encodeKey destination) = none →
          TableLive e.now d .kvStrings (encodeKey destination))
  | .hSet key fields => TypeOk e.now d (encodeKey key) .hash →
      NoneExpired e.now d .kvHashes (encodeKey key)
        fun f _ => ∃ f' v, fields.row f' = some v ∧ f = encodeField f'
  | .hDel key fields => NoneExpired e.now d .kvHashes (encodeKey key)
      fun f _ => f ∈ fields.map encodeField
  | .hIncrBy key field _ | .hIncrByFloat key field _ | .hSetNX key field _ =>
      TypeOk e.now d (encodeKey key) .hash →
        NoneExpired e.now d .kvHashes (encodeKey key) fun f _ => f = encodeField field
  | .lPush key _ | .rPush key _ | .lRange key _ _ => TypeOk e.now d (encodeKey key) .list →
      TableLive e.now d .kvLists (encodeKey key)
  | .lPop key | .rPop key | .lTrim key _ _ | .lPos key _ _ _ _ | .lSet key _ _
  | .lInsert key _ _ _ => TableLive e.now d .kvLists (encodeKey key)
  | .lRem key _ element => NoneExpired e.now d .kvLists (encodeKey key) fun _ c => c.val = element
  | .rPopLPush source destination => TableLive e.now d .kvLists (encodeKey source) ∧
      (d.rows .kvLists (encodeKey source) ≠ ∅ →
        TableLive e.now d .kvLists (encodeKey destination) ∧
          TableLive e.now d .kvMeta (encodeKey destination))
  | .sAdd key members => TypeOk e.now d (encodeKey key) .set →
      NoneExpired e.now d .kvSets (encodeKey key) fun m _ => m ∈ members
  | .sRem key members => NoneExpired e.now d .kvSets (encodeKey key) fun m _ => m ∈ members
  | .zAdd key members opts => TypeOk e.now d (encodeKey key) .zset →
      ¬ (liveType e.now d (encodeKey key) = none ∧ opts.XX = true) →
        NoneExpired e.now d .kvZsets (encodeKey key) fun m _ => m ∈ members.map ZMember.member
  | .zRem key members => NoneExpired e.now d .kvZsets (encodeKey key) fun m _ => m ∈ members
  | .zRemRangeByScore key min max => NoneExpired e.now d .kvZsets (encodeKey key)
      fun _ c => scoreBetween min max c.val = true
  | .zIncrBy key _ member => TableLive e.now d .kvMeta (encodeKey key) ∧
      NoneExpired e.now d .kvZsets (encodeKey key) fun m _ => m = member
  | .pfAdd key _ | .pfMerge key _ => TypeOk e.now d (encodeKey key) .hyperloglog →
      TableLive e.now d .kvHyperloglog (encodeKey key)
  | _ => True

theorem TableLive.unexpired {t : Tab} (h : TableLive now d t k) :
    ∀ s c, Unexpired now d t k s c := fun s c hc => h s c hc trivial

theorem NoneExpired.unexpired {t : Tab} {P : t.Sub → Row S t → Prop} (h : NoneExpired now d t k P)
    {s : t.Sub} {c : Row S t} (hP : P s c) : Unexpired now d t k s c := fun hc => h s c hc hP

/-! ### One command -/

section commands
variable {e : Env}

theorem ExpirySpares.agree {x : Time} {opts : ExpireOptions} (hd : Ghost e.now d₁ d₂)
    (h : ExpirySpares e.now x opts d₁ k) : Agree e (applyExpiry k x opts) d₁ d₂ :=
  agree_applyExpiry hd fun m hm hp hx t ht => (h m hm hp hx t ht).unexpired

theorem ExpirySpares.agree_expireAt {key : Bytes} {timestamp : ℤ} {opts : ExpireOptions}
    (hd : Ghost e.now d₁ d₂) (h : ExpirySpares e.now (sentTime timestamp) opts d₁ (encodeKey key)) :
    Agree e (expireAt key timestamp opts) d₁ d₂ := by
  rw [expireAt, Agree, lockstep_bind, lockKey, lockstep_acquire, lockstep_bind, lockstep_query]
  refine Sql.Blind.lockstep (blind_sendTime timestamp) hd fun x hx => ?_
  rw [sendTime] at hx
  split at hx
  · cases hx
    exact h.agree hd
  · cases hx

theorem Agree.map {α β : Type} {p : Op S α} (f : α → β) (h : Agree e p d₁ d₂) :
    Agree e (f <$> p) d₁ d₂ := lockstep_map p f |>.mpr h

variable [Float64 S]

theorem Cmd.Spares.agree {c : Cmd S} (h : c.Spares e d₁) (hd : Ghost e.now d₁ d₂) :
    Agree e c.op d₁ d₂ := by
  have hout := hd.out
  cases c
  case set k v t => exact (agree_of_steady (steady_set k v t) hout).map _
  case setNX k v t => exact (agree_of_steady (steady_setNX k v t) hout).map _
  case mSet m => exact (agree_mSet m hout).map _
  case incr k n => exact (agree_of_steady (steady_incr n h.unexpired) hout).map _
  case incrByFloat k x => exact (agree_incrByFloat x hout fun hT => (h hT).unexpired).map _
  case append k v => exact (agree_of_steady (steady_appendStr v h.unexpired) hout).map _
  case setRange k i v => exact (agree_of_steady (steady_setRange i v h.unexpired) hout).map _
  case getEx k t p => exact (agree_getEx hd fun hp hv => (h hp hv).unexpired).map _
  case getDel k => exact (agree_of_steady (steady_getDel k) hout).map _
  case getSet k v => exact (agree_of_steady (steady_getSet k v) hout).map _
  case bitField k ops =>
    exact (agree_bitField ops hd fun st hst hm => (h st hst hm).unexpired).map _
  case del ks => exact (agree_of_steady (steady_delLoop 0 _) hout).map _
  case expire k t opts => exact Agree.map (p := Postkeys.expire k t opts) _ (ExpirySpares.agree hd h)
  case expireAt k t opts => exact (ExpirySpares.agree_expireAt hd h).map _
  case persist k =>
    exact (agree_persist hd fun m x hm hx hlt t ht => (h m x hm hx hlt t ht).unexpired).map _
  case rename k k' => exact (agree_rename k k' hd).map _
  case copy k k' r =>
    refine (agree_copyKey hd fun T hT hgo => ?_).map _
    obtain ⟨hsrc, hdst⟩ := h T hT hgo
    exact ⟨fun hne => (hsrc hne).unexpired, fun hs hn => (hdst hs hn).unexpired⟩
  case setBit k i v => exact (agree_of_steady (steady_setBit i v h.unexpired) hout).map _
  case bitOp op k ks => exact (agree_bitOp op k ks hout).map _
  case hSet k fields =>
    exact (agree_hSet hout fun hT f v hf c => (h hT).unexpired ⟨f, v, hf, rfl⟩).map _
  case hDel k fs =>
    exact (agree_of_steady (steady_hDel fun f hf c => h.unexpired (List.mem_map_of_mem hf)) hout).map _
  case hIncrBy k f n => exact (agree_hIncrBy n hout fun hT c => (h hT).unexpired rfl).map _
  case hIncrByFloat k f x => exact (agree_hIncrByFloat x hout fun hT c => (h hT).unexpired rfl).map _
  case hSetNX k f v => exact (agree_hSetNX v hout fun hT c => (h hT).unexpired rfl).map _
  case lPush k vs => exact (agree_push vs _ _ _ hout fun hT => (h hT).unexpired).map _
  case rPush k vs => exact (agree_push vs _ _ _ hout fun hT => (h hT).unexpired).map _
  case lPop k => exact (agree_of_steady (steady_lPop h.unexpired) hout).map _
  case rPop k => exact (agree_of_steady (steady_rPop h.unexpired) hout).map _
  case lPopMulti ks => exact (agree_of_steady (steady_popMulti ks _) hout).map _
  case rPopMulti ks => exact (agree_of_steady (steady_popMulti ks _) hout).map _
  case lMPop ks n => exact (agree_of_steady (steady_popMultiN ks _ n) hout).map _
  case rMPop ks n => exact (agree_of_steady (steady_popMultiN ks _ n) hout).map _
  case lRange k i j => exact (agree_lRange i j hout fun hT => (h hT).unexpired).map _
  case lRem k n v =>
    exact (agree_of_steady (steady_lRem n fun s c hv => h.unexpired hv) hout).map _
  case lTrim k i j => exact (agree_of_steady (steady_lTrim i j h.unexpired) hout).map _
  case rPopLPush k k' =>
    exact (agree_rPopLPush hout h.1.unexpired fun hne =>
      ⟨(h.2 hne).1.unexpired, (h.2 hne).2.unexpired⟩).map _
  case lPos k v r n m => exact (agree_of_steady (steady_lPos v r n m h.unexpired) hout).map _
  case lSet k i v => exact (agree_of_steady (steady_lSet i v h.unexpired) hout).map _
  case lInsert k p v b => exact (agree_of_steady (steady_lInsert p v b h.unexpired) hout).map _
  case sAdd k ms => exact (agree_sAdd hout fun hT m hm c => (h hT).unexpired hm).map _
  case sRem k ms =>
    exact (agree_of_steady (steady_sRem fun m hm c => h.unexpired hm) hout).map _
  case sInterStore k ks =>
    exact (agree_query (blind_sInter _) hd fun ms => agree_storeSet k ms hout).map _
  case sUnionStore k ks =>
    exact (agree_query (blind_sUnion _) hd fun ms => agree_storeSet k ms hout).map _
  case sDiffStore k ks =>
    exact (agree_query (blind_sDiff _) hd fun ms => agree_storeSet k ms hout).map _
  case zAdd k ms opts =>
    exact (agree_zAdd hout fun hT hgo m hm c =>
      (h hT hgo).unexpired (List.mem_map_of_mem hm)).map _
  case zRangeStore k k' spec => exact (agree_zRangeStore k k' spec hout).map _
  case zMPopMin ks n => exact (agree_of_steady (steady_zMPop ks _ n) hout).map _
  case zMPopMax ks n => exact (agree_of_steady (steady_zMPop ks _ n) hout).map _
  case zRem k ms =>
    exact (agree_of_steady (steady_zRem fun m hm c => h.unexpired hm) hout).map _
  case zRemRangeByScore k a b =>
    exact (agree_of_steady (steady_zRemRangeByScore fun s c hs => h.unexpired hs) hout).map _
  case zRemRangeByRank k i j => exact (agree_of_steady (steady_zRemRangeByRank k i j) hout).map _
  case zIncrBy k x m =>
    exact (agree_of_steady (steady_zIncrBy x h.1.unexpired fun c => h.2.unexpired rfl) hout).map _
  case zPopMin k n => exact (agree_zPop k n _ hd).map _
  case zPopMax k n => exact (agree_zPop k n _ hd).map _
  case zUnionStore k ks ws a => exact (agree_zUnionStore k ks ws a hd).map _
  case zInterStore k ks ws a => exact (agree_zInterStore k ks ws a hd).map _
  case pfAdd k vs => exact (agree_pfAdd vs hout fun hT => (h hT).unexpired).map _
  case pfMerge k ks => exact (agree_pfMerge ks hout fun hT => (h hT).unexpired).map _
  case flushDB => exact (agree_of_steady steady_flushDB hout).map _
  all_goals exact (Cmd.blind_op rfl).lockstep hd fun _ => hd

/-- **A command that spares expired rows** replies the same on both databases and leaves them equal
up to expired rows. -/
theorem Cmd.Spares.exec {c : Cmd S} (h : c.Spares e d₁) (hd : Ghost e.now d₁ d₂) :
    (c.exec e d₂).1 = (c.exec e d₁).1 ∧ Ghost e.now (c.exec e d₁).2 (c.exec e d₂).2 := by
  obtain ⟨hreply, haborted, hview⟩ := lockstep_sound (h.agree hd)
  unfold Cmd.exec
  revert hreply haborted hview
  generalize c.op.eval e (Tx.clean d₁) = r₁
  generalize c.op.eval e (Tx.clean d₂) = r₂
  obtain ⟨o₁, tx₁⟩ := r₁
  obtain ⟨o₂, tx₂⟩ := r₂
  rintro rfl haborted hview
  dsimp only at haborted hview ⊢
  cases o₁ with
  | error f =>
      refine ⟨rfl, ?_⟩
      dsimp only
      split
      · exact hview
      · exact hd
  | ok r =>
      dsimp only
      rw [← haborted]
      split
      · exact ⟨rfl, hd⟩
      · exact ⟨rfl, hview⟩

/-! ### Runs -/

/-- The replies to the commands of a run. -/
def replies : List (Env × Cmd S) → DB S → List (Except Failure (Reply S))
  | [], _ => []
  | (e, c) :: steps, d => (c.exec e d).1 :: replies steps (c.exec e d).2

/-- Time does not go back, and every command spares the expired rows of the state it starts from. -/
def SparedRun : Time → List (Env × Cmd S) → DB S → Prop
  | _, [], _ => True
  | now, (e, c) :: steps, d => now ≤ e.now ∧ c.Spares e d ∧ SparedRun e.now steps (c.exec e d).2

/-- All rows of the key have expired. -/
def Expired (now : Time) (d : DB S) (k : Bytes) : Prop := ∀ t, live now (d.rows t k) = ∅

theorem replies_of_ghost {steps : List (Env × Cmd S)} (hd : Ghost now d₁ d₂)
    (hrun : SparedRun now steps d₁) : replies steps d₂ = replies steps d₁ := by
  induction steps generalizing now d₁ d₂ with
  | nil => rfl
  | cons step steps ih =>
      obtain ⟨e, c⟩ := step
      obtain ⟨hle, hc, hrest⟩ := hrun
      obtain ⟨hreply, hghost⟩ := hc.exec (hd.mono hle)
      rw [replies, replies, hreply, ih hghost hrest]

omit [Float64 S] in
theorem Expired.ghost_dropKey (h : Expired now d k) : Ghost now d (d.dropKey k) := by
  intro t k' s
  by_cases hk : k' = k
  · subst hk
    rw [Store.rows_dropKey_self]
    cases hc : (d.rows t k').row s with
    | none => exact Or.inl rfl
    | some c =>
        refine Or.inr ⟨rfl, c, rfl, ?_⟩
        by_contra hlive
        exact live_ne_empty.mpr ⟨s, c, hc, by simpa using hlive⟩ (h t)
  · rw [Store.rows_dropKey_of_ne _ _ hk]
    exact Or.inl rfl

/-- **Expired means absent**: the replies of a run that spares expired rows are those of the run from
the database without the rows of a key that have all expired. -/
theorem replies_dropKey_of_spared {steps : List (Env × Cmd S)} (hk : Expired now d k)
    (hrun : SparedRun now steps d) : replies steps (d.dropKey k) = replies steps d :=
  replies_of_ghost hk.ghost_dropKey hrun

end commands

theorem tableLive_strings (h : ((d.rows .kvStrings k).row ()).all (fun c => c.live now) = true) :
    TableLive now d .kvStrings k := by
  rintro ⟨⟩ c hc -
  simpa [hc] using h

/-- `SET k 1 EX 10` at the beginning of time. -/
def stringWithTtl : DB ℤ := ((Cmd.set [107] [49] 10000000000).exec (envAt 0) emptyDB).2

/-- The condition at work: `GET k`, `SET k 5` and `INCR k` twenty seconds later. -/
theorem replies_dropKey_of_spared_getSetIncr :
    replies [(envAt 20000000, .get [107]), (envAt 20000000, .set [107] [53] 0),
        (envAt 20000000, .incr [107] 1)] (stringWithTtl.dropKey [107]) =
      replies [(envAt 20000000, .get [107]), (envAt 20000000, .set [107] [53] 0),
        (envAt 20000000, .incr [107] 1)] stringWithTtl := by
  have hexpired : Expired 20000000 stringWithTtl [107] := by
    unfold Expired
    decide
  refine replies_dropKey_of_spared hexpired
    ⟨le_rfl, trivial, le_rfl, trivial, le_rfl, tableLive_strings ?_, trivial⟩
  decide

/-! ### An expired list -/

/-- `RPUSH k a`, then `EXPIRE k 10`. -/
def listWithTtl : DB ℤ :=
  ((Cmd.expire [107] 10000000000 ⟨false, false, false, false⟩).exec (envAt 0)
    ((Cmd.rPush [107] [[97]]).exec (envAt 0) emptyDB).2).2

/-- The elements in a reply of `LRANGE`. -/
def Reply.elements : Except Failure (Reply ℤ) → List Bytes
  | .ok (.values vs) => vs
  | _ => []

/-- Twenty seconds later `LRANGE k 0 -1` still shows the element. -/
theorem lRange_shows_expired : Expired 20000000 listWithTtl [107] ∧
    replies [(envAt 20000000, .lRange [107] 0 (-1))] (listWithTtl.dropKey [107]) ≠
      replies [(envAt 20000000, .lRange [107] 0 (-1))] listWithTtl := by
  refine ⟨by unfold Expired; decide, fun h => ?_⟩
  have helements := congrArg (List.map Reply.elements) h
  revert helements
  decide

end Postkeys
