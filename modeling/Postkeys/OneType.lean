import Postkeys.Effects.Commands

/-! # One type per key

A key should have rows in one data table only, and its `kv_meta` row should name that table.  Most
commands keep this because they replace the key, only remove rows, or check the type first.  Some
write rows of their own type whatever is there: `Cmd.KeepsType` is the condition on the tables under
which the next command keeps the invariant, and `oneType_of_reached` the invariant of all runs whose
commands meet it. -/

namespace Postkeys

open Relational

variable {S : Type} {now now' : Time} {d d' : DB S} {k : Bytes} {T : KeyType} {r r' : KeyRows S}
  {x : Option Time}

/-- Each key has rows in at most one data table, and if it has rows and a live `kv_meta` row, that
row names the type of that table. -/
def OneType (now : Time) (d : DB S) : Prop :=
  ∀ k, (∀ t t', t ≠ .kvMeta → t' ≠ .kvMeta → d.rows t k ≠ ∅ → d.rows t' k ≠ ∅ → t = t') ∧
    ∀ T, d.rows T.table k ≠ ∅ → ∀ T', liveType now d k = some T' → T' = T

/-- The key has no rows outside the table of type `T`. -/
def Free (d : DB S) (T : KeyType) (k : Bytes) : Prop :=
  ∀ t, t ≠ .kvMeta → t ≠ T.table → d.rows t k = ∅

instance (d : DB S) (T : KeyType) (k : Bytes) : Decidable (Free d T k) :=
  inferInstanceAs (Decidable (∀ t, t ≠ .kvMeta → t ≠ T.table → d.rows t k = ∅))

/-- When a command keeps the types of the keys apart: a command that writes rows next to what is
there finds no rows of another type, and one that leaves the `kv_meta` row alone no live row of
another type either. -/
def Cmd.KeepsType (now : Time) (c : Cmd S) (d : DB S) : Prop :=
  match c with
  | .getSet key _ => Free d .string (encodeKey key)
  | .zIncrBy key _ _ => Free d .zset (encodeKey key) ∧ TypeOk now d (encodeKey key) .zset
  | .rPopLPush source destination => d.rows .kvLists (encodeKey source) = ∅ ∨
      Free d .list (encodeKey destination) ∧ TypeOk now d (encodeKey destination) .list
  | .copy source destination _ => ∀ T, liveType now d (encodeKey source) = some T →
      T ≠ .hyperloglog → liveType now d (encodeKey destination) = none →
        Free d T (encodeKey destination)
  | c => ∀ k T, c.upserts now d = some (k, T) → Free d T k

/-! ### The invariant of one key -/

/-- The invariant of a key.  The `kv_meta` row of a string is right even when it has expired, since
`GETEX` revives it unseen. -/
structure KeyTyped (now : Time) (r : KeyRows S) : Prop where
  one : ∀ t t', t ≠ .kvMeta → t' ≠ .kvMeta → r t ≠ ∅ → r t' ≠ ∅ → t = t'
  names : ∀ T m, r T.table ≠ ∅ → (r .kvMeta).row () = some m →
    m.val = T ∨ T ≠ .string ∧ m.live now = false

theorem KeyType.table_injective : Function.Injective KeyType.table := by
  intro T T' h
  cases T <;> cases T' <;> first | rfl | cases h

/-- A key with rows in the table of `T` only. -/
theorem KeyTyped.of_other (hother : ∀ t, t ≠ .kvMeta → t ≠ T.table → r t = ∅)
    (hnames : ∀ m, (r .kvMeta).row () = some m → m.val = T ∨ T ≠ .string ∧ m.live now = false) :
    KeyTyped now r where
  one t t' ht ht' hr hr' := by
    have h (u : Tab) (hu : u ≠ .kvMeta) (hne : r u ≠ ∅) : u = T.table := by
      by_contra huT
      exact hne (hother u hu huT)
    rw [h t ht hr, h t' ht' hr']
  names T' m hr hm := by
    have hT : T' = T := by
      by_contra hne
      exact hr (hother _ T'.table_ne_meta fun h => hne (KeyType.table_injective h))
    subst hT
    exact hnames m hm

theorem KeyTyped.of_fresh (h : Fresh r T x) : KeyTyped now r :=
  .of_other h.other fun m hm => Or.inl (by rw [h.info m hm])

theorem KeyTyped.of_upserted (h : Upserted r r' T)
    (hfree : ∀ t, t ≠ .kvMeta → t ≠ T.table → r t = ∅) : KeyTyped now r' := by
  refine .of_other (fun t hm ht => (h.other t hm ht).trans (hfree t hm ht)) fun m hm => Or.inl ?_
  rw [h.info, Option.some.injEq] at hm
  rw [← hm]

theorem KeyTyped.of_ensured (h : Ensured r r' T) (hT : T ≠ .string)
    (hfree : ∀ t, t ≠ .kvMeta → t ≠ T.table → r t = ∅)
    (hok : ∀ m, (r .kvMeta).row () = some m → m.live now = true → m.val = T) : KeyTyped now r' := by
  refine .of_other (fun t hm ht => (h.other t hm ht).trans (hfree t hm ht)) fun m hm => ?_
  rw [h.info, Option.some.injEq] at hm
  cases hrow : (r .kvMeta).row () with
  | none =>
      rw [hrow] at hm
      exact Or.inl (by rw [← hm]; rfl)
  | some m₀ =>
      rw [hrow, Option.getD_some] at hm
      subst hm
      cases hlive : m₀.live now with
      | true => exact Or.inl (hok m₀ hrow hlive)
      | false => exact Or.inr ⟨hT, rfl⟩

theorem Retimed.ne_empty {ts : List Tab} (h : Retimed r r' ts x) {t : Tab}
    (ht : t ≠ .kvMeta) (hr : r' t ≠ ∅) : r t ≠ ∅ := by
  rw [h.data t ht] at hr
  split at hr
  · rintro hempty
    rw [hempty] at hr
    exact hr (Table.ext_row fun s => by simp [Table.update_row])
  · exact hr

/-- A new expiry keeps the invariant where the `kv_meta` row is right. -/
theorem KeyTyped.of_retimed {ts : List Tab} (hr : KeyTyped now r)
    (h : Retimed r r' ts x)
    (hval : ∀ T m, r T.table ≠ ∅ → (r .kvMeta).row () = some m → m.val = T) : KeyTyped now r' where
  one t t' ht ht' hne hne' := hr.one t t' ht ht' (h.ne_empty ht hne) (h.ne_empty ht' hne')
  names T m hne hm := by
    rw [h.info] at hm
    obtain ⟨m₀, hm₀, rfl⟩ := Option.map_eq_some_iff.mp hm
    exact Or.inl (hval T m₀ (h.ne_empty T.table_ne_meta hne) hm₀)

theorem KeyTyped.of_trimmed (hr : KeyTyped now (keyRows d k)) (h : Trimmed d d') :
    KeyTyped now (keyRows d' k) := by
  have hne (t : Tab) (ht : keyRows d' k t ≠ ∅) : keyRows d k t ≠ ∅ := by
    obtain ⟨s, c, hc⟩ := Table.ne_empty_iff.mp ht
    obtain ⟨s₀, c₀, hc₀, -⟩ := h t k s c hc
    exact Table.ne_empty_of_row hc₀
  refine ⟨fun t t' ht ht' hr₁ hr₂ => hr.one t t' ht ht' (hne t hr₁) (hne t' hr₂), ?_⟩
  intro T m hT hm
  obtain ⟨s₀, m₀, hm₀, hexp, hval⟩ := h .kvMeta k () m hm
  rw [← hval rfl, ← Cell.live_congr hexp]
  exact hr.names T m₀ (hne _ hT) hm₀

theorem KeyTyped.mono (hr : KeyTyped now r) (hle : now ≤ now') : KeyTyped now' r where
  one := hr.one
  names T m hT hm := (hr.names T m hT hm).imp id fun h => ⟨h.1, Cell.live_false_mono h.2 hle⟩

/-! ### The invariant of the store -/

/-- The invariant of all keys. -/
def Typed (now : Time) (d : DB S) : Prop := ∀ k, KeyTyped now (keyRows d k)

theorem Typed.of_frame (hd : Typed now d) (hf : Frame d d' k) (hk : KeyTyped now (keyRows d' k)) :
    Typed now d' := by
  intro k'
  by_cases hkk : k' = k
  · subst hkk
    exact hk
  · have hrows : keyRows d' k' = keyRows d k' := funext fun t => hf t k' hkk
    rw [hrows]
    exact hd k'

theorem Typed.of_replaced (hd : Typed now d) (h : Replaced d d' T) : Typed now d' := by
  intro k
  rcases h k with heq | ⟨x, hfresh⟩
  · rw [heq]
    exact hd k
  · exact KeyTyped.of_fresh hfresh

theorem Typed.of_trimmed (hd : Typed now d) (h : Trimmed d d') : Typed now d' :=
  fun k => (hd k).of_trimmed h

theorem Typed.of_upsertedAt (hd : Typed now d) (h : UpsertedAt d d' k T) (hfree : Free d T k) :
    Typed now d' := hd.of_frame h.1 (KeyTyped.of_upserted h.2 hfree)

/-- A live `kv_meta` row is right. -/
theorem KeyTyped.val_of_live {m : Row S .kvMeta} (hr : KeyTyped now r) (hT : r T.table ≠ ∅)
    (hm : (r .kvMeta).row () = some m) (hlive : m.live now = true) : m.val = T := by
  rcases hr.names T m hT hm with h | ⟨-, h⟩
  · exact h
  · rw [hlive] at h
    cases h

theorem TypeOk.val (h : TypeOk now d k T) {m : Row S .kvMeta}
    (hm : (d.rows .kvMeta k).row () = some m) (hlive : m.live now = true) : m.val = T := by
  rcases h with h | h
  · rw [liveType_eq hm hlive] at h
    cases h
  · rw [liveType_eq hm hlive] at h
    exact Option.some.inj h

theorem Typed.of_rotated {source destination : Bytes} (hd : Typed now d)
    (h : Rotated d d' source destination) (hfree : Free d .list destination)
    (hok : TypeOk now d destination .list) : Typed now d' := by
  obtain ⟨-, d₁, htrim, hmeta, hframe, hens⟩ := h
  refine (hd.of_trimmed htrim).of_frame hframe (KeyTyped.of_ensured hens (by decide) ?_ ?_)
  · intro t hm ht
    by_contra hne
    obtain ⟨s, c, hc⟩ := Table.ne_empty_iff.mp hne
    obtain ⟨s₀, c₀, hc₀, -⟩ := htrim t destination s c hc
    exact Table.ne_empty_of_row hc₀ (hfree t hm ht)
  · intro m hm hlive
    rw [keyRows, hmeta] at hm
    exact hok.val hm hlive

theorem Typed.of_grownAt (hd : Typed now d) (h : GrownAt d d' k T) : Typed now d' := by
  refine hd.of_frame h.frame (.of_other (T := T) (fun t hm ht => ?_) fun m hm => ?_)
  · rw [h.written.other t hm ht]
    by_contra hne
    exact ht ((hd k).one t T.table hm T.table_ne_meta hne h.present)
  · rw [keyRows, h.info] at hm
    exact (hd k).names T m h.present hm

theorem Typed.of_renamed {old new : Bytes} (hd : Typed now d) (hlive : liveType now d old = some T)
    (h : Renamed d d' old new T) : Typed now d' := by
  obtain ⟨m, hm, hml, rfl⟩ := exists_of_liveType hlive
  -- the type of a live key is right, so nothing of the key stays behind
  have hother (t : Tab) (hmeta : t ≠ .kvMeta) (ht : t ≠ m.val.table) : d.rows t old = ∅ := by
    by_contra hne
    obtain ⟨T, rfl⟩ : ∃ T : KeyType, t = T.table := by
      cases t
      case kvMeta => exact absurd rfl hmeta
      case kvStrings => exact ⟨.string, rfl⟩
      case kvHashes => exact ⟨.hash, rfl⟩
      case kvLists => exact ⟨.list, rfl⟩
      case kvSets => exact ⟨.set, rfl⟩
      case kvZsets => exact ⟨.zset, rfl⟩
      case kvHyperloglog => exact ⟨.hyperloglog, rfl⟩
    exact ht (congrArg KeyType.table ((hd old).val_of_live hne hm hml).symm)
  intro k
  by_cases hnew : k = new
  · subst hnew
    refine .of_other (T := m.val) (fun t hmeta ht => ?_) fun m' hm' => Or.inl ?_
    · simp [keyRows, h.moved, hmeta, ht]
    · rw [keyRows, h.moved, if_pos (Or.inl rfl), hm] at hm'
      rw [Option.some.inj hm']
  · by_cases hold : k = old
    · subst hold
      refine .of_other (T := m.val) (fun t hmeta ht => ?_) fun m' hm' => ?_
      · simp [keyRows, h.left, hmeta, ht, hother t hmeta ht]
      · simp [keyRows, h.left] at hm'
    · have hrows : keyRows d' k = keyRows d k := funext fun t => h.frame t k hold hnew
      rw [hrows]
      exact hd k

theorem Typed.of_copiedAt (hd : Typed now d) (h : CopiedAt d d' k T x)
    (hfree : Free d T k) : Typed now d' := by
  refine hd.of_frame h.frame (.of_other (T := T) (fun t hm ht => ?_) fun m hm => Or.inl ?_)
  · exact (h.other t hm ht).trans (hfree t hm ht)
  · rw [keyRows, h.info, Option.some.injEq] at hm
    rw [← hm]

/-! ### Runs -/

section runs
variable {e : Env} {c : Cmd S}

/-- One command keeps the invariant where it meets the condition. -/
theorem Typed.step (hd : Typed e.now d) (hc : c.KeepsType e.now d) (he : c.Effect e d d') :
    Typed e.now d' := by
  cases c
  case set | setNX | mSet | bitOp | sInterStore | sUnionStore | sDiffStore | zRangeStore |
      zUnionStore | zInterStore => exact hd.of_replaced he
  case getSet key value =>
    rcases he with h | ⟨h, -⟩
    · exact hd.of_trimmed h
    · exact hd.of_upsertedAt h hc
  case zIncrBy key x m =>
    rcases he with h | ⟨h, -⟩
    · exact hd.of_trimmed h
    · exact hd.of_frame h.1 (KeyTyped.of_ensured h.2 (by decide) hc.1 fun m => hc.2.val)
  case rPopLPush source destination =>
    rcases he with h | h
    · exact hd.of_trimmed h
    · rcases hc with hempty | ⟨hfree, hok⟩
      · exact absurd hempty h.present
      · exact hd.of_rotated h hfree hok
  case lInsert key p x b =>
    rcases he with h | ⟨-, h⟩
    · exact hd.of_trimmed h
    · exact hd.of_grownAt h
  case getEx key t p =>
    rcases he with h | ⟨hsome, -, x, h⟩
    · exact hd.of_trimmed h
    · refine hd.of_frame h.1 ((hd _).of_retimed h.2 fun T m hT hm => ?_)
      -- the key is a string, and the `kv_meta` row of a string is right
      have hrows : d.rows .kvStrings (encodeKey key) ≠ ∅ := by
        rintro hempty
        rw [hempty] at hsome
        cases hsome
      have hstring : T = .string := KeyType.table_injective
        ((hd _).one T.table .kvStrings T.table_ne_meta (by decide) hT hrows)
      subst hstring
      exact ((hd _).names .string m hT hm).resolve_right fun h' => h'.1 rfl
  case expire key t opts | expireAt key t opts =>
    rcases he with h | ⟨m, hm, hwhere, h⟩
    · exact hd.of_trimmed h
    · refine hd.of_frame h.1 ((hd _).of_retimed h.2 fun T m' hT hm' => ?_)
      rw [keyRows, hm, Option.some.injEq] at hm'
      subst hm'
      exact (hd _).val_of_live hT hm (expireWhereClause_live hwhere)
  case persist key =>
    rcases he with h | ⟨⟨m, hm, hlive⟩, h⟩
    · exact hd.of_trimmed h
    · refine hd.of_frame h.1 ((hd _).of_retimed h.2 fun T m' hT hm' => ?_)
      rw [keyRows, hm, Option.some.injEq] at hm'
      subst hm'
      exact (hd _).val_of_live hT hm hlive
  case rename old new =>
    rcases he with h | ⟨-, T, hlive, h⟩
    · exact hd.of_trimmed h
    · exact hd.of_renamed hlive h
  case copy source destination replace =>
    rcases he with h | ⟨T, hlive, ⟨x, h⟩ | ⟨hnone, hhll, h⟩⟩
    · exact hd.of_trimmed h
    · exact hd.of_replaced h.replaced
    · exact hd.of_copiedAt h (hc T hlive hhll hnone)
  all_goals
    rcases he with h | ⟨k, T, hu, h⟩
    · exact hd.of_trimmed h
    · exact hd.of_upsertedAt h (hc k T hu)

variable [Float64 S]

/-- Time goes on, and the command finds no rows of another type where it writes. -/
def TypeSafe (now : Time) (e : Env) (c : Cmd S) (d : DB S) : Prop := now ≤ e.now ∧ c.KeepsType e.now d

theorem typed_of_reached (h : Reached TypeSafe now d) : Typed now d := by
  induction h with
  | start now => exact fun k => .of_other (T := .string) (fun t _ _ => rows_emptyDB t k) nofun
  | step e c _ hc ih =>
      have hd := fun k => (ih k).mono hc.1
      exact Typed.step hd hc.2 c.exec_effect

/-- **One type per key**, in every state reached by commands that find no rows of another type where
they write, at that instant and at every later one. -/
theorem oneType_of_reached (h : Reached TypeSafe now d) (hle : now ≤ now') : OneType now' d := by
  intro k
  have hk := (typed_of_reached h k).mono hle
  refine ⟨hk.one, fun T hT T' hT' => ?_⟩
  obtain ⟨m, hm, hlive, rfl⟩ := exists_of_liveType hT'
  exact hk.val_of_live hT hm hlive

end runs

/-- The condition at work: `SET k 1`, then `INCR k`. -/
theorem oneType_of_reached_setThenIncr : OneType 0
    ((Cmd.incr [107] 1).exec (envAt 0) ((Cmd.set [107] [49] 0).exec (envAt 0) emptyDB).2 : _ × DB ℤ).2 := by
  refine oneType_of_reached (.step (envAt 0) _ (.step (envAt 0) _ (.start 0) ⟨le_rfl, nofun⟩)
    ⟨le_rfl, ?_⟩) (le_refl 0)
  intro k T h
  cases h
  decide

/-! ### A string next to a hash -/

/-- `HSET k f 1`, then `INCR k`. -/
def hashThenIncr : DB ℤ :=
  ((Cmd.incr [107] 1).exec (envAt 0)
    ((Cmd.hSet [107] (Table.single [102] [49])).exec (envAt 0) emptyDB).2).2

/-- `INCR` writes a string row next to the rows of a hash. -/
theorem oneType_fails : Reached (fun now e _ _ => now ≤ e.now) 0 hashThenIncr ∧ ¬ OneType 0 hashThenIncr := by
  refine ⟨.step (envAt 0) _ (.step (envAt 0) _ (.start 0) (le_refl 0)) (le_refl 0), fun h => ?_⟩
  have hhash : (hashThenIncr.rows .kvHashes [107]).row [102] = some ⟨[49], none⟩ := rfl
  have hstring : (hashThenIncr.rows .kvStrings [107]).row () = some ⟨[49], none⟩ := rfl
  have heq := (h [107]).1 .kvHashes .kvStrings (by decide) (by decide)
    (Table.ne_empty_of_row hhash) (Table.ne_empty_of_row hstring)
  cases heq

end Postkeys
