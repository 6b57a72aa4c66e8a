import Postkeys.Cleanup
import Postkeys.Effects.Commands

/-! # What the cleanup removes

`runCleanup_swept` says which rows a run of the cleanup leaves.  It empties a table of a key as soon
as one of the key's rows there, or its `kv_meta` row, has expired, and it removes a `kv_meta` row
whose own table is empty whatever other tables hold.  `cleanupSafe_iff` turns this into the exact
condition on the tables under which a run removes nothing that is alive. -/

namespace Postkeys

open Relational Program

variable {S : Type} {now : Time} {e : Env} {d d' : DB S} {k : Bytes} {keys : List Bytes}

/-! ### Expired and live rows -/

theorem Cell.expired_eq_not_live {V : Type} (c : Cell V) : c.expired now = !c.live now := by
  unfold Cell.expired Cell.live
  cases c.expiresAt with
  | none => rfl
  | some t => simp only [← decide_not, not_lt]

theorem anyExpired_iff {σ V : Type} {u : Table σ (Cell V)} :
    anyExpired now u = true ↔ ∃ s c, u.row s = some c ∧ c.expired now = true := by
  simp only [anyExpired, decide_eq_true_eq, Table.ne_empty_iff, Table.restrict_row_some]

/-- No row of the table is alive. -/
def Stale {σ V : Type} (now : Time) (u : Table σ (Cell V)) : Prop :=
  ∀ s c, u.row s = some c → c.expired now = true

theorem Stale.empty_or {σ V : Type} {u : Table σ (Cell V)} (h : Stale now u) :
    u = ∅ ∨ anyExpired now u = true := by
  by_cases hu : u = ∅
  · exact Or.inl hu
  · obtain ⟨s, c, hc⟩ := Table.ne_empty_iff.mp hu
    exact Or.inr (anyExpired_iff.mpr ⟨s, c, hc, h s c hc⟩)

/-! ### The statements of a run -/

theorem deleteExpiredMeta_spec (now : Time) (c : Ctx Bytes Tab.Sub) (hnd : keys.Nodup)
    (d : DB S) :
    ∃ d' expired, deleteExpiredMeta now keys c d = .ok (d', expired) ∧
      (∀ t k, d'.rows t k = if t = .kvMeta ∧ k ∈ keys then
        (d.rows t k).restrict fun _ r => !r.expired now else d.rows t k) ∧
      ∀ k, k ∈ expired ↔ k ∈ keys ∧ anyExpired now (d.rows .kvMeta k) = true := by
  induction keys generalizing d with
  | nil => exact ⟨d, [], rfl, by simp, by simp⟩
  | cons k₀ keys ih =>
      obtain ⟨hk₀, hnd⟩ := List.nodup_cons.mp hnd
      obtain ⟨d', expired, hrun, hrows, hmem⟩ := ih hnd (d.setRows .kvMeta k₀
        ((d.rows .kvMeta k₀).restrict fun _ r => !r.expired now))
      refine ⟨d', if anyExpired now (d.rows .kvMeta k₀) then k₀ :: expired else expired, ?_, ?_, ?_⟩
      · simp only [deleteExpiredMeta, Bind.bind, Sql.onRows, hrun]
        rfl
      · intro t k
        rw [hrows]
        by_cases hk : k = k₀
        · subst hk
          by_cases ht : t = .kvMeta
          · subst ht
            simp [hk₀]
          · simp [ht]
        · simp [hk]
      · intro k
        by_cases hk : k = k₀
        · subst hk
          have hnot : k ∉ expired := fun h => hk₀ ((hmem k).mp h).1
          split <;> simp_all
        · have hk' := hmem k
          rw [Store.rows_setRows_of_ne_key _ _ _ hk] at hk'
          split <;> simp [hk, hk']

theorem deleteExpiredData_spec (now : Time) (c : Ctx Bytes Tab.Sub) (t : Tab) (expired : List Bytes)
    (hnd : keys.Nodup) (d : DB S) :
    ∃ d', deleteExpiredData t now expired keys c d = .ok (d', ()) ∧
      ∀ t' k, d'.rows t' k = if t' = t ∧ k ∈ keys ∧
        (k ∈ expired ∨ anyExpired now (d.rows t' k) = true) then ∅ else d.rows t' k := by
  induction keys generalizing d with
  | nil => exact ⟨d, rfl, by simp⟩
  | cons k₀ keys ih =>
      obtain ⟨hk₀, hnd⟩ := List.nodup_cons.mp hnd
      obtain ⟨d', hrun, hrows⟩ := ih hnd (d.setRows t k₀
        (if k₀ ∈ expired ∨ anyExpired now (d.rows t k₀) = true then ∅ else d.rows t k₀))
      refine ⟨d', ?_, ?_⟩
      · rw [← hrun]
        rfl
      · intro t' k
        rw [hrows]
        by_cases hk : k = k₀
        · subst hk
          by_cases ht : t' = t
          · subst ht
            simp [hk₀]
          · simp [ht]
        · simp [hk]

theorem deleteOrphans_spec (c : Ctx Bytes Tab.Sub) (hnd : keys.Nodup)
    (d : DB S) :
    ∃ d', deleteOrphans keys c d = .ok (d', ()) ∧
      ∀ t k, d'.rows t k =
        if t = .kvMeta ∧ k ∈ keys ∧ orphaned d k = true then ∅ else d.rows t k := by
  induction keys generalizing d with
  | nil => exact ⟨d, rfl, by simp⟩
  | cons k₀ keys ih =>
      obtain ⟨hk₀, hnd⟩ := List.nodup_cons.mp hnd
      obtain ⟨d', hrun, hrows⟩ := ih hnd (if orphaned d k₀ then d.setRows .kvMeta k₀ ∅ else d)
      refine ⟨d', ?_, ?_⟩
      · rw [← hrun]
        simp only [deleteOrphans, Sql.forEach, Bind.bind, Sql.readAll]
        by_cases h : orphaned d k₀ = true
        · simp [h]
          rfl
        · simp [h]
          rfl
      · intro t k
        rw [hrows]
        by_cases hk : k = k₀
        · subst hk
          by_cases ht : t = .kvMeta
          · subst ht
            by_cases h : orphaned d k = true <;> simp [hk₀, h]
          · by_cases h : orphaned d k = true <;> simp [ht, h]
        · have horph : orphaned (if orphaned d k₀ then d.setRows .kvMeta k₀ ∅ else d) k = orphaned d k := by
            split
            · simp [orphaned, hk]
            · rfl
          rw [horph]
          by_cases h : orphaned d k₀ = true <;> simp [hk, h]

/-! ### A whole run -/

theorem deleteData_run (now : Time) (ts : List Tab) (expired : List Bytes) (hnd : keys.Nodup)
    (d : DB S) :
    ∃ d', (Program.forEach (fun t => query (deleteExpiredData t now expired keys)) ts : Op S Unit).eval
        e (Tx.clean d) = (.ok (), Tx.clean d') ∧
      ∀ t k, d'.rows t k = if t ∈ ts ∧ k ∈ keys ∧
        (k ∈ expired ∨ anyExpired now (d.rows t k) = true) then ∅ else d.rows t k := by
  induction ts generalizing d with
  | nil => exact ⟨d, rfl, by simp⟩
  | cons t₀ ts ih =>
      obtain ⟨d₁, hrun₁, hrows₁⟩ := deleteExpiredData_spec now e.ctx t₀ expired hnd d
      obtain ⟨d', hrun, hrows⟩ := ih d₁
      refine ⟨d', ?_, fun t k => ?_⟩
      · rw [Program.forEach, eval_bind_ok (eval_query_ok hrun₁), hrun]
      · rw [hrows, hrows₁]
        by_cases ht : t = t₀
        · subst ht
          by_cases hk : k ∈ keys ∧ (k ∈ expired ∨ anyExpired now (d.rows t k) = true) <;> simp [hk]
        · simp [ht]

theorem tryLockKeys_run (keys : List Bytes) (d : DB S) :
    (tryLockKeys keys : Op S _).eval e (Tx.clean d) = (.ok keys, Tx.clean d) := by
  induction keys with
  | nil => rfl
  | cons k keys ih =>
      have hlock : (tryAcquire (.key k) : Op S Bool).eval e (Tx.clean d) = (.ok true, Tx.clean d) := rfl
      rw [tryLockKeys, eval_bind_ok hlock, eval_bind_ok ih]
      rfl

/-- Whether a run that takes up a key removes its `kv_meta` row: it has expired, or its own table is
empty when the expired data has gone. -/
def losesMeta (now : Time) (d : DB S) (k : Bytes) : Bool :=
  match (d.rows .kvMeta k).row () with
  | none => false
  | some m => m.expired now || (decide (m.val ∈ orphanTypes) &&
      (decide (d.rows m.val.table k = ∅) || anyExpired now (d.rows m.val.table k)))

/-- Whether a run that takes up a key removes its rows in a data table. -/
def losesRows (now : Time) (d : DB S) (t : Tab) (k : Bytes) : Bool :=
  anyExpired now (d.rows .kvMeta k) || anyExpired now (d.rows t k)

/-- What a run leaves of the tables, given the keys it takes up. -/
structure Swept (now : Time) (keys : List Bytes) (d d' : DB S) : Prop where
  data : ∀ t k, t ≠ .kvMeta →
    d'.rows t k = if k ∈ keys ∧ losesRows now d t k = true then ∅ else d.rows t k
  info : ∀ k, d'.rows .kvMeta k =
    if k ∈ keys ∧ losesMeta now d k = true then ∅ else d.rows .kvMeta k

/-- The check for orphans after the expired data has gone, in terms of the tables before the run. -/
theorem orphans_eq {keys expired : List Bytes} {d₁ d₂ : DB S} (hk : k ∈ keys)
    (hrows₁ : ∀ t k, d₁.rows t k = if t = .kvMeta ∧ k ∈ keys then
      (d.rows t k).restrict fun _ r => !r.expired now else d.rows t k)
    (hmem : k ∈ expired ↔ k ∈ keys ∧ anyExpired now (d.rows .kvMeta k) = true)
    (hrows₂ : ∀ t k, d₂.rows t k = if t ∈ dataTables ∧ k ∈ keys ∧
      (k ∈ expired ∨ anyExpired now (d₁.rows t k) = true) then ∅ else d₁.rows t k) :
    (if orphaned d₂ k = true then ∅ else d₂.rows .kvMeta k) =
      if losesMeta now d k = true then ∅ else d.rows .kvMeta k := by
  have hmeta : d₂.rows .kvMeta k = (d.rows .kvMeta k).restrict fun _ r => !r.expired now := by
    rw [hrows₂, if_neg fun h => absurd h.1 (by decide), hrows₁, if_pos ⟨rfl, hk⟩]
  cases hm : (d.rows .kvMeta k).row () with
  | none =>
      have hempty : d.rows .kvMeta k = ∅ := Table.eq_empty_iff.mpr fun _ => hm
      simp [hmeta, hempty]
  | some m =>
      by_cases hexp : m.expired now = true
      · have hgone : d₂.rows .kvMeta k = ∅ := by
          rw [hmeta, Table.eq_empty_iff]
          intro s
          simp [Table.restrict_row, hm, hexp]
        simp [losesMeta, hm, hexp, hgone]
      · have hstays : d₂.rows .kvMeta k = d.rows .kvMeta k := by
          rw [hmeta]
          refine Table.ext_row fun s => ?_
          simp [Table.restrict_row, hm, hexp]
        have hnone : anyExpired now (d.rows .kvMeta k) = false := by
          rw [← Bool.not_eq_true, anyExpired_iff]
          rintro ⟨s, c, hc, hc'⟩
          rw [hm, Option.some.injEq] at hc
          exact hexp (hc ▸ hc')
        have hdata : m.val.table ∈ dataTables := by cases m.val <;> decide
        have htable : d₂.rows m.val.table k =
            if anyExpired now (d.rows m.val.table k) = true then ∅ else d.rows m.val.table k := by
          rw [hrows₂, hrows₁]
          simp [hdata, hk, hmem, hnone, m.val.table_ne_meta]
        have horphan : orphaned d₂ k = losesMeta now d k := by
          simp only [orphaned, losesMeta, hstays, hm, htable, hexp, Bool.false_or]
          cases anyExpired now (d.rows m.val.table k) <;> simp
        rw [horphan, hstays]

theorem deleteExpiredKeys_run (e : Env) (d : DB S) :
    ∃ d', deleteExpiredKeys.eval e (Tx.clean d) = (.ok (), Tx.clean d') ∧
      Swept (pgTime e.time) (candidates e.order (pgTime e.time) d) d d' := by
  have hlock : (tryAcquire .cleanup : Op S Bool).eval e (Tx.clean d) = (.ok true, Tx.clean d) := rfl
  have hclock : (clock : Op S ℤ).eval e (Tx.clean d) = (.ok e.time, Tx.clean d) := rfl
  have hcand : (query (Sql.readAll fun c d => candidates c.order (pgTime e.time) d) : Op S _).eval e
      (Tx.clean d) = (.ok (candidates e.order (pgTime e.time) d), Tx.clean d) := rfl
  have hnd : (candidates e.order (pgTime e.time) d).Nodup := List.nodup_dedup _
  generalize candidates e.order (pgTime e.time) d = keys at *
  rw [deleteExpiredKeys, eval_bind_ok hlock, if_pos rfl, eval_bind_ok hclock, eval_bind_ok hcand,
    eval_bind_ok (tryLockKeys_run keys d)]
  by_cases hkeys : keys = []
  · subst hkeys
    exact ⟨d, rfl, by simp, by simp⟩
  · obtain ⟨d₁, expired, hrun₁, hrows₁, hmem⟩ :=
      deleteExpiredMeta_spec (pgTime e.time) e.ctx hnd d
    obtain ⟨d₂, hrun₂, hrows₂⟩ :=
      deleteData_run (e := e) (pgTime e.time) dataTables expired hnd d₁
    obtain ⟨d₃, hrun₃, hrows₃⟩ := deleteOrphans_spec e.ctx hnd d₂
    refine ⟨d₃, ?_, ?_, ?_⟩
    · rw [if_neg hkeys, eval_bind_ok (eval_query_ok hrun₁), eval_bind_ok hrun₂, eval_query_ok hrun₃]
    · intro t k ht
      have hdata : t ∈ dataTables := by cases t <;> first | decide | exact absurd rfl ht
      rw [hrows₃, hrows₂, hrows₁]
      simp only [ht, false_and, if_false, hdata, true_and, hmem, losesRows, Bool.or_eq_true]
      exact if_congr (by tauto) rfl rfl
    · intro k
      rw [hrows₃]
      by_cases hk : k ∈ keys
      · simpa [hk] using orphans_eq hk hrows₁ (hmem k) hrows₂
      · rw [hrows₂, hrows₁]
        simp [hk]

/-- **What a run of the cleanup removes.** -/
theorem runCleanup_swept (e : Env) (d : DB S) :
    Swept (pgTime e.time) (candidates e.order (pgTime e.time) d) d (runCleanup e d) := by
  obtain ⟨d', hrun, hswept⟩ := deleteExpiredKeys_run e d
  rw [runCleanup, hrun]
  exact hswept

/-! ### When nothing alive is removed -/

/-- A run from `d` to `d'` deletes a data row only if the row or the key's `kv_meta` row has expired,
deletes a `kv_meta` row only if it has expired or the key has no data row left, and keeps every row
that is alive. -/
def CleanupSafe (now : Time) (d d' : DB S) : Prop :=
  (∀ t k s c, t ≠ .kvMeta → (d.rows t k).row s = some c → (d'.rows t k).row s = none →
    c.expired now = true ∨ ∃ m, (d.rows .kvMeta k).row () = some m ∧ m.expired now = true) ∧
  (∀ k m, (d.rows .kvMeta k).row () = some m → (d'.rows .kvMeta k).row () = none →
    m.expired now = true ∨ ∀ t, t ≠ .kvMeta → d'.rows t k = ∅) ∧
  ∀ t k s c, t ≠ .kvMeta → (d.rows t k).row s = some c → c.live now = true →
    (d'.rows t k).row s = some c

/-- The condition on a key: where its `kv_meta` row or a row of a table has expired, no row of that
table is alive; and where its `kv_meta` row is alive and the table it names has no row that is, no
other table has one either. -/
def ExpiresTogether (now : Time) (d : DB S) (k : Bytes) : Prop :=
  (∀ t, t ≠ .kvMeta → anyExpired now (d.rows .kvMeta k) = true ∨ anyExpired now (d.rows t k) = true →
    Stale now (d.rows t k)) ∧
  ∀ m, (d.rows .kvMeta k).row () = some m → m.expired now = false → m.val ∈ orphanTypes →
    Stale now (d.rows m.val.table k) → ∀ t, t ≠ .kvMeta → Stale now (d.rows t k)

theorem not_live_of_expired {V : Type} {c : Cell V} (h : c.expired now = true) : c.live now = false := by
  rw [Cell.expired_eq_not_live] at h
  simpa using h

/-- Where a table was emptied and nothing alive is missing, nothing in it was alive. -/
theorem stale_of_emptied {t : Tab} (h : CleanupSafe now d d') (ht : t ≠ .kvMeta)
    (hempty : d'.rows t k = ∅) : Stale now (d.rows t k) := by
  intro s c hc
  rw [Cell.expired_eq_not_live, Bool.not_eq_true']
  by_contra hlive
  have hkept := h.2.2 t k s c ht hc (by simpa using hlive)
  rw [hempty] at hkept
  cases hkept

theorem losesMeta_iff {m : Row S .kvMeta} (hm : (d.rows .kvMeta k).row () = some m)
    (hexp : m.expired now = false) :
    losesMeta now d k = true ↔ m.val ∈ orphanTypes ∧
      (d.rows m.val.table k = ∅ ∨ anyExpired now (d.rows m.val.table k) = true) := by
  simp [losesMeta, hm, hexp]

theorem expiresTogether_of_safe (hswept : Swept now keys d d')
    (h : CleanupSafe now d d') (hk : k ∈ keys) : ExpiresTogether now d k := by
  refine ⟨fun t ht hexp => ?_, fun m hm hexp horphan hstale t ht => ?_⟩
  · refine stale_of_emptied h ht ?_
    rw [hswept.data t k ht, if_pos ⟨hk, by simpa [losesRows] using hexp⟩]
  · have hlose := (losesMeta_iff hm hexp).mpr ⟨horphan, hstale.empty_or⟩
    have hgone : (d'.rows .kvMeta k).row () = none := by
      rw [hswept.info, if_pos ⟨hk, hlose⟩]
      rfl
    rcases h.2.1 k m hm hgone with hexp' | hempty
    · rw [hexp] at hexp'
      cases hexp'
    · exact stale_of_emptied h ht (hempty t ht)

theorem safe_of_expiresTogether (hswept : Swept now keys d d')
    (h : ∀ k ∈ keys, ExpiresTogether now d k) : CleanupSafe now d d' := by
  -- a row that is gone was in a table the run emptied
  have hgone {t : Tab} {k : Bytes} {s : t.Sub} {c : Row S t} (ht : t ≠ .kvMeta)
      (hc : (d.rows t k).row s = some c) (hc' : (d'.rows t k).row s ≠ some c) :
      Stale now (d.rows t k) := by
    rw [hswept.data t k ht] at hc'
    split at hc'
    · rename_i hk
      exact (h k hk.1).1 t ht (by simpa [losesRows] using hk.2)
    · exact absurd hc hc'
  refine ⟨fun t k s c ht hc hnone => ?_, fun k m hm hnone => ?_, fun t k s c ht hc hlive => ?_⟩
  · have hmissing : (d'.rows t k).row s ≠ some c := by
      rw [hnone]
      exact Option.some_ne_none c |>.symm
    exact Or.inl (hgone ht hc hmissing s c hc)
  · rw [hswept.info] at hnone
    split at hnone
    · rename_i hk
      by_cases hexp : m.expired now = true
      · exact Or.inl hexp
      · rw [Bool.not_eq_true] at hexp
        obtain ⟨horphan, hempty⟩ := (losesMeta_iff hm hexp).mp hk.2
        have hstale : Stale now (d.rows m.val.table k) := by
          rcases hempty with hempty | hexpired
          · intro s c hc
            rw [hempty] at hc
            cases hc
          · exact (h k hk.1).1 _ m.val.table_ne_meta (Or.inr hexpired)
        refine Or.inr fun t ht => ?_
        rw [hswept.data t k ht]
        rcases ((h k hk.1).2 m hm hexp horphan hstale t ht).empty_or with hnil | hexpired
        · rw [hnil]
          simp
        · rw [if_pos ⟨hk.1, by simp [losesRows, hexpired]⟩]
    · rw [hm] at hnone
      cases hnone
  · by_contra hmissing
    have hdead := not_live_of_expired (hgone ht hc hmissing s c hc)
    rw [hlive] at hdead
    cases hdead

/-- **A run of the cleanup removes nothing that is alive exactly when**, for every key it takes up,
the rows of each table expire together and with the `kv_meta` row. -/
theorem cleanupSafe_iff (e : Env) (d : DB S) :
    CleanupSafe (pgTime e.time) d (runCleanup e d) ↔
      ∀ k ∈ candidates e.order (pgTime e.time) d, ExpiresTogether (pgTime e.time) d k :=
  ⟨fun h _ hk => expiresTogether_of_safe (runCleanup_swept e d) h hk,
    safe_of_expiresTogether (runCleanup_swept e d)⟩

/-! ### A field that goes with another -/

/-- `HSET k f 1`, `EXPIRE k 10`, `HSET k g 2`, all at the start. -/
def expireThenHSet : DB ℤ :=
  ((Cmd.hSet [107] (Table.single [103] [50])).exec (envAt 0)
    ((Cmd.expire [107] 10000000000 ⟨false, false, false, false⟩).exec (envAt 0)
      ((Cmd.hSet [107] (Table.single [102] [49])).exec (envAt 0) emptyDB).2).2).2

/-- Twenty seconds later a run removes the field `g`, which never expires, with the expired `f`. -/
theorem cleanup_removes_live : Reached (fun now e _ _ => now ≤ e.now) 0 expireThenHSet ∧
    ¬ CleanupSafe 20000000 expireThenHSet (runCleanup (envAt 20000000) expireThenHSet) := by
  refine ⟨.step (envAt 0) _ (.step (envAt 0) _ (.step (envAt 0) _ (.start 0) (le_refl 0))
    (le_refl 0)) (le_refl 0), fun h => ?_⟩
  have hrow : (expireThenHSet.rows .kvHashes [107]).row [103] = some ⟨[50], none⟩ := by
    decide
  have hkept := h.2.2 .kvHashes [107] [103] _ (by decide) hrow rfl
  have hgone : ((runCleanup (envAt 20000000) expireThenHSet).rows .kvHashes [107]).row [103] = none := by
    decide
  rw [hgone] at hkept
  cases hkept

end Postkeys
