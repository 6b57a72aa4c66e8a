import Postkeys.Effects.Failures
import Postkeys.Ghost.Keys
import Postkeys.Handlers.Keys
import Postkeys.Handlers.Runs
import Postkeys.Querier.Runs

/-! # `RENAME` and `COPY`

Both commands are to carry a key over as a whole: its `kv_meta` row and all its rows.
`rename_moves_iff` and `copy_makes_iff` say for which states they do.  `RENAME` removes the new key
first, which is the old one if the names are equal, knows no table for a HyperLogLog, and moves the
rows of one table only.  `COPY` copies one string; rows of a collection are never copied, because the
first `INSERT` meets the connection still busy with the rows being read. -/

namespace Postkeys

open Relational Program

variable {S : Type} {e : Env} {d : DB S} {d' : DB S} {now : Time}

/-! ### `RENAME` -/

section rename
variable {oldKey newKey : Bytes} {T : KeyType}

theorem dataTableForType_eq (hT : T ≠ .hyperloglog) : dataTableForType T = some T.table := by
  cases T <;> first | rfl | exact absurd rfl hT

/-- What a move to a key without rows does. -/
theorem totalSql_moveKey {t : Tab} {k k' : Bytes} (hk : k ≠ k') (hempty : d.rows t k' = ∅)
    {Q : Unit → DB S → Prop} :
    totalSql e (moveKey t k k') Q d ↔ Q () ((d.setRows t k ∅).setRows t k' (d.rows t k)) := by
  rw [totalSql, moveKey_ok hk hempty]

theorem total_rename (hlive : liveType e.now d (encodeKey oldKey) = some T) (hT : T ≠ .hyperloglog)
    (hk : encodeKey oldKey ≠ encodeKey newKey) :
    total e (rename oldKey newKey)
      (fun _ d' => Renamed d d' (encodeKey oldKey) (encodeKey newKey) T) d := by
  have hne := T.table_ne_meta
  simp only [rename, total_bind, total_lockKeys, total_getKeyType, hlive, total_deleteKeyFromAllTables,
    dataTableForType_eq hT, total_query]
  rw [totalSql_moveKey hk (Store.rows_dropKey_self ..), totalSql_moveKey hk (by simp [hne])]
  refine ⟨fun t k hold hnew => ?_, fun t => ?_, fun t => ?_⟩
  · simp [hold, hnew]
  · by_cases ht : t = T.table
    · subst ht
      simp [hne, hk]
    · by_cases hm : t = .kvMeta
      · subst hm
        simp [hne.symm, hk]
      · simp [ht, hm]
  · by_cases ht : t = T.table
    · subst ht
      simp [hk]
    · by_cases hm : t = .kvMeta
      · subst hm
        simp [hne.symm, hk]
      · simp [ht, hm, hk]

/-- A key renamed to itself is removed. -/
theorem total_rename_self (hlive : liveType e.now d (encodeKey oldKey) = some T) (hT : T ≠ .hyperloglog)
    (hk : encodeKey oldKey = encodeKey newKey) :
    total e (rename oldKey newKey) (fun _ d' => d' = d.dropKey (encodeKey oldKey)) d := by
  simp only [rename, total_bind, total_lockKeys, total_getKeyType, hlive, total_deleteKeyFromAllTables,
    dataTableForType_eq hT, total_query, ← hk, moveKey, if_true]
  exact rfl

section exec
variable [Float64 S]

theorem exec_rename_hyperloglog (h : liveType e.now d (encodeKey oldKey) = some .hyperloglog) :
    (Cmd.rename oldKey newKey : Cmd S).exec e d =
      (.error (.error "unsupported key type for rename: hyperloglog"), d) := by
  rw [Cmd.exec, Cmd.op, eval_map, eval_rename h]
  rfl

theorem exec_rename_self (hlive : liveType e.now d (encodeKey oldKey) = some T) (hT : T ≠ .hyperloglog)
    (hk : encodeKey oldKey = encodeKey newKey) :
    (Cmd.rename oldKey newKey : Cmd S).exec e d = (.ok .ok, d.dropKey (encodeKey oldKey)) := by
  refine Cmd.exec_eq_of_total ?_
  rw [Cmd.op, total_map]
  exact total_mono (total_rename_self hlive hT hk) fun _ _ h => ⟨rfl, h⟩

theorem exec_rename (hlive : liveType e.now d (encodeKey oldKey) = some T) (hT : T ≠ .hyperloglog)
    (hk : encodeKey oldKey ≠ encodeKey newKey) :
    ∃ d', (Cmd.rename oldKey newKey : Cmd S).exec e d = (.ok .ok, d') ∧
      Renamed d d' (encodeKey oldKey) (encodeKey newKey) T := by
  have htotal : total e (Cmd.rename oldKey newKey : Cmd S).op
      (fun r d' => r = .ok ∧ Renamed d d' (encodeKey oldKey) (encodeKey newKey) T) d := by
    rw [Cmd.op, total_map]
    exact total_mono (total_rename hlive hT hk) fun _ _ h => ⟨rfl, h⟩
  obtain ⟨r, hr, rfl, hd⟩ := Cmd.exec_total htotal
  exact ⟨_, Prod.ext hr rfl, hd⟩

end exec

variable [GoFloat S]

/-- `RENAME` moves the whole key: it succeeds, the new key has all that the old one had and nothing
else, the old one is gone unless the names are equal, when nothing changes, and no other key changes. -/
def RenameMoves (e : Env) (sc : ScriptCache) (d : DB S) (oldKey newKey : Bytes) : Prop :=
  let out := (Handlers.renameOp [oldKey, newKey] : Proc S).direct e sc d
  out.1 = .ok .ok ∧
  (oldKey = newKey → out.2.2 = d) ∧
  (oldKey ≠ newKey → ∀ t, out.2.2.rows t (encodeKey newKey) = d.rows t (encodeKey oldKey) ∧
    out.2.2.rows t (encodeKey oldKey) = ∅) ∧
  ∀ t k, k ≠ encodeKey oldKey → k ≠ encodeKey newKey → out.2.2.rows t k = d.rows t k

/-- **`RENAME` moves the whole key** unless it is a HyperLogLog, is renamed to itself, or has rows in
a table that its type does not name. -/
theorem rename_moves_iff (e : Env) (sc : ScriptCache) (d : DB S) (oldKey newKey : Bytes) (T : KeyType)
    (hlive : liveType e.now d (encodeKey oldKey) = some T) :
    RenameMoves e sc d oldKey newKey ↔
      T ≠ .hyperloglog ∧ encodeKey oldKey ≠ encodeKey newKey ∧
        ∀ t, t ≠ .kvMeta → t ≠ T.table → d.rows t (encodeKey oldKey) = ∅ := by
  have hmeta : d.rows .kvMeta (encodeKey oldKey) ≠ ∅ := by
    intro hempty
    rw [liveType, hempty] at hlive
    cases hlive
  have hop : (Handlers.renameOp [oldKey, newKey] : Proc S) = Proc.answer (.rename oldKey newKey) := rfl
  rw [RenameMoves, hop]
  constructor
  · rintro ⟨hok, hsame, hmoved, -⟩
    obtain ⟨r, hexec, -⟩ := Proc.direct_answer_ok (v := .ok) (by decide) hok
    have hT : T ≠ .hyperloglog := by
      rintro rfl
      rw [exec_rename_hyperloglog hlive] at hexec
      cases hexec
    have hk : encodeKey oldKey ≠ encodeKey newKey := by
      intro hk
      by_cases hname : oldKey = newKey
      · rw [exec_rename_self hlive hT hk, hsame hname] at hexec
        have hd : d.dropKey (encodeKey oldKey) = d := congrArg Prod.snd hexec
        exact hmeta (by rw [← hd, Store.rows_dropKey_self])
      · obtain ⟨hnew, hold⟩ := hmoved hname .kvMeta
        rw [← hk, hold] at hnew
        exact hmeta hnew.symm
    refine ⟨hT, hk, fun t hm ht => ?_⟩
    obtain ⟨d', hexec', hd⟩ := exec_rename hlive hT hk
    have hout : d' = _ := congrArg Prod.snd (hexec'.symm.trans hexec)
    rw [hout] at hd
    rw [← (hmoved (fun hname => hk (congrArg encodeKey hname)) t).1, hd.moved, if_neg (by simp [hm, ht])]
  · rintro ⟨hT, hk, hother⟩
    obtain ⟨d', hexec, hd⟩ := exec_rename hlive hT hk
    have hrun : (Proc.answer (.rename oldKey newKey) : Proc S).direct e sc d = (.ok .ok, sc, d') :=
      Proc.direct_callOr_ok hexec
    rw [hrun]
    refine ⟨rfl, fun hname => absurd (congrArg encodeKey hname) hk, fun _ t => ?_, hd.frame⟩
    rw [hd.moved, hd.left]
    split
    · exact ⟨rfl, rfl⟩
    · rename_i ht
      rw [not_or] at ht
      rw [hother t ht.1 ht.2]
      exact ⟨rfl, rfl⟩

end rename

/-- One string. -/
def greeting : DB ℤ :=
  ((emptyDB : DB ℤ).setRows .kvMeta (utf8 "greeting") (Table.single () ⟨.string, none⟩)).setRows .kvStrings
    (utf8 "greeting") (Table.single () ⟨utf8 "hello", none⟩)

theorem greeting_live : liveType 0 greeting (encodeKey (utf8 "greeting")) = some .string := by
  decide

theorem greeting_rows (t : Tab) (hm : t ≠ .kvMeta) (ht : t ≠ .kvStrings) (k : Bytes) :
    greeting.rows t k = ∅ := by
  rw [greeting, Store.rows_setRows_of_ne_table _ ht, Store.rows_setRows_of_ne_table _ hm, rows_emptyDB]

theorem rename_moves_greeting : RenameMoves (envAt 0) ∅ greeting (utf8 "greeting") (utf8 "farewell") :=
  (rename_moves_iff (envAt 0) ∅ greeting _ _ .string greeting_live).mpr
    ⟨by decide, by decide, fun t hm ht => greeting_rows t hm ht _⟩

/-- `RENAME greeting greeting` answers `OK` and removes the key. -/
theorem rename_to_itself_removes :
    let out := (Handlers.renameOp [utf8 "greeting", utf8 "greeting"] : Proc ℤ).direct (envAt 0) ∅ greeting
    out.1 = .ok .ok ∧ liveType 0 out.2.2 (encodeKey (utf8 "greeting")) = none := by
  have hexec : (Cmd.rename (utf8 "greeting") (utf8 "greeting") : Cmd ℤ).exec (envAt 0) greeting =
      (.ok .ok, greeting.dropKey (encodeKey (utf8 "greeting"))) :=
    exec_rename_self greeting_live (by decide) rfl
  have hrun : (Handlers.renameOp [utf8 "greeting", utf8 "greeting"] : Proc ℤ).direct (envAt 0) ∅ greeting =
      (.ok .ok, ∅, greeting.dropKey (encodeKey (utf8 "greeting"))) := Proc.direct_callOr_ok hexec
  rw [hrun]
  refine ⟨rfl, ?_⟩
  rw [liveType, Store.rows_dropKey_self]
  rfl

/-! ### `COPY` -/

section copy
variable {source destination : Bytes} {replace : Bool} {T : KeyType} {k k' : Bytes}

/-- What `COPY` leaves after it has removed the destination, if it succeeds. -/
def copyByTypeResult (d : DB S) (k k' : Bytes) (T : KeyType) : Option (DB S) :=
  match T with
  | .string => ((d.rows .kvStrings k).row ()).bind fun r =>
      if d.rows .kvStrings k' = ∅ then
        some ((d.setRows .kvMeta k' (.single () ⟨.string, r.expiresAt⟩)).setRows .kvStrings k' (.single () r))
      else none
  | .hyperloglog => some d
  | T => if d.rows T.table k = ∅ then some (d.setRows .kvMeta k' (.single () ⟨T, none⟩)) else none

/-- One row is inserted exactly where there is none. -/
theorem addRows_string (u : Table Unit (Row S .kvStrings)) (r : Row S .kvStrings) :
    addRows .kvStrings u [((), r)] =
      if u = ∅ then .ok (.single () r) else .error (uniqueViolation .kvStrings) := by
  cases hrow : u.row () with
  | none =>
      have hempty : u = ∅ := Table.eq_empty_iff.mpr fun _ => hrow
      subst hempty
      rfl
  | some c =>
      have hne : u ≠ ∅ := by
        rintro rfl
        cases hrow
      rw [addRows, hrow, if_neg hne]

theorem wp_copyByType (T : KeyType) : wp e (copyByType T k k' : Op S _)
    (fun b d' => b = true ∧ copyByTypeResult d k k' T = some d') d := by
  have hrows {T : KeyType} (ht : T.table ≠ .kvMeta) : wp e (copyRows T.table T k k' : Op S _) (fun b d' =>
      b = true ∧ (if d.rows T.table k = ∅ then some (d.setRows .kvMeta k' (.single () ⟨T, none⟩)) else none) =
        some d') d := by
    simp only [copyRows, wp_bind, wp_setMeta, wp_queryRows, wpSql_selectAll,
      Store.rows_setRows_of_ne_table _ ht]
    split
    · rename_i hnil
      exact ⟨rfl, if_pos (Table.toList_eq_nil_iff.mp hnil)⟩
    · exact wp_raise _
  cases T with
  | string =>
      simp only [copyByType, wp_bind, wp_query, wpSql_selectAll]
      split
      · exact wp_raise _
      · rename_i r hr
        simp only [wp_bind, wp_setMeta, wp_query, wpSql_insertRows, pure_eq, wp_ret]
        intro u hu
        rw [Store.rows_setRows_of_ne_table _ (by decide)] at hu
        have hadd := (addRows_string _ r).symm.trans hu
        refine ⟨trivial, ?_⟩
        rw [copyByTypeResult, hr]
        split at hadd
        · rename_i hempty
          cases hadd
          exact if_pos hempty
        · cases hadd
  | hyperloglog => exact ⟨rfl, rfl⟩
  | hash => exact hrows (T := .hash) (by decide)
  | list => exact hrows (T := .list) (by decide)
  | set => exact hrows (T := .set) (by decide)
  | zset => exact hrows (T := .zset) (by decide)

theorem total_copyByType (h : copyByTypeResult d k k' T = some d') :
    total e (copyByType T k k' : Op S _) (fun b d'' => b = true ∧ d'' = d') d := by
  have hrows {T : KeyType} (ht : T.table ≠ .kvMeta)
      (h : (if d.rows T.table k = ∅ then some (d.setRows .kvMeta k' (.single () ⟨T, none⟩)) else none) =
        some d') : total e (copyRows T.table T k k' : Op S _) (fun b d'' => b = true ∧ d'' = d') d := by
    split at h
    · rename_i hempty
      cases h
      have hlist : ((d.setRows .kvMeta k' (.single () ⟨T, none⟩)).rows T.table k).toList = [] := by
        rw [Store.rows_setRows_of_ne_table _ ht, hempty]
        rfl
      simp only [copyRows, total_bind, total_setMeta, total_queryRows, totalSql_selectAll, hlist]
      exact ⟨rfl, rfl⟩
    · cases h
  cases T with
  | string =>
      obtain ⟨r, hr, h⟩ := Option.bind_eq_some_iff.mp h
      split at h
      · rename_i hempty
        cases h
        simp only [copyByType, total_bind, total_query, totalSql_selectAll, hr, total_setMeta,
          totalSql_insertRows, pure_eq, total_ret]
        refine ⟨.single () r, ?_, trivial, rfl⟩
        rw [Store.rows_setRows_of_ne_table _ (by decide)]
        exact (addRows_string _ r).trans (if_pos hempty)
      · cases h
  | hyperloglog =>
      cases h
      exact ⟨rfl, rfl⟩
  | hash => exact hrows (T := .hash) (by decide) h
  | list => exact hrows (T := .list) (by decide) h
  | set => exact hrows (T := .set) (by decide) h
  | zset => exact hrows (T := .zset) (by decide) h

/-- The destination has been removed if it was live. -/
def copyRoom (now : Time) (d : DB S) (k' : Bytes) : DB S :=
  if liveType now d k' = none then d else d.dropKey k'

/-- The source is live, and the destination is absent or to be replaced. -/
def CopyDue (now : Time) (d : DB S) (k k' : Bytes) (replace : Bool) : Prop :=
  liveType now d k ≠ none ∧ (liveType now d k' = none ∨ replace = true)

theorem CopyDue.not_kept (h : CopyDue e.now d k k' replace) :
    ¬ (liveType e.now d k' ≠ none ∧ replace = false) := by
  rintro ⟨hsome, hrep⟩
  rcases h.2 with hnone | htrue
  · exact hsome hnone
  · rw [hrep] at htrue
    cases htrue

section exec
variable [Float64 S]

theorem exec_copy_refused (h : ¬ CopyDue e.now d (encodeKey source) (encodeKey destination) replace) :
    (Cmd.copy source destination replace : Cmd S).exec e d = (.ok (.bool false), d) := by
  refine Cmd.exec_eq_of_total ?_
  rw [Cmd.op, total_map, copyKey, total_bind, total_lockKeys, total_bind, total_getKeyType]
  cases hT : liveType e.now d (encodeKey source) with
  | none => exact ⟨rfl, rfl⟩
  | some T =>
      have hdest : liveType e.now d (encodeKey destination) ≠ none ∧ replace = false := by
        simpa [CopyDue, hT] using h
      simp only [total_bind, total_getKeyType, if_pos hdest]
      exact ⟨rfl, rfl⟩

theorem exec_copy_ok (hT : liveType e.now d (encodeKey source) = some T)
    (h : CopyDue e.now d (encodeKey source) (encodeKey destination) replace)
    (hd : copyByTypeResult (copyRoom e.now d (encodeKey destination)) (encodeKey source)
      (encodeKey destination) T = some d') :
    (Cmd.copy source destination replace : Cmd S).exec e d = (.ok (.bool true), d') := by
  refine Cmd.exec_eq_of_total ?_
  have htotal := total_mono (total_copyByType (e := e) hd) fun b d'' hb =>
    And.intro (congrArg (Reply.bool (S := S)) hb.1) hb.2
  rw [Cmd.op, total_map, copyKey, total_bind, total_lockKeys, total_bind, total_getKeyType, hT]
  simp only [total_bind, total_getKeyType, if_neg h.not_kept]
  by_cases hnone : liveType e.now d (encodeKey destination) = none
  · rw [copyRoom, if_pos hnone] at htotal
    rw [if_neg (not_not.mpr hnone)]
    exact htotal
  · rw [copyRoom, if_neg hnone] at htotal
    rw [if_pos hnone, total_bind, total_deleteKeyFromAllTables]
    exact htotal

theorem exec_copy_done {r : Reply S} (hT : liveType e.now d (encodeKey source) = some T)
    (h : CopyDue e.now d (encodeKey source) (encodeKey destination) replace)
    (hexec : (Cmd.copy source destination replace : Cmd S).exec e d = (.ok r, d')) :
    copyByTypeResult (copyRoom e.now d (encodeKey destination)) (encodeKey source)
      (encodeKey destination) T = some d' := by
  have hwp : wp e (Cmd.copy source destination replace : Cmd S).op (fun _ d' =>
      copyByTypeResult (copyRoom e.now d (encodeKey destination)) (encodeKey source)
        (encodeKey destination) T = some d') d := by
    have hcopy : wp e (copyByType T (encodeKey source) (encodeKey destination) : Op S _) (fun _ d' =>
        copyByTypeResult (copyRoom e.now d (encodeKey destination)) (encodeKey source)
          (encodeKey destination) T = some d') (copyRoom e.now d (encodeKey destination)) :=
      wp_mono (wp_copyByType T) fun _ _ hb => hb.2
    rw [Cmd.op, wp_map, copyKey, wp_bind, wp_lockKeys, wp_bind, wp_getKeyType, hT]
    simp only [wp_bind, wp_getKeyType, if_neg h.not_kept]
    by_cases hnone : liveType e.now d (encodeKey destination) = none
    · rw [copyRoom, if_pos hnone] at hcopy ⊢
      rw [if_neg (not_not.mpr hnone)]
      exact hcopy
    · rw [copyRoom, if_neg hnone] at hcopy ⊢
      rw [if_pos hnone, wp_bind, wp_deleteKeyFromAllTables]
      exact hcopy
  have hdone := Cmd.exec_ok rfl hwp (congrArg Prod.fst hexec)
  rwa [hexec] at hdone

end exec

theorem copyRoom_of_ne {t : Tab} {k₀ : Bytes} (h : k₀ ≠ k') :
    (copyRoom now d k').rows t k₀ = d.rows t k₀ := by
  rw [copyRoom]
  split
  · rfl
  · exact Store.rows_dropKey_of_ne _ _ h

theorem copyRoom_self {t : Tab} (h : liveType now d k ≠ none) : (copyRoom now d k).rows t k = ∅ := by
  rw [copyRoom, if_neg h, Store.rows_dropKey_self]

/-- The key `k` can be copied to `k'`: it is a string with its row, under another name and with one
expiry, or a collection without rows and without expiry; and what is left of the destination, if that
has expired, is what the copy needs. -/
def Copyable (now : Time) (d : DB S) (k k' : Bytes) (m : Cell KeyType) : Prop :=
  m.val ≠ .hyperloglog ∧ (copyRoom now d k').rows m.val.table k' = ∅ ∧
  (∀ t, t ≠ .kvMeta → t ≠ m.val.table → (copyRoom now d k').rows t k' = d.rows t k) ∧
  if m.val = .string then k ≠ k' ∧ ∃ r, (d.rows .kvStrings k).row () = some r ∧ r.expiresAt = m.expiresAt
  else m.expiresAt = none ∧ d.rows m.val.table k = ∅

theorem copyByTypeResult_frame (h : copyByTypeResult d k k' T = some d') {t : Tab} {k₀ : Bytes}
    (hk : k₀ ≠ k') : d'.rows t k₀ = d.rows t k₀ := by
  have hrows {T : KeyType} (h : (if d.rows T.table k = ∅ then
      some (d.setRows .kvMeta k' (.single () ⟨T, none⟩)) else none) = some d') :
      d'.rows t k₀ = d.rows t k₀ := by
    split at h
    · cases h
      simp [hk]
    · cases h
  cases T with
  | string =>
      obtain ⟨r, -, h⟩ := Option.bind_eq_some_iff.mp h
      split at h
      · cases h
        simp [hk]
      · cases h
  | hyperloglog =>
      cases h
      rfl
  | hash => exact hrows (T := .hash) h
  | list => exact hrows (T := .list) h
  | set => exact hrows (T := .set) h
  | zset => exact hrows (T := .zset) h

theorem copyable_of_rows {x : Option Time} (hs : T ≠ .string)
    (hh : T ≠ .hyperloglog) (hm : (d.rows .kvMeta k).row () = some ⟨T, x⟩)
    (h : (if (copyRoom now d k').rows T.table k = ∅ then
      some ((copyRoom now d k').setRows .kvMeta k' (.single () ⟨T, none⟩)) else none) = some d')
    (hd : ∀ t, d'.rows t k' = d.rows t k) : Copyable now d k k' ⟨T, x⟩ := by
  split at h
  · rename_i hempty
    cases h
    have hrest (t : Tab) (ht : t ≠ .kvMeta) : (copyRoom now d k').rows t k' = d.rows t k := by
      rw [← hd t, Store.rows_setRows_of_ne_table _ ht]
    have hx : x = none := by
      have hrow := hd .kvMeta
      rw [Store.rows_setRows_self] at hrow
      rw [← hrow, Table.single_unit_row] at hm
      cases hm
      rfl
    -- the source is empty as it stands, or the copy was made over it
    have hsource : d.rows T.table k = ∅ := by
      by_cases hk : k = k'
      · subst hk
        rw [← hrest _ T.table_ne_meta, hempty]
      · rwa [copyRoom_of_ne hk] at hempty
    refine ⟨hh, (hrest _ T.table_ne_meta).trans hsource, fun t ht _ => hrest t ht, ?_⟩
    rw [if_neg hs]
    exact ⟨hx, hsource⟩
  · cases h

/-- A copy that succeeds with all the rows of the source is one of a key that can be copied. -/
theorem copyable_of_result {m : Cell KeyType}
    (hm : (d.rows .kvMeta k).row () = some m) (hlive : m.live now = true)
    (h : copyByTypeResult (copyRoom now d k') k k' m.val = some d')
    (hd : ∀ t, d'.rows t k' = d.rows t k) : Copyable now d k k' m := by
  have htype : liveType now d k ≠ none := by simp [liveType_eq hm hlive]
  obtain ⟨T, x⟩ := m
  cases T with
  | string =>
      obtain ⟨r, hr, h⟩ := Option.bind_eq_some_iff.mp h
      have hk : k ≠ k' := by
        rintro rfl
        rw [copyRoom_self htype] at hr
        cases hr
      split at h
      · rename_i hempty
        cases h
        rw [copyRoom_of_ne hk] at hr
        refine ⟨KeyType.noConfusion, hempty, fun t ht hs => ?_, ?_⟩
        · have hs' : t ≠ .kvStrings := hs
          rw [← hd t, Store.rows_setRows_of_ne_table _ hs', Store.rows_setRows_of_ne_table _ ht]
        · have hrow := hd .kvMeta
          rw [Store.rows_setRows_of_ne_table _ (by decide), Store.rows_setRows_self] at hrow
          rw [← hrow, Table.single_unit_row] at hm
          cases hm
          exact (if_pos rfl).mpr ⟨hk, r, hr, rfl⟩
      · cases h
  | hyperloglog =>
      -- nothing is written, so the destination has no live row
      cases h
      have hrow := hd .kvMeta
      rw [copyRoom] at hrow
      split at hrow
      · rename_i hnone
        rw [liveType, hrow] at hnone
        exact absurd hnone htype
      · rw [Store.rows_dropKey_self] at hrow
        rw [← hrow] at hm
        cases hm
  | hash => exact copyable_of_rows (by decide) (by decide) hm h hd
  | list => exact copyable_of_rows (by decide) (by decide) hm h hd
  | set => exact copyable_of_rows (by decide) (by decide) hm h hd
  | zset => exact copyable_of_rows (by decide) (by decide) hm h hd

theorem result_of_copyable {m : Cell KeyType}
    (hm : (d.rows .kvMeta k).row () = some m) (h : Copyable now d k k' m) :
    ∃ d', copyByTypeResult (copyRoom now d k') k k' m.val = some d' ∧ ∀ t, d'.rows t k' = d.rows t k := by
  obtain ⟨hh, hempty, hrest, hrows⟩ := h
  have hsingle {t : Tab} {u : Table Unit (Row S t)} {r : Row S t} (hr : u.row () = some r) :
      u = .single () r := Table.ext_row fun _ => by simp [hr]
  obtain ⟨T, x⟩ := m
  by_cases hs : T = .string
  · subst hs
    rw [if_pos rfl] at hrows
    obtain ⟨hk, r, hr, rfl⟩ := hrows
    refine ⟨((copyRoom now d k').setRows .kvMeta k' (.single () ⟨.string, r.expiresAt⟩)).setRows .kvStrings k'
      (.single () r), ?_, fun t => ?_⟩
    · rw [copyByTypeResult, copyRoom_of_ne hk, hr]
      exact if_pos hempty
    · by_cases hst : t = .kvStrings
      · subst hst
        rw [Store.rows_setRows_self]
        exact (hsingle hr).symm
      · by_cases hmt : t = .kvMeta
        · subst hmt
          rw [Store.rows_setRows_of_ne_table _ hst, Store.rows_setRows_self]
          exact (hsingle hm).symm
        · rw [Store.rows_setRows_of_ne_table _ hst, Store.rows_setRows_of_ne_table _ hmt]
          exact hrest t hmt hst
  · rw [if_neg hs] at hrows
    obtain ⟨hx, hsource⟩ := hrows
    obtain rfl : x = none := hx
    have hroom : (copyRoom now d k').rows T.table k = ∅ := by
      by_cases hk : k = k'
      · subst hk
        exact hempty
      · rw [copyRoom_of_ne hk, hsource]
    refine ⟨(copyRoom now d k').setRows .kvMeta k' (.single () ⟨T, none⟩), ?_, fun t => ?_⟩
    · cases T <;> first | exact absurd rfl hs | exact absurd rfl hh | exact if_pos hroom
    · by_cases hmt : t = .kvMeta
      · subst hmt
        rw [Store.rows_setRows_self]
        exact (hsingle hm).symm
      · rw [Store.rows_setRows_of_ne_table _ hmt]
        by_cases ht : t = T.table
        · subst ht
          rw [hempty, hsource]
        · exact hrest t hmt ht

/-- `REPLACE` is among the options, in capitals or not. -/
def asksReplace (options : List Bytes) : Bool := decide (∃ a ∈ options, toUpper a = utf8 "REPLACE")

/-- `COPY` makes an equal key: if the source is live and the destination is absent or to be replaced it
answers 1, the destination has all that the source has, and no other key changes; otherwise it answers
0 and changes nothing. -/
def CopyMakes [GoFloat S] (e : Env) (sc : ScriptCache) (d : DB S) (source destination : Bytes)
    (options : List Bytes) : Prop :=
  let out := (Handlers.copyOp (source :: destination :: options) : Proc S).direct e sc d
  let k := encodeKey source
  let k' := encodeKey destination
  (CopyDue e.now d k k' (asksReplace options) →
    out.1 = .ok (.int 1) ∧ (∀ t, out.2.2.rows t k' = d.rows t k) ∧
      ∀ t k₀, k₀ ≠ k' → out.2.2.rows t k₀ = d.rows t k₀) ∧
  (¬ CopyDue e.now d k k' (asksReplace options) → out.1 = .ok (.int 0) ∧ out.2.2 = d)

/-- **`COPY` makes an equal key** only of a string or of a collection without rows. -/
theorem copy_makes_iff [GoFloat S] (e : Env) (sc : ScriptCache) (d : DB S) (source destination : Bytes)
    (options : List Bytes) :
    CopyMakes e sc d source destination options ↔
      (CopyDue e.now d (encodeKey source) (encodeKey destination) (asksReplace options) →
        ∃ m, (d.rows .kvMeta (encodeKey source)).row () = some m ∧
          Copyable e.now d (encodeKey source) (encodeKey destination) m) := by
  have hop : (Handlers.copyOp (source :: destination :: options) : Proc S) =
      Proc.answer (.copy source destination (asksReplace options)) := by
    have hany : (options.any fun a => decide (toUpper a = utf8 "REPLACE")) = asksReplace options := by
      rw [asksReplace, Bool.eq_iff_iff, List.any_eq_true]
      simp
    rw [Handlers.copyOp, hany]
  rw [CopyMakes, hop]
  generalize asksReplace options = replace
  by_cases hdue : CopyDue e.now d (encodeKey source) (encodeKey destination) replace
  · obtain ⟨T, hT⟩ := Option.ne_none_iff_exists'.mp hdue.1
    obtain ⟨m, hm, hlive, rfl⟩ := exists_of_liveType hT
    constructor
    · rintro ⟨hdone, -⟩ -
      obtain ⟨hok, hrows, -⟩ := hdone hdue
      obtain ⟨r, hexec, -⟩ := Proc.direct_answer_ok (by decide) hok
      exact ⟨m, hm, copyable_of_result hm hlive (exec_copy_done hT hdue hexec) hrows⟩
    · intro hcond
      obtain ⟨m', hm', hcopy⟩ := hcond hdue
      obtain rfl : m = m' := Option.some.inj (hm.symm.trans hm')
      obtain ⟨d', hresult, hrows⟩ := result_of_copyable hm hcopy
      have hrun : (Proc.answer (.copy source destination replace) : Proc S).direct e sc d =
          (.ok (.int 1), sc, d') := Proc.direct_callOr_ok (exec_copy_ok hT hdue hresult)
      rw [hrun]
      refine ⟨fun _ => ⟨rfl, hrows, fun t k₀ hk => ?_⟩, fun hnot => absurd hdue hnot⟩
      exact (copyByTypeResult_frame hresult hk).trans (copyRoom_of_ne hk)
  · have hrun : (Proc.answer (.copy source destination replace) : Proc S).direct e sc d =
        (.ok (.int 0), sc, d) := Proc.direct_callOr_ok (exec_copy_refused hdue)
    rw [hrun]
    exact ⟨fun _ h => absurd h hdue, fun _ => ⟨fun h => absurd h hdue, fun _ => ⟨rfl, rfl⟩⟩⟩

end copy

/-- One list with one element. -/
def queue : DB ℤ :=
  ((emptyDB : DB ℤ).setRows .kvMeta (utf8 "queue") (Table.single () ⟨.list, none⟩)).setRows .kvLists
    (utf8 "queue") (Table.single 0 ⟨utf8 "job", none⟩)

theorem exec_copy_queue : (Cmd.copy (utf8 "queue") (utf8 "backup") false : Cmd ℤ).exec (envAt 0) queue =
    (.error (.error "conn busy"), queue) := by
  have hT : liveType (envAt 0).now queue (encodeKey (utf8 "queue")) = some .list := by decide
  have hnone : liveType (envAt 0).now queue (encodeKey (utf8 "backup")) = none := by decide
  have hrows : queue.rows KeyType.list.table (encodeKey (utf8 "queue")) ≠ ∅ :=
    Table.ne_empty_of_row (k := (0 : ℤ)) (r := ⟨utf8 "job", none⟩) (by decide)
  rw [Cmd.exec, Cmd.op, eval_map, copyKey, eval_bind_ok (eval_lockKeys _), eval_bind_ok eval_getKeyType, hT]
  dsimp only
  rw [eval_bind_ok eval_getKeyType, hnone, if_neg (by simp), if_neg (by simp), copyByType]
  rw [show copyRows .kvLists .list _ _ = copyRows KeyType.list.table .list _ _ from rfl,
    eval_copyRows (by decide) hrows]
  rfl

/-- `COPY queue backup` answers with an error, although the list is there and `backup` is not. -/
theorem copy_of_list_fails :
    CopyDue 0 queue (encodeKey (utf8 "queue")) (encodeKey (utf8 "backup")) false ∧
      ((Handlers.copyOp [utf8 "queue", utf8 "backup"] : Proc ℤ).direct (envAt 0) ∅ queue).1 =
        .ok (.err (utf8 "conn busy")) := by
  refine ⟨⟨by decide, Or.inl (by decide +kernel)⟩, ?_⟩
  have hrun : (Handlers.copyOp [utf8 "queue", utf8 "backup"] : Proc ℤ).direct (envAt 0) ∅ queue =
      (.ok (Proc.errReply (.error "conn busy")), ∅, queue) :=
    Proc.direct_callOr_error exec_copy_queue nofun
  rw [hrun]
  rfl

end Postkeys
