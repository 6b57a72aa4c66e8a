import Postkeys.Handlers.SortedSets
import Postkeys.Rewritten
import Postkeys.SortedRanges

/-! # `ZRANGESTORE`

The command is to store what a read of the same range shows.  It removes the destination before it reads the
source, so that a source which is its own destination is read as empty; with another destination it does what
it is to do (`range_store_iff`). -/

namespace Postkeys

open Relational Program

variable {S : Type} {e : Env} {d : DB S} {dst src : Bytes} {spec : ZRangeStoreSpec S}
  {ms : List (ZMember S)} {u : Table Bytes S}

section storage
variable [Float64 S]

/-! ### What a range shows -/

/-- The read of the same range. -/
def rangeRead (src : Bytes) : ZRangeStoreBy S → Bool → Cmd S
  | .index start stop, false => .zRange src start stop
  | .index start stop, true => .zRevRange src start stop
  | .score min max, false => .zRangeByScore src min max 0 (-1)
  | .score min max, true => .zRevRangeByScore src min max 0 (-1)
  | .lex min max, false => .zRangeByLex src min max 0 (-1)
  | .lex min max, true => .zRevRangeByLex src min max 0 (-1)

/-- A read of the range shows these members with these scores.  A range by member is shown without the scores,
which `ZSCORE` tells. -/
def Shows (e : Env) (d : DB S) (src : Bytes) (range : ZRangeStoreBy S) (rev : Bool) (ms : List (ZMember S)) : Prop :=
  match range with
  | .index _ _ | .score _ _ => (rangeRead src range rev).exec e d = (.ok (.members ms), d)
  | .lex _ _ =>
      (rangeRead src range rev).exec e d = (.ok (.values (ms.map ZMember.member)), d) ∧
        ∀ m ∈ ms, (Cmd.zScore src m.member : Cmd S).exec e d = (.ok (.optFloat (some m.score)), d)

omit [Float64 S] in
theorem answered_members_iff {r : Except PgError (List (ZMember S))} :
    ((answered r).map Reply.members, d) = (.ok (.members ms), d) ↔ r = .ok ms := by
  cases r with
  | ok l =>
      constructor
      · intro h
        cases h
        rfl
      · intro h
        cases h
        rfl
  | error x =>
      refine iff_of_false ?_ ?_
      · intro h
        cases h
      · intro h
        cases h

omit [Float64 S] in
/-- The names and what the table says about them determine members. -/
theorem members_eq_of_names {ms ms' : List (ZMember S)}
    (hms : ∀ m ∈ ms, u.row m.member = some m.score) (hms' : ∀ m ∈ ms', u.row m.member = some m.score)
    (h : ms.map ZMember.member = ms'.map ZMember.member) : ms = ms' := by
  have hsome {l : List (ZMember S)} (hl : ∀ m ∈ l, u.row m.member = some m.score) :
      l.map some = (l.map ZMember.member).map fun x => (u.row x).map (ZMember.mk x) := by
    rw [List.map_map]
    refine List.map_congr_left fun m hm => ?_
    rw [Function.comp_apply, hl m hm]
    rfl
  exact (Option.some_injective _).list_map (by rw [hsome hms, hsome hms', h])

omit [Float64 S] in
/-- A range by member, as members with scores. -/
theorem members_of_rows_iff {l : List (Bytes × S)} (hl : ∀ p ∈ l, u.row p.1 = some p.2)
    (ms : List (ZMember S)) :
    (ms.map ZMember.member = l.map Prod.fst ∧ ∀ m ∈ ms, u.row m.member = some m.score) ↔
      l.map (fun p => (⟨p.1, p.2⟩ : ZMember S)) = ms := by
  have hnames : (l.map fun p => (⟨p.1, p.2⟩ : ZMember S)).map ZMember.member = l.map Prod.fst := by
    rw [List.map_map]
    rfl
  have hrows : ∀ m ∈ l.map fun p => (⟨p.1, p.2⟩ : ZMember S), u.row m.member = some m.score := by
    intro m hm
    obtain ⟨p, hp, rfl⟩ := List.mem_map.mp hm
    exact hl p hp
  constructor
  · rintro ⟨hmembers, hscores⟩
    exact members_eq_of_names hrows hscores (hnames.trans hmembers.symm)
  · rintro rfl
    exact ⟨hnames, hrows⟩

omit [Float64 S] in
/-- The members between two bounds are rows of the table. -/
theorem mem_membersByLex {min max : LexBound} {order : SortOrder} {p : Bytes × S}
    (hp : p ∈ membersByLex min max order u) : u.row p.1 = some p.2 :=
  Table.mem_toList.mp (List.mem_filter.mp (mem_order.mp hp)).1

theorem shows_index_iff (start stop : ℤ) (rev : Bool) (ms : List (ZMember S)) :
    Shows e d src (.index start stop) rev ms ↔
      rangeStoreMembers ⟨.index start stop, rev, 0, -1⟩ (live e.now (d.rows .kvZsets (encodeKey src))) = .ok ms := by
  cases rev with
  | false =>
      rw [Shows, rangeRead, exec_zRange_eq, answered_members_iff]
      rfl
  | true =>
      rw [Shows, rangeRead, exec_zRevRange_eq, answered_members_iff]
      rfl

theorem shows_score_iff (min max : S) (rev : Bool) (ms : List (ZMember S)) :
    Shows e d src (.score min max) rev ms ↔
      rangeStoreMembers ⟨.score min max, rev, 0, -1⟩ (live e.now (d.rows .kvZsets (encodeKey src))) = .ok ms := by
  cases rev with
  | false =>
      have hselect : membersByScore min max 0 (-1) .asc (live e.now (d.rows .kvZsets (encodeKey src))) =
          .ok (scoreRange e.now d src min max) := membersByScore_eq ..
      refine Iff.trans ?_ (Iff.of_eq (congrArg (· = .ok ms) hselect.symm))
      rw [← answered_members_iff (d := d), Shows, rangeRead, exec_zRangeByScore]
      rfl
  | true =>
      have hselect : membersByScore min max 0 (-1) .desc (live e.now (d.rows .kvZsets (encodeKey src))) =
          .ok (scoreRange e.now d src min max).reverse := membersByScore_eq ..
      refine Iff.trans ?_ (Iff.of_eq (congrArg (· = .ok ms) hselect.symm))
      rw [← answered_members_iff (d := d), Shows, rangeRead, exec_zRevRangeByScore]
      rfl

theorem exec_zScore_iff (m : ZMember S) :
    (Cmd.zScore src m.member : Cmd S).exec e d = (.ok (.optFloat (some m.score)), d) ↔
      (live e.now (d.rows .kvZsets (encodeKey src))).row m.member = some m.score := by
  have hexec : (Cmd.zScore src m.member : Cmd S).exec e d =
      (.ok (.optFloat ((live e.now (d.rows .kvZsets (encodeKey src))).row m.member)), d) := rfl
  rw [hexec]
  constructor
  · intro h
    exact Reply.optFloat.inj (Except.ok.inj (congrArg Prod.fst h))
  · intro h
    rw [h]

theorem shows_lex_iff (min max : LexBound) (rev : Bool) (ms : List (ZMember S)) :
    Shows e d src (.lex min max) rev ms ↔
      rangeStoreMembers ⟨.lex min max, rev, 0, -1⟩ (live e.now (d.rows .kvZsets (encodeKey src))) = .ok ms := by
  have hboth (order : SortOrder) (hexec : (rangeRead src (.lex min max) rev : Cmd S).exec e d =
        (.ok (.values ((membersByLex min max order (live e.now (d.rows .kvZsets (encodeKey src)))).map Prod.fst)), d))
      (hselect : rangeStoreMembers ⟨.lex min max, rev, 0, -1⟩ (live e.now (d.rows .kvZsets (encodeKey src))) =
        .ok ((membersByLex min max order (live e.now (d.rows .kvZsets (encodeKey src)))).map fun p => ⟨p.1, p.2⟩)) :
      Shows e d src (.lex min max) rev ms ↔
        rangeStoreMembers ⟨.lex min max, rev, 0, -1⟩ (live e.now (d.rows .kvZsets (encodeKey src))) = .ok ms := by
    have hrows : ∀ p ∈ membersByLex min max order (live e.now (d.rows .kvZsets (encodeKey src))),
        (live e.now (d.rows .kvZsets (encodeKey src))).row p.1 = some p.2 := fun p hp => mem_membersByLex hp
    have hmembers := members_of_rows_iff hrows ms
    rw [Shows, hexec, hselect]
    simp only [exec_zScore_iff]
    constructor
    · rintro ⟨hvalues, hscores⟩
      have hnames := Reply.values.inj (Except.ok.inj (congrArg Prod.fst hvalues))
      exact congrArg Except.ok (hmembers.mp ⟨hnames.symm, hscores⟩)
    · intro h
      obtain ⟨hnames, hscores⟩ := hmembers.mpr (Except.ok.inj h)
      rw [hnames]
      exact ⟨rfl, hscores⟩
  cases rev with
  | false => exact hboth .asc rfl rfl
  | true => exact hboth .desc rfl rfl

/-- **The statement of `ZRANGESTORE` selects what a read shows.** -/
theorem shows_iff (range : ZRangeStoreBy S) (rev : Bool) (ms : List (ZMember S)) :
    Shows e d src range rev ms ↔
      rangeStoreMembers ⟨range, rev, 0, -1⟩ (live e.now (d.rows .kvZsets (encodeKey src))) = .ok ms := by
  cases range with
  | index start stop => exact shows_index_iff start stop rev ms
  | score min max => exact shows_score_iff min max rev ms
  | lex min max => exact shows_lex_iff min max rev ms

/-! ### The command -/

theorem rangeByIndex_sublist {α : Type} {start stop : ℤ} {l l' : List α} (h : rangeByIndex start stop l = .ok l') :
    l'.Sublist l := by
  rw [rangeByIndex_eq] at h
  split at h
  · cases h
  · cases h
    exact slice_sublist ..

theorem limited_sublist {α : Type} {cnt offset : ℤ} {l l' : List α} (h : limited cnt offset l = .ok l') :
    l'.Sublist l := by
  rw [limited, limitOffset] at h
  split_ifs at h
  all_goals cases h
  · exact (List.take_sublist ..).trans (List.drop_sublist ..)
  · exact List.Sublist.refl _

theorem nodup_order {α β : Type} (order : SortOrder) (f : α → β) {l : List α} (h : (l.map f).Nodup) :
    ((order.apply l).map f).Nodup := by
  cases order with
  | asc => exact h
  | desc =>
      rw [SortOrder.apply, List.map_reverse]
      exact List.nodup_reverse.mpr h

/-- No member is copied twice. -/
theorem rangeStoreMembers_nodup
    (h : rangeStoreMembers spec u = .ok ms) : (ms.map ZMember.member).Nodup := by
  obtain ⟨range, rev, offset, cnt⟩ := spec
  have horder (order : SortOrder) : ((order.apply (zMembers u)).map ZMember.member).Nodup :=
    nodup_order order _ (members_zMembers u)
  cases range with
  | index start stop => exact (horder _).sublist ((rangeByIndex_sublist h).map _)
  | score min max =>
      have hlimited : limited cnt offset ((SortOrder.apply (if rev then SortOrder.desc else .asc) (zMembers u)).filter
          fun m => scoreBetween min max m.score) = .ok ms := h
      exact (horder _).sublist (((limited_sublist hlimited).trans List.filter_sublist).map _)
  | lex min max =>
      have hlimited : limited cnt offset ((membersByLex min max (if rev then SortOrder.desc else .asc) u).map
          fun p => (⟨p.1, p.2⟩ : ZMember S)) = .ok ms := h
      have hnames : (((membersByLex min max (if rev then SortOrder.desc else .asc) u).map
          fun p => (⟨p.1, p.2⟩ : ZMember S)).map ZMember.member).Nodup := by
        rw [List.map_map]
        exact nodup_order _ _ (u.nodup_toList.sublist (List.filter_sublist.map _))
      exact hnames.sublist ((limited_sublist hlimited).map _)

/-- The source as `ZRANGESTORE` finds it, after the destination has been removed. -/
def sourceRows (now : Time) (d : DB S) (dst src : Bytes) : Table Bytes S :=
  live now ((d.dropKey (encodeKey dst)).rows .kvZsets (encodeKey src))

theorem exec_zRangeStore
    (h : rangeStoreMembers spec (sourceRows e.now d dst src) = .ok ms) :
    ∃ d', (Cmd.zRangeStore dst src spec : Cmd S).exec e d = (.ok (.int ms.length), d') ∧
      Rewritten d d' (encodeKey dst) .zset .kvZsets (scoreRows ms) := by
  have htotal : total e (Cmd.zRangeStore dst src spec : Cmd S).op
      (fun r d' => r = .int ms.length ∧ Rewritten d d' (encodeKey dst) .zset .kvZsets (scoreRows ms)) d := by
    simp only [Cmd.op, total_map, zRangeStore, total_bind, total_deleteKeyFromAllTables, total_query, totalSql_bind,
      totalSql_selectLiveLimit, totalSql_insertRows, totalSql_pure]
    refine ⟨ms, h, scoreRows ms, ?_, ?_⟩
    · rw [Store.rows_dropKey_self]
      exact addRows_scoreRows (rangeStoreMembers_nodup h)
    · rw [total_ite]
      constructor
      · intro hpos
        rw [total_bind, total_setMeta]
        refine ⟨rfl, rewritten_setRows (by decide) fun hempty => ?_⟩
        rw [scoreRows_eq_empty_iff.mp hempty] at hpos
        exact absurd hpos (lt_irrefl _)
      · intro hnone
        have hnil : ms = [] := List.eq_nil_of_length_eq_zero (by omega)
        subst hnil
        have hrows : (d.dropKey (encodeKey dst)).setRows .kvZsets (encodeKey dst) (scoreRows []) =
            d.dropKey (encodeKey dst) := by
          have hsame := Store.setRows_rows (d.dropKey (encodeKey dst)) .kvZsets (encodeKey dst)
          rwa [Store.rows_dropKey_self] at hsame
        refine ⟨rfl, ?_⟩
        rw [hrows]
        exact rewritten_dropKey
  obtain ⟨r, hr, hint, hrewritten⟩ := Cmd.exec_total htotal
  refine ⟨((Cmd.zRangeStore dst src spec : Cmd S).exec e d).2, ?_, hrewritten⟩
  rw [← hint, ← hr]

/-- A range that the database refuses. -/
theorem exec_zRangeStore_error {x : PgError}
    (h : rangeStoreMembers spec (sourceRows e.now d dst src) = .error x) :
    (Cmd.zRangeStore dst src spec : Cmd S).exec e d = (.error (.db "" x), d) := by
  have hdrop : total e (deleteKeyFromAllTables (encodeKey dst) : Op S Unit)
      (fun _ d' => d' = d.dropKey (encodeKey dst)) d := total_deleteKeyFromAllTables.mpr rfl
  obtain ⟨u, d', heval, rfl⟩ := total_sound hdrop
  have hrun : ((do
      let members ← selectLiveLimit .kvZsets (encodeKey src) fun _ u => rangeStoreMembers spec u
      insertRows .kvZsets (encodeKey dst) (members.map fun m => (m.member, ⟨m.score, none⟩))
      pure (members.length : ℤ)) : Stm S ℤ) e.ctx (d.dropKey (encodeKey dst)) = .error x := by
    have hselect : (selectLiveLimit .kvZsets (encodeKey src) fun _ u => rangeStoreMembers spec u : Stm S _) e.ctx
        (d.dropKey (encodeKey dst)) = .error x := by
      rw [sourceRows] at h
      simp only [selectLiveLimit, Sql.readRows, Env.ctx, h]
    simp only [Bind.bind, hselect]
  rw [Cmd.exec, Cmd.op, eval_map, zRangeStore, eval_bind_ok heval, eval_bind, eval_query_failed hrun]
  rfl

/-- A range whose limits cannot be computed for an empty set. -/
def RefusedWhenEmpty : ZRangeStoreBy S → Prop
  | .index start stop => RangeOverflows 0 start stop
  | .score _ _ | .lex _ _ => False

/-- What `ZRANGESTORE` selects from a source that it has removed. -/
theorem rangeStoreMembers_empty (range : ZRangeStoreBy S) (rev : Bool) {offset : ℤ} (cnt : ℤ) (h0 : 0 ≤ offset) :
    (RefusedWhenEmpty range → rangeStoreMembers ⟨range, rev, offset, cnt⟩ (∅ : Table Bytes S) =
      .error ⟨"22003", "bigint out of range"⟩) ∧
    (¬ RefusedWhenEmpty range → rangeStoreMembers ⟨range, rev, offset, cnt⟩ (∅ : Table Bytes S) = .ok []) := by
  have hlimited : limited cnt offset ([] : List (ZMember S)) = .ok [] := by
    rw [limited, limitOffset, if_neg (not_lt.mpr h0), List.drop_nil, List.take_nil]
    split_ifs
    · omega
    · rfl
    · rfl
  cases range with
  | index start stop =>
      have hempty (order : SortOrder) : order.apply (zMembers (∅ : Table Bytes S)) = [] := by
        cases order <;> rfl
      have hrange : rangeStoreMembers ⟨.index start stop, rev, offset, cnt⟩ (∅ : Table Bytes S) =
          rangeByIndex start stop ([] : List (ZMember S)) := by
        rw [← hempty (if rev then .desc else .asc)]
        rfl
      rw [hrange, rangeByIndex_eq]
      exact ⟨fun hover => if_pos hover, fun hfits => if_neg hfits⟩
  | score min max =>
      refine ⟨False.elim, fun _ => ?_⟩
      rw [← hlimited]
      cases rev <;> rfl
  | lex min max =>
      refine ⟨False.elim, fun _ => ?_⟩
      rw [← hlimited]
      cases rev <;> rfl

end storage

variable [GoFloat S] {sc : ScriptCache}

/-! ### The words of the command -/

/-- The words that name the kind of a range. -/
def rangeWords (kind : Handlers.RangeKind) (rev : Bool) : List Bytes :=
  (match kind with
    | .index => []
    | .score => [utf8 "BYSCORE"]
    | .lex => [utf8 "BYLEX"]) ++ if rev then [utf8 "REV"] else []

/-- The range that two words name, the ends exchanged if it is reversed. -/
def selected (kind : Handlers.RangeKind) (rev : Bool) (start stop : Bytes) : Option (ZRangeStoreBy S) :=
  match kind with
  | .index => do
      let start ← parseInt start
      let stop ← parseInt stop
      pure (.index start stop)
  | .score => do
      let min ← Handlers.parseScoreBound start
      let max ← Handlers.parseScoreBound stop
      pure (Handlers.swapIf rev min max .score)
  | .lex => do
      let min ← Handlers.parseLexBound start
      let max ← Handlers.parseLexBound stop
      pure (Handlers.swapIf rev min max .lex)

theorem rangeOptions_flag {cmd message : String} {flag : Handlers.RangeOptions → Bytes → Except Value Handlers.RangeOptions}
    {o o' : Handlers.RangeOptions} {a : Bytes} (ha : toUpper a ≠ utf8 "LIMIT") (hflag : flag o (toUpper a) = .ok o')
    (rest : List Bytes) :
    Handlers.rangeOptions cmd message flag o (a :: rest) = Handlers.rangeOptions cmd message flag o' rest := by
  rcases rest with _ | ⟨b, _ | ⟨c, rest⟩⟩
  all_goals simp only [Handlers.rangeOptions, if_neg ha, hflag]

theorem rangeOptions_words (kind : Handlers.RangeKind) (rev : Bool) (rest : List Bytes) :
    Handlers.rangeOptions "zrangestore" errNotInteger Handlers.zrangestoreFlag .none (rangeWords kind rev ++ rest) =
      Handlers.rangeOptions "zrangestore" errNotInteger Handlers.zrangestoreFlag ⟨false, kind, rev, 0, -1⟩ rest := by
  have hrev (kind : Handlers.RangeKind) : Handlers.rangeOptions "zrangestore" errNotInteger Handlers.zrangestoreFlag
        ⟨false, kind, false, 0, -1⟩ ((if rev then [utf8 "REV"] else []) ++ rest) =
      Handlers.rangeOptions "zrangestore" errNotInteger Handlers.zrangestoreFlag ⟨false, kind, rev, 0, -1⟩ rest := by
    cases rev with
    | false => rfl
    | true => exact rangeOptions_flag (by decide) rfl rest
  cases kind with
  | index => exact hrev .index
  | score => exact (rangeOptions_flag (by decide) rfl _).trans (hrev .score)
  | lex => exact (rangeOptions_flag (by decide) rfl _).trans (hrev .lex)

omit [GoFloat S] in
theorem both_of_pure {α β : Type} {a : Option α} {b : Option α} {f : α → α → β} {c : β}
    (h : (do let x ← a; let y ← b; pure (f x y)) = some c) : ∃ x y, a = some x ∧ b = some y ∧ c = f x y := by
  cases a with
  | none => cases h
  | some x =>
      cases b with
      | none => cases h
      | some y => exact ⟨x, y, rfl, rfl, (Option.some.inj h).symm⟩

theorem rangeSelection_eq {kind : Handlers.RangeKind} {rev : Bool} {start stop : Bytes} {range : ZRangeStoreBy S}
    (h : selected kind rev start stop = some range) (offset cnt : ℤ) (next : ZRangeStoreBy S → Proc S) :
    Handlers.rangeSelection ⟨false, kind, rev, offset, cnt⟩ start stop next = next range := by
  cases kind with
  | index =>
      obtain ⟨a, b, ha, hb, rfl⟩ := both_of_pure h
      simp only [Handlers.rangeSelection, ha, hb, Proc.need]
  | score =>
      obtain ⟨a, b, ha, hb, rfl⟩ := both_of_pure h
      simp only [Handlers.rangeSelection, ha, hb, Proc.need]
  | lex =>
      obtain ⟨a, b, ha, hb, rfl⟩ := both_of_pure h
      simp only [Handlers.rangeSelection, ha, hb, Proc.need]

theorem zrangestoreOp_eq {kind : Handlers.RangeKind} {rev : Bool} {start stop : Bytes} {range : ZRangeStoreBy S}
    (h : selected kind rev start stop = some range) :
    Handlers.zrangestoreOp (dst :: src :: start :: stop :: rangeWords kind rev) =
      Proc.answerTyped (.zRangeStore dst src ⟨range, rev, 0, -1⟩) := by
  have hoptions := rangeOptions_words kind rev []
  rw [List.append_nil] at hoptions
  rw [Handlers.zrangestoreOp, hoptions, Handlers.rangeOptions, Proc.parsed]
  exact rangeSelection_eq h 0 (-1) _

/-- A `ZRANGESTORE` stores these members: it replies their number, the destination holds them and nothing else,
and no other key changes. -/
def Stores (e : Env) (sc : ScriptCache) (d : DB S) (dst : Bytes) (p : Proc S) (ms : List (ZMember S)) : Prop :=
  (p.direct e sc d).1 = .ok (.int ms.length) ∧
    Rewritten d (p.direct e sc d).2.2 (encodeKey dst) .zset .kvZsets (scoreRows ms)

theorem stores_of_members
    (h : rangeStoreMembers spec (sourceRows e.now d dst src) = .ok ms) :
    Stores e sc d dst (Proc.answerTyped (.zRangeStore dst src spec)) ms := by
  obtain ⟨d', hexec, hrewritten⟩ := exec_zRangeStore h
  rw [Stores, Proc.direct_answerTyped hexec]
  exact ⟨rfl, hrewritten⟩

/-- Nothing else is stored. -/
theorem stores_length {ms ms' : List (ZMember S)}
    (h : rangeStoreMembers spec (sourceRows e.now d dst src) = .ok ms)
    (hstores : Stores e sc d dst (Proc.answerTyped (.zRangeStore dst src spec)) ms') : ms'.length = ms.length := by
  have hreply := (stores_of_members h).1.symm.trans hstores.1
  have hnum : (ms.length : ℤ) = ms'.length := congrArg Value.num (Except.ok.inj hreply)
  omega

theorem not_stores_of_error {x : PgError}
    (h : rangeStoreMembers spec (sourceRows e.now d dst src) = .error x) :
    ¬ Stores e sc d dst (Proc.answerTyped (.zRangeStore dst src spec)) ms := by
  intro hstores
  obtain ⟨r, hexec, -⟩ := Proc.direct_answerTyped_ok (by rintro ⟨⟩) hstores.1
  rw [exec_zRangeStore_error h] at hexec
  cases hexec

/-- **`ZRANGESTORE` stores what the range shows** exactly if it has another destination, or if the range shows
nothing and can be computed for an empty set. -/
theorem range_store_iff (e : Env) (sc : ScriptCache) (d : DB S) (dst src : Bytes) (kind : Handlers.RangeKind)
    (rev : Bool) (start stop : Bytes) (range : ZRangeStoreBy S) (hrange : selected kind rev start stop = some range)
    (ms : List (ZMember S)) (hshown : Shows e d src range rev ms) :
    Stores e sc d dst (Handlers.zrangestoreOp (dst :: src :: start :: stop :: rangeWords kind rev)) ms ↔
      encodeKey dst ≠ encodeKey src ∨ ms = [] ∧ ¬ RefusedWhenEmpty range := by
  rw [zrangestoreOp_eq hrange]
  have hselect := (shows_iff range rev ms).mp hshown
  by_cases hkeys : encodeKey dst = encodeKey src
  · -- the source is removed before it is read
    have hempty : sourceRows e.now d dst src = ∅ := by
      rw [sourceRows, hkeys, Store.rows_dropKey_self]
      rfl
    obtain ⟨hrefused, hread⟩ := rangeStoreMembers_empty range rev (-1) le_rfl
    rw [← hempty] at hrefused hread
    rw [or_iff_right (not_not.mpr hkeys)]
    by_cases hover : RefusedWhenEmpty range
    · exact iff_of_false (not_stores_of_error (hrefused hover)) fun h => h.2 hover
    · constructor
      · intro hstores
        exact ⟨List.eq_nil_of_length_eq_zero (stores_length (hread hover) hstores), hover⟩
      · rintro ⟨rfl, -⟩
        exact stores_of_members (hread hover)
  · have hsource : sourceRows e.now d dst src = live e.now (d.rows .kvZsets (encodeKey src)) := by
      rw [sourceRows, Store.rows_dropKey_of_ne _ _ (Ne.symm hkeys)]
    rw [← hsource] at hselect
    exact iff_of_true (stores_of_members hselect) (Or.inl hkeys)

theorem shows_oneMember : Shows (envAt 0) oneMember [122] (.index 0 (-1)) false [⟨[97], 5⟩] := by
  rw [shows_iff, oneMember, Store.rows_setRows_self]
  rfl

/-- `ZRANGESTORE y z 0 -1` copies the one member of `z`. -/
theorem range_store_copy : Stores (envAt 0) ∅ oneMember [121]
    (Handlers.zrangestoreOp [[121], [122], utf8 "0", utf8 "-1"]) [⟨[97], 5⟩] := by
  have hkeys : encodeKey [121] ≠ encodeKey [122] := by decide
  exact (range_store_iff (envAt 0) ∅ oneMember [121] [122] .index false (utf8 "0") (utf8 "-1") (.index 0 (-1)) rfl
    [⟨[97], 5⟩] shows_oneMember).mpr (Or.inl hkeys)

/-- `ZRANGESTORE z z 0 -1` replies 0 and leaves `z` without members. -/
theorem range_store_onto_itself :
    Shows (envAt 0) oneMember [122] (.index 0 (-1)) false [⟨[97], 5⟩] ∧
    ((Handlers.zrangestoreOp [[122], [122], utf8 "0", utf8 "-1"] : Proc ℤ).direct (envAt 0) ∅ oneMember).1 =
      .ok (.int 0) ∧
    ((Handlers.zrangestoreOp [[122], [122], utf8 "0", utf8 "-1"] : Proc ℤ).direct (envAt 0) ∅ oneMember).2.2.rows
      .kvZsets (encodeKey [122]) = ∅ := by
  have hop : (Handlers.zrangestoreOp [[122], [122], utf8 "0", utf8 "-1"] : Proc ℤ) =
      Proc.answerTyped (.zRangeStore [122] [122] ⟨.index 0 (-1), false, 0, -1⟩) := rfl
  have hselect : rangeStoreMembers ⟨.index 0 (-1), false, 0, -1⟩ (sourceRows 0 oneMember [122] [122]) = .ok [] := by
    rw [sourceRows, Store.rows_dropKey_self]
    rfl
  have hstores : Stores (envAt 0) ∅ oneMember [122]
      (Proc.answerTyped (.zRangeStore [122] [122] ⟨.index 0 (-1), false, 0, -1⟩)) [] := stores_of_members hselect
  rw [hop]
  exact ⟨shows_oneMember, hstores.1, hstores.2.data⟩

end Postkeys
