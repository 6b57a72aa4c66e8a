import Postkeys.GlobMatch
import Postkeys.Querier.Runs

/-! # Patterns of keys

`KEYS` and `SCAN` turn a pattern into one for `LIKE`: `*` becomes `%` and `?` becomes `_`; nothing is escaped, so
`%`, `_` and `\` of the pattern keep their meaning in `LIKE`.  `likes` says which stored keys are
then selected, and `exec_keys` that `KEYS` answers those, decoded.

On keys of ASCII characters `LIKE` has the language of its elements (`likeMatch_iff`); there `likes` is the
language of the pattern if the pattern has none of the three (`likes_iff_of_unescaped`). -/

namespace Postkeys

open Glob Relational Program

/-! ### The language of `LIKE` -/

/-- The meaning of an element on ASCII texts. -/
def itemToken : LikeItem → Token UInt8
  | .any => .star
  | .one => .one
  | .byte b => .lit b

/-- A text of ASCII characters without null bytes. -/
def Ascii (s : Bytes) : Prop := ∀ b ∈ s, b ≠ 0 ∧ b < 0x80

instance decidableAscii (s : Bytes) : Decidable (Ascii s) :=
  decidable_of_iff (s.all (fun b => decide (b ≠ 0 ∧ b < 0x80)) = true)
    (by simp only [List.all_eq_true, decide_eq_true_eq, Ascii])

variable {p q s x : Bytes} {items : List LikeItem} {b : UInt8}

theorem Ascii.tail (h : Ascii (b :: s)) : Ascii s := fun c hc => h c (List.mem_cons_of_mem b hc)

theorem Ascii.plainKey (h : Ascii s) : plainKey s = true := by
  have hvalid : validString s = true := validString_of_ascii fun b hb => (h b hb).2
  have hzero : s.contains 0 = false := by
    rw [← Bool.not_eq_true, List.contains_iff_mem]
    exact fun h0 => (h 0 h0).1 rfl
  rw [Postkeys.plainKey, hvalid, hzero]
  rfl

theorem dropChar_ascii (h : Ascii s) (a : UInt8) : dropChar (a :: s) = s := by
  cases s with
  | nil => rfl
  | cons b s =>
      have hb : ¬ (0x80 ≤ b ∧ b < 0xC0) := fun hc => absurd (h b List.mem_cons_self).2 (UInt8.not_lt.mpr hc.1)
      rw [dropChar, List.dropWhile_cons_of_neg (by simpa using hb)]

/-- On ASCII texts `LIKE` has the language of its elements. -/
theorem likeMatch_iff (hs : Ascii s) : likeMatch items s = true ↔ Matches (items.map itemToken) s := by
  induction items generalizing s with
  | nil => rw [likeMatch, List.map_nil, matches_nil, List.isEmpty_iff]
  | cons i items ih =>
      cases i with
      | any =>
          rw [likeMatch, List.map_cons, itemToken, matches_star, List.any_eq_true]
          constructor
          · rintro ⟨t, ht, hm⟩
            obtain ⟨w, rfl⟩ := (List.mem_tails ..).mp ht
            exact ⟨w, t, rfl, (ih fun b hb => hs b (List.mem_append_right w hb)).mp hm⟩
          · rintro ⟨w, t, rfl, hm⟩
            refine ⟨t, (List.mem_tails ..).mpr (List.suffix_append w t), ?_⟩
            exact (ih fun b hb => hs b (List.mem_append_right w hb)).mpr hm
      | one =>
          cases s with
          | nil => exact iff_of_false (by simp [likeMatch]) (not_matches_cons_nil (by simp [itemToken]))
          | cons a s =>
              rw [likeMatch, dropChar_ascii hs.tail, ih hs.tail, List.map_cons, itemToken, matches_cons (by simp)]
              exact (and_iff_right trivial).symm
      | byte b =>
          cases s with
          | nil => exact iff_of_false (by simp [likeMatch]) (not_matches_cons_nil (by simp [itemToken]))
          | cons a s =>
              rw [likeMatch, Bool.and_eq_true, beq_iff_eq, ih hs.tail, List.map_cons, itemToken,
                matches_cons (by simp), eq_comm]
              rfl

/-! ### Counting characters -/

/-- There are at most as many characters as bytes. -/
theorem length_of_likeMatch_ones {n : ℕ} (h : likeMatch (List.replicate n .one) s = true) : n ≤ s.length := by
  induction n generalizing s with
  | zero => exact Nat.zero_le _
  | succ n ih =>
      cases s with
      | nil => cases h
      | cons a s =>
          have hrest := ih (s := dropChar (a :: s)) h
          have hdrop : (dropChar (a :: s)).length ≤ s.length := List.length_dropWhile_le _ _
          exact Nat.succ_le_succ (hrest.trans hdrop)

/-- Behind the first byte of a longer character stands a continuation byte. -/
theorem step_lead {a : UInt8} {st : Utf8State} (h : Utf8State.step .start a = some st) (ha : ¬ a < 0x80) :
    0 < st.owed ∧ 0x80 ≤ st.low ∧ st.high ≤ 0xBF := by
  unfold Utf8State.step at h
  dsimp only [Utf8State.start] at h
  rw [if_neg ha] at h
  split_ifs at h <;> cases h <;> exact ⟨Nat.succ_pos _, by decide, by decide⟩

theorem step_owed {a : UInt8} {st st' : Utf8State} (h : st.step a = some st') (hst : 0 < st.owed) :
    st.low ≤ a ∧ a ≤ st.high := by
  obtain ⟨n, hn⟩ := Nat.exists_eq_succ_of_ne_zero hst.ne'
  unfold Utf8State.step at h
  rw [hn] at h
  dsimp only at h
  split_ifs at h with hin
  exact hin

/-- A valid text with as many characters as bytes has ASCII characters only. -/
theorem ascii_of_fold {r : Utf8State} (h : s.foldlM Utf8State.step .start = some r) (hr : r.owed = 0)
    (hones : likeMatch (List.replicate s.length .one) s = true) : ∀ b ∈ s, b < 0x80 := by
  induction s with
  | nil => simp
  | cons a s ih =>
      have hrest : likeMatch (List.replicate s.length .one) (dropChar (a :: s)) = true := hones
      have hlen := length_of_likeMatch_ones hrest
      -- no byte behind `a` belongs to its character
      have hdrop : dropChar (a :: s) = s := (List.dropWhile_suffix _).eq_of_length_le hlen
      rw [hdrop] at hrest
      rw [List.foldlM_cons] at h
      obtain ⟨st, hst, hfold⟩ := Option.bind_eq_some_iff.mp h
      have ha : a < 0x80 := by
        by_contra hge
        obtain ⟨howed, hlow, hhigh⟩ := step_lead hst hge
        cases s with
        | nil =>
            obtain rfl := Option.some.inj hfold
            exact absurd hr howed.ne'
        | cons c s =>
            rw [List.foldlM_cons] at hfold
            obtain ⟨st', hst', -⟩ := Option.bind_eq_some_iff.mp hfold
            obtain ⟨hc, hc'⟩ := step_owed hst' howed
            have hcont : 0x80 ≤ c ∧ c < 0xC0 :=
              ⟨UInt8.le_trans hlow hc, UInt8.lt_of_le_of_lt (UInt8.le_trans hc' hhigh) (by decide)⟩
            have hshort : (dropChar (a :: c :: s)).length ≤ s.length := by
              rw [dropChar, List.dropWhile_cons_of_pos (by simpa using hcont)]
              exact List.length_dropWhile_le _ _
            rw [hdrop, List.length_cons] at hshort
            omega
      have hstart : st = .start := by
        have hstep : Utf8State.step .start a = some .start := if_pos ha
        exact (Option.some.inj (hstep.symm.trans hst)).symm
      rw [hstart] at hfold
      exact List.forall_mem_cons.mpr ⟨ha, ih hfold hrest⟩

theorem ascii_of_ones (h : plainKey s = true) (hones : likeMatch (List.replicate s.length .one) s = true) :
    Ascii s := by
  obtain ⟨hvalid, hzero⟩ := valid_of_plainKey h
  unfold validString at hvalid
  cases hfold : s.foldlM Utf8State.step .start with
  | none =>
      rw [hfold] at hvalid
      cases hvalid
  | some r =>
      rw [hfold] at hvalid
      intro b hb
      refine ⟨fun h0 => hzero (h0 ▸ hb), ascii_of_fold hfold (by simpa using hvalid) hones b hb⟩

/-- An ASCII text has as many characters as bytes. -/
theorem length_of_ones_ascii {n : ℕ} (hs : Ascii s) (h : likeMatch (List.replicate n .one) s = true) :
    n = s.length := by
  have hm := (likeMatch_iff hs).mp h
  have hlen := hm.length_eq fun t ht => by
    obtain ⟨i, hi, rfl⟩ := List.mem_map.mp ht
    rw [List.eq_of_mem_replicate hi]
    simp [itemToken]
  rwa [List.length_map, List.length_replicate] at hlen

/-! ### The elements of a pattern -/

/-- A byte an element accepts: a wildcard stands for `!`. -/
def likeByte : LikeItem → UInt8
  | .any => 33
  | .one => 33
  | .byte b => b

/-- A text `LIKE` accepts. -/
def likeSample (items : List LikeItem) : Bytes := items.map likeByte

theorem matches_likeSample (items : List LikeItem) : Matches (items.map itemToken) (likeSample items) := by
  induction items with
  | nil => exact .nil
  | cons i items ih =>
      cases i with
      | any => exact .more (.skip ih)
      | one => exact .take trivial ih
      | byte b => exact .take rfl ih

/-- The element for a byte that is not escaped. -/
def likeItem (b : UInt8) : LikeItem := if b = 37 then .any else if b = 95 then .one else .byte b

/-- Without `\` every byte is an element. -/
theorem likeItems_unescaped (h : 92 ∉ q) : likeItems q = some (q.map likeItem) := by
  fun_induction likeItems q with
  | case1 => rfl
  | case2 => exact absurd List.mem_cons_self h
  | case3 b rest ih => exact absurd List.mem_cons_self h
  | case4 rest ih => rw [ih fun h' => h (List.mem_cons_of_mem _ h')]; rfl
  | case5 rest ih => rw [ih fun h' => h (List.mem_cons_of_mem _ h')]; rfl
  | case6 b rest _ h37 h95 ih =>
      have hitem : likeItem b = .byte b := by rw [likeItem, if_neg h37, if_neg h95]
      rw [ih fun h' => h (List.mem_cons_of_mem _ h'), Option.map_some, List.map_cons, hitem]

/-- A literal byte of an element is a byte of the pattern. -/
theorem mem_of_likeItems (h : likeItems q = some items) {c : UInt8} (hc : .byte c ∈ items) : c ∈ q := by
  fun_induction likeItems q generalizing items with
  | case1 =>
      cases h
      cases hc
  | case2 => cases h
  | case3 b rest ih =>
      obtain ⟨is, his, rfl⟩ := Option.map_eq_some_iff.mp h
      rcases List.mem_cons.mp hc with hc | hc
      · cases hc
        exact List.mem_cons_of_mem _ List.mem_cons_self
      · exact List.mem_cons_of_mem _ (List.mem_cons_of_mem _ (ih his hc))
  | case4 rest ih | case5 rest ih =>
      obtain ⟨is, his, rfl⟩ := Option.map_eq_some_iff.mp h
      rcases List.mem_cons.mp hc with hc | hc
      · cases hc
      · exact List.mem_cons_of_mem _ (ih his hc)
  | case6 b rest _ _ _ ih =>
      obtain ⟨is, his, rfl⟩ := Option.map_eq_some_iff.mp h
      rcases List.mem_cons.mp hc with hc | hc
      · cases hc
        exact List.mem_cons_self
      · exact List.mem_cons_of_mem _ (ih his hc)

/-- A byte without a meaning of its own is an element. -/
theorem byte_mem_of_likeItems (h : likeItems q = some items) {c : UInt8} (hc : c ∈ q)
    (hplain : c ≠ 92 ∧ c ≠ 37 ∧ c ≠ 95) : .byte c ∈ items := by
  obtain ⟨h92, h37, h95⟩ := hplain
  fun_induction likeItems q generalizing items with
  | case1 => cases hc
  | case2 => cases h
  | case3 b rest ih =>
      obtain ⟨is, his, rfl⟩ := Option.map_eq_some_iff.mp h
      rcases List.mem_cons.mp ((List.mem_cons.mp hc).resolve_left h92) with rfl | hc
      · exact List.mem_cons_self
      · exact List.mem_cons_of_mem _ (ih his hc)
  | case4 rest ih =>
      obtain ⟨is, his, rfl⟩ := Option.map_eq_some_iff.mp h
      exact List.mem_cons_of_mem _ (ih his ((List.mem_cons.mp hc).resolve_left h37))
  | case5 rest ih =>
      obtain ⟨is, his, rfl⟩ := Option.map_eq_some_iff.mp h
      exact List.mem_cons_of_mem _ (ih his ((List.mem_cons.mp hc).resolve_left h95))
  | case6 b rest _ _ _ ih =>
      obtain ⟨is, his, rfl⟩ := Option.map_eq_some_iff.mp h
      rcases List.mem_cons.mp hc with rfl | hc
      · exact List.mem_cons_self
      · exact List.mem_cons_of_mem _ (ih his hc)

/-- Escaping costs a `\`. -/
theorem count_likeSample (h : likeItems q = some items) :
    (likeSample items).count 92 ≤ q.count 92 ∧ (92 ∈ q → (likeSample items).count 92 < q.count 92) := by
  fun_induction likeItems q generalizing items with
  | case1 =>
      cases h
      exact ⟨le_rfl, fun h' => by cases h'⟩
  | case2 => cases h
  | case3 b rest ih =>
      obtain ⟨is, his, rfl⟩ := Option.map_eq_some_iff.mp h
      have hrest := (ih his).1
      have hsample : likeSample (.byte b :: is) = b :: likeSample is := rfl
      rw [hsample, List.count_cons, List.count_cons, List.count_cons]
      exact ⟨by split <;> simp <;> omega, fun _ => by split <;> simp <;> omega⟩
  | case4 rest ih =>
      obtain ⟨is, his, rfl⟩ := Option.map_eq_some_iff.mp h
      have hsample : likeSample (.any :: is) = 33 :: likeSample is := rfl
      rw [hsample, List.count_cons_of_ne (by decide), List.count_cons_of_ne (by decide)]
      exact ⟨(ih his).1, fun h' => (ih his).2 ((List.mem_cons.mp h').resolve_left (by decide))⟩
  | case5 rest ih =>
      obtain ⟨is, his, rfl⟩ := Option.map_eq_some_iff.mp h
      have hsample : likeSample (.one :: is) = 33 :: likeSample is := rfl
      rw [hsample, List.count_cons_of_ne (by decide), List.count_cons_of_ne (by decide)]
      exact ⟨(ih his).1, fun h' => (ih his).2 ((List.mem_cons.mp h').resolve_left (by decide))⟩
  | case6 b rest h92 _ _ ih =>
      obtain ⟨is, his, rfl⟩ := Option.map_eq_some_iff.mp h
      have hsample : likeSample (.byte b :: is) = b :: likeSample is := rfl
      have hb : b ≠ 92 := h92
      rw [hsample, List.count_cons_of_ne hb, List.count_cons_of_ne hb]
      exact ⟨(ih his).1, fun h' => (ih his).2 ((List.mem_cons.mp h').resolve_left (Ne.symm hb))⟩

/-! ### What the code selects -/

/-- The pattern the code sends. -/
def sentPattern (p : Bytes) : Bytes := replaceByte 63 95 (replaceByte 42 37 p)

/-- A stored key is selected; a pattern that the database refuses selects nothing. -/
def likes (p x : Bytes) : Bool :=
  plainKey (sentPattern p) && (likeItems (sentPattern p)).elim false fun items => likeMatch items x

theorem mem_sentPattern (hb : b ≠ 42 ∧ b ≠ 63 ∧ b ≠ 37 ∧ b ≠ 95) : b ∈ sentPattern p ↔ b ∈ p := by
  obtain ⟨h42, h63, h37, h95⟩ := hb
  rw [sentPattern, replaceByte, replaceByte, List.map_map, List.mem_map]
  constructor
  · rintro ⟨c, hc, rfl⟩
    dsimp only [Function.comp_apply] at h37 h95 ⊢
    split_ifs at * <;> first | exact hc | exact absurd rfl h37 | exact absurd rfl h95
  · intro h
    exact ⟨b, h, by rw [Function.comp_apply, if_neg h42, if_neg h63]⟩

theorem count_sentPattern : (sentPattern p).count 92 = p.count 92 := by
  induction p with
  | nil => rfl
  | cons c p ih =>
      have hcons : sentPattern (c :: p) = (if (if c = 42 then 37 else c) = 63 then 95 else if c = 42 then 37 else c) ::
        sentPattern p := rfl
      rw [hcons, List.count_cons, List.count_cons, ih]
      congr 1
      by_cases h42 : c = 42
      · subst h42; rfl
      · by_cases h63 : c = 63
        · subst h63; rfl
        · rw [if_neg h42, if_neg h63]

theorem ascii_sentPattern (h : Ascii p) : Ascii (sentPattern p) := by
  intro b hb
  rw [sentPattern, replaceByte, replaceByte, List.map_map] at hb
  obtain ⟨c, hc, rfl⟩ := List.mem_map.mp hb
  rw [Function.comp_apply]
  split_ifs <;> first | exact h c hc | decide

/-- The elements of a pattern without `%`, `_` and `\` mean what its bytes mean. -/
theorem itemToken_sent (hb : b ≠ 37 ∧ b ≠ 95) :
    itemToken (likeItem (if (if b = 42 then 37 else b) = 63 then 95 else if b = 42 then 37 else b)) = globToken b := by
  obtain ⟨h37, h95⟩ := hb
  by_cases h42 : b = 42
  · subst h42; rfl
  · by_cases h63 : b = 63
    · subst h63; rfl
    · rw [if_neg h42, if_neg h63, likeItem, if_neg h37, if_neg h95, globToken, if_neg h42, if_neg h63]
      rfl

/-- A pattern in which no byte has a meaning in `LIKE` that it should not have. -/
def Unescaped (p : Bytes) : Prop := ∀ b ∈ p, b ≠ 37 ∧ b ≠ 95 ∧ b ≠ 92

instance decidableUnescaped (p : Bytes) : Decidable (Unescaped p) :=
  decidable_of_iff (p.all (fun b => decide (b ≠ 37 ∧ b ≠ 95 ∧ b ≠ 92)) = true)
    (by simp only [List.all_eq_true, decide_eq_true_eq, Unescaped])

theorem likes_iff_of_unescaped (hp : Ascii p) (hu : Unescaped p) (hs : Ascii s) :
    likes p s = true ↔ InLanguage p s := by
  have h92 : 92 ∉ sentPattern p := by
    rw [mem_sentPattern (by decide)]
    exact fun h => (hu 92 h).2.2 rfl
  rw [likes, (ascii_sentPattern hp).plainKey, likeItems_unescaped h92, Bool.true_and, Option.elim_some,
    likeMatch_iff hs, InLanguage]
  have htokens : ((sentPattern p).map likeItem).map itemToken = globTokens p := by
    rw [sentPattern, replaceByte, replaceByte, List.map_map, List.map_map, List.map_map, globTokens]
    exact List.map_congr_left fun b hb => itemToken_sent ⟨(hu b hb).1, (hu b hb).2.1⟩
  rw [htokens]

/-! ### Literal bytes -/

/-- A literal byte of a pattern occurs in every text of the language as often as in the pattern. -/
theorem count_le_of_inLanguage (h : InLanguage p s) (hb : b ≠ 42 ∧ b ≠ 63) : p.count b ≤ s.count b := by
  rw [InLanguage] at h
  generalize ht : globTokens p = tokens at h
  induction h generalizing p with
  | nil =>
      rw [List.map_eq_nil_iff.mp ht]
  | @take t a ts s hta _ ih =>
      obtain ⟨c, p, rfl, rfl, rfl⟩ := List.map_eq_cons_iff.mp ht
      have hrest := ih rfl
      have hc : c ≠ 42 := by
        rintro rfl
        exact hta
      rw [List.count_cons, List.count_cons]
      rcases (globToken_takes hc).mp hta with rfl | rfl
      · rw [if_neg (by simpa using Ne.symm hb.2)]
        exact Nat.le_add_right_of_le hrest
      · exact Nat.add_le_add_right hrest _
  | @skip ts s _ ih =>
      obtain ⟨c, p, rfl, hc, rfl⟩ := List.map_eq_cons_iff.mp ht
      obtain rfl := globToken_star.mp hc
      rw [List.count_cons_of_ne (Ne.symm hb.1)]
      exact ih rfl
  | @more ts a s _ ih => exact (ih ht).trans (List.count_le_count_cons ..)

theorem mem_of_inLanguage (h : InLanguage p s) (hb : b ≠ 42 ∧ b ≠ 63) (hp : b ∈ p) : b ∈ s :=
  List.count_pos_iff.mp (Nat.lt_of_lt_of_le (List.count_pos_iff.mpr hp) (count_le_of_inLanguage h hb))

/-- Every literal byte of the elements occurs in the text. -/
theorem mem_of_likeMatch (hs : Ascii s) (h : likeMatch items s = true) (hb : .byte b ∈ items) : b ∈ s := by
  have hm := (likeMatch_iff hs).mp h
  clear h hs
  generalize ht : items.map itemToken = tokens at hm
  induction hm generalizing items with
  | nil =>
      rw [List.map_eq_nil_iff.mp ht] at hb
      cases hb
  | @take t a ts s hta _ ih =>
      obtain ⟨i, is, rfl, rfl, rfl⟩ := List.map_eq_cons_iff.mp ht
      rcases List.mem_cons.mp hb with rfl | hb
      · have hab : a = b := hta
        exact hab ▸ List.mem_cons_self
      · exact List.mem_cons_of_mem _ (ih hb rfl)
  | @skip ts s _ ih =>
      obtain ⟨i, is, rfl, hi, rfl⟩ := List.map_eq_cons_iff.mp ht
      rcases List.mem_cons.mp hb with rfl | hb
      · cases hi
      · exact ih hb rfl
  | @more ts a s _ ih => exact List.mem_cons_of_mem _ (ih hb ht)

/-! ### The read -/

section read
variable {S : Type} {e : Env} {d : DB S}

theorem mem_liveKeys {now : Time} : x ∈ liveKeys now (d .kvMeta) ↔ (liveType now d x).isSome = true := by
  rw [liveKeys, List.mem_filter, Table.mem_ascending]
  refine and_iff_right_of_imp fun h => Store.mem_keysOf.mpr fun hempty => ?_
  have hrow : ((d .kvMeta).slice x).row () = none := congrArg (fun u => u.row ()) hempty
  rw [live, Table.mapRows_row, hrow] at h
  cases h

theorem nodup_liveKeys {now : Time} : (liveKeys now (d .kvMeta)).Nodup := (Table.nodup_ascending _).filter _

/-- The database refuses the pattern, which then selects nothing, or it answers the selected keys. -/
theorem selectKeysLike_sent (pattern : Bytes) :
    (∃ f, (selectKeysLike (sentPattern pattern) : Stm S _) e.ctx d = .error f ∧ ∀ x, likes pattern x = false) ∨
    (selectKeysLike (sentPattern pattern) : Stm S _) e.ctx d =
      .ok (d, Table.shuffle e.order ((liveKeys e.now (d .kvMeta)).filter (likes pattern))) := by
  unfold selectKeysLike
  cases hplain : plainKey (sentPattern pattern) with
  | false =>
      have hbad : ((sentPattern pattern).contains 0 || !validString (sentPattern pattern)) = true := by
        rwa [plainKey, Bool.not_eq_false'] at hplain
      rw [if_pos hbad]
      refine Or.inl ⟨_, rfl, fun x => ?_⟩
      rw [likes, hplain, Bool.false_and]
  | true =>
      have hgood : ¬ ((sentPattern pattern).contains 0 || !validString (sentPattern pattern)) = true := by
        rwa [plainKey, Bool.not_eq_true', ← Bool.not_eq_true] at hplain
      rw [if_neg hgood]
      cases hitems : likeItems (sentPattern pattern) with
      | none =>
          refine Or.inl ⟨_, rfl, fun x => ?_⟩
          rw [likes, hplain, hitems, Bool.true_and, Option.elim_none]
      | some items =>
          have hlikes : likes pattern = likeMatch items := by
            funext x
            rw [likes, hplain, hitems, Bool.true_and, Option.elim_some]
          rw [hlikes]
          exact Or.inr rfl

/-- The keys that are listed. -/
def listed (e : Env) (d : DB S) (p : Bytes) : List Bytes :=
  ((liveKeys e.now (d .kvMeta)).filter (likes p)).map decodeKey

/-- **`KEYS`** answers the selected keys, decoded, in some order, and changes nothing. -/
theorem exec_keys [Float64 S] (pattern : Bytes) :
    ∃ ks, (Cmd.keys pattern : Cmd S).exec e d = (.ok (.values ks), d) ∧ ks.Perm (listed e d pattern) := by
  have hread : ∃ rows tx, (Program.queryRows (selectKeysLike (sentPattern pattern)) : Op S _).eval e (Tx.clean d) =
      (.ok rows, tx) ∧ tx.view = d ∧ rows.Perm ((liveKeys e.now (d .kvMeta)).filter (likes pattern)) := by
    rcases selectKeysLike_sent (e := e) (d := d) pattern with ⟨f, hf, hnone⟩ | hok
    · refine ⟨[], ⟨d, true, []⟩, ?_, rfl, ?_⟩
      · simp only [queryRows, eval, Tx.request_clean, hf]
        rfl
      · rw [List.filter_eq_nil_iff.mpr fun x _ => by rw [hnone x]; exact Bool.false_ne_true]
    · refine ⟨_, Tx.clean d, ?_, rfl, Table.shuffle_perm e.order _⟩
      simp only [queryRows, eval, Tx.request_clean, hok]
      rfl
  obtain ⟨rows, tx, heval, hview, hperm⟩ := hread
  refine ⟨rows.map decodeKey, ?_, hperm.map decodeKey⟩
  rw [Cmd.exec, Cmd.op, eval_map, Postkeys.keys, ← sentPattern, eval_bind_ok heval, ← hview]
  simp [Cmd.pooled, eval, Except.map, Pure.pure]

end read

end Postkeys
