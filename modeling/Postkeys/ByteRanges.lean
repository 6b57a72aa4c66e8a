import Postkeys.BitOps
import Postkeys.BitRanges
import Postkeys.Decimal

/-! # `GETRANGE`, `SETRANGE` and `SETBIT`

`byte_ranges_iff`: `GETRANGE` answers the bytes of its range; what `SETRANGE` and `SETBIT` write is read
back, and everything else stays as it was, exactly if the key has no lapsed row (or only zeros are
written).  A lapsed row is rewritten in place and keeps its expiry, so it stays unreadable. -/

namespace Postkeys

open Relational Program Bitstring

variable {S : Type} {e : Env} {d : DB S} {key : Bytes} {o : ℕ}

/-! ### Buffers -/

theorem overwrite_zeros {buf : Bytes} {n : ℕ} (h : buf.length ≤ n) :
    overwrite (List.replicate n 0) 0 buf = padTo n buf := by
  rw [overwrite, padTo, List.take_zero, List.nil_append, List.length_replicate, Nat.sub_zero, Nat.zero_add,
    List.take_of_length_le h, List.drop_replicate]

/-- Extending a buffer only adds zero bytes. -/
theorem extendTo_eq {buf buf' : Bytes} {n : ℤ} (h : extendTo buf n = some buf') : buf' = padTo n.toNat buf := by
  unfold extendTo at h
  split at h
  · rename_i hlt
    rw [makeBytes] at h
    split at h
    · rw [Option.map_some, Option.some.injEq] at h
      rw [← h, overwrite_zeros (by omega)]
    · cases h
  · rename_i hle
    have hlen : n.toNat - buf.length = 0 := by omega
    rw [padTo, hlen, List.replicate_zero, List.append_nil]
    exact (Option.some.inj h).symm

theorem length_padTo_eq (n : ℕ) (v : Bytes) : (padTo n v).length = max v.length n := by
  rw [padTo, List.length_append, List.length_replicate]
  omega

theorem getElem?_padTo (n : ℕ) (v : Bytes) (i : ℕ) :
    (padTo n v)[i]? = if i < v.length then v[i]? else if i < n then some 0 else none := by
  rw [padTo]
  split
  · rename_i h
    exact List.getElem?_append_left h
  · rename_i h
    rw [List.getElem?_append_right (by omega), List.getElem?_replicate]
    exact if_congr (by omega) rfl rfl

theorem length_overwrite {buf v : Bytes} (h : o ≤ buf.length) :
    (overwrite buf o v).length = buf.length := by
  rw [overwrite, List.length_append, List.length_append, List.length_take, List.length_take, List.length_drop]
  omega

/-- The bytes of a buffer after `v` was copied over it. -/
theorem getElem?_overwrite {buf v : Bytes} (h : o + v.length ≤ buf.length) (i : ℕ) :
    (overwrite buf o v)[i]? = if o ≤ i ∧ i < o + v.length then v[i - o]? else buf[i]? := by
  have htake : (buf.take o).length = o := by rw [List.length_take]; omega
  rw [overwrite, List.take_of_length_le (by omega : v.length ≤ buf.length - o), List.append_assoc]
  rcases Nat.lt_or_ge i o with hi | hi
  · rw [List.getElem?_append_left (by omega), List.getElem?_take_of_lt hi, if_neg (by omega)]
  · rw [List.getElem?_append_right (by omega), htake]
    rcases Nat.lt_or_ge i (o + v.length) with hv | hv
    · rw [List.getElem?_append_left (by omega), if_pos ⟨hi, hv⟩]
    · rw [List.getElem?_append_right (by omega), List.getElem?_drop, if_neg (by omega)]
      congr 1
      omega

/-! ### `GETRANGE` -/

/-- **`GETRANGE` answers the bytes of its range.** -/
theorem exec_getRange [Float64 S] (start stop : ℤ) : (Cmd.getRange key start stop : Cmd S).exec e d =
    (.ok (.bytes (slice (stringOf e.now d key) start stop)), d) := by
  refine Cmd.exec_eq_of_total ?_
  rw [Cmd.op, total_map, Postkeys.getRange, total_bind, total_query, totalSql_selectString]
  cases hv : liveString e.now d (encodeKey key) with
  | none =>
      rw [liveString_eq_none hv, slice_eq_nil (v := []) fun p hp => absurd hp.2.2 (Nat.not_lt_zero p)]
      exact ⟨rfl, rfl⟩
  | some v =>
      rw [liveString_eq_some hv]
      obtain ⟨h0, hlen, hrange⟩ := clampRange_spec v.length start stop
      dsimp only
      by_cases hempty : (clampRange v.length start stop).2 < (clampRange v.length start stop).1
      · rw [slice_eq_nil fun p hp => ?_, if_pos (Or.inl hempty), ite_self]
        · exact ⟨rfl, rfl⟩
        · have hbounds := (hrange p).mp hp
          omega
      · have hne : ¬ v.length = 0 := by omega
        have hlt : ¬ ((clampRange v.length start stop).1 > (clampRange v.length start stop).2 ∨
            (clampRange v.length start stop).1 ≥ v.length) := by omega
        rw [if_neg hne, if_neg hlt, slice_eq (a := (clampRange v.length start stop).1.toNat)
          (b := (clampRange v.length start stop).2.toNat) (by omega) (by omega) fun p => ?_]
        · have hstop : ((clampRange v.length start stop).2 + 1).toNat =
              (clampRange v.length start stop).2.toNat + 1 := by omega
          rw [hstop]
          exact ⟨rfl, rfl⟩
        · rw [hrange p]
          omega

/-! ### `SETRANGE` -/

section setRange
variable [Float64 S] {o : ℤ} {v : Bytes}

theorem exec_setRange {buf : Bytes} (h : setRangeBytes (stringOf e.now d key) o v = some buf) :
    (Cmd.setRange key o v : Cmd S).exec e d =
      (.ok (.int buf.length), writeString d (encodeKey key) buf) := by
  refine Cmd.exec_eq_of_total ?_
  have hdata : (liveString e.now d (encodeKey key)).getD [] = stringOf e.now d key := rfl
  rw [Cmd.op, total_map, Postkeys.setRange, total_bind, total_query, totalSql_selectString]
  simp only [hdata, h, total_bind, total_query, total_write]
  exact ⟨rfl, rfl⟩

/-- A `SETRANGE` that returns has computed a new value. -/
theorem setRangeBytes_of_exec {n : ℤ} {d' : DB S}
    (h : (Cmd.setRange key o v : Cmd S).exec e d = (.ok (.int n), d')) :
    ∃ buf, setRangeBytes (stringOf e.now d key) o v = some buf ∧ n = buf.length ∧
      d' = writeString d (encodeKey key) buf := by
  cases hbuf : setRangeBytes (stringOf e.now d key) o v with
  | none =>
      have hdata : (liveString e.now d (encodeKey key)).getD [] = stringOf e.now d key := rfl
      rw [Cmd.exec, Cmd.op, eval_map, Postkeys.setRange, eval_bind_ok eval_selectString] at h
      simp only [hdata, hbuf] at h
      cases congrArg Prod.fst h
  | some buf =>
      rw [exec_setRange hbuf] at h
      cases h
      exact ⟨buf, rfl, rfl, rfl⟩

end setRange

/-- The new value of a `SETRANGE` at `o ≥ 0`: the old one with zero bytes behind it, and `v` copied over
as far as there is room. -/
theorem setRangeBytes_eq {old v buf : Bytes} (h : setRangeBytes old o v = some buf) :
    o ≤ (padTo (int64 (o + v.length)).toNat old).length ∧
      buf = overwrite (padTo (int64 (o + v.length)).toNat old) o v := by
  rw [setRangeBytes, Option.bind_eq_bind, Option.bind_eq_some_iff] at h
  obtain ⟨ext, hext, hbuf⟩ := h
  rw [extendTo_eq hext] at hbuf
  split at hbuf
  · rename_i hle
    exact ⟨by exact_mod_cast hle.2, (Option.some.inj hbuf).symm⟩
  · cases hbuf

/-- What `SETRANGE` is to do to a string: the old one, the offset, what is written, the reply, the new
string. -/
structure SetRangeLaw (old : Bytes) (o : ℕ) (v : Bytes) (n : ℤ) (new : Bytes) : Prop where
  /-- The reply is the new length. -/
  reply : n = new.length
  length : n = max old.length (o + v.length : ℕ)
  written : v ≠ [] → slice new o (o + v.length - 1) = v
  unchanged : ∀ i < old.length, i < o ∨ o + v.length ≤ i → new[i]? = old[i]?
  gap : ∀ i < o, old.length ≤ i → new[i]? = some 0

theorem slice_written {new v : Bytes} (hv : v ≠ []) (hlen : o + v.length ≤ new.length)
    (h : ∀ i < v.length, new[o + i]? = v[i]?) : slice new o (o + v.length - 1) = v := by
  have hpos : 0 < v.length := List.length_pos_iff.mpr hv
  rw [slice_eq (a := o) (b := o + v.length - 1) (by omega) (by omega) fun p => ?_]
  · refine List.ext_getElem? fun i => ?_
    rw [List.getElem?_drop, List.getElem?_take]
    split
    · rename_i hi
      exact h i (by omega)
    · rename_i hi
      rw [List.getElem?_eq_none (by omega)]
  · have hstart : ¬ (o : ℤ) < 0 := by omega
    have hstop : ¬ (o : ℤ) + v.length - 1 < 0 := by omega
    rw [InRange, fromEnd, fromEnd, if_neg hstart, if_neg hstop]
    omega

/-- Where the sum of offset and length is not out of range, `SETRANGE` computes what it should. -/
theorem setRangeLaw_bytes {old v buf : Bytes} (h : setRangeBytes old o v = some buf)
    (hfit : o + v.length < 2 ^ 63 ∨ o + v.length ≤ old.length) : SetRangeLaw old o v buf.length buf := by
  obtain ⟨ho, rfl⟩ := setRangeBytes_eq h
  obtain ⟨n, hn⟩ : ∃ n, n = (int64 (o + v.length)).toNat := ⟨_, rfl⟩
  rw [← hn] at ho ⊢
  have hpad : max old.length n = max old.length (o + v.length) := by
    rcases Nat.lt_or_ge (o + v.length) (2 ^ 63) with hlt | hge
    · rw [hn, int64_eq_self ⟨by omega, by omega⟩]
      omega
    · have hwrap : int64 (o + v.length) < 2 ^ 63 := (inInt64_int64 _).2
      omega
  have hroom : o + v.length ≤ (padTo n old).length := by rw [length_padTo_eq, hpad]; omega
  have hlen : (overwrite (padTo n old) o v).length = max old.length (o + v.length) := by
    rw [length_overwrite ho, length_padTo_eq, hpad]
  refine ⟨rfl, by exact_mod_cast hlen, fun hv => ?_, fun i hi hout => ?_, fun i hi hgap => ?_⟩
  · refine slice_written hv (by omega) fun i hi => ?_
    rw [getElem?_overwrite hroom, if_pos (by omega), Nat.add_sub_cancel_left]
  · rw [getElem?_overwrite hroom, if_neg (by omega), getElem?_padTo, if_pos hi]
  · rw [getElem?_overwrite hroom, if_neg (by omega), getElem?_padTo, if_neg (by omega), if_pos (by omega)]

/-- Where it is, the value is cut. -/
theorem not_setRangeLaw_bytes {old v buf new : Bytes} (h : setRangeBytes old o v = some buf)
    (hfit : ¬ (o + v.length < 2 ^ 63 ∨ o + v.length ≤ old.length)) :
    ¬ SetRangeLaw old o v buf.length new := by
  intro hlaw
  obtain ⟨ho, rfl⟩ := setRangeBytes_eq h
  have hlength := hlaw.length
  have hwrap : int64 (o + v.length) < 2 ^ 63 := (inInt64_int64 _).2
  rw [length_overwrite ho, length_padTo_eq] at hlength
  omega

/-- **`SETRANGE` obeys its law** exactly if the row has not lapsed, or nothing is written, and the end of
what is written is a 64-bit number. -/
theorem setRange_iff [Float64 S] {v : Bytes} {n : ℤ} {d' : DB S}
    (h : (Cmd.setRange key o v : Cmd S).exec e d = (.ok (.int n), d')) :
    SetRangeLaw (stringOf e.now d key) o v n (stringOf e.now d' key) ↔
      (¬ Lapsed e.now d (encodeKey key) ∨ (o = 0 ∧ v = [])) ∧
        (o + v.length < 2 ^ 63 ∨ o + v.length ≤ (stringOf e.now d key).length) := by
  obtain ⟨buf, hbuf, rfl, rfl⟩ := setRangeBytes_of_exec h
  by_cases hfit : o + v.length < 2 ^ 63 ∨ o + v.length ≤ (stringOf e.now d key).length
  · have hlaw := setRangeLaw_bytes hbuf hfit
    by_cases hl : Lapsed e.now d (encodeKey key)
    · rw [liveString_eq_none (liveString_writeString_lapsed buf hl)]
      rw [liveString_eq_none (liveString_of_lapsed hl)] at hlaw ⊢
      constructor
      · intro hread
        have hreply := hread.reply
        have hlength := hread.length
        rw [List.length_nil] at hreply hlength
        have ho : o = 0 := by omega
        have hv : v.length = 0 := by omega
        exact ⟨Or.inr ⟨ho, List.eq_nil_of_length_eq_zero hv⟩, Or.inl (by omega)⟩
      · rintro ⟨hcond, -⟩
        obtain ⟨rfl, rfl⟩ := hcond.resolve_left (not_not_intro hl)
        have hnil : buf = [] := List.eq_nil_of_length_eq_zero (by exact_mod_cast hlaw.length)
        rw [hnil] at hlaw ⊢
        exact hlaw
    · rw [liveString_eq_some (liveString_writeString buf hl)]
      exact iff_of_true hlaw ⟨Or.inl hl, hfit⟩
  · exact iff_of_false (not_setRangeLaw_bytes hbuf hfit) fun hcond => hfit hcond.2

/-! ### `SETBIT` -/

/-- Setting bit `i` of a byte changes that bit only. -/
theorem testBit_setByteBit (b : UInt8) {i : ℕ} (hi : i < 8) (v : Bool) (j : ℕ) :
    (setByteBit b i v).toNat.testBit j = if j = i then v else b.toNat.testBit j := by
  have hpow : 2 ^ i < 2 ^ 8 := Nat.pow_lt_pow_right (by decide) hi
  have hmask : (UInt8.ofNat (2 ^ i)).toNat = 2 ^ i := UInt8.toNat_ofNat_of_lt' hpow
  rw [setByteBit, if_pos (by omega), Int.toNat_natCast]
  cases v with
  | true =>
      rw [if_pos rfl, UInt8.toNat_or, hmask, Nat.testBit_or, Nat.testBit_two_pow]
      by_cases hj : j = i
      · simp [hj]
      · simp [hj, Ne.symm hj]
  | false =>
      have hnot : UInt8.size - 1 - 2 ^ i = 2 ^ 8 - (2 ^ i + 1) := by simp [UInt8.size]
      rw [if_neg (by decide), UInt8.toNat_and, UInt8.toNat_not, hmask, hnot, Nat.testBit_and,
        Nat.testBit_two_pow_sub_succ hpow, Nat.testBit_two_pow]
      by_cases hj : j = i
      · simp [hj]
      · by_cases h8 : j < 8
        · simp [hj, Ne.symm hj, h8]
        · have hb : b.toNat.testBit j = false :=
            Nat.testBit_lt_two_pow ((UInt8.toNat_lt b).trans_le (Nat.pow_le_pow_right (by decide) (by omega)))
          simp [hj, hb]

/-- One bit of a string set. -/
theorem bit_setByteBit {data : Bytes} (ho : o / 8 < data.length) (v : Bool) (p : ℕ) :
    bit (data.modify (o / 8) fun b => setByteBit b (7 - Int.tmod o 8) v) p = if p = o then v else bit data p := by
  have hset (b : UInt8) (j : ℕ) : (setByteBit b (7 - Int.tmod o 8) v).toNat.testBit j =
      if j = 7 - o % 8 then v else b.toNat.testBit j := by
    rw [tmod_natCast]
    exact testBit_setByteBit b (by omega) v j
  rw [bit_modify (i := 7 - o % 8) (by omega) hset ho p]
  exact if_congr (by omega) rfl rfl

/-- The reply and the new value of a `SETBIT`. -/
theorem setBitBytes_eq {data : Bytes} {b : ℤ} {r : ℤ × Bytes} (h : setBitBytes data o b = some r) :
    r.1 = (bit data o).toNat ∧ ∀ p, bit r.2 p = if p = o then decide (b = 1) else bit data p := by
  rw [setBitBytes, Option.bind_eq_bind, Option.bind_eq_some_iff] at h
  obtain ⟨ext, hext, h⟩ := h
  have hneg : ¬ ((o / 8 : ℕ) : ℤ) < 0 := by omega
  rw [tdiv_natCast, if_neg hneg, Int.toNat_natCast, Option.bind_eq_bind, Option.bind_eq_some_iff] at h
  obtain ⟨c, hc, h⟩ := h
  have hbits (p : ℕ) : bit ext p = bit data p := by rw [extendTo_eq hext, bit_padTo]
  have hlt : o / 8 < ext.length := (List.getElem?_eq_some_iff.mp hc).1
  obtain rfl := Option.some.inj h
  refine ⟨?_, fun p => ?_⟩
  · rw [← hbits, bit_of_getElem? hc, tmod_natCast, byteBit_natCast c (by omega)]
    cases c.toNat.testBit (7 - o % 8) <;> rfl
  · rw [bit_setByteBit hlt, hbits]

section setBit
variable [Float64 S] {o : ℕ} {b x : ℤ} {d' : DB S}

/-- A `SETBIT` that returns has computed an old bit and a new value. -/
theorem setBitBytes_of_exec (h : (Cmd.setBit key o b : Cmd S).exec e d = (.ok (.int x), d')) :
    ∃ buf, setBitBytes (stringOf e.now d key) o b = some (x, buf) ∧
      d' = writeString d (encodeKey key) buf := by
  have hdata : (liveString e.now d (encodeKey key)).getD [] = stringOf e.now d key := rfl
  cases hbuf : setBitBytes (stringOf e.now d key) o b with
  | none =>
      rw [Cmd.exec, Cmd.op, eval_map, Postkeys.setBit, eval_bind_ok eval_selectString] at h
      simp only [hdata, hbuf] at h
      cases congrArg Prod.fst h
  | some r =>
      have hrun : (Cmd.setBit key o b : Cmd S).exec e d =
          (.ok (.int r.1), writeString d (encodeKey key) r.2) := by
        refine Cmd.exec_eq_of_total ?_
        rw [Cmd.op, total_map, Postkeys.setBit, total_bind, total_query, totalSql_selectString]
        simp only [hdata, hbuf, total_bind, total_query, total_write]
        exact ⟨rfl, rfl⟩
      rw [hrun] at h
      cases h
      exact ⟨r.2, rfl, rfl⟩

/-- What `SETBIT` is to do: its reply is the old bit, and afterwards that bit is the new one and every
other bit the old one. -/
def SetBitLaw (e : Env) (d : DB S) (key : Bytes) (o : ℕ) (b x : ℤ) (d' : DB S) : Prop :=
  getbit e d key o = .ok (.int x) ∧
    ∀ p, getbit e d' key p = if p = o then .ok (.int b) else getbit e d key p

/-- **`SETBIT` obeys its law** exactly if the row has not lapsed or the bit is a zero. -/
theorem setBit_iff (hb : b = 0 ∨ b = 1) (h : (Cmd.setBit key o b : Cmd S).exec e d = (.ok (.int x), d')) :
    SetBitLaw e d key o b x d' ↔ ¬ Lapsed e.now d (encodeKey key) ∨ b = 0 := by
  obtain ⟨buf, hbuf, rfl⟩ := setBitBytes_of_exec h
  obtain ⟨hold, hnew⟩ := setBitBytes_eq hbuf
  have hreply : getbit e d key o = .ok (.int x) := by rw [getbit_eq, ← hold]
  by_cases hl : Lapsed e.now d (encodeKey key)
  · have hbefore : stringOf e.now d key = [] := liveString_eq_none (liveString_of_lapsed hl)
    have hafter : stringOf e.now (writeString d (encodeKey key) buf) key = [] :=
      liveString_eq_none (liveString_writeString_lapsed buf hl)
    constructor
    · intro hlaw
      have hread := hlaw.2 o
      rw [if_pos rfl, getbit_eq, hafter, bit_nil] at hread
      cases hread
      exact Or.inr rfl
    · intro hcond
      obtain rfl := hcond.resolve_left (not_not_intro hl)
      refine ⟨hreply, fun p => ?_⟩
      rw [getbit_eq, getbit_eq, hafter, hbefore, bit_nil]
      exact (ite_self _).symm
  · have hafter : stringOf e.now (writeString d (encodeKey key) buf) key = buf :=
      liveString_eq_some (liveString_writeString buf hl)
    refine iff_of_true ⟨hreply, fun p => ?_⟩ (Or.inl hl)
    rw [getbit_eq, getbit_eq, hafter, hnew]
    split
    · rcases hb with rfl | rfl <;> rfl
    · rfl

end setBit

/-- **The laws of byte ranges.**  `GETRANGE` answers the bytes of its range.  A `SETRANGE` that returns
obeys its law exactly if the key has no lapsed row (or nothing is written at the very start), and the end
of what is written is a 64-bit number (or within the string); a `SETBIT` that returns exactly if the key
has no lapsed row or a zero is written. -/
theorem byte_ranges_iff [Float64 S] (e : Env) (d : DB S) (key : Bytes) :
    (∀ start stop, (Cmd.getRange key start stop : Cmd S).exec e d =
      (.ok (.bytes (slice (stringOf e.now d key) start stop)), d)) ∧
    (∀ (o : ℕ) (v : Bytes) (n : ℤ) (d' : DB S),
      (Cmd.setRange key o v : Cmd S).exec e d = (.ok (.int n), d') →
      (SetRangeLaw (stringOf e.now d key) o v n (stringOf e.now d' key) ↔
        (¬ Lapsed e.now d (encodeKey key) ∨ (o = 0 ∧ v = [])) ∧
          (o + v.length < 2 ^ 63 ∨ o + v.length ≤ (stringOf e.now d key).length))) ∧
    (∀ (o : ℕ) (b x : ℤ) (d' : DB S), b = 0 ∨ b = 1 →
      (Cmd.setBit key o b : Cmd S).exec e d = (.ok (.int x), d') →
      (SetBitLaw e d key o b x d' ↔ ¬ Lapsed e.now d (encodeKey key) ∨ b = 0)) :=
  ⟨exec_getRange, fun _ _ _ _ h => setRange_iff h, fun _ _ _ _ hb h => setBit_iff hb h⟩

/-- The key `a` with a row that lapsed long ago. -/
def lapsedString : DB ℤ :=
  (emptyDB : DB ℤ).setRows .kvStrings (encodeKey [97]) (Table.single () ⟨[118], some 1⟩)

theorem lapsed_lapsedString : Lapsed 2 lapsedString (encodeKey [97]) := by
  refine ⟨⟨[118], some 1⟩, ?_, by decide⟩
  rw [lapsedString, Store.rows_setRows_self, Table.single_unit_row]

/-- `SETRANGE a 0 hello` on it answers 5, and `GETRANGE a 0 -1` then nothing. -/
theorem setRange_lapsed : ∃ d' : DB ℤ,
    (Cmd.setRange [97] 0 [104, 101, 108, 108, 111] : Cmd ℤ).exec (envAt 2) lapsedString = (.ok (.int 5), d') ∧
    ((Cmd.getRange [97] 0 (-1) : Cmd ℤ).exec (envAt 2) d').1 = .ok (.bytes []) ∧
    ¬ SetRangeLaw (stringOf 2 lapsedString [97]) 0 [104, 101, 108, 108, 111] 5 (stringOf 2 d' [97]) := by
  have hbefore : stringOf (envAt 2).now lapsedString [97] = [] :=
    liveString_eq_none (liveString_of_lapsed lapsed_lapsedString)
  have hafter (v : Bytes) : stringOf (envAt 2).now (writeString lapsedString (encodeKey [97]) v) [97] = [] :=
    liveString_eq_none (liveString_writeString_lapsed v lapsed_lapsedString)
  have hbuf : setRangeBytes (stringOf (envAt 2).now lapsedString [97]) 0 [104, 101, 108, 108, 111] =
      some [104, 101, 108, 108, 111] := by
    rw [hbefore]
    decide
  refine ⟨_, exec_setRange hbuf, ?_, fun hlaw => ?_⟩
  · rw [exec_getRange, hafter]
    rfl
  · have hreply := hlaw.reply
    rw [show (2 : Time) = (envAt 2).now from rfl, hafter] at hreply
    cases hreply

end Postkeys
