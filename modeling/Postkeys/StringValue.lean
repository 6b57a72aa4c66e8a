import Postkeys.Bitstring
import Postkeys.Handlers.Runs
import Postkeys.Querier.Runs

/-! # The value of a string key

What the commands on strings, bytes and bits see of a key (`liveString`, `stringOf`), and what those of
them that rewrite the value in place leave (`writeString`).  The rewritten row keeps its expiry, so
what is read afterwards depends on whether the row had lapsed before (`liveString_writeString`). -/

namespace Postkeys

open Relational Program Bitstring

variable {S : Type} {e : Env} {d : DB S} {k key : Bytes} {now : Time}

/-! ### Reading -/

/-- The bytes a command on the key works on; a missing key is the empty string. -/
def stringOf (now : Time) (d : DB S) (key : Bytes) : Bytes := (liveString now d (encodeKey key)).getD []

@[simp] theorem totalSql_selectString {Q : Option Bytes → DB S → Prop} :
    totalSql e (selectString k) Q d ↔ Q (liveString e.now d k) d := Iff.rfl

theorem eval_selectString : (query (selectString k) : Op S _).eval e (Tx.clean d) =
    (.ok (liveString e.now d k), Tx.clean d) := rfl

theorem liveString_eq_none (h : liveString now d (encodeKey key) = none) : stringOf now d key = [] := by
  rw [stringOf, h, Option.getD_none]

theorem liveString_eq_some {v : Bytes} (h : liveString now d (encodeKey key) = some v) :
    stringOf now d key = v := by
  rw [stringOf, h, Option.getD_some]

/-! ### Bits -/

theorem tdiv_natCast (p : ℕ) : Int.tdiv (p : ℤ) 8 = ((p / 8 : ℕ) : ℤ) := rfl

theorem tmod_natCast (p : ℕ) : 7 - Int.tmod (p : ℤ) 8 = ((7 - p % 8 : ℕ) : ℤ) := by
  have hmod : Int.tmod (p : ℤ) 8 = ((p % 8 : ℕ) : ℤ) := rfl
  rw [hmod]
  omega

theorem byteBit_natCast (b : UInt8) {i : ℕ} (hi : i < 8) : byteBit b (i : ℤ) = b.toNat.testBit i := by
  rw [byteBit, decide_eq_true (by omega), Bool.true_and, Int.toNat_natCast]

theorem byteAt_natCast (data : Bytes) (i : ℕ) : byteAt data (i : ℤ) = data[i]? := by
  rw [byteAt, if_neg (by omega), Int.toNat_natCast]

theorem bitAt_natCast (data : Bytes) (p : ℕ) : bitAt data (p : ℤ) = some (bit data p) := by
  have hnonneg : ¬ ((p / 8 : ℕ) : ℤ) < 0 := by omega
  rw [bitAt, tdiv_natCast, if_neg hnonneg, tmod_natCast, Int.toNat_natCast, bit]
  cases data[p / 8]? with
  | none => rfl
  | some b => exact congrArg some (byteBit_natCast b (by omega))

section getBit
variable [Float64 S]

/-- What `GETBIT` answers. -/
def getbit (e : Env) (d : DB S) (key : Bytes) (p : ℕ) : Except Failure (Reply S) :=
  ((Cmd.getBit key p : Cmd S).exec e d).1

theorem exec_getBit (p : ℕ) : (Cmd.getBit key p : Cmd S).exec e d =
    (.ok (.int (bit (stringOf e.now d key) p).toNat), d) := by
  refine Cmd.exec_eq_of_total ?_
  rw [Cmd.op, total_map, Postkeys.getBit, total_bind, total_query, totalSql_selectString]
  cases hv : liveString e.now d (encodeKey key) with
  | none =>
      rw [liveString_eq_none hv]
      exact ⟨rfl, rfl⟩
  | some v =>
      rw [liveString_eq_some hv]
      dsimp only
      rw [tdiv_natCast, bitAt_natCast, total_ite]
      refine ⟨fun hlen => ?_, fun _ => ⟨?_, rfl⟩⟩
      · rw [bit_of_length_le (by omega)]
        exact ⟨rfl, rfl⟩
      · cases bit v p <;> rfl

@[simp] theorem getbit_eq (p : ℕ) :
    getbit e d key p = .ok (.int (bit (stringOf e.now d key) p).toNat) := by
  rw [getbit, exec_getBit]

theorem getbit_eq_one {p : ℕ} : getbit e d key p = .ok (.int 1) ↔ bit (stringOf e.now d key) p = true := by
  rw [getbit_eq]
  cases bit (stringOf e.now d key) p <;> simp

theorem getbit_eq_zero {p : ℕ} : getbit e d key p = .ok (.int 0) ↔ bit (stringOf e.now d key) p = false := by
  rw [getbit_eq]
  cases bit (stringOf e.now d key) p <;> simp

end getBit

theorem exec_strLen [Float64 S] : (Cmd.strLen key : Cmd S).exec e d = (.ok (.int (stringOf e.now d key).length), d) := by
  refine Cmd.exec_eq_of_total ?_
  rw [Cmd.op, total_map, Postkeys.strLen, total_bind, total_query, totalSql_selectString]
  exact ⟨rfl, rfl⟩

/-! ### Rewriting in place -/

/-- The database after the type and the value of a string were written over what was there. -/
def writeString (d : DB S) (k v : Bytes) : DB S :=
  (d.setRows .kvMeta k (Table.single () ⟨.string, none⟩)).setRows .kvStrings k
    (Table.single () ⟨v, ((d.rows .kvStrings k).row ()).bind Cell.expiresAt⟩)

theorem putOr_string (u : Table Unit (Row S .kvStrings)) (v : Bytes) :
    putOr .kvStrings u () (⟨v, none⟩ : Row S .kvStrings) (fun r => ⟨v, r.expiresAt⟩) =
      Table.single () ⟨v, (u.row ()).bind Cell.expiresAt⟩ := by
  unfold putOr
  cases u.row () <;> exact Table.put_unit _ _

/-- Writing a string over what was there. -/
theorem total_write (k v : Bytes) {Q : Unit → DB S → Prop} :
    total e (setMeta k .string none) (fun _ d' => totalSql e (upsertString k v) Q d') d ↔
      Q () (writeString d k v) := by
  rw [total_setMeta, upsertString, totalSql_upsertRow, putOr_string,
    Store.rows_setRows_of_ne_table _ (by decide)]
  rfl

/-- A key has a row in the table of strings that has lapsed. -/
def Lapsed (now : Time) (d : DB S) (k : Bytes) : Prop :=
  ∃ r, (d.rows .kvStrings k).row () = some r ∧ r.live now = false

theorem liveString_single (v : Bytes) (x : Option Time) (d : DB S) :
    liveString now (d.setRows .kvStrings k (Table.single () ⟨v, x⟩)) k =
      if (⟨v, x⟩ : Row S .kvStrings).live now then some v else none := by
  rw [liveString, Store.rows_setRows_self, live, Table.mapRows_row, Table.single_unit_row]
  rfl

theorem liveString_writeString (v : Bytes) (h : ¬ Lapsed now d k) :
    liveString now (writeString d k v) k = some v := by
  rw [writeString, liveString_single]
  cases hr : (d.rows .kvStrings k).row () with
  | none => rfl
  | some r =>
      have hlive : r.live now = true := by
        by_contra hdead
        exact h ⟨r, hr, Bool.not_eq_true _ ▸ hdead⟩
      exact if_pos hlive

theorem liveString_writeString_lapsed (v : Bytes) (h : Lapsed now d k) :
    liveString now (writeString d k v) k = none := by
  obtain ⟨r, hr, hdead⟩ := h
  rw [writeString, liveString_single, hr]
  exact if_neg (by rw [Bool.not_eq_true]; exact hdead)

theorem liveString_of_lapsed (h : Lapsed now d k) : liveString now d k = none := by
  obtain ⟨r, hr, hdead⟩ := h
  rw [liveString, live, Table.mapRows_row, hr, Option.bind_some, if_neg (by simp [hdead])]

/-! ### One string -/

/-- A database with one string, for concrete runs. -/
def oneString (key value : Bytes) : DB ℤ :=
  ((emptyDB : DB ℤ).setRows .kvMeta (encodeKey key) (Table.single () ⟨.string, none⟩)).setRows .kvStrings
    (encodeKey key) (Table.single () ⟨value, none⟩)

theorem stringOf_oneString (value : Bytes) : stringOf now (oneString key value) key = value := by
  rw [stringOf, oneString, liveString_single]
  rfl

end Postkeys
