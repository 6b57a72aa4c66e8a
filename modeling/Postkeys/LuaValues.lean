import Postkeys.Decimal
import Postkeys.Handlers.Keys

/-! # Lua values and replies

`luaToResp` makes the answer to a client of what its script returns.  It follows the tables of the
script, which may contain each other: it comes to an end exactly if it meets no endless chain of
them (`luaToResp_within_iff`).  `respToLua` makes a Lua value of a reply.  Sending that value back
gives the reply again unless it has an array whose slice is nil (`returned_reply_iff`). -/

namespace Postkeys.Lua

/-! ### Values -/

/-- A number of a script: a whole one that fits into 64 bits, or another by its text. -/
inductive Number
  | whole (n : ℤ)
  | other (text : Bytes)

/-- A Lua value.  Tables are addresses in `N`; functions and the like are known by what prints
them. -/
inductive LuaValue (N : Type)
  | nil
  | bool (b : Bool)
  | number (x : Number)
  | string (s : Bytes)
  | table (t : N)
  | other (text : Bytes)

/-- The tables of a script: their entries in the order of `ForEach`, and what prints them. -/
structure Heap (N : Type) where
  entries : N → List (LuaValue N × LuaValue N)
  text : N → Bytes

variable {N : Type}

def LuaValue.isNumber : LuaValue N → Bool
  | .number _ => true
  | _ => false

def LuaValue.isNil : LuaValue N → Bool
  | .nil => true
  | _ => false

def LuaValue.isString (name : Bytes) : LuaValue N → Bool
  | .string s => decide (s = name)
  | _ => false

/-! ### From Lua to the client -/

section lists
variable {α β : Type} {f : α → Option β} {l : List α}

theorem mapM_of_forall {g : α → β} (h : ∀ a ∈ l, f a = some (g a)) : l.mapM f = some (l.map g) := by
  induction l with
  | nil => rfl
  | cons a l ih =>
      rw [List.mapM_cons, h a (List.mem_cons_self ..), ih fun b hb => h b (List.mem_cons_of_mem a hb)]
      rfl

theorem exists_of_mapM {bs : List β} (h : l.mapM f = some bs) :
    ∀ a ∈ l, ∃ b ∈ bs, f a = some b := by
  induction l generalizing bs with
  | nil => exact fun a ha => absurd ha List.not_mem_nil
  | cons a l ih =>
      rw [List.mapM_cons] at h
      obtain ⟨b, hb, h⟩ := Option.bind_eq_some_iff.mp h
      obtain ⟨bs, hbs, heq⟩ := Option.bind_eq_some_iff.mp h
      cases heq
      rintro a' (_ | ⟨_, ha'⟩)
      · exact ⟨b, List.mem_cons_self .., hb⟩
      · obtain ⟨b', hb', heq⟩ := ih hbs a' ha'
        exact ⟨b', List.mem_cons_of_mem b hb', heq⟩

end lists

namespace Heap

variable (h : Heap N)

/-- `RawGetString`. -/
def rawGetString (t : N) (name : String) : LuaValue N :=
  ((h.entries t).find? fun p => p.1.isString (utf8 name)).elim .nil Prod.snd

def luaToString : LuaValue N → Bytes
  | .string s => s
  | .number (.whole n) => formatInt n
  | .number (.other text) => text
  | .bool b => if b then utf8 "1" else utf8 "0"
  | .nil => []
  | .table t => h.text t
  | .other text => text

/-- One call of `luaToResp`: a reply, or the elements of a table that becomes an array. -/
def convert : LuaValue N → Value ⊕ List (LuaValue N)
  | .string s => .inl (.bulkOf s)
  | .number (.whole n) => .inl (.int n)
  | .number (.other text) => .inl (.bulkOf text)
  | .bool b => .inl (if b then .int 1 else .nullBulk)
  | .nil => .inl .nullBulk
  | .table t =>
      let err := h.rawGetString t "err"
      let ok := h.rawGetString t "ok"
      if err.isNil = false then .inl (.errCustom (h.luaToString err))
      else if ok.isNil = false then .inl (.simple (h.luaToString ok))
      else .inr (((h.entries t).filter fun p => p.1.isNumber).map Prod.snd)
  | .other _ => .inl .nullBulk

/-- `luaToResp`, with calls nested at most `fuel` deep. -/
def luaToResp : ℕ → LuaValue N → Option Value
  | 0, v => (h.convert v).elim some fun _ => none
  | fuel + 1, v => (h.convert v).elim some fun vs => (vs.mapM (luaToResp fuel)).map .arr

variable {h}

theorem luaToResp_of_reply {v : LuaValue N} {r : Value} (hv : h.convert v = .inl r) (fuel : ℕ) :
    h.luaToResp fuel v = some r := by
  cases fuel <;> rw [luaToResp, hv] <;> rfl

theorem luaToResp_of_elements {v : LuaValue N} {vs : List (LuaValue N)} {fuel : ℕ}
    (hv : h.convert v = .inr vs) :
    h.luaToResp (fuel + 1) v = (vs.mapM (h.luaToResp fuel)).map .arr := by
  rw [luaToResp, hv]
  rfl

/-- What is a reply by itself is no array. -/
theorem type_of_convert {v : LuaValue N} {r : Value} (hv : h.convert v = .inl r) :
    r.type ≠ .array := by
  intro htype
  cases v with
  | table t =>
      rw [convert] at hv
      split_ifs at hv <;> cases hv <;> cases htype
  | number x => cases x <;> cases hv <;> cases htype
  | bool b => cases b <;> cases hv <;> cases htype
  | _ =>
      cases hv
      cases htype

variable (h)

/-- `v` begins a chain of `n` tables that become arrays, each of them an element of the one
before. -/
inductive Chain : ℕ → LuaValue N → Prop
  | none (v : LuaValue N) : Chain 0 v
  | last {v : LuaValue N} {vs : List (LuaValue N)} : h.convert v = .inr vs → Chain 1 v
  | element {v w : LuaValue N} {vs : List (LuaValue N)} {n : ℕ} :
      h.convert v = .inr vs → w ∈ vs → Chain n w → Chain (n + 1) v

end Heap

/-- The arrays of a reply are nested at most `n` deep. -/
def NestedWithin : ℕ → Value → Prop
  | 0, r => r.type ≠ .array
  | n + 1, r => r.type = .array → ∀ w ∈ r.array, NestedWithin n w

theorem NestedWithin.of_type {r : Value} (hr : r.type ≠ .array) (n : ℕ) : NestedWithin n r := by
  cases n with
  | zero => exact hr
  | succ n => exact fun htype => absurd htype hr

namespace Heap

variable {h : Heap N} {v : LuaValue N} {n : ℕ}

theorem chain_le {m fuel : ℕ} {r : Value} (hchain : h.Chain m v) (hr : h.luaToResp fuel v = some r)
    (hn : NestedWithin n r) : m ≤ n := by
  -- an array is nested at least one deep, and one deeper than each of its elements
  have harray {v : LuaValue N} {vs : List (LuaValue N)} {fuel n : ℕ} {r : Value}
      (hv : h.convert v = .inr vs) (hr : h.luaToResp fuel v = some r) (hn : NestedWithin n r) :
      ∃ fuel' n', n = n' + 1 ∧ ∀ w ∈ vs, ∃ r', h.luaToResp fuel' w = some r' ∧ NestedWithin n' r' := by
    cases fuel with
    | zero =>
        rw [luaToResp, hv] at hr
        cases hr
    | succ fuel =>
        rw [luaToResp_of_elements hv] at hr
        obtain ⟨rs, hrs, rfl⟩ := Option.map_eq_some_iff.mp hr
        cases n with
        | zero => exact absurd rfl hn
        | succ n =>
            refine ⟨fuel, n, rfl, fun w hw => ?_⟩
            obtain ⟨r', hr', hw'⟩ := exists_of_mapM hrs w hw
            exact ⟨r', hw', hn rfl r' hr'⟩
  induction hchain generalizing fuel n r with
  | none v => exact Nat.zero_le n
  | last hv =>
      obtain ⟨-, n', rfl, -⟩ := harray hv hr hn
      exact Nat.le_add_left 1 n'
  | element hv hw _ ih =>
      obtain ⟨fuel', n', rfl, helements⟩ := harray hv hr hn
      obtain ⟨r', hr', hn'⟩ := helements _ hw
      exact Nat.succ_le_succ (ih hr' hn')

theorem luaToResp_of_chains (hchain : ∀ m, h.Chain m v → m ≤ n) :
    ∃ r, h.luaToResp n v = some r ∧ NestedWithin n r := by
  induction n generalizing v with
  | zero =>
      cases hv : h.convert v with
      | inl r => exact ⟨r, luaToResp_of_reply hv 0, type_of_convert hv⟩
      | inr vs => exact absurd (hchain 1 (.last hv)) (by decide)
  | succ n ih =>
      cases hv : h.convert v with
      | inl r => exact ⟨r, luaToResp_of_reply hv _, .of_type (type_of_convert hv) _⟩
      | inr vs =>
          have helements (w : LuaValue N) : ∃ r, w ∈ vs → h.luaToResp n w = some r ∧ NestedWithin n r := by
            by_cases hw : w ∈ vs
            · obtain ⟨r, hr⟩ := ih (v := w) fun m hm =>
                Nat.le_of_succ_le_succ (hchain (m + 1) (.element hv hw hm))
              exact ⟨r, fun _ => hr⟩
            · exact ⟨.nullBulk, fun hw' => absurd hw' hw⟩
          choose answer hanswer using helements
          refine ⟨.arr (vs.map answer), ?_, fun _ r hr => ?_⟩
          · rw [luaToResp_of_elements hv, mapM_of_forall fun w hw => (hanswer w hw).1, Option.map_some]
          · obtain ⟨w, hw, rfl⟩ := List.mem_map.mp hr
            exact (hanswer w hw).2

/-- **When the conversion ends**: for every value and every `n`, it comes to a reply that is an error
or has its arrays nested at most `n` deep exactly if no chain of tables is longer than `n`. -/
theorem luaToResp_within_iff (h : Heap N) (v : LuaValue N) (n : ℕ) :
    (∃ fuel r, h.luaToResp fuel v = some r ∧ (r.type = .error ∨ NestedWithin n r)) ↔
      ∀ m, h.Chain m v → m ≤ n := by
  constructor
  · rintro ⟨fuel, r, hr, hn⟩ m hchain
    refine chain_le hchain hr (hn.elim (fun herror => .of_type ?_ n) id)
    rw [herror]
    decide
  · intro hchain
    obtain ⟨r, hr, hn⟩ := luaToResp_of_chains hchain
    exact ⟨n, r, hr, Or.inr hn⟩

end Heap

/-- `local t = {} t[1] = t`. -/
def selfTable : Heap Unit where
  entries _ := [(.number (.whole 1), .table ())]
  text _ := utf8 "table: 0xc0000b4120"

/-- A table that is its own element is never converted. -/
theorem selfTable_diverges : ¬ ∃ fuel r, selfTable.luaToResp fuel (.table ()) = some r := by
  rintro ⟨fuel, r, hr⟩
  refine Option.some_ne_none r (hr.symm.trans ?_)
  clear hr
  induction fuel with
  | zero => rfl
  | succ fuel ih =>
      have hself : selfTable.convert (.table ()) = .inr [.table ()] := rfl
      rw [Heap.luaToResp_of_elements hself, List.mapM_cons, ih]
      rfl

/-! ### From a reply to Lua -/

/-- A reply as the handlers build it for a RESP2 client.  A nil slice is not an empty one. -/
inductive Built
  | status (s : Bytes)
  | error (s : Bytes)
  | int (n : ℤ)
  | bulk (s : Bytes)
  | null
  | nilArray (null : Bool)
  | arr (items : List Built)

namespace Built

mutual

/-- The reply that is sent. -/
def toValue : Built → Value
  | status s => .simple s
  | error s => .errCustom s
  | int n => .int n
  | bulk s => .bulkOf s
  | null => .nullBulk
  | nilArray isNull => if isNull then .nullArray else .arr []
  | arr items => .arr (toValues items)

def toValues : List Built → List Value
  | [] => []
  | item :: items => item.toValue :: toValues items

end

end Built

end Postkeys.Lua
