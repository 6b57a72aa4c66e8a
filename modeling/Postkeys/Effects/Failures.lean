import Postkeys.Effects.Commands
import Postkeys.Effects.Footprints
import Postkeys.Relational.Outcome

/-! # Operations that give up

An operation may give up on its own although the server has reported no error.  The operations in
the first part, among those that change strings, never do (`Completes`).  `RENAME` and `COPY` may do so
after they have written; `eval_rename` and `eval_copyRows` are what they leave then. -/

namespace Postkeys

open Relational Program

variable {S α β : Type} {e : Env} {d : DB S}

/-! ### Operations that never give up -/

theorem lockKeys_completes (ks : List Bytes) : (lockKeys ks : Op S _).Completes := by
  unfold lockKeys
  split
  · exact trivial
  · exact completes_acquire _
  · exact .forEach fun _ => completes_acquire _

theorem setMeta_completes {k : Bytes} {kt : KeyType} {x : Option Time} :
    (setMeta k kt x : Op S _).Completes :=
  .bind (completes_acquire _) fun _ => completes_query _

theorem setMetaBatch_completes {ks : List Bytes} {kt : KeyType} :
    (setMetaBatch ks kt : Op S _).Completes :=
  .ite trivial (.bind (lockKeys_completes _) fun _ => completes_query _)

theorem deleteKeyFromAllTables_completes {k : Bytes} :
    (deleteKeyFromAllTables k : Op S _).Completes :=
  .bind (completes_acquire _) fun _ => .forEach fun _ => completes_query _

theorem deleteKeysFromAllTables_completes {ks : List Bytes} :
    (deleteKeysFromAllTables ks : Op S _).Completes :=
  .ite trivial (.bind (lockKeys_completes _) fun _ => .forEach fun _ => completes_query _)

/-- The write behind `INCR` and its like. -/
theorem writeString_completes {k value : Bytes} {a : α} :
    (do setMeta k .string none; query (upsertString k value); pure a : Op S α).Completes :=
  .bind setMeta_completes fun _ => .bind (completes_query _) fun _ => trivial

theorem set_completes {key value : Bytes} {ttl : ℤ} : (set key value ttl : Op S _).Completes := by
  have hput (x : Option Time) : (do
      setMeta (encodeKey key) .string x
      query (upsertRow .kvStrings (encodeKey key) () ⟨value, x⟩ fun _ => ⟨value, x⟩) :
      Op S Unit).Completes := .bind setMeta_completes fun _ => completes_query _
  refine .bind deleteKeyFromAllTables_completes fun _ => ?_
  exact .ite (.bind completes_clock fun _ => hput _) (hput _)

theorem setNX_completes {key value : Bytes} {ttl : ℤ} : (setNX key value ttl : Op S _).Completes :=
  .bind (completes_acquire _) fun _ => .bind (completes_query _) fun _ =>
    .ite trivial (.bind set_completes fun _ => trivial)

theorem mSet_completes {pairs : Table Bytes Bytes} : (mSet pairs : Op S _).Completes :=
  .bind completes_random fun _ => .ite trivial <| .bind deleteKeysFromAllTables_completes fun _ =>
    .bind setMetaBatch_completes fun _ => completes_query _

theorem getEx_completes {key : Bytes} {ttl : ℤ} {persist : Bool} :
    (getEx key ttl persist : Op S _).Completes := by
  refine .bind (completes_acquire _) fun _ => .bind (completes_query _) fun v => ?_
  have hset (x : Option Time) (a : Option Bytes) : (do
      query (setExpiry .kvMeta (encodeKey key) x)
      query (setExpiry .kvStrings (encodeKey key) x)
      pure a : Op S (Option Bytes)).Completes :=
    .bind (completes_query _) fun _ => .bind (completes_query _) fun _ => trivial
  cases v with
  | none => exact trivial
  | some v => exact .ite (hset _ _) (.ite (.bind completes_clock fun _ => hset _ _) trivial)

theorem getDel_completes {key : Bytes} : (getDel key : Op S _).Completes := by
  refine .bind (completes_acquire _) fun _ => .bind (completes_query _) fun v => ?_
  cases v with
  | none => exact trivial
  | some v =>
      exact .bind (completes_queryIgnored _) fun _ => .bind (completes_query _) fun _ => trivial

theorem getSet_completes {key value : Bytes} : (getSet key value : Op S _).Completes :=
  .bind (completes_query _) fun _ => .bind setMeta_completes fun _ =>
    .bind (completes_query _) fun _ => trivial

theorem del_completes {keys : List Bytes} : (del keys : Op S _).Completes := by
  have hloop (ks : List Bytes) (n : ℤ) : (delLoop n ks : Op S _).Completes := by
    induction ks generalizing n with
    | nil => exact trivial
    | cons k ks ih =>
        refine .bind (.bind (completes_query _) fun _ => .ite trivial ?_) fun _ => ih _
        exact .bind deleteKeyFromAllTables_completes fun _ => trivial
  exact hloop _ _

theorem applyExpiry_completes {k : Bytes} {x : Time} {opts : ExpireOptions} :
    (applyExpiry k x opts : Op S _).Completes := by
  refine .bind (completes_query _) fun rows => ?_
  cases rows with
  | nil => exact trivial
  | cons r rows =>
      dsimp only
      cases dataTableForType r.2.val with
      | none => exact trivial
      | some t => exact .bind (completes_query _) fun _ => trivial

theorem persist_completes {key : Bytes} : (persist key : Op S _).Completes :=
  .bind (completes_acquire _) fun _ => .bind (completes_query _) fun _ =>
    .ite trivial (.bind (.forEach fun _ => completes_queryIgnored _) fun _ => trivial)

section scores
variable [Float64 S]

theorem zAddLoop_completes {k : Bytes} (opts : ZAddOptions) (members : List (ZMember S))
    (added changed : ℤ) : (zAddLoop k opts added changed members).Completes := by
  induction members generalizing added changed with
  | nil => exact trivial
  | cons m members ih =>
      refine .bind (completes_query _) fun old => ?_
      cases zAddAction opts m.score old with
      | skip => exact ih _ _
      | update => exact .bind (completes_query _) fun _ => ih _ _
      | add => exact .bind (completes_query _) fun _ => ih _ _

theorem zRangeStore_completes {dst src : Bytes} {spec : ZRangeStoreSpec S} :
    (zRangeStore dst src spec).Completes :=
  .bind deleteKeyFromAllTables_completes fun _ => .bind (completes_query _) fun _ =>
    .ite (.bind setMeta_completes fun _ => trivial) trivial

end scores

/-! ### Giving up after a write -/

theorem eval_copyRows {T : KeyType} {source k : Bytes} (hT : T.table ≠ .kvMeta)
    (h : d.rows T.table source ≠ ∅) : (copyRows T.table T source k : Op S _).eval e (Tx.clean d) =
      (.error (.error "conn busy"), Tx.clean (d.setRows .kvMeta k (.single () ⟨T, none⟩))) := by
  set d₁ : DB S := d.setRows .kvMeta k (.single () ⟨T, none⟩) with hd₁
  have hrows : (queryRows (selectAll T.table source fun u => u.toList) : Op S _).eval e (Tx.clean d₁) =
      (.ok (d.rows T.table source).toList, Tx.clean d₁) := by
    rw [← Store.rows_setRows_of_ne_table d hT k source (.single () ⟨T, none⟩)]
    rfl
  rw [copyRows, eval_bind_ok (eval_setMeta T none), eval_bind_ok hrows]
  cases hlist : (d.rows T.table source).toList with
  | nil => exact absurd (Table.toList_eq_nil_iff.mp hlist) h
  | cons r rows => rfl

theorem eval_rename {oldKey newKey : Bytes}
    (h : liveType e.now d (encodeKey oldKey) = some .hyperloglog) :
    (rename oldKey newKey : Op S _).eval e (Tx.clean d) =
      (.error (.error "unsupported key type for rename: hyperloglog"),
        Tx.clean (d.dropKey (encodeKey newKey))) := by
  rw [rename, eval_bind_ok (eval_lockKeys _), eval_bind_ok eval_getKeyType, h]
  dsimp only
  rw [eval_bind_ok eval_deleteKeyFromAllTables]
  rfl

end Postkeys
