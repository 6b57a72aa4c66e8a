import Postkeys.Querier.Base

/-! # Set operations -/

namespace Postkeys

open Relational

variable {S : Type}

def sAdd (key : Bytes) (members : List Bytes) : Op S ℤ := do
  let key := encodeKey key
  if members = [] then pure 0
  else requireType key .set fun _ => do
    setMeta key .set none
    Program.query (insertIgnore .kvSets key (members.map fun m => (m, ⟨(), none⟩)))

def sRem (key : Bytes) (members : List Bytes) : Op S ℤ :=
  Program.query (deleteWhere .kvSets (encodeKey key) fun m _ => m ∈ members)

def sMembers (key : Bytes) : Op S (List Bytes) := do
  let key := encodeKey key
  readTypeCheck key .set
  let rows ← Program.query (selectLiveRows .kvSets key)
  pure (rows.map Prod.fst)

def sIsMember (key member : Bytes) : Op S Bool :=
  Program.query (selectLive .kvSets (encodeKey key) fun u => (u.row member).isSome)

def sCard (key : Bytes) : Op S ℤ := do
  let key := encodeKey key
  readTypeCheck key .set
  Program.query (selectLive .kvSets key count)

def sMIsMember (key : Bytes) (members : List Bytes) : Op S (List Bool) := do
  let rows ← Program.queryRows (selectLiveRows .kvSets (encodeKey key))
  pure (members.map fun m => decide (m ∈ rows.map Prod.fst))

def sRandMember (key : Bytes) (cnt : ℤ) : Op S (List Bytes) :=
  if cnt = 0 then pure []
  else do
    let rows ← randomRows .kvSets (encodeKey key) cnt 16
    pure (rows.map Prod.fst)

/-! ### Intersection, union, difference -/

/-- The elements of a Go map used as a set, in the order in which it is walked. -/
def walk (result : Finset Bytes) : Op S (List Bytes) := do
  let order ← Program.random
  pure (Table.shuffle order (Table.ascending result))

/-- Keep what the remaining sets have in common; stop as soon as nothing is left. -/
def sInterLoop (result : Finset Bytes) : List Bytes → Op S (Finset Bytes)
  | [] => pure result
  | key :: keys => do
      let members ← sMembers key
      let result := result.filter (· ∈ members)
      if result = ∅ then pure ∅ else sInterLoop result keys

def sInter (keys : List Bytes) : Op S (List Bytes) :=
  match encodeKeys keys with
  | [] => pure []
  | key :: keys => do
      let first ← sMembers key
      if first = [] then pure []
      else do
        let result ← sInterLoop first.toFinset keys
        walk result

/-- Collect the members of the remaining sets. -/
def sUnionLoop (result : Finset Bytes) : List Bytes → Op S (Finset Bytes)
  | [] => pure result
  | key :: keys => do
      let members ← sMembers key
      sUnionLoop (result ∪ members.toFinset) keys

def sUnion (keys : List Bytes) : Op S (List Bytes) :=
  if keys = [] then pure []
  else do
    let result ← sUnionLoop ∅ (encodeKeys keys)
    walk result

/-- Drop the members of the remaining sets. -/
def sDiffLoop (result : Finset Bytes) : List Bytes → Op S (Finset Bytes)
  | [] => pure result
  | key :: keys => do
      let members ← sMembers key
      sDiffLoop (result \ members.toFinset) keys

def sDiff (keys : List Bytes) : Op S (List Bytes) :=
  match encodeKeys keys with
  | [] => pure []
  | key :: keys => do
      let first ← sMembers key
      if first = [] then pure []
      else do
        let result ← sDiffLoop first.toFinset keys
        walk result

/-- Replace a key by a set with the given members. -/
def storeSet (destination : Bytes) (members : List Bytes) : Op S ℤ := do
  deleteKeyFromAllTables destination
  if members = [] then pure 0 else sAdd destination members

def sInterStore (destination : Bytes) (keys : List Bytes) : Op S ℤ := do
  let members ← sInter (encodeKeys keys)
  storeSet (encodeKey destination) members

def sUnionStore (destination : Bytes) (keys : List Bytes) : Op S ℤ := do
  let members ← sUnion (encodeKeys keys)
  storeSet (encodeKey destination) members

def sDiffStore (destination : Bytes) (keys : List Bytes) : Op S ℤ := do
  let members ← sDiff (encodeKeys keys)
  storeSet (encodeKey destination) members

def sInterCard (keys : List Bytes) (limit : ℤ) : Op S ℤ :=
  if keys = [] then pure 0
  else do
    let members ← sInter keys
    if 0 < limit ∧ limit < members.length then pure limit else pure (members.length : ℤ)

end Postkeys
