/-
This file models the replicated values and the database that they are applied to.
-/

import Mathlib.Logic.Function.Basic
import Mathlib.Data.List.Basic
import Mathlib.Data.String.Basic

namespace Chubby.Paxos

/-- A handler ends with a gRPC status that is not OK, or by an exception. -/
inductive HandlerError where
  | invalidArgumentStatus (message : String)
  | abortedStatus (message : String)
  | invalidArgumentException (message : String)
  deriving DecidableEq, Repr

/-- The parser splits a logged value at its first separator. -/
def getKeyValue (keyValue : String) : Except HandlerError (String × String) :=
  match keyValue.toList.dropWhile (· ≠ '#') with
  | [] => .error (.invalidArgumentException "Invalid key_value format.")
  | _ :: value => .ok (String.ofList (keyValue.toList.takeWhile (· ≠ '#')), String.ofList value)

/-- The wrapper holds the pairs of one RocksDB instance, which may have failed to open. -/
structure RocksDBWrapper where
  opened : Bool
  contents : String → Option String

namespace RocksDBWrapper

def empty : RocksDBWrapper := ⟨true, fun _ => none⟩

def get (db : RocksDBWrapper) (key : String) : Option String :=
  if db.opened then db.contents key else none

/-- The transaction stores the pair when RocksDB accepts and commits it. -/
def put (db : RocksDBWrapper) (key value : String) (committed : Bool) : RocksDBWrapper × Int :=
  if !db.opened then (db, -1)
  else if !committed then (db, -1)
  else ({ db with contents := Function.update db.contents key (some value) },
    if (db.contents key).isSome then 0 else 1)

theorem get_put (db : RocksDBWrapper) (ready : db.opened) (key value query : String) :
    (db.put key value true).1.get query = if query = key then some value else db.get query := by
  by_cases same : query = key
  · subst same; simp [put, get, ready]
  · simp [put, get, ready, same]

@[simp] theorem put_opened (db : RocksDBWrapper) (key value : String) (committed : Bool) :
    (db.put key value committed).1.opened = db.opened := by
  unfold put
  split
  · rfl
  · split <;> rfl

end RocksDBWrapper

/-- The lock service builds a logged value from a path and a locking mode. -/
def keyValue (path mode : String) : String := path ++ "#" ++ mode

/-- A value of the log form gives back its path and mode when the path has no separator. -/
theorem getKeyValue_keyValue {path : String} (plain : '#' ∉ path.toList) (mode : String) :
    getKeyValue (keyValue path mode) = .ok (path, mode) := by
  have each : ∀ letter ∈ path.toList, decide (letter ≠ '#') = true := by
    intro letter member
    apply decide_eq_true
    rintro rfl
    exact plain member
  have split : (keyValue path mode).toList = path.toList ++ '#' :: mode.toList := by
    simp [keyValue, String.toList_append]
  unfold getKeyValue
  rw [split, List.dropWhile_append_of_pos each, List.takeWhile_append_of_pos each]
  simp

end Chubby.Paxos
