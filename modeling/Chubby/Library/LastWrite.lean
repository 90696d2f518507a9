/-
This file gives the store that a list of writes leaves, over any keys and values.
-/

import Mathlib.Logic.Function.Basic
import Mathlib.Data.List.Basic

namespace Chubby.Library

variable {Key Value : Type} [DecidableEq Key]

/-- The writes update the store in their order. -/
def writeAll (store : Key → Option Value) (writes : List (Key × Value)) : Key → Option Value :=
  writes.foldl (fun store write => Function.update store write.1 (some write.2)) store

/-- The value of the last write to the key. -/
def lastWrite : List (Key × Value) → Key → Option Value
  | [], _ => none
  | write :: rest, key => (lastWrite rest key).or (if write.1 = key then some write.2 else none)

/-- A key reads back its last write, or what it had before. -/
theorem writeAll_apply (store : Key → Option Value) (writes : List (Key × Value)) (key : Key) :
    writeAll store writes key = (lastWrite writes key).or (store key) := by
  induction writes generalizing store with
  | nil => rfl
  | cons write rest ih =>
      show writeAll (Function.update store write.1 (some write.2)) rest key = _
      rw [ih, lastWrite, Option.or_assoc]
      congr 1
      by_cases same : write.1 = key
      · rw [← same, Function.update_self, if_pos rfl, Option.some_or]
      · rw [Function.update_of_ne (Ne.symm same), if_neg same, Option.none_or]

/-- A key without writes has no last write. -/
theorem lastWrite_eq_none {writes : List (Key × Value)} {key : Key}
    (absent : ∀ write ∈ writes, write.1 ≠ key) : lastWrite writes key = none := by
  induction writes with
  | nil => rfl
  | cons write rest ih =>
      rw [lastWrite, ih fun other member => absent other (List.mem_cons_of_mem _ member),
        if_neg (absent write (List.mem_cons_self ..))]
      rfl

end Chubby.Library
