/-
This file gives the chains of a partial step on a finite type and says when they repeat nothing.
-/

import Mathlib.Data.Fintype.Card
import Mathlib.Data.Fintype.Pigeonhole
import Mathlib.Logic.Function.Iterate

namespace Chubby.Library

variable {Node : Type}

/-- The node that the chain reaches after some steps, if it has not ended before. -/
def chainAt (next : Node → Option Node) (start : Node) (steps : Nat) : Option Node :=
  (fun node : Option Node => node.bind next)^[steps] (some start)

/-- No node is on the chain at two places. -/
def NeverRepeats (next : Node → Option Node) (start : Node) : Prop :=
  ∀ first second node, chainAt next start first = some node →
    chainAt next start second = some node → first = second

theorem chainAt_succ (next : Node → Option Node) (start : Node) (steps : Nat) :
    chainAt next start (steps + 1) = (chainAt next start steps).bind next :=
  Function.iterate_succ_apply' _ _ _

/-- The chain from a node goes on as the chain of which the node is a part. -/
theorem chainAt_add {next : Node → Option Node} {start node : Node} {steps : Nat}
    (reached : chainAt next start steps = some node) (more : Nat) :
    chainAt next start (steps + more) = chainAt next node more := by
  induction more with
  | zero => exact reached
  | succ more ih =>
      rw [← Nat.add_assoc, chainAt_succ, chainAt_succ, ih]

/-- A chain that has ended stays ended. -/
theorem chainAt_none_of_le {next : Node → Option Node} {start : Node} {steps later : Nat}
    (ended : chainAt next start steps = none) (after : steps ≤ later) :
    chainAt next start later = none := by
  induction later, after using Nat.le_induction with
  | base => exact ended
  | succ later _ ih =>
      rw [chainAt_succ, ih]
      rfl

/-- A chain that goes on past a node that it visits twice never ends. -/
theorem chainAt_cycle {next : Node → Option Node} {start node : Node} {first second : Nat}
    (early : chainAt next start first = some node) (late : chainAt next start second = some node)
    (before : first < second) (steps : Nat) : chainAt next start steps ≠ none := by
  have returns : chainAt next node (second - first) = some node := by
    rw [← chainAt_add early, Nat.add_sub_cancel' before.le]
    exact late
  have again (rounds : Nat) : chainAt next node ((second - first) * rounds) = some node := by
    induction rounds with
    | zero => rfl
    | succ rounds ih =>
        rw [Nat.mul_succ, chainAt_add ih]
        exact returns
  intro ended
  have far : steps ≤ first + (second - first) * steps := by
    have positive : 1 ≤ second - first := by omega
    have enough := Nat.mul_le_mul_right steps positive
    omega
  have late_ := chainAt_none_of_le ended far
  rw [chainAt_add early, again] at late_
  cases late_

/-- On a finite type a chain repeats no node exactly when one of its first nodes, as many as the type
has, is its last. -/
theorem neverRepeats_iff [Fintype Node] {next : Node → Option Node} {start : Node} :
    NeverRepeats next start ↔
      ∃ steps < Fintype.card Node, ∃ node, chainAt next start steps = some node ∧ next node = none := by
  constructor
  · intro single
    by_contra endless
    push Not at endless
    have reaches (steps : Nat) (inside : steps ≤ Fintype.card Node) :
        (chainAt next start steps).isSome := by
      induction steps with
      | zero => rfl
      | succ steps ih =>
          obtain ⟨node, reached⟩ := Option.isSome_iff_exists.mp (ih (by omega))
          rw [chainAt_succ, reached]
          exact Option.isSome_iff_ne_none.mpr (endless steps (by omega) node reached)
    have crowded : Fintype.card Node < Fintype.card (Fin (Fintype.card Node + 1)) := by
      rw [Fintype.card_fin]
      exact Nat.lt_succ_self _
    obtain ⟨first, second, different, same⟩ := Fintype.exists_ne_map_eq_of_card_lt
      (fun place : Fin (Fintype.card Node + 1) =>
        (chainAt next start place.val).get (reaches place.val (Nat.le_of_lt_succ place.isLt))) crowded
    apply different
    apply Fin.ext
    exact single first.val second.val _ (Option.some_get _).symm ((Option.some_get _).symm.trans
      (congrArg some same.symm))
  · rintro ⟨steps, _, last, reached, ends⟩ first second node early late
    have ended : chainAt next start (steps + 1) = none := by
      rw [chainAt_succ, reached]
      exact ends
    obtain before | same | after := Nat.lt_trichotomy first second
    · exact absurd ended (chainAt_cycle early late before _)
    · exact same
    · exact absurd ended (chainAt_cycle late early after _)

section Stops

variable (stop : Node → Prop) [DecidablePred stop]

/-- The step that the stopping nodes do not take. -/
def stoppedAt (next : Node → Option Node) (node : Node) : Option Node :=
  if stop node then none else next node

variable {stop}

theorem chainAt_stopped {next : Node → Option Node} {start node : Node} {steps : Nat}
    (reached : chainAt (stoppedAt stop next) start steps = some node) :
    chainAt next start steps = some node := by
  induction steps generalizing node with
  | zero => exact reached
  | succ steps ih =>
      rw [chainAt_succ] at reached ⊢
      obtain ⟨before, found, moved⟩ := Option.bind_eq_some_iff.mp reached
      rw [ih found]
      exact (Option.ite_none_left_eq_some.mp moved).2

variable (stop) in
/-- Until a node stops it, the stopped chain is the whole chain. -/
theorem stopped_or_same (next : Node → Option Node) (start : Node) (steps : Nat) :
    (∃ early ≤ steps, ∃ node, chainAt (stoppedAt stop next) start early = some node ∧ stop node) ∨
      chainAt (stoppedAt stop next) start steps = chainAt next start steps := by
  induction steps with
  | zero => exact .inr rfl
  | succ steps ih =>
      obtain ⟨early, within, stops⟩ | same := ih
      · exact .inl ⟨early, by omega, stops⟩
      · rw [chainAt_succ, chainAt_succ, same]
        cases reached : chainAt next start steps with
        | none => exact .inr rfl
        | some node =>
            by_cases stops : stop node
            · exact .inl ⟨steps, by omega, node, same.trans reached, stops⟩
            · exact .inr (if_neg stops)

/-- A chain that only the stopping nodes end repeats no node exactly when it comes to one of them. -/
theorem neverRepeats_stopped_iff [Fintype Node] {next : Node → Option Node} {start : Node}
    (total : ∀ node, next node ≠ none) : NeverRepeats (stoppedAt stop next) start ↔
      ∃ steps < Fintype.card Node, ∃ node, chainAt next start steps = some node ∧ stop node := by
  have ends_iff (node : Node) : stoppedAt stop next node = none ↔ stop node := by
    unfold stoppedAt
    split
    next stops => exact iff_of_true rfl stops
    next continues => exact iff_of_false (total node) continues
  rw [neverRepeats_iff]
  constructor
  · rintro ⟨steps, inside, node, reached, ends⟩
    exact ⟨steps, inside, node, chainAt_stopped reached, (ends_iff node).mp ends⟩
  · rintro ⟨steps, inside, node, reached, stops⟩
    obtain ⟨early, within, other, found, halts⟩ | same := stopped_or_same stop next start steps
    · exact ⟨early, by omega, other, found, (ends_iff other).mpr halts⟩
    · exact ⟨steps, inside, node, same.trans reached, (ends_iff node).mpr stops⟩

end Stops

end Chubby.Library
