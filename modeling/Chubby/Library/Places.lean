/-
This file says what stands at a place of a list of threads after one of them moves or a new one comes.
-/

import Mathlib.Data.List.Basic
import Mathlib.Data.List.Perm.Basic

namespace Chubby.Library

variable {Thread : Type} {threads : List Thread} {place other : Nat} {thread new : Thread}

/-- A place after a change is the changed one or another that stays. -/
theorem place_set_cases (there : (threads.set place new)[other]? = some thread) :
    (other ≠ place ∧ threads[other]? = some thread) ∨ (other = place ∧ thread = new) := by
  by_cases same : place = other
  · subst same
    rw [List.getElem?_set_self'] at there
    obtain ⟨_, _, rfl⟩ := Option.map_eq_some_iff.mp there
    exact .inr ⟨rfl, rfl⟩
  · rw [List.getElem?_set_ne same] at there
    exact .inl ⟨Ne.symm same, there⟩

theorem place_set_self (there : threads[place]? = some thread) :
    (threads.set place new)[place]? = some new := by
  rw [List.getElem?_set_self', there]
  rfl

theorem place_set_other (different : other ≠ place) : (threads.set place new)[other]? = threads[other]? :=
  List.getElem?_set_ne (Ne.symm different)

/-- When one thread takes a turn at its place, a thread at any place has taken that turn or rested. -/
theorem place_set_turn {Phase : Type} (write : Thread → Phase → Thread) {turn : Nat → Thread → Phase → Prop}
    {moving : Thread} {phase rest : Phase} (there : threads[place]? = some moving)
    (taken : turn place moving phase) (found : threads[other]? = some thread)
    (same : write thread rest = thread) (rests : turn other thread rest) :
    ∃ phase', (threads.set place (write moving phase))[other]? = some (write thread phase') ∧
      turn other thread phase' := by
  by_cases here : other = place
  · subst here
    cases there.symm.trans found
    exact ⟨phase, place_set_self found, taken⟩
  · refine ⟨rest, ?_, rests⟩
    rw [place_set_other here, same]
    exact found

/-- A thread keeps its place when others come. -/
theorem place_append (there : threads[place]? = some thread) (more : List Thread) :
    (threads ++ more)[place]? = some thread := by
  rw [List.getElem?_append_left (List.getElem?_eq_some_iff.mp there).1]
  exact there

/-- A place after a new thread has come is an old one, or the new place at the end. -/
theorem place_concat_cases (there : (threads ++ [new])[other]? = some thread) :
    threads[other]? = some thread ∨ (other = threads.length ∧ thread = new) := by
  by_cases inside : other < threads.length
  · rw [List.getElem?_append_left inside] at there
    exact .inl there
  · rw [List.getElem?_append_right (by omega), List.getElem?_singleton] at there
    split at there
    · cases there
      exact .inr ⟨by omega, rfl⟩
    · cases there

section Reads

variable {Value : Type} {read : Thread → Option Value} {value : Value}

/-- A change that a reading does not see leaves the reading at every place. -/
theorem bind_place_set (there : threads[place]? = some thread) (same : read new = read thread) (other : Nat) :
    (threads.set place new)[other]?.bind read = threads[other]?.bind read := by
  by_cases here : other = place
  · subst here
    rw [place_set_self there, there]
    exact same
  · rw [place_set_other here]

/-- A thread that is read changes none of the others. -/
theorem bind_some_set (there : threads[place]? = some thread) (unread : read thread = none)
    (found : threads[other]?.bind read = some value) :
    (threads.set place new)[other]?.bind read = some value := by
  obtain ⟨reader, inside, reads⟩ := Option.bind_eq_some_iff.mp found
  have away : other ≠ place := by
    rintro rfl
    cases inside.symm.trans there
    cases reads.symm.trans unread
  rw [place_set_other away]
  exact found

/-- A new thread changes what no old one reads. -/
theorem bind_some_concat (found : threads[other]?.bind read = some value) :
    (threads ++ [new])[other]?.bind read = some value := by
  obtain ⟨reader, inside, reads⟩ := Option.bind_eq_some_iff.mp found
  rw [place_append inside]
  exact reads

theorem bind_place_concat (unread : read new = none) (other : Nat) :
    (threads ++ [new])[other]?.bind read = threads[other]?.bind read := by
  cases found : threads[other]?.bind read with
  | some value => exact bind_some_concat found
  | none =>
      refine Option.bind_eq_none_iff.mpr fun reader there => ?_
      obtain old | ⟨_, rfl⟩ := place_concat_cases there
      · exact Option.bind_eq_none_iff.mp found reader old
      · exact unread

end Reads

/-- A change of one place trades the old thread for the new one. -/
theorem place_set_perm (there : threads[place]? = some thread) :
    (thread :: threads.set place new).Perm (new :: threads) := by
  obtain ⟨inside, rfl⟩ := List.getElem?_eq_some_iff.mp there
  have out : (threads.set place new).Perm (new :: threads.eraseIdx place) :=
    List.set_perm_cons_eraseIdx inside new
  have back : (threads[place] :: threads.eraseIdx place).Perm threads :=
    List.getElem_cons_eraseIdx_perm inside
  exact (out.cons _).trans ((List.Perm.swap ..).trans (back.cons new))

end Chubby.Library
