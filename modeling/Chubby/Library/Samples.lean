/-
This file gives the random samples that are drawn into a buffer of fixed size and then shuffled.
-/

import Mathlib.Data.List.Basic
import Mathlib.Data.List.Perm.Basic

namespace Chubby.Library

variable {A : Type}

/-- A sample takes as many elements as the buffer and the population have; the rest stays blank. -/
structure Sample (population : List A) (size : Nat) (blank : A) where
  chosen : List A
  buffer : List A
  inside : chosen.Sublist population
  full : chosen.length = min size population.length
  shuffled : buffer.Perm (chosen ++ List.replicate (size - chosen.length) blank)

namespace Sample

variable {population : List A} {size : Nat} {blank : A}

def first (sample : Sample population size blank) : A := sample.buffer.headD blank

theorem mem_population {sample : Sample population size blank} {element : A}
    (member : element ∈ sample.buffer) (drawn : element ≠ blank) : element ∈ population := by
  rcases List.mem_append.mp (sample.shuffled.mem_iff.mp member) with chosen | padding
  · exact sample.inside.subset chosen
  · exact absurd (List.eq_of_mem_replicate padding) drawn

theorem length_buffer (sample : Sample population size blank) : sample.buffer.length = size := by
  have full := sample.full
  rw [sample.shuffled.length_eq, List.length_append, List.length_replicate]
  omega

/-- An empty buffer has a blank in front. -/
theorem first_mem_population {sample : Sample population size blank} (drawn : sample.first ≠ blank) :
    sample.first ∈ population := by
  refine @mem_population _ _ _ _ sample _ ?_ drawn
  unfold first at drawn ⊢
  cases same : sample.buffer with
  | nil => rw [same] at drawn; exact absurd rfl drawn
  | cons head rest => exact List.mem_cons_self ..

/-- A population that fills the buffer leaves no blank in it. -/
theorem first_of_enough {sample : Sample population size blank} (positive : 0 < size)
    (enough : size ≤ population.length) (unblank : blank ∉ population) : sample.first ≠ blank := by
  have full := sample.full
  have none_left : size - sample.chosen.length = 0 := by omega
  have shuffled := sample.shuffled
  rw [none_left, List.replicate_zero, List.append_nil] at shuffled
  have length := sample.length_buffer
  unfold first
  cases same : sample.buffer with
  | nil => rw [same] at length; simp only [List.length_nil] at length; omega
  | cons head rest =>
      rw [same] at shuffled
      have member : head ∈ population := sample.inside.subset (shuffled.mem_iff.mp (List.mem_cons_self ..))
      exact fun blanks => unblank ((show head = blank from blanks) ▸ member)

/-- A population that does not fill the buffer may leave a blank in front. -/
theorem exists_blank_first (few : population.length < size) :
    ∃ sample : Sample population size blank, sample.first = blank :=
  ⟨⟨population, List.replicate (size - population.length) blank ++ population, .refl population,
    (Nat.min_eq_right (Nat.le_of_lt few)).symm, List.perm_append_comm⟩, by
      obtain ⟨left, same⟩ := Nat.exists_eq_add_of_lt few
      have padded : size - population.length = left + 1 := by omega
      unfold first
      dsimp only
      rw [padded]
      rfl⟩

end Sample

end Chubby.Library
