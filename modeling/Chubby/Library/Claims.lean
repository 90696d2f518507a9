/-
This file gives a locking protocol whose answers come after its decisions, and proves that
conflicting modes exclude each other.
-/

import Mathlib.Logic.Function.Basic

namespace Chubby.Library

variable {Client Path Mode : Type}

/-- A grant is decided but not answered, and a release is decided while its client may still hold
the path. The register of a path shows the mode that was last decided for it. -/
structure Claims (Client Path Mode : Type) where
  holds : Client → Path → Mode → Prop
  grants : Client → Path → Mode → Prop
  releases : Client → Path → Prop
  register : Path → Option Mode

namespace Claims

/-- A client claims a path that it holds or is about to hold. -/
def Claimed (s : Claims Client Path Mode) (client : Client) (path : Path) : Prop :=
  ∃ mode, s.holds client path mode ∨ s.grants client path mode

/-- A holder whose mode has left the register is alone, and a mode that cannot be shared has one
claimant. -/
structure Consistent (sharable : Mode → Prop) (s : Claims Client Path Mode) : Prop where
  granted : ∀ client path mode, s.grants client path mode → s.register path = some mode
  held : ∀ client path mode, s.holds client path mode →
    s.register path = some mode ∨ s.releases client path
  alone : ∀ client path mode, s.holds client path mode → s.register path ≠ some mode →
    ∀ other, s.Claimed other path → other = client
  single : ∀ path mode, s.register path = some mode → ¬ sharable mode →
    ∀ first second, s.Claimed first path → s.Claimed second path → first = second

/-- Grants become holds or disappear. -/
structure Answer (s next : Claims Client Path Mode) : Prop where
  holds : ∀ other query held, next.holds other query held →
    s.holds other query held ∨ s.grants other query held
  grants : ∀ other query held, next.grants other query held → s.grants other query held
  releases : ∀ other query, s.releases other query → next.releases other query
  register : next.register = s.register

/-- Releases end together with the holds of their clients. -/
structure Finish (s next : Claims Client Path Mode) (ended : Client → Path → Prop) : Prop where
  holds : ∀ other query held, next.holds other query held →
    s.holds other query held ∧ ¬ ended other query
  grants : ∀ other query held, next.grants other query held → s.grants other query held
  releases : ∀ other query, s.releases other query → next.releases other query ∨ ended other query
  register : next.register = s.register

variable {sharable : Mode → Prop} {s next : Claims Client Path Mode}

theorem Consistent.answer (consistent : Consistent sharable s) (answered : Answer s next) :
    Consistent sharable next := by
  have claimed : ∀ client path, next.Claimed client path → s.Claimed client path := by
    rintro client path ⟨mode, held | granted⟩
    · exact ⟨mode, answered.holds _ _ _ held⟩
    · exact ⟨mode, .inr (answered.grants _ _ _ granted)⟩
  refine ⟨?_, ?_, ?_, ?_⟩ <;> rw [answered.register]
  · intro client path mode granted
    exact consistent.granted _ _ _ (answered.grants _ _ _ granted)
  · intro client path mode held
    rcases answered.holds _ _ _ held with held | granted
    · exact (consistent.held _ _ _ held).imp_right (answered.releases _ _)
    · exact .inl (consistent.granted _ _ _ granted)
  · intro client path mode held moved other claims
    rcases answered.holds _ _ _ held with held | granted
    · exact consistent.alone _ _ _ held moved other (claimed _ _ claims)
    · exact absurd (consistent.granted _ _ _ granted) moved
  · intro path mode shown unshared first second one two
    exact consistent.single path mode shown unshared _ _ (claimed _ _ one) (claimed _ _ two)

theorem Consistent.finish (consistent : Consistent sharable s) {ended : Client → Path → Prop}
    (finished : Finish s next ended) : Consistent sharable next := by
  have claimed : ∀ client path, next.Claimed client path → s.Claimed client path := by
    rintro client path ⟨mode, held | granted⟩
    · exact ⟨mode, .inl (finished.holds _ _ _ held).1⟩
    · exact ⟨mode, .inr (finished.grants _ _ _ granted)⟩
  refine ⟨?_, ?_, ?_, ?_⟩ <;> rw [finished.register]
  · intro client path mode granted
    exact consistent.granted _ _ _ (finished.grants _ _ _ granted)
  · intro client path mode held
    obtain ⟨held, kept⟩ := finished.holds _ _ _ held
    refine (consistent.held _ _ _ held).imp_right fun releases => ?_
    exact (finished.releases _ _ releases).resolve_right kept
  · intro client path mode held moved other claims
    exact consistent.alone _ _ _ (finished.holds _ _ _ held).1 moved other (claimed _ _ claims)
  · intro path mode shown unshared first second one two
    exact consistent.single path mode shown unshared _ _ (claimed _ _ one) (claimed _ _ two)

/-- Two clients that hold one path hold it in modes that can be shared. -/
theorem Consistent.excludes (consistent : Consistent sharable s) {first second : Client} {path : Path}
    {mode other : Mode} (one : s.holds first path mode) (two : s.holds second path other)
    (different : first ≠ second) : sharable mode := by
  by_contra unshared
  by_cases shown : s.register path = some mode
  · exact different (consistent.single path mode shown unshared _ _ ⟨mode, .inl one⟩ ⟨other, .inl two⟩)
  · exact different (consistent.alone _ _ _ one shown second ⟨other, .inl two⟩).symm

variable [DecidableEq Path]

/-- A client is granted a free path, or joins a mode that can be shared, while nobody releases a
path that it still holds. -/
structure Take (sharable : Mode → Prop) (s next : Claims Client Path Mode) (client : Client)
    (path : Path) (mode : Mode) : Prop where
  vacant : s.register path = none ∨ (s.register path = some mode ∧ sharable mode)
  settled : ∀ other held, s.releases other path → ¬ s.holds other path held
  holds : ∀ other query held, next.holds other query held → s.holds other query held
  grants : ∀ other query held, next.grants other query held →
    s.grants other query held ∨ (other = client ∧ query = path ∧ held = mode)
  releases : ∀ other query, s.releases other query → next.releases other query
  register : next.register = Function.update s.register path (some mode)

/-- A path is freed for the only client that holds it, while no grant of it waits for its answer. -/
structure Free (s next : Claims Client Path Mode) (client : Client) (path : Path) : Prop where
  only : ∀ other held, s.holds other path held → other = client
  settled : ∀ other held, ¬ s.grants other path held
  holds : ∀ other query held, next.holds other query held → s.holds other query held
  grants : ∀ other query held, next.grants other query held → s.grants other query held
  releases : ∀ other query, s.releases other query ∨ (other = client ∧ query = path) →
    next.releases other query
  register : next.register = Function.update s.register path none

inductive Step (sharable : Mode → Prop) (s next : Claims Client Path Mode) : Prop where
  | take {client : Client} {path : Path} {mode : Mode} (taken : Take sharable s next client path mode)
  | free {client : Client} {path : Path} (freed : Free s next client path)
  | answer (answered : Answer s next)
  | finish (ended : Client → Path → Prop) (finished : Finish s next ended)

theorem Consistent.free (consistent : Consistent sharable s) {client : Client} {path : Path}
    (freed : Free s next client path) : Consistent sharable next := by
  have claimed : ∀ other query, next.Claimed other query → s.Claimed other query := by
    rintro other query ⟨mode, held | granted⟩
    · exact ⟨mode, .inl (freed.holds _ _ _ held)⟩
    · exact ⟨mode, .inr (freed.grants _ _ _ granted)⟩
  have away : ∀ query, query ≠ path → next.register query = s.register query := by
    intro query different
    rw [freed.register, Function.update_of_ne different]
  have here : next.register path = none := by rw [freed.register, Function.update_self]
  constructor
  · intro other query mode granted
    have early := freed.grants _ _ _ granted
    rw [away query fun same => freed.settled other mode (same ▸ early)]
    exact consistent.granted _ _ _ early
  · intro other query mode held
    have early := freed.holds _ _ _ held
    by_cases same : query = path
    · subst same
      exact .inr (freed.releases _ _ (.inr ⟨freed.only other mode early, rfl⟩))
    · rw [away query same]
      exact (consistent.held _ _ _ early).imp_right fun releases => freed.releases _ _ (.inl releases)
  · intro other query mode held moved another claims
    have early := freed.holds _ _ _ held
    by_cases same : query = path
    · subst same
      obtain ⟨access, holds | grants⟩ := claimed _ _ claims
      · rw [freed.only another access holds, freed.only other mode early]
      · exact absurd grants (freed.settled another access)
    · rw [away query same] at moved
      exact consistent.alone _ _ _ early moved another (claimed _ _ claims)
  · intro query mode shown unshared first second one two
    by_cases same : query = path
    · rw [same, here] at shown
      cases shown
    · rw [away query same] at shown
      exact consistent.single query mode shown unshared _ _ (claimed _ _ one) (claimed _ _ two)

theorem Consistent.take (consistent : Consistent sharable s) {client : Client} {path : Path} {mode : Mode}
    (taken : Take sharable s next client path mode) : Consistent sharable next := by
  have away : ∀ query, query ≠ path → next.register query = s.register query := by
    intro query different
    rw [taken.register, Function.update_of_ne different]
  have here : next.register path = some mode := by rw [taken.register, Function.update_self]
  have claimed : ∀ other query, query ≠ path → next.Claimed other query → s.Claimed other query := by
    rintro other query different ⟨held, holds | grants⟩
    · exact ⟨held, .inl (taken.holds _ _ _ holds)⟩
    · exact ⟨held, .inr ((taken.grants _ _ _ grants).resolve_right fun new => different new.2.1)⟩
  -- a register that shows a mode of the path shows the mode that is taken
  have agrees : ∀ held, s.register path = some held → held = mode := by
    intro held shown
    rcases taken.vacant with none_ | ⟨same, _⟩
    · rw [none_] at shown
      cases shown
    · rw [same] at shown
      exact (Option.some.inj shown).symm
  have matches_ : ∀ other held, s.holds other path held → s.register path = some held := by
    intro other held holds
    exact (consistent.held _ _ _ holds).resolve_right fun releases => taken.settled _ _ releases holds
  constructor
  · intro other query held grants
    by_cases same : query = path
    · subst same
      rcases taken.grants _ _ _ grants with early | ⟨_, _, rfl⟩
      · rw [here, agrees held (consistent.granted _ _ _ early)]
      · exact here
    · rw [away query same]
      exact consistent.granted _ _ _ ((taken.grants _ _ _ grants).resolve_right fun new => same new.2.1)
  · intro other query held holds
    have early := taken.holds _ _ _ holds
    by_cases same : query = path
    · subst same
      exact .inl (by rw [here, agrees held (matches_ other held early)])
    · rw [away query same]
      exact (consistent.held _ _ _ early).imp_right (taken.releases _ _)
  · intro other query held holds moved another claims
    have early := taken.holds _ _ _ holds
    by_cases same : query = path
    · subst same
      exact absurd (by rw [here, agrees held (matches_ other held early)]) moved
    · rw [away query same] at moved
      exact consistent.alone _ _ _ early moved another (claimed _ _ same claims)
  · intro query held shown unshared first second one two
    by_cases same : query = path
    · subst same
      rw [here] at shown
      cases shown
      have empty : s.register query = none := taken.vacant.resolve_right fun both => unshared both.2
      have new : ∀ other, next.Claimed other query → other = client := by
        rintro other ⟨held, holds | grants⟩
        · have shown := matches_ other held (taken.holds _ _ _ holds)
          rw [empty] at shown
          cases shown
        · rcases taken.grants _ _ _ grants with early | ⟨same, _⟩
          · have shown := consistent.granted _ _ _ early
            rw [empty] at shown
            cases shown
          · exact same
      rw [new first one, new second two]
    · rw [away query same] at shown
      exact consistent.single query held shown unshared _ _ (claimed _ _ same one) (claimed _ _ same two)

/-- Every step of the protocol keeps its claims consistent. -/
theorem Consistent.step (consistent : Consistent sharable s) (taken : Step sharable s next) :
    Consistent sharable next := by
  cases taken with
  | take taken => exact consistent.take taken
  | free freed => exact consistent.free freed
  | answer answered => exact consistent.answer answered
  | finish ended finished => exact consistent.finish finished

end Claims

end Chubby.Library
