/-
This file gives the voting argument behind ballot-based consensus, over any acceptors, ballots
and values.
-/

import Mathlib.Data.Fintype.Card
import Mathlib.Data.Finset.Card
import Mathlib.Data.List.Nodup
import Mathlib.Order.Basic

namespace Chubby.Library

section Majority

variable {Acceptor : Type} [Fintype Acceptor]

/-- A majority holds strictly more than half of the acceptors. -/
def Majority (quorum : Finset Acceptor) : Prop := Fintype.card Acceptor < 2 * quorum.card

instance (quorum : Finset Acceptor) : Decidable (Majority quorum) :=
  inferInstanceAs (Decidable (_ < _))

theorem majority_of_half_lt {quorum : Finset Acceptor}
    (more : Fintype.card Acceptor / 2 < quorum.card) : Majority quorum := by
  unfold Majority
  omega

theorem majority_univ [Nonempty Acceptor] : Majority (Finset.univ : Finset Acceptor) := by
  have positive : 0 < Fintype.card Acceptor := Fintype.card_pos
  unfold Majority
  rw [Finset.card_univ]
  omega

/-- Two majorities share an acceptor. -/
theorem Majority.inter {first second : Finset Acceptor}
    (one : Majority first) (two : Majority second) : ∃ acceptor, acceptor ∈ first ∧ acceptor ∈ second := by
  classical
  by_contra apart
  push Not at apart
  have disjoint : Disjoint first second := Finset.disjoint_left.mpr apart
  have bound := Finset.card_le_univ (first ∪ second)
  rw [Finset.card_union_of_disjoint disjoint] at bound
  unfold Majority at one two
  omega

omit [Fintype Acceptor] in
/-- The positive answers of distinct acceptors come from as many acceptors. -/
theorem exists_answered {Answer : Type} {peers : List Acceptor} (distinct : peers.Nodup)
    {answers : List Answer} (short : answers.length ≤ peers.length) (test : Answer → Bool) :
    ∃ voters : Finset Acceptor, voters.card = answers.countP test ∧ ∀ acceptor ∈ voters,
      ∃ (k : Nat) (answer : Answer),
        peers[k]? = some acceptor ∧ answers[k]? = some answer ∧ test answer = true := by
  classical
  induction answers generalizing peers with
  | nil => exact ⟨∅, rfl, fun acceptor member => by simp at member⟩
  | cons answer rest ih =>
      rcases peers with _ | ⟨peer, others⟩
      · simp at short
      have apart := List.nodup_cons.mp distinct
      obtain ⟨voters, count, each⟩ := ih apart.2 (by simpa using short)
      have later (acceptor : Acceptor) (member : acceptor ∈ voters) :
          ∃ (k : Nat) (reply : Answer),
          (peer :: others)[k]? = some acceptor ∧ (answer :: rest)[k]? = some reply ∧
            test reply = true := by
        obtain ⟨k, reply, place, heard, positive⟩ := each acceptor member
        exact ⟨k + 1, reply, place, heard, positive⟩
      by_cases positive : test answer = true
      · have new : peer ∉ voters := by
          intro member
          obtain ⟨k, _, place, _, _⟩ := each peer member
          exact apart.1 (List.mem_of_getElem? place)
        refine ⟨insert peer voters, ?_, fun acceptor member => ?_⟩
        · rw [Finset.card_insert_of_notMem new, count, List.countP_cons_of_pos positive]
        · rcases Finset.mem_insert.mp member with rfl | old
          · exact ⟨0, answer, rfl, rfl, positive⟩
          · exact later acceptor old
      · exact ⟨voters, by rw [count, List.countP_cons_of_neg positive], later⟩

end Majority

/-- Acceptors vote for values in ballots; a closed ballot gets no further vote of that acceptor. -/
structure Voting (Acceptor Ballot Value : Type) where
  votes : Acceptor → Ballot → Value → Prop
  closed : Acceptor → Ballot → Prop

namespace Voting

variable {Acceptor Ballot Value : Type} [Fintype Acceptor] [LinearOrder Ballot]

/-- A value is chosen in a ballot when a majority voted for it there. -/
def Chosen (voting : Voting Acceptor Ballot Value) (ballot : Ballot) (value : Value) : Prop :=
  ∃ quorum, Majority quorum ∧ ∀ acceptor ∈ quorum, voting.votes acceptor ballot value

/-- A value is safe at a ballot when no other value is or can still be chosen in a smaller one. -/
def SafeAt (voting : Voting Acceptor Ballot Value) (ballot : Ballot) (value : Value) : Prop :=
  ∀ lower, lower < ballot → ∃ quorum, Majority quorum ∧ ∀ acceptor ∈ quorum,
    voting.closed acceptor lower ∧ ∀ other, voting.votes acceptor lower other → other = value

omit [LinearOrder Ballot] in
theorem Chosen.stable {before after : Voting Acceptor Ballot Value} {ballot : Ballot} {value : Value}
    (grows : ∀ acceptor ballot value, before.votes acceptor ballot value →
      after.votes acceptor ballot value)
    (chosen : before.Chosen ballot value) : after.Chosen ballot value := by
  obtain ⟨quorum, large, voted⟩ := chosen
  exact ⟨quorum, large, fun acceptor member => grows _ _ _ (voted acceptor member)⟩

/-- A step that only closes ballots and never votes in a closed one keeps safety. -/
theorem SafeAt.stable {before after : Voting Acceptor Ballot Value} {ballot : Ballot} {value : Value}
    (closing : ∀ acceptor ballot, before.closed acceptor ballot → after.closed acceptor ballot)
    (respects : ∀ acceptor ballot value, after.votes acceptor ballot value →
      before.closed acceptor ballot → before.votes acceptor ballot value)
    (safe : before.SafeAt ballot value) : after.SafeAt ballot value := by
  intro lower below
  obtain ⟨quorum, large, each⟩ := safe lower below
  refine ⟨quorum, large, fun acceptor member => ?_⟩
  obtain ⟨shut, agrees⟩ := each acceptor member
  exact ⟨closing _ _ shut, fun other voted => agrees other (respects _ _ _ voted shut)⟩

/-- A safe value agrees with every value chosen in a smaller ballot. -/
theorem SafeAt.eq_of_chosen {voting : Voting Acceptor Ballot Value} {ballot lower : Ballot}
    {value other : Value} (safe : voting.SafeAt ballot value) (below : lower < ballot)
    (chosen : voting.Chosen lower other) : other = value := by
  obtain ⟨closing, large, each⟩ := safe lower below
  obtain ⟨quorum, many, voted⟩ := chosen
  obtain ⟨acceptor, inFirst, inSecond⟩ := large.inter many
  exact (each acceptor inFirst).2 other (voted acceptor inSecond)

/-- Below a silent ballot a majority is closed and has not voted. -/
def Silent (voting : Voting Acceptor Ballot Value) (ballot : Ballot) : Prop :=
  ∃ quorum, Majority quorum ∧ ∀ acceptor ∈ quorum, ∀ lower, lower < ballot →
    voting.closed acceptor lower ∧ ∀ other, ¬ voting.votes acceptor lower other

theorem Silent.stable {before after : Voting Acceptor Ballot Value} {ballot : Ballot}
    (closing : ∀ acceptor ballot, before.closed acceptor ballot → after.closed acceptor ballot)
    (respects : ∀ acceptor ballot value, after.votes acceptor ballot value →
      before.closed acceptor ballot → before.votes acceptor ballot value)
    (silent : before.Silent ballot) : after.Silent ballot := by
  obtain ⟨quorum, large, each⟩ := silent
  refine ⟨quorum, large, fun acceptor member lower below => ?_⟩
  obtain ⟨shut, none⟩ := each acceptor member lower below
  exact ⟨closing _ _ shut, fun other voted => none other (respects _ _ _ voted shut)⟩

/-- Nothing is chosen below a silent ballot. -/
theorem Silent.not_chosen {voting : Voting Acceptor Ballot Value} {ballot lower : Ballot}
    (silent : voting.Silent ballot) (below : lower < ballot) (value : Value) :
    ¬ voting.Chosen lower value := by
  rintro ⟨quorum, many, voted⟩
  obtain ⟨closing, large, each⟩ := silent
  obtain ⟨acceptor, inFirst, inSecond⟩ := large.inter many
  exact (each acceptor inFirst lower below).2 value (voted acceptor inSecond)

/-- Every value is safe at a silent ballot. -/
theorem Silent.safeAt {voting : Voting Acceptor Ballot Value} {ballot : Ballot}
    (silent : voting.Silent ballot) (value : Value) : voting.SafeAt ballot value := by
  obtain ⟨quorum, large, each⟩ := silent
  intro lower below
  refine ⟨quorum, large, fun acceptor member => ?_⟩
  obtain ⟨shut, none⟩ := each acceptor member lower below
  exact ⟨shut, fun other voted => absurd voted (none other)⟩

/-- The value of the greatest reported vote of a closed majority is safe. -/
theorem safeAt_of_latest {voting : Voting Acceptor Ballot Value} {ballot latest : Ballot}
    {value : Value} {quorum : Finset Acceptor} (large : Majority quorum)
    (shut : ∀ acceptor ∈ quorum, ∀ lower, lower < ballot → voting.closed acceptor lower)
    (bound : ∀ acceptor ∈ quorum, ∀ lower other, lower < ballot →
      voting.votes acceptor lower other → lower ≤ latest)
    (single : ∀ acceptor other, voting.votes acceptor latest other → other = value)
    (safe : voting.SafeAt latest value) : voting.SafeAt ballot value := by
  intro lower below
  rcases lt_trichotomy lower latest with smaller | same | larger
  · exact safe lower smaller
  · subst same
    exact ⟨quorum, large, fun acceptor member =>
      ⟨shut acceptor member lower below, fun other => single acceptor other⟩⟩
  · refine ⟨quorum, large, fun acceptor member => ⟨shut acceptor member lower below, ?_⟩⟩
    intro other voted
    have atMost := bound acceptor member lower other below voted
    exact absurd larger (not_lt.mpr atMost)

/-- One value per ballot and safe votes leave at most one chosen value. -/
theorem chosen_unique {voting : Voting Acceptor Ballot Value}
    (single : ∀ first second ballot value other, voting.votes first ballot value →
      voting.votes second ballot other → value = other)
    (safe : ∀ acceptor ballot value, voting.votes acceptor ballot value → voting.SafeAt ballot value)
    {ballot lower : Ballot} {value other : Value} (chosen : voting.Chosen ballot value)
    (earlier : voting.Chosen lower other) : value = other := by
  obtain ⟨quorum, large, voted⟩ := chosen
  obtain ⟨second, many, agreed⟩ := earlier
  obtain ⟨acceptor, inFirst, inSecond⟩ := large.inter many
  rcases lt_trichotomy lower ballot with smaller | same | larger
  · exact ((safe acceptor ballot value (voted acceptor inFirst)).eq_of_chosen smaller
      ⟨second, many, agreed⟩).symm
  · subst same
    exact single acceptor acceptor lower value other (voted acceptor inFirst) (agreed acceptor inSecond)
  · exact (safe acceptor lower other (agreed acceptor inSecond)).eq_of_chosen larger
      ⟨quorum, large, voted⟩

end Voting

end Chubby.Library
