/-
This file proves that the Accepts of one view and slot carry one value when the prepare phase or the
history of the slot forces it.
-/

import Chubby.Paxos.PrepareLoop
import Chubby.Paxos.Threads

namespace Chubby.Paxos

open Chubby.Library

variable {n : Nat}

/-- Any two Accepts sent with the same view and the same slot carry the same value. -/
def OneValuePerBallot (c : Cluster n) : Prop :=
  ∀ seq view first second, Proposed c seq view first → Proposed c seq view second → first = second

/-- The text of an Accept for the slot in the view. -/
def Msg.acceptText (seq view : Int) : Msg n → Option String
  | .acceptRequest _ _ request =>
      if request.seq = seq ∧ request.view = view then some request.value else none
  | _ => none

/-- Every Accept sent so far for the round's slot in its view carries the text. -/
def Repeats (c : Cluster n) (round : Round n) (text : String) : Prop :=
  ∀ message ∈ c.msgs, ∀ sent ∈ message.acceptText round.seq round.myView, sent = text

instance (c : Cluster n) (round : Round n) (text : String) : Decidable (Repeats c round text) :=
  inferInstanceAs (Decidable (∀ message ∈ c.msgs, _))

theorem repeats_iff {c : Cluster n} {round : Round n} {text : String} :
    Repeats c round text ↔ ∀ value, Proposed c round.seq round.myView value → value = text := by
  constructor
  · rintro repeats value ⟨r, i, member⟩
    exact repeats _ member value (if_pos ⟨rfl, rfl⟩)
  · intro unique message member sent is
    cases message with
    | acceptRequest r i request =>
        simp only [Msg.acceptText, Option.mem_def, Option.ite_none_right_eq_some] at is
        obtain ⟨⟨seq, view⟩, text⟩ := is
        refine unique sent ⟨r, i, ?_⟩
        rw [← seq, ← view, ← Option.some.inj text]
        exact member
    | _ => simp [Msg.acceptText] at is

/-- The kept promise carries a text that its sender accepted in this very view. -/
def VotedInView (view : Int) : Option Promise → Prop
  | none => False
  | some kept => kept.response.vA ≠ "" ∧ kept.lastVote = some view

instance (view : Int) : (kept : Option Promise) → Decidable (VotedInView view kept)
  | none => isFalse id
  | some kept => inferInstanceAs (Decidable (kept.response.vA ≠ "" ∧ kept.lastVote = some view))

/-- The text that a round sends after its prepare loop. -/
def preparedText (v : String) (outcomes : List (Option Promise)) : String :=
  keptText v ((keptReply Promise.response outcomes).map Promise.response)

/-- No Accept for the round's slot in its view has been sent. -/
def FirstOfBallot (c : Cluster n) (round : Round n) : Prop :=
  ∀ message ∈ c.msgs, message.acceptText round.seq round.myView = none

/-- Every round for the slot so far was started with the same value. -/
def Unrivalled (c : Cluster n) (round : Round n) : Prop :=
  ∀ other ∈ c.rounds, other.seq = round.seq → other.v = round.v

instance (c : Cluster n) (round : Round n) : Decidable (FirstOfBallot c round) :=
  inferInstanceAs (Decidable (∀ message ∈ c.msgs, _))

instance (c : Cluster n) (round : Round n) : Decidable (Unrivalled c round) :=
  inferInstanceAs (Decidable (∀ other ∈ c.rounds, _))

/-- A round that enters its accept phase opens its ballot, or has no other value to send, or has found
the ballot's own vote in its prepare phase. -/
def ForcesValue (c : Cluster n) : Label n → Prop
  | .begin r => ∀ round ∈ c.rounds[r]?, c.skipsPrepare round → FirstOfBallot c round ∨ Unrivalled c round
  | .propose r => ∀ round ∈ c.rounds[r]?, ∀ outcomes ∈ round.prepared,
      FirstOfBallot c round ∨ Unrivalled c round ∨
        VotedInView round.myView (keptReply Promise.response outcomes)
  | _ => True

instance (c : Cluster n) : (label : Label n) → Decidable (ForcesValue c label)
  | .begin r => inferInstanceAs (Decidable (∀ round ∈ c.rounds[r]?, _))
  | .propose r => inferInstanceAs (Decidable (∀ round ∈ c.rounds[r]?, _))
  | .start _ _ _ | .conclude _ | .finishLearn _ | .forward _ | .forwardReturns _ | .deliver _
  | .receive _ | .prepareFails _ | .acceptFails _ _ | .electFails _ | .beatFails _ | .detect _
  | .quietEnds _ | .concludeElection _ | .beat _ | .sendBeat _ => isTrue trivial

/-- A round leaves its prepare loop with promises of accepted numbers up to its view. -/
theorem prepared_text {round : Round n} {highestN : Int} {value : String}
    {outcomes : List (Option Promise)}
    (chosen : afterPrepare round.v round.myView (prepareLocals n round.v highestN outcomes) =
      .accept value) :
    keptNumber Promise.response (keptReply Promise.response outcomes) ≤ round.myView ∧
      value = preparedText round.v outcomes := by
  obtain ⟨within, _, _, text⟩ := (afterPrepare_accept (faithful_id _)).mp chosen
  rw [← keptReply_map id Promise.response] at within text
  refine ⟨?_, text⟩
  have same : keptNumber id ((keptReply (id ∘ Promise.response) outcomes).map Promise.response) =
      keptNumber Promise.response (keptReply Promise.response outcomes) := by
    show keptNumber id ((keptReply Promise.response outcomes).map Promise.response) = _
    cases keptReply Promise.response outcomes <;> rfl
  rw [← same]
  exact within

/-- The kept vote of the round's own view is one of the Accepts already sent. -/
theorem VotedInView.proposed {c : Cluster n} (reached : c.Reached) {r : Nat} {round : Round n}
    {number highestN : Int} {outcomes : List (Option Promise)} (found : c.rounds[r]? = some round)
    (prepares : round.phase = .preparing number highestN outcomes)
    (voted : VotedInView round.myView (keptReply Promise.response outcomes)) :
    Proposed c round.seq round.myView (preparedText round.v outcomes) := by
  unfold preparedText
  rcases keeps : keptReply Promise.response outcomes with _ | kept
  · rw [keeps] at voted
    exact voted.elim
  · rw [keeps] at voted
    obtain ⟨k, place⟩ := List.getElem?_of_mem (keptReply_mem Promise.response keeps)
    obtain ⟨i, _, replied⟩ := (preparing_outcome reached found prepares).2 k kept place
    obtain ⟨_, again, _, sound⟩ := prepareReply_round reached replied
    rw [found] at again
    cases again
    have text : keptText round.v (some kept.response) = kept.response.vA := if_neg voted.1
    rw [Option.map_some, text]
    exact (sound.latest round.myView voted.2).2.proposed reached

/-- The ballot of a round that opens it has no value yet. -/
theorem FirstOfBallot.unproposed {c : Cluster n} {round : Round n} (first : FirstOfBallot c round)
    {value : String} : ¬ Proposed c round.seq round.myView value := by
  rintro ⟨r, i, member⟩
  have told : Msg.acceptText round.seq round.myView (.acceptRequest r i ⟨round.seq, round.myView, value⟩) =
      some value := if_pos ⟨rfl, rfl⟩
  rw [first _ member] at told
  cases told

/-- A kept text of the prepare phase was sent in an Accept for the slot. -/
theorem preparedText_cases {c : Cluster n} (reached : c.Reached) {r : Nat} {round : Round n}
    {number highestN : Int} {outcomes : List (Option Promise)} (found : c.rounds[r]? = some round)
    (prepares : round.phase = .preparing number highestN outcomes) :
    preparedText round.v outcomes = round.v ∨
      ∃ view, Proposed c round.seq view (preparedText round.v outcomes) := by
  unfold preparedText
  rcases keeps : keptReply Promise.response outcomes with _ | kept
  · exact .inl rfl
  · by_cases filled : kept.response.vA = ""
    · exact .inl (if_pos filled)
    · obtain ⟨k, place⟩ := List.getElem?_of_mem (keptReply_mem Promise.response keeps)
      obtain ⟨i, _, replied⟩ := (preparing_outcome reached found prepares).2 k kept place
      obtain ⟨_, again, _, sound⟩ := prepareReply_round reached replied
      rw [found] at again
      cases again
      have text : keptText round.v (some kept.response) = kept.response.vA := if_neg filled
      rw [Option.map_some, text]
      cases vote : kept.lastVote with
      | none => exact absurd (sound.silent vote) filled
      | some last => exact .inr ⟨last, (sound.latest last vote).2.proposed reached⟩

/-- A round proposes its own value, or one that was proposed for its slot before. -/
theorem Proposes.text {c : Cluster n} (reached : c.Reached) {label : Label n} {r : Nat} {round : Round n}
    {value : String} (found : c.rounds[r]? = some round) (proposes : Proposes c r round label value) :
    value = round.v ∨ ∃ view, Proposed c round.seq view value := by
  cases proposes with
  | skips skips free => exact .inl rfl
  | prepared prepares done chosen =>
      rw [(prepared_text chosen).2]
      exact preparedText_cases reached found prepares

/-- Every proposed value is that of a round for the slot. -/
theorem Proposed.started {c : Cluster n} (reached : c.Reached) {seq view : Int} {value : String}
    (proposed : Proposed c seq view value) : ∃ round ∈ c.rounds, round.seq = seq ∧ round.v = value := by
  revert proposed
  revert value view seq
  refine @reachable_invariant _ _ _ _ c (fun c => ∀ {seq view : Int} {value : String},
    Proposed c seq view value → ∃ round ∈ c.rounds, round.seq = seq ∧ round.v = value) ?_ ?_ reached
  · rintro seq view value ⟨_, _, member⟩
    cases member
  · intro c label c' before started taken seq view value proposed
    have event := Cluster.step_event taken
    have kept {round : Round n} (member : round ∈ c.rounds) :
        ∃ later ∈ c'.rounds, later.seq = round.seq ∧ later.v = round.v := by
      obtain ⟨r, found⟩ := List.getElem?_of_mem member
      obtain ⟨phase, after, _⟩ := event.rounds_kept found
      exact ⟨_, List.mem_of_getElem? after, rfl, rfl⟩
    have source : ∃ round ∈ c.rounds, round.seq = seq ∧ round.v = value := by
      obtain earlier | ⟨r, round, found, same, _, proposes, _⟩ := event.proposed_cases proposed
      · exact started earlier
      · subst same
        obtain own | ⟨other, earlier⟩ := proposes.text before found
        · exact ⟨round, List.mem_of_getElem? found, rfl, own.symm⟩
        · exact started earlier
    obtain ⟨round, member, slot, text⟩ := source
    obtain ⟨later, there, sameSlot, sameText⟩ := kept member
    exact ⟨later, there, sameSlot.trans slot, sameText.trans text⟩

/-- Without a rival every proposal for the slot carries the round's own value. -/
theorem Unrivalled.proposed {c : Cluster n} (reached : c.Reached) {round : Round n}
    (unrivalled : Unrivalled c round) {view : Int} {value : String}
    (proposed : Proposed c round.seq view value) : value = round.v := by
  obtain ⟨other, member, slot, text⟩ := proposed.started reached
  exact text.symm.trans (unrivalled other member slot)

/-- A round whose value is forced proposes only the value that its ballot already has. -/
theorem ForcesValue.proposes {c : Cluster n} (reached : c.Reached) {label : Label n}
    (single : OneValuePerBallot c) (forces : ForcesValue c label) {r : Nat} {round : Round n}
    {value : String} (found : c.rounds[r]? = some round) (proposes : Proposes c r round label value)
    {earlier : String} (proposed : Proposed c round.seq round.myView earlier) : earlier = value := by
  have alone (unrivalled : Unrivalled c round) : earlier = value := by
    rw [unrivalled.proposed reached proposed]
    obtain own | ⟨view, before⟩ := proposes.text reached found
    · exact own.symm
    · exact (unrivalled.proposed reached before).symm
  cases proposes with
  | skips skips free =>
      obtain first | unrivalled := forces round found skips
      · exact absurd proposed first.unproposed
      · exact alone unrivalled
  | prepared prepares done chosen =>
      obtain first | unrivalled | voted := forces round found _ (Round.prepared_eq prepares done chosen)
      · exact absurd proposed first.unproposed
      · exact alone unrivalled
      · rw [(prepared_text chosen).2]
        exact single _ _ _ _ proposed (voted.proposed reached found prepares)

/-- A step whose value is forced keeps one value in each ballot. -/
theorem OneValuePerBallot.step {c c' : Cluster n} {label : Label n} (reached : c.Reached)
    (single : OneValuePerBallot c) (forces : ForcesValue c label) (taken : c.step label = some c') :
    OneValuePerBallot c' := by
  intro seq view first second one two
  have event := Cluster.step_event taken
  rcases event.proposed_cases one with early | ⟨r, round, found, rfl, rfl, proposes, _⟩ <;>
    rcases event.proposed_cases two with other | ⟨s, round', found', seq', view', proposes', _⟩
  · exact single _ _ _ _ early other
  · subst seq' view'
    exact forces.proposes reached single found' proposes' early
  · exact (forces.proposes reached single found proposes other).symm
  · exact (proposes.unique proposes' found found').2

/-- In every run in which the value of each round that enters its accept phase is forced, the Accepts of
one view and slot carry one value. -/
theorem one_value_per_ballot {c : Cluster n} {labels : List (Label n)}
    (forced : Guarded Cluster.step ForcesValue (Cluster.initial n) labels)
    (ran : run Cluster.step (Cluster.initial n) labels = some c) : OneValuePerBallot c := by
  refine @guarded_invariant _ _ _ _ _ _ OneValuePerBallot ?_ ?_ ⟨labels, forced, ran⟩
  · rintro seq view first second ⟨_, _, member⟩
    cases member
  · intro state label next reached single forces taken
    exact single.step reached.reachable forces taken

/-- The only server of a group proposes a second value for a slot whose first Accept was lost. -/
def retriedSlot (server : Fin 1) : List (Label 1) :=
  [.start server 1 "x#SHARED", .begin 0, .acceptFails 0 server, .conclude 0, .finishLearn 0,
    .start server 1 "x#EXCLUSIVE", .begin 1]

theorem ballot_with_two_values : ¬ ∀ (n : Nat) (c : Cluster n), c.Reached → OneValuePerBallot c := by
  intro single
  obtain ⟨c, ran, checked⟩ := (Option.any_eq_true _ _).mp (by decide :
    (run Cluster.step (Cluster.initial 1) (retriedSlot 0)).any (fun c =>
      decide (Proposed c 1 0 "x#SHARED" ∧ Proposed c 1 0 "x#EXCLUSIVE")) = true)
  obtain ⟨first, second⟩ := of_decide_eq_true checked
  exact absurd (single 1 c ⟨retriedSlot 0, ran⟩ 1 0 _ _ first second) (by decide)

/-- A group of two finds its first value again through its prepare phase. -/
def keptBallot : List (Label 2) :=
  [.start 0 1 "x#SHARED", .begin 0, .deliver 0, .acceptFails 0 0, .acceptFails 0 1, .conclude 0,
    .finishLearn 0, .start 0 1 "x#EXCLUSIVE", .begin 1, .deliver 5, .receive 6, .prepareFails 1,
    .propose 1]

theorem one_value_per_ballot_kept : ∃ c : Cluster 2,
    run Cluster.step (Cluster.initial 2) keptBallot = some c ∧ OneValuePerBallot c ∧
      Proposed c 1 0 "x#SHARED" := by
  obtain ⟨c, ran, checked⟩ := (Option.any_eq_true _ _).mp (by decide :
    (run Cluster.step (Cluster.initial 2) keptBallot).any (fun c =>
      decide (Proposed c 1 0 "x#SHARED" ∧ c.rounds.length = 2)) = true)
  have forced : Guarded Cluster.step ForcesValue (Cluster.initial 2) keptBallot := by decide
  exact ⟨c, ran, one_value_per_ballot forced ran, (of_decide_eq_true checked).1⟩

end Chubby.Paxos
