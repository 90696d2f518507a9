/-
This file proves agreement for the runs whose steps are all sound.
-/

import Chubby.Paxos.Decisions

namespace Chubby.Paxos

open Chubby.Library

variable {n : Nat}

/-- The majority of promises with which a round leaves its prepare loop. -/
structure Promised (c : Cluster n) (r : Nat) (round : Round n) (outcomes : List (Option Promise))
    (quorum : Finset (Fin n)) : Prop where
  large : Majority quorum
  each : ∀ i ∈ quorum, ∃ promise, some promise ∈ outcomes ∧ promise.response.status = .ok ∧
    .prepareReply r i promise ∈ c.msgs

theorem promised_of_sound {c : Cluster n} (reached : c.Reached) {r : Nat} {round : Round n}
    {number highestN : Int} {outcomes : List (Option Promise)} (found : c.rounds[r]? = some round)
    (prepares : round.phase = .preparing number highestN outcomes)
    (sound : SoundPrepare round outcomes) : ∃ quorum, Promised c r round outcomes quorum := by
  obtain ⟨short, heard⟩ := preparing_outcome reached found prepares
  obtain ⟨voters, card, each⟩ := exists_answered (List.nodup_finRange n)
    (by rw [List.length_finRange]; exact short) Promise.isOk
  refine ⟨voters, majority_of_half_lt ?_, fun i member => ?_⟩
  · rw [card, Fintype.card_fin]
    exact sound.2.1
  · obtain ⟨k, outcome, place, answer, ok⟩ := each i member
    rcases outcome with _ | promise
    · cases ok
    · obtain ⟨j, position, replied⟩ := heard k promise answer
      have same : i = j := by
        rw [List.getElem?_eq_some_iff] at place
        obtain ⟨_, value⟩ := place
        rw [List.getElem_finRange] at value
        rw [← value]
        exact Fin.ext position.symm
      subst same
      exact ⟨promise, List.mem_of_getElem? answer, by simpa [Promise.isOk] using ok, replied⟩

/-- A value of the slot that is settled up to the view: any other value lost to a later one. -/
def Settled (c : Cluster n) (seq view : Int) (value : String) : Prop :=
  ∃ later text, (ballots c seq).Chosen later text ∧ (later ≤ view → text = value)

theorem Settled.step {c c' : Cluster n} {label : Label n} (event : Event c label c') {seq view : Int}
    {value : String} (settled : Settled c seq view value) : Settled c' seq view value := by
  obtain ⟨later, text, chosen, same⟩ := settled
  exact ⟨later, text, chosen_step event chosen, same⟩

/-- The round's promises all report the votes of a majority that settles the value. -/
def Recalled (c : Cluster n) (r : Nat) (round : Round n) (value : String) : Prop :=
  ∃ later text quorum, Majority quorum ∧ (later ≤ round.myView → text = value) ∧
    ∀ i ∈ quorum, Voted c i round.seq later text ∧ ∀ promise, .prepareReply r i promise ∈ c.msgs →
      ∃ last, promise.lastVote = some last ∧ later ≤ last

/-- The invariant of sound runs from which agreement follows. -/
structure Consistent (c : Cluster n) : Prop where
  nonempty : ∀ seq view value, Proposed c seq view value → value ≠ ""
  single : OneValuePerBallot c
  safe : ∀ seq view value, Proposed c seq view value → (ballots c seq).SafeAt view value
  settled : ∀ r i request, .acceptRequest r i request ∈ c.msgs → ∀ round : Round n,
    c.rounds[r]? = some round → (∀ value outcomes, round.phase ≠ .accepting value outcomes) →
      Settled c request.seq request.view request.value
  recalled : ∀ (r : Nat) (round : Round n), c.rounds[r]? = some round →
    ∀ number highestN outcomes, round.phase = .preparing number highestN outcomes →
      ∀ value, Proposed c round.seq round.myView value → Recalled c r round value

theorem consistent_initial : Consistent (Cluster.initial n) where
  nonempty seq view value proposed := by
    obtain ⟨_, _, member⟩ := proposed
    cases member
  single seq view first second one := by
    obtain ⟨_, _, member⟩ := one
    cases member
  safe seq view value proposed := by
    obtain ⟨_, _, member⟩ := proposed
    cases member
  settled r i request member := by cases member
  recalled r round found := by cases found

section Propose

variable {c : Cluster n} {r : Nat} {round : Round n} {number highestN : Int}
  {outcomes : List (Option Promise)}

/-- The kept promise is one of the majority's kind: it has an accepted number and a sound vote. -/
theorem kept_of_promised (reached : c.Reached) {quorum : Finset (Fin n)}
    (promised : Promised c r round outcomes quorum) :
    ∃ kept, keptReply Promise.response outcomes = some kept := by
  obtain ⟨i, member, _⟩ := promised.large.inter promised.large
  obtain ⟨promise, heard, ok, replied⟩ := promised.each i member
  obtain ⟨_, _, _, sound⟩ := prepareReply_round reached replied
  have positive := sound.positive
  have most := le_keptNumber Promise.response heard ok
  rcases keeps : keptReply Promise.response outcomes with _ | kept
  · rw [keeps] at most
    simp only [keptNumber] at most
    omega
  · exact ⟨kept, rfl⟩

/-- What the promises of a sound prepare phase say about the votes below the round's view. -/
inductive Prepared (c : Cluster n) (r : Nat) (round : Round n) (outcomes : List (Option Promise))
    (quorum : Finset (Fin n)) : Prop where
  | silent (none : ∀ i ∈ quorum, ∃ promise, .prepareReply r i promise ∈ c.msgs ∧
        promise.response.status = .ok ∧ promise.lastVote = none) : Prepared c r round outcomes quorum
  | latest {voter : Fin n} {view : Int} (within : view ≤ round.myView)
      (voted : Voted c voter round.seq view (preparedText round.v outcomes))
      (bound : ∀ i ∈ quorum, ∃ promise, .prepareReply r i promise ∈ c.msgs ∧
        promise.response.status = .ok ∧ ∀ last, promise.lastVote = some last → last ≤ view) :
      Prepared c r round outcomes quorum

theorem prepared_of_sound (reached : c.Reached) (consistent : Consistent c)
    (found : c.rounds[r]? = some round) (prepares : round.phase = .preparing number highestN outcomes)
    (within : keptNumber Promise.response (keptReply Promise.response outcomes) ≤ round.myView)
    (sound : SoundPrepare round outcomes) {quorum : Finset (Fin n)}
    (promised : Promised c r round outcomes quorum) : Prepared c r round outcomes quorum := by
  obtain ⟨kept, keeps⟩ := kept_of_promised reached promised
  have latest := sound.2.2
  unfold LatestKept at latest
  rw [keeps] at latest within
  rcases vote : kept.lastVote with _ | view
  · refine .silent fun i member => ?_
    obtain ⟨promise, heard, ok, replied⟩ := promised.each i member
    refine ⟨promise, replied, ok, Option.eq_none_iff_forall_not_mem.mpr fun last reported => ?_⟩
    have covered := latest _ heard promise rfl ok last reported
    simp [vote] at covered
  · obtain ⟨k, place⟩ := List.getElem?_of_mem (keptReply_mem Promise.response keeps)
    obtain ⟨voter, _, given⟩ := (preparing_outcome reached found prepares).2 k kept place
    obtain ⟨_, again, _, facts⟩ := prepareReply_round reached given
    rw [found] at again
    cases again
    obtain ⟨below, voted⟩ := facts.latest view vote
    have filled := consistent.nonempty _ _ _ (voted.proposed reached)
    have text : preparedText round.v outcomes = kept.response.vA := by
      unfold preparedText
      rw [keeps]
      exact if_neg filled
    apply @Prepared.latest _ _ _ _ _ _ voter view (below.trans within) (by rw [text]; exact voted)
    intro i member
    obtain ⟨promise, heard, ok, replied⟩ := promised.each i member
    refine ⟨promise, replied, ok, fun last reported => ?_⟩
    have covered := latest _ heard promise rfl ok last reported
    simpa [vote] using covered

/-- Every promise closes the views below the round's. -/
theorem Promised.closed {quorum : Finset (Fin n)} (promised : Promised c r round outcomes quorum)
    (found : c.rounds[r]? = some round) {i : Fin n} (member : i ∈ quorum) {view : Int}
    (below : view < round.myView) : (ballots c round.seq).closed i view := by
  obtain ⟨promise, _, ok, replied⟩ := promised.each i member
  exact .inr (promisedAbove_of_reply replied ok found below)

/-- The text that follows a sound prepare phase is safe. -/
theorem prepared_safe (reached : c.SoundlyReached) (consistent : Consistent c)
    (found : c.rounds[r]? = some round) {quorum : Finset (Fin n)}
    (promised : Promised c r round outcomes quorum) (prepared : Prepared c r round outcomes quorum) :
    (ballots c round.seq).SafeAt round.myView (preparedText round.v outcomes) := by
  cases prepared with
  | silent none =>
      refine Voting.Silent.safeAt ⟨quorum, promised.large, fun i member view below => ?_⟩ _
      refine ⟨promised.closed found member below, fun value voted => ?_⟩
      obtain ⟨promise, replied, ok, quiet⟩ := none i member
      obtain ⟨last, reported, _⟩ := promise_covers reached replied ok found voted below
      rw [quiet] at reported
      cases reported
  | @latest voter view within voted bound =>
      have proposed := voted.proposed reached.reachable
      have safe := consistent.safe _ _ _ proposed
      rcases lt_or_eq_of_le within with smaller | same
      · refine Voting.safeAt_of_latest promised.large
          (fun i member lower below => promised.closed found member below) ?_ ?_ safe
        · intro i member lower other below accepted
          obtain ⟨promise, replied, ok, most⟩ := bound i member
          obtain ⟨last, reported, covered⟩ := promise_covers reached replied ok found accepted below
          exact covered.trans (most last reported)
        · intro i other accepted
          exact consistent.single _ _ _ _ (Voted.proposed reached.reachable accepted) proposed
      · rw [← same]
        exact safe

/-- The text that follows a sound prepare phase is the one already sent in the round's view. -/
theorem prepared_same (reached : c.SoundlyReached) (consistent : Consistent c)
    (found : c.rounds[r]? = some round) (prepares : round.phase = .preparing number highestN outcomes)
    {quorum : Finset (Fin n)} (promised : Promised c r round outcomes quorum)
    (prepared : Prepared c r round outcomes quorum) {value : String}
    (proposed : Proposed c round.seq round.myView value) : value = preparedText round.v outcomes := by
  have safe := prepared_safe reached consistent found promised prepared
  obtain ⟨later, text, others, large, same, each⟩ :=
    consistent.recalled r round found number highestN outcomes prepares value proposed
  obtain ⟨i, inFirst, inSecond⟩ := promised.large.inter large
  cases prepared with
  | silent none =>
      obtain ⟨promise, replied, _, quiet⟩ := none i inFirst
      obtain ⟨last, reported, _⟩ := (each i inSecond).2 promise replied
      rw [quiet] at reported
      cases reported
  | @latest voter view within voted bound =>
      obtain ⟨promise, replied, _, most⟩ := bound i inFirst
      obtain ⟨last, reported, above⟩ := (each i inSecond).2 promise replied
      have below := (above.trans (most last reported)).trans within
      rcases lt_or_eq_of_le within with smaller | equal
      · have under : later < round.myView := lt_of_le_of_lt (above.trans (most last reported)) smaller
        rw [← same below]
        exact safe.eq_of_chosen under ⟨others, large, fun j member => (each j member).1⟩
      · rw [equal] at voted
        exact consistent.single _ _ _ _ proposed (voted.proposed reached.reachable)

/-- A skip in a merged view is safe. -/
theorem skip_safeAt (reached : c.Reached) (skips : c.skipsPrepare round) (sound : SoundSkip c round) :
    (ballots c round.seq).SafeAt round.myView round.v := by
  have silent : (voting c round.seq).Silent round.myView := by
    rcases sound.2.1 with zero | won
    · have : NeZero n := ⟨by have := round.server.isLt; omega⟩
      rw [zero]
      exact silent_zero reached round.seq
    · exact (won.merged reached).silent skips.2.2.2
  have wider : (ballots c round.seq).Silent round.myView :=
    @Voting.Silent.stable _ _ _ _ _ (voting c round.seq) (ballots c round.seq) _
      (fun _ _ closed => .inl closed) (fun _ _ _ voted _ => voted) silent
  exact wider.safeAt round.v

/-- A sound step proposes a non-empty value that is safe, and the one value of its ballot. -/
theorem proposes_sound (reached : c.SoundlyReached) (consistent : Consistent c) {label : Label n}
    (sound : SoundStep c label) (found : c.rounds[r]? = some round) {value : String}
    (proposes : Proposes c r round label value) : value ≠ "" ∧
      (ballots c round.seq).SafeAt round.myView value ∧
      ∀ other, Proposed c round.seq round.myView other → other = value := by
  cases proposes with
  | skips skips free =>
      have allowed := sound round found skips
      exact ⟨allowed.1, skip_safeAt reached.reachable skips allowed, repeats_iff.mp allowed.2.2⟩
  | prepared prepares done chosen =>
      have allowed := sound round found _ (Round.prepared_eq prepares done chosen)
      obtain ⟨within, text⟩ := prepared_text chosen
      obtain ⟨quorum, promised⟩ := promised_of_sound reached.reachable found prepares allowed
      have prepared := prepared_of_sound reached.reachable consistent found prepares within allowed promised
      rw [text]
      refine ⟨?_, prepared_safe reached consistent found promised prepared, fun other proposed =>
        prepared_same reached consistent found prepares promised prepared proposed⟩
      unfold preparedText keptText
      split
      · exact allowed.1
      · split
        · exact allowed.1
        next filled => exact filled

end Propose

section Step

variable {c c' : Cluster n} {label : Label n}

/-- The value of a round that ends its accept phase is settled. -/
theorem settled_of_accepting (large : 1 < n) (reached : c.SoundlyReached) (consistent : Consistent c)
    (sound : SoundStep c label) {r : Nat} {round : Round n} {value : String}
    {outcomes : Fin n → Option (Option AcceptResponse)} {phase : RoundPhase n}
    (found : c.rounds[r]? = some round) (accepts : round.phase = .accepting value outcomes)
    (step : PhaseStep c label r round phase) (left : ∀ text replies, phase ≠ .accepting text replies)
    (proposed : Proposed c round.seq round.myView value) :
    Settled c round.seq round.myView value := by
  cases step with
  | same => exact absurd accepts (left _ _)
  | prepares waits => rw [waits] at accepts; cases accepts
  | proposes => exact absurd rfl (left _ _)
  | hears prepares => rw [prepares] at accepts; cases accepts
  | counts => exact absurd rfl (left _ _)
  | learns learned =>
      cases learned with
      | reported prepares => rw [prepares] at accepts; cases accepts
      | accepted again unreported =>
          rw [accepts] at again
          cases again
          have many := sound round found
          unfold SoundAccepts at many
          rw [accepts] at many
          exact ⟨round.myView, value, chosen_of_accepts reached.reachable found accepts (many unreported),
            fun _ => rfl⟩
  | forwards prepares => rw [prepares] at accepts; cases accepts
  | ends final =>
      rcases final with waits | ⟨_, learns⟩ | forwards | ⟨text, replies, again, reported⟩
      · rw [waits] at accepts; cases accepts
      · rw [learns] at accepts; cases accepts
      · rw [forwards] at accepts; cases accepts
      · rw [accepts] at again
        cases again
        -- some accept reply reported a decided value, which a majority accepted in some view
        obtain ⟨outcome, member, decision⟩ := List.any_eq_true.mp reported
        obtain ⟨i, _, heard⟩ := List.mem_map.mp member
        rcases outcome with _ | response
        · cases decision
        · have replied := accepting_outcome reached.reachable found accepts
            (Option.join_eq_some_iff.mp heard)
          have done := acceptReply_done reached.reachable replied
          have positive := (seq_nonneg reached.reachable).1 round (List.mem_of_getElem? found)
          have text : response.value ≠ "" := by
            simp only [Option.any_some, AcceptResponse.reportsDecision, Bool.or_eq_true,
              decide_eq_true_eq, done] at decision
            exact decision.resolve_left (by omega)
          obtain ⟨later, chosen⟩ :=
            (backed large reached).acceptReplies r i _ response replied text
          refine ⟨later, response.value, chosen, fun below => ?_⟩
          rcases lt_or_eq_of_le below with smaller | same
          · exact (consistent.safe _ _ _ proposed).eq_of_chosen smaller chosen
          · obtain ⟨quorum, many, voted⟩ := chosen
            obtain ⟨j, member, _⟩ := many.inter many
            rw [← same] at proposed
            exact consistent.single _ _ _ _ (Voted.proposed reached.reachable (voted j member)) proposed

/-- A proposal of another round in the same ballot needs the slot's mutex. -/
theorem not_proposes_of_preparing (reached : c.Reached) {r s : Nat} {round other : Round n}
    {number highestN : Int} {outcomes : List (Option Promise)} {value : String}
    (found : c.rounds[r]? = some round) (prepares : round.phase = .preparing number highestN outcomes)
    (apart : r ≠ s) (again : c.rounds[s]? = some other) (seq : round.seq = other.seq)
    (view : round.myView = other.myView) : ¬ Proposes c s other label value := by
  intro proposes
  have leader := (round_view reached found).1
  have leader' := (round_view reached again).1
  rw [view] at leader
  have server := leads_unique leader leader'
  have holds : round.holdsSlot = true := by unfold Round.holdsSlot; rw [prepares]
  cases proposes with
  | skips skips free =>
      have released := slotFree_not_holds free found server seq
      rw [released] at holds
      cases holds
  | prepared prepares' =>
      have holds' : other.holdsSlot = true := by unfold Round.holdsSlot; rw [prepares']
      exact apart (slot_mutex reached found again server seq holds holds')

/-- While a round prepares, its ballot gets no new proposal. -/
theorem proposed_of_preparing (reached : c.Reached) (event : Event c label c') {r : Nat}
    {round : Round n} {number highestN : Int} {outcomes : List (Option Promise)}
    (after : c'.rounds[r]? = some round) (prepares : round.phase = .preparing number highestN outcomes)
    {value : String} (proposed : Proposed c' round.seq round.myView value) :
    Proposed c round.seq round.myView value := by
  rcases event.proposed_cases proposed with before | ⟨s, other, found, seq, view, proposes, entered⟩
  · exact before
  · exfalso
    have moved : (c.rounds.set s { other with phase := .accepting value fun _ => none })[r]? =
        some round := by
      rw [← after, entered]
      rfl
    by_cases same : r = s
    · subst same
      rw [getElem?_set_self_of_some found] at moved
      cases moved
      cases prepares
    · rw [List.getElem?_set_ne (Ne.symm same)] at moved
      exact not_proposes_of_preparing reached moved prepares same found seq view proposes

/-- A round that takes the slot finds every earlier value of its ballot settled. -/
theorem recalled_of_waiting (reached : c.Reached) (consistent : Consistent c)
    (event : Event c label c') {r : Nat} {round : Round n} (found : c.rounds[r]? = some round)
    (waits : round.phase = .waiting) (free : c.slotFree round.server round.seq) {value : String}
    (proposed : Proposed c round.seq round.myView value) : Recalled c' r round value := by
  obtain ⟨s, i, sent⟩ := proposed
  obtain ⟨other, again, seq, view, past⟩ := acceptRequest_round reached sent
  have leader := (round_view reached found).1
  have leader' := (round_view reached again).1
  dsimp only at seq view
  rw [view] at leader
  have released := slotFree_not_holds free again (leads_unique leader' leader) seq.symm
  have left : ∀ text outcomes, other.phase ≠ .accepting text outcomes := by
    intro text outcomes accepts
    unfold Round.holdsSlot at released
    rw [accepts] at released
    cases released
  obtain ⟨later, text, ⟨quorum, large, voted⟩, same⟩ := consistent.settled s i _ sent other again left
  refine ⟨later, text, quorum, large, same, fun j member => ⟨Voted.step event (voted j member), ?_⟩⟩
  -- nobody answers a round that has called nobody
  intro promise replied
  exfalso
  obtain ⟨new, added, fresh⟩ := event.msgs
  rw [added] at replied
  rcases List.mem_append.mp replied with before | sending
  · obtain ⟨_, found', moved, _⟩ := prepareReply_round reached before
    rw [found] at found'
    cases found'
    exact moved waits
  · obtain ⟨request, asked, _⟩ := fresh _ sending
    obtain ⟨_, found', _, moved⟩ := prepareRequest_round reached asked
    rw [found] at found'
    cases found'
    exact moved waits

/-- New promises of a round recall what its earlier promises recall. -/
theorem Recalled.step (reached : c.Reached) (event : Event c label c') {r : Nat}
    {round : Round n} {phase : RoundPhase n} {value : String} (found : c.rounds[r]? = some round)
    (recalled : Recalled c r round value) : Recalled c' r { round with phase } value := by
  obtain ⟨later, text, quorum, large, same, each⟩ := recalled
  refine ⟨later, text, quorum, large, same, fun i member => ?_⟩
  obtain ⟨voted, reports⟩ := each i member
  refine ⟨Voted.step event voted, fun promise replied => ?_⟩
  obtain ⟨new, added, fresh⟩ := event.msgs
  rw [added] at replied
  rcases List.mem_append.mp replied with before | sending
  · exact reports promise before
  · obtain ⟨request, asked, _, last⟩ := fresh _ sending
    obtain ⟨_, found', seq, _⟩ := prepareRequest_round reached asked
    rw [found] at found'
    cases found'
    have is := lastVoteIs_lastVote reached i request.seq
    rw [← seq] at voted
    rcases vote : lastVote c.msgs i request.seq with _ | ⟨latest, given⟩
    · rw [vote] at is
      exact absurd voted (is.2 later text)
    · rw [vote] at is last
      exact ⟨latest, last, is.2.2 later text voted⟩

theorem Consistent.step (large : 1 < n) (reached : c.SoundlyReached) (consistent : Consistent c)
    (sound : SoundStep c label) (event : Event c label c') : Consistent c' := by
  have proposals {seq view : Int} {value : String} (proposed : Proposed c' seq view value) :
      Proposed c seq view value ∨ (value ≠ "" ∧ (ballots c seq).SafeAt view value ∧
        ∀ other, Proposed c seq view other → other = value) := by
    rcases event.proposed_cases proposed with before | ⟨r, round, found, rfl, rfl, proposes, _⟩
    · exact .inl before
    · exact .inr (proposes_sound reached consistent sound found proposes)
  refine ⟨?_, ?_, ?_, ?_, ?_⟩
  · intro seq view value proposed
    rcases proposals proposed with before | ⟨filled, _, _⟩
    · exact consistent.nonempty seq view value before
    · exact filled
  · intro seq view first second one two
    rcases event.proposed_cases one with early | ⟨r, round, found, rfl, rfl, proposes, _⟩ <;>
      rcases event.proposed_cases two with other | ⟨s, round', found', seq', view', proposes', _⟩
    · exact consistent.single _ _ _ _ early other
    · subst seq' view'
      exact (proposes_sound reached consistent sound found' proposes').2.2 _ early
    · exact ((proposes_sound reached consistent sound found proposes).2.2 _ other).symm
    · exact (proposes.unique proposes' found found').2
  · intro seq view value proposed
    have safe : (ballots c seq).SafeAt view value := by
      rcases proposals proposed with before | ⟨_, safe, _⟩
      · exact consistent.safe seq view value before
      · exact safe
    exact safe.stable event.ballots_closing (event.ballots_respects sound)
  · intro r i request member round after left
    obtain ⟨new, added, fresh⟩ := event.msgs
    rw [added] at member
    rcases List.mem_append.mp member with before | sending
    · obtain ⟨old, found, seq, view, past⟩ := acceptRequest_round reached.reachable before
      obtain ⟨phase, moved, step⟩ := event.rounds_kept found
      rw [moved] at after
      cases after
      apply Settled.step event
      by_cases accepts : ∃ value outcomes, old.phase = .accepting value outcomes
      · obtain ⟨value, outcomes, accepts⟩ := accepts
        unfold Round.Sent at past
        rw [accepts] at past
        rw [seq, view, ← past]
        refine settled_of_accepting large reached consistent sound found accepts step left ⟨r, i, ?_⟩
        rw [past, ← seq, ← view]
        exact before
      · push Not at accepts
        exact consistent.settled r i request before old found accepts
    · obtain ⟨old, value, found, rfl, _, entered⟩ := fresh _ sending
      have moved : c'.rounds[r]? = some { old with phase := .accepting value fun _ => none } := by
        rw [entered]
        exact getElem?_set_self_of_some found
      rw [moved] at after
      cases after
      exact absurd rfl (left _ _)
  · intro r round after number highestN outcomes prepares value proposed
    have before := proposed_of_preparing reached.reachable event after prepares proposed
    rcases event.rounds after with @⟨old, found, step, same⟩ | ⟨_, fresh⟩
    · rw [same] at before ⊢
      rw [prepares] at step
      generalize phase : RoundPhase.preparing number highestN outcomes = next at step
      cases step with
      | same =>
          exact (consistent.recalled r old found _ _ _ phase.symm value before).step
            reached.reachable event found
      | prepares waits free =>
          exact recalled_of_waiting reached.reachable consistent event found waits free before
      | hears earlier =>
          exact (consistent.recalled r old found _ _ _ earlier value before).step
            reached.reachable event found
      | _ => cases phase
    · rw [fresh.waits] at prepares
      cases prepares

end Step

theorem consistent {c : Cluster n} (large : 1 < n) (reached : c.SoundlyReached) : Consistent c := by
  refine guarded_invariant consistent_initial ?_ reached
  intro state label next before holds sound taken
  exact holds.step large before sound (Cluster.step_event taken)

/-- At most one value of a slot is accepted by a majority. -/
theorem known_unique {c : Cluster n} (large : 1 < n) (reached : c.SoundlyReached) {seq : Int}
    {first second : String} (one : Known c seq first) (two : Known c seq second) : first = second := by
  have holds := consistent large reached
  obtain ⟨view, chosen⟩ := one
  obtain ⟨other, again⟩ := two
  refine Voting.chosen_unique ?_ ?_ chosen again
  · intro i j ballot value text voted voted'
    exact holds.single _ _ _ _ (Voted.proposed reached.reachable voted)
      (Voted.proposed reached.reachable voted')
  · intro i ballot value voted
    exact holds.safe _ _ _ (Voted.proposed reached.reachable voted)

theorem decidedValue_of_slot {server : PaxosImpl} {seq : Int} {slot : PaxosSlot}
    (found : server.slots seq = some slot) (decided : slot.status = .decided) :
    server.decidedValue seq = some slot.value := by
  have at_ : server.slotAt seq = slot := by simp [PaxosImpl.slotAt, found]
  unfold PaxosImpl.decidedValue
  rw [at_]
  exact if_pos decided

/-- Along every run of sound steps, two servers that decided the same slot decided the same value. -/
theorem agreement {c : Cluster n} {labels : List (Label n)}
    (sound : Guarded Cluster.step SoundStep (Cluster.initial n) labels)
    (ran : run Cluster.step (Cluster.initial n) labels = some c) {i j : Fin n} {seq : Int}
    {first second : PaxosSlot} (one : (c.servers i).slots seq = some first)
    (two : (c.servers j).slots seq = some second) (decided : first.status = .decided)
    (decided' : second.status = .decided) : first.value = second.value := by
  by_cases large : 1 < n
  · have reached : c.SoundlyReached := ⟨labels, sound, ran⟩
    have holds := backed large reached
    exact known_unique large reached (holds.servers i seq _ (decidedValue_of_slot one decided))
      (holds.servers j seq _ (decidedValue_of_slot two decided'))
  · have same : i = j := Fin.ext (by omega)
    rw [same, two] at one
    cases one
    rfl

/-- Two servers accept and learn a value while the third one is cut off. -/
def decidedTwice (leader silent : Fin 3) : List (Label 3) :=
  [.start leader 1 "x#SHARED", .begin 0, .deliver 0, .deliver 1, .receive 3, .receive 4,
    .acceptFails 0 silent, .conclude 0, .deliver 5, .deliver 6]

theorem agreement_decidedTwice : ∃ (c : Cluster 3) (first second : PaxosSlot),
    run Cluster.step (Cluster.initial 3) (decidedTwice 0 2) = some c ∧
      (c.servers 0).slots 1 = some first ∧ (c.servers 1).slots 1 = some second ∧
      first.status = .decided ∧ second.status = .decided ∧ first.value = second.value := by
  obtain ⟨c, ran, checked⟩ := (Option.any_eq_true _ _).mp (by decide :
    (run Cluster.step (Cluster.initial 3) (decidedTwice 0 2)).any (fun c =>
      ((c.servers 0).slots 1).any fun first => ((c.servers 1).slots 1).any fun second =>
        decide (first.status = .decided ∧ second.status = .decided)) = true)
  obtain ⟨first, one, checked⟩ := (Option.any_eq_true _ _).mp checked
  obtain ⟨second, two, checked⟩ := (Option.any_eq_true _ _).mp checked
  obtain ⟨decided, decided'⟩ := of_decide_eq_true checked
  have sound : Guarded Cluster.step SoundStep (Cluster.initial 3) (decidedTwice 0 2) := by decide
  exact ⟨c, first, second, ran, one, two, decided, decided', agreement sound ran one two decided decided'⟩

/-- The leader teaches the other server a value that nobody accepted, and learns a second value for
the same slot itself. -/
def learnedUnaccepted (leader other : Fin 2) : List (Label 2) :=
  [.start leader 1 "x#SHARED", .begin 0, .acceptFails 0 leader, .acceptFails 0 other, .conclude 0,
    .deliver 3, .finishLearn 0, .start leader 1 "x#EXCLUSIVE", .begin 1, .acceptFails 1 leader,
    .acceptFails 1 other, .conclude 1, .deliver 6]

theorem decided_apart : ¬ ∀ (n : Nat) (c : Cluster n), c.Reached → ∀ i j seq first second,
    (c.servers i).slots seq = some first → (c.servers j).slots seq = some second →
      first.status = .decided → second.status = .decided → first.value = second.value := by
  intro agrees
  obtain ⟨c, ran, checked⟩ := (Option.any_eq_true _ _).mp (by decide :
    (run Cluster.step (Cluster.initial 2) (learnedUnaccepted 0 1)).any (fun c =>
      ((c.servers 0).slots 1).any fun first => ((c.servers 1).slots 1).any fun second =>
        decide (first.status = .decided ∧ second.status = .decided ∧
          first.value ≠ second.value)) = true)
  obtain ⟨first, one, checked⟩ := (Option.any_eq_true _ _).mp checked
  obtain ⟨second, two, checked⟩ := (Option.any_eq_true _ _).mp checked
  obtain ⟨decided, decided', apart⟩ := of_decide_eq_true checked
  exact apart (agrees 2 c ⟨learnedUnaccepted 0 1, ran⟩ 0 1 1 first second one two decided decided')

end Chubby.Paxos
