/-
This file gives the invariants that tie the rounds of a cluster to the messages they wait for.
-/

import Chubby.Paxos.History

namespace Chubby.Paxos

open Chubby.Library

variable {n : Nat}

/-- No slot is ever collected, since nothing raises the lowest slot. -/
theorem lowestSlot_zero {c : Cluster n} (reached : c.Reached) (i : Fin n) :
    (c.servers i).lowestSlot = 0 := by
  revert i
  refine @reachable_invariant _ _ _ _ c (fun c => ∀ i, (c.servers i).lowestSlot = 0) ?_ ?_ reached
  · intro i
    rfl
  · intro c label c' _ zero taken i
    exact ((Cluster.step_event taken).servers i).lowestSlot.trans (zero i)

theorem view_nonneg {c : Cluster n} (reached : c.Reached) (i : Fin n) : 0 ≤ (c.servers i).view := by
  revert i
  refine @reachable_invariant _ _ _ _ c (fun c => ∀ i, 0 ≤ (c.servers i).view) ?_ ?_ reached
  · intro i
    exact le_refl 0
  · intro c label c' _ above taken i
    exact (above i).trans ((Cluster.step_event taken).servers i).view_mono

/-- The slots that `StartOnNewSlot` and `StartOnForward` work on are not negative. -/
theorem seq_nonneg {c : Cluster n} (reached : c.Reached) :
    (∀ round ∈ c.rounds, 0 ≤ round.seq) ∧ ∀ forward ∈ c.forwards, 0 ≤ forward.seq := by
  refine @reachable_invariant _ _ _ _ c (fun c => (∀ round ∈ c.rounds, 0 ≤ round.seq) ∧
    ∀ forward ∈ c.forwards, 0 ≤ forward.seq) ?_ ?_ reached
  · constructor
    · intro round member
      cases member
    · intro forward member
      cases member
  · rintro c label c' before ⟨rounds, forwards⟩ taken
    have event := Cluster.step_event taken
    have zero := lowestSlot_zero before
    constructor
    · intro round member
      obtain ⟨r, after⟩ := List.getElem?_of_mem member
      rcases event.rounds after with @⟨old, found, _, same⟩ | ⟨_, fresh⟩
      · rw [same]
        exact rounds old (List.mem_of_getElem? found)
      · rcases fresh.seq with above | ⟨forward, asked, same⟩
        · rw [zero] at above
          exact above
        · rw [same]
          exact forwards forward asked
    · intro forward member
      rcases event.forwards member with ⟨old, asked, same⟩ | ⟨round, found, same⟩ | ⟨i, above⟩
      · rw [same]
        exact forwards old asked
      · rw [same]
        exact rounds round found
      · rw [zero] at above
        exact above

/-- A round runs in a view that its server leads and has reached. -/
theorem round_view {c : Cluster n} (reached : c.Reached) {r : Nat} {round : Round n}
    (found : c.rounds[r]? = some round) :
    leads round.server round.myView ∧ 0 ≤ round.myView ∧
      round.myView ≤ (c.servers round.server).view := by
  revert found
  revert round r
  refine @reachable_invariant _ _ _ _ c (fun c => ∀ {r : Nat} {round : Round n},
    c.rounds[r]? = some round → leads round.server round.myView ∧ 0 ≤ round.myView ∧
      round.myView ≤ (c.servers round.server).view) ?_ ?_ reached
  · intro r round found
    cases found
  · intro c label c' before views taken r round after
    have event := Cluster.step_event taken
    have raised := (event.servers round.server).view_mono
    rcases event.rounds after with @⟨old, found, _, same⟩ | ⟨_, fresh⟩
    · obtain ⟨leader, positive, below⟩ := views found
      rw [same] at raised ⊢
      exact ⟨leader, positive, below.trans raised⟩
    · have above := view_nonneg before round.server
      exact ⟨fresh.leader, by rw [fresh.view]; exact above, by rw [fresh.view]; exact raised⟩

/-- Only a round past its prepare phase has sent Accepts, and then of one value. -/
def Round.Sent (round : Round n) (value : String) : Prop :=
  match round.phase with
  | .accepting text _ => text = value
  | .learning _ | .finished => True
  | _ => False

theorem Round.Sent.phase_step {c : Cluster n} {label : Label n} {r : Nat} {round : Round n}
    {phase : RoundPhase n} {value : String} (sent : round.Sent value)
    (step : PhaseStep c label r round phase) :
    ({ round with phase } : Round n).Sent value := by
  unfold Round.Sent at sent
  cases step with
  | same => exact sent
  | prepares waits => rw [waits] at sent; exact sent.elim
  | proposes proposed =>
      cases proposed with
      | skips skips => rw [skips.1] at sent; exact sent.elim
      | prepared prepares => rw [prepares] at sent; exact sent.elim
  | hears prepares => rw [prepares] at sent; exact sent.elim
  | counts accepts => rw [accepts] at sent; exact sent
  | learns learned => trivial
  | forwards prepares => rw [prepares] at sent; exact sent.elim
  | ends final => trivial

/-- A label makes one round propose one value. -/
theorem Proposes.unique {c : Cluster n} {label : Label n} {r s : Nat} {first second : Round n}
    {value other : String} (one : Proposes c r first label value)
    (two : Proposes c s second label other) (found : c.rounds[r]? = some first)
    (again : c.rounds[s]? = some second) : first = second ∧ value = other := by
  cases one with
  | skips skips =>
      cases two with
      | skips => rw [found] at again; cases again; exact ⟨rfl, rfl⟩
  | prepared prepares done chosen =>
      cases two with
      | prepared prepares' done' chosen' =>
          rw [found] at again
          cases again
          rw [prepares] at prepares'
          cases prepares'
          rw [chosen] at chosen'
          cases chosen'
          exact ⟨rfl, rfl⟩

/-- A new proposal is that of the round which the label moves. -/
theorem Event.proposed_cases {c c' : Cluster n} {label : Label n} (event : Event c label c')
    {seq view : Int} {value : String} (proposed : Proposed c' seq view value) :
    Proposed c seq view value ∨ ∃ r round, c.rounds[r]? = some round ∧ seq = round.seq ∧
      view = round.myView ∧ Proposes c r round label value ∧ c' = c.enterAccept r round value := by
  obtain ⟨r, i, member⟩ := proposed
  obtain ⟨new, added, fresh⟩ := event.msgs
  rw [added] at member
  rcases List.mem_append.mp member with before | sending
  · exact .inl ⟨r, i, before⟩
  · obtain ⟨round, _, found, same, proposes, entered⟩ := fresh _ sending
    cases same
    exact .inr ⟨r, round, found, rfl, rfl, proposes, entered⟩

/-- An Accept carries the slot, the view and the value of its round. -/
theorem acceptRequest_round {c : Cluster n} (reached : c.Reached) {r : Nat} {i : Fin n}
    {request : AcceptRequest} (member : .acceptRequest r i request ∈ c.msgs) :
    ∃ round, c.rounds[r]? = some round ∧ request.seq = round.seq ∧ request.view = round.myView ∧
      round.Sent request.value := by
  revert member
  revert request i r
  refine @reachable_invariant _ _ _ _ c (fun c => ∀ {r : Nat} {i : Fin n} {request : AcceptRequest},
    .acceptRequest r i request ∈ c.msgs → ∃ round, c.rounds[r]? = some round ∧
      request.seq = round.seq ∧ request.view = round.myView ∧ round.Sent request.value) ?_ ?_ reached
  · intro r i request member
    cases member
  · intro c label c' _ sent taken r i request member
    have event := Cluster.step_event taken
    obtain ⟨new, added, fresh⟩ := event.msgs
    rw [added] at member
    rcases List.mem_append.mp member with before | sending
    · obtain ⟨round, found, seq, view, past⟩ := sent before
      obtain ⟨phase, after, step⟩ := event.rounds_kept found
      exact ⟨_, after, seq, view, past.phase_step step⟩
    · obtain ⟨round, value, found, rfl, _, entered⟩ := fresh _ sending
      rw [entered]
      exact ⟨_, getElem?_set_self_of_some found, rfl, rfl, rfl⟩

theorem acceptReply_request {c : Cluster n} (reached : c.Reached) {r : Nat} {i : Fin n}
    {request : AcceptRequest} {response : AcceptResponse}
    (member : .acceptReply r i request response ∈ c.msgs) : .acceptRequest r i request ∈ c.msgs := by
  revert member
  revert response request i r
  refine @reachable_invariant _ _ _ _ c (fun c => ∀ {r : Nat} {i : Fin n} {request : AcceptRequest}
    {response : AcceptResponse}, .acceptReply r i request response ∈ c.msgs →
      .acceptRequest r i request ∈ c.msgs) ?_ ?_ reached
  · intro r i request response member
    cases member
  · intro c label c' _ asked taken r i request response member
    have event := Cluster.step_event taken
    obtain ⟨new, added, fresh⟩ := event.msgs
    rw [added] at member
    rcases List.mem_append.mp member with before | sending
    · exact event.sent (asked before)
    · exact event.sent (fresh _ sending).1

/-- Each outcome of the accept phase is a reply to the round's own Accept. -/
theorem accepting_outcome {c : Cluster n} (reached : c.Reached) {r : Nat} {round : Round n}
    {value : String} {outcomes : Fin n → Option (Option AcceptResponse)} {i : Fin n}
    {response : AcceptResponse} (found : c.rounds[r]? = some round)
    (accepts : round.phase = .accepting value outcomes) (heard : outcomes i = some (some response)) :
    .acceptReply r i ⟨round.seq, round.myView, value⟩ response ∈ c.msgs := by
  have replied : ∃ request, .acceptReply r i request response ∈ c.msgs := by
    revert heard accepts found
    revert response i outcomes value round r
    refine @reachable_invariant _ _ _ _ c (fun c => ∀ {r : Nat} {round : Round n} {value : String}
      {outcomes : Fin n → Option (Option AcceptResponse)} {i : Fin n} {response : AcceptResponse},
      c.rounds[r]? = some round → round.phase = .accepting value outcomes →
      outcomes i = some (some response) → ∃ request, .acceptReply r i request response ∈ c.msgs) ?_ ?_
      reached
    · intro r round value outcomes i response found
      cases found
    · intro c label c' _ known taken r round value outcomes i response after accepts heard
      have event := Cluster.step_event taken
      have sent {old : Round n} (found : c.rounds[r]? = some old)
          {earlier : Fin n → Option (Option AcceptResponse)}
          (before : old.phase = .accepting value earlier) (same : earlier i = some (some response)) :
          ∃ request, .acceptReply r i request response ∈ c'.msgs := by
        obtain ⟨request, member⟩ := known found before same
        exact ⟨request, event.sent member⟩
      rcases event.rounds after with @⟨old, found, step, same⟩ | ⟨_, fresh⟩
      · rw [accepts] at step
        generalize phase : RoundPhase.accepting value outcomes = next at step
        cases step with
        | same => exact sent found phase.symm heard
        | proposes proposed =>
            cases phase
            cases heard
        | @counts text j earlier outcome before received =>
            cases phase
            by_cases self : i = j
            · subst self
              rw [Function.update_self] at heard
              obtain ⟨request, member⟩ := received response (Option.some.inj heard)
              exact ⟨request, event.sent member⟩
            · rw [Function.update_of_ne self] at heard
              exact sent found before heard
        | _ => cases phase
      · rw [fresh.waits] at accepts
        cases accepts
  obtain ⟨request, member⟩ := replied
  obtain ⟨_, again, seq, view, sent⟩ := acceptRequest_round reached (acceptReply_request reached member)
  rw [found] at again
  cases again
  unfold Round.Sent at sent
  rw [accepts] at sent
  have same : request = ⟨round.seq, round.myView, value⟩ := by
    cases request
    simp_all
  rw [← same]
  exact member

/-- Each outcome of the prepare phase is a reply of the peer in its place. -/
theorem preparing_outcome {c : Cluster n} (reached : c.Reached) {r : Nat} {round : Round n}
    {number highestN : Int} {outcomes : List (Option Promise)} (found : c.rounds[r]? = some round)
    (prepares : round.phase = .preparing number highestN outcomes) :
    outcomes.length ≤ n ∧ ∀ k promise, outcomes[k]? = some (some promise) →
      ∃ i : Fin n, i.val = k ∧ .prepareReply r i promise ∈ c.msgs := by
  revert prepares found
  revert outcomes highestN number round r
  refine @reachable_invariant _ _ _ _ c (fun c => ∀ {r : Nat} {round : Round n}
    {number highestN : Int} {outcomes : List (Option Promise)}, c.rounds[r]? = some round →
    round.phase = .preparing number highestN outcomes →
    outcomes.length ≤ n ∧ ∀ k promise, outcomes[k]? = some (some promise) →
      ∃ i : Fin n, i.val = k ∧ .prepareReply r i promise ∈ c.msgs) ?_ ?_ reached
  · intro r round number highestN outcomes found
    cases found
  · intro c label c' _ known taken r round number highestN outcomes after prepares
    have event := Cluster.step_event taken
    rcases event.rounds after with @⟨old, found, step, same⟩ | ⟨_, fresh⟩
    · rw [prepares] at step
      generalize phase : RoundPhase.preparing number highestN outcomes = next at step
      cases step with
      | same =>
          obtain ⟨short, each⟩ := known found phase.symm
          refine ⟨short, fun k promise heard => ?_⟩
          obtain ⟨i, place, member⟩ := each k promise heard
          exact ⟨i, place, event.sent member⟩
      | prepares waits free =>
          cases phase
          exact ⟨Nat.zero_le n, fun k promise heard => by cases heard⟩
      | @hears _ _ earlier outcome before continues received =>
          cases phase
          obtain ⟨short, each⟩ := known found before
          have room : earlier.length ≠ n := by
            intro full
            simp [prepareDone, full] at continues
          refine ⟨by rw [List.length_append, List.length_singleton]; omega, ?_⟩
          intro k promise heard
          by_cases inside : k < earlier.length
          · rw [List.getElem?_append_left inside] at heard
            obtain ⟨i, place, member⟩ := each k promise heard
            exact ⟨i, place, event.sent member⟩
          · rw [List.getElem?_append_right (by omega), List.getElem?_singleton] at heard
            split at heard
            next last =>
              obtain ⟨i, place, member⟩ := received promise (Option.some.inj heard)
              exact ⟨i, by omega, event.sent member⟩
            · cases heard
      | _ => cases phase
    · rw [fresh.waits] at prepares
      cases prepares

/-- A round moves on from waiting once, so it cannot wait after it has called a peer. -/
theorem PhaseStep.not_waiting {c : Cluster n} {label : Label n} {r : Nat} {round : Round n}
    {phase : RoundPhase n} (step : PhaseStep c label r round phase) (moved : round.phase ≠ .waiting) :
    phase ≠ .waiting := by
  cases step with
  | same => exact moved
  | _ => simp

theorem prepareRequest_round {c : Cluster n} (reached : c.Reached) {r : Nat} {i : Fin n}
    {request : PrepareRequest} (member : .prepareRequest r i request ∈ c.msgs) :
    ∃ round, c.rounds[r]? = some round ∧ request.seq = round.seq ∧ round.phase ≠ .waiting := by
  revert member
  revert request i r
  refine @reachable_invariant _ _ _ _ c (fun c => ∀ {r : Nat} {i : Fin n} {request : PrepareRequest},
    .prepareRequest r i request ∈ c.msgs → ∃ round, c.rounds[r]? = some round ∧
      request.seq = round.seq ∧ round.phase ≠ .waiting) ?_ ?_ reached
  · intro r i request member
    cases member
  · intro c label c' _ known taken r i request member
    have event := Cluster.step_event taken
    obtain ⟨new, added, fresh⟩ := event.msgs
    rw [added] at member
    rcases List.mem_append.mp member with before | sending
    · obtain ⟨round, found, seq, moved⟩ := known before
      obtain ⟨phase, after, step⟩ := event.rounds_kept found
      exact ⟨_, after, seq, step.not_waiting moved⟩
    · exact fresh _ sending

/-- What a promise for a slot says about the votes of its sender. -/
structure Promise.Sound (promise : Promise) (c : Cluster n) (i : Fin n) (seq : Int) : Prop where
  positive : 0 ≤ promise.response.nA
  bound : promise.response.nA ≤ (c.servers i).view
  silent : promise.lastVote = none → promise.response.vA = ""
  latest : ∀ last, promise.lastVote = some last →
    last ≤ promise.response.nA ∧ Voted c i seq last promise.response.vA
  greatest : ∀ view value, Voted c i seq view value → view < promise.response.nA →
    ∃ last, promise.lastVote = some last ∧ view ≤ last

/-- A promise stays sound, since a later vote is in a view that the sender had not passed. -/
theorem Promise.Sound.step {promise : Promise} {c c' : Cluster n} {label : Label n} {i : Fin n}
    {seq : Int} (sound : promise.Sound c i seq) (event : Event c label c') :
    promise.Sound c' i seq where
  positive := sound.positive
  bound := sound.bound.trans (event.servers i).view_mono
  silent := sound.silent
  latest last reported :=
    ⟨(sound.latest last reported).1, (sound.latest last reported).2.step event⟩
  greatest view value voted below := by
    rcases event.voted_cases voted with earlier | ⟨_, accepted⟩
    · exact sound.greatest view value earlier below
    · have allowed := accepted.allowed
      have bound := sound.bound
      dsimp only at allowed
      omega

/-- A server's promise reports its last vote. -/
theorem promise_sound {c : Cluster n} (reached : c.Reached) {i : Fin n} {request : PrepareRequest}
    {promise : Promise} (replied : ((c.servers i).prepare i request).2 = .ok promise.response)
    (last : promise.lastVote = (lastVote c.msgs i request.seq).map Prod.fst) :
    promise.Sound c i request.seq := by
  obtain ⟨nA, vA, _, _⟩ := PaxosImpl.prepare_reply replied
  have is := lastVoteIs_lastVote reached i request.seq
  have positive : 0 ≤ promise.response.nA := by
    rw [nA]
    exact view_nonneg reached i
  rcases vote : lastVote c.msgs i request.seq with _ | ⟨view, text⟩
  · rw [vote] at is last
    refine ⟨positive, le_of_eq nA, fun _ => vA.trans is.1, ?_, ?_⟩
    · intro other reported
      rw [last] at reported
      cases reported
    · intro other value voted
      exact absurd voted (is.2 other value)
  · rw [vote] at is last
    obtain ⟨same, voted, greatest⟩ := is
    refine ⟨positive, le_of_eq nA, ?_, ?_, ?_⟩
    · intro missing
      rw [last] at missing
      cases missing
    · intro other reported
      rw [last] at reported
      cases reported
      rw [nA, vA, same]
      exact ⟨(Voted.bounded reached voted).1, voted⟩
    · intro other value earlier _
      exact ⟨view, last, greatest other value earlier⟩

theorem prepareReply_round {c : Cluster n} (reached : c.Reached) {r : Nat} {i : Fin n}
    {promise : Promise} (member : .prepareReply r i promise ∈ c.msgs) :
    ∃ round, c.rounds[r]? = some round ∧ round.phase ≠ .waiting ∧ promise.Sound c i round.seq := by
  revert member
  revert promise i r
  refine @reachable_invariant _ _ _ _ c (fun c => ∀ {r : Nat} {i : Fin n} {promise : Promise},
    .prepareReply r i promise ∈ c.msgs → ∃ round, c.rounds[r]? = some round ∧
      round.phase ≠ .waiting ∧ promise.Sound c i round.seq) ?_ ?_ reached
  · intro r i promise member
    cases member
  · intro c label c' before known taken r i promise member
    have event := Cluster.step_event taken
    obtain ⟨new, added, fresh⟩ := event.msgs
    rw [added] at member
    rcases List.mem_append.mp member with earlier | sending
    · obtain ⟨round, found, moved, sound⟩ := known earlier
      obtain ⟨phase, after, step⟩ := event.rounds_kept found
      exact ⟨_, after, step.not_waiting moved, sound.step event⟩
    · obtain ⟨request, asked, replied, last⟩ := fresh _ sending
      obtain ⟨round, found, seq, moved⟩ := prepareRequest_round before asked
      obtain ⟨phase, after, step⟩ := event.rounds_kept found
      have sound := promise_sound before replied last
      rw [seq] at sound
      exact ⟨_, after, step.not_waiting moved, sound.step event⟩

/-- A round that takes the slot's mutex found every other round of the slot without it. -/
theorem PhaseStep.takes_slot {c : Cluster n} {label : Label n} {r : Nat} {round : Round n}
    {phase : RoundPhase n} (step : PhaseStep c label r round phase)
    (holds : ({ round with phase } : Round n).holdsSlot) :
    round.holdsSlot ∨ c.slotFree round.server round.seq := by
  unfold Round.holdsSlot at holds ⊢
  cases step with
  | same => exact .inl holds
  | prepares waits free => exact .inr free
  | proposes proposed =>
      cases proposed with
      | skips skips free => exact .inr free
      | prepared prepares => exact .inl (by rw [prepares])
  | hears prepares => exact .inl (by rw [prepares])
  | counts accepts => exact .inl (by rw [accepts])
  | learns learned =>
      cases learned with
      | reported prepares => exact .inl (by rw [prepares])
      | accepted accepts => exact .inl (by rw [accepts])
  | forwards prepares => exact .inl (by rw [prepares])
  | ends final => cases holds

theorem slotFree_not_holds {c : Cluster n} {i : Fin n} {seq : Int} (free : c.slotFree i seq)
    {r : Nat} {round : Round n} (found : c.rounds[r]? = some round) (server : round.server = i)
    (slot : round.seq = seq) : round.holdsSlot = false := by
  unfold Cluster.slotFree at free
  have each := List.all_eq_true.mp free round (List.mem_of_getElem? found)
  simpa [server, slot] using each

/-- At most one round of a server holds the mutex of a slot. -/
theorem slot_mutex {c : Cluster n} (reached : c.Reached) {r s : Nat} {first second : Round n}
    (one : c.rounds[r]? = some first) (two : c.rounds[s]? = some second)
    (server : first.server = second.server) (slot : first.seq = second.seq)
    (holds : first.holdsSlot) (holds' : second.holdsSlot) : r = s := by
  revert one two server slot holds holds'
  revert first second r s
  refine @reachable_invariant _ _ _ _ c (fun c => ∀ {r s : Nat} {first second : Round n},
    c.rounds[r]? = some first → c.rounds[s]? = some second → first.server = second.server →
    first.seq = second.seq → first.holdsSlot → second.holdsSlot → r = s) ?_ ?_ reached
  · intro r s first second one
    cases one
  · intro c label c' _ mutex taken r s first second one two server slot holds holds'
    have event := Cluster.step_event taken
    obtain ⟨only, alone⟩ := event.rounds_alone
    -- the round that did not move held the slot before, so the other one cannot have taken it
    have settled {a b : Nat} {still moved : Round n} (unmoved : a ≠ only)
        (here : c'.rounds[a]? = some still) (there : c'.rounds[b]? = some moved)
        (server : still.server = moved.server) (slot : still.seq = moved.seq)
        (held : still.holdsSlot) (taken : moved.holdsSlot) : a = b := by
      rcases event.rounds here with @⟨old, found, _, _⟩ | ⟨_, fresh⟩
      · have same := alone a old unmoved found
        rw [here] at same
        cases same
        rcases event.rounds there with @⟨before, earlier, step, equal⟩ | ⟨_, fresh⟩
        · rw [equal] at server slot taken
          rcases step.takes_slot taken with already | free
          · exact mutex found earlier server slot held already
          · have released := slotFree_not_holds free found server slot
            rw [released] at held
            cases held
        · unfold Round.holdsSlot at taken
          rw [fresh.waits] at taken
          cases taken
      · unfold Round.holdsSlot at held
        rw [fresh.waits] at held
        cases held
    by_cases unmoved : r = only
    · by_cases both : s = only
      · rw [unmoved, both]
      · exact (settled both two one server.symm slot.symm holds' holds).symm
    · exact settled unmoved one two server slot holds holds'

/-- No server ever reports a done slot, since every done entry keeps its initial value. -/
theorem nothing_done {c : Cluster n} (reached : c.Reached) :
    (∀ i, ∀ entry ∈ (c.servers i).done, entry = -1) ∧
    (∀ b i request, .heartbeatRequest b i request ∈ c.msgs → ∀ entry ∈ request.done, entry = -1) ∧
    ∀ (b : Nat) (beat : Beat n), c.beats[b]? = some beat → ∀ entry ∈ beat.done, entry = -1 := by
  refine @reachable_invariant _ _ _ _ c (fun c => (∀ i, ∀ entry ∈ (c.servers i).done, entry = -1) ∧
    (∀ b i request, .heartbeatRequest b i request ∈ c.msgs → ∀ entry ∈ request.done, entry = -1) ∧
    ∀ (b : Nat) (beat : Beat n), c.beats[b]? = some beat → ∀ entry ∈ beat.done, entry = -1) ?_ ?_ reached
  · refine ⟨fun i entry member => List.eq_of_mem_replicate member, ?_, ?_⟩
    · intro b i request member
      cases member
    · intro b beat found
      cases found
  · rintro c label c' _ ⟨servers, requests, beats⟩ taken
    have event := Cluster.step_event taken
    refine ⟨?_, ?_, ?_⟩
    · intro i
      rcases event.servers i with ⟨_, same | ⟨b, request, sent, same⟩⟩ | ⟨_, accepted, _, _⟩ |
        ⟨_, self, _, _, won, moved⟩
      · rw [same]
        exact servers i
      · rw [same]
        exact requests b i request sent
      · rw [accepted.done]
        exact servers i
      · subst self
        rw [moved, (elects_of_won won).done]
        exact servers _
    · intro b i request member
      obtain ⟨new, added, fresh⟩ := event.msgs
      rw [added] at member
      rcases List.mem_append.mp member with before | sending
      · exact requests b i request before
      · obtain ⟨beat, found, _, done⟩ := fresh _ sending
        intro entry held
        rw [done] at held
        rcases List.mem_append.mp held with early | own
        · exact beats b beat found entry early
        · exact servers beat.server entry own
    · intro b beat after entry held
      rcases event.beats after with ⟨_, done⟩ | @⟨old, found, _, done | done⟩
      · rw [done] at held
        cases held
      · rw [done] at held
        exact beats b old found entry held
      · rw [done] at held
        rcases List.mem_append.mp held with early | own
        · exact beats b old found entry early
        · exact servers old.server entry own

theorem latestDone_eq {c : Cluster n} (reached : c.Reached) (i : Fin n) :
    (c.servers i).latestDone i = -1 := by
  have each := (nothing_done reached).1 i
  unfold PaxosImpl.latestDone
  rw [List.getD_eq_getElem?_getD]
  rcases found : (c.servers i).done[i.val]? with _ | entry
  · rfl
  · exact each entry (List.mem_of_getElem? found)

theorem acceptReply_done {c : Cluster n} (reached : c.Reached) {r : Nat} {i : Fin n}
    {request : AcceptRequest} {response : AcceptResponse}
    (member : .acceptReply r i request response ∈ c.msgs) : response.latestDone = -1 := by
  revert member
  revert response request i r
  refine @reachable_invariant _ _ _ _ c (fun c => ∀ {r : Nat} {i : Fin n} {request : AcceptRequest}
    {response : AcceptResponse}, .acceptReply r i request response ∈ c.msgs →
      response.latestDone = -1) ?_ ?_ reached
  · intro r i request response member
    cases member
  · intro c label c' before done taken r i request response member
    obtain ⟨new, added, fresh⟩ := (Cluster.step_event taken).msgs
    rw [added] at member
    rcases List.mem_append.mp member with earlier | sending
    · exact done earlier
    · rw [(PaxosImpl.accept_reply (fresh _ sending).2.1).1]
      exact latestDone_eq before i

end Chubby.Paxos
