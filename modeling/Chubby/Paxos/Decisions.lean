/-
This file gives the condition on the steps of a run under which decided values are chosen ones.
-/

import Chubby.Paxos.FastPath
import Chubby.Paxos.OneValue
import Chubby.Paxos.Sources

namespace Chubby.Paxos

open Chubby.Library

variable {n : Nat}

/-- The message is an OK promise of the server for the slot to a round of a greater view. -/
def Cluster.isPromiseAbove (c : Cluster n) (i : Fin n) (seq view : Int) : Msg n → Bool
  | .prepareReply s j promise => j = i && promise.response.status = .ok &&
      (c.rounds[s]?).any fun round => round.seq = seq && view < round.myView
  | _ => false

/-- The server answered a Prepare of a round with a greater view for the slot with OK. -/
def PromisedAbove (c : Cluster n) (i : Fin n) (seq view : Int) : Prop :=
  ∃ message ∈ c.msgs, c.isPromiseAbove i seq view message

instance (c : Cluster n) (i : Fin n) (seq view : Int) : Decidable (PromisedAbove c i seq view) :=
  inferInstanceAs (Decidable (∃ message ∈ c.msgs, _))

def Promise.isOk (outcome : Option Promise) : Bool := outcome.any (·.response.status = .ok)

/-- No OK promise reports a vote in a greater view than the kept one. -/
def LatestKept (outcomes : List (Option Promise)) : Prop :=
  ∀ outcome ∈ outcomes, ∀ promise ∈ outcome, promise.response.status = .ok →
    ∀ vote ∈ promise.lastVote,
      ((keptReply Promise.response outcomes).bind Promise.lastVote).any (vote ≤ ·) = true

instance (outcomes : List (Option Promise)) : Decidable (LatestKept outcomes) :=
  inferInstanceAs (Decidable (∀ outcome ∈ outcomes, _))

/-- A skip is in view zero or after a won election, and repeats the value of its ballot. -/
def SoundSkip (c : Cluster n) (round : Round n) : Prop :=
  round.v ≠ "" ∧ (round.myView = 0 ∨ Won c round.server round.myView) ∧ Repeats c round round.v

/-- The accept phase follows a majority of promises, of which the kept one has the latest vote. -/
def SoundPrepare (round : Round n) (outcomes : List (Option Promise)) : Prop :=
  round.v ≠ "" ∧ n / 2 < outcomes.countP Promise.isOk ∧ LatestKept outcomes

/-- The learn phase follows a majority of accepts, unless a reply reports a decision. -/
def SoundAccepts (round : Round n) : Prop :=
  match round.phase with
  | .accepting _ outcomes => isDecidedAcc round.seq (acceptOutcomes outcomes) = false →
      n / 2 < acceptMajorityCount (acceptOutcomes outcomes)
  | _ => True

/-- A server that takes an Accept has not promised the slot to a greater view. -/
def SoundDelivery (c : Cluster n) : Msg n → Prop
  | .acceptRequest _ i request => (c.servers i).view ≤ request.view →
      ¬ PromisedAbove c i request.seq request.view
  | _ => True

instance (c : Cluster n) (round : Round n) : Decidable (SoundSkip c round) :=
  inferInstanceAs (Decidable (_ ∧ _ ∧ _))

instance (round : Round n) (outcomes : List (Option Promise)) :
    Decidable (SoundPrepare round outcomes) := inferInstanceAs (Decidable (_ ∧ _ ∧ _))

instance (round : Round n) : Decidable (SoundAccepts round) := by
  unfold SoundAccepts
  split <;> infer_instance

instance (c : Cluster n) (message : Msg n) : Decidable (SoundDelivery c message) := by
  unfold SoundDelivery
  split <;> infer_instance

/-- The step avoids every place where the code goes on without what its quorums require. -/
def SoundStep (c : Cluster n) : Label n → Prop
  | .begin r => ∀ round ∈ c.rounds[r]?, c.skipsPrepare round → SoundSkip c round
  | .propose r => ∀ round ∈ c.rounds[r]?, ∀ outcomes ∈ round.prepared, SoundPrepare round outcomes
  | .conclude r => ∀ round ∈ c.rounds[r]?, SoundAccepts round
  | .deliver k => ∀ message ∈ c.msgs[k]?, SoundDelivery c message
  | _ => True

instance (c : Cluster n) : (label : Label n) → Decidable (SoundStep c label)
  | .begin r => inferInstanceAs (Decidable (∀ round ∈ c.rounds[r]?, _))
  | .propose r => inferInstanceAs (Decidable (∀ round ∈ c.rounds[r]?, _))
  | .conclude r => inferInstanceAs (Decidable (∀ round ∈ c.rounds[r]?, _))
  | .deliver k => inferInstanceAs (Decidable (∀ message ∈ c.msgs[k]?, _))
  | .start _ _ _ | .finishLearn _ | .forward _ | .forwardReturns _ | .receive _ | .prepareFails _
  | .acceptFails _ _ | .electFails _ | .beatFails _ | .detect _ | .quietEnds _
  | .concludeElection _ | .beat _ | .sendBeat _ => isTrue trivial

/-- Some run of sound steps leads to the cluster. -/
def Cluster.SoundlyReached (c : Cluster n) : Prop :=
  GuardedReachable Cluster.step SoundStep (Cluster.initial n) c

/-- The votes of one slot; a server closes a view by passing it or by a promise above it. -/
def ballots (c : Cluster n) (seq : Int) : Voting (Fin n) Int String where
  votes i view value := Voted c i seq view value
  closed i view := view < (c.servers i).view ∨ PromisedAbove c i seq view

/-- A value that a majority accepted for the slot in some view. -/
def Known (c : Cluster n) (seq : Int) (value : String) : Prop :=
  ∃ view, (ballots c seq).Chosen view value

theorem promisedAbove_of_reply {c : Cluster n} {s : Nat} {i : Fin n} {promise : Promise}
    (member : .prepareReply s i promise ∈ c.msgs) (ok : promise.response.status = .ok)
    {round : Round n} (found : c.rounds[s]? = some round) {view : Int} (below : view < round.myView) :
    PromisedAbove c i round.seq view :=
  ⟨_, member, by simp [Cluster.isPromiseAbove, ok, found, below]⟩

theorem PromisedAbove.step {c c' : Cluster n} {label : Label n} (event : Event c label c') {i : Fin n}
    {seq view : Int} (promised : PromisedAbove c i seq view) : PromisedAbove c' i seq view := by
  obtain ⟨message, member, above⟩ := promised
  refine ⟨message, event.sent member, ?_⟩
  cases message with
  | prepareReply s j promise =>
      simp only [Cluster.isPromiseAbove, Bool.and_eq_true, Option.any_eq_true] at above ⊢
      obtain ⟨ok, round, found, higher⟩ := above
      obtain ⟨phase, after, _⟩ := event.rounds_kept found
      exact ⟨ok, _, after, higher⟩
  | _ => cases above

theorem Event.ballots_closing {c c' : Cluster n} {label : Label n} (event : Event c label c')
    {seq : Int} (i : Fin n) (view : Int) (closed : (ballots c seq).closed i view) :
    (ballots c' seq).closed i view := by
  rcases closed with passed | promised
  · exact .inl (lt_of_lt_of_le passed (event.servers i).view_mono)
  · exact .inr (promised.step event)

/-- A sound step does not let a server vote in a view that it has closed. -/
theorem Event.ballots_respects {c c' : Cluster n} {label : Label n} (event : Event c label c')
    (sound : SoundStep c label) {seq : Int} (i : Fin n) (view : Int) (value : String)
    (voted : (ballots c' seq).votes i view value) (closed : (ballots c seq).closed i view) :
    (ballots c seq).votes i view value := by
  rcases event.voted_cases voted with earlier | ⟨⟨k, r, rfl, sent⟩, accepted⟩
  · exact earlier
  · rcases closed with passed | promised
    · exact absurd accepted.allowed (not_le.mpr passed)
    · exact absurd promised (sound _ sent accepted.allowed)

theorem chosen_step {c c' : Cluster n} {label : Label n} (event : Event c label c') {seq view : Int}
    {value : String} (chosen : (ballots c seq).Chosen view value) :
    (ballots c' seq).Chosen view value :=
  chosen.stable fun _ _ _ voted => Voted.step event voted

theorem Known.step {c c' : Cluster n} {label : Label n} (event : Event c label c') {seq : Int}
    {value : String} (known : Known c seq value) : Known c' seq value := by
  obtain ⟨view, chosen⟩ := known
  exact ⟨view, chosen_step event chosen⟩

/-- An OK promise reports the latest vote of its sender below the view of its round. -/
theorem promise_covers {c : Cluster n} (reached : c.SoundlyReached) {s : Nat} {i : Fin n}
    {promise : Promise} (member : .prepareReply s i promise ∈ c.msgs)
    (ok : promise.response.status = .ok) {round : Round n} (found : c.rounds[s]? = some round)
    {view : Int} {value : String} (voted : Voted c i round.seq view value)
    (below : view < round.myView) : ∃ last, promise.lastVote = some last ∧ view ≤ last := by
  revert member ok found voted below
  revert value view round promise i s
  refine @guarded_invariant _ _ _ _ _ _ (fun c => ∀ {s : Nat} {i : Fin n} {promise : Promise}
    {round : Round n} {view : Int} {value : String}, .prepareReply s i promise ∈ c.msgs →
    promise.response.status = .ok → c.rounds[s]? = some round → Voted c i round.seq view value →
    view < round.myView → ∃ last, promise.lastVote = some last ∧ view ≤ last) ?_ ?_ reached
  · intro s i promise round view value member
    cases member
  · intro c label c' before covers sound taken s i promise round view value member ok after voted below
    have event := Cluster.step_event taken
    obtain ⟨new, added, fresh⟩ := event.msgs
    rw [added] at member
    rcases List.mem_append.mp member with earlier | sending
    · obtain ⟨old, found, _, _⟩ := prepareReply_round before.reachable earlier
      obtain ⟨phase, moved, _⟩ := event.rounds_kept found
      rw [moved] at after
      cases after
      have closed : (ballots c old.seq).closed i view :=
        .inr (promisedAbove_of_reply earlier ok found below)
      exact covers earlier ok found (event.ballots_respects sound i view value voted closed) below
    · obtain ⟨request, asked, replied, last⟩ := fresh _ sending
      obtain ⟨old, found, seq, _⟩ := prepareRequest_round before.reachable asked
      obtain ⟨phase, moved, _⟩ := event.rounds_kept found
      rw [moved] at after
      cases after
      -- one delivery does not send both a promise and a vote
      have earlier : Voted c i request.seq view value := by
        rw [seq]
        rcases event.votes with ⟨votes, quiet, _⟩ | ⟨_, _, _, _, replies, _⟩
        · obtain ⟨t, response, given, accepted⟩ := voted
          rw [votes] at given
          refine ⟨t, response, (List.mem_append.mp given).resolve_right fun late => ?_, accepted⟩
          have refused := quiet _ late
          simp [Msg.isVote, accepted] at refused
        · rw [replies] at added
          rw [← List.append_cancel_left added] at sending
          cases List.mem_singleton.mp sending
      have is := lastVoteIs_lastVote before.reachable i request.seq
      rcases vote : lastVote c.msgs i request.seq with _ | ⟨latest, text⟩
      · rw [vote] at is
        exact absurd earlier (is.2 view value)
      · rw [vote] at is last
        exact ⟨latest, last, is.2.2 view value earlier⟩

/-- Every decided value, and every value offered as decided, is one that a majority accepted. -/
structure Backed (c : Cluster n) : Prop where
  servers : ∀ i seq value, (c.servers i).decidedValue seq = some value → Known c seq value
  learnRequests : ∀ r i request, .learnRequest r i request ∈ c.msgs → Known c request.seq request.value
  heartbeatRequests : ∀ b i request, .heartbeatRequest b i request ∈ c.msgs →
    ∀ seq slot, request.slots seq = some slot → Known c seq slot.value
  heartbeatReplies : ∀ b i response, .heartbeatReply b i response ∈ c.msgs →
    ∀ seq slot, response.slots seq = some slot → Known c seq slot.value
  beats : ∀ (b : Nat) (beat : Beat n), c.beats[b]? = some beat →
    ∀ seq slot, beat.slots seq = some slot → Known c seq slot.value
  prepareReplies : ∀ r i promise, .prepareReply r i promise ∈ c.msgs →
    ∀ round : Round n, c.rounds[r]? = some round → promise.response.value ≠ "" →
      Known c round.seq promise.response.value
  acceptReplies : ∀ r i request response, .acceptReply r i request response ∈ c.msgs →
    response.value ≠ "" → Known c request.seq response.value

theorem backed_initial : Backed (Cluster.initial n) where
  servers i seq value decided := by cases decided
  learnRequests r i request member := by cases member
  heartbeatRequests b i request member := by cases member
  heartbeatReplies b i response member := by cases member
  beats b beat found := by cases found
  prepareReplies r i promise member := by cases member
  acceptReplies r i request response member := by cases member

theorem Backed.sourced {c : Cluster n} (backed : Backed c) : Sourced (Known c) c where
  servers := backed.servers
  learnRequests := backed.learnRequests
  heartbeatRequests := backed.heartbeatRequests
  heartbeatReplies := backed.heartbeatReplies
  beats := backed.beats
  prepareReplies := backed.prepareReplies

/-- A majority of OK outcomes is a majority of votes for the round's value. -/
theorem chosen_of_accepts {c : Cluster n} (reached : c.Reached) {r : Nat} {round : Round n}
    {value : String} {outcomes : Fin n → Option (Option AcceptResponse)}
    (found : c.rounds[r]? = some round) (accepts : round.phase = .accepting value outcomes)
    (many : n / 2 < acceptMajorityCount (acceptOutcomes outcomes)) :
    (ballots c round.seq).Chosen round.myView value := by
  have length : (acceptOutcomes outcomes).length = (List.finRange n).length := by
    simp [acceptOutcomes]
  obtain ⟨voters, card, each⟩ := exists_answered (List.nodup_finRange n) (le_of_eq length)
    fun outcome : Option AcceptResponse => outcome.any (·.status = .ok)
  refine ⟨voters, majority_of_half_lt ?_, fun i member => ?_⟩
  · rw [card, Fintype.card_fin]
    exact many
  · obtain ⟨k, outcome, place, heard, ok⟩ := each i member
    rw [acceptOutcomes, List.getElem?_map, place, Option.map_some] at heard
    rcases replied : outcomes i with _ | _ | response
    · rw [replied] at heard
      cases heard
      cases ok
    · rw [replied] at heard
      cases heard
      cases ok
    · rw [replied] at heard
      cases heard
      exact ⟨r, response, accepting_outcome reached found accepts replied, by simpa using ok⟩

/-- A round enters its learn phase only with a value that a majority accepted. -/
theorem Learns.known {c : Cluster n} (large : 1 < n) (reached : c.Reached) (backed : Backed c)
    {label : Label n} (sound : SoundStep c label) {r : Nat} {round : Round n} {value : String}
    (found : c.rounds[r]? = some round) (learns : Learns r round label value) :
    Known c round.seq value := by
  cases learns with
  | reported prepares chosen =>
      rcases afterPrepare_learn (faithful_id _) chosen with small | ⟨text, response, member, ok, same⟩
      · omega
      · rw [← same] at text ⊢
        exact backed.sourced.promised reached found prepares member text
  | accepted accepts unreported =>
      have many := sound round found
      unfold SoundAccepts at many
      rw [accepts] at many
      exact ⟨round.myView, chosen_of_accepts reached found accepts (many unreported)⟩

theorem Backed.step {c c' : Cluster n} (large : 1 < n) (reached : c.Reached) {label : Label n}
    (backed : Backed c) (sound : SoundStep c label) (event : Event c label c') : Backed c' := by
  have sourced : Sourced (Known c') c' := by
    apply (backed.sourced.step reached event ?_).mono fun seq value known => Known.step event known
    intro r round value found learns
    exact learns.known large reached backed sound found
  refine ⟨sourced.servers, sourced.learnRequests, sourced.heartbeatRequests,
    sourced.heartbeatReplies, sourced.beats, sourced.prepareReplies, ?_⟩
  intro r i request response member text
  rcases event.fresh_of_mem member with before | ⟨_, replied, _⟩
  · exact (backed.acceptReplies r i request response before text).step event
  · exact (backed.servers i _ _ ((PaxosImpl.accept_reply replied).2 text)).step event

theorem backed {c : Cluster n} (large : 1 < n) (reached : c.SoundlyReached) : Backed c := by
  refine guarded_invariant backed_initial ?_ reached
  intro state label next before holds sound taken
  exact holds.step large before.reachable sound (Cluster.step_event taken)

end Chubby.Paxos
