/-
This file follows one proposal that runs alone and whose calls are all delivered and answered.
-/

import Chubby.Library.Ballots
import Chubby.Paxos.Calls
import Chubby.Paxos.PrepareLoop
import Chubby.Paxos.SlotEffects

namespace Chubby.Paxos

open Chubby.Library

variable {n : Nat}

instance (phase : RoundPhase n) : Decidable (phase = .finished) :=
  match phase with
  | .finished => isTrue rfl
  | .waiting | .preparing _ _ _ | .accepting _ _ | .learning _ | .forwarding => isFalse (by simp)

/-- Every thread that runs a proposal or hands one over has returned. -/
def Cluster.Idle (c : Cluster n) : Prop :=
  (∀ round ∈ c.rounds, round.phase = .finished) ∧ ∀ forward ∈ c.forwards, forward.phase = .finished

instance (c : Cluster n) : Decidable c.Idle := inferInstanceAs (Decidable (_ ∧ _))

/-- All servers are in the view, whose leader is trusted and alive, and no proposal runs. -/
structure Cluster.Calm (c : Cluster n) (me : Fin n) (view : Int) : Prop where
  reached : c.Reached
  idle : c.Idle
  views : ∀ i, (c.servers i).view = view
  leader : leads me view
  trusted : (c.servers me).leaderDead = false
  alive : (c.servers me).isDead = false

/-- The calls of the round, of the elections and of the heartbeats; every other call is one of another
proposal. -/
def Msg.isBeside (r : Nat) : Msg n → Bool
  | .prepareRequest q _ _ | .acceptRequest q _ _ | .learnRequest q _ _ => q = r
  | .forwardRequest _ _ _ _ => false
  | _ => true

def Msg.isLearnOf (r : Nat) : Msg n → Bool
  | .learnRequest q _ _ => q = r
  | _ => false

/-- The cluster with the calls that were delivered since the proposal started. -/
structure Attended (n : Nat) where
  cluster : Cluster n
  delivered : List Nat

namespace Attended

def note (delivered : List Nat) : Label n → List Nat
  | .deliver k => k :: delivered
  | _ => delivered

def step (s : Attended n) (label : Label n) : Option (Attended n) :=
  (s.cluster.step label).map fun cluster => ⟨cluster, note s.delivered label⟩

/-- No other proposal starts, no call of the round fails, and its Learns are joined after they were
delivered. -/
def Serves (r : Nat) (s : Attended n) : Label n → Prop
  | .start _ _ _ | .prepareFails _ | .acceptFails _ _ => False
  | .deliver k => k ∉ s.delivered ∧ ∀ message ∈ s.cluster.msgs[k]?, message.isBeside r = true
  | .finishLearn _ => ∀ k, k < s.cluster.msgs.length →
      (s.cluster.msgs[k]?).any (Msg.isLearnOf r) = true → k ∈ s.delivered
  | _ => True

instance (r : Nat) (s : Attended n) : (label : Label n) → Decidable (s.Serves r label)
  | .start _ _ _ | .prepareFails _ | .acceptFails _ _ => isFalse id
  | .deliver k => inferInstanceAs (Decidable (k ∉ s.delivered ∧ ∀ message ∈ s.cluster.msgs[k]?, _))
  | .finishLearn _ => inferInstanceAs (Decidable (∀ k, k < s.cluster.msgs.length → _))
  | .begin _ | .propose _ | .conclude _ | .forward _ | .forwardReturns _ | .receive _ | .electFails _
  | .beatFails _ | .detect _ | .quietEnds _ | .concludeElection _ | .beat _ | .sendBeat _ => isTrue trivial

/-- A step of a fault-free run also leaves every server in its view. -/
def FaultFree (r : Nat) (s : Attended n) (label : Label n) : Prop :=
  s.Serves r label ∧ ∀ next ∈ s.cluster.step label, ∀ i,
    (next.servers i).view = (s.cluster.servers i).view

instance (r : Nat) (s : Attended n) (label : Label n) : Decidable (s.FaultFree r label) :=
  inferInstanceAs (Decidable (s.Serves r label ∧ ∀ next ∈ s.cluster.step label, _))

/-- The thread of the round has ended. -/
def Returned (r : Nat) (s : Attended n) : Prop :=
  ∀ round ∈ s.cluster.rounds[r]?, round.phase = .finished

instance (r : Nat) (s : Attended n) : Decidable (s.Returned r) :=
  inferInstanceAs (Decidable (∀ round ∈ s.cluster.rounds[r]?, _))

end Attended

/-- The labels of the elections, the failure detectors and the heartbeats. -/
def Label.isBackground : Label n → Bool
  | .electFails _ | .beatFails _ | .detect _ | .quietEnds _ | .concludeElection _ | .beat _
  | .sendBeat _ => true
  | _ => false

/-- What a step of a fault-free run does to the threads: only the round moves. -/
inductive RoundMove (c : Cluster n) (label : Label n) (c' : Cluster n) (r : Nat) (round : Round n) :
    Prop where
  | rests (other : label ≠ .begin r) (rounds : c'.rounds = c.rounds) (forwards : c'.forwards = c.forwards)
  | closes (named : label = .begin r) (waits : round.phase = .waiting)
      (settled : ((c.servers round.server).slotAt round.seq).status = .decided ∨
        (c.servers round.server).isDead = true)
      (moved : c' = c.setPhase r round .finished)
  | prepares (named : label = .begin r) (waits : round.phase = .waiting)
      (undecided : ((c.servers round.server).slotAt round.seq).status ≠ .decided)
      (seen : round.seq ≤ (c.servers round.server).highestAcceptedSeq)
      (moved : c' = c.enterPrepare r round)
  | hears {number highestN : Int} {outcomes : List (Option Promise)} {promise : Promise} {i : Fin n}
      (prepares : round.phase = .preparing number highestN outcomes)
      (continues : prepareDone n round.v highestN outcomes = false)
      (place : i.val = outcomes.length) (received : .prepareReply r i promise ∈ c.msgs)
      (moved : c' = c.prepareOutcome r round number highestN (outcomes ++ [some promise]))
  | proposes {value : String} (proposed : Proposes c r round label value)
      (moved : c' = c.enterAccept r round value)
  | counts {value : String} {outcomes : Fin n → Option (Option AcceptResponse)} {i : Fin n}
      {request : AcceptRequest} {response : AcceptResponse}
      (accepts : round.phase = .accepting value outcomes) (fresh : outcomes i = none)
      (received : .acceptReply r i request response ∈ c.msgs)
      (moved : c' = c.setPhase r round
        (.accepting value (Function.update outcomes i (some (some response)))))
  | breaks {value : String} {outcomes : Fin n → Option (Option AcceptResponse)}
      (accepts : round.phase = .accepting value outcomes)
      (reported : isDecidedAcc round.seq (acceptOutcomes outcomes) = true)
      (moved : c' = c.setPhase r round .finished)
  | learns {value : String} (learned : Learns r round label value)
      (moved : c' = c.enterLearn r round value)
  | returns {value : String} (named : label = .finishLearn r) (learns : round.phase = .learning value)
      (moved : c' = c.setPhase r round .finished)

theorem background_rests {c c' : Cluster n} {label : Label n} (background : label.isBackground = true)
    (taken : c.step label = some c') : c'.rounds = c.rounds ∧ c'.forwards = c.forwards := by
  cases label with
  | electFails e =>
      simp only [Cluster.step, Cluster.electFails] at taken
      (repeat' split at taken) <;> cases taken
      exact ⟨rfl, rfl⟩
  | beatFails b =>
      simp only [Cluster.step, Cluster.beatFails] at taken
      (repeat' split at taken) <;> cases taken
      exact ⟨rfl, rfl⟩
  | detect i =>
      simp only [Cluster.step, Cluster.detect] at taken
      (repeat' split at taken) <;> cases taken <;> exact ⟨rfl, rfl⟩
  | quietEnds i =>
      simp only [Cluster.step, Cluster.quietEnds] at taken
      (repeat' split at taken) <;> cases taken
      exact ⟨rfl, rfl⟩
  | concludeElection e =>
      simp only [Cluster.step, Cluster.concludeElection] at taken
      (repeat' split at taken) <;> cases taken
      exact ⟨endElection_rounds _ _ _ _ _, by unfold Cluster.endElection; dsimp only; split <;> rfl⟩
  | beat i =>
      simp only [Cluster.step, Cluster.beat] at taken
      (repeat' split at taken) <;> cases taken <;> exact ⟨rfl, rfl⟩
  | sendBeat b =>
      simp only [Cluster.step, Cluster.sendBeat] at taken
      (repeat' split at taken) <;> cases taken
      exact ⟨rfl, rfl⟩
  | _ => cases background

section Moves

variable {s : Attended n} {c' : Cluster n} {r : Nat} {round : Round n}

/-- The other threads have returned, and the round finds no accepted number above its view. -/
structure Attended.Alone (s : Attended n) (r : Nat) (round : Round n) : Prop where
  found : s.cluster.rounds[r]? = some round
  others : ∀ (q : Nat) (other : Round n), s.cluster.rounds[q]? = some other → q ≠ r →
    other.phase = .finished
  forwards : ∀ forward ∈ s.cluster.forwards, forward.phase = .finished
  stays : ∀ {number highestN : Int} {outcomes : List (Option Promise)} {highestNa : Int},
    round.phase = .preparing number highestN outcomes →
      afterPrepare round.v round.myView (prepareLocals n round.v highestN outcomes) ≠ .forward highestNa

theorem Attended.Alone.own (alone : s.Alone r round) {q : Nat} {other : Round n}
    (there : s.cluster.rounds[q]? = some other) (runs : other.phase ≠ .finished) :
    q = r ∧ other = round := by
  by_cases same : q = r
  · subst same
    exact ⟨rfl, Option.some.inj (there.symm.trans alone.found)⟩
  · exact absurd (alone.others q other there same) runs

theorem begin_moves (alone : s.Alone r round) {q : Nat} (taken : s.cluster.begin q = some c') :
    RoundMove s.cluster (.begin q) c' r round := by
  unfold Cluster.begin at taken
  split at taken
  · cases taken
  next other there =>
    dsimp only at taken
    split at taken
    next waits =>
      obtain ⟨rfl, rfl⟩ := alone.own there (by simp [waits])
      split at taken
      next free =>
        split at taken
        next settled => cases taken; exact .closes rfl waits settled rfl
        next running =>
          split at taken
          · split at taken
            next seen => cases taken; exact .prepares rfl waits (not_or.mp running).1 seen rfl
            next unseen =>
              cases taken
              obtain ⟨undecided, alive⟩ := not_or.mp running
              exact .proposes (.skips ⟨waits, undecided, by simpa using alive, Int.not_le.mp unseen⟩ free) rfl
          · cases taken
      · cases taken
    · cases taken

theorem propose_moves (alone : s.Alone r round) {q : Nat} (taken : s.cluster.propose q = some c') :
    RoundMove s.cluster (.propose q) c' r round := by
  unfold Cluster.propose at taken
  split at taken
  · cases taken
  next other there =>
    split at taken
    next number highestN outcomes prepares =>
      obtain ⟨rfl, rfl⟩ := alone.own there (by simp [prepares])
      split at taken
      next done =>
        split at taken
        next highestNa chosen => exact absurd chosen (alone.stays prepares)
        next value chosen => cases taken; exact .proposes (.prepared prepares done chosen) rfl
        next value chosen =>
          split at taken
          · cases taken; exact .learns (.reported prepares chosen) rfl
          · cases taken
      · cases taken
    · cases taken

theorem conclude_moves (alone : s.Alone r round) {q : Nat} (taken : s.cluster.conclude q = some c') :
    RoundMove s.cluster (.conclude q) c' r round := by
  unfold Cluster.conclude at taken
  split at taken
  · cases taken
  next other there =>
    split at taken
    next value outcomes accepts =>
      obtain ⟨rfl, rfl⟩ := alone.own there (by simp [accepts])
      split at taken
      · unfold afterAccept at taken
        by_cases reported : isDecidedAcc other.seq (acceptOutcomes outcomes) = true
        · rw [if_pos reported] at taken
          cases taken
          exact .breaks accepts reported rfl
        · rw [if_neg reported] at taken
          dsimp only at taken
          split at taken
          · cases taken; exact .learns (.accepted accepts (by simpa using reported)) rfl
          · cases taken
      · cases taken
    · cases taken

theorem receive_moves (alone : s.Alone r round) {k : Nat} (taken : s.cluster.receive k = some c') :
    RoundMove s.cluster (.receive k) c' r round := by
  unfold Cluster.receive at taken
  split at taken
  next q i promise sent =>
    split at taken
    · cases taken
    next other there =>
      split at taken
      next number highestN outcomes prepares =>
        obtain ⟨rfl, rfl⟩ := alone.own there (by simp [prepares])
        split at taken
        next current =>
          cases taken
          exact .hears prepares (by simpa using current.2) current.1.symm (List.mem_of_getElem? sent) rfl
        · cases taken
      · cases taken
  next q i request response sent =>
    unfold Cluster.acceptOutcome at taken
    split at taken
    · cases taken
    next other there =>
      split at taken
      next value outcomes accepts =>
        obtain ⟨rfl, rfl⟩ := alone.own there (by simp [accepts])
        split at taken
        · cases taken
        next fresh =>
          cases taken
          exact .counts accepts (by simpa using fresh) (List.mem_of_getElem? sent) rfl
      · cases taken
  next e attempt i request response sent =>
    (repeat' split at taken) <;> cases taken
    exact .rests (by simp) rfl rfl
  next b i response sent =>
    (repeat' split at taken) <;> cases taken <;> exact .rests (by simp) rfl rfl
  · cases taken

theorem Attended.Alone.moves (alone : s.Alone r round) {label : Label n} (serves : s.Serves r label)
    (taken : s.cluster.step label = some c') : RoundMove s.cluster label c' r round := by
  cases label with
  | start i seq v => exact serves.elim
  | begin q => exact begin_moves alone taken
  | propose q => exact propose_moves alone taken
  | conclude q => exact conclude_moves alone taken
  | finishLearn q =>
      simp only [Cluster.step, Cluster.finishLearn] at taken
      split at taken
      · cases taken
      next other there =>
        split at taken
        next value learns =>
          obtain ⟨rfl, rfl⟩ := alone.own there (by simp [learns])
          cases taken
          exact .returns rfl learns rfl
        · cases taken
  | forward f =>
      simp only [Cluster.step, Cluster.forward] at taken
      split at taken
      · cases taken
      next forward there =>
        rw [if_neg (by simp [alone.forwards forward (List.mem_of_getElem? there)])] at taken
        cases taken
  | forwardReturns f =>
      simp only [Cluster.step, Cluster.forwardReturns] at taken
      split at taken
      · cases taken
      next forward there =>
        rw [if_neg (by simp [Cluster.mayReturn, alone.forwards forward (List.mem_of_getElem? there)])] at taken
        cases taken
  | deliver k =>
      simp only [Cluster.step, Cluster.deliver] at taken
      split at taken
      next q i request sent => split at taken <;> cases taken; exact .rests (by simp) rfl rfl
      next q i request sent => split at taken <;> cases taken; exact .rests (by simp) rfl rfl
      next q i request sent => split at taken <;> cases taken; exact .rests (by simp) rfl rfl
      next e attempt i request sent => split at taken <;> cases taken; exact .rests (by simp) rfl rfl
      next f i seq v sent => cases serves.2 _ sent
      next b i request sent => split at taken <;> cases taken; exact .rests (by simp) rfl rfl
      · cases taken
  | receive k => exact receive_moves alone taken
  | prepareFails q => exact serves.elim
  | acceptFails q peer => exact serves.elim
  | electFails _ | beatFails _ | detect _ | quietEnds _ | concludeElection _ | beat _ | sendBeat _ =>
      obtain ⟨rounds, forwards⟩ := background_rests rfl taken
      exact .rests (by simp) rounds forwards

/-- A move replaces the phase of the round at most. -/
theorem RoundMove.threads {c : Cluster n} {label : Label n} (move : RoundMove c label c' r round)
    (found : c.rounds[r]? = some round) : c'.forwards = c.forwards ∧
      ∃ phase, c'.rounds = c.rounds.set r { round with phase } ∧
        (phase = .forwarding → round.phase = .forwarding) := by
  cases move with
  | rests other rounds forwards =>
      refine ⟨forwards, round.phase, ?_, id⟩
      obtain ⟨inside, same⟩ := List.getElem?_eq_some_iff.mp found
      rw [rounds]
      show c.rounds = c.rounds.set r round
      rw [← same, List.set_getElem_self inside]
  | closes named waits settled moved => exact ⟨by rw [moved]; rfl, _, by rw [moved]; rfl, by simp⟩
  | prepares named waits undecided seen moved =>
      exact ⟨by rw [moved]; rfl, _, by rw [moved]; rfl, by simp⟩
  | hears prepares continues place received moved =>
      exact ⟨by rw [moved]; rfl, _, by rw [moved]; rfl, by simp⟩
  | proposes proposed moved => exact ⟨by rw [moved]; rfl, _, by rw [moved]; rfl, by simp⟩
  | counts accepts fresh received moved => exact ⟨by rw [moved]; rfl, _, by rw [moved]; rfl, by simp⟩
  | breaks accepts reported moved => exact ⟨by rw [moved]; rfl, _, by rw [moved]; rfl, by simp⟩
  | learns learned moved => exact ⟨by rw [moved]; rfl, _, by rw [moved]; rfl, by simp⟩
  | returns named learns moved => exact ⟨by rw [moved]; rfl, _, by rw [moved]; rfl, by simp⟩

end Moves

namespace PaxosImpl

variable {server : PaxosImpl} {me : Fin n}

theorem decided_iff {seq : Int} :
    (server.slotAt seq).status = .decided ↔ ∃ value, server.decidedValue seq = some value := by
  unfold decidedValue
  split <;> simp_all

theorem prepare_answers {request : PrepareRequest} (above : server.lowestSlot ≤ request.seq) :
    ∃ response, (server.prepare me request).2 = .ok response := by
  cases server.prepare_cases me request with
  | collected below => exact absurd above (Int.not_le.mpr below)
  | promises _ _ same | rejects _ _ same => exact ⟨_, congrArg Prod.snd same⟩

theorem accept_answers {request : AcceptRequest} (above : server.lowestSlot ≤ request.seq) :
    ∃ response, (server.accept me request).2 = .ok response := by
  cases server.accept_cases me request with
  | collected below => exact absurd above (Int.not_le.mpr below)
  | accepts _ _ same | rejects _ _ same => exact ⟨_, congrArg Prod.snd same⟩

/-- A Learn leaves an open slot decided, whatever its value parses to. -/
theorem learn_decides {request : DecideRequest} {committed : Bool}
    (above : server.lowestSlot ≤ request.seq) :
    ((server.learn me request committed).1.slotAt request.seq).status = .decided := by
  cases server.learn_cases me request committed with
  | collected below => exact absurd above (Int.not_le.mpr below)
  | settled _ decided same =>
      rw [same, touched_slotAt]
      exact decided
  | decides _ _ paxosDb same =>
      rw [same]
      show ((((server.addSlots request.seq).raiseHighestSlot request.seq).markDecided request.seq
        request.value).slotAt request.seq).status = .decided
      unfold markDecided
      rw [slotAt_setSlot_self]

end PaxosImpl

theorem Event.status_kept {c c' : Cluster n} {label : Label n} (event : Event c label c') {i : Fin n}
    {seq : Int} (decided : ((c.servers i).slotAt seq).status = .decided) :
    ((c'.servers i).slotAt seq).status = .decided := by
  obtain ⟨value, before⟩ := PaxosImpl.decided_iff.mp decided
  exact PaxosImpl.decided_iff.mpr ⟨value, event.decided_kept before⟩

/-- The call has been answered, or has decided its slot. -/
def Msg.Served (c : Cluster n) : Msg n → Prop
  | .prepareRequest r i _ => ∃ promise, .prepareReply r i promise ∈ c.msgs
  | .acceptRequest r i request => ∃ response, .acceptReply r i request response ∈ c.msgs
  | .learnRequest _ i request => ((c.servers i).slotAt request.seq).status = .decided
  | _ => True

theorem Msg.Served.mono {c c' : Cluster n} {label : Label n} (event : Event c label c') {message : Msg n}
    (served : message.Served c) : message.Served c' := by
  cases message with
  | prepareRequest r i request =>
      obtain ⟨promise, member⟩ := served
      exact ⟨promise, event.sent member⟩
  | acceptRequest r i request =>
      obtain ⟨response, member⟩ := served
      exact ⟨response, event.sent member⟩
  | learnRequest r i request => exact event.status_kept served
  | _ => trivial

/-- A delivered call of a round is answered, since no slot of a round is collected. -/
theorem served_of_delivered {c c' : Cluster n} (reached : c.Reached) {k : Nat} {message : Msg n}
    (sent : c.msgs[k]? = some message) (taken : c.step (.deliver k) = some c') : message.Served c' := by
  have event := Cluster.step_event taken
  have above {r : Nat} {round : Round n} (found : c.rounds[r]? = some round) (i : Fin n) :
      (c.servers i).lowestSlot ≤ round.seq := by
    rw [lowestSlot_zero reached i]
    exact (seq_nonneg reached).1 round (List.mem_of_getElem? found)
  cases message with
  | prepareRequest r i request =>
      obtain ⟨round, found, seq, _⟩ := prepareRequest_round reached (List.mem_of_getElem? sent)
      obtain ⟨response, replied⟩ := @PaxosImpl.prepare_answers n _ i request (seq ▸ above found i)
      simp only [Cluster.step, Cluster.deliver, sent, Option.ite_none_right_eq_some,
        Option.some.injEq] at taken
      rw [← taken.2]
      refine ⟨⟨response, (lastVote c.msgs i request.seq).map Prod.fst⟩, List.mem_append_right _ ?_⟩
      rw [replied]
      exact List.mem_singleton.mpr rfl
  | acceptRequest r i request =>
      obtain ⟨round, found, seq, _⟩ := acceptRequest_round reached (List.mem_of_getElem? sent)
      obtain ⟨response, replied⟩ := @PaxosImpl.accept_answers n _ i request (seq ▸ above found i)
      rw [deliver_accept sent taken]
      refine ⟨response, List.mem_append_right _ ?_⟩
      rw [replied]
      exact List.mem_singleton.mpr rfl
  | learnRequest r i request =>
      obtain ⟨round, found, seq, _⟩ := learnRequest_round reached (List.mem_of_getElem? sent)
      simp only [Cluster.step, Cluster.deliver, sent, Option.ite_none_right_eq_some,
        Option.some.injEq] at taken
      rw [← taken.2]
      show ((Function.update c.servers i _ i).slotAt request.seq).status = .decided
      rw [Function.update_self]
      exact PaxosImpl.learn_decides (seq ▸ above found i)
  | _ => trivial

/-- The loop adopts no view when no reply carries an accepted number above the round's view. -/
theorem afterPrepare_stays {groupSize : Nat} {v : String} {highestN myView highestNa : Int}
    {outcomes : List (Option PrepareResponse)} (view : -1 ≤ myView)
    (below : ∀ response, some response ∈ outcomes → response.nA ≤ myView) :
    afterPrepare v myView (prepareLoop id groupSize (.initial v highestN) outcomes) ≠ .forward highestNa := by
  have tracks := prepareLoop_tracks groupSize v highestN (faithful_id outcomes)
  have within : (prepareLoop id groupSize (.initial v highestN) outcomes).highestNa ≤ myView := by
    rw [tracks.highestNa]
    cases kept : keptReply id outcomes with
    | none => exact view
    | some reply => exact below reply (keptReply_mem id kept)
  unfold afterPrepare
  rw [if_neg (Int.not_lt.mpr within)]
  split <;> simp

namespace Attended

/-- The round runs alone in the view of all servers, and every delivered call of it has been served. -/
structure Running (r : Nat) (me : Fin n) (seq view : Int) (s : Attended n) : Prop where
  reached : s.cluster.Reached
  views : ∀ i, (s.cluster.servers i).view = view
  own : ∃ round, s.cluster.rounds[r]? = some round ∧ round.server = me ∧ round.seq = seq ∧
    round.myView = view ∧ round.phase ≠ .forwarding
  others : ∀ (q : Nat) (other : Round n), s.cluster.rounds[q]? = some other → q ≠ r →
    other.phase = .finished
  forwards : ∀ forward ∈ s.cluster.forwards, forward.phase = .finished
  stamps : ∀ i promise, .prepareReply r i promise ∈ s.cluster.msgs → promise.response.nA = view
  served : ∀ k ∈ s.delivered, ∃ message, s.cluster.msgs[k]? = some message ∧ message.Served s.cluster

variable {r : Nat} {me : Fin n} {seq view : Int} {s next : Attended n} {label : Label n}

theorem Running.alone (running : Running r me seq view s) {round : Round n}
    (found : s.cluster.rounds[r]? = some round) : s.Alone r round := by
  refine ⟨found, running.others, running.forwards, fun {number highestN outcomes highestNa} prepares => ?_⟩
  obtain ⟨same, there, _, _, myView, _⟩ := running.own
  rw [found] at there
  cases there
  apply afterPrepare_stays
  · have positive := view_nonneg running.reached me
    rw [running.views] at positive
    omega
  · intro response member
    obtain ⟨outcome, heard, is⟩ := List.mem_map.mp member
    cases outcome with
    | none => cases is
    | some promise =>
        cases is
        obtain ⟨k, place⟩ := List.getElem?_of_mem heard
        obtain ⟨i, _, replied⟩ := (preparing_outcome running.reached found prepares).2 k promise place
        rw [running.stamps i promise replied, myView]

theorem Running.round_seq (running : Running r me seq view s) {round : Round n}
    (found : s.cluster.rounds[r]? = some round) : round.server = me ∧ round.seq = seq := by
  obtain ⟨_, there, server, slot, _⟩ := running.own
  rw [found] at there
  cases there
  exact ⟨server, slot⟩

theorem Running.step (running : Running r me seq view s) (allowed : s.FaultFree r label)
    (taken : s.step label = some next) : Running r me seq view next := by
  obtain ⟨cluster, moved, rfl⟩ := Option.map_eq_some_iff.mp taken
  have event := Cluster.step_event moved
  obtain ⟨round, found, server, slot, myView, runs⟩ := running.own
  have move := (running.alone found).moves allowed.1 moved
  obtain ⟨forwards, phase, rounds, stays⟩ := move.threads found
  refine ⟨running.reached.step moved, fun i => ?_, ?_, fun q other there apart => ?_, ?_, ?_, ?_⟩
  · exact (allowed.2 cluster moved i).trans (running.views i)
  · refine ⟨{ round with phase }, ?_, server, slot, myView, fun hands => runs (stays hands)⟩
    show cluster.rounds[r]? = _
    rw [rounds]
    exact getElem?_set_self_of_some found
  · have before : s.cluster.rounds[q]? = some other := by
      rwa [show cluster.rounds[q]? = s.cluster.rounds[q]? by
        rw [rounds, List.getElem?_set_ne (Ne.symm apart)]] at there
    exact running.others q other before apart
  · show ∀ forward ∈ cluster.forwards, _
    rw [forwards]
    exact running.forwards
  · intro i promise member
    obtain before | ⟨k, request, _, _, replied, _⟩ := event.prepareReply_cases member
    · exact running.stamps i promise before
    · rw [(PaxosImpl.prepare_reply replied).1]
      exact running.views i
  · have kept {k : Nat} (known : k ∈ s.delivered) :
        ∃ message, cluster.msgs[k]? = some message ∧ message.Served cluster := by
      obtain ⟨message, sent, served⟩ := running.served k known
      obtain ⟨new, added, _⟩ := event.msgs
      refine ⟨message, ?_, served.mono event⟩
      rw [added, List.getElem?_append_left (List.getElem?_eq_some_iff.mp sent).1]
      exact sent
    intro k known
    cases label with
    | deliver k' =>
        obtain rfl | before := List.mem_cons.mp known
        · cases sent : s.cluster.msgs[k]? with
          | none => simp [Cluster.step, Cluster.deliver, sent] at moved
          | some message =>
              obtain ⟨new, added, _⟩ := event.msgs
              refine ⟨message, ?_, served_of_delivered running.reached sent moved⟩
              show cluster.msgs[k]? = _
              rw [added, List.getElem?_append_left (List.getElem?_eq_some_iff.mp sent).1]
              exact sent
        · exact kept before
    | _ => exact kept known

end Attended

end Chubby.Paxos