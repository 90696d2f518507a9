/-
This file says which steps change the proposal numbers of a slot, and from where.
-/

import Chubby.Paxos.SlotEffects
import Chubby.Paxos.Threads

namespace Chubby.Paxos

open Chubby.Library

variable {n : Nat}

namespace PaxosImpl

/-- The slots keep their two proposal numbers, and a slot that comes into being has one number twice. -/
structure KeepsNumbers (before after : PaxosImpl) : Prop where
  kept : ∀ seq slot, before.slots seq = some slot →
    ∃ later, after.slots seq = some later ∧ later.n = slot.n ∧ later.highestN = slot.highestN
  fresh : ∀ seq, before.slots seq = none → (after.slotAt seq).n = (after.slotAt seq).highestN

theorem slotAt_of_some {server : PaxosImpl} {seq : Int} {slot : PaxosSlot}
    (found : server.slots seq = some slot) : server.slotAt seq = slot := by
  unfold slotAt
  rw [found]
  rfl

theorem slotAt_of_none {server : PaxosImpl} {seq : Int} (missing : server.slots seq = none) :
    server.slotAt seq = initSlot server.view := by
  unfold slotAt
  rw [missing]
  rfl

theorem keepsNumbers_of_slots {before after : PaxosImpl} (same : after.slots = before.slots) :
    KeepsNumbers before after where
  kept seq slot found := ⟨slot, by rw [same, found], rfl, rfl⟩
  fresh seq missing := by
    have none_ : after.slots seq = none := by rw [same, missing]
    rw [slotAt_of_none none_]
    rfl

theorem KeepsNumbers.refl (server : PaxosImpl) : KeepsNumbers server server :=
  keepsNumbers_of_slots rfl

/-- A step that writes one slot keeps the numbers when the new slot has them. -/
theorem keepsNumbers_write {before after : PaxosImpl} {seq : Int} {slot : PaxosSlot}
    (written : after.slots = Function.update before.slots seq (some slot))
    (number : slot.n = (before.slotAt seq).n) (highestN : slot.highestN = (before.slotAt seq).highestN) :
    KeepsNumbers before after := by
  constructor
  · intro query old found
    rw [written]
    by_cases same : query = seq
    · subst same
      rw [slotAt_of_some found] at number highestN
      exact ⟨slot, Function.update_self .., number, highestN⟩
    · exact ⟨old, by rw [Function.update_of_ne same, found], rfl, rfl⟩
  · intro query missing
    by_cases same : query = seq
    · subst same
      have there : after.slots query = some slot := by rw [written, Function.update_self]
      rw [slotAt_of_some there, number, highestN, slotAt_of_none missing]
      rfl
    · have none_ : after.slots query = none := by rw [written, Function.update_of_ne same, missing]
      rw [slotAt_of_none none_]
      rfl

theorem keepsNumbers_addSlots (server : PaxosImpl) (seq : Int) :
    KeepsNumbers server (server.addSlots seq) :=
  keepsNumbers_write rfl rfl rfl

theorem start_keepsNumbers (server : PaxosImpl) (me : Fin n) (seq : Int) :
    KeepsNumbers server (server.start me seq).1 := by
  obtain ⟨_, same⟩ | ⟨_, same⟩ := server.start_server me seq <;> rw [same]
  · exact .refl server
  · exact keepsNumbers_addSlots server seq

theorem startOnForward_keepsNumbers (server : PaxosImpl) (me : Fin n) (seq : Int) :
    KeepsNumbers server (server.startOnForward me seq).1 := by
  rw [startOnForward_server]
  exact keepsNumbers_addSlots server seq

theorem prepare_keepsNumbers (server : PaxosImpl) (me : Fin n) (request : PrepareRequest) :
    KeepsNumbers server (server.prepare me request).1 := by
  cases server.prepare_cases me request with
  | collected _ same => rw [same]; exact .refl server
  | promises _ _ same =>
      rw [same, slotAt_addSlots_self]
      exact keepsNumbers_write (Function.update_idem _ _ _) rfl rfl
  | rejects _ _ same => rw [same]; exact keepsNumbers_addSlots server request.seq

theorem accept_keepsNumbers (server : PaxosImpl) (me : Fin n) (request : AcceptRequest) :
    KeepsNumbers server (server.accept me request).1 := by
  cases server.accept_cases me request with
  | collected _ same => rw [same]; exact .refl server
  | accepts _ _ same => rw [same]; exact keepsNumbers_write (stored_slots server request _) rfl rfl
  | rejects _ _ same => rw [same]; exact keepsNumbers_write (raiseView_slots _ _) rfl rfl

theorem learn_keepsNumbers (server : PaxosImpl) (me : Fin n) (request : DecideRequest)
    (committed : Bool) : KeepsNumbers server (server.learn me request committed).1 := by
  cases server.learn_cases me request committed with
  | collected _ same => rw [same]; exact .refl server
  | settled _ _ same => rw [same]; exact keepsNumbers_write (touched_slots server request.seq) rfl rfl
  | decides _ _ paxosDb same =>
      rw [same]
      exact keepsNumbers_write (marked_slots server request.seq request.value) rfl rfl

theorem copyDecided_keepsNumbers (server : PaxosImpl) (received : Int → Option PaxosSlot) :
    KeepsNumbers server (server.copyDecided received) := by
  have numbers (seq : Int) : ((server.copyDecided received).slotAt seq).n = (server.slotAt seq).n ∧
      ((server.copyDecided received).slotAt seq).highestN = (server.slotAt seq).highestN := by
    rw [slotAt_copyDecided]
    cases received seq with
    | none => exact ⟨rfl, rfl⟩
    | some other =>
        dsimp only
        split <;> exact ⟨rfl, rfl⟩
  constructor
  · intro seq slot found
    obtain ⟨later, there⟩ : ∃ later, (server.copyDecided received).slots seq = some later := by
      unfold copyDecided
      dsimp only
      split
      · exact ⟨slot, found⟩
      · exact ⟨_, rfl⟩
    have known := numbers seq
    rw [slotAt_of_some there, slotAt_of_some found] at known
    exact ⟨later, there, known⟩
  · intro seq missing
    rw [(numbers seq).1, (numbers seq).2, slotAt_of_none missing]
    rfl

theorem heartbeat_keepsNumbers (server : PaxosImpl) (me : Fin n) (request : HeartbeatRequest) :
    KeepsNumbers server (server.heartbeat me request).1 := by
  cases server.heartbeat_cases me request with
  | own _ same => rw [same]; exact keepsNumbers_of_slots rfl
  | refused _ same => rw [same]; exact .refl server
  | processed _ _ same =>
      have copied := copyDecided_keepsNumbers (server.syncedWith request) request.slots
      rw [same]
      constructor
      · intro seq slot found
        exact copied.kept seq slot (by rw [syncedWith_slots, found])
      · intro seq missing
        exact copied.fresh seq (by rw [syncedWith_slots, missing])

end PaxosImpl

/-- What a step does to the numbers of the slots of one server: it keeps them, unless a round of the
server begins to prepare its slot or hears of a promise for it. -/
inductive NumberStep (c : Cluster n) (label : Label n) (c' : Cluster n) (j : Fin n) : Prop where
  | keeps (kept : PaxosImpl.KeepsNumbers (c.servers j) (c'.servers j))
  | begins {r : Nat} {round : Round n} (named : label = .begin r) (found : c.rounds[r]? = some round)
      (waits : round.phase = .waiting) (own : round.server = j)
      (free : c.slotFree round.server round.seq) (after : c' = c.enterPrepare r round)
  | hears {r : Nat} {round : Round n} {number highestN : Int} {outcomes : List (Option Promise)}
      {outcome : Option Promise} (found : c.rounds[r]? = some round)
      (prepares : round.phase = .preparing number highestN outcomes) (own : round.server = j)
      (after : c' = c.prepareOutcome r round number highestN (outcomes ++ [outcome]))

theorem Event.numbers {c c' : Cluster n} {label : Label n} (event : Event c label c') (j : Fin n) :
    NumberStep c label c' j := by
  have kept {server : PaxosImpl} (after : c'.servers j = server)
      (keeps : PaxosImpl.KeepsNumbers (c.servers j) server) : NumberStep c label c' j :=
    .keeps (by rw [after]; exact keeps)
  cases event.written j with
  | nothing after => exact kept after (.refl _)
  | start after => exact kept after (PaxosImpl.start_keepsNumbers _ _ _)
  | startOnForward after => exact kept after (PaxosImpl.startOnForward_keepsNumbers _ _ _)
  | begins named found waits own free entered after => exact .begins named found waits own free entered
  | hears found prepares own heard after => exact .hears found prepares own heard
  | raiseView after =>
      exact kept after (PaxosImpl.keepsNumbers_of_slots (PaxosImpl.raiseView_slots _ _))
  | concludeElection found self asks asked after =>
      subst self
      exact kept after (PaxosImpl.keepsNumbers_of_slots (concludeElection_slots _ _ _ _))
  | detectLeaderFailure after =>
      exact kept after (PaxosImpl.keepsNumbers_of_slots (PaxosImpl.detectLeaderFailure_slots _ _))
  | quietPeriodEnds after => exact kept after (PaxosImpl.keepsNumbers_of_slots rfl)
  | prepare named sent after => exact kept after (PaxosImpl.prepare_keepsNumbers _ _ _)
  | accept named sent handled after => exact kept after (PaxosImpl.accept_keepsNumbers _ _ _)
  | learn named sent after => exact kept after (PaxosImpl.learn_keepsNumbers _ _ _ _)
  | elect after => exact kept after (PaxosImpl.keepsNumbers_of_slots (PaxosImpl.elect_slots _ _))
  | heartbeat named sent after => exact kept after (PaxosImpl.heartbeat_keepsNumbers _ _ _)
  | copyDecided named sent after => exact kept after (PaxosImpl.copyDecided_keepsNumbers _ _)

def Msg.isPrepareRequest : Msg n → Bool
  | .prepareRequest _ _ _ => true
  | _ => false

/-- A step sends no Prepare request, or those of a round that has just moved in its prepare loop. -/
inductive Asks (c c' : Cluster n) : Prop where
  | silent {new : List (Msg n)} (added : c'.msgs = c.msgs ++ new)
      (others : ∀ message ∈ new, message.isPrepareRequest = false) : Asks c c'
  | asks {r : Nat} {round : Round n} {number highestN : Int} {outcomes : List (Option Promise)}
      (found : c.rounds[r]? = some round)
      (before : round.phase = .waiting ∨ ∃ earlier outcome,
        round.phase = .preparing number highestN earlier ∧ outcomes = earlier ++ [outcome])
      (written : c'.rounds = c.rounds.set r { round with phase := .preparing number highestN outcomes })
      (added : c'.msgs = c.msgs ++ Cluster.prepareRequests r round number outcomes.length) : Asks c c'

theorem Event.asks {c c' : Cluster n} {label : Label n} (event : Event c label c') : Asks c c' := by
  have unasked (same : c'.msgs = c.msgs) : Asks c c' :=
    .silent (same.trans (List.append_nil _).symm) (by simp)
  have replied {α : Type} {j : Fin n} {result : PaxosImpl × Except HandlerError α} {reply : α → Msg n}
      (handled : c' = c.handled j result reply)
      (answers : ∀ response, (reply response).isPrepareRequest = false) : Asks c c' := by
    rw [handled]
    refine .silent rfl fun message member => ?_
    split at member
    · cases member
    next response _ =>
      rw [List.mem_singleton.mp member]
      exact answers response
  cases event with
  | start => exact unasked (Cluster.spawn_msgs _ _ _ _ _)
  | forwardHandled sent => exact unasked (Cluster.spawn_msgs _ _ _ _ _)
  | beginPrepare found waits free seen => exact .asks found (.inl waits) rfl rfl
  | @prepareOutcome label r round number highestN outcomes outcome found prepares continues received =>
      by_cases stopped : (prepareLocals n round.v highestN (outcomes ++ [outcome])).stopped = true
      · exact .silent rfl (by rw [if_pos stopped]; simp)
      · exact .asks found (.inr ⟨_, _, prepares, rfl⟩) rfl (congrArg (c.msgs ++ ·) (if_neg stopped))
  | skip found skips free => exact .silent rfl (by simp [Cluster.acceptRequests, Msg.isPrepareRequest])
  | proposeAccept found prepares done chosen =>
      exact .silent rfl (by simp [Cluster.acceptRequests, Msg.isPrepareRequest])
  | proposeLearn found prepares chosen =>
      exact .silent rfl (by simp [Cluster.learnRequests, Msg.isPrepareRequest])
  | concludeLearn found accepts unreported =>
      exact .silent rfl (by simp [Cluster.learnRequests, Msg.isPrepareRequest])
  | forwardCalls found moved => exact .silent rfl (by simp [Msg.isPrepareRequest])
  | electOutcome found asks received =>
      exact .silent rfl (by simp [Cluster.electRequests, Msg.isPrepareRequest])
  | @electionEnds e attempt campaign outcomes found asks asked =>
      unfold Cluster.endElection at unasked ⊢
      dsimp only at unasked ⊢
      split
      · exact .silent (List.append_nil _).symm (by simp)
      · exact .silent (List.append_nil _).symm (by simp)
      · exact .silent rfl (by simp [Cluster.electRequests, Msg.isPrepareRequest])
  | detectCampaign election => exact .silent rfl (by simp [Cluster.electRequests, Msg.isPrepareRequest])
  | sendBeat found waits next => exact .silent rfl (by simp [Msg.isPrepareRequest])
  | prepareHandled sent => exact replied rfl fun _ => rfl
  | acceptHandled sent => exact replied rfl fun _ => rfl
  | electHandled sent => exact .silent rfl (by simp [Msg.isPrepareRequest])
  | heartbeatHandled sent => exact replied rfl fun _ => rfl
  | _ => exact unasked rfl

/-- A new Prepare request carries the number of its round, which is in its prepare loop. -/
theorem Event.prepareRequest_cases {c c' : Cluster n} {label : Label n} (event : Event c label c')
    {r : Nat} {i : Fin n} {request : PrepareRequest} (member : .prepareRequest r i request ∈ c'.msgs) :
    .prepareRequest r i request ∈ c.msgs ∨ ∃ round highestN outcomes, c'.rounds[r]? = some round ∧
      round.phase = .preparing request.proposalNumber highestN outcomes := by
  cases event.asks with
  | silent added others =>
      rw [added] at member
      refine .inl ((List.mem_append.mp member).resolve_right fun new => ?_)
      cases others _ new
  | asks found before written added =>
      rw [added] at member
      refine (List.mem_append.mp member).imp_right fun sent => ?_
      unfold Cluster.prepareRequests at sent
      split at sent
      · rw [List.mem_singleton, Msg.prepareRequest.injEq] at sent
        obtain ⟨rfl, rfl, rfl⟩ := sent
        exact ⟨_, _, _, written ▸ getElem?_set_self_of_some found, rfl⟩
      · cases sent

/-- A Prepare request carries the number of its round as long as the round is in its prepare loop. -/
theorem prepareRequest_number {c : Cluster n} (reached : c.Reached) {r : Nat} {i : Fin n}
    {request : PrepareRequest} (member : .prepareRequest r i request ∈ c.msgs) {round : Round n}
    {number highestN : Int} {outcomes : List (Option Promise)} (found : c.rounds[r]? = some round)
    (prepares : round.phase = .preparing number highestN outcomes) : request.proposalNumber = number := by
  revert member found prepares
  revert request i r round number highestN outcomes
  refine @reachable_invariant _ _ _ _ c (fun c => ∀ {r : Nat} {i : Fin n} {request : PrepareRequest}
    {round : Round n} {number highestN : Int} {outcomes : List (Option Promise)},
    .prepareRequest r i request ∈ c.msgs → c.rounds[r]? = some round →
      round.phase = .preparing number highestN outcomes → request.proposalNumber = number) ?_ ?_ reached
  · intro r i request round number highestN outcomes member
    cases member
  · intro c label c' before known taken r i request round number highestN outcomes member after prepares
    have event := Cluster.step_event taken
    obtain earlier | ⟨same, _, _, again, asks⟩ := event.prepareRequest_cases member
    · obtain @⟨old, found, step, _⟩ | ⟨_, fresh⟩ := event.rounds after
      · rw [prepares] at step
        generalize phase : RoundPhase.preparing number highestN outcomes = next at step
        cases step with
        | same => exact known earlier found phase.symm
        | prepares waits free =>
            obtain ⟨asking, there, _, moved⟩ := prepareRequest_round before earlier
            rw [found] at there
            cases there
            exact absurd waits moved
        | hears heard continues received =>
            cases phase
            exact known earlier found heard
        | _ => cases phase
      · rw [fresh.waits] at prepares
        cases prepares
    · rw [after] at again
      cases again
      rw [prepares] at asks
      cases asks
      rfl

/-- An OK reply to a round carries the number of the round. -/
theorem prepareReply_number {c : Cluster n} (reached : c.Reached) {r : Nat} {i : Fin n}
    {promise : Promise} (member : .prepareReply r i promise ∈ c.msgs)
    (ok : promise.response.status = .ok) {round : Round n} {number highestN : Int}
    {outcomes : List (Option Promise)} (found : c.rounds[r]? = some round)
    (prepares : round.phase = .preparing number highestN outcomes) :
    promise.response.highestN = number := by
  revert member found prepares
  revert i r round number highestN outcomes
  refine @reachable_invariant _ _ _ _ c (fun c => ∀ {r : Nat} {i : Fin n} {round : Round n}
    {number highestN : Int} {outcomes : List (Option Promise)}, .prepareReply r i promise ∈ c.msgs →
      c.rounds[r]? = some round → round.phase = .preparing number highestN outcomes →
        promise.response.highestN = number) ?_ ?_ reached
  · intro r i round number highestN outcomes member
    cases member
  · intro c label c' before known taken r i round number highestN outcomes member after prepares
    have event := Cluster.step_event taken
    obtain ⟨new, added, fresh⟩ := event.msgs
    rw [added] at member
    obtain earlier | sending := List.mem_append.mp member
    · obtain @⟨old, found, step, _⟩ | ⟨_, begun⟩ := event.rounds after
      · rw [prepares] at step
        generalize phase : RoundPhase.preparing number highestN outcomes = next at step
        cases step with
        | same => exact known earlier found phase.symm
        | prepares waits free =>
            obtain ⟨asking, there, moved, _⟩ := prepareReply_round before earlier
            rw [found] at there
            cases there
            exact absurd waits moved
        | hears heard continues received =>
            cases phase
            exact known earlier found heard
        | _ => cases phase
      · rw [begun.waits] at prepares
        cases prepares
    · obtain ⟨request, asked, replied, _⟩ := fresh _ sending
      have carried : promise.response.highestN = request.proposalNumber := by
        exact PaxosImpl.prepare_ok_number replied ok
      rw [carried]
      exact prepareRequest_number (before.step taken) (event.sent asked) after prepares

/-- The loop raises the largest number that it has seen up to the numbers of the OK replies. -/
theorem prepareLoop_slotHighestN {groupSize : Nat} {number : Int}
    {outcomes : List (Option PrepareResponse)} {locals : PrepareLocals}
    (carried : ∀ response, some response ∈ outcomes → response.status = .ok → response.highestN = number)
    (bound : locals.slotHighestN ≤ number) :
    (prepareLoop id groupSize locals outcomes).slotHighestN ≤ number := by
  induction outcomes generalizing locals with
  | nil => exact bound
  | cons outcome rest ih =>
      refine ih (fun response member => carried response (List.mem_cons_of_mem _ member)) ?_
      have majority (passed : PrepareLocals) :
          (passed.noteMajority groupSize).slotHighestN = passed.slotHighestN := by
        unfold PrepareLocals.noteMajority
        split <;> rfl
      have decision (passed : PrepareLocals) (response : PrepareResponse) :
          (passed.noteDecision groupSize response).slotHighestN = passed.slotHighestN := by
        unfold PrepareLocals.noteDecision
        split
        · rfl
        · split <;> rfl
      unfold PrepareLocals.iterate
      split
      · rw [majority]
        exact bound
      next response =>
        split
        next ok =>
          rw [majority, decision]
          have same := carried response (List.mem_cons_self ..) ok
          unfold PrepareLocals.takeReply
          split
          · exact bound
          · dsimp only
            split <;> omega
        · rw [majority]
          exact bound

end Chubby.Paxos
