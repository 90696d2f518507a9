/-
This file gives the calls that a round has sent in each of its phases, and the ways in which a server
comes to a decision.
-/

import Chubby.Paxos.Numbers

namespace Chubby.Paxos

open Chubby.Library

variable {n : Nat}

section Decisions

variable {c c' : Cluster n} {label : Label n}

/-- Some heartbeat or heartbeat reply carries the value for the slot. -/
def Copied (c : Cluster n) (seq : Int) (value : String) : Prop :=
  (∃ b i request slot, .heartbeatRequest b i request ∈ c.msgs ∧ request.slots seq = some slot ∧
    slot.value = value) ∨
  ∃ b i response slot, .heartbeatReply b i response ∈ c.msgs ∧ response.slots seq = some slot ∧
    slot.value = value

/-- A server decides by the Learn that the step delivers to it, or by a copy from a heartbeat. -/
theorem Event.decided_cases (event : Event c label c') {j : Fin n} {seq : Int} {value : String}
    (decided : (c'.servers j).decidedValue seq = some value) :
    (c.servers j).decidedValue seq = some value ∨
      (∃ k r, label = .deliver k ∧ c.msgs[k]? = some (.learnRequest r j ⟨seq, value⟩)) ∨
      Copied c seq value := by
  have still {server : PaxosImpl} (after : c'.servers j = server)
      (same : server.decidedValue seq = (c.servers j).decidedValue seq) :
      (c.servers j).decidedValue seq = some value := by
    rw [← same, ← after]
    exact decided
  have quietly {server : PaxosImpl} (after : c'.servers j = server)
      (quiet : PaxosImpl.Quiet (c.servers j) server) : (c.servers j).decidedValue seq = some value :=
    still after (quiet.decidedValue seq)
  cases event.written j with
  | nothing after => exact .inl (still after rfl)
  | start after => exact .inl (quietly after (PaxosImpl.start_quiet _ _ _))
  | startOnForward after => exact .inl (quietly after (PaxosImpl.startOnForward_quiet _ _ _))
  | begins named found waits own free entered after =>
      exact .inl (quietly after (PaxosImpl.quiet_setSlot rfl rfl rfl))
  | hears found prepares own heard after =>
      exact .inl (quietly after (PaxosImpl.quiet_setSlot rfl rfl rfl))
  | raiseView after => exact .inl (quietly after (PaxosImpl.quiet_raiseView _ _))
  | @concludeElection e attempt campaign outcomes found self asks asked after =>
      subst self
      by_cases won : (concludeElection n (c.servers campaign.server) campaign.target
          (electTally outcomes)).2 = .won
      · exact .inl (still after ((elects_of_won won).decidedValue seq))
      · exact .inl (quietly after (concludeElection_quiet won))
  | detectLeaderFailure after => exact .inl (quietly after (PaxosImpl.detectLeaderFailure_quiet _ _))
  | quietPeriodEnds after =>
      exact .inl (quietly after (PaxosImpl.quiet_of_slots le_rfl rfl rfl rfl rfl))
  | prepare named sent after => exact .inl (quietly after (PaxosImpl.prepare_quiet _ _ _))
  | @accept k r request named sent handled after =>
      rcases (c.servers j).accept_outcomes j request with same | ⟨_, _, _, _, quiet⟩ | ⟨_, _, _, accepted⟩
      · exact .inl (still after (by rw [same]))
      · exact .inl (quietly after quiet)
      · exact .inl (still after (accepted.decidedValue seq))
  | @learn k r request named sent after =>
      rw [after] at decided
      obtain before | ⟨rfl, rfl⟩ :=
        (PaxosImpl.learn_settles (c.servers j) j request true).offered seq value decided
      · exact .inl before
      · exact .inr (.inl ⟨k, r, named, sent⟩)
  | elect after => exact .inl (quietly after (PaxosImpl.elect_quiet _ _))
  | @heartbeat k b request named sent after =>
      rw [after] at decided
      refine ((PaxosImpl.heartbeat_settles (c.servers j) j request).offered seq value decided).imp_right ?_
      rintro ⟨slot, found, same⟩
      exact .inr (.inl ⟨b, j, request, slot, List.mem_of_getElem? sent, found, same⟩)
  | @copyDecided k b i response named sent after =>
      rw [after] at decided
      refine ((PaxosImpl.copyDecided_settles (c.servers j) response.slots).offered seq value
        decided).imp_right ?_
      rintro ⟨slot, found, same⟩
      exact .inr (.inr ⟨b, i, response, slot, List.mem_of_getElem? sent, found, same⟩)

/-- A decision stays. -/
theorem Event.decided_kept (event : Event c label c') {j : Fin n} {seq : Int} {value : String}
    (decided : (c.servers j).decidedValue seq = some value) :
    (c'.servers j).decidedValue seq = some value := by
  cases event.servers j with
  | settles settled done => exact settled.kept seq value decided
  | accepts sent accepted voted replied => exact (accepted.decidedValue seq).trans decided
  | elected found self asks asked won moved =>
      subst self
      rw [moved, (elects_of_won won).decidedValue]
      exact decided

/-- Every value that a heartbeat carries for a slot was decided by some server. -/
theorem copied_decided (reached : c.Reached) {seq : Int} {value : String} (copied : Copied c seq value) :
    ∃ j, (c.servers j).decidedValue seq = some value := by
  have both : (∀ seq value, Copied c seq value → ∃ j, (c.servers j).decidedValue seq = some value) ∧
      ∀ (b : Nat) (beat : Beat n), c.beats[b]? = some beat → ∀ seq slot, beat.slots seq = some slot →
        ∃ j, (c.servers j).decidedValue seq = some slot.value := by
    refine @reachable_invariant _ _ _ _ c (fun c =>
      (∀ seq value, Copied c seq value → ∃ j, (c.servers j).decidedValue seq = some value) ∧
      ∀ (b : Nat) (beat : Beat n), c.beats[b]? = some beat → ∀ seq slot, beat.slots seq = some slot →
        ∃ j, (c.servers j).decidedValue seq = some slot.value) ?_ ?_ reached
    · refine ⟨fun seq value copied => ?_, fun b beat found => by cases found⟩
      obtain ⟨_, _, _, _, member, _⟩ | ⟨_, _, _, _, member, _⟩ := copied <;> cases member
    · rintro c label c' _ ⟨carried, built⟩ taken
      have event := Cluster.step_event taken
      have kept {seq : Int} {value : String} (held : ∃ j, (c.servers j).decidedValue seq = some value) :
          ∃ j, (c'.servers j).decidedValue seq = some value := by
        obtain ⟨j, decided⟩ := held
        exact ⟨j, event.decided_kept decided⟩
      have fresh_of_mem {message : Msg n} (member : message ∈ c'.msgs) :
          message ∈ c.msgs ∨ Fresh c label c' message := by
        obtain ⟨new, added, fresh⟩ := event.msgs
        rw [added] at member
        exact (List.mem_append.mp member).imp_right (fresh message)
      constructor
      · rintro seq value (⟨b, i, request, slot, member, found, rfl⟩ |
          ⟨b, i, response, slot, member, found, rfl⟩)
        · obtain before | ⟨beat, beating, slots, _⟩ := fresh_of_mem member
          · exact kept (carried seq _ (.inl ⟨b, i, request, slot, before, found, rfl⟩))
          · rw [slots] at found
            exact kept (built b beat beating seq slot found)
        · obtain before | ⟨request, replied⟩ := fresh_of_mem member
          · exact kept (carried seq _ (.inr ⟨b, i, response, slot, before, found, rfl⟩))
          · exact kept ⟨i, PaxosImpl.heartbeat_reply replied found⟩
      · intro b beat after seq slot found
        obtain ⟨made, _⟩ | ⟨beating, slots, _⟩ := event.beats after
        · exact kept ⟨_, PaxosImpl.heartbeatSlots_value made found⟩
        · rw [slots] at found
          exact kept (built b _ beating seq slot found)
  exact both.1 seq value copied

end Decisions

namespace PaxosImpl

variable (server : PaxosImpl)

@[simp] theorem raiseView_isDead (view : Int) : (server.raiseView view).isDead = server.isDead := by
  unfold raiseView
  split <;> rfl

@[simp] theorem raiseAccepted_isDead (seq : Int) : (server.raiseAccepted seq).isDead = server.isDead := by
  unfold raiseAccepted
  split <;> rfl

@[simp] theorem raiseHighestSlot_isDead (seq : Int) :
    (server.raiseHighestSlot seq).isDead = server.isDead := by
  unfold raiseHighestSlot
  split <;> rfl

@[simp] theorem setSlot_isDead (seq : Int) (slot : PaxosSlot) :
    (server.setSlot seq slot).isDead = server.isDead := rfl

@[simp] theorem addSlots_isDead (seq : Int) : (server.addSlots seq).isDead = server.isDead := rfl

@[simp] theorem markDecided_isDead (seq : Int) (value : String) :
    (server.markDecided seq value).isDead = server.isDead := rfl

@[simp] theorem copyDecided_isDead (received : Int → Option PaxosSlot) :
    (server.copyDecided received).isDead = server.isDead := rfl

@[simp] theorem adoptView_isDead (view : Int) : (server.adoptView view).isDead = server.isDead := rfl

end PaxosImpl

/-- No step sets the flag that ends a server. -/
theorem Event.isDead {c c' : Cluster n} {label : Label n} (event : Event c label c') (j : Fin n) :
    (c'.servers j).isDead = (c.servers j).isDead := by
  cases event.written j with
  | nothing after => rw [after]
  | @start seq after =>
      rw [after]
      obtain ⟨_, same⟩ | ⟨_, same⟩ := (c.servers j).start_server j seq <;> simp [same]
  | startOnForward after => rw [after, PaxosImpl.startOnForward_server]; simp
  | begins named found waits own free entered after => rw [after]; simp
  | hears found prepares own heard after => rw [after]; simp
  | raiseView after => rw [after]; simp
  | concludeElection found self asks asked after =>
      subst self
      rw [after]
      unfold concludeElection
      dsimp only
      split_ifs <;> simp
  | detectLeaderFailure after =>
      rw [after]
      unfold PaxosImpl.detectLeaderFailure
      dsimp only
      split_ifs <;> rfl
  | quietPeriodEnds after => rw [after]; rfl
  | @prepare k r request named sent after =>
      rw [after]
      cases (c.servers j).prepare_cases j request with
      | collected _ same | promises _ _ same | rejects _ _ same => simp [same]
  | @accept k r request named sent handled after =>
      rw [after]
      cases (c.servers j).accept_cases j request with
      | collected _ same | accepts _ _ same | rejects _ _ same => simp [same]
  | @learn k r request named sent after =>
      rw [after]
      cases (c.servers j).learn_cases j request true with
      | collected _ same | settled _ _ same | decides _ _ paxosDb same => simp [same]
  | elect after => rw [after]; unfold PaxosImpl.elect PaxosImpl.electKeeping; split_ifs <;> simp
  | @heartbeat k b request named sent after =>
      rw [after]
      cases (c.servers j).heartbeat_cases j request with
      | own _ same | refused _ same => simp [same]
      | processed _ _ same => simp [same, PaxosImpl.syncedWith]
  | copyDecided named sent after => rw [after]; simp

theorem isDead_false {c : Cluster n} (reached : c.Reached) (i : Fin n) : (c.servers i).isDead = false := by
  revert i
  refine @reachable_invariant _ _ _ _ c (fun c => ∀ i, (c.servers i).isDead = false) ?_ ?_ reached
  · intro i
    rfl
  · intro c label c' _ alive taken i
    exact ((Cluster.step_event taken).isDead i).trans (alive i)

/-- A round that learns enters its learn phase. -/
theorem Learns.entered {c c' : Cluster n} {label : Label n} {r : Nat} {round : Round n} {value : String}
    (learns : Learns r round label value) (found : c.rounds[r]? = some round)
    (taken : c.step label = some c') : c' = c.enterLearn r round value := by
  cases learns with
  | reported prepares chosen =>
      simp only [Cluster.step, Cluster.propose, found, prepares, chosen,
        Option.ite_none_right_eq_some, Option.some.injEq] at taken
      exact taken.2.2.symm
  | accepted accepts unreported =>
      simp only [Cluster.step, Cluster.conclude, found, accepts, afterAccept, unreported,
        Bool.false_eq_true, if_false, Option.ite_none_right_eq_some, Option.some.injEq] at taken
      exact taken.2.2.symm

theorem PhaseStep.learned {c : Cluster n} {label : Label n} {r : Nat} {round : Round n}
    {phase : RoundPhase n} (step : PhaseStep c label r round phase)
    (past : (∃ value, round.phase = .learning value) ∨ round.phase = .finished) :
    (∃ value, phase = .learning value) ∨ phase = .finished := by
  cases step with
  | same => exact past
  | ends final => exact .inr rfl
  | learns learned => exact .inl ⟨_, rfl⟩
  | proposes proposed =>
      cases proposed with
      | skips skips => simp [skips.1] at past
      | prepared prepares => simp [prepares] at past
  | prepares before | hears before | forwards before | counts before => simp [before] at past

/-- A round that has sent its Learns is in its learn phase or has ended. -/
theorem learnRequest_round {c : Cluster n} (reached : c.Reached) {r : Nat} {i : Fin n}
    {request : DecideRequest} (member : .learnRequest r i request ∈ c.msgs) :
    ∃ round, c.rounds[r]? = some round ∧ request.seq = round.seq ∧
      ((∃ value, round.phase = .learning value) ∨ round.phase = .finished) := by
  revert member
  revert request i r
  refine @reachable_invariant _ _ _ _ c (fun c => ∀ {r : Nat} {i : Fin n} {request : DecideRequest},
    .learnRequest r i request ∈ c.msgs → ∃ round, c.rounds[r]? = some round ∧ request.seq = round.seq ∧
      ((∃ value, round.phase = .learning value) ∨ round.phase = .finished)) ?_ ?_ reached
  · intro r i request member
    cases member
  · intro c label c' _ known taken r i request member
    have event := Cluster.step_event taken
    obtain ⟨new, added, fresh⟩ := event.msgs
    rw [added] at member
    obtain before | sending := List.mem_append.mp member
    · obtain ⟨round, found, seq, phase⟩ := known before
      obtain ⟨next, after, step⟩ := event.rounds_kept found
      exact ⟨_, after, seq, step.learned phase⟩
    · obtain ⟨round, value, found, rfl, learns⟩ := fresh _ sending
      rw [learns.entered found taken]
      exact ⟨_, getElem?_set_self_of_some found, rfl, .inl ⟨value, rfl⟩⟩

/-- The calls that a round has sent in its phase; its prepare loop calls one peer after the other. -/
def Cluster.Called (c : Cluster n) (r : Nat) (round : Round n) : Prop :=
  match round.phase with
  | .preparing _ highestN outcomes => prepareDone n round.v highestN outcomes = false →
      ∃ (i : Fin n) (request : PrepareRequest), i.val = outcomes.length ∧
        .prepareRequest r i request ∈ c.msgs
  | .accepting _ _ => ∀ i, ∃ request, .acceptRequest r i request ∈ c.msgs
  | .learning _ => ∀ i, ∃ request, .learnRequest r i request ∈ c.msgs
  | _ => True

theorem Cluster.Called.mono {c c' : Cluster n} {r : Nat} {round : Round n} (called : c.Called r round)
    (kept : ∀ message ∈ c.msgs, message ∈ c'.msgs) : c'.Called r round := by
  unfold Cluster.Called at called ⊢
  split
  next number highestN outcomes prepares =>
    simp only [prepares] at called
    intro continues
    obtain ⟨i, request, place, member⟩ := called continues
    exact ⟨i, request, place, kept _ member⟩
  next value outcomes accepts =>
    simp only [accepts] at called
    intro i
    obtain ⟨request, member⟩ := called i
    exact ⟨request, kept _ member⟩
  next value learns =>
    simp only [learns] at called
    intro i
    obtain ⟨request, member⟩ := called i
    exact ⟨request, kept _ member⟩
  · trivial

theorem Event.called {c c' : Cluster n} {label : Label n} (event : Event c label c')
    (called : ∀ (r : Nat) (round : Round n), c.rounds[r]? = some round → c.Called r round)
    (short : ∀ (r : Nat) (round : Round n) (number highestN : Int) (outcomes : List (Option Promise)),
      c'.rounds[r]? = some round → round.phase = .preparing number highestN outcomes → outcomes.length ≤ n)
    {r : Nat} {round : Round n} (after : c'.rounds[r]? = some round) : c'.Called r round := by
  have kept (before : c.rounds[r]? = some round) : c'.Called r round :=
    (called r round before).mono fun _ => event.sent
  have waiting (waits : round.phase = .waiting) : c'.Called r round := by
    unfold Cluster.Called
    rw [waits]
    trivial
  have spawned {i : Fin n} {seq : Int} {v : String} (same : c' = (c.setServer i
      ((c.servers i).start i seq).1).spawn i seq v ((c.servers i).start i seq).2) : c'.Called r round := by
    have there := after
    rw [same] at there
    unfold Cluster.spawn at there
    split at there
    · exact kept there
    · obtain before | ⟨_, is⟩ := getElem?_concat_cases there
      · exact kept before
      · exact waiting (by rw [is])
    · exact kept there
  have moved {s : Nat} {old : Round n} {phase : RoundPhase n}
      (written : c'.rounds = c.rounds.set s { old with phase })
      (own : s = r → round = { old with phase } → c'.Called r round) : c'.Called r round := by
    have there := after
    rw [written] at there
    obtain before | ⟨same, is⟩ := getElem?_set_cases there
    · exact kept before
    · exact own same is
  have asked {s : Nat} {old : Round n} {number highestN : Int} {outcomes : List (Option Promise)}
      (written : c'.rounds = c.rounds.set s { old with phase := .preparing number highestN outcomes })
      (sent : (prepareLocals n old.v highestN outcomes).stopped = false →
        ∀ message ∈ Cluster.prepareRequests s old number outcomes.length, message ∈ c'.msgs) :
      c'.Called r round := by
    refine moved written fun same is => ?_
    have least := short r round number highestN outcomes after (by rw [is])
    subst same is
    intro continues
    simp only [prepareDone, Bool.or_eq_false_iff, decide_eq_false_iff_not] at continues
    have inside : outcomes.length < n := lt_of_le_of_ne least continues.2
    refine ⟨⟨outcomes.length, inside⟩, ⟨old.seq, number⟩, rfl, sent continues.1 _ ?_⟩
    rw [Cluster.prepareRequests, dif_pos inside]
    exact List.mem_singleton.mpr rfl
  cases event with
  | beginPrepare found waits free seen =>
      exact asked rfl fun _ message member => List.mem_append_right _ member
  | @prepareOutcome label s old number highestN outcomes outcome found prepares continues received =>
      refine asked rfl fun running message member => List.mem_append_right _ ?_
      rw [running]
      exact member
  | skip found skips free =>
      refine moved rfl fun same is => ?_
      subst same is
      exact fun i => ⟨_, List.mem_append_right _ (List.mem_map.mpr ⟨i, List.mem_finRange i, rfl⟩)⟩
  | proposeAccept found prepares done chosen =>
      refine moved rfl fun same is => ?_
      subst same is
      exact fun i => ⟨_, List.mem_append_right _ (List.mem_map.mpr ⟨i, List.mem_finRange i, rfl⟩)⟩
  | proposeLearn found prepares chosen =>
      refine moved rfl fun same is => ?_
      subst same is
      exact fun i => ⟨_, List.mem_append_right _ (List.mem_map.mpr ⟨i, List.mem_finRange i, rfl⟩)⟩
  | concludeLearn found accepts unreported =>
      refine moved rfl fun same is => ?_
      subst same is
      exact fun i => ⟨_, List.mem_append_right _ (List.mem_map.mpr ⟨i, List.mem_finRange i, rfl⟩)⟩
  | @acceptOutcome label s old value i outcomes outcome found accepts received =>
      refine moved rfl fun same is => ?_
      subst same is
      have before := called s old found
      unfold Cluster.Called at before
      rw [accepts] at before
      exact before
  | beginEnds found waits | concludeEnds found accepts reported | finishLearn found learns
    | parentEnds found written parent forwarding | proposeForward found prepares asked =>
      refine moved rfl fun same is => ?_
      subst same is
      trivial
  | start => exact spawned rfl
  | forwardHandled sent => exact spawned rfl
  | forwardProposes found action written =>
      obtain before | ⟨_, is⟩ := getElem?_concat_cases after
      · exact kept before
      · exact waiting (by rw [is])
  | electionEnds found asks asked => exact kept (by rwa [endElection_rounds] at after)
  | _ => exact kept after

/-- Every round has sent the calls of its phase. -/
theorem round_called {c : Cluster n} (reached : c.Reached) {r : Nat} {round : Round n}
    (found : c.rounds[r]? = some round) : c.Called r round := by
  revert found
  revert round r
  refine @reachable_invariant _ _ _ _ c (fun c => ∀ {r : Nat} {round : Round n},
    c.rounds[r]? = some round → c.Called r round) ?_ ?_ reached
  · intro r round found
    cases found
  · intro c label c' before called taken r round after
    refine (Cluster.step_event taken).called (fun r round found => called found) ?_ after
    intro r round number highestN outcomes after prepares
    exact (preparing_outcome (before.step taken) after prepares).1

theorem getElem?_append_cases {A : Type} {first second : List A} {index : Nat} {value : A}
    (after : (first ++ second)[index]? = some value) :
    first[index]? = some value ∨ (first.length ≤ index ∧ second[index - first.length]? = some value) := by
  by_cases inside : index < first.length
  · rw [List.getElem?_append_left inside] at after
    exact .inl after
  · rw [List.getElem?_append_right (Nat.not_lt.mp inside)] at after
    exact .inr ⟨Nat.not_lt.mp inside, after⟩

/-- A round sends each peer one Prepare at most, in the order of the peers. -/
structure AsksOnce (c : Cluster n) : Prop where
  once : ∀ {k k' r : Nat} {i : Fin n} {request request' : PrepareRequest},
    c.msgs[k]? = some (.prepareRequest r i request) → c.msgs[k']? = some (.prepareRequest r i request') →
      k = k'
  bound : ∀ {r : Nat} {i : Fin n} {request : PrepareRequest} {round : Round n} {number highestN : Int}
    {outcomes : List (Option Promise)}, .prepareRequest r i request ∈ c.msgs →
      c.rounds[r]? = some round → round.phase = .preparing number highestN outcomes →
        i.val ≤ outcomes.length

section Asked

variable {c c' : Cluster n} {r : Nat} {i : Fin n} {request : PrepareRequest} {round : Round n}
  {number highestN : Int} {outcomes : List (Option Promise)}

/-- A request of a loop before its last outcome went to a peer that the loop has reached. -/
theorem AsksOnce.reached (known : AsksOnce c) (reached : c.Reached)
    (member : .prepareRequest r i request ∈ c.msgs) (found : c.rounds[r]? = some round)
    (before : round.phase = .waiting ∨ ∃ earlier outcome,
      round.phase = .preparing number highestN earlier ∧ outcomes = earlier ++ [outcome]) :
    i.val < outcomes.length := by
  obtain ⟨asking, there, _, moved⟩ := prepareRequest_round reached member
  rw [found] at there
  cases there
  obtain waits | ⟨earlier, outcome, prepares, rfl⟩ := before
  · exact absurd waits moved
  · have within := known.bound member found prepares
    rw [List.length_append, List.length_singleton]
    omega

/-- The loop sends one request at most, to the next peer. -/
theorem prepareRequests_place {index s called : Nat}
    (sent : (Cluster.prepareRequests s round number called)[index]? = some (.prepareRequest r i request)) :
    index = 0 ∧ r = s ∧ i.val = called := by
  unfold Cluster.prepareRequests at sent
  split at sent
  · rw [List.getElem?_singleton] at sent
    split at sent
    next first =>
      cases sent
      exact ⟨first, rfl, rfl⟩
    · cases sent
  · cases sent

theorem AsksOnce.of_silent {label : Label n} {new : List (Msg n)} (known : AsksOnce c)
    (reached : c.Reached) (event : Event c label c') (added : c'.msgs = c.msgs ++ new)
    (others : ∀ message ∈ new, message.isPrepareRequest = false) : AsksOnce c' := by
  have kept {k r : Nat} {i : Fin n} {request : PrepareRequest}
      (sent : c'.msgs[k]? = some (.prepareRequest r i request)) :
      c.msgs[k]? = some (.prepareRequest r i request) := by
    rw [added] at sent
    refine (getElem?_append_cases sent).resolve_right fun ⟨_, fresh⟩ => ?_
    cases others _ (List.mem_of_getElem? fresh)
  refine ⟨fun one two => known.once (kept one) (kept two), ?_⟩
  intro r i request round number highestN outcomes member after prepares
  obtain ⟨k, sent⟩ := List.getElem?_of_mem member
  have before := List.mem_of_getElem? (kept sent)
  obtain @⟨earlier, found, step, _⟩ | ⟨_, fresh⟩ := event.rounds after
  · rw [prepares] at step
    generalize phase : RoundPhase.preparing number highestN outcomes = next at step
    cases step with
    | same => exact known.bound before found phase.symm
    | prepares waits free =>
        have within := @AsksOnce.reached n c r i request _ 0 0 [] known reached before found (.inl waits)
        cases within
    | hears heard continues received =>
        cases phase
        exact (known.reached reached before found (.inr ⟨_, _, heard, rfl⟩)).le
    | _ => cases phase
  · rw [fresh.waits] at prepares
    cases prepares

theorem AsksOnce.of_asks (known : AsksOnce c) (reached : c.Reached)
    (found : c.rounds[r]? = some round)
    (before : round.phase = .waiting ∨ ∃ earlier outcome,
      round.phase = .preparing number highestN earlier ∧ outcomes = earlier ++ [outcome])
    (written : c'.rounds = c.rounds.set r { round with phase := .preparing number highestN outcomes })
    (added : c'.msgs = c.msgs ++ Cluster.prepareRequests r round number outcomes.length) : AsksOnce c' := by
  constructor
  · intro k k' q i request request' one two
    rw [added] at one two
    obtain earlier | ⟨least, sending⟩ := getElem?_append_cases one
    · obtain again | ⟨_, sending⟩ := getElem?_append_cases two
      · exact known.once earlier again
      · obtain ⟨_, rfl, place⟩ := prepareRequests_place sending
        have less := known.reached reached (List.mem_of_getElem? earlier) found before
        omega
    · obtain ⟨first, rfl, place⟩ := prepareRequests_place sending
      obtain again | ⟨least', sending'⟩ := getElem?_append_cases two
      · have less := known.reached reached (List.mem_of_getElem? again) found before
        omega
      · have second := (prepareRequests_place sending').1
        omega
  · intro q i request round' number' highestN' outcomes' member after prepares
    rw [added] at member
    rw [written] at after
    obtain earlier | sending := List.mem_append.mp member
    · obtain unmoved | ⟨rfl, rfl⟩ := getElem?_set_cases after
      · exact known.bound earlier unmoved prepares
      · cases prepares
        exact (known.reached reached earlier found before).le
    · obtain ⟨index, place⟩ := List.getElem?_of_mem sending
      obtain ⟨_, rfl, same⟩ := prepareRequests_place place
      rw [getElem?_set_self_of_some found] at after
      cases after
      cases prepares
      exact same.le

theorem AsksOnce.step {label : Label n} (known : AsksOnce c) (reached : c.Reached)
    (event : Event c label c') : AsksOnce c' := by
  cases event.asks with
  | silent added others => exact known.of_silent reached event added others
  | asks found before written added => exact known.of_asks reached found before written added

end Asked

theorem asksOnce {c : Cluster n} (reached : c.Reached) : AsksOnce c := by
  refine reachable_invariant ?_ ?_ reached
  · constructor
    · intro k k' r i request request' one
      cases one
    · intro r i request round number highestN outcomes member
      cases member
  · intro c label c' before known taken
    exact known.step before (Cluster.step_event taken)

end Chubby.Paxos
