/-
This file proves that a proposal which runs alone returns once its calls are delivered and answered.
-/

import Chubby.Paxos.FaultFree

namespace Chubby.Paxos

open Chubby.Library

variable {n : Nat}

namespace PaxosImpl

variable {server : PaxosImpl} {me : Fin n}

theorem prepare_view (request : PrepareRequest) : (server.prepare me request).1.view = server.view := by
  cases server.prepare_cases me request with
  | collected _ same | promises _ _ same | rejects _ _ same => simp [same]

theorem learn_view (request : DecideRequest) : (server.learn me request true).1.view = server.view := by
  have raised : ((server.addSlots request.seq).raiseHighestSlot request.seq).view = server.view := by
    unfold raiseHighestSlot
    split <;> rfl
  cases server.learn_cases me request true with
  | collected _ same => rw [same]
  | settled _ _ same => rw [same, raised]
  | decides _ _ paxosDb same => rw [same]; exact raised

/-- An Accept of the server's own view leaves it there. -/
theorem accept_view {request : AcceptRequest} (own : request.view = server.view) :
    (server.accept me request).1.view = server.view := by
  obtain same | ⟨_, _, _, below, _⟩ | ⟨_, _, _, accepted⟩ := server.accept_outcomes me request
  · rw [same]
  · omega
  · exact accepted.view.trans own

end PaxosImpl

namespace Attended

variable {r : Nat} {me : Fin n} {seq view : Int} {s next : Attended n} {label : Label n} {round : Round n}

/-- Fault-free steps lead from the state to the end of the round. -/
def Returns (r : Nat) (s : Attended n) : Prop :=
  ∃ final, GuardedReachable step (FaultFree r) s final ∧ final.Returned r

theorem Returns.of_step (returns : Returns r next) (allowed : s.FaultFree r label)
    (taken : s.step label = some next) : Returns r s := by
  obtain ⟨final, ⟨labels, guarded, ran⟩, returned⟩ := returns
  refine ⟨final, ⟨label :: labels, ⟨allowed, fun other again => ?_⟩, ?_⟩, returned⟩
  · rw [taken] at again
    cases again
    exact guarded
  · exact run_cons_eq_some.mpr ⟨next, taken, ran⟩

theorem returns_of_finished (found : s.cluster.rounds[r]? = some round) (ended : round.phase = .finished) :
    Returns r s := by
  refine ⟨s, ⟨[], trivial, rfl⟩, fun other there => ?_⟩
  rw [Option.mem_def, found] at there
  cases there
  exact ended

theorem Running.muFree (running : Running r me seq view s) (i : Fin n) : s.cluster.muFree i = true := by
  unfold Cluster.muFree
  rw [List.all_eq_true]
  intro forward member
  simp [Forward.holdsMu, running.forwards forward member]

/-- A step that keeps the views and serves the round continues its fault-free run. -/
theorem Running.continues {c' : Cluster n} (running : Running r me seq view s) (serves : s.Serves r label)
    (moved : s.cluster.step label = some c')
    (views : ∀ i, (c'.servers i).view = (s.cluster.servers i).view)
    (later : Running r me seq view ⟨c', note s.delivered label⟩ → Returns r ⟨c', note s.delivered label⟩) :
    Returns r s := by
  have allowed : s.FaultFree r label := by
    refine ⟨serves, fun next reached i => ?_⟩
    rw [Option.mem_def, moved] at reached
    cases reached
    exact views i
  have taken : s.step label = some ⟨c', note s.delivered label⟩ := by
    unfold Attended.step
    rw [moved]
    rfl
  exact (later (running.step allowed taken)).of_step allowed taken

theorem update_view {servers : Fin n → PaxosImpl} {i : Fin n} {server : PaxosImpl}
    (same : server.view = (servers i).view) (j : Fin n) :
    (Function.update servers i server j).view = (servers j).view := by
  by_cases own : j = i
  · subst own
    rw [Function.update_self, same]
  · rw [Function.update_of_ne own]

section Delivery

variable {k : Nat} {i : Fin n}

/-- The peer can handle a Prepare of the round at once. -/
theorem Running.deliver_prepare {request : PrepareRequest} (running : Running r me seq view s)
    (sent : s.cluster.msgs[k]? = some (.prepareRequest r i request)) :
    ∃ c', s.cluster.step (.deliver k) = some c' ∧ c'.rounds = s.cluster.rounds ∧
      ∀ j, (c'.servers j).view = (s.cluster.servers j).view := by
  refine ⟨s.cluster.handled i ((s.cluster.servers i).prepare i request) fun response =>
    .prepareReply r i ⟨response, (lastVote s.cluster.msgs i request.seq).map Prod.fst⟩, ?_, rfl,
    update_view (PaxosImpl.prepare_view request)⟩
  simp only [Cluster.step, Cluster.deliver, sent, running.muFree i, if_true]

theorem Running.deliver_accept {request : AcceptRequest} (running : Running r me seq view s)
    (sent : s.cluster.msgs[k]? = some (.acceptRequest r i request)) :
    ∃ c', s.cluster.step (.deliver k) = some c' ∧ c'.rounds = s.cluster.rounds ∧
      ∀ j, (c'.servers j).view = (s.cluster.servers j).view := by
  obtain ⟨_, found, _, own, _⟩ := acceptRequest_round running.reached (List.mem_of_getElem? sent)
  obtain ⟨_, there, _, _, myView, _⟩ := running.own
  rw [found] at there
  cases there
  refine ⟨s.cluster.handled i ((s.cluster.servers i).accept i request) (.acceptReply r i request), ?_, rfl,
    update_view (PaxosImpl.accept_view (by rw [own, myView, running.views]))⟩
  simp only [Cluster.step, Cluster.deliver, sent, running.muFree i, if_true]

theorem Running.deliver_learn {request : DecideRequest} (running : Running r me seq view s)
    (sent : s.cluster.msgs[k]? = some (.learnRequest r i request)) :
    ∃ c', s.cluster.step (.deliver k) = some c' ∧ c'.rounds = s.cluster.rounds ∧
      c'.msgs = s.cluster.msgs ∧ ∀ j, (c'.servers j).view = (s.cluster.servers j).view := by
  refine ⟨s.cluster.setServer i ((s.cluster.servers i).learn i request true).1, ?_, rfl, rfl,
    update_view (PaxosImpl.learn_view request)⟩
  simp only [Cluster.step, Cluster.deliver, sent, running.muFree i, if_true]

end Delivery

/-- A round that learns joins its calls once every Learn among the pending messages is delivered. -/
theorem Running.learning_returns {value : String} (pending : List Nat) :
    ∀ {s : Attended n}, Running r me seq view s → s.cluster.rounds[r]? = some round →
      round.phase = .learning value → (∀ k, k < s.cluster.msgs.length →
        (s.cluster.msgs[k]?).any (Msg.isLearnOf r) = true → k ∈ s.delivered ∨ k ∈ pending) →
      Returns r s := by
  induction pending with
  | nil =>
      intro s running found learns known
      have moved : s.cluster.step (.finishLearn r) = some (s.cluster.setPhase r round .finished) := by
        simp only [Cluster.step, Cluster.finishLearn, found, learns]
      have joined : s.Serves r (.finishLearn r) := fun k inside learn =>
        (known k inside learn).resolve_right (by simp)
      refine running.continues joined moved (fun _ => rfl) fun _ => ?_
      exact returns_of_finished (getElem?_set_self_of_some found) rfl
  | cons k rest ih =>
      intro s running found learns known
      by_cases waits : (s.cluster.msgs[k]?).any (Msg.isLearnOf r) = true ∧ k ∉ s.delivered
      · obtain ⟨message, sent, learn⟩ := (Option.any_eq_true _ _).mp waits.1
        cases message with
        | learnRequest q i request =>
            obtain rfl : q = r := of_decide_eq_true learn
            obtain ⟨c', moved, rounds, msgs, views⟩ := running.deliver_learn sent
            have serves : s.Serves q (.deliver k) := by
              refine ⟨waits.2, fun message member => ?_⟩
              rw [Option.mem_def, sent] at member
              cases member
              exact learn
            refine running.continues serves moved views fun later => ?_
            refine ih later (by rw [← found, ← rounds]) learns fun k' inside learned => ?_
            dsimp only at inside learned
            rw [msgs] at inside learned
            obtain delivered | pending := known k' inside learned
            · exact .inl (List.mem_cons_of_mem _ delivered)
            · obtain rfl | others := List.mem_cons.mp pending
              · exact .inl (List.mem_cons_self ..)
              · exact .inr others
        | _ => cases learn
      · refine ih running found learns fun k' inside learned => ?_
        obtain delivered | pending := known k' inside learned
        · exact .inl delivered
        · obtain rfl | others := List.mem_cons.mp pending
          · exact .inl (by_contra fun missing => waits ⟨learned, missing⟩)
          · exact .inr others

theorem Running.learn_returns {value : String} (running : Running r me seq view s)
    (found : s.cluster.rounds[r]? = some round) (learns : round.phase = .learning value) : Returns r s :=
  running.learning_returns (List.range s.cluster.msgs.length) found learns fun _ inside _ =>
    .inr (List.mem_range.mpr inside)

/-- A call of the round that the peer can handle is served after at most one step. -/
theorem Running.served_call (running : Running r me seq view s) (found : s.cluster.rounds[r]? = some round)
    {k : Nat} {message : Msg n} (sent : s.cluster.msgs[k]? = some message)
    (own : message.isBeside r = true)
    (handles : ∃ c', s.cluster.step (.deliver k) = some c' ∧ c'.rounds = s.cluster.rounds ∧
      ∀ j, (c'.servers j).view = (s.cluster.servers j).view)
    (later : ∀ next : Attended n, Running r me seq view next → next.cluster.rounds[r]? = some round →
      message.Served next.cluster → Returns r next) : Returns r s := by
  by_cases delivered : k ∈ s.delivered
  · obtain ⟨_, same, served⟩ := running.served k delivered
    rw [sent] at same
    cases same
    exact later s running found served
  · obtain ⟨c', moved, rounds, views⟩ := handles
    have serves : s.Serves r (.deliver k) := by
      refine ⟨delivered, fun other member => ?_⟩
      rw [Option.mem_def, sent] at member
      cases member
      exact own
    refine running.continues serves moved views fun next => ?_
    exact later _ next (by rw [← found, ← rounds]) (served_of_delivered running.reached sent moved)

/-- A round that waits for its Accepts hears of the pending peers and goes on. -/
theorem Running.accepting_returns (pending : List (Fin n)) :
    ∀ {s : Attended n} {round : Round n} {value : String}
      {outcomes : Fin n → Option (Option AcceptResponse)}, Running r me seq view s →
      s.cluster.rounds[r]? = some round → round.phase = .accepting value outcomes →
      (∀ i, outcomes i = none → i ∈ pending) → Returns r s := by
  induction pending with
  | nil =>
      intro s round value outcomes running found accepts heard
      have all : ∀ i, (outcomes i).isSome := by
        intro i
        rw [Option.isSome_iff_ne_none]
        exact fun missing => by cases heard i missing
      cases goesOn : afterAccept round.seq value (acceptOutcomes outcomes) with
      | none =>
          have moved : s.cluster.step (.conclude r) = some (s.cluster.setPhase r round .finished) := by
            simp only [Cluster.step, Cluster.conclude, found, accepts, if_pos all, goesOn]
          refine running.continues (show s.Serves r (.conclude r) from trivial) moved (fun _ => rfl)
            fun _ => ?_
          exact returns_of_finished (getElem?_set_self_of_some found) rfl
      | some learned =>
          have moved : s.cluster.step (.conclude r) = some (s.cluster.enterLearn r round learned) := by
            simp only [Cluster.step, Cluster.conclude, found, accepts, if_pos all, goesOn,
              running.muFree, if_true]
          refine running.continues (show s.Serves r (.conclude r) from trivial) moved (fun _ => rfl)
            fun next => ?_
          exact next.learn_returns (getElem?_set_self_of_some found) rfl
  | cons i rest ih =>
      intro s round value outcomes running found accepts heard
      cases here : outcomes i with
      | some outcome =>
          refine ih running found accepts fun j missing => ?_
          obtain rfl | others := List.mem_cons.mp (heard j missing)
          · rw [here] at missing
            cases missing
          · exact others
      | none =>
          have called := round_called running.reached found
          unfold Cluster.Called at called
          rw [accepts] at called
          obtain ⟨request, asked⟩ := called i
          obtain ⟨k, sent⟩ := List.getElem?_of_mem asked
          refine running.served_call found sent (by simp [Msg.isBeside]) (running.deliver_accept sent) ?_
          rintro next continued there ⟨response, replied⟩
          obtain ⟨k', answer⟩ := List.getElem?_of_mem replied
          have moved : next.cluster.step (.receive k') = some (next.cluster.setPhase r round
              (.accepting value (Function.update outcomes i (some (some response))))) := by
            simp only [Cluster.step, Cluster.receive, answer, Cluster.acceptOutcome, there, accepts, here,
              Option.isSome_none, Bool.false_eq_true, if_false]
          refine continued.continues (show next.Serves r (.receive k') from trivial) moved (fun _ => rfl)
            fun later => ?_
          refine ih later (getElem?_set_self_of_some there) rfl fun j missing => ?_
          by_cases same : j = i
          · subst same
            rw [Function.update_self] at missing
            cases missing
          · rw [Function.update_of_ne same] at missing
            exact (List.mem_cons.mp (heard j missing)).resolve_left same

theorem Running.accept_returns {value : String} {outcomes : Fin n → Option (Option AcceptResponse)}
    (running : Running r me seq view s) (found : s.cluster.rounds[r]? = some round)
    (accepts : round.phase = .accepting value outcomes) : Returns r s :=
  running.accepting_returns (List.finRange n) found accepts fun i _ => List.mem_finRange i

/-- A prepare loop that is done goes on with its Accepts or its Learns. -/
theorem Running.prepared_returns {number highestN : Int} {outcomes : List (Option Promise)}
    (running : Running r me seq view s) (found : s.cluster.rounds[r]? = some round)
    (prepares : round.phase = .preparing number highestN outcomes)
    (done : prepareDone n round.v highestN outcomes = true) : Returns r s := by
  cases chosen : afterPrepare round.v round.myView (prepareLocals n round.v highestN outcomes) with
  | forward highestNa => exact absurd chosen ((running.alone found).stays prepares)
  | accept value =>
      have moved : s.cluster.step (.propose r) = some (s.cluster.enterAccept r round value) := by
        simp only [Cluster.step, Cluster.propose, found, prepares, if_pos done, chosen]
      refine running.continues (show s.Serves r (.propose r) from trivial) moved (fun _ => rfl) fun next => ?_
      exact next.accept_returns (getElem?_set_self_of_some found) rfl
  | learn value =>
      have moved : s.cluster.step (.propose r) = some (s.cluster.enterLearn r round value) := by
        simp only [Cluster.step, Cluster.propose, found, prepares, if_pos done, chosen, running.muFree,
          if_true]
      refine running.continues (show s.Serves r (.propose r) from trivial) moved (fun _ => rfl) fun next => ?_
      exact next.learn_returns (getElem?_set_self_of_some found) rfl

/-- The prepare loop hears of one peer after the other until it is done. -/
theorem Running.preparing_returns (left : Nat) :
    ∀ {s : Attended n} {round : Round n} {number highestN : Int} {outcomes : List (Option Promise)},
      Running r me seq view s → s.cluster.rounds[r]? = some round →
      round.phase = .preparing number highestN outcomes → outcomes.length + left = n → Returns r s := by
  induction left with
  | zero =>
      intro s round number highestN outcomes running found prepares full
      exact running.prepared_returns found prepares (by simp [prepareDone]; omega)
  | succ left ih =>
      intro s round number highestN outcomes running found prepares missing
      cases done : prepareDone n round.v highestN outcomes with
      | true => exact running.prepared_returns found prepares done
      | false =>
          have called := round_called running.reached found
          unfold Cluster.Called at called
          rw [prepares] at called
          obtain ⟨i, request, place, asked⟩ := called done
          obtain ⟨k, sent⟩ := List.getElem?_of_mem asked
          refine running.served_call found sent (by simp [Msg.isBeside]) (running.deliver_prepare sent) ?_
          rintro next continued there ⟨promise, replied⟩
          obtain ⟨k', answer⟩ := List.getElem?_of_mem replied
          have moved : next.cluster.step (.receive k') = some (next.cluster.prepareOutcome r round number
              highestN (outcomes ++ [some promise])) := by
            simp [Cluster.step, Cluster.receive, answer, there, prepares, place, done]
          refine continued.continues (show next.Serves r (.receive k') from trivial) moved (update_view rfl)
            fun later => ?_
          refine ih later (getElem?_set_self_of_some there) rfl ?_
          rw [List.length_append, List.length_singleton]
          omega

/-- No other thread holds the mutex that the round waits for. -/
theorem Running.slotFree (running : Running r me seq view s) (found : s.cluster.rounds[r]? = some round)
    (waits : round.phase = .waiting) (i : Fin n) (slot : Int) : s.cluster.slotFree i slot = true := by
  unfold Cluster.slotFree
  rw [List.all_eq_true]
  intro other member
  have idle : other.holdsSlot = false := by
    obtain ⟨q, there⟩ := List.getElem?_of_mem member
    by_cases same : q = r
    · subst same
      rw [found] at there
      cases there
      simp [Round.holdsSlot, waits]
    · simp [Round.holdsSlot, running.others q other there same]
  simp [idle]

/-- A round that runs alone returns in a fault-free run. -/
theorem Running.returns (running : Running r me seq view s) : Returns r s := by
  obtain ⟨round, found, _, _, _, runs⟩ := running.own
  cases phase : round.phase with
  | waiting =>
      have free := running.slotFree found phase
      by_cases settled : ((s.cluster.servers round.server).slotAt round.seq).status = .decided ∨
          (s.cluster.servers round.server).isDead
      · have moved : s.cluster.step (.begin r) = some (s.cluster.setPhase r round .finished) := by
          simp only [Cluster.step, Cluster.begin, found, phase, free, running.muFree, if_true,
            if_pos settled]
        refine running.continues (show s.Serves r (.begin r) from trivial) moved (fun _ => rfl) fun _ => ?_
        exact returns_of_finished (getElem?_set_self_of_some found) rfl
      · by_cases seen : round.seq ≤ (s.cluster.servers round.server).highestAcceptedSeq
        · have moved : s.cluster.step (.begin r) = some (s.cluster.enterPrepare r round) := by
            simp only [Cluster.step, Cluster.begin, found, phase, free, running.muFree, if_true,
              if_neg settled, if_pos seen]
          refine running.continues (show s.Serves r (.begin r) from trivial) moved (update_view rfl)
            fun next => ?_
          exact next.preparing_returns n (getElem?_set_self_of_some found) rfl (Nat.zero_add n)
        · have moved : s.cluster.step (.begin r) = some (s.cluster.enterAccept r round round.v) := by
            simp only [Cluster.step, Cluster.begin, found, phase, free, running.muFree, if_true,
              if_neg settled, if_neg seen]
          refine running.continues (show s.Serves r (.begin r) from trivial) moved (fun _ => rfl)
            fun next => ?_
          exact next.accept_returns (getElem?_set_self_of_some found) rfl
  | preparing number highestN outcomes =>
      have short := (preparing_outcome running.reached found phase).1
      exact running.preparing_returns (n - outcomes.length) found phase (by omega)
  | accepting value outcomes => exact running.accept_returns found phase
  | learning value => exact running.learn_returns found phase
  | forwarding => exact absurd phase runs
  | finished => exact returns_of_finished found phase

end Attended

end Chubby.Paxos
