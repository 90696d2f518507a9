/-
This file says which threads of the proposals wait for which others and for which mutexes, and proves
that without failed calls no circle of them ever goes on.
-/

import Chubby.Library.Waits
import Chubby.Library.Places
import Chubby.Paxos.FaultFree

namespace Chubby.Paxos

open Chubby.Library

variable {n : Nat}

/-- What a thread of a proposal can wait for. -/
inductive Party (n : Nat) where
  | forward (f : Nat)
  | round (r : Nat)
  | mu (i : Fin n)
  | slotMu (i : Fin n) (seq : Int)
  deriving DecidableEq

/-- The thread has not returned, or the mutex is held. -/
def Cluster.Active (c : Cluster n) : Party n → Prop
  | .forward f => ∃ forward ∈ c.forwards[f]?, forward.phase ≠ .finished
  | .round r => ∃ round ∈ c.rounds[r]?, round.ended = false
  | .mu i => c.muFree i = false
  | .slotMu i seq => c.slotFree i seq = false

instance (c : Cluster n) : DecidablePred c.Active
  | .forward f => inferInstanceAs (Decidable (∃ forward ∈ c.forwards[f]?, _))
  | .round r => inferInstanceAs (Decidable (∃ round ∈ c.rounds[r]?, _))
  | .mu i => inferInstanceAs (Decidable (c.muFree i = false))
  | .slotMu i seq => inferInstanceAs (Decidable (c.slotFree i seq = false))

/-- A reply to a prepare or an accept names its round and the peer that answered. -/
def Msg.answers : Msg n → Option (Nat × Fin n)
  | .prepareReply r i _ | .acceptReply r i _ _ => some (r, i)
  | _ => none

/-- The cluster with each execution of the `ForwardLeader` handler: the thread that made the call, and
the thread that `Start` runs and joins in the handler. -/
structure Served (n : Nat) where
  cluster : Cluster n
  handlers : List (Nat × Option (Party n))

/-- The thread that a step adds. -/
def Cluster.spawned (c c' : Cluster n) : Option (Party n) :=
  if c.rounds.length < c'.rounds.length then some (.round c.rounds.length)
  else if c.forwards.length < c'.forwards.length then some (.forward c.forwards.length)
  else none

def Cluster.handler (c : Cluster n) (label : Label n) (c' : Cluster n) : List (Nat × Option (Party n)) :=
  match label with
  | .deliver k =>
      match c.msgs[k]? with
      | some (.forwardRequest f _ _ _) => [(f, c.spawned c')]
      | _ => []
  | _ => []

namespace Served

def initial (n : Nat) : Served n := ⟨.initial n, []⟩

def step (s : Served n) (label : Label n) : Option (Served n) :=
  (s.cluster.step label).map fun c' => ⟨c', s.handlers ++ s.cluster.handler label c'⟩

/-- No call of a proposal fails, and a call to the leader returns when its handler has returned. -/
def Answered (s : Served n) : Label n → Prop
  | .prepareFails _ | .acceptFails _ _ => False
  | .forwardReturns f => ∀ forward ∈ s.cluster.forwards[f]?, forward.phase = .calling →
      (∃ entry ∈ s.handlers, entry.1 = f) ∧
        ∀ entry ∈ s.handlers, entry.1 = f → ∀ party ∈ entry.2, ¬ s.cluster.Active party
  | _ => True

instance (s : Served n) : DecidablePred s.Answered
  | .prepareFails _ | .acceptFails _ _ => isFalse id
  | .forwardReturns f => inferInstanceAs (Decidable (∀ forward ∈ s.cluster.forwards[f]?, _))
  | .start _ _ _ | .begin _ | .propose _ | .conclude _ | .finishLearn _ | .forward _ | .deliver _ | .receive _
  | .electFails _ | .beatFails _ | .detect _ | .quietEnds _ | .concludeElection _ | .beat _ | .sendBeat _ =>
      isTrue trivial

/-- Why a thread cannot go on, and why a mutex is not free. -/
inductive Waits (s : Served n) : Party n → Party n → Prop where
  | takesMu {f : Nat} {forward : Forward n} (found : s.cluster.forwards[f]? = some forward)
      (waits : forward.phase = .waiting) : Waits s (.forward f) (.mu forward.server)
  | callsLeader {f : Nat} {forward : Forward n} {peer : Fin n} (found : s.cluster.forwards[f]? = some forward)
      (calls : forward.phase = .calling)
      (asked : ∀ i seq v, .forwardRequest f i seq v ∈ s.cluster.msgs → i = peer)
      (unhandled : ∀ entry ∈ s.handlers, entry.1 ≠ f) : Waits s (.forward f) (.mu peer)
  | joinsRound {f r : Nat} {forward : Forward n} (found : s.cluster.forwards[f]? = some forward)
      (calls : forward.phase = .calling) (handled : (f, some (.round r)) ∈ s.handlers)
      (active : s.cluster.Active (.round r)) : Waits s (.forward f) (.round r)
  | joinsForward {f g : Nat} {forward : Forward n} (found : s.cluster.forwards[f]? = some forward)
      (calls : forward.phase = .calling) (handled : (f, some (.forward g)) ∈ s.handlers)
      (active : s.cluster.Active (.forward g)) : Waits s (.forward f) (.forward g)
  | proposesItself {f r : Nat} {forward : Forward n} (found : s.cluster.forwards[f]? = some forward)
      (proposes : forward.phase = .proposing r) (active : s.cluster.Active (.round r)) :
      Waits s (.forward f) (.round r)
  | takesSlot {r : Nat} {round : Round n} (found : s.cluster.rounds[r]? = some round)
      (waits : round.phase = .waiting) : Waits s (.round r) (.slotMu round.server round.seq)
  | prepares {r : Nat} {i : Fin n} {round : Round n} {number highestN : Int}
      {outcomes : List (Option Promise)} (found : s.cluster.rounds[r]? = some round)
      (prepares : round.phase = .preparing number highestN outcomes) (place : outcomes.length = i.val)
      (continues : prepareDone n round.v highestN outcomes = false)
      (unanswered : ∀ message ∈ s.cluster.msgs, message.answers ≠ some (r, i)) : Waits s (.round r) (.mu i)
  | accepts {r : Nat} {i : Fin n} {round : Round n} {value : String}
      {outcomes : Fin n → Option (Option AcceptResponse)} (found : s.cluster.rounds[r]? = some round)
      (accepts : round.phase = .accepting value outcomes) (missing : outcomes i = none)
      (unanswered : ∀ message ∈ s.cluster.msgs, message.answers ≠ some (r, i)) : Waits s (.round r) (.mu i)
  | holdsMu {i : Fin n} {f : Nat} {forward : Forward n} (found : s.cluster.forwards[f]? = some forward)
      (own : forward.server = i) (holds : forward.holdsMu = true) : Waits s (.mu i) (.forward f)
  | holdsSlot {i : Fin n} {seq : Int} {r : Nat} {round : Round n}
      (found : s.cluster.rounds[r]? = some round) (own : round.server = i) (same : round.seq = seq)
      (holds : round.holdsSlot = true) : Waits s (.slotMu i seq) (.round r)

end Served

section Moves

variable {c c' : Cluster n} {label : Label n}

/-- `Start` needs the mutex, sends nothing and adds at most one thread. -/
theorem start_grows {i : Fin n} {seq : Int} {v : String} (started : c.start i seq v = some c') :
    c.muFree i = true ∧ c'.msgs = c.msgs ∧ (∃ new, c'.rounds = c.rounds ++ new) ∧
      (c'.forwards = c.forwards ∨ ∃ forward : Forward n, forward.phase = .waiting ∧
        c'.forwards = c.forwards ++ [forward]) := by
  simp only [Cluster.start] at started
  split at started
  next free =>
    cases started
    unfold Cluster.spawn
    split
    · exact ⟨free, rfl, ⟨[], (List.append_nil _).symm⟩, .inl rfl⟩
    · exact ⟨free, rfl, ⟨_, rfl⟩, .inl rfl⟩
    · exact ⟨free, rfl, ⟨[], (List.append_nil _).symm⟩, .inr ⟨_, rfl, rfl⟩⟩
  · cases started

/-- What one step does to an execution of `StartOnForward`. -/
inductive ForwardMove (c : Cluster n) (label : Label n) (c' : Cluster n) (f : Nat) (forward : Forward n) :
    ForwardPhase → Prop where
  | rests : ForwardMove c label c' f forward forward.phase
  | locks {phase : ForwardPhase} (waits : forward.phase = .waiting) (free : c.muFree forward.server = true)
      (holds : ({ forward with phase } : Forward n).holdsMu = true) : ForwardMove c label c' f forward phase
  | returns (named : label = .forwardReturns f) (returns : c.mayReturn forward = true) :
      ForwardMove c label c' f forward .finished

/-- A step changes one execution of `StartOnForward`, adds one or leaves them all. -/
inductive ForwardsStep (c : Cluster n) (label : Label n) (c' : Cluster n) : Prop where
  | rests (same : c'.forwards = c.forwards)
  | adds {forward : Forward n} (waits : forward.phase = .waiting) (grown : c'.forwards = c.forwards ++ [forward])
  | moves {f : Nat} {forward : Forward n} {phase : ForwardPhase} (found : c.forwards[f]? = some forward)
      (move : ForwardMove c label c' f forward phase)
      (set : c'.forwards = c.forwards.set f { forward with phase })

theorem step_forwards (taken : c.step label = some c') : ForwardsStep c label c' := by
  have starts {i : Fin n} {seq : Int} {v : String} (started : c.start i seq v = some c') :
      ForwardsStep c label c' := by
    obtain ⟨_, _, _, same | ⟨forward, waits, grown⟩⟩ := start_grows started
    · exact .rests same
    · exact .adds waits grown
  cases label with
  | start i seq v => exact starts taken
  | begin r =>
      simp only [Cluster.step, Cluster.begin] at taken
      (repeat' split at taken) <;> cases taken <;> exact .rests rfl
  | propose r =>
      simp only [Cluster.step, Cluster.propose] at taken
      (repeat' split at taken) <;> cases taken
      · exact .adds rfl rfl
      · exact .rests rfl
      · exact .rests rfl
  | conclude r =>
      simp only [Cluster.step, Cluster.conclude] at taken
      (repeat' split at taken) <;> cases taken <;> exact .rests rfl
  | finishLearn r =>
      simp only [Cluster.step, Cluster.finishLearn] at taken
      (repeat' split at taken) <;> cases taken
      exact .rests rfl
  | forward f =>
      simp only [Cluster.step, Cluster.forward] at taken
      split at taken
      · cases taken
      next forward found =>
        split at taken
        next ready =>
          (repeat' split at taken) <;> cases taken
          · exact .moves found (.locks ready.1 ready.2 rfl) rfl
          · exact .moves found (.locks ready.1 ready.2 rfl) rfl
        · cases taken
  | forwardReturns f =>
      simp only [Cluster.step, Cluster.forwardReturns] at taken
      split at taken
      · cases taken
      next forward found =>
        split at taken
        next calls =>
          cases taken
          refine .moves found (.returns rfl calls) ?_
          split
          · rfl
          · unfold Cluster.endParent
            (repeat' split) <;> rfl
        · cases taken
  | deliver k =>
      simp only [Cluster.step, Cluster.deliver] at taken
      split at taken
      case h_5 f i seq v sent => exact starts taken
      all_goals (repeat' split at taken) <;> cases taken <;> exact .rests rfl
  | receive k =>
      simp only [Cluster.step, Cluster.receive, Cluster.acceptOutcome] at taken
      (repeat' split at taken) <;> cases taken <;> exact .rests rfl
  | prepareFails r =>
      simp only [Cluster.step, Cluster.prepareFails] at taken
      (repeat' split at taken) <;> cases taken
      exact .rests rfl
  | acceptFails r i =>
      simp only [Cluster.step, Cluster.acceptOutcome] at taken
      (repeat' split at taken) <;> cases taken
      exact .rests rfl
  | _ => exact .rests (background_rests rfl taken).2

theorem step_forward (taken : c.step label = some c') {f : Nat} {forward : Forward n}
    (found : c.forwards[f]? = some forward) :
    ∃ phase, c'.forwards[f]? = some { forward with phase } ∧ ForwardMove c label c' f forward phase := by
  cases step_forwards taken with
  | rests same => exact ⟨forward.phase, by rw [same]; exact found, .rests⟩
  | adds _ grown =>
      rw [grown]
      exact ⟨forward.phase, place_append found _, .rests⟩
  | moves there move set =>
      rw [set]
      exact place_set_turn (fun forward phase => { forward with phase }) there move found rfl .rests

/-- A new execution of `StartOnForward` waits for the mutex. -/
theorem step_forward_before (taken : c.step label = some c') {f : Nat} {forward' : Forward n}
    (after : c'.forwards[f]? = some forward') : forward'.phase = .waiting ∨
      ∃ forward, c.forwards[f]? = some forward ∧ forward' = { forward with phase := forward'.phase } ∧
        ForwardMove c label c' f forward forward'.phase := by
  cases found : c.forwards[f]? with
  | some forward =>
      obtain ⟨phase, there, move⟩ := step_forward taken found
      cases there.symm.trans after
      exact .inr ⟨forward, rfl, rfl, move⟩
  | none =>
      left
      cases step_forwards taken with
      | rests same => cases (same ▸ after).symm.trans found
      | adds waits grown =>
          rw [grown] at after
          obtain before | ⟨_, rfl⟩ := place_concat_cases after
          · cases before.symm.trans found
          · exact waits
      | moves there _ set =>
          rw [set] at after
          obtain ⟨_, before⟩ | ⟨rfl, _⟩ := place_set_cases after
          · cases before.symm.trans found
          · cases there.symm.trans found

/-- What one step does to a round, with the label that does it where another thread could fail. -/
inductive RoundTurn (c : Cluster n) (label : Label n) (r : Nat) (round : Round n) : RoundPhase n → Prop where
  | rests : RoundTurn c label r round round.phase
  | begins {phase : RoundPhase n} (waits : round.phase = .waiting)
      (slotFree : c.slotFree round.server round.seq = true) : RoundTurn c label r round phase
  | loses {phase : RoundPhase n} {number highestN : Int} {outcomes : List (Option Promise)}
      (named : label = .prepareFails r) (prepares : round.phase = .preparing number highestN outcomes) :
      RoundTurn c label r round phase
  | hears {phase : RoundPhase n} {i : Fin n} {promise : Promise} {number highestN : Int}
      {outcomes : List (Option Promise)} (prepares : round.phase = .preparing number highestN outcomes)
      (place : outcomes.length = i.val) (received : .prepareReply r i promise ∈ c.msgs) :
      RoundTurn c label r round phase
  | proposes {phase : RoundPhase n} {number highestN : Int} {outcomes : List (Option Promise)}
      (prepares : round.phase = .preparing number highestN outcomes)
      (done : prepareDone n round.v highestN outcomes = true) : RoundTurn c label r round phase
  | drops {phase : RoundPhase n} {i : Fin n} {value : String} {outcomes : Fin n → Option (Option AcceptResponse)}
      (named : label = .acceptFails r i) (accepts : round.phase = .accepting value outcomes) :
      RoundTurn c label r round phase
  | counts {i : Fin n} {request : AcceptRequest} {response : AcceptResponse} {value : String}
      {outcomes : Fin n → Option (Option AcceptResponse)} (accepts : round.phase = .accepting value outcomes)
      (received : .acceptReply r i request response ∈ c.msgs) : RoundTurn c label r round
        (.accepting value (Function.update outcomes i (some (some response))))
  | concludes {phase : RoundPhase n} {value : String} {outcomes : Fin n → Option (Option AcceptResponse)}
      (accepts : round.phase = .accepting value outcomes) (joined : ∀ peer, (outcomes peer).isSome = true) :
      RoundTurn c label r round phase
  | returns (last : (∃ value, round.phase = .learning value) ∨ round.phase = .forwarding) :
      RoundTurn c label r round .finished

/-- What one step does to the list of rounds: nothing, new rounds, or a turn of one of them. -/
inductive RoundsStep (c : Cluster n) (label : Label n) (c' : Cluster n) : Prop where
  | same (rests : c'.rounds = c.rounds)
  | grows {new : List (Round n)} (added : c'.rounds = c.rounds ++ new)
  | moves {r : Nat} {round : Round n} {phase : RoundPhase n} (found : c.rounds[r]? = some round)
      (turn : RoundTurn c label r round phase) (set : c'.rounds = c.rounds.set r { round with phase })

theorem start_rounds {i : Fin n} {seq : Int} {v : String} (started : c.start i seq v = some c') :
    RoundsStep c label c' := by
  obtain ⟨_, _, ⟨new, grown⟩, _⟩ := start_grows started
  exact .grows grown

theorem begin_rounds {r : Nat} (taken : c.begin r = some c') : RoundsStep c label c' := by
  simp only [Cluster.begin] at taken
  split at taken
  · cases taken
  next round found =>
    split at taken
    next waits =>
      split at taken
      next free =>
        (repeat' split at taken) <;> cases taken <;> exact .moves found (.begins waits free) rfl
      · cases taken
    · cases taken

theorem propose_rounds {r : Nat} (taken : c.propose r = some c') : RoundsStep c label c' := by
  unfold Cluster.propose at taken
  split at taken
  · cases taken
  next round found =>
    split at taken
    next prepares =>
      split at taken
      next done =>
        (repeat' split at taken) <;> cases taken <;> exact .moves found (.proposes prepares done) rfl
      · cases taken
    · cases taken

theorem conclude_rounds {r : Nat} (taken : c.conclude r = some c') : RoundsStep c label c' := by
  unfold Cluster.conclude at taken
  split at taken
  · cases taken
  next round found =>
    split at taken
    next accepts =>
      split at taken
      next joined =>
        (repeat' split at taken) <;> cases taken <;> exact .moves found (.concludes accepts joined) rfl
      · cases taken
    · cases taken

/-- The return of a forward ends the round that has waited for it. -/
theorem forwardReturns_rounds {f : Nat} (taken : c.forwardReturns f = some c') : RoundsStep c label c' := by
  unfold Cluster.forwardReturns at taken
  split at taken
  · cases taken
  next forward there =>
    split at taken
    next calls =>
      have returned := (Option.some.inj taken).symm
      cases parent : forward.parent with
      | none =>
          rw [parent] at returned
          exact .same (by rw [returned]; rfl)
      | some r =>
          rw [parent] at returned
          simp only [Cluster.endParent] at returned
          split at returned
          · exact .same (by rw [returned]; rfl)
          next waiting found =>
            split at returned
            next forwarding => exact .moves found (.returns (.inr forwarding)) (by rw [returned]; rfl)
            · exact .same (by rw [returned]; rfl)
    · cases taken

/-- A round hears a peer only by a reply to its own call. -/
theorem receive_rounds {k : Nat} (taken : c.receive k = some c') : RoundsStep c label c' := by
  simp only [Cluster.receive, Cluster.acceptOutcome] at taken
  split at taken
  case h_1 r i promise sent =>
    split at taken
    · cases taken
    next round found =>
      split at taken
      next prepares =>
        split at taken
        next place =>
          cases taken
          exact .moves found (.hears prepares place.1 (List.mem_of_getElem? sent)) rfl
        · cases taken
      · cases taken
  case h_2 r i request response sent =>
    split at taken
    · cases taken
    next round found =>
      split at taken
      next accepts =>
        split at taken
        · cases taken
        · cases taken
          exact .moves found (.counts accepts (List.mem_of_getElem? sent)) rfl
      · cases taken
  all_goals (repeat' split at taken) <;> cases taken <;> exact .same rfl

theorem step_rounds (taken : c.step label = some c') : RoundsStep c label c' := by
  cases label with
  | start i seq v => exact start_rounds taken
  | begin r => exact begin_rounds taken
  | propose r => exact propose_rounds taken
  | conclude r => exact conclude_rounds taken
  | forwardReturns f => exact forwardReturns_rounds taken
  | receive k => exact receive_rounds taken
  | finishLearn r =>
      simp only [Cluster.step, Cluster.finishLearn] at taken
      split at taken
      · cases taken
      next round found =>
        split at taken
        next value learns =>
          cases taken
          exact .moves found (.returns (.inl ⟨value, learns⟩)) rfl
        · cases taken
  | forward f =>
      simp only [Cluster.step, Cluster.forward] at taken
      (repeat' split at taken) <;> cases taken
      · exact .grows rfl
      · exact .same rfl
  | deliver k =>
      simp only [Cluster.step, Cluster.deliver] at taken
      split at taken
      case h_5 g i seq v sent => exact start_rounds taken
      all_goals (repeat' split at taken) <;> cases taken <;> exact .same rfl
  | prepareFails r =>
      simp only [Cluster.step, Cluster.prepareFails] at taken
      split at taken
      · cases taken
      next round found =>
        split at taken
        next prepares =>
          split at taken <;> cases taken
          exact .moves found (.loses rfl prepares) rfl
        · cases taken
  | acceptFails r i =>
      simp only [Cluster.step, Cluster.acceptOutcome] at taken
      split at taken
      · cases taken
      next round found =>
        split at taken
        next accepts =>
          split at taken <;> cases taken
          exact .moves found (.drops rfl accepts) rfl
        · cases taken
  | _ => exact .same (background_rests rfl taken).1

/-- A round stays in its place, and either rests or takes the turn of the step. -/
theorem step_round (taken : c.step label = some c') {r : Nat} {round : Round n}
    (found : c.rounds[r]? = some round) :
    ∃ phase, c'.rounds[r]? = some { round with phase } ∧ RoundTurn c label r round phase := by
  cases step_rounds taken with
  | same rests => exact ⟨round.phase, by rw [rests]; exact found, .rests⟩
  | grows added =>
      rw [added]
      exact ⟨round.phase, place_append found _, .rests⟩
  | moves there turn set =>
      rw [set]
      exact place_set_turn (fun round phase => { round with phase }) there turn found rfl .rests

/-- A handler answers only while the mutex of its server is free. -/
theorem answer_needs_mu (taken : c.step label = some c') {i : Fin n} (held : c.muFree i = false)
    {message : Msg n} {r : Nat} (answers : message.answers = some (r, i)) (sent : message ∈ c'.msgs) :
    message ∈ c.msgs := by
  have handles {k : Nat} {asked : Msg n} {j : Fin n} (named : label = .deliver k)
      (found : c.msgs[k]? = some asked) (peer : (∃ r request, asked = .prepareRequest r j request) ∨
        ∃ r request, asked = .acceptRequest r j request) : c.muFree j = true := by
    by_contra locked
    obtain ⟨r, request, rfl⟩ | ⟨r, request, rfl⟩ := peer <;>
      simp [named, Cluster.step, Cluster.deliver, found, locked] at taken
  cases (Cluster.step_event taken).replies with
  | requests added asks =>
      rw [added] at sent
      obtain before | new := List.mem_append.mp sent
      · exact before
      · have asked := asks message new
        cases message <;> simp [Msg.answers, Msg.isReply] at answers asked
  | @prepare k r j request asked =>
      obtain before | new := List.mem_append.mp sent
      · exact before
      · obtain ⟨_, _, rfl⟩ := reply_of_mem new
        cases answers
        cases held.symm.trans (handles rfl asked (.inl ⟨r, request, rfl⟩))
  | @accept k r j request asked =>
      obtain before | new := List.mem_append.mp sent
      · exact before
      · obtain ⟨_, _, rfl⟩ := reply_of_mem new
        cases answers
        cases held.symm.trans (handles rfl asked (.inr ⟨r, request, rfl⟩))
  | elect =>
      obtain before | new := List.mem_append.mp sent
      · exact before
      · cases List.mem_singleton.mp new
        cases answers
  | heartbeat =>
      obtain before | new := List.mem_append.mp sent
      · exact before
      · obtain ⟨_, _, rfl⟩ := reply_of_mem new
        cases answers

/-- The execution of `StartOnForward` takes the mutex and calls the leader, which is all that the step sends. -/
structure CallsLeader (c c' : Cluster n) (f : Nat) (i : Fin n) (seq : Int) (v : String) (forward : Forward n) :
    Prop where
  found : c.forwards[f]? = some forward
  waits : forward.phase = .waiting
  calls : c'.forwards[f]? = some { forward with phase := .calling }
  sends : c'.msgs = c.msgs ++ [.forwardRequest f i seq v]

theorem forwardRequest_sent (taken : c.step label = some c') {f : Nat} {i : Fin n} {seq : Int} {v : String}
    (sent : .forwardRequest f i seq v ∈ c'.msgs) : .forwardRequest f i seq v ∈ c.msgs ∨
      ∃ forward, CallsLeader c c' f i seq v forward := by
  have added {new : List (Msg n)} (member : .forwardRequest f i seq v ∈ c.msgs ++ new)
      (silent : .forwardRequest f i seq v ∉ new) : .forwardRequest f i seq v ∈ c.msgs ∨
        ∃ forward, CallsLeader c c' f i seq v forward :=
    .inl ((List.mem_append.mp member).resolve_right silent)
  have prepares {r : Nat} {round : Round n} {number : Int} {called : Nat} :
      .forwardRequest f i seq v ∉ Cluster.prepareRequests r round number called := by
    unfold Cluster.prepareRequests
    split <;> simp
  cases Cluster.step_event taken with
  | start | forwardHandled => exact .inl (by rwa [Cluster.spawn_msgs] at sent)
  | @forwardCalls g forward forwards leader found moved =>
      obtain before | new := List.mem_append.mp sent
      · exact .inl before
      · cases List.mem_singleton.mp new
        simp only [Cluster.step, Cluster.forward, found] at taken
        split at taken
        next ready =>
          split at taken
          · have silent := congrArg Cluster.msgs (Option.some.inj taken)
            exact absurd (List.self_eq_append_right.mp silent) (List.cons_ne_nil _ _)
          · split at taken
            · cases taken
            · have same := congrArg Cluster.forwards (Option.some.inj taken)
              refine .inr ⟨forward, found, ready.1, ?_, rfl⟩
              exact (congrArg (·[f]?) same.symm).trans (place_set_self found)
        · cases taken
  | beginPrepare => exact added sent prepares
  | skip | proposeAccept => exact added sent (by simp [Cluster.acceptRequests])
  | prepareOutcome =>
      unfold Cluster.prepareOutcome at sent
      dsimp only at sent
      split at sent
      · exact added sent (by simp)
      · exact added sent prepares
  | proposeLearn | concludeLearn => exact added sent (by simp [Cluster.learnRequests])
  | electOutcome | detectCampaign => exact added sent (by simp [Cluster.electRequests])
  | electionEnds =>
      unfold Cluster.endElection at sent
      dsimp only at sent
      split at sent
      · exact .inl sent
      · exact .inl sent
      · exact added sent (by simp [Cluster.electRequests])
  | sendBeat => exact added sent (by simp)
  | prepareHandled | acceptHandled | heartbeatHandled =>
      obtain before | new := List.mem_append.mp sent
      · exact .inl before
      · obtain ⟨_, _, other⟩ := reply_of_mem new
        cases other
  | electHandled => exact added sent (by simp)
  | _ => exact .inl sent

end Moves

section Knots

variable {s next : Served n} {label : Label n}

namespace Served

theorem step_cluster (taken : s.step label = some next) : s.cluster.step label = some next.cluster ∧
    next.handlers = s.handlers ++ s.cluster.handler label next.cluster := by
  obtain ⟨c', moved, rfl⟩ := Option.map_eq_some_iff.mp taken
  exact ⟨moved, rfl⟩

/-- A new handler of the call runs where the mutex is free. -/
theorem handler_needs_mu (taken : s.step label = some next) {entry : Nat × Option (Party n)}
    (member : entry ∈ next.handlers) : entry ∈ s.handlers ∨ ∃ peer seq v,
      .forwardRequest entry.1 peer seq v ∈ s.cluster.msgs ∧ s.cluster.muFree peer = true := by
  obtain ⟨moved, grown⟩ := step_cluster taken
  rw [grown] at member
  obtain before | new := List.mem_append.mp member
  · exact .inl before
  · right
    unfold Cluster.handler at new
    split at new
    next k =>
      split at new
      next f peer seq v sent =>
        cases List.mem_singleton.mp new
        simp only [Cluster.step, Cluster.deliver, sent] at moved
        exact ⟨peer, seq, v, List.mem_of_getElem? sent, (start_grows moved).1⟩
      · cases new
    · cases new

/-- A waiting execution of `StartOnForward` does not return, and it keeps the mutex if it has it. -/
theorem forward_stays (answered : s.Answered label) (taken : s.step label = some next) {f : Nat}
    {party : Party n} (waiting : s.Waits (.forward f) party) {forward : Forward n}
    (found : s.cluster.forwards[f]? = some forward) :
    ∃ phase, next.cluster.forwards[f]? = some { forward with phase } ∧ phase ≠ .finished ∧
      (forward.phase ≠ .waiting → phase = forward.phase) := by
  obtain ⟨phase, after, move⟩ := step_forward (step_cluster taken).1 found
  refine ⟨phase, after, ?_⟩
  cases move with
  | rests =>
      refine ⟨?_, fun _ => rfl⟩
      cases waiting with
      | takesMu there same | callsLeader there same | joinsRound there same | joinsForward there same
      | proposesItself there same =>
          cases there.symm.trans found
          rw [same]
          nofun
  | locks waits free holds =>
      refine ⟨?_, fun other => absurd waits other⟩
      rintro rfl
      cases holds
  | returns named returns =>
      subst named
      exfalso
      unfold Cluster.mayReturn at returns
      cases waiting with
      | takesMu there waits =>
          cases there.symm.trans found
          rw [waits] at returns
          cases returns
      | callsLeader there calls _ unhandled =>
          cases there.symm.trans found
          obtain ⟨⟨entry, member, same⟩, _⟩ := answered forward found calls
          exact unhandled entry member same
      | joinsRound there calls handled active | joinsForward there calls handled active =>
          cases there.symm.trans found
          exact (answered forward found calls).2 _ handled rfl _ rfl active
      | proposesItself there proposes active =>
          cases there.symm.trans found
          rw [proposes] at returns
          obtain ⟨round, member, running⟩ := active
          obtain ⟨other, there, done⟩ := (Option.any_eq_true _ _).mp returns
          cases there.symm.trans member
          cases done.symm.trans running

theorem muFree_of_waits {i : Fin n} {party : Party n} (waiting : s.Waits (.mu i) party) :
    s.cluster.muFree i = false := by
  cases waiting with
  | holdsMu found own holds =>
      refine List.all_eq_false.mpr ⟨_, List.mem_of_getElem? found, ?_⟩
      simp [own, holds]

theorem slotFree_of_waits {i : Fin n} {seq : Int} {party : Party n} (waiting : s.Waits (.slotMu i seq) party) :
    s.cluster.slotFree i seq = false := by
  cases waiting with
  | holdsSlot found own same holds =>
      refine List.all_eq_false.mpr ⟨_, List.mem_of_getElem? found, ?_⟩
      simp [own, same, holds]

/-- A round that waits for a waiting party stays in its phase; in its accept phase it can hear others. -/
theorem round_stays (answered : s.Answered label) (taken : s.step label = some next) {r : Nat}
    {party last : Party n} (waiting : s.Waits (.round r) party) (blocked : s.Waits party last) {round : Round n}
    (found : s.cluster.rounds[r]? = some round) :
    ∃ phase, next.cluster.rounds[r]? = some { round with phase } ∧ (phase = round.phase ∨
      ∃ value outcomes i request response, round.phase = .accepting value outcomes ∧
        .acceptReply r i request response ∈ s.cluster.msgs ∧
        phase = .accepting value (Function.update outcomes i (some (some response)))) := by
  obtain ⟨phase, after, turn⟩ := step_round (step_cluster taken).1 found
  refine ⟨phase, after, ?_⟩
  cases turn with
  | rests => exact .inl rfl
  | begins waits slotFree =>
      exfalso
      cases waiting with
      | takesSlot there =>
          cases there.symm.trans found
          cases (slotFree_of_waits blocked).symm.trans slotFree
      | prepares there phase | accepts there phase =>
          cases there.symm.trans found
          cases phase.symm.trans waits
  | loses named | drops named =>
      subst named
      exact answered.elim
  | hears hearing place received =>
      exfalso
      cases waiting with
      | takesSlot there phase | accepts there phase =>
          cases there.symm.trans found
          cases phase.symm.trans hearing
      | prepares there phase here _ unanswered =>
          cases there.symm.trans found
          cases phase.symm.trans hearing
          cases Fin.ext (here.symm.trans place)
          exact unanswered _ received rfl
  | proposes proposing done =>
      exfalso
      cases waiting with
      | takesSlot there phase | accepts there phase =>
          cases there.symm.trans found
          cases phase.symm.trans proposing
      | prepares there phase _ continues =>
          cases there.symm.trans found
          cases phase.symm.trans proposing
          cases continues.symm.trans done
  | @counts i request response value outcomes accepts received =>
      exact .inr ⟨value, outcomes, i, request, response, accepts, received, rfl⟩
  | concludes concluding joined =>
      exfalso
      cases waiting with
      | takesSlot there phase | prepares there phase =>
          cases there.symm.trans found
          cases phase.symm.trans concluding
      | @accepts _ i _ _ _ there phase missing =>
          cases there.symm.trans found
          cases phase.symm.trans concluding
          have heard := joined i
          rw [missing] at heard
          cases heard
  | returns final =>
      exfalso
      cases waiting with
      | takesSlot there phase | prepares there phase | accepts there phase =>
          cases there.symm.trans found
          obtain ⟨_, final⟩ | final := final <;> cases phase.symm.trans final

/-- Who waits has not returned, and a mutex that waits is held. -/
theorem active_of_waits {party other : Party n} (waiting : s.Waits party other) : s.cluster.Active party := by
  cases waiting with
  | takesMu found phase | callsLeader found phase | joinsRound found phase | joinsForward found phase
  | proposesItself found phase => exact ⟨_, found, by rw [phase]; nofun⟩
  | takesSlot found phase | prepares found phase | accepts found phase =>
      exact ⟨_, found, by simp [Round.ended, phase]⟩
  | holdsMu found own holds => exact muFree_of_waits (.holdsMu found own holds)
  | holdsSlot found own same holds => exact slotFree_of_waits (.holdsSlot found own same holds)

theorem forward_active (answered : s.Answered label) (taken : s.step label = some next) {f : Nat}
    {party : Party n} (waiting : s.Waits (.forward f) party) : next.cluster.Active (.forward f) := by
  obtain ⟨forward, found, _⟩ := active_of_waits waiting
  obtain ⟨phase, after, unfinished, _⟩ := forward_stays answered taken waiting found
  exact ⟨_, after, unfinished⟩

theorem round_active (answered : s.Answered label) (taken : s.step label = some next) {r : Nat}
    {party last : Party n} (waiting : s.Waits (.round r) party) (blocked : s.Waits party last) :
    next.cluster.Active (.round r) := by
  obtain ⟨round, found, active⟩ := active_of_waits waiting
  obtain ⟨phase, after, same⟩ := round_stays answered taken waiting blocked found
  refine ⟨_, after, ?_⟩
  obtain rfl | ⟨_, _, _, _, _, _, _, rfl⟩ := same
  · exact active
  · rfl

/-- A step without a failed call leaves every party waiting that waits for waiting ones. -/
theorem patient (answered : s.Answered label) (taken : s.step label = some next) :
    Patient Waits s next := by
  intro first second third fourth one two three
  have moved := (step_cluster taken).1
  cases one with
  | @takesMu f forward found waits =>
      obtain ⟨phase, after, move⟩ := step_forward moved found
      cases move with
      | rests => exact .takesMu after waits
      | locks _ free => cases (muFree_of_waits two).symm.trans free
      | returns _ returns =>
          unfold Cluster.mayReturn at returns
          rw [waits] at returns
          cases returns
  | @callsLeader f forward peer found calls asked unhandled =>
      obtain ⟨phase, after, _, stays⟩ :=
        forward_stays answered taken (.callsLeader found calls asked unhandled) found
      have same := (stays (by rw [calls]; nofun)).trans calls
      refine .callsLeader after same (fun i seq v sent => ?_) fun entry member here => ?_
      · obtain before | ⟨other, new⟩ := forwardRequest_sent moved sent
        · exact asked i seq v before
        · cases new.found.symm.trans found
          cases new.waits.symm.trans calls
      · obtain before | ⟨i, seq, v, sent, free⟩ := handler_needs_mu taken member
        · exact unhandled entry before here
        · rw [here] at sent
          rw [asked i seq v sent] at free
          cases (muFree_of_waits two).symm.trans free
  | @joinsRound f r forward found calls handled active =>
      obtain ⟨phase, after, _, stays⟩ := forward_stays answered taken (.joinsRound found calls handled active) found
      refine .joinsRound after ((stays (by rw [calls]; nofun)).trans calls) ?_ (round_active answered taken two three)
      rw [(step_cluster taken).2]
      exact List.mem_append_left _ handled
  | @joinsForward f g forward found calls handled active =>
      obtain ⟨phase, after, _, stays⟩ :=
        forward_stays answered taken (.joinsForward found calls handled active) found
      refine .joinsForward after ((stays (by rw [calls]; nofun)).trans calls) ?_ (forward_active answered taken two)
      rw [(step_cluster taken).2]
      exact List.mem_append_left _ handled
  | @proposesItself f r forward found proposes active =>
      obtain ⟨phase, after, _, stays⟩ := forward_stays answered taken (.proposesItself found proposes active) found
      exact .proposesItself after ((stays (by rw [proposes]; nofun)).trans proposes)
        (round_active answered taken two three)
  | @takesSlot r round found waits =>
      obtain ⟨phase, after, same⟩ := round_stays answered taken (.takesSlot found waits) two found
      obtain rfl | ⟨_, _, _, _, _, accepts, _⟩ := same
      · exact .takesSlot after waits
      · cases waits.symm.trans accepts
  | @prepares r i round number highestN outcomes found prepares place continues unanswered =>
      obtain ⟨phase, after, same⟩ :=
        round_stays answered taken (.prepares found prepares place continues unanswered) two found
      obtain rfl | ⟨_, _, _, _, _, accepts, _⟩ := same
      · exact .prepares after prepares place continues fun message sent answers =>
          unanswered message (answer_needs_mu moved (muFree_of_waits two) answers sent) answers
      · cases prepares.symm.trans accepts
  | @accepts r i round value outcomes found accepts missing unanswered =>
      have silent (message : Msg n) (sent : message ∈ next.cluster.msgs) : message.answers ≠ some (r, i) :=
        fun answers => unanswered message (answer_needs_mu moved (muFree_of_waits two) answers sent) answers
      obtain ⟨phase, after, same⟩ := round_stays answered taken (.accepts found accepts missing unanswered) two found
      obtain rfl | ⟨_, _, j, request, response, again, received, rfl⟩ := same
      · exact .accepts after accepts missing silent
      · cases again.symm.trans accepts
        refine .accepts after rfl ?_ silent
        have other : i ≠ j := by
          rintro rfl
          exact unanswered _ received rfl
        rw [Function.update_of_ne other]
        exact missing
  | @holdsMu i f forward found own holds =>
      obtain ⟨phase, after, _, stays⟩ := forward_stays answered taken two found
      refine .holdsMu after own ?_
      have locked : forward.phase ≠ .waiting := by
        intro waits
        simp [Forward.holdsMu, waits] at holds
      rw [stays locked]
      exact holds
  | @holdsSlot i seq r round found own same holds =>
      obtain ⟨phase, after, stays⟩ := round_stays answered taken two three found
      refine .holdsSlot after own same ?_
      obtain rfl | ⟨_, _, _, _, _, _, _, rfl⟩ := stays
      · exact holds
      · rfl

end Served

end Knots

end Chubby.Paxos
