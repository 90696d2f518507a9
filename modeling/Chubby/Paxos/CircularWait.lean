/-
This file proves that a proposal which is forwarded to a working leader and two servers that forward to
each other wait for themselves for ever.
-/

import Chubby.Paxos.Waits

namespace Chubby.Paxos

open Chubby.Library

variable {n : Nat}

/-- The round has called the peer and joins the call. -/
def Round.Calls (round : Round n) (i : Fin n) : Prop :=
  match round.phase with
  | .preparing _ highestN outcomes => outcomes.length = i.val ∧ prepareDone n round.v highestN outcomes = false
  | .accepting _ outcomes => outcomes i = none
  | _ => False

instance (round : Round n) (i : Fin n) : Decidable (round.Calls i) :=
  match phase : round.phase with
  | .preparing _ highestN outcomes =>
      decidable_of_iff (outcomes.length = i.val ∧ prepareDone n round.v highestN outcomes = false)
        (by simp [Round.Calls, phase])
  | .accepting _ outcomes => decidable_of_iff (outcomes i = none) (by simp [Round.Calls, phase])
  | .waiting | .learning _ | .forwarding | .finished => isFalse (by simp [Round.Calls, phase])

/-- A server has a thread that holds its mutex, and a thread for which the first one waits needs it. -/
inductive Served.Wedge (s : Served n) : Set (Party n) → Prop where
  | forwarded {f r : Nat} {forward : Forward n} {round : Round n}
      (found : s.cluster.forwards[f]? = some forward) (calls : forward.phase = .calling)
      (handled : (f, some (.round r)) ∈ s.handlers) (there : s.cluster.rounds[r]? = some round)
      (asks : round.Calls forward.server) : Wedge s {.forward f, .round r, .mu forward.server}
  | crossed {f g : Nat} {first second : Forward n} {seq seq' : Int} {v v' : String}
      (found : s.cluster.forwards[f]? = some first) (there : s.cluster.forwards[g]? = some second)
      (calls : first.phase = .calling) (calls' : second.phase = .calling)
      (asks : .forwardRequest f second.server seq v ∈ s.cluster.msgs)
      (asks' : .forwardRequest g first.server seq' v' ∈ s.cluster.msgs)
      (unhandled : ∀ entry ∈ s.handlers, entry.1 ≠ f ∧ entry.1 ≠ g) :
      Wedge s {.forward f, .mu second.server, .forward g, .mu first.server}

section Invariants

variable {s next : Served n} {label : Label n}

/-- An answer belongs to a round that has begun. -/
theorem answers_begun {c : Cluster n} (reached : c.Reached) {message : Msg n} {r : Nat} {i : Fin n}
    (answers : message.answers = some (r, i)) (sent : message ∈ c.msgs) : r < c.rounds.length := by
  cases message with
  | prepareReply =>
      cases answers
      obtain ⟨_, found, _⟩ := prepareReply_round reached sent
      exact (List.getElem?_eq_some_iff.mp found).1
  | acceptReply =>
      cases answers
      obtain ⟨_, found, _⟩ := acceptRequest_round reached (acceptReply_request reached sent)
      exact (List.getElem?_eq_some_iff.mp found).1
  | _ => cases answers

/-- What the handlers, the calls to the leader and the threads under the mutex have to do with each other. -/
structure Served.Tied (s : Served n) : Prop where
  called : ∀ (f : Nat) i seq v, .forwardRequest f i seq v ∈ s.cluster.msgs →
    ∃ forward : Forward n, s.cluster.forwards[f]? = some forward ∧ forward.phase ≠ .waiting
  once : ∀ f i j seq seq' v v', .forwardRequest f i seq v ∈ s.cluster.msgs →
    .forwardRequest f j seq' v' ∈ s.cluster.msgs → i = j
  handled : ∀ entry ∈ s.handlers, ∃ i seq v, .forwardRequest entry.1 i seq v ∈ s.cluster.msgs
  unanswered : ∀ (f r : Nat) (forward : Forward n), (f, some (.round r)) ∈ s.handlers → s.cluster.forwards[f]? = some forward →
    forward.phase = .calling → ∀ message ∈ s.cluster.msgs, message.answers ≠ some (r, forward.server)

theorem Served.tied_initial : (Served.initial n).Tied := ⟨nofun, nofun, nofun, nofun⟩

theorem muFree_of_holds {c : Cluster n} {f : Nat} {forward : Forward n} (found : c.forwards[f]? = some forward)
    (holds : forward.holdsMu = true) : c.muFree forward.server = false := by
  refine List.all_eq_false.mpr ⟨forward, List.mem_of_getElem? found, ?_⟩
  simp [holds]

theorem spawned_round {c c' : Cluster n} {r : Nat} (spawned : c.spawned c' = some (.round r)) :
    r = c.rounds.length := by
  unfold Cluster.spawned at spawned
  split at spawned
  · cases spawned
    rfl
  · split at spawned <;> cases spawned

theorem Served.Tied.step (tied : s.Tied) (reached : s.cluster.Reached) (taken : Served.step s label = some next) :
    next.Tied where
  called f i seq v sent := by
    obtain ⟨moved, _⟩ := step_cluster taken
    obtain before | ⟨forward, new⟩ := forwardRequest_sent moved sent
    · obtain ⟨forward, found, locked⟩ := tied.called f i seq v before
      obtain ⟨phase, after, move⟩ := step_forward moved found
      refine ⟨_, after, ?_⟩
      cases move with
      | rests => exact locked
      | locks waits => exact absurd waits locked
      | returns => nofun
    · exact ⟨_, new.calls, nofun⟩
  once f i j seq seq' v v' first second := by
    obtain ⟨moved, _⟩ := step_cluster taken
    have apart {i j : Fin n} {seq seq' : Int} {v v' : String} {forward : Forward n}
        (before : .forwardRequest f i seq v ∈ s.cluster.msgs)
        (new : CallsLeader s.cluster next.cluster f j seq' v' forward) : False := by
      obtain ⟨other, found, locked⟩ := tied.called f i seq v before
      cases new.found.symm.trans found
      exact locked new.waits
    obtain before | ⟨forward, new⟩ := forwardRequest_sent moved first
    · obtain before' | ⟨_, new'⟩ := forwardRequest_sent moved second
      · exact tied.once f i j seq seq' v v' before before'
      · exact (apart before new').elim
    · obtain before' | ⟨_, new'⟩ := forwardRequest_sent moved second
      · exact (apart before' new).elim
      · have same := List.append_cancel_left (new.sends.symm.trans new'.sends)
        cases same
        rfl
  handled entry member := by
    obtain ⟨moved, _⟩ := step_cluster taken
    have event := Cluster.step_event moved
    obtain before | ⟨i, seq, v, sent, _⟩ := handler_needs_mu taken member
    · obtain ⟨i, seq, v, sent⟩ := tied.handled entry before
      exact ⟨i, seq, v, event.sent sent⟩
    · exact ⟨i, seq, v, event.sent sent⟩
  unanswered f r forward member after calls message sent answers := by
    obtain ⟨moved, grown⟩ := step_cluster taken
    have called (i : Fin n) (seq : Int) (v : String) (asked : .forwardRequest f i seq v ∈ s.cluster.msgs) :
        s.cluster.forwards[f]? = some forward := by
      obtain waits | ⟨other, found, same, move⟩ := step_forward_before moved after
      · cases waits.symm.trans calls
      · obtain ⟨again, there, locked⟩ := tied.called f i seq v asked
        cases found.symm.trans there
        rw [found, same]
        rw [calls] at move
        generalize phase : ForwardPhase.calling = reached at move
        cases move with
        | rests => rw [calls, phase]
        | locks waits => exact absurd waits locked
        | returns => cases phase
    rw [grown] at member
    obtain before | new := List.mem_append.mp member
    · obtain ⟨i, seq, v, asked⟩ := tied.handled _ before
      have found := called i seq v asked
      have locked := muFree_of_holds found (by simp [Forward.holdsMu, calls])
      exact tied.unanswered f r forward before found calls message (answer_needs_mu moved locked answers sent) answers
    · unfold Cluster.handler at new
      split at new
      next k =>
        split at new
        next g i seq v asked =>
          have spawned := congrArg Prod.snd (List.mem_singleton.mp new)
          simp only [Cluster.step, Cluster.deliver, asked] at moved
          rw [(start_grows moved).2.1] at sent
          have begun := answers_begun reached answers sent
          rw [spawned_round spawned.symm] at begun
          exact absurd begun (lt_irrefl _)
        · cases new
      · cases new

end Invariants

section Wedges

variable {s final : Served n} {parties : Set (Party n)}

theorem served_reached (reached : Reachable Served.step (Served.initial n) s) : s.cluster.Reached ∧ s.Tied := by
  refine @reachable_invariant _ _ _ _ _ (fun s => s.cluster.Reached ∧ s.Tied) ?_ ?_ reached
  · exact ⟨.refl _ _, Served.tied_initial⟩
  · rintro s label next _ ⟨reached, tied⟩ taken
    exact ⟨reached.step (Served.step_cluster taken).1, tied.step reached taken⟩

/-- A round that has called a server without an answer waits for the server's mutex. -/
theorem Round.Calls.waits {round : Round n} {i : Fin n} (calls : round.Calls i) {r : Nat}
    (found : s.cluster.rounds[r]? = some round)
    (unanswered : ∀ message ∈ s.cluster.msgs, message.answers ≠ some (r, i)) : s.Waits (.round r) (.mu i) := by
  unfold Round.Calls at calls
  split at calls
  next phase => exact .prepares found phase calls.1 calls.2 unanswered
  next phase => exact .accepts found phase calls unanswered
  · exact calls.elim

theorem Served.Wedge.knot (wedge : s.Wedge parties) (tied : s.Tied) : Knot s.Waits parties := by
  cases wedge with
  | @forwarded f r forward round found calls handled there asks =>
      have holds : s.Waits (.mu forward.server) (.forward f) :=
        .holdsMu found rfl (by simp [Forward.holdsMu, calls])
      have joins := asks.waits there (tied.unanswered f r forward handled found calls)
      exact knot_of_circle (.joinsRound found calls handled (Served.active_of_waits joins)) joins holds
  | @crossed f g first second seq seq' v v' found there calls calls' asks asks' unhandled =>
      have one : s.Waits (.forward f) (.mu second.server) :=
        .callsLeader found calls (fun i seq' v' other => tied.once f i _ seq' seq v' v other asks)
          fun entry member => (unhandled entry member).1
      have two : s.Waits (.mu second.server) (.forward g) :=
        .holdsMu there rfl (by simp [Forward.holdsMu, calls'])
      have three : s.Waits (.forward g) (.mu first.server) :=
        .callsLeader there calls' (fun i seq v other => tied.once g i _ seq seq' v v' other asks')
          fun entry member => (unhandled entry member).2
      have four : s.Waits (.mu first.server) (.forward f) :=
        .holdsMu found rfl (by simp [Forward.holdsMu, calls])
      rintro party (rfl | rfl | rfl | rfl)
      · exact ⟨_, by simp, one⟩
      · exact ⟨_, by simp, two⟩
      · exact ⟨_, by simp, three⟩
      · exact ⟨_, by simp, four⟩

/-- While the mutex of a server is part of a knot, the server answers no call. -/
theorem unanswered_of_knot (knot : Knot s.Waits parties) {labels : List (Label n)}
    (answered : Guarded Served.step Served.Answered s labels) (ran : run Served.step s labels = some final) {i : Fin n}
    (locked : .mu i ∈ parties) {message : Msg n} {r : Nat} (answers : message.answers = some (r, i))
    (sent : message ∈ final.cluster.msgs) : message ∈ s.cluster.msgs := by
  have both : Knot final.Waits parties ∧ (message ∈ final.cluster.msgs → message ∈ s.cluster.msgs) := by
    refine @run_invariant _ _ _ _
      (fun state => Knot state.Waits parties ∧ (message ∈ state.cluster.msgs → message ∈ s.cluster.msgs))
      ?_ _ _ _ ⟨knot, id⟩ answered ran
    rintro state label next ⟨knot, before⟩ allowed taken
    obtain ⟨_, _, waiting⟩ := knot _ locked
    exact ⟨(Served.patient allowed taken).knot knot, fun sent =>
      before (answer_needs_mu (Served.step_cluster taken).1 (Served.muFree_of_waits waiting) answers sent)⟩
  exact both.2 sent

/-- A follower forwards a proposal and the leader starts its round. -/
def forwardedOnce (follower : Fin 3) : List (Label 3) :=
  [.start follower 1 "x#SHARED", .forward 0, .deliver 0, .begin 0]

/-- The other servers accept, and the leader proposes for the next slot. -/
def acceptedByOthers (leader : Fin 3) : List (Label 3) :=
  [.deliver 1, .deliver 3, .receive 4, .receive 5, .start leader 2 "y#SHARED", .begin 1]

end Wedges

end Chubby.Paxos
