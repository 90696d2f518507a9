/-
This file proves when the promises of the servers bind the accepts that follow them, for handlers that run
as a whole.
-/

import Chubby.Paxos.Threads
import Chubby.Paxos.SlotEffects

namespace Chubby.Paxos

open Chubby.Library

variable {n : Nat}

/-- The server answered the Prepare of this number for the slot with OK, which names the number. -/
def NumberPromised (c : Cluster n) (i : Fin n) (seq number : Int) : Prop :=
  ∃ r promise, .prepareRequest r i ⟨seq, number⟩ ∈ c.msgs ∧ .prepareReply r i promise ∈ c.msgs ∧
    promise.response.status = .ok ∧ promise.response.highestN = number

/-- The round sent its own Prepare for the slot with this number. -/
def PreparedWith (c : Cluster n) (r : Nat) (seq number : Int) : Prop :=
  ∃ peer, .prepareRequest r peer ⟨seq, number⟩ ∈ c.msgs

/-- An Accept that is answered with OK comes from a round whose number reaches every promise. -/
def PromiseBinds (c : Cluster n) : Label n → Prop
  | .deliver k => ∀ r i request, c.msgs[k]? = some (.acceptRequest r i request) →
      (∃ response, ((c.servers i).accept i request).2 = .ok response ∧ response.status = .ok) →
      ∀ own number, PreparedWith c r request.seq own → NumberPromised c i request.seq number →
        ¬ own < number
  | _ => True

/-- An Accept that passes the tests of the handler comes from a round whose number reaches the slot's
promised number, if there is one. -/
def NumberReaches (c : Cluster n) : Label n → Prop
  | .deliver k => ∀ r i request, c.msgs[k]? = some (.acceptRequest r i request) →
      (c.servers i).Allows request → ∀ own, PreparedWith c r request.seq own →
        ((c.servers i).slotAt request.seq).nP = -1 ∨ ((c.servers i).slotAt request.seq).nP ≤ own
  | _ => True

/-- The number of a Prepare of the round for the slot. -/
def Msg.numberOf (r : Nat) (seq : Int) : Msg n → Option Int
  | .prepareRequest s _ request =>
      if s = r ∧ request.seq = seq then some request.proposalNumber else none
  | _ => none

def Msg.accept : Msg n → Option (Nat × Fin n × AcceptRequest)
  | .acceptRequest r i request => some (r, i, request)
  | _ => none

theorem preparedWith_iff {c : Cluster n} {r : Nat} {seq number : Int} :
    PreparedWith c r seq number ↔ ∃ message ∈ c.msgs, message.numberOf r seq = some number := by
  constructor
  · rintro ⟨peer, member⟩
    exact ⟨_, member, if_pos ⟨rfl, rfl⟩⟩
  · rintro ⟨message, member, named⟩
    cases message with
    | prepareRequest s peer request =>
        obtain ⟨⟨rfl, rfl⟩, same⟩ := Option.ite_none_right_eq_some.mp named
        cases same
        exact ⟨peer, member⟩
    | _ => cases named

theorem numberReaches_deliver {c : Cluster n} {k : Nat} : NumberReaches c (.deliver k) ↔
    ∀ call ∈ (c.msgs[k]?).bind Msg.accept, (c.servers call.2.1).Allows call.2.2 →
      ∀ message ∈ c.msgs, ∀ own ∈ message.numberOf call.1 call.2.2.seq,
        ((c.servers call.2.1).slotAt call.2.2.seq).nP = -1 ∨
          ((c.servers call.2.1).slotAt call.2.2.seq).nP ≤ own := by
  constructor
  · rintro reaches ⟨r, i, request⟩ called allowed message member own named
    obtain ⟨sent, found, same⟩ := Option.bind_eq_some_iff.mp called
    cases sent with
    | acceptRequest s j asked =>
        cases same
        exact reaches r i request found allowed own (preparedWith_iff.mpr ⟨message, member, named⟩)
    | _ => cases same
  · intro every r i request sent allowed own prepared
    obtain ⟨message, member, named⟩ := preparedWith_iff.mp prepared
    have called : (c.msgs[k]?).bind Msg.accept = some (r, i, request) :=
      Option.bind_eq_some_iff.mpr ⟨_, sent, rfl⟩
    exact every (r, i, request) called allowed message member own named

instance (c : Cluster n) : (label : Label n) → Decidable (NumberReaches c label)
  | .deliver _ => decidable_of_iff _ numberReaches_deliver.symm
  | .start _ _ _ | .begin _ | .propose _ | .conclude _ | .finishLearn _ | .forward _
  | .forwardReturns _ | .receive _ | .prepareFails _ | .acceptFails _ _ | .electFails _
  | .beatFails _ | .detect _ | .quietEnds _ | .concludeElection _ | .beat _ | .sendBeat _ =>
      isTrue trivial

/-- An OK answer to a Prepare names the number of a Prepare that the round sent to this server. -/
theorem promise_request {c : Cluster n} (reached : c.Reached) {r : Nat} {i : Fin n} {promise : Promise}
    (member : .prepareReply r i promise ∈ c.msgs) (ok : promise.response.status = .ok) :
    ∃ seq, .prepareRequest r i ⟨seq, promise.response.highestN⟩ ∈ c.msgs := by
  revert member ok
  revert promise i r
  refine @reachable_invariant _ _ _ _ c (fun c => ∀ {r : Nat} {i : Fin n} {promise : Promise},
    .prepareReply r i promise ∈ c.msgs → promise.response.status = .ok →
      ∃ seq, .prepareRequest r i ⟨seq, promise.response.highestN⟩ ∈ c.msgs) ?_ ?_ reached
  · intro r i promise member
    cases member
  · intro c label c' _ asked taken r i promise member ok
    have event := Cluster.step_event taken
    rcases event.prepareReply_cases member with before | ⟨k, request, _, sent, replied, _⟩
    · obtain ⟨seq, request⟩ := asked before ok
      exact ⟨seq, event.sent request⟩
    · refine ⟨request.seq, event.sent ?_⟩
      rw [PaxosImpl.prepare_ok_number replied ok]
      exact List.mem_of_getElem? sent

/-- The promises of the next state are the old ones and those of the step's effects. -/
theorem promised_step_iff {c c' : Cluster n} {label : Label n} (reached : c.Reached)
    (taken : c.step label = some c') {i : Fin n} {seq number : Int} : NumberPromised c' i seq number ↔
      NumberPromised c i seq number ∨ ∃ view, c.effect label i seq = .promised view number := by
  have event := Cluster.step_event taken
  have same {r : Nat} {first second : Fin n} {one two : PrepareRequest}
      (earlier : .prepareRequest r first one ∈ c'.msgs)
      (later : .prepareRequest r second two ∈ c'.msgs) : one.seq = two.seq := by
    obtain ⟨round, found, seq, _⟩ := prepareRequest_round (reached.step taken) earlier
    obtain ⟨round', found', seq', _⟩ := prepareRequest_round (reached.step taken) later
    rw [found] at found'
    cases found'
    exact seq.trans seq'.symm
  constructor
  · rintro ⟨r, promise, asked, member, ok, rfl⟩
    rcases event.prepareReply_cases member with before | ⟨k, request, rfl, sent, replied, _⟩
    · left
      obtain ⟨other, request⟩ := promise_request reached before ok
      have equal : other = seq := same (event.sent request) asked
      exact ⟨r, promise, equal ▸ request, before, ok, rfl⟩
    · right
      have equal : request.seq = seq := same (event.sent (List.mem_of_getElem? sent)) asked
      obtain ⟨above, larger⟩ := prepare_ok_iff.mp ⟨promise.response, replied, ok⟩
      refine ⟨(c.servers i).view, ?_⟩
      simp only [Cluster.effect, sent, if_true, PaxosImpl.prepareEffect, if_pos above, if_pos larger,
        SlotEffect.only, if_pos equal.symm, PaxosImpl.prepare_ok_number replied ok]
  · rintro (⟨r, promise, asked, member, ok, names⟩ | ⟨view, promised⟩)
    · exact ⟨r, promise, event.sent asked, event.sent member, ok, names⟩
    · obtain ⟨k, r, rfl, sent, above, larger⟩ := effect_promised promised
      obtain ⟨response, replied, ok⟩ := (@prepare_ok_iff n _ i ⟨seq, number⟩).mpr ⟨above, larger⟩
      refine ⟨r, ⟨response, (lastVote c.msgs i seq).map Prod.fst⟩,
        event.sent (List.mem_of_getElem? sent), ?_, ok, PaxosImpl.prepare_ok_number replied ok⟩
      simp only [Cluster.step, Cluster.deliver, sent, Option.ite_none_right_eq_some,
        Option.some.injEq] at taken
      rw [← taken.2]
      apply List.mem_append_right
      rw [replied]
      exact List.mem_singleton.mpr rfl

/-- The promised number of a slot is the largest of the server's promises for it. -/
structure LargestPromise (c : Cluster n) (i : Fin n) (seq : Int) : Prop where
  largest : ∀ number, NumberPromised c i seq number →
    -1 < number ∧ number ≤ ((c.servers i).slotAt seq).nP
  attained : ((c.servers i).slotAt seq).nP ≠ -1 → NumberPromised c i seq ((c.servers i).slotAt seq).nP
  bounded : -1 ≤ ((c.servers i).slotAt seq).nP

theorem largestPromise {c : Cluster n} (reached : c.Reached) (i : Fin n) (seq : Int) :
    LargestPromise c i seq := by
  revert i seq
  refine @reachable_invariant _ _ _ _ c (fun c => ∀ i seq, LargestPromise c i seq) ?_ ?_ reached
  · intro i seq
    refine ⟨?_, fun promised => absurd rfl promised, le_rfl⟩
    rintro number ⟨_, _, member, _⟩
    cases member
  · intro c label c' before bounds taken i seq
    have moved := (step_follows taken i).nP seq
    have old := bounds i seq
    by_cases fresh : ∃ view number, c.effect label i seq = .promised view number
    · obtain ⟨view, number, effect⟩ := fresh
      obtain ⟨_, _, _, _, _, larger⟩ := effect_promised effect
      rw [effect] at moved
      have now : ((c'.servers i).slotAt seq).nP = number := moved
      have lower := old.bounded
      refine ⟨fun other promised => ?_, fun _ => ?_, ?_⟩
      · rw [now]
        rcases (promised_step_iff before taken).mp promised with earlier | ⟨_, again⟩
        · obtain ⟨positive, upper⟩ := old.largest other earlier
          exact ⟨positive, upper.trans (le_of_lt larger)⟩
        · rw [effect] at again
          cases again
          exact ⟨lt_of_le_of_lt lower larger, le_rfl⟩
      · rw [now]
        exact (promised_step_iff before taken).mpr (.inr ⟨view, effect⟩)
      · omega
    · have now : ((c'.servers i).slotAt seq).nP = ((c.servers i).slotAt seq).nP := by
        cases effect : c.effect label i seq with
        | promised view number => exact absurd ⟨view, number, effect⟩ fresh
        | _ =>
            rw [effect] at moved
            exact moved
      have kept (number : Int) : NumberPromised c' i seq number ↔ NumberPromised c i seq number := by
        rw [promised_step_iff before taken]
        exact or_iff_left fun ⟨view, effect⟩ => fresh ⟨view, number, effect⟩
      refine ⟨fun number promised => ?_, fun some_ => ?_, ?_⟩
      · rw [now]
        exact old.largest number ((kept number).mp promised)
      · rw [now] at some_ ⊢
        exact (kept _).mpr (old.attained some_)
      · rw [now]
        exact old.bounded

/-- The promises bind the accepts of one step exactly when the step's round reaches the promised
number. -/
theorem promiseBinds_step {c : Cluster n} (reached : c.Reached) (label : Label n) :
    PromiseBinds c label ↔ NumberReaches c label := by
  cases label with
  | deliver k =>
      apply forall₄_congr
      intro r i request sent
      rw [accept_ok_iff]
      apply imp_congr_right
      intro allowed
      have largest := largestPromise reached i request.seq
      constructor
      · intro binds own prepared
        by_cases promised : ((c.servers i).slotAt request.seq).nP = -1
        · exact .inl promised
        · exact .inr (Int.not_lt.mp (binds own _ prepared (largest.attained promised)))
      · intro reaches own number prepared promised below
        obtain ⟨positive, upper⟩ := largest.largest number promised
        rcases reaches own prepared with nothing | enough
        · omega
        · omega
  | _ => exact Iff.rfl

/-- In every run of whole handlers the promises bind every later accept exactly when each Accept that the
handler lets through comes from a round whose number reaches the slot's promised number. -/
theorem promiseBinds_iff {labels : List (Label n)} {final : Cluster n}
    (ran : run Cluster.step (Cluster.initial n) labels = some final) :
    EveryStep Cluster.step (fun c label _ => PromiseBinds c label) (Cluster.initial n) labels ↔
      Guarded Cluster.step NumberReaches (Cluster.initial n) labels := by
  refine everyStep_iff_guarded_of_invariant Cluster.Reached ?_ ?_ (.refl _ _) ran
  · intro c label next reached _
    exact promiseBinds_step reached label
  · intro c label next reached _ taken
    exact reached.step taken

/-- The leader of view 0 prepares the slot again with number 3 and sends its Accepts. -/
def preparedAgain (leader second third : Fin 3) : List (Label 3) :=
  [.start leader 1 "x#SHARED", .begin 0, .deliver 0, .receive 3, .acceptFails 0 second,
    .acceptFails 0 third, .conclude 0, .finishLearn 0, .start leader 1 "x#FREE", .begin 1, .deliver 7,
    .receive 8, .prepareFails 1, .deliver 10, .receive 11, .propose 1]

/-- The leader of view 1 gets a promise of number 4 from the third server, which stays in view 0. -/
def overtakenPromise (leader second third : Fin 3) : List (Label 3) :=
  preparedAgain leader second third ++ [.detect second, .detect second, .detect second, .detect second,
    .deliver 15, .receive 16, .electFails 0, .concludeElection 0, .start second 1 "x#EXCLUSIVE",
    .begin 2, .prepareFails 2, .prepareFails 2, .deliver 20]

theorem promise_overtaken : ¬ ∀ (n : Nat) (c c' : Cluster n) (label : Label n), c.Reached →
    c.step label = some c' → PromiseBinds c label := by
  intro binds
  obtain ⟨c, ran, checked⟩ := (Option.any_eq_true _ _).mp (by decide +kernel :
    (run Cluster.step (Cluster.initial 3) (overtakenPromise 0 1 2)).any (fun c =>
      (c.step (.deliver 14)).isSome && !decide (NumberReaches c (.deliver 14))) = true)
  obtain ⟨delivers, misses⟩ := Bool.and_eq_true_iff.mp checked
  obtain ⟨c', taken⟩ := Option.isSome_iff_exists.mp delivers
  have reached : c.Reached := ⟨_, ran⟩
  have bound := binds 3 c c' (.deliver 14) reached taken
  rw [promiseBinds_step reached] at bound
  simp [bound] at misses

end Chubby.Paxos
