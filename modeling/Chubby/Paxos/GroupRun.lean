/-
This file proves that the group under a stable leader, which is computed call by call, is a run of the
cluster.
-/

import Chubby.Library.Places
import Chubby.Library.Refinement
import Chubby.Paxos.FaultFree
import Chubby.Paxos.StableGroup

namespace Chubby.Paxos

open Chubby.Library

variable {n : Nat}

/-- The server, the slot and the text of a proposal that starts. -/
def Label.proposal : Label n → Option (Fin n × Int × String)
  | .start i seq v => some (i, seq, v)
  | _ => none

/-- Only the leader of the group proposes. -/
def StableGroup.propose (g : StableGroup n) (proposal : Fin n × Int × String) : Option (StableGroup n) :=
  if proposal.1 = g.me then g.start proposal.2.1 proposal.2.2 else none

def Round.inPhase (round : Round n) (phase : RoundPhase n) : Round n := { round with phase }

/-- All threads of the proposals but one round have returned. -/
structure OnlyRound (c : Cluster n) (r : Nat) (round : Round n) : Prop where
  found : c.rounds[r]? = some round
  others : ∀ q other, q ≠ r → c.rounds[q]? = some other → other.phase = .finished
  forwards : ∀ forward ∈ c.forwards, forward.phase = .finished

section Rounds

variable {c c' : Cluster n} {i : Fin n} {r k : Nat} {round : Round n} {value : String}

theorem muFree_of_finished (finished : ∀ forward ∈ c.forwards, forward.phase = .finished) (i : Fin n) :
    c.muFree i = true := by
  refine List.all_eq_true.mpr fun forward member => ?_
  simp [Forward.holdsMu, finished forward member]

theorem OnlyRound.muFree (only : OnlyRound c r round) (i : Fin n) : c.muFree i = true :=
  muFree_of_finished only.forwards i

theorem OnlyRound.slotFree (only : OnlyRound c r round) (waits : round.phase = .waiting) (i : Fin n)
    (seq : Int) : c.slotFree i seq = true := by
  refine List.all_eq_true.mpr fun other member => ?_
  have rests : other.holdsSlot = false := by
    obtain ⟨q, there⟩ := List.getElem?_of_mem member
    by_cases same : q = r
    · subst same
      cases there.symm.trans only.found
      simp [Round.holdsSlot, waits]
    · simp [Round.holdsSlot, only.others q other same there]
  simp [rests]

theorem OnlyRound.of_same (only : OnlyRound c r round) (rounds : c'.rounds = c.rounds)
    (forwards : c'.forwards = c.forwards) : OnlyRound c' r round where
  found := rounds ▸ only.found
  others q other different there := only.others q other different (rounds ▸ there)
  forwards := forwards ▸ only.forwards

theorem OnlyRound.moves (only : OnlyRound c r round) {phase : RoundPhase n}
    (rounds : c'.rounds = c.rounds.set r (round.inPhase phase)) (forwards : c'.forwards = c.forwards) :
    OnlyRound c' r (round.inPhase phase) where
  found := by rw [rounds]; exact place_set_self only.found
  others q other different there := by
    rw [rounds, place_set_other different] at there
    exact only.others q other different there
  forwards := forwards ▸ only.forwards

theorem OnlyRound.idle (only : OnlyRound c r round) (ended : round.phase = .finished) : c.Idle := by
  refine ⟨fun other member => ?_, only.forwards⟩
  obtain ⟨q, there⟩ := List.getElem?_of_mem member
  by_cases same : q = r
  · subst same
    cases there.symm.trans only.found
    exact ended
  · exact only.others q other same there

/-- An accept call of the round is handled and its outcome is counted. -/
theorem OnlyRound.accept (only : OnlyRound c r round) {outcomes : Fin n → Option (Option AcceptResponse)}
    (accepts : round.phase = .accepting value outcomes) (missing : outcomes i = none) {request : AcceptRequest}
    (asked : .acceptRequest r i request ∈ c.msgs) :
    ∃ final, Silently Cluster.step Label.proposal c final ∧
      OnlyRound final r (round.inPhase (.accepting value
        (Function.update outcomes i (some ((c.servers i).accept i request).2.toOption)))) ∧
      final.servers = Function.update c.servers i ((c.servers i).accept i request).1 ∧
      ∀ message ∈ c.msgs, message ∈ final.msgs := by
  obtain ⟨k, sent⟩ := List.getElem?_of_mem asked
  let handled := c.handled i ((c.servers i).accept i request) (.acceptReply r i request)
  have delivered : Silently Cluster.step Label.proposal c handled := by
    refine .of_step (.deliver k) rfl ?_
    simp only [Cluster.step, Cluster.deliver, sent, only.muFree i, if_true, handled]
  have found : handled.rounds[r]? = some round := only.found
  refine ⟨handled.setPhase r round (.accepting value
    (Function.update outcomes i (some ((c.servers i).accept i request).2.toOption))),
    delivered.trans ?_, only.moves rfl rfl, rfl, fun message member => List.mem_append_left _ member⟩
  cases replied : ((c.servers i).accept i request).2 with
  | ok response =>
      have answer : handled.msgs[c.msgs.length]? = some (.acceptReply r i request response) := by
        simp [handled, Cluster.handled, Cluster.send, replied]
      refine .of_step (.receive c.msgs.length) rfl ?_
      simp only [Cluster.step, Cluster.receive, answer, Cluster.acceptOutcome, found, accepts, missing]
      rfl
  | error failure =>
      refine .of_step (.acceptFails r i) rfl ?_
      simp only [Cluster.step, Cluster.acceptOutcome, found, accepts, missing]
      rfl

/-- Every pending accept call is handled and counted. -/
theorem OnlyRound.accepts (request : AcceptRequest) (pending : List (Fin n)) :
    ∀ {c : Cluster n} {round : Round n} {outcomes : Fin n → Option (Option AcceptResponse)},
      OnlyRound c r round → round.phase = .accepting value outcomes → pending.Nodup →
      (∀ i ∈ pending, outcomes i = none ∧ .acceptRequest r i request ∈ c.msgs) →
      ∃ final, Silently Cluster.step Label.proposal c final ∧
        OnlyRound final r (round.inPhase (.accepting value fun i =>
          if i ∈ pending then some ((c.servers i).accept i request).2.toOption else outcomes i)) ∧
        final.servers = fun i => if i ∈ pending then ((c.servers i).accept i request).1 else c.servers i := by
  induction pending with
  | nil =>
      intro c round outcomes only accepts _ _
      refine ⟨c, .refl c, ?_, by simp⟩
      have same : round.inPhase (.accepting value outcomes) = round := by
        rw [← accepts]
        rfl
      simpa [same] using only
  | cons i rest ih =>
      intro c round outcomes only accepts distinct waits
      obtain ⟨fresh, others⟩ := List.nodup_cons.mp distinct
      obtain ⟨missing, asked⟩ := waits i (List.mem_cons_self ..)
      obtain ⟨middle, first, counted, servers, kept⟩ := only.accept accepts missing asked
      have away {j : Fin n} (member : j ∈ rest) : j ≠ i := by
        rintro rfl
        exact fresh member
      obtain ⟨final, second, ended, after⟩ := ih counted rfl others fun j member => by
        obtain ⟨silent, sent⟩ := waits j (List.mem_cons_of_mem _ member)
        exact ⟨(Function.update_of_ne (away member) _ _).trans silent, kept _ sent⟩
      refine ⟨final, first.trans second, ?_, ?_⟩
      · have same : (fun j => if j ∈ i :: rest then some ((c.servers j).accept j request).2.toOption
            else outcomes j) = fun j => if j ∈ rest then some ((middle.servers j).accept j request).2.toOption
              else Function.update outcomes i (some ((c.servers i).accept i request).2.toOption) j := by
          funext j
          by_cases here : j = i
          · subst here
            simp [fresh]
          · simp [here, servers]
        rw [same]
        exact ended
      · rw [after]
        funext j
        by_cases here : j = i
        · subst here
          simp [fresh, servers]
        · simp [here, servers]

/-- Every pending learn call is handled. -/
theorem OnlyRound.learns (request : DecideRequest) (pending : List (Fin n)) :
    ∀ {c : Cluster n}, OnlyRound c r round → pending.Nodup →
      (∀ i ∈ pending, .learnRequest r i request ∈ c.msgs) →
      ∃ final, Silently Cluster.step Label.proposal c final ∧ OnlyRound final r round ∧
        final.servers = fun i => if i ∈ pending then ((c.servers i).learn i request true).1 else c.servers i := by
  induction pending with
  | nil =>
      intro c only _ _
      exact ⟨c, .refl c, only, by simp⟩
  | cons i rest ih =>
      intro c only distinct waits
      obtain ⟨fresh, others⟩ := List.nodup_cons.mp distinct
      obtain ⟨k, sent⟩ := List.getElem?_of_mem (waits i (List.mem_cons_self ..))
      let handled := c.setServer i ((c.servers i).learn i request true).1
      have first : Silently Cluster.step Label.proposal c handled := by
        refine .of_step (.deliver k) rfl ?_
        simp only [Cluster.step, Cluster.deliver, sent, only.muFree i, if_true, handled]
      have continues : OnlyRound handled r round := only.of_same rfl rfl
      obtain ⟨final, second, ended, after⟩ := ih continues others fun j member =>
        waits j (List.mem_cons_of_mem _ member)
      refine ⟨final, first.trans second, ended, ?_⟩
      rw [after]
      funext j
      by_cases here : j = i
      · subst here
        simp [fresh, handled, Cluster.setServer]
      · simp [here, handled, Cluster.setServer]

/-- The learn phase ends when every server has handled its call. -/
theorem OnlyRound.learn_ends (only : OnlyRound c r round) (value : String) :
    ∃ final, Silently Cluster.step Label.proposal (c.enterLearn r round value) final ∧ final.Idle ∧
      final.servers = fun i => ((c.servers i).learn i ⟨round.seq, value⟩ true).1 := by
  have enters : OnlyRound (c.enterLearn r round value) r (round.inPhase (.learning value)) := only.moves rfl rfl
  obtain ⟨middle, learned, waits, servers⟩ := enters.learns ⟨round.seq, value⟩ (List.finRange n) (List.nodup_finRange n)
    fun i _ => List.mem_append_right _ (List.mem_map.mpr ⟨i, List.mem_finRange i, rfl⟩)
  have joined : middle.step (.finishLearn r) =
      some (middle.setPhase r (round.inPhase (.learning value)) .finished) := by
    simp only [Cluster.step, Cluster.finishLearn, waits.found, Round.inPhase]
  have ended : OnlyRound (middle.setPhase r (round.inPhase (.learning value)) .finished) r
      ((round.inPhase (.learning value)).inPhase .finished) := waits.moves rfl rfl
  refine ⟨_, learned.trans (.of_step _ rfl joined), ended.idle rfl, ?_⟩
  rw [Cluster.setPhase_servers, servers]
  funext i
  exact if_pos (List.mem_finRange i)

/-- The accept phase ends as its calls say, with the learn phase when no one reports a decision. -/
theorem OnlyRound.accept_ends (only : OnlyRound c r round) {highestNa : Int} {next : StableGroup n}
    (called : (⟨c.servers, round.server⟩ : StableGroup n).acceptCalls round.seq round.myView highestNa value =
      some next) :
    ∃ final, Silently Cluster.step Label.proposal (c.enterAccept r round value) final ∧ final.Idle ∧
      next = ⟨final.servers, round.server⟩ := by
  have enters : OnlyRound (c.enterAccept r round value) r (round.inPhase (.accepting value fun _ => none)) :=
    only.moves rfl rfl
  obtain ⟨middle, accepted, waits, servers⟩ := enters.accepts ⟨round.seq, round.myView, value⟩
    (List.finRange n) rfl (List.nodup_finRange n)
    fun i _ => ⟨rfl, List.mem_append_right _ (List.mem_map.mpr ⟨i, List.mem_finRange i, rfl⟩)⟩
  have handled : middle.servers = fun i => ((c.servers i).accept i ⟨round.seq, round.myView, value⟩).1 := by
    rw [servers]
    funext i
    exact if_pos (List.mem_finRange i)
  have heard : OnlyRound middle r (round.inPhase (.accepting value fun i =>
      some ((c.servers i).accept i ⟨round.seq, round.myView, value⟩).2.toOption)) := by
    have all : (fun i => if i ∈ List.finRange n then
        some (((c.enterAccept r round value).servers i).accept i ⟨round.seq, round.myView, value⟩).2.toOption
          else none) = fun i => some ((c.servers i).accept i ⟨round.seq, round.myView, value⟩).2.toOption := by
      funext i
      exact if_pos (List.mem_finRange i)
    rw [all] at waits
    exact waits
  have outcomes : acceptOutcomes (fun i =>
      some ((c.servers i).accept i ⟨round.seq, round.myView, value⟩).2.toOption) =
        List.ofFn fun i => ((c.servers i).accept i ⟨round.seq, round.myView, value⟩).2.toOption := by
    rw [List.ofFn_eq_map]
    rfl
  simp only [StableGroup.acceptCalls] at called
  rw [← outcomes] at called
  have free := heard.muFree round.server
  cases goesOn : afterAccept round.seq value (acceptOutcomes fun i =>
      some ((c.servers i).accept i ⟨round.seq, round.myView, value⟩).2.toOption) with
  | none =>
      rw [goesOn] at called
      cases called
      have ended : OnlyRound (middle.setPhase r (round.inPhase (.accepting value fun i =>
          some ((c.servers i).accept i ⟨round.seq, round.myView, value⟩).2.toOption)) .finished) r
          (round.inPhase .finished) := heard.moves rfl rfl
      refine ⟨_, accepted.trans (.of_step (.conclude r) rfl ?_), ended.idle rfl, ?_⟩
      · simp only [Cluster.step, Cluster.conclude, heard.found, Round.inPhase, Option.isSome_some,
          implies_true, if_true]
        rw [goesOn]
      · rw [Cluster.setPhase_servers, handled]
  | some learned =>
      rw [goesOn] at called
      dsimp only at called
      split at called
      · cases called
      · cases called
        obtain ⟨final, learns, idle, after⟩ := heard.learn_ends learned
        refine ⟨final, (accepted.trans (.of_step (.conclude r) rfl ?_)).trans learns, idle, ?_⟩
        · simp only [Cluster.step, Cluster.conclude, heard.found, Round.inPhase, Option.isSome_some,
            implies_true, if_true]
          rw [goesOn]
          simp only [free, if_true]
        · rw [after, handled]
          rfl

/-- A Prepare call of the round is handled and its outcome is taken, which may call the next peer. -/
theorem OnlyRound.prepare (only : OnlyRound c r round) {number highestN : Int}
    {outcomes : List (Option Promise)} (prepares : round.phase = .preparing number highestN outcomes)
    (continues : prepareDone n round.v highestN outcomes = false) (place : outcomes.length = i.val)
    {request : PrepareRequest} (asked : .prepareRequest r i request ∈ c.msgs) :
    ∃ (outcome : Option Promise) (handled : Cluster n),
      outcome.map Promise.response = ((c.servers i).prepare i request).2.toOption ∧
      handled.servers = Function.update c.servers i ((c.servers i).prepare i request).1 ∧
      Silently Cluster.step Label.proposal c
        (handled.prepareOutcome r round number highestN (outcomes ++ [outcome])) ∧
      OnlyRound (handled.prepareOutcome r round number highestN (outcomes ++ [outcome])) r
        (round.inPhase (.preparing number highestN (outcomes ++ [outcome]))) := by
  obtain ⟨k, sent⟩ := List.getElem?_of_mem asked
  let reply (response : PrepareResponse) : Msg n :=
    .prepareReply r i ⟨response, (lastVote c.msgs i request.seq).map Prod.fst⟩
  let handled := c.handled i ((c.servers i).prepare i request) reply
  have delivered : Silently Cluster.step Label.proposal c handled := by
    refine .of_step (.deliver k) rfl ?_
    simp only [Cluster.step, Cluster.deliver, sent, only.muFree i, if_true, handled, reply]
  have found : handled.rounds[r]? = some round := only.found
  cases replied : ((c.servers i).prepare i request).2 with
  | ok response =>
      have answer : handled.msgs[c.msgs.length]? = some (reply response) := by
        simp [handled, Cluster.handled, Cluster.send, replied]
      refine ⟨some ⟨response, (lastVote c.msgs i request.seq).map Prod.fst⟩, handled, rfl, rfl,
        delivered.trans (.of_step (.receive c.msgs.length) rfl ?_), only.moves rfl rfl⟩
      simp only [Cluster.step, Cluster.receive, answer, reply, found, prepares, place, continues]
      rfl
  | error failure =>
      refine ⟨none, handled, rfl, rfl, delivered.trans (.of_step (.prepareFails r) rfl ?_),
        only.moves rfl rfl⟩
      simp only [Cluster.step, Cluster.prepareFails, found, prepares, continues]
      rfl

/-- The prepare loop calls the peers that are left until it is done. -/
theorem OnlyRound.prepares {number highestN : Int} (left : List (Fin n)) :
    ∀ {c : Cluster n} {round : Round n} {outcomes : List (Option Promise)}, OnlyRound c r round →
      round.phase = .preparing number highestN outcomes → left = (List.finRange n).drop outcomes.length →
      outcomes.length ≤ n → (prepareLocals n round.v highestN outcomes).stopped = false →
      (∀ i : Fin n, i.val = outcomes.length → .prepareRequest r i ⟨round.seq, number⟩ ∈ c.msgs) →
      ∃ (outcomes' : List (Option Promise)) (final : Cluster n),
        Silently Cluster.step Label.proposal c final ∧
        OnlyRound final r (round.inPhase (.preparing number highestN outcomes')) ∧
        prepareDone n round.v highestN outcomes' = true ∧
        (⟨c.servers, round.server⟩ : StableGroup n).prepareCalls round.seq number
          (prepareLocals n round.v highestN outcomes) left =
          (⟨final.servers, round.server⟩, prepareLocals n round.v highestN outcomes') := by
  induction left with
  | nil =>
      intro c round outcomes only prepares rest inside _ _
      have full : n ≤ outcomes.length := by simpa using List.drop_eq_nil_iff.mp rest.symm
      refine ⟨outcomes, c, .refl c, ?_, ?_, rfl⟩
      · rw [← prepares]
        exact only
      · simp [prepareDone, le_antisymm inside full]
  | cons i left ih =>
      intro c round outcomes only prepares rest _ continues asked
      have inside : outcomes.length < n := by
        by_contra beyond
        rw [List.drop_eq_nil_of_le (by simpa using beyond)] at rest
        cases rest
      rw [List.drop_eq_getElem_cons (by simpa using inside)] at rest
      obtain ⟨here, others⟩ := List.cons_eq_cons.mp rest
      have place : outcomes.length = i.val := by simp [here]
      have unfinished : prepareDone n round.v highestN outcomes = false := by
        simp [prepareDone, continues, inside.ne]
      obtain ⟨outcome, handled, replied, servers, ran, heard⟩ :=
        only.prepare prepares unfinished place (asked i place.symm)
      have locals : prepareLocals n round.v highestN (outcomes ++ [outcome]) =
          (prepareLocals n round.v highestN outcomes).iterate id n
            ((c.servers i).prepare i ⟨round.seq, number⟩).2.toOption := by
        rw [← replied]
        simp [prepareLocals, prepareLoop]
      have raised : (handled.prepareOutcome r round number highestN (outcomes ++ [outcome])).servers =
          Function.update handled.servers round.server ((handled.servers round.server).setSlot round.seq
            { (handled.servers round.server).slotAt round.seq with
              highestN := (prepareLocals n round.v highestN (outcomes ++ [outcome])).slotHighestN }) := rfl
      rw [servers] at raised
      cases stops : (prepareLocals n round.v highestN (outcomes ++ [outcome])).stopped with
      | true =>
          refine ⟨_, _, ran, heard, by simp [prepareDone, stops], ?_⟩
          rw [raised, locals]
          rw [locals] at stops
          simp [StableGroup.prepareCalls, stops, StableGroup.setServer, StableGroup.leader]
      | false =>
          have shorter : left = (List.finRange n).drop (outcomes ++ [outcome]).length := by
            rw [others, List.length_append, List.length_singleton]
          have calls (j : Fin n) (next : j.val = (outcomes ++ [outcome]).length) :
              .prepareRequest r j ⟨round.seq, number⟩ ∈
                (handled.prepareOutcome r round number highestN (outcomes ++ [outcome])).msgs := by
            refine List.mem_append_right _ ?_
            rw [stops, if_neg Bool.false_ne_true, ← next]
            unfold Cluster.prepareRequests
            rw [dif_pos j.isLt]
            exact List.mem_singleton_self _
          obtain ⟨outcomes', final, later, waits, done, same⟩ := ih heard rfl shorter (by simp; omega) stops calls
          refine ⟨outcomes', final, ran.trans later, waits, done, ?_⟩
          have unfolded : (⟨c.servers, round.server⟩ : StableGroup n).prepareCalls round.seq number
              (prepareLocals n round.v highestN outcomes) (i :: left) =
              (⟨(handled.prepareOutcome r round number highestN (outcomes ++ [outcome])).servers,
                round.server⟩ : StableGroup n).prepareCalls round.seq number
                (prepareLocals n round.v highestN (outcomes ++ [outcome])) left := by
            rw [raised, locals]
            rw [locals] at stops
            simp [StableGroup.prepareCalls, stops, StableGroup.setServer, StableGroup.leader]
          exact unfolded.trans same

/-- A round that takes its slot ends as its calls say. -/
theorem OnlyRound.ends (only : OnlyRound c r round) (waits : round.phase = .waiting)
    {next : StableGroup n}
    (called : (⟨c.servers, round.server⟩ : StableGroup n).startOnNewSlot round.seq round.v round.myView =
      some next) :
    ∃ final, Silently Cluster.step Label.proposal c final ∧ final.Idle ∧
      next = ⟨final.servers, round.server⟩ := by
  have slotFree : c.slotFree round.server round.seq = true := only.slotFree waits _ _
  have muFree : c.muFree round.server = true := only.muFree _
  have begins {after : Cluster n} (begun : c.begin r = some after) :
      Silently Cluster.step Label.proposal c after := .of_step (.begin r) rfl begun
  unfold StableGroup.startOnNewSlot StableGroup.leader at called
  dsimp only at called
  by_cases settled : ((c.servers round.server).slotAt round.seq).status = .decided ∨
      (c.servers round.server).isDead = true
  · rw [if_pos settled] at called
    cases called
    have ended : OnlyRound (c.setPhase r round .finished) r (round.inPhase .finished) := only.moves rfl rfl
    refine ⟨_, begins ?_, ended.idle rfl, rfl⟩
    simp only [Cluster.begin, only.found, waits, if_pos slotFree, if_pos settled]
  rw [if_neg settled] at called
  by_cases seen : round.seq ≤ (c.servers round.server).highestAcceptedSeq
  · rw [if_pos seen] at called
    have begun : c.begin r = some (c.enterPrepare r round) := by
      simp only [Cluster.begin, only.found, waits, if_pos slotFree, if_pos muFree, if_neg settled, if_pos seen]
    have enters : OnlyRound (c.enterPrepare r round) r (round.inPhase (.preparing
        (nextNumber n ((c.servers round.server).slotAt round.seq))
        ((c.servers round.server).slotAt round.seq).highestN [])) := only.moves rfl rfl
    obtain ⟨outcomes, middle, ran, prepared, done, same⟩ := OnlyRound.prepares (List.finRange n) enters rfl rfl
      (Nat.zero_le n) rfl fun i first => by
        refine List.mem_append_right _ ?_
        unfold Cluster.prepareRequests
        have zero : i = ⟨0, Nat.zero_lt_of_lt i.isLt⟩ := Fin.ext first
        rw [dif_pos (Nat.zero_lt_of_lt i.isLt), zero]
        exact List.mem_singleton_self _
    have looped : StableGroup.prepareCalls round.seq (nextNumber n ((c.servers round.server).slotAt round.seq))
        ((⟨c.servers, round.server⟩ : StableGroup n).setServer round.server ((c.servers round.server).setSlot
          round.seq { (c.servers round.server).slotAt round.seq with
            n := nextNumber n ((c.servers round.server).slotAt round.seq) }))
        (.initial round.v ((c.servers round.server).slotAt round.seq).highestN) (List.finRange n) =
          (⟨middle.servers, round.server⟩,
            prepareLocals n round.v ((c.servers round.server).slotAt round.seq).highestN outcomes) := same
    rw [looped] at called
    dsimp only at called
    have proposes {after : Cluster n} (proposed : middle.propose r = some after) :
        Silently Cluster.step Label.proposal c after :=
      ((begins begun).trans ran).trans (.of_step (.propose r) rfl proposed)
    have free := prepared.muFree round.server
    have finished : prepareDone n round.v ((c.servers round.server).slotAt round.seq).highestN outcomes = true :=
      done
    cases chosen : afterPrepare round.v round.myView
        (prepareLocals n round.v ((c.servers round.server).slotAt round.seq).highestN outcomes) with
    | forward highestNa =>
        rw [chosen] at called
        cases called
    | accept value =>
        rw [chosen] at called
        obtain ⟨final, later, idle, same⟩ := prepared.accept_ends called
        refine ⟨final, (proposes ?_).trans later, idle, same⟩
        simp only [Cluster.propose, prepared.found, Round.inPhase, if_pos finished, chosen]
    | learn value =>
        rw [chosen] at called
        cases called
        obtain ⟨final, later, idle, same⟩ := prepared.learn_ends value
        refine ⟨final, (proposes ?_).trans later, idle, ?_⟩
        · simp only [Cluster.propose, prepared.found, Round.inPhase, if_pos finished, chosen, if_pos free]
        · rw [same]
          rfl
  · rw [if_neg seen] at called
    obtain ⟨final, ran, idle, same⟩ := only.accept_ends called
    refine ⟨final, (begins ?_).trans ran, idle, same⟩
    simp only [Cluster.begin, only.found, waits, if_pos slotFree, if_pos muFree, if_neg settled, if_neg seen]

/-- A proposal that the group ends call by call is ended by steps of the cluster. -/
theorem start_ends (idle : c.Idle) (me : Fin n) {seq : Int} {v : String} {next : StableGroup n}
    (called : (⟨c.servers, me⟩ : StableGroup n).start seq v = some next) :
    ∃ started final, c.step (.start me seq v) = some started ∧
      Silently Cluster.step Label.proposal started final ∧ final.Idle ∧ next = ⟨final.servers, me⟩ := by
  have free := muFree_of_finished idle.2 me
  unfold StableGroup.start StableGroup.leader at called
  dsimp only at called
  let added := c.setServer me ((c.servers me).start me seq).1
  have begun : c.step (.start me seq v) = some (added.spawn me seq v ((c.servers me).start me seq).2) := by
    simp only [Cluster.step, Cluster.start, if_pos free, added]
  cases action : ((c.servers me).start me seq).2 with
  | stop =>
      rw [action] at called begun
      cases called
      exact ⟨added, added, begun, .refl added, idle, rfl⟩
  | newSlot view =>
      rw [action] at called begun
      have only : OnlyRound (added.spawn me seq v (.newSlot view)) c.rounds.length
          ⟨me, seq, v, view, .waiting⟩ := by
        refine ⟨List.getElem?_concat_length, fun q other different there => ?_, idle.2⟩
        obtain before | ⟨here, _⟩ := place_concat_cases there
        · exact idle.1 other (List.mem_of_getElem? before)
        · exact absurd here different
      obtain ⟨final, ran, rests, same⟩ := only.ends rfl called
      exact ⟨_, final, begun, ran, rests, same⟩
  | forward =>
      rw [action] at called
      cases called

end Rounds

/-- What a group under a stable leader computes call by call, the cluster runs step by step: from any state
in which no proposal runs, and with the same servers in the end. -/
theorem group_runs {c : Cluster n} (idle : c.Idle) {me : Fin n} {proposals : List (Fin n × Int × String)}
    {next : StableGroup n} (computed : run StableGroup.propose ⟨c.servers, me⟩ proposals = some next) :
    ∃ (labels : List (Label n)) (final : Cluster n), labels.filterMap Label.proposal = proposals ∧
      run Cluster.step c labels = some final ∧ ⟨final.servers, me⟩ = next ∧ final.Idle := by
  refine exists_run_shown Cluster.Idle ?_ idle computed
  rintro state ⟨i, seq, v⟩ after rests called
  unfold StableGroup.propose at called
  split at called
  next own =>
    obtain rfl : i = me := own
    obtain ⟨started, final, begun, ⟨labels, hidden, ran⟩, ends, rfl⟩ := start_ends rests i called
    refine ⟨.start i seq v :: labels, final, ?_, ?_, rfl, ends⟩
    · have visible : Label.proposal (.start i seq v) = some (i, seq, v) := rfl
      rw [List.filterMap_cons_some visible, hidden]
    · exact run_cons_eq_some.mpr ⟨started, begun, ran⟩
  · cases called

/-- The slot of the second proposal lies below an accepted one, so its round prepares. -/
def laterSlotFirst (leader : Fin 3) : List (Fin 3 × Int × String) :=
  [(leader, 2, "y#EXCLUSIVE"), (leader, 1, "x#SHARED")]

theorem group_runs_laterSlotFirst : ∃ (labels : List (Label 3)) (final : Cluster 3),
    labels.filterMap Label.proposal = laterSlotFirst 0 ∧
    run Cluster.step (Cluster.initial 3) labels = some final ∧ final.Idle ∧
    (final.servers 2).decidedValue 1 = some "x#SHARED" := by
  obtain ⟨next, computed, checked⟩ := (Option.any_eq_true _ _).mp (by decide +kernel :
    (run StableGroup.propose ⟨(Cluster.initial 3).servers, 0⟩ (laterSlotFirst 0)).any
      (fun next => (next.servers 2).decidedValue 1 = some "x#SHARED") = true)
  have idle : (Cluster.initial 3).Idle := ⟨nofun, nofun⟩
  obtain ⟨labels, final, visible, ran, rfl, ends⟩ := group_runs idle computed
  exact ⟨labels, final, visible, ran, ends, of_decide_eq_true checked⟩

end Chubby.Paxos
