/-
This file proves that a proposal whose calls are all answered decides its slot on every server, except
where the code returns before its Learns.
-/

import Chubby.Paxos.Returning

namespace Chubby.Paxos

open Chubby.Library

variable {n : Nat}

namespace Cluster

/-- No server has a text that its replies report as decided. -/
def Unreported (c : Cluster n) (seq : Int) : Prop :=
  ∀ i, PaxosImpl.decidedText ((c.servers i).slotAt seq) = ""

instance (c : Cluster n) (seq : Int) : Decidable (c.Unreported seq) :=
  inferInstanceAs (Decidable (∀ i, PaxosImpl.decidedText ((c.servers i).slotAt seq) = ""))

/-- The server answers the next number of the round's server with OK. -/
def Promises (c : Cluster n) (me : Fin n) (seq : Int) (i : Fin n) : Prop :=
  ((c.servers i).slotAt seq).nP < nextNumber n ((c.servers me).slotAt seq)

instance (c : Cluster n) (me : Fin n) (seq : Int) (i : Fin n) : Decidable (c.Promises me seq i) :=
  inferInstanceAs (Decidable (_ < _))

/-- The round prepares, and its loop hears of a decision before it has a majority of promises. -/
def HearsFirst (c : Cluster n) (me : Fin n) (seq : Int) : Prop :=
  seq ≤ (c.servers me).highestAcceptedSeq ∧
    ∃ i, PaxosImpl.decidedText ((c.servers i).slotAt seq) ≠ "" ∧ c.Promises me seq i ∧
      (Finset.univ.filter fun j => j < i ∧ c.Promises me seq j).card ≤ n / 2

end Cluster

theorem PaxosImpl.decidedText_eq {server : PaxosImpl} {seq : Int} :
    decidedText (server.slotAt seq) = (server.decidedValue seq).getD "" := by
  unfold decidedText decidedValue
  split <;> rfl

/-- A reply to Prepare carries the decided text of the slot. -/
theorem PaxosImpl.prepare_value {server : PaxosImpl} {me : Fin n} {request : PrepareRequest}
    {response : PrepareResponse} (replied : (server.prepare me request).2 = .ok response) :
    response.value = decidedText (server.slotAt request.seq) := by
  cases server.prepare_cases me request with
  | collected _ same => rw [same] at replied; cases replied
  | promises _ _ same | rejects _ _ same => rw [same] at replied; cases replied; rfl

/-- Only a Prepare for the slot changes its promised number. -/
theorem nP_cases {c c' : Cluster n} {label : Label n} (taken : c.step label = some c') (i : Fin n)
    (seq : Int) : ((c'.servers i).slotAt seq).nP = ((c.servers i).slotAt seq).nP ∨
      ∃ k r number, label = .deliver k ∧ c.msgs[k]? = some (.prepareRequest r i ⟨seq, number⟩) := by
  have moved := (step_follows taken i).nP seq
  cases effect : c.effect label i seq with
  | promised view number =>
      obtain ⟨k, r, named, sent, _⟩ := effect_promised effect
      exact .inr ⟨k, r, number, named, sent⟩
  | untouched | stamped view | voted view value =>
      rw [effect] at moved
      exact .inl moved

namespace Attended

/-- No decided text of the slot can be reported to the round. -/
structure Hushed (r : Nat) (seq : Int) (s : Attended n) : Prop where
  silent : ∀ i value, (s.cluster.servers i).decidedValue seq = some value → value = ""
  replies : ∀ i request response, .acceptReply r i request response ∈ s.cluster.msgs → response.value = ""

variable {r : Nat} {me : Fin n} {seq view : Int} {s next : Attended n} {label : Label n}

/-- Before the Learns of the round no call of a fault-free run decides the slot with a text. -/
theorem Hushed.step {cluster : Cluster n} {delivered : List Nat} (hushed : Hushed r seq s)
    (running : Running r me seq view s) (serves : s.Serves r label)
    {round : Round n} (found : s.cluster.rounds[r]? = some round)
    (early : ¬ ((∃ value, round.phase = .learning value) ∨ round.phase = .finished))
    (moved : s.cluster.step label = some cluster) : Hushed r seq ⟨cluster, delivered⟩ := by
  have event := Cluster.step_event moved
  constructor
  · intro i value decided
    obtain before | ⟨k, q, rfl, sent⟩ | copied := event.decided_cases decided
    · exact hushed.silent i value before
    · have own : q = r := of_decide_eq_true (serves.2 _ sent)
      subst own
      obtain ⟨_, there, _, past⟩ := learnRequest_round running.reached (List.mem_of_getElem? sent)
      rw [found] at there
      cases there
      exact absurd past early
    · obtain ⟨j, before⟩ := copied_decided running.reached copied
      exact hushed.silent j value before
  · intro i request response member
    obtain ⟨new, added, fresh⟩ := event.msgs
    rw [show (⟨cluster, delivered⟩ : Attended n).cluster.msgs = s.cluster.msgs ++ new from added] at member
    obtain before | sending := List.mem_append.mp member
    · exact hushed.replies i request response before
    · obtain ⟨asked, replied, _⟩ := fresh _ sending
      by_contra text
      obtain ⟨_, there, slot, _⟩ := acceptRequest_round running.reached asked
      have decided := (PaxosImpl.accept_reply replied).2 text
      rw [slot, (running.round_seq there).2] at decided
      exact text (hushed.silent i _ decided)

/-- The prepare loop of the round is on its way to a server that reports a decision. -/
structure Told (r : Nat) (seq number : Int) (promising : Fin n → Prop) (i : Fin n) (s : Attended n) :
    Prop where
  decided : ∃ value, (s.cluster.servers i).decidedValue seq = some value ∧ value ≠ ""
  promised : promising i
  ahead : ∀ voters : Finset (Fin n), (∀ j ∈ voters, j < i ∧ promising j) → voters.card ≤ n / 2
  uncalled : ∀ j, (∀ k ∈ s.delivered, ∀ request,
      s.cluster.msgs[k]? ≠ some (.prepareRequest r j request)) →
    (((s.cluster.servers j).slotAt seq).nP < number ↔ promising j)
  replies : ∀ j promise, .prepareReply r j promise ∈ s.cluster.msgs →
    (promise.response.status = .ok ↔ promising j) ∧ (j = i → promise.response.value ≠ "")

theorem Told.step {number highestN : Int} {outcomes : List (Option Promise)} {promising : Fin n → Prop}
    {i : Fin n} (told : Told r seq number promising i s) (running : Running r me seq view s)
    (serves : s.Serves r label) {round : Round n} (found : s.cluster.rounds[r]? = some round)
    (prepares : round.phase = .preparing number highestN outcomes) (taken : s.step label = some next) :
    Told r seq number promising i next := by
  obtain ⟨cluster, moved, rfl⟩ := Option.map_eq_some_iff.mp taken
  have event := Cluster.step_event moved
  obtain ⟨new, added, _⟩ := event.msgs
  obtain ⟨value, decided, text⟩ := told.decided
  refine ⟨⟨value, event.decided_kept decided, text⟩, told.promised, told.ahead, fun j uncalled => ?_,
    fun j promise member => ?_⟩
  · have before : ∀ k ∈ s.delivered, ∀ request,
        s.cluster.msgs[k]? ≠ some (.prepareRequest r j request) := by
      intro k known request sent
      refine uncalled k ?_ request ?_
      · cases label with
        | deliver k' => exact List.mem_cons_of_mem _ known
        | _ => exact known
      · show cluster.msgs[k]? = _
        rw [added, List.getElem?_append_left (List.getElem?_eq_some_iff.mp sent).1]
        exact sent
    obtain same | ⟨k, q, other, rfl, sent⟩ := nP_cases moved j seq
    · show ((cluster.servers j).slotAt seq).nP < number ↔ _
      rw [same]
      exact told.uncalled j before
    · have own : q = r := of_decide_eq_true (serves.2 _ sent)
      subst own
      refine absurd ?_ (uncalled k (List.mem_cons_self ..) ⟨seq, other⟩)
      show cluster.msgs[k]? = _
      rw [added, List.getElem?_append_left (List.getElem?_eq_some_iff.mp sent).1]
      exact sent
  · obtain before | ⟨k, request, rfl, sent, replied, _⟩ := event.prepareReply_cases member
    · exact told.replies j promise before
    · -- the peer has handled no other Prepare of the round
      have fresh : ∀ k' ∈ s.delivered, ∀ request',
          s.cluster.msgs[k']? ≠ some (.prepareRequest r j request') := by
        intro k' known request' again
        rw [(asksOnce running.reached).once again sent] at known
        exact serves.1 known
      obtain ⟨_, there, slot, _⟩ := prepareRequest_round running.reached (List.mem_of_getElem? sent)
      rw [(running.round_seq there).2] at slot
      have numbered := prepareRequest_number running.reached (List.mem_of_getElem? sent) found prepares
      have above : (s.cluster.servers j).lowestSlot ≤ request.seq := by
        rw [lowestSlot_zero running.reached j, slot, ← (running.round_seq found).2]
        exact (seq_nonneg running.reached).1 round (List.mem_of_getElem? found)
      have answer := @prepare_ok_iff n (s.cluster.servers j) j request
      constructor
      · rw [← told.uncalled j fresh, ← slot, ← numbered]
        constructor
        · intro ok
          exact (answer.mp ⟨promise.response, replied, ok⟩).2
        · intro larger
          obtain ⟨response, again, ok⟩ := answer.mpr ⟨above, larger⟩
          rw [replied] at again
          cases again
          exact ok
      · rintro rfl
        rw [PaxosImpl.prepare_value replied, slot, PaxosImpl.decidedText_eq, decided]
        exact text

/-- The loop passes the server only after it has heard of its decision, and no majority stops it
before. -/
theorem Told.not_accept {number highestN : Int} {outcomes : List (Option Promise)}
    {promising : Fin n → Prop} {i : Fin n} {value : String} (told : Told r seq number promising i s)
    (running : Running r me seq view s) {round : Round n} (found : s.cluster.rounds[r]? = some round)
    (prepares : round.phase = .preparing number highestN outcomes) (heard : none ∉ outcomes)
    (done : prepareDone n round.v highestN outcomes = true)
    (chosen : afterPrepare round.v round.myView (prepareLocals n round.v highestN outcomes) =
      .accept value) : False := by
  obtain ⟨_, unreported, alone, _⟩ := (afterPrepare_accept (faithful_id _)).mp chosen
  obtain ⟨short, each⟩ := preparing_outcome running.reached found prepares
  have reply {k : Nat} {outcome : Option Promise} (place : outcomes[k]? = some outcome) :
      ∃ promise, outcome = some promise ∧ ∃ j : Fin n, j.val = k ∧
        .prepareReply r j promise ∈ s.cluster.msgs := by
    cases outcome with
    | none => exact absurd (List.mem_of_getElem? place) heard
    | some promise => exact ⟨promise, rfl, each k promise place⟩
  by_cases reached : i.val < outcomes.length
  · obtain ⟨promise, same, j, place, member⟩ := reply (List.getElem?_eq_getElem reached)
    obtain rfl : j = i := Fin.ext place
    obtain ⟨answered, reports⟩ := told.replies j promise member
    apply reports rfl
    apply unreported promise.response _ (answered.mpr told.promised)
    apply List.mem_map.mpr
    exact ⟨_, List.getElem_mem reached, by rw [same]; rfl⟩
  · -- the loop has stopped before the server, and only a majority of promises can stop it
    have tracks := prepareLoop_tracks n round.v highestN (faithful_id (outcomes.map (Option.map Promise.response)))
    have undecided : ¬ (prepareLocals n round.v highestN outcomes).isDecidedPrep = true := by
      intro decided
      obtain ⟨response, member, ok, text⟩ | ⟨single, kept⟩ := tracks.decided.mp decided
      · exact text (unreported response member ok)
      · rw [alone single] at kept
        cases kept
    have stopped : (prepareLocals n round.v highestN outcomes).stopped = true := by
      have inside := i.isLt
      simp only [prepareDone, Bool.or_eq_true, decide_eq_true_eq] at done
      exact done.resolve_right (by omega)
    have more := (tracks.stops stopped).resolve_left undecided
    rw [tracks.majorityCount] at more
    obtain ⟨voters, count, voted⟩ := exists_answered (List.nodup_finRange n)
      (by simpa using short : (outcomes.map (Option.map Promise.response)).length ≤ (List.finRange n).length)
      PrepareResponse.isOk
    have few := told.ahead voters fun j member => by
      obtain ⟨k, answer, peer, place, ok⟩ := voted j member
      rw [List.getElem?_map, Option.map_eq_some_iff] at place
      obtain ⟨outcome, here, rfl⟩ := place
      obtain ⟨promise, rfl, other, at_, answered⟩ := reply here
      have within := (List.getElem?_eq_some_iff.mp here).1
      have same : j.val = k := by
        obtain ⟨inside, same⟩ := List.getElem?_eq_some_iff.mp peer
        rw [← same, List.getElem_finRange]
        rfl
      obtain rfl : other = j := Fin.ext (at_.trans same.symm)
      refine ⟨Fin.lt_def.mpr (by omega), ((told.replies other promise answered).1).mp ?_⟩
      simpa [PrepareResponse.isOk] using ok
    omega

/-- Where a fault-free round stands after it has taken the mutex of its open slot. -/
inductive OnTrack (r : Nat) (seq : Int) (s : Attended n) (round : Round n) : Prop where
  | told {number highestN : Int} {outcomes : List (Option Promise)} {promising : Fin n → Prop} {i : Fin n}
      (prepares : round.phase = .preparing number highestN outcomes) (heard : none ∉ outcomes)
      (told : Told r seq number promising i s)
  | hushed (proposing : (∃ number highestN outcomes, round.phase = .preparing number highestN outcomes) ∨
        ∃ value outcomes, round.phase = .accepting value outcomes)
      (hushed : Hushed r seq s)
  | learns {value : String} (learns : round.phase = .learning value)
  | returned (ended : round.phase = .finished)
      (decided : ∀ i, ((s.cluster.servers i).slotAt seq).status = .decided)

/-- No reply to a hushed round ends it before its Learns. -/
theorem Hushed.unreported (hushed : Hushed r seq s) (running : Running r me seq view s) {round : Round n}
    {value : String} {outcomes : Fin n → Option (Option AcceptResponse)}
    (found : s.cluster.rounds[r]? = some round) (accepts : round.phase = .accepting value outcomes) :
    isDecidedAcc round.seq (acceptOutcomes outcomes) = false := by
  rw [Bool.eq_false_iff]
  intro reported
  obtain ⟨outcome, member, told⟩ := List.any_eq_true.mp reported
  obtain ⟨response, rfl, decides⟩ := (Option.any_eq_true _ _).mp told
  obtain ⟨i, _, heard⟩ := List.mem_map.mp member
  have replied := accepting_outcome running.reached found accepts (Option.join_eq_some_iff.mp heard)
  have positive := (seq_nonneg running.reached).1 round (List.mem_of_getElem? found)
  have silent := hushed.replies i _ response replied
  have done := acceptReply_done running.reached replied
  simp [AcceptResponse.reportsDecision, silent, done] at decides
  omega

/-- A round whose Learns were all delivered has decided its slot everywhere. -/
theorem Running.learned (running : Running r me seq view s) {round : Round n} {value : String}
    (found : s.cluster.rounds[r]? = some round) (learns : round.phase = .learning value)
    (joined : s.Serves r (.finishLearn r)) (i : Fin n) :
    ((s.cluster.servers i).slotAt seq).status = .decided := by
  have called := round_called running.reached found
  unfold Cluster.Called at called
  rw [learns] at called
  obtain ⟨request, member⟩ := called i
  obtain ⟨k, sent⟩ := List.getElem?_of_mem member
  have delivered := joined k (List.getElem?_eq_some_iff.mp sent).1 (by simp [sent, Msg.isLearnOf])
  obtain ⟨message, same, served⟩ := running.served k delivered
  rw [sent] at same
  cases same
  obtain ⟨_, there, slot, _⟩ := learnRequest_round running.reached member
  rw [(running.round_seq there).2] at slot
  rw [← slot]
  exact served

theorem OnTrack.step {round : Round n} (track : OnTrack r seq s round) (running : Running r me seq view s)
    (found : s.cluster.rounds[r]? = some round) (serves : s.Serves r label)
    (taken : s.step label = some next) :
    ∃ round', next.cluster.rounds[r]? = some round' ∧ OnTrack r seq next round' := by
  obtain ⟨cluster, moved, rfl⟩ := Option.map_eq_some_iff.mp (id taken)
  have event := Cluster.step_event moved
  have move := (running.alone found).moves serves moved
  have there {c' : Cluster n} {phase : RoundPhase n} (same : cluster = c')
      (written : c'.rounds = s.cluster.rounds.set r { round with phase }) :
      cluster.rounds[r]? = some { round with phase } := by
    rw [same, written]
    exact getElem?_set_self_of_some found
  cases track with
  | told prepares heard told =>
      have later := told.step running serves found prepares taken
      cases move with
      | rests other rounds forwards => exact ⟨round, by rw [rounds]; exact found, .told prepares heard later⟩
      | hears hears continues place received moved =>
          rw [prepares] at hears
          cases hears
          refine ⟨_, there moved rfl, .told rfl ?_ later⟩
          simpa using heard
      | proposes proposed moved =>
          cases proposed with
          | skips skips => simp [skips.1] at prepares
          | prepared proposing done chosen =>
              rw [prepares] at proposing
              cases proposing
              exact (told.not_accept running found prepares heard done chosen).elim
      | learns learned moved => exact ⟨_, there moved rfl, .learns rfl⟩
      | closes named other | prepares named other | counts other | breaks other | returns named other =>
          simp [other] at prepares
  | hushed proposing hushed =>
      have early : ¬ ((∃ value, round.phase = .learning value) ∨ round.phase = .finished) := by
        obtain ⟨_, _, _, phase⟩ | ⟨_, _, phase⟩ := proposing <;> simp [phase]
      have later (delivered : List Nat) : Hushed r seq ⟨cluster, delivered⟩ :=
        hushed.step running serves found early moved
      cases move with
      | rests other rounds forwards => exact ⟨round, by rw [rounds]; exact found, .hushed proposing (later _)⟩
      | hears prepares continues place received moved =>
          exact ⟨_, there moved rfl, .hushed (.inl ⟨_, _, _, rfl⟩) (later _)⟩
      | proposes proposed moved => exact ⟨_, there moved rfl, .hushed (.inr ⟨_, _, rfl⟩) (later _)⟩
      | counts accepts fresh received moved =>
          exact ⟨_, there moved rfl, .hushed (.inr ⟨_, _, rfl⟩) (later _)⟩
      | breaks accepts reported moved =>
          rw [hushed.unreported running found accepts] at reported
          cases reported
      | learns learned moved => exact ⟨_, there moved rfl, .learns rfl⟩
      | closes named other | prepares named other | returns named other =>
          obtain ⟨_, _, _, phase⟩ | ⟨_, _, phase⟩ := proposing <;> simp [other] at phase
  | learns learns =>
      cases move with
      | rests other rounds forwards => exact ⟨round, by rw [rounds]; exact found, .learns learns⟩
      | returns named again ended =>
          subst named
          refine ⟨_, there ended rfl, .returned rfl fun i => ?_⟩
          exact event.status_kept (running.learned found learns serves i)
      | proposes proposed =>
          cases proposed with
          | skips skips => simp [skips.1] at learns
          | prepared other => simp [other] at learns
      | learns learned =>
          cases learned with
          | reported other | accepted other => simp [other] at learns
      | closes named other | prepares named other | hears other | counts other | breaks other =>
          simp [other] at learns
  | returned ended decided =>
      cases move with
      | rests other rounds forwards =>
          exact ⟨round, by rw [rounds]; exact found, .returned ended fun i => event.status_kept (decided i)⟩
      | proposes proposed =>
          cases proposed with
          | skips skips => simp [skips.1] at ended
          | prepared other => simp [other] at ended
      | learns learned =>
          cases learned with
          | reported other | accepted other => simp [other] at ended
      | closes named other | prepares named other | hears other | counts other | breaks other
        | returns named other => simp [other] at ended

theorem begin_waits {c c' : Cluster n} {round : Round n} (found : c.rounds[r]? = some round)
    (taken : c.begin r = some c') : round.phase = .waiting := by
  unfold Cluster.begin at taken
  rw [found] at taken
  dsimp only at taken
  split at taken
  next waits => exact waits
  · cases taken

section Begins

variable {round : Round n} {cluster : Cluster n} {delivered : List Nat}

/-- A round that waits has no replies, so only the servers could report a decision. -/
theorem Running.hushed (running : Running r me seq view s) (found : s.cluster.rounds[r]? = some round)
    (waits : round.phase = .waiting) (silent : s.cluster.Unreported seq) : Hushed r seq s := by
  constructor
  · intro i value decided
    have text := silent i
    rwa [PaxosImpl.decidedText_eq, decided] at text
  · intro i request response member
    obtain ⟨_, there, _, _, sent⟩ :=
      acceptRequest_round running.reached (acceptReply_request running.reached member)
    rw [found] at there
    cases there
    unfold Round.Sent at sent
    rw [waits] at sent
    exact sent.elim

/-- A round that begins to prepare will hear of the decision before it has a majority. -/
theorem Running.told (running : Running r me seq view s) (found : s.cluster.rounds[r]? = some round)
    (waits : round.phase = .waiting) (moved : s.cluster.step (.begin r) = some cluster) {i : Fin n}
    (text : PaxosImpl.decidedText ((s.cluster.servers i).slotAt seq) ≠ "")
    (promised : s.cluster.Promises me seq i)
    (ahead : (Finset.univ.filter fun j => j < i ∧ s.cluster.Promises me seq j).card ≤ n / 2) :
    Told r seq (nextNumber n ((s.cluster.servers me).slotAt seq)) (s.cluster.Promises me seq) i
      ⟨cluster, delivered⟩ := by
  have event := Cluster.step_event moved
  refine ⟨?_, promised, fun voters each => ?_, fun j _ => ?_, fun j promise member => ?_⟩
  · rw [PaxosImpl.decidedText_eq] at text
    cases decided : (s.cluster.servers i).decidedValue seq with
    | none => simp [decided] at text
    | some value => exact ⟨value, event.decided_kept decided, by simpa [decided] using text⟩
  · refine (Finset.card_le_card fun j member => ?_).trans ahead
    exact Finset.mem_filter.mpr ⟨Finset.mem_univ j, each j member⟩
  · obtain same | ⟨_, _, _, other, _⟩ := nP_cases moved j seq
    · show ((cluster.servers j).slotAt seq).nP < _ ↔ _
      rw [same]
      exact Iff.rfl
    · cases other
  · obtain before | ⟨_, _, other, _⟩ := event.prepareReply_cases member
    · obtain ⟨_, again, called, _⟩ := prepareReply_round running.reached before
      rw [found] at again
      cases again
      exact absurd waits called
    · cases other

/-- A round that finds its slot open goes on its way. -/
theorem Running.onTrack (running : Running r me seq view s)
    (undecided : ((s.cluster.servers me).slotAt seq).status ≠ .decided)
    (heard : s.cluster.Unreported seq ∨ s.cluster.HearsFirst me seq)
    (taken : s.step (.begin r) = some next) :
    ∃ round, next.cluster.rounds[r]? = some round ∧ OnTrack r seq next round := by
  obtain ⟨cluster, moved, rfl⟩ := Option.map_eq_some_iff.mp taken
  obtain ⟨round, found, rfl, rfl, _⟩ := running.own
  have waits := begin_waits found moved
  have hushes (silent : s.cluster.Unreported round.seq) (delivered : List Nat) :
      Hushed r round.seq ⟨cluster, delivered⟩ :=
    (running.hushed found waits silent).step running (show s.Serves r (.begin r) from trivial) found
      (by simp [waits]) moved
  have there {c' : Cluster n} {phase : RoundPhase n} (same : cluster = c')
      (written : c'.rounds = s.cluster.rounds.set r { round with phase }) :
      cluster.rounds[r]? = some { round with phase } := by
    rw [same, written]
    exact getElem?_set_self_of_some found
  cases begin_moves (running.alone found) moved with
  | rests other => exact absurd rfl other
  | closes named waits settled moved =>
      rw [isDead_false running.reached] at settled
      exact absurd settled (by simp [undecided])
  | prepares named waits undecided seen after =>
      obtain silent | ⟨_, i, text, promised, ahead⟩ := heard
      · exact ⟨_, there after rfl, .hushed (.inl ⟨_, _, _, rfl⟩) (hushes silent _)⟩
      · exact ⟨_, there after rfl, .told rfl (by simp)
          (running.told found waits moved text promised ahead)⟩
  | proposes proposed after =>
      cases proposed with
      | skips skips free =>
          obtain silent | ⟨seen, _⟩ := heard
          · exact ⟨_, there after rfl, .hushed (.inr ⟨_, _, rfl⟩) (hushes silent _)⟩
          · have unseen := skips.2.2.2
            omega
  | learns learned =>
      cases learned
  | hears other | counts other | breaks other => simp [other] at waits
  | returns named => cases named

end Begins

/-- A fault-free run from the start to the last state takes the mutex of the round's slot between the
other two. -/
structure TakesMutex (r : Nat) (start ready begun s : Attended n) : Prop where
  before : GuardedReachable step (FaultFree r) start ready
  allowed : ready.FaultFree r (.begin r)
  taken : ready.step (.begin r) = some begun
  after : GuardedReachable step (FaultFree r) begun s

theorem Running.run (running : Running r me seq view s)
    (reached : GuardedReachable Attended.step (FaultFree r) s next) : Running r me seq view next := by
  refine guarded_invariant running ?_ reached
  intro s label next _ running allowed taken
  exact running.step allowed taken

theorem OnTrack.run {round : Round n} (track : OnTrack r seq s round) (running : Running r me seq view s)
    (found : s.cluster.rounds[r]? = some round)
    (reached : GuardedReachable Attended.step (FaultFree r) s next) :
    ∃ round', next.cluster.rounds[r]? = some round' ∧ OnTrack r seq next round' := by
  have both : Running r me seq view next ∧
      ∃ round', next.cluster.rounds[r]? = some round' ∧ OnTrack r seq next round' := by
    refine @guarded_invariant _ _ _ _ _ _ (fun s => Running r me seq view s ∧
      ∃ round', s.cluster.rounds[r]? = some round' ∧ OnTrack r seq s round')
      ⟨running, round, found, track⟩ ?_ reached
    rintro s label next _ ⟨running, round', there, track⟩ allowed taken
    exact ⟨running.step allowed taken, track.step running there allowed.1 taken⟩
  exact both.2

/-- A round on its way has decided its slot everywhere when it returns. -/
theorem OnTrack.completes {round : Round n} (track : OnTrack r seq s round)
    (ended : round.phase = .finished) (i : Fin n) :
    ((s.cluster.servers i).slotAt seq).status = .decided := by
  cases track with
  | told prepares => simp [prepares] at ended
  | hushed proposing => obtain ⟨_, _, _, phase⟩ | ⟨_, _, phase⟩ := proposing <;> simp [phase] at ended
  | learns learns => simp [learns] at ended
  | returned _ decided => exact decided i

/-- A round that has returned took the mutex of its slot. -/
theorem Running.takesMutex {round : Round n} (running : Running r me seq view s)
    (found : s.cluster.rounds[r]? = some round) (waits : round.phase = .waiting)
    (reached : GuardedReachable Attended.step (FaultFree r) s next) (returned : next.Returned r) :
    ∃ ready begun, TakesMutex r s ready begun next := by
  have passed : Running r me seq view next ∧ (next.cluster.rounds[r]? = some round ∨
      ∃ ready begun, TakesMutex r s ready begun next) := by
    refine @guarded_invariant _ _ _ _ _ _ (fun next => Running r me seq view next ∧
      (next.cluster.rounds[r]? = some round ∨ ∃ ready begun, TakesMutex r s ready begun next))
      ⟨running, .inl found⟩ ?_ reached
    rintro middle label next reached ⟨running, there | ⟨ready, begun, takes⟩⟩ allowed taken
    · refine ⟨running.step allowed taken, ?_⟩
      have begins (named : label = .begin r) : ∃ ready begun, TakesMutex r s ready begun next := by
        subst named
        exact ⟨middle, next, reached, allowed, taken, ⟨[], trivial, rfl⟩⟩
      obtain ⟨cluster, moved, rfl⟩ := Option.map_eq_some_iff.mp taken
      cases (running.alone there).moves allowed.1 moved with
      | rests other rounds => exact .inl (by rw [← there, ← rounds])
      | closes named | prepares named => exact .inr (begins named)
      | proposes proposed =>
          cases proposed with
          | skips skips => exact .inr (begins rfl)
          | prepared prepares => simp [prepares] at waits
      | learns learned =>
          cases learned with
          | reported other | accepted other => simp [other] at waits
      | hears other | counts other | breaks other | returns named other => simp [other] at waits
    · exact ⟨running.step allowed taken, .inr ⟨ready, begun, takes.before, takes.allowed, takes.taken,
        takes.after.step allowed taken⟩⟩
  obtain there | takes := passed.2
  · have ended := returned round there
    simp [waits] at ended
  · exact takes

/-- A round that finds its slot decided returns at once. -/
theorem Running.closes (running : Running r me seq view s)
    (decided : ((s.cluster.servers me).slotAt seq).status = .decided)
    (taken : s.step (.begin r) = some next) :
    next.Returned r ∧ next.cluster.servers = s.cluster.servers ∧ next.cluster.msgs = s.cluster.msgs := by
  obtain ⟨cluster, moved, rfl⟩ := Option.map_eq_some_iff.mp taken
  obtain ⟨round, found, rfl, rfl, _⟩ := running.own
  have waits := begin_waits found moved
  cases begin_moves (running.alone found) moved with
  | rests other => exact absurd rfl other
  | closes named waits settled moved =>
      subst moved
      refine ⟨fun round' there => ?_, rfl, rfl⟩
      rw [Option.mem_def, show (s.cluster.setPhase r round .finished).rounds[r]? = _ from
        getElem?_set_self_of_some found] at there
      cases there
      rfl
  | prepares named waits undecided => exact absurd decided undecided
  | proposes proposed =>
      cases proposed with
      | skips skips => exact absurd decided skips.2.1
  | learns learned => cases learned
  | hears other | counts other | breaks other => simp [other] at waits
  | returns named => cases named

end Attended

variable {c started : Cluster n} {me : Fin n} {seq view : Int} {v : String}

/-- A call of `Start` for an open slot runs its round alone. -/
theorem Cluster.Calm.running (calm : c.Calm me view) (above : (c.servers me).lowestSlot ≤ seq)
    (undecided : ((c.servers me).slotAt seq).status ≠ .decided)
    (taken : c.step (.start me seq v) = some started) :
    started.rounds[c.rounds.length]? = some ⟨me, seq, v, view, .waiting⟩ ∧
      Attended.Running c.rounds.length me seq view ⟨started, []⟩ := by
  have proposes := PaxosImpl.start_proposes above undecided calm.alive (by rw [calm.views]; exact calm.leader)
    calm.trusted
  have moved := taken
  simp only [Cluster.step, Cluster.start, proposes, calm.views, Option.ite_none_right_eq_some,
    Option.some.injEq] at moved
  obtain ⟨_, rfl⟩ := moved
  have found : (c.rounds ++ [(⟨me, seq, v, view, .waiting⟩ : Round n)])[c.rounds.length]? =
      some ⟨me, seq, v, view, .waiting⟩ := List.getElem?_concat_length
  refine ⟨found, calm.reached.step taken, fun i => ?_, ⟨_, found, rfl, rfl, rfl, by simp⟩,
    fun q other there apart => ?_, calm.idle.2, fun i promise member => ?_, fun k known => ?_⟩
  · have kept : ((c.servers me).addSlots seq).view = (c.servers me).view := rfl
    exact (Attended.update_view kept i).trans (calm.views i)
  · obtain before | ⟨least, place⟩ := getElem?_append_cases there
    · exact calm.idle.1 other (List.mem_of_getElem? before)
    · have least : c.rounds.length ≤ q := least
      have inside : q - c.rounds.length < 1 := (List.getElem?_eq_some_iff.mp place).1
      omega
  · obtain ⟨round, there, _⟩ := prepareReply_round calm.reached member
    simp at there
  · cases known

/-- The leader proposes for the slot, and only its own Learn is delivered. -/
def followerUnlearned (leader : Fin n) : List (Label n) :=
  [.start leader 1 "x#SHARED", .begin 0, .deliver 0, .deliver 1, .receive 2, .receive 3, .conclude 0,
    .deliver 4, .finishLearn 0]

/-- The leader proposes for the slot, but its own Accept and its own Learn are lost. -/
def leaderUnlearned (leader : Fin n) : List (Label n) :=
  [.start leader 1 "x#SHARED", .begin 0, .acceptFails 0 leader, .deliver 1, .receive 2, .conclude 0,
    .deliver 4, .finishLearn 0]

/-- A checked run gives a fault-free proposal that returns from a calm state of two servers. -/
theorem returned_of_checked {before after : List (Label 2)} {v : String} {r : Nat}
    {fails : Cluster 2 → Attended 2 → Prop} [∀ c s, Decidable (fails c s)]
    (checked : (run Cluster.step (Cluster.initial 2) before).any (fun c =>
      decide (c.rounds.length = r ∧ c.Idle ∧ (∀ i, (c.servers i).view = 0) ∧
        (c.servers 0).leaderDead = false ∧ (c.servers 0).isDead = false) &&
      (c.step (.start 0 1 v)).any fun started =>
        decide (Guarded Attended.step (Attended.FaultFree r) ⟨started, []⟩ after) &&
        (run Attended.step ⟨started, []⟩ after).any fun s => decide (s.Returned r ∧ fails c s)) = true) :
    ∃ c started s, run Cluster.step (Cluster.initial 2) before = some c ∧ c.Calm 0 0 ∧
      c.step (.start 0 1 v) = some started ∧
      GuardedReachable Attended.step (Attended.FaultFree c.rounds.length) ⟨started, []⟩ s ∧
      s.Returned c.rounds.length ∧ fails c s := by
  obtain ⟨c, reached, checked⟩ := (Option.any_eq_true _ _).mp checked
  obtain ⟨calm, checked⟩ := (Bool.and_eq_true _ _).mp checked
  obtain ⟨started, taken, checked⟩ := (Option.any_eq_true _ _).mp checked
  obtain ⟨guarded, checked⟩ := (Bool.and_eq_true _ _).mp checked
  obtain ⟨s, ran, checked⟩ := (Option.any_eq_true _ _).mp checked
  obtain ⟨rfl, idle, views, trusted, alive⟩ := of_decide_eq_true calm
  obtain ⟨returned, failed⟩ := of_decide_eq_true checked
  exact ⟨c, started, s, reached, ⟨⟨before, reached⟩, idle, views, by decide, trusted, alive⟩, taken,
    ⟨after, of_decide_eq_true guarded, ran⟩, returned, failed⟩

end Chubby.Paxos
