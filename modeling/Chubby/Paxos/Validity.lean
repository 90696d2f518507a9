/-
This file proves when every decided and every proposed value was passed to Start for its slot.
-/

import Chubby.Paxos.FastPath
import Chubby.Paxos.PrepareLoop
import Chubby.Paxos.Sources

namespace Chubby.Paxos

open Chubby.Library

variable {n : Nat}

/-- The cluster together with the arguments of the calls to `Start` so far, a history variable. -/
structure Recorded (n : Nat) where
  cluster : Cluster n
  started : List (Int × String)

/-- A forwarded call repeats the arguments of an earlier one, so only the label `start` adds some. -/
def Label.startCalls : Label n → List (Int × String)
  | .start _ seq v => [(seq, v)]
  | _ => []

namespace Recorded

def initial (n : Nat) : Recorded n := ⟨.initial n, []⟩

def step (s : Recorded n) (label : Label n) : Option (Recorded n) :=
  (s.cluster.step label).map fun cluster => ⟨cluster, s.started ++ label.startCalls⟩

/-- The value was passed to Start for the slot. -/
def Started (s : Recorded n) (seq : Int) (value : String) : Prop := (seq, value) ∈ s.started

instance (s : Recorded n) (seq : Int) (value : String) : Decidable (s.Started seq value) :=
  inferInstanceAs (Decidable (_ ∈ _))

/-- Every decided value, and every value of an Accept or a Learn, was passed to Start for its slot. -/
structure Valid (s : Recorded n) : Prop where
  decided : ∀ i seq value, (s.cluster.servers i).decidedValue seq = some value → s.Started seq value
  accepts : ∀ r i request, .acceptRequest r i request ∈ s.cluster.msgs →
    s.Started request.seq request.value
  learns : ∀ r i request, .learnRequest r i request ∈ s.cluster.msgs →
    s.Started request.seq request.value

theorem step_eq_some {s next : Recorded n} {label : Label n} :
    s.step label = some next ↔ s.cluster.step label = some next.cluster ∧
      next.started = s.started ++ label.startCalls := by
  obtain ⟨cluster, started⟩ := next
  simp only [step, Option.map_eq_some_iff, Recorded.mk.injEq]
  constructor
  · rintro ⟨_, taken, rfl, rfl⟩
    exact ⟨taken, rfl⟩
  · rintro ⟨taken, rfl⟩
    exact ⟨cluster, taken, rfl, rfl⟩

end Recorded

/-- The arguments of a Start that some thread or message still carries. -/
def Carries (c : Cluster n) (seq : Int) (v : String) : Prop :=
  (∃ round ∈ c.rounds, round.seq = seq ∧ round.v = v) ∨
  (∃ forward ∈ c.forwards, forward.seq = seq ∧ forward.v = v) ∨
  ∃ f i, .forwardRequest f i seq v ∈ c.msgs

/-- The forward of a round that adopts a larger view has the arguments of the round. -/
theorem Cluster.propose_forwards {c c' : Cluster n} {r : Nat} (taken : c.propose r = some c')
    {forward : Forward n} (member : forward ∈ c'.forwards) : forward ∈ c.forwards ∨
      ∃ round ∈ c.rounds, round.seq = forward.seq ∧ round.v = forward.v := by
  unfold propose at taken
  split at taken
  · cases taken
  next round found =>
    split at taken
    · split at taken
      · split at taken
        · split at taken
          · cases taken
            obtain before | new := List.mem_append.mp member
            · exact .inl before
            · rw [List.mem_singleton.mp new]
              exact .inr ⟨round, List.mem_of_getElem? found, rfl, rfl⟩
          · cases taken
        · cases taken
          exact .inl member
        · split at taken
          · cases taken
            exact .inl member
          · cases taken
      · cases taken
    · cases taken

/-- A Start hands its arguments to the thread that it spawns. -/
theorem spawn_carries {c : Cluster n} {i : Fin n} {server : PaxosImpl} {action : StartAction}
    {seq query : Int} {v text : String}
    (carries : Carries ((c.setServer i server).spawn i seq v action) query text) :
    Carries c query text ∨ (query = seq ∧ text = v) := by
  obtain ⟨round, member, rfl, rfl⟩ | ⟨forward, member, rfl, rfl⟩ | ⟨f, j, member⟩ := carries
  · cases action with
    | newSlot view =>
        obtain before | new := List.mem_append.mp member
        · exact .inl (.inl ⟨round, before, rfl, rfl⟩)
        · rw [List.mem_singleton.mp new]
          exact .inr ⟨rfl, rfl⟩
    | stop => exact .inl (.inl ⟨round, member, rfl, rfl⟩)
    | forward => exact .inl (.inl ⟨round, member, rfl, rfl⟩)
  · cases action with
    | forward =>
        obtain before | new := List.mem_append.mp member
        · exact .inl (.inr (.inl ⟨forward, before, rfl, rfl⟩))
        · rw [List.mem_singleton.mp new]
          exact .inr ⟨rfl, rfl⟩
    | stop => exact .inl (.inr (.inl ⟨forward, member, rfl, rfl⟩))
    | newSlot view => exact .inl (.inr (.inl ⟨forward, member, rfl, rfl⟩))
  · rw [Cluster.spawn_msgs] at member
    exact .inl (.inr (.inr ⟨f, j, member⟩))

/-- The arguments that a step carries on come from an earlier thread or message, or from its label. -/
def Brings (c : Cluster n) (label : Label n) (seq : Int) (v : String) : Prop :=
  Carries c seq v ∨ ∃ i, label = .start i seq v

theorem carries_round {c : Cluster n} {r : Nat} {round : Round n} (found : c.rounds[r]? = some round) :
    Carries c round.seq round.v := .inl ⟨round, List.mem_of_getElem? found, rfl, rfl⟩

theorem carries_forward {c : Cluster n} {f : Nat} {forward : Forward n}
    (found : c.forwards[f]? = some forward) : Carries c forward.seq forward.v :=
  .inr (.inl ⟨forward, List.mem_of_getElem? found, rfl, rfl⟩)

theorem Event.round_brings {c c' : Cluster n} {label : Label n} (event : Event c label c')
    {round : Round n} (member : round ∈ c'.rounds) : Brings c label round.seq round.v := by
  obtain ⟨r, after⟩ := List.getElem?_of_mem member
  have kept {old : Round n} (found : c.rounds[r]? = some old) : Brings c label round.seq round.v := by
    obtain ⟨phase, same, _⟩ := event.rounds_kept found
    have carried := carries_round found
    rw [same] at after
    cases after
    exact .inl carried
  cases earlier : c.rounds[r]? with
  | some old => exact kept earlier
  | none =>
      have length : c.rounds.length ≤ r := List.getElem?_eq_none_iff.mp earlier
      have inside : r < c'.rounds.length := (List.getElem?_eq_some_iff.mp after).1
      cases event with
      | @start i seq v =>
          obtain before | ⟨rfl, rfl⟩ := spawn_carries (.inl ⟨round, member, rfl, rfl⟩)
          · exact .inl before
          · exact .inr ⟨i, rfl⟩
      | @forwardHandled k f i seq v sent =>
          obtain before | ⟨rfl, rfl⟩ := spawn_carries (.inl ⟨round, member, rfl, rfl⟩)
          · exact .inl before
          · exact .inl (.inr (.inr ⟨f, i, List.mem_of_getElem? sent⟩))
      | forwardProposes found action moved =>
          obtain before | new := List.mem_append.mp member
          · exact .inl (.inl ⟨round, before, rfl, rfl⟩)
          · rw [List.mem_singleton.mp new]
            exact .inl (carries_forward found)
      | electionEnds found asks asked =>
          exfalso
          rw [endElection_rounds] at inside
          omega
      | _ =>
          exfalso
          simp [Cluster.enterPrepare, Cluster.enterAccept, Cluster.enterLearn, Cluster.prepareOutcome,
            Cluster.electOutcome, Cluster.callBeat, Cluster.handled] at inside
          omega

theorem step_forward_brings {c c' : Cluster n} {label : Label n} (taken : c.step label = some c')
    {forward : Forward n} (member : forward ∈ c'.forwards) : Brings c label forward.seq forward.v := by
  have old (before : forward ∈ c.forwards) : Brings c label forward.seq forward.v :=
    .inl (.inr (.inl ⟨forward, before, rfl, rfl⟩))
  have moved {f : Nat} {asked : Forward n} {forwards : List (Forward n)}
      (found : c.forwards[f]? = some asked)
      (written : ∃ phase, forwards = c.forwards.set f { asked with phase })
      (member : forward ∈ forwards) : Brings c label forward.seq forward.v := by
    have carried := carries_forward found
    obtain ⟨phase, rfl⟩ := written
    obtain before | rfl := List.mem_or_eq_of_mem_set member
    · exact old before
    · exact .inl carried
  cases Cluster.step_event taken with
  | @start i seq v =>
      obtain before | ⟨rfl, rfl⟩ := spawn_carries (.inr (.inl ⟨forward, member, rfl, rfl⟩))
      · exact .inl before
      · exact .inr ⟨i, rfl⟩
  | @forwardHandled k f i seq v sent =>
      obtain before | ⟨rfl, rfl⟩ := spawn_carries (.inr (.inl ⟨forward, member, rfl, rfl⟩))
      · exact .inl before
      · exact .inl (.inr (.inr ⟨f, i, List.mem_of_getElem? sent⟩))
  | proposeForward found prepares asked =>
      obtain before | ⟨round, there, seq, v⟩ := Cluster.propose_forwards taken member
      · exact old before
      · exact .inl (.inl ⟨round, there, seq, v⟩)
  | forwardProposes found action written => exact moved found written member
  | forwardCalls found written => exact moved found written member
  | forwardReturns found written => exact moved found written member
  | parentEnds found written parent forwarding => exact moved found written member
  | @electionEnds e attempt campaign outcomes found asks asked =>
      apply old
      unfold Cluster.endElection at member
      dsimp only at member
      split at member <;> exact member
  | _ => exact old member

theorem Event.request_brings {c c' : Cluster n} {label : Label n} (event : Event c label c') {f : Nat}
    {i : Fin n} {seq : Int} {v : String} (member : .forwardRequest f i seq v ∈ c'.msgs) :
    Brings c label seq v := by
  have old (before : .forwardRequest f i seq v ∈ c.msgs) : Brings c label seq v :=
    .inl (.inr (.inr ⟨f, i, before⟩))
  have added {new : List (Msg n)} (member : .forwardRequest f i seq v ∈ c.msgs ++ new)
      (silent : .forwardRequest f i seq v ∉ new) : Brings c label seq v :=
    old ((List.mem_append.mp member).resolve_right silent)
  have prepares {r : Nat} {round : Round n} {number : Int} {called : Nat} :
      .forwardRequest f i seq v ∉ Cluster.prepareRequests r round number called := by
    unfold Cluster.prepareRequests
    split <;> simp
  cases event with
  | @start j seq v => rw [Cluster.spawn_msgs] at member; exact old member
  | @forwardHandled k g j seq v sent => rw [Cluster.spawn_msgs] at member; exact old member
  | forwardCalls found written =>
      obtain before | new := List.mem_append.mp member
      · exact old before
      · cases List.mem_singleton.mp new
        exact .inl (carries_forward found)
  | beginPrepare found waits free seen => exact added member prepares
  | skip found skips free => exact added member (by simp [Cluster.acceptRequests])
  | @prepareOutcome label r round number highestN outcomes outcome found waits continues received =>
      unfold Cluster.prepareOutcome at member
      dsimp only at member
      split at member
      · exact added member (by simp)
      · exact added member prepares
  | proposeAccept found waits done chosen => exact added member (by simp [Cluster.acceptRequests])
  | proposeLearn found waits chosen => exact added member (by simp [Cluster.learnRequests])
  | concludeLearn found accepts unreported => exact added member (by simp [Cluster.learnRequests])
  | electOutcome found asks received => exact added member (by simp [Cluster.electRequests])
  | @electionEnds e attempt campaign outcomes found asks asked =>
      unfold Cluster.endElection at member
      dsimp only at member
      split at member
      · exact old member
      · exact old member
      · exact added member (by simp [Cluster.electRequests])
  | detectCampaign election => exact added member (by simp [Cluster.electRequests])
  | sendBeat found waits next => exact added member (by simp)
  | prepareHandled sent => exact added member (by split <;> simp)
  | acceptHandled sent => exact added member (by split <;> simp)
  | electHandled sent => exact added member (by simp)
  | heartbeatHandled sent => exact added member (by split <;> simp)
  | _ => exact old member

/-- Threads and messages carry only arguments that some Start was called with. -/
theorem step_brings {c c' : Cluster n} {label : Label n} (taken : c.step label = some c') {seq : Int}
    {v : String} (carries : Carries c' seq v) : Brings c label seq v := by
  obtain ⟨round, member, rfl, rfl⟩ | ⟨forward, member, rfl, rfl⟩ | ⟨f, i, member⟩ := carries
  · exact (Cluster.step_event taken).round_brings member
  · exact step_forward_brings taken member
  · exact (Cluster.step_event taken).request_brings member

/-- The only reply of the loop is an OK one without a reported text and without an accepted value, so a
group of one server counts its accepted number as a majority and takes the empty text as decided. -/
def Round.takesEmpty (round : Round n) : Prop :=
  match round.phase with
  | .preparing _ _ [some promise] => n = 1 ∧ promise.response.status = .ok ∧
      promise.response.vA = "" ∧ promise.response.value = "" ∧ promise.response.nA ≤ round.myView
  | _ => False

instance (round : Round n) : Decidable round.takesEmpty :=
  match phase : round.phase with
  | .preparing _ _ [some promise] =>
      decidable_of_iff (n = 1 ∧ promise.response.status = .ok ∧ promise.response.vA = "" ∧
        promise.response.value = "" ∧ promise.response.nA ≤ round.myView) (by simp [Round.takesEmpty, phase])
  | .preparing _ _ [] | .preparing _ _ [none] | .preparing _ _ (_ :: _ :: _)
  | .waiting | .accepting _ _ | .learning _ | .forwarding | .finished =>
      isFalse (by simp [Round.takesEmpty, phase])

section Alone

variable {groupSize : Nat} {v : String} {highestN myView : Int} {value : String}
  {response : PrepareResponse}

/-- A loop that ends as decided has heard an OK reply. -/
theorem ok_of_decided {outcomes : List (Option PrepareResponse)}
    (decided : (prepareLoop id groupSize (.initial v highestN) outcomes).isDecidedPrep = true) :
    ∃ response, some response ∈ outcomes ∧ response.status = .ok := by
  obtain ⟨response, member, ok, _⟩ | ⟨_, kept⟩ :=
    (prepareLoop_tracks groupSize v highestN (faithful_id outcomes)).decided.mp decided
  · exact ⟨response, member, ok⟩
  · obtain ⟨response, keeps⟩ := Option.isSome_iff_exists.mp kept
    exact ⟨response, keptReply_mem id keeps, (keptReply_first id keeps).1⟩

/-- A loop with at most one outcome leads to the learn phase only after an OK reply. -/
theorem afterPrepare_alone {outcomes : List (Option PrepareResponse)} (alone : groupSize ≤ 1)
    (short : outcomes.length ≤ 1)
    (positive : ∀ response, some response ∈ outcomes → -1 < response.nA)
    (chosen : afterPrepare v myView (prepareLoop id groupSize (.initial v highestN) outcomes) = .learn value) :
    ∃ response, outcomes = [some response] ∧ response.status = .ok ∧ response.nA ≤ myView ∧
      value = if response.value = "" then response.vA else response.value := by
  have decided : (prepareLoop id groupSize (.initial v highestN) outcomes).isDecidedPrep = true := by
    unfold afterPrepare at chosen
    split at chosen
    · cases chosen
    · split at chosen
      next decided => exact decided
      · cases chosen
  obtain ⟨response, member, ok⟩ := ok_of_decided decided
  obtain ⟨outcome, rfl⟩ : ∃ outcome, outcomes = [outcome] :=
    List.length_eq_one_iff.mp (le_antisymm short (List.length_pos_of_mem member))
  cases List.mem_singleton.mp member
  rw [afterPrepare_ok alone ok (positive response member)] at chosen
  split at chosen
  · cases chosen
  next within => exact ⟨response, rfl, ok, Int.not_lt.mp within, (AfterPrepare.learn.inj chosen).symm⟩

end Alone

/-- The arguments of every Start, and all that the threads and servers have made of them, are known. -/
structure Traced (known : Int → String → Prop) (c : Cluster n) : Prop where
  carried : ∀ seq v, Carries c seq v → known seq v
  accepting : ∀ (r : Nat) (round : Round n) value outcomes, c.rounds[r]? = some round →
    round.phase = .accepting value outcomes → known round.seq value
  accepts : ∀ r i request, .acceptRequest r i request ∈ c.msgs → known request.seq request.value
  sourced : Sourced known c

section Known

variable {known wider : Int → String → Prop} {c c' : Cluster n} {label : Label n}

theorem traced_initial : Traced known (Cluster.initial n) where
  carried seq v carries := by
    obtain ⟨_, member, _⟩ | ⟨_, member, _⟩ | ⟨_, _, member⟩ := carries <;> cases member
  accepting r round value outcomes found := by cases found
  accepts r i request member := by cases member
  sourced := sourced_initial

theorem Traced.mono (traced : Traced known c) (inside : ∀ seq value, known seq value → wider seq value) :
    Traced wider c where
  carried seq v carries := inside _ _ (traced.carried seq v carries)
  accepting r round value outcomes found accepts :=
    inside _ _ (traced.accepting r round value outcomes found accepts)
  accepts r i request member := inside _ _ (traced.accepts r i request member)
  sourced := traced.sourced.mono inside

/-- A non-empty accepted value that a promise of the round reports was sent in an Accept. -/
theorem Traced.promised (traced : Traced known c) (reached : c.Reached) {r : Nat} {round : Round n}
    {number highestN : Int} {outcomes : List (Option Promise)} (found : c.rounds[r]? = some round)
    (prepares : round.phase = .preparing number highestN outcomes) {response : PrepareResponse}
    (member : some response ∈ outcomes.map (Option.map Promise.response)) :
    -1 < response.nA ∧ (response.vA ≠ "" → known round.seq response.vA) := by
  obtain ⟨outcome, heard, is⟩ := List.mem_map.mp member
  cases outcome with
  | none => cases is
  | some promise =>
      cases is
      obtain ⟨k, place⟩ := List.getElem?_of_mem heard
      obtain ⟨i, _, replied⟩ := (preparing_outcome reached found prepares).2 k promise place
      obtain ⟨same, again, _, sound⟩ := prepareReply_round reached replied
      rw [found] at again
      cases again
      have positive := sound.positive
      refine ⟨by omega, fun text => ?_⟩
      cases last : promise.lastVote with
      | none => exact absurd (sound.silent last) text
      | some view =>
          obtain ⟨s, j, sent⟩ := Voted.proposed reached (sound.latest view last).2
          exact traced.accepts s j _ sent

/-- A round proposes its own value or one that was proposed before. -/
theorem Traced.proposes (traced : Traced known c) (reached : c.Reached) {r : Nat} {round : Round n}
    {value : String} (found : c.rounds[r]? = some round) (proposes : Proposes c r round label value) :
    known round.seq value := by
  have own := traced.carried _ _ (carries_round found)
  cases proposes with
  | skips skips free => exact own
  | prepared prepares done chosen =>
      obtain ⟨_, _, _, rfl⟩ := (afterPrepare_accept (faithful_id _)).mp chosen
      unfold keptText
      split
      · exact own
      next kept keeps =>
        split
        · exact own
        next text =>
          exact (traced.promised reached found prepares (keptReply_mem id keeps)).2 text

/-- A round that does not take the empty text as decided learns only known values. -/
theorem Traced.learns (traced : Traced known c) (reached : c.Reached) {r : Nat} {round : Round n}
    {value : String} (found : c.rounds[r]? = some round) (learns : Learns r round label value)
    (allowed : round.takesEmpty → label = .propose r → known round.seq "") : known round.seq value := by
  cases learns with
  | accepted accepts unreported => exact traced.accepting r round value _ found accepts
  | @reported number highestN outcomes value prepares chosen =>
      obtain alone | ⟨text, response, member, ok, same⟩ := afterPrepare_learn (faithful_id _) chosen
      · have short := (preparing_outcome reached found prepares).1
        obtain ⟨response, single, ok, within, same⟩ := afterPrepare_alone alone
          (by simpa using short.trans alone)
          (fun response member => (traced.promised reached found prepares member).1) chosen
        have member : some response ∈ outcomes.map (Option.map Promise.response) := by simp [single]
        rw [same]
        split
        next silent =>
          by_cases text : response.vA = ""
          · obtain ⟨promise, rfl, rfl⟩ : ∃ promise, outcomes = [some promise] ∧
                promise.response = response := by
              simpa [List.map_eq_singleton_iff, Option.map_eq_some_iff] using single
            have size : n = 1 := by have := round.server.isLt; omega
            rw [text]
            apply allowed _ rfl
            unfold Round.takesEmpty
            rw [prepares]
            exact ⟨size, ok, text, silent, within⟩
          · exact (traced.promised reached found prepares member).2 text
        next text => exact traced.sourced.promised reached found prepares member text
      · rw [← same] at text ⊢
        exact traced.sourced.promised reached found prepares member text

/-- A round is in its accept phase with the value that it was in it with, or it enters the phase. -/
theorem PhaseStep.accepting {r : Nat} {round : Round n} {phase : RoundPhase n} {value : String}
    {outcomes : Fin n → Option (Option AcceptResponse)} (step : PhaseStep c label r round phase)
    (accepts : phase = .accepting value outcomes) :
    Proposes c r round label value ∨ ∃ earlier, round.phase = .accepting value earlier := by
  cases step with
  | same => exact .inr ⟨outcomes, accepts⟩
  | proposes proposed => cases accepts; exact .inl proposed
  | counts earlier received => cases accepts; exact .inr ⟨_, earlier⟩
  | _ => cases accepts

theorem Traced.step (traced : Traced known c) (reached : c.Reached) (taken : c.step label = some c')
    (starts : ∀ i seq v, label = .start i seq v → known seq v)
    (allowed : ∀ (r : Nat) (round : Round n), c.rounds[r]? = some round → round.takesEmpty →
      label = .propose r → known round.seq "") : Traced known c' := by
  have event := Cluster.step_event taken
  refine ⟨?_, ?_, ?_, ?_⟩
  · intro seq v carries
    obtain before | ⟨i, started⟩ := step_brings taken carries
    · exact traced.carried seq v before
    · exact starts i seq v started
  · intro r round value outcomes after accepts
    cases event.rounds after with
    | new missing fresh =>
        rw [fresh.waits] at accepts
        cases accepts
    | @old before found step same =>
        have known : known before.seq value := by
          obtain proposed | ⟨earlier, accepting⟩ := step.accepting accepts
          · exact traced.proposes reached found proposed
          · exact traced.accepting r before value earlier found accepting
        rw [same]
        exact known
  · intro r i request member
    obtain before | ⟨round, value, found, rfl, proposes, _⟩ := event.fresh_of_mem member
    · exact traced.accepts r i request before
    · exact traced.proposes reached found proposes
  · refine traced.sourced.step reached event fun r round value found learns => ?_
    exact traced.learns reached found learns fun empty proposes => allowed r round found empty proposes

end Known

namespace Recorded

/-- A round that leaves its prepare loop with the empty text as decided has an empty text that was
started for its slot. -/
def TakesStarted (s : Recorded n) (label : Label n) : Prop :=
  match label with
  | .propose r => ∀ round ∈ s.cluster.rounds[r]?, round.takesEmpty → s.Started round.seq ""
  | _ => True

instance (s : Recorded n) (label : Label n) : Decidable (s.TakesStarted label) :=
  match label with
  | .propose r => inferInstanceAs (Decidable (∀ round ∈ s.cluster.rounds[r]?, _))
  | .start _ _ _ | .begin _ | .conclude _ | .finishLearn _ | .forward _ | .forwardReturns _
  | .deliver _ | .receive _ | .prepareFails _ | .acceptFails _ _ | .electFails _ | .beatFails _
  | .detect _ | .quietEnds _ | .concludeElection _ | .beat _ | .sendBeat _ => isTrue trivial

def Traces (s : Recorded n) : Prop := s.cluster.Reached ∧ Traced s.Started s.cluster

theorem Traces.valid {s : Recorded n} (traces : s.Traces) : s.Valid where
  decided := traces.2.sourced.servers
  accepts := traces.2.accepts
  learns := traces.2.sourced.learnRequests

theorem Traces.step {s next : Recorded n} {label : Label n} (traces : s.Traces)
    (allowed : s.TakesStarted label) (taken : s.step label = some next) : next.Traces := by
  obtain ⟨reached, traced⟩ := traces
  obtain ⟨moved, started⟩ := step_eq_some.mp taken
  have inside (seq : Int) (value : String) (known : s.Started seq value) : next.Started seq value := by
    unfold Started
    rw [started]
    exact List.mem_append_left _ known
  refine ⟨reached.step moved, (traced.mono inside).step reached moved ?_ ?_⟩
  · rintro i seq v rfl
    unfold Started
    rw [started]
    exact List.mem_append_right _ (List.mem_singleton.mpr rfl)
  · rintro r round found empty rfl
    exact inside _ _ (allowed round found empty)

/-- A round that takes the empty text sends it in its Learn. -/
theorem valid_allows {s next : Recorded n} {label : Label n} (traces : s.Traces)
    (taken : s.step label = some next) (valid : next.Valid) : s.TakesStarted label := by
  cases label with
  | propose r =>
      intro round member empty
      have found : s.cluster.rounds[r]? = some round := member
      obtain ⟨moved, started⟩ := step_eq_some.mp taken
      obtain ⟨reached, traced⟩ := traces
      unfold Round.takesEmpty at empty
      split at empty
      next number highestN promise prepares =>
        obtain ⟨size, ok, accepted, silent, within⟩ := empty
        have positive : -1 < promise.response.nA :=
          (traced.promised reached found prepares (by simp : some promise.response ∈ _)).1
        have chosen : afterPrepare round.v round.myView
            (prepareLocals n round.v highestN [some promise]) = .learn "" := by
          refine (afterPrepare_ok (by omega) ok positive).trans ?_
          rw [if_neg (Int.not_lt.mpr within), if_pos silent, accepted]
        simp only [Cluster.step, Cluster.propose, found, prepares, chosen] at moved
        split at moved
        · split at moved
          · have sent : .learnRequest r round.server ⟨round.seq, ""⟩ ∈ next.cluster.msgs := by
              rw [← Option.some.inj moved]
              exact List.mem_append_right _ (List.mem_map.mpr ⟨round.server, List.mem_finRange _, rfl⟩)
            have known := valid.learns r round.server _ sent
            unfold Started at known
            rw [started] at known
            exact (List.mem_append.mp known).resolve_right (by simp [Label.startCalls])
          · cases moved
        · cases moved
      · exact empty.elim
  | _ => trivial

end Recorded

/-- Two servers: the first value is accepted by server 0 only, and its round learns it. -/
def startedOnce (leader follower : Fin n) : List (Label n) :=
  [.start leader 1 "x#SHARED", .begin 0, .deliver 0, .receive 2, .acceptFails 0 follower, .conclude 0,
    .deliver 3]

/-- One server: slot 0 counts as accepted from the start, so its round runs a prepare phase. -/
def loneStart (server : Fin n) : List (Label n) :=
  [.start server 0 "x#SHARED", .begin 0, .deliver 0, .receive 1, .propose 0, .deliver 2]

end Chubby.Paxos
