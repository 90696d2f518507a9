/-
This file splits the Prepare handler of one server as well and proves when its promises bind the Accepts
that it answers.
-/

import Chubby.Paxos.Fencing

namespace Chubby.Paxos

open Chubby.Library

variable {n : Nat}

/-- The part of `Prepare` that runs under `slot->mu_`. -/
def PaxosImpl.promise (server : PaxosImpl) (request : PrepareRequest) (latestDone : Int) :
    PaxosImpl × PrepareResponse :=
  let slot := server.slotAt request.seq
  if request.proposalNumber > slot.nP then
    (server.setSlot request.seq { slot with nP := request.proposalNumber },
      ⟨.ok, slot.nA, slot.vA, request.proposalNumber, latestDone, decidedText slot⟩)
  else
    (server, ⟨.reject, slot.nA, slot.vA, slot.nP, latestDone, decidedText slot⟩)

/-- The two sections of one call that nothing interrupts do what the handler does as a whole. -/
theorem PaxosImpl.prepare_sections (server : PaxosImpl) (me : Fin n) (request : PrepareRequest)
    (above : server.lowestSlot ≤ request.seq) : server.prepare me request =
      (((server.addSlots request.seq).promise request (server.latestDone me)).1,
        .ok ((server.addSlots request.seq).promise request (server.latestDone me)).2) := by
  unfold prepare promise
  rw [if_neg (Int.not_lt.mpr above)]
  dsimp only
  split <;> rfl

/-- One execution of `Prepare`, which is without an answer between its two sections. -/
structure PrepareCall where
  request : PrepareRequest
  latestDone : Int
  answer : Option PrepareResponse
  deriving DecidableEq, Repr

/-- The numbers that the sender of each Accept has used in its own Prepares for the slot are a history
variable. -/
structure Acceptor where
  sections : Sections
  prepares : List PrepareCall
  numbers : Nat → List Int

/-- Each label is one locked section; those of `Accept` and the other handlers go on as before. -/
inductive AcceptorSection where
  | enterPrepare (request : PrepareRequest)
  | promise (call : Nat)
  | enterAccept (request : AcceptRequest) (numbers : List Int)
  | goesOn (label : Section)

/-- The section begins an Accept or runs a whole Prepare. -/
def Section.opens : Section → Bool
  | .enter _ | .other (.prepare _) => true
  | .elect _ | .store _ | .raise _ | .answer _ | .other _ => false

namespace Acceptor

def initial (groupSize : Nat) : Acceptor := ⟨.initial groupSize, [], fun _ => []⟩

/-- The first section of `Prepare` runs under `mu`; a collected slot ends the call with an error. -/
def enterPrepare (me : Fin n) (s : Acceptor) (request : PrepareRequest) : Acceptor :=
  let server := s.sections.server
  if request.seq < server.lowestSlot then s
  else
    { s with
      sections := { s.sections with server := server.addSlots request.seq }
      prepares := s.prepares ++ [⟨request, server.latestDone me, none⟩] }

/-- The second section takes the slot's mutex and sets the whole answer. -/
def promise (s : Acceptor) (k : Nat) : Option Acceptor :=
  match s.prepares[k]? with
  | none => none
  | some call =>
      if call.answer = none ∧ s.sections.slotFree call.request.seq then
        let (server, response) := s.sections.server.promise call.request call.latestDone
        some { s with
          sections := { s.sections with server }
          prepares := s.prepares.set k { call with answer := some response } }
      else none

def enterAccept (me : Fin n) (s : Acceptor) (request : AcceptRequest) (numbers : List Int) : Acceptor :=
  { s with
    sections := s.sections.enter me request
    numbers := Function.update s.numbers s.sections.accepts.length numbers }

def step (me : Fin n) (s : Acceptor) : AcceptorSection → Option Acceptor
  | .enterPrepare request => some (s.enterPrepare me request)
  | .promise k => s.promise k
  | .enterAccept request numbers => some (s.enterAccept me request numbers)
  | .goesOn label =>
      if label.opens then none
      else (s.sections.step me label).map fun sections => { s with sections }

/-- The server has answered the Prepare of this number for the slot with OK. -/
def Promised (s : Acceptor) (seq number : Int) : Prop :=
  ∃ call ∈ s.prepares, call.request = ⟨seq, number⟩ ∧ ∃ response ∈ call.answer, response.status = .ok

/-- An Accept that sets its answer to OK comes from a round whose numbers reach every promise for the
slot. -/
def Binds (s : Acceptor) : AcceptorSection → Prop
  | .goesOn (.store k) => ∀ call ∈ s.sections.accepts[k]?,
      (s.sections.server.slotAt call.request.seq).nA ≤ call.request.view →
      ∀ own ∈ s.numbers k, ∀ number, s.Promised call.request.seq number → ¬ own < number
  | _ => True

/-- An Accept that passes its test comes from a round whose numbers reach the slot's promised number, if
there is one. -/
def Reaches (s : Acceptor) : AcceptorSection → Prop
  | .goesOn (.store k) => ∀ call ∈ s.sections.accepts[k]?,
      (s.sections.server.slotAt call.request.seq).nA ≤ call.request.view →
      ∀ own ∈ s.numbers k, (s.sections.server.slotAt call.request.seq).nP = -1 ∨
        (s.sections.server.slotAt call.request.seq).nP ≤ own
  | _ => True

instance (s : Acceptor) (seq number : Int) : Decidable (s.Promised seq number) :=
  inferInstanceAs (Decidable (∃ call ∈ s.prepares, _ ∧ ∃ response ∈ call.answer, _))

instance (s : Acceptor) : (label : AcceptorSection) → Decidable (Reaches s label)
  | .goesOn (.store k) => inferInstanceAs (Decidable (∀ call ∈ s.sections.accepts[k]?,
      (s.sections.server.slotAt call.request.seq).nA ≤ call.request.view →
      ∀ own ∈ s.numbers k, (s.sections.server.slotAt call.request.seq).nP = -1 ∨
        (s.sections.server.slotAt call.request.seq).nP ≤ own))
  | .enterPrepare _ | .promise _ | .enterAccept _ _ | .goesOn (.elect _) | .goesOn (.enter _)
  | .goesOn (.raise _) | .goesOn (.answer _) | .goesOn (.other _) => isTrue trivial

end Acceptor

namespace PaxosImpl

/-- Two servers have promised the same number for every slot. -/
def SameNP (before after : PaxosImpl) : Prop := ∀ seq, (after.slotAt seq).nP = (before.slotAt seq).nP

theorem sameNP_setSlot {server : PaxosImpl} {seq : Int} {slot : PaxosSlot}
    (same : slot.nP = (server.slotAt seq).nP) : SameNP server (server.setSlot seq slot) := by
  intro query
  rw [slotAt_setSlot]
  split
  next here => rw [here, same]
  · rfl

theorem Follows.sameNP {before after : PaxosImpl} {effect : Int → SlotEffect}
    (follows : Follows before after effect) (unpromised : ∀ seq number, (effect seq).nP number = number) :
    SameNP before after := by
  intro seq
  rw [follows.nP seq, unpromised]

theorem only_stamped_nP (seq view query number : Int) :
    (SlotEffect.only seq (.stamped view) query).nP number = number := by
  unfold SlotEffect.only
  split <;> rfl

theorem touchEffect_nP (server : PaxosImpl) (seq query number : Int) :
    (server.touchEffect seq query).nP number = number := by
  unfold touchEffect
  split
  · exact only_stamped_nP seq server.view query number
  · rfl

theorem sameNP_addSlots (server : PaxosImpl) (seq : Int) : SameNP server (server.addSlots seq) :=
  (follows_addSlots server seq).sameNP (only_stamped_nP seq server.view)

end PaxosImpl

/-- No other handler or thread promises a number. -/
theorem ServerCall.sameNP (me : Fin n) (server : PaxosImpl) {call : ServerCall}
    (apart : ∀ request, call ≠ .prepare request) : server.SameNP (call.run me server) := by
  cases call with
  | prepare request => exact absurd rfl (apart request)
  | learn request committed =>
      exact (server.learn_follows me request committed).sameNP (server.touchEffect_nP request.seq)
  | heartbeat request =>
      refine (server.heartbeat_follows me request).sameNP fun seq number => ?_
      unfold PaxosImpl.heartbeatEffect
      split <;> rfl
  | heartbeatReply response =>
      refine (server.copyDecided_follows response.slots).sameNP fun seq number => ?_
      unfold PaxosImpl.copyEffect
      split <;> rfl
  | start seq => exact (server.start_follows me seq).sameNP (server.touchEffect_nP seq)
  | startOnForward seq =>
      exact (server.startOnForward_follows me seq).sameNP (PaxosImpl.only_stamped_nP seq server.view)
  | raiseNumber seq => exact PaxosImpl.sameNP_setSlot rfl
  | noteHighestN seq highestN => exact PaxosImpl.sameNP_setSlot rfl
  | adoptAccepted view => exact PaxosImpl.nP_of_slots (server.raiseView_slots view)
  | detectLeaderFailure => exact PaxosImpl.nP_of_slots (server.detectLeaderFailure_slots me)
  | quietPeriodEnds => exact fun _ => rfl
  | concludeElection target tally =>
      exact PaxosImpl.nP_of_slots (concludeElection_slots n server target tally)

namespace Sections

/-- No section that goes on promises a number. -/
theorem step_sameNP {s s' : Sections} {me : Fin n} {label : Section} (goesOn : label.opens = false)
    (taken : s.step me label = some s') : s.server.SameNP s'.server := by
  cases label with
  | elect request =>
      cases taken
      exact PaxosImpl.nP_of_slots (s.server.electKeeping_slots request.view (asInt request.view))
  | enter request => cases goesOn
  | store k =>
      obtain ⟨call, latestDone, _, _, ⟨_, same⟩ | ⟨_, same⟩⟩ := store_cases taken <;> rw [same]
      · exact PaxosImpl.sameNP_setSlot rfl
      · exact fun _ => rfl
  | raise k =>
      obtain ⟨call, latestDone, nA, _, _, same⟩ := raise_cases taken
      rw [same]
      exact PaxosImpl.nP_of_slots (s.server.raiseAccepted_slots call.request.seq)
  | answer k =>
      obtain ⟨call, response, _, same, _⟩ := answer_cases taken
      rw [same]
      exact fun _ => rfl
  | other call =>
      cases taken
      refine ServerCall.sameNP me s.server fun request same => ?_
      rw [same] at goesOn
      cases goesOn

theorem enter_sameNP (me : Fin n) (s : Sections) (request : AcceptRequest) :
    s.server.SameNP (s.enter me request).server := by
  unfold enter
  split
  · exact fun _ => rfl
  · intro seq
    show (((s.server.addSlots request.seq).raiseView request.view).slotAt seq).nP = _
    rw [PaxosImpl.nP_of_slots ((s.server.addSlots request.seq).raiseView_slots request.view)]
    exact s.server.sameNP_addSlots request.seq seq

end Sections

namespace Acceptor

/-- The promised number of a slot is the largest of the server's promises for it. -/
structure Largest (s : Acceptor) (seq : Int) : Prop where
  largest : ∀ number, s.Promised seq number →
    -1 < number ∧ number ≤ (s.sections.server.slotAt seq).nP
  attained : (s.sections.server.slotAt seq).nP ≠ -1 → s.Promised seq (s.sections.server.slotAt seq).nP
  bounded : -1 ≤ (s.sections.server.slotAt seq).nP

theorem largest_initial (groupSize : Nat) (seq : Int) : Largest (initial groupSize) seq := by
  refine ⟨?_, fun promised => absurd rfl promised, le_rfl⟩
  rintro number ⟨_, among, _⟩
  cases among

/-- A section that promises nothing keeps the promises and the promised numbers. -/
theorem Largest.keep {s s' : Acceptor} {seq : Int} (largest : Largest s seq)
    (same : (s'.sections.server.slotAt seq).nP = (s.sections.server.slotAt seq).nP)
    (promises : ∀ number, s'.Promised seq number ↔ s.Promised seq number) : Largest s' seq := by
  refine ⟨fun number promised => ?_, fun some_ => ?_, ?_⟩
  · rw [same]
    exact largest.largest number ((promises number).mp promised)
  · rw [same] at some_ ⊢
    exact (promises _).mpr (largest.attained some_)
  · rw [same]
    exact largest.bounded

/-- An answer that is set adds the promise that it grants, if it grants one. -/
theorem promised_set {s s' : Acceptor} {k : Nat} {call : PrepareCall} {response : PrepareResponse}
    (found : s.prepares[k]? = some call) (unanswered : call.answer = none)
    (set : s'.prepares = s.prepares.set k { call with answer := some response }) (seq number : Int) :
    s'.Promised seq number ↔
      s.Promised seq number ∨ (response.status = .ok ∧ call.request = ⟨seq, number⟩) := by
  unfold Promised
  rw [set]
  constructor
  · rintro ⟨other, among, names, given, answered, ok⟩
    obtain kept | new := List.mem_or_eq_of_mem_set among
    · exact .inl ⟨other, kept, names, given, answered, ok⟩
    · rw [new] at names answered
      cases answered
      exact .inr ⟨ok, names⟩
  · rintro (⟨other, among, names, given, answered, ok⟩ | ⟨ok, names⟩)
    · obtain ⟨j, there⟩ := List.getElem?_of_mem among
      have apart : k ≠ j := by
        rintro rfl
        cases found.symm.trans there
        rw [unanswered] at answered
        cases answered
      refine ⟨other, List.mem_of_getElem? (i := j) ?_, names, given, answered, ok⟩
      rw [List.getElem?_set_ne apart, there]
    · exact ⟨_, List.mem_set (List.getElem?_eq_some_iff.mp found).1 _, names, response, rfl, ok⟩

theorem promise_cases {s s' : Acceptor} {k : Nat} (taken : s.promise k = some s') :
    ∃ call, s.prepares[k]? = some call ∧ call.answer = none ∧
      s'.prepares = s.prepares.set k
        { call with answer := some (s.sections.server.promise call.request call.latestDone).2 } ∧
      s'.sections.server = (s.sections.server.promise call.request call.latestDone).1 := by
  unfold promise at taken
  split at taken
  · cases taken
  next call found =>
    split at taken
    next ready =>
      cases taken
      exact ⟨call, found, ready.1, rfl, rfl⟩
    · cases taken

/-- A promise of a larger number becomes the slot's promised number. -/
theorem largest_promise {s s' : Acceptor} {k : Nat} {seq : Int} (largest : Largest s seq)
    (taken : s.promise k = some s') : Largest s' seq := by
  obtain ⟨call, found, unanswered, set, server⟩ := promise_cases taken
  have promises := promised_set found unanswered set seq
  unfold PaxosImpl.promise at promises server
  dsimp only at promises server
  by_cases larger : call.request.proposalNumber > (s.sections.server.slotAt call.request.seq).nP
  · rw [if_pos larger] at promises server
    by_cases here : call.request.seq = seq
    · subst here
      have now : (s'.sections.server.slotAt call.request.seq).nP = call.request.proposalNumber := by
        rw [server, PaxosImpl.slotAt_setSlot_self]
      refine ⟨fun number promised => ?_, fun _ => ?_, ?_⟩
      · rw [now]
        obtain before | ⟨_, names⟩ := (promises number).mp promised
        · obtain ⟨positive, upper⟩ := largest.largest number before
          exact ⟨positive, upper.trans (le_of_lt larger)⟩
        · have own : number = call.request.proposalNumber := by rw [names]
          rw [own]
          exact ⟨lt_of_le_of_lt largest.bounded larger, le_rfl⟩
      · rw [now]
        exact (promises _).mpr (.inr ⟨rfl, rfl⟩)
      · rw [now]
        exact le_of_lt (lt_of_le_of_lt largest.bounded larger)
    · refine largest.keep ?_ fun number => (promises number).trans (or_iff_left fun ⟨_, names⟩ => here ?_)
      · rw [server, PaxosImpl.slotAt_setSlot, if_neg (Ne.symm here)]
      · rw [names]
  · rw [if_neg larger] at promises server
    refine largest.keep (by rw [server]) fun number => (promises number).trans (or_iff_left ?_)
    rintro ⟨rejected, _⟩
    cases rejected

/-- Every section keeps the promised number of each slot the largest of its promises. -/
theorem Largest.step {s s' : Acceptor} {me : Fin n} {label : AcceptorSection} {seq : Int}
    (largest : Largest s seq) (taken : s.step me label = some s') : Largest s' seq := by
  cases label with
  | enterPrepare request =>
      cases taken
      unfold enterPrepare
      dsimp only
      split
      · exact largest
      · refine largest.keep (s.sections.server.sameNP_addSlots request.seq seq) fun number => ?_
        constructor
        · rintro ⟨call, among, names, response, answered, ok⟩
          obtain before | new := List.mem_append.mp among
          · exact ⟨call, before, names, response, answered, ok⟩
          · rw [List.mem_singleton.mp new] at answered
            cases answered
        · rintro ⟨call, among, promised⟩
          exact ⟨call, List.mem_append_left _ among, promised⟩
  | promise k => exact largest_promise largest taken
  | enterAccept request numbers =>
      cases taken
      exact largest.keep (Sections.enter_sameNP me s.sections request seq) fun _ => Iff.rfl
  | goesOn label =>
      obtain ⟨goesOn, ran⟩ := Option.ite_none_left_eq_some.mp taken
      obtain ⟨sections, moved, same⟩ := Option.map_eq_some_iff.mp ran
      rw [← same]
      exact largest.keep (Sections.step_sameNP (Bool.eq_false_of_not_eq_true goesOn) moved seq)
        fun _ => Iff.rfl

/-- The promises bind the Accept of one section exactly when its round reaches the promised number. -/
theorem binds_iff_reaches {s : Acceptor} (largest : ∀ seq, Largest s seq) (label : AcceptorSection) :
    s.Binds label ↔ s.Reaches label := by
  cases label with
  | goesOn label =>
      cases label with
      | store k =>
          apply forall₅_congr
          intro call found reaches own used
          have bound := largest call.request.seq
          constructor
          · intro binds
            by_cases promised : (s.sections.server.slotAt call.request.seq).nP = -1
            · exact .inl promised
            · exact .inr (Int.not_lt.mp (binds _ (bound.attained promised)))
          · intro enough number promised below
            obtain ⟨positive, upper⟩ := bound.largest number promised
            rcases enough with nothing | enough
            · omega
            · omega
      | _ => exact Iff.rfl
  | _ => exact Iff.rfl

end Acceptor

/-- In every run of the locked sections of a server its promises bind every later Accept exactly when each
Accept that passes its test comes from a round whose numbers reach the slot's promised number. -/
theorem promisesBind_iff {me : Fin n} {labels : List AcceptorSection} {final : Acceptor}
    (ran : run (Acceptor.step me) (Acceptor.initial n) labels = some final) :
    EveryStep (Acceptor.step me) (fun s label _ => s.Binds label) (Acceptor.initial n) labels ↔
      Guarded (Acceptor.step me) Acceptor.Reaches (Acceptor.initial n) labels := by
  refine everyStep_iff_guarded_of_invariant (fun s => ∀ seq, s.Largest seq) ?_ ?_
    (Acceptor.largest_initial n) ran
  · intro s label next largest _
    exact Acceptor.binds_iff_reaches largest label
  · intro s label next largest _ taken seq
    exact (largest seq).step taken

/-- The server promises the number 3 and then answers an Accept of the round that used it; a Prepare with
the number 6 begins before the Accept has passed its test and gets its answer after it. -/
def acceptBeforePromise : List AcceptorSection :=
  [.enterPrepare ⟨1, 3⟩, .promise 0, .enterAccept ⟨1, 0, "x#SHARED"⟩ [3], .enterPrepare ⟨1, 6⟩,
    .goesOn (.store 0), .goesOn (.raise 0), .goesOn (.answer 0), .promise 1]

theorem promisesBind_iff_acceptBeforePromise : ∃ final : Acceptor,
    run (Acceptor.step (0 : Fin 3)) (Acceptor.initial 3) acceptBeforePromise = some final ∧
      final.Promised 1 6 ∧ EveryStep (Acceptor.step (0 : Fin 3)) (fun s label _ => s.Binds label)
        (Acceptor.initial 3) acceptBeforePromise := by
  obtain ⟨final, ran, checked⟩ := (Option.any_eq_true _ _).mp (by decide :
    (run (Acceptor.step (0 : Fin 3)) (Acceptor.initial 3) acceptBeforePromise).any (fun final =>
      decide (final.Promised 1 6)) = true)
  exact ⟨final, ran, of_decide_eq_true checked, (promisesBind_iff ran).mpr (by decide)⟩

end Chubby.Paxos
