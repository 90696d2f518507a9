/-
This file splits the Accept handler of one server into its locked sections and proves when a vote
fences the smaller views.
-/

import Chubby.Library.Runs
import Chubby.Paxos.SlotEffects

namespace Chubby.Paxos

open Chubby.Library

variable {n : Nat}

/-- The mutex `slot->mu_` is held in the phases `stored`, `refused` and `raised`. The numbers are the
fields of the response that the handler has already set. -/
inductive AcceptPhase where
  | entered (latestDone : Int)
  | stored (latestDone nA : Int)
  | refused (latestDone nA : Int)
  | raised (latestDone nA : Int)
  | answered (response : AcceptResponse)
  deriving DecidableEq, Repr

/-- One execution of `Accept`; the number of votes that the server had given when it began is a history
variable. -/
structure AcceptCall where
  request : AcceptRequest
  votesBefore : Nat
  phase : AcceptPhase
  deriving DecidableEq, Repr

/-- The handlers and threads of a server that are not split; each of them runs as a whole. -/
inductive ServerCall where
  | prepare (request : PrepareRequest)
  | learn (request : DecideRequest) (committed : Bool)
  | heartbeat (request : HeartbeatRequest)
  | heartbeatReply (response : HeartbeatResponse)
  | start (seq : Int)
  | startOnForward (seq : Int)
  | raiseNumber (seq : Int)
  | noteHighestN (seq highestN : Int)
  | adoptAccepted (view : Int)
  | detectLeaderFailure
  | quietPeriodEnds
  | concludeElection (target : Int) (tally : ElectTally)

def ServerCall.run (me : Fin n) (server : PaxosImpl) : ServerCall → PaxosImpl
  | .prepare request => (server.prepare me request).1
  | .learn request committed => (server.learn me request committed).1
  | .heartbeat request => (server.heartbeat me request).1
  | .heartbeatReply response => server.copyDecided response.slots
  | .start seq => (server.start me seq).1
  | .startOnForward seq => (server.startOnForward me seq).1
  | .raiseNumber seq =>
      server.setSlot seq { server.slotAt seq with n := nextNumber n (server.slotAt seq) }
  | .noteHighestN seq highestN => server.setSlot seq { server.slotAt seq with highestN }
  | .adoptAccepted view => server.raiseView view
  | .detectLeaderFailure => (server.detectLeaderFailure me).1
  | .quietPeriodEnds => server.quietPeriodEnds
  | .concludeElection target tally => (Paxos.concludeElection n server target tally).1

/-- The view for which an Elect was answered with OK, and the sequence number that the answer reports. -/
structure Vote where
  view : Int
  highestSeq : Int
  deriving DecidableEq, Repr

/-- The votes stand in the order in which they were given. -/
structure Sections where
  server : PaxosImpl
  accepts : List AcceptCall
  votes : List Vote

/-- Each label is one locked section of a handler. -/
inductive Section where
  | elect (request : ElectRequest)
  | enter (request : AcceptRequest)
  | store (call : Nat)
  | raise (call : Nat)
  | answer (call : Nat)
  | other (call : ServerCall)

def AcceptCall.holdsSlot (call : AcceptCall) : Bool :=
  match call.phase with
  | .stored _ _ | .refused _ _ | .raised _ _ => true
  | .entered _ | .answered _ => false

namespace Sections

def initial (groupSize : Nat) : Sections := ⟨.initial groupSize, [], []⟩

def setCall (s : Sections) (k : Nat) (call : AcceptCall) (phase : AcceptPhase) : Sections :=
  { s with accepts := s.accepts.set k { call with phase } }

def slotFree (s : Sections) (seq : Int) : Bool :=
  s.accepts.all fun call => call.request.seq ≠ seq || !call.holdsSlot

def elect (s : Sections) (request : ElectRequest) : Sections :=
  let (server, response) := s.server.electStored request
  let vote : Vote := ⟨request.view, response.highestSeq⟩
  { s with server, votes := if response.status = .ok then s.votes ++ [vote] else s.votes }

/-- The first section of `Accept` runs under `mu`; a collected slot ends the call with an error. -/
def enter (me : Fin n) (s : Sections) (request : AcceptRequest) : Sections :=
  if request.seq < s.server.lowestSlot then s
  else
    { s with
      server := (s.server.addSlots request.seq).raiseView request.view
      accepts := s.accepts ++ [⟨request, s.votes.length, .entered (s.server.latestDone me)⟩] }

/-- The second section takes the slot's mutex, compares the view with the slot's accepted number and
stores the value. -/
def store (s : Sections) (k : Nat) : Option Sections :=
  match s.accepts[k]? with
  | none => none
  | some call =>
      match call.phase with
      | .entered latestDone =>
          if s.slotFree call.request.seq then
            let slot := s.server.slotAt call.request.seq
            if call.request.view ≥ slot.nA then
              let stored := { slot with nA := call.request.view, vA := call.request.value }
              some { s.setCall k call (.stored latestDone slot.nA) with
                server := s.server.setSlot call.request.seq stored }
            else some (s.setCall k call (.refused latestDone slot.nA))
          else none
      | _ => none

/-- The third section takes `mu` again, inside the slot's mutex. -/
def raise (s : Sections) (k : Nat) : Option Sections :=
  match s.accepts[k]? with
  | none => none
  | some call =>
      match call.phase with
      | .stored latestDone nA =>
          some { s.setCall k call (.raised latestDone nA) with
            server := s.server.raiseAccepted call.request.seq }
      | _ => none

/-- The rest of the call reads the decided value and releases the slot's mutex. -/
def answer (s : Sections) (k : Nat) : Option Sections :=
  match s.accepts[k]? with
  | none => none
  | some call =>
      let text := PaxosImpl.decidedText (s.server.slotAt call.request.seq)
      match call.phase with
      | .raised latestDone nA => some (s.setCall k call (.answered ⟨.ok, latestDone, text, nA⟩))
      | .refused latestDone nA => some (s.setCall k call (.answered ⟨.reject, latestDone, text, nA⟩))
      | _ => none

def step (me : Fin n) (s : Sections) : Section → Option Sections
  | .elect request => some (s.elect request)
  | .enter request => some (s.enter me request)
  | .store k => s.store k
  | .raise k => s.raise k
  | .answer k => s.answer k
  | .other call => some { s with server := call.run me s.server }

end Sections

section Uninterrupted

variable {me : Fin n} {s : Sections} {call : AcceptCall} {k : Nat}

theorem Sections.accepts_setCall (found : s.accepts[k]? = some call) (phase : AcceptPhase)
    (server : PaxosImpl) :
    ({ s.setCall k call phase with server } : Sections).accepts[k]? = some { call with phase } := by
  show (s.accepts.set k { call with phase })[k]? = some { call with phase }
  rw [List.getElem?_set_self (List.getElem?_eq_some_iff.mp found).1]

theorem PaxosImpl.slotAt_raiseView (server : PaxosImpl) (view seq : Int) (touched : server.slots seq ≠ none) :
    (server.raiseView view).slotAt seq = server.slotAt seq := by
  unfold slotAt
  rw [raiseView_slots]
  cases found : server.slots seq with
  | none => exact absurd found touched
  | some slot => rfl

theorem Sections.store_stores {latestDone : Int} (found : s.accepts[k]? = some call)
    (entered : call.phase = .entered latestDone) (free : s.slotFree call.request.seq = true)
    {slot : PaxosSlot} (at_ : s.server.slotAt call.request.seq = slot)
    (reaches : call.request.view ≥ slot.nA) :
    s.store k = some { s.setCall k call (.stored latestDone slot.nA) with
      server := s.server.setSlot call.request.seq
        { slot with nA := call.request.view, vA := call.request.value } } := by
  unfold store
  rw [found]
  dsimp only
  rw [entered]
  dsimp only
  rw [if_pos free, at_, if_pos reaches]

theorem Sections.store_refuses {latestDone : Int} (found : s.accepts[k]? = some call)
    (entered : call.phase = .entered latestDone) (free : s.slotFree call.request.seq = true)
    {slot : PaxosSlot} (at_ : s.server.slotAt call.request.seq = slot)
    (misses : ¬ call.request.view ≥ slot.nA) :
    s.store k = some (s.setCall k call (.refused latestDone slot.nA)) := by
  unfold store
  rw [found]
  dsimp only
  rw [entered]
  dsimp only
  rw [if_pos free, at_, if_neg misses]

theorem Sections.raise_raises {latestDone nA : Int} (found : s.accepts[k]? = some call)
    (stored : call.phase = .stored latestDone nA) :
    s.raise k = some { s.setCall k call (.raised latestDone nA) with
      server := s.server.raiseAccepted call.request.seq } := by
  unfold raise
  rw [found]
  dsimp only
  rw [stored]

theorem Sections.answer_accepts {latestDone nA : Int} (found : s.accepts[k]? = some call)
    (raised : call.phase = .raised latestDone nA) :
    s.answer k = some (s.setCall k call (.answered ⟨.ok, latestDone,
      PaxosImpl.decidedText (s.server.slotAt call.request.seq), nA⟩)) := by
  unfold answer
  rw [found]
  dsimp only
  rw [raised]

theorem Sections.answer_rejects {latestDone nA : Int} (found : s.accepts[k]? = some call)
    (refused : call.phase = .refused latestDone nA) :
    s.answer k = some (s.setCall k call (.answered ⟨.reject, latestDone,
      PaxosImpl.decidedText (s.server.slotAt call.request.seq), nA⟩)) := by
  unfold answer
  rw [found]
  dsimp only
  rw [refused]

/-- The sections of one call that nothing interrupts do what the handler does as a whole. -/
theorem Sections.accept_alone {request : AcceptRequest} {response : AcceptResponse}
    (free : s.slotFree request.seq = true) (handled : (s.server.accept me request).2 = .ok response) :
    ∃ labels final, run (step me) s (.enter request :: labels) = some final ∧
      final.server = (s.server.accept me request).1 ∧ final.votes = s.votes ∧
      final.accepts[s.accepts.length]? = some ⟨request, s.votes.length, .answered response⟩ := by
  unfold PaxosImpl.accept at handled ⊢
  by_cases collected : request.seq < s.server.lowestSlot
  · rw [if_pos collected] at handled
    cases handled
  rw [if_neg collected] at handled ⊢
  dsimp only at handled ⊢
  let added := s.server.addSlots request.seq
  let call : AcceptCall := ⟨request, s.votes.length, .entered (s.server.latestDone me)⟩
  let entered : Sections := { s with
    server := added.raiseView request.view, accepts := s.accepts ++ [call] }
  have enters : s.step me (.enter request) = some entered := by
    show some (s.enter me request) = some entered
    unfold enter
    rw [if_neg collected]
  have found : entered.accepts[s.accepts.length]? = some call := by
    show (s.accepts ++ [call])[s.accepts.length]? = some call
    simp
  have at_ : entered.server.slotAt request.seq = added.slotAt request.seq := by
    apply PaxosImpl.slotAt_raiseView
    show Function.update s.server.slots request.seq (some _) request.seq ≠ none
    simp
  have open_ : entered.slotFree request.seq = true := by
    show (s.accepts ++ [call]).all _ = true
    rw [List.all_append]
    exact Bool.and_eq_true_iff.mpr ⟨free, by simp [call, AcceptCall.holdsSlot]⟩
  by_cases reaches : request.view ≥ (added.slotAt request.seq).nA
  · rw [if_pos reaches] at handled ⊢
    cases handled
    have stores : entered.step me (.store _) = _ := store_stores found rfl open_ at_ reaches
    let slot := added.slotAt request.seq
    let written := { slot with nA := request.view, vA := request.value }
    let stored := entered.server.setSlot request.seq written
    let raised := stored.raiseAccepted request.seq
    have second := accepts_setCall found (.stored (s.server.latestDone me) slot.nA) stored
    have raises : Sections.step me _ (.raise _) = _ := raise_raises second rfl
    have third := accepts_setCall second (.raised (s.server.latestDone me) slot.nA) raised
    have answers : Sections.step me _ (.answer _) = _ := answer_accepts third rfl
    have text : PaxosImpl.decidedText (raised.slotAt request.seq) = PaxosImpl.decidedText slot := by
      rw [PaxosImpl.raiseAccepted_slotAt, PaxosImpl.slotAt_setSlot_self]
      rfl
    change Sections.step me _ (.answer _) = some (setCall _ _ _ (.answered ⟨.ok, s.server.latestDone me,
      PaxosImpl.decidedText (raised.slotAt request.seq), slot.nA⟩)) at answers
    rw [text] at answers
    have fourth := accepts_setCall third
      (.answered ⟨.ok, s.server.latestDone me, PaxosImpl.decidedText slot, slot.nA⟩) raised
    refine ⟨[.store s.accepts.length, .raise s.accepts.length, .answer s.accepts.length], _,
      ?_, ?_, ?_, fourth⟩
    · apply run_cons_eq_some.mpr ⟨entered, enters, _⟩
      apply run_cons_eq_some.mpr ⟨_, stores, _⟩
      apply run_cons_eq_some.mpr ⟨_, raises, _⟩
      exact run_cons_eq_some.mpr ⟨_, answers, rfl⟩
    · rfl
    · rfl
  · rw [if_neg reaches] at handled ⊢
    cases handled
    let slot := added.slotAt request.seq
    have stores : entered.step me (.store _) = _ := store_refuses found rfl open_ at_ reaches
    have second := accepts_setCall found (.refused (s.server.latestDone me) slot.nA) entered.server
    have answers : Sections.step me _ (.answer _) = _ := answer_rejects second rfl
    change Sections.step me _ (.answer _) = some (setCall _ _ _ (.answered ⟨.reject, s.server.latestDone me,
      PaxosImpl.decidedText (entered.server.slotAt request.seq), slot.nA⟩)) at answers
    rw [at_] at answers
    have third := accepts_setCall second
      (.answered ⟨.reject, s.server.latestDone me, PaxosImpl.decidedText slot, slot.nA⟩) entered.server
    refine ⟨[.store s.accepts.length, .answer s.accepts.length], _, ?_, ?_, ?_, third⟩
    · apply run_cons_eq_some.mpr ⟨entered, enters, _⟩
      apply run_cons_eq_some.mpr ⟨_, stores, _⟩
      exact run_cons_eq_some.mpr ⟨_, answers, rfl⟩
    · rfl
    · rfl

end Uninterrupted

namespace PaxosImpl

/-- No slot has an accepted number above the view. -/
def Stamped (server : PaxosImpl) : Prop :=
  ∀ seq slot, server.slots seq = some slot → slot.nA ≤ server.view

/-- Views, accepted sequence numbers and the accepted numbers of the slots only grow. -/
structure Ages (before after : PaxosImpl) : Prop where
  view : before.view ≤ after.view
  highestAcceptedSeq : before.highestAcceptedSeq ≤ after.highestAcceptedSeq
  stamped : Stamped after
  slots : ∀ seq slot, before.slots seq = some slot →
    ∃ later, after.slots seq = some later ∧ slot.nA ≤ later.nA

theorem Ages.trans {first second third : PaxosImpl} (one : Ages first second) (two : Ages second third) :
    Ages first third := by
  refine ⟨one.view.trans two.view, one.highestAcceptedSeq.trans two.highestAcceptedSeq, two.stamped, ?_⟩
  intro seq slot found
  obtain ⟨next, there, below⟩ := one.slots seq slot found
  obtain ⟨later, still, above⟩ := two.slots seq next there
  exact ⟨later, still, below.trans above⟩

theorem ages_of_slots {before after : PaxosImpl} (stamped : before.Stamped) (view : before.view ≤ after.view)
    (highestAcceptedSeq : before.highestAcceptedSeq ≤ after.highestAcceptedSeq)
    (same : after.slots = before.slots) : Ages before after := by
  refine ⟨view, highestAcceptedSeq, ?_, ?_⟩
  · intro seq slot found
    rw [same] at found
    exact (stamped seq slot found).trans view
  · intro seq slot found
    exact ⟨slot, by rw [same, found], le_rfl⟩

theorem Ages.refl {server : PaxosImpl} (stamped : server.Stamped) : Ages server server :=
  ages_of_slots stamped le_rfl le_rfl rfl

theorem Stamped.slotAt {server : PaxosImpl} (stamped : server.Stamped) (seq : Int) :
    (server.slotAt seq).nA ≤ server.view := by
  unfold PaxosImpl.slotAt
  cases found : server.slots seq with
  | none => exact le_refl server.view
  | some slot => exact stamped seq slot found

/-- A slot may be written with an accepted number between its old one and the view. -/
theorem ages_setSlot {server : PaxosImpl} {seq : Int} {slot : PaxosSlot} (stamped : server.Stamped)
    (lower : (server.slotAt seq).nA ≤ slot.nA) (upper : slot.nA ≤ server.view) :
    Ages server (server.setSlot seq slot) := by
  refine ⟨le_rfl, le_rfl, ?_, ?_⟩
  · intro query other found
    change Function.update server.slots seq (some slot) query = some other at found
    by_cases same : query = seq
    · rw [same, Function.update_self] at found
      cases found
      exact upper
    · rw [Function.update_of_ne same] at found
      exact stamped query other found
  · intro query other found
    show ∃ later, Function.update server.slots seq (some slot) query = some later ∧ _
    by_cases same : query = seq
    · subst same
      unfold PaxosImpl.slotAt at lower
      rw [found] at lower
      exact ⟨slot, Function.update_self .., lower⟩
    · rw [Function.update_of_ne same]
      exact ⟨other, found, le_rfl⟩

/-- The fields of a slot other than its accepted number may be written freely. -/
theorem ages_writeSlot {server : PaxosImpl} {seq : Int} {slot : PaxosSlot} (stamped : server.Stamped)
    (same : slot.nA = (server.slotAt seq).nA) : Ages server (server.setSlot seq slot) :=
  ages_setSlot stamped (le_of_eq same.symm) (same ▸ stamped.slotAt seq)

theorem ages_addSlots {server : PaxosImpl} (stamped : server.Stamped) (seq : Int) :
    Ages server (server.addSlots seq) := ages_setSlot stamped (stamped.slotAt seq) le_rfl

theorem ages_adoptView {server : PaxosImpl} {view : Int} (stamped : server.Stamped)
    (larger : server.view ≤ view) : Ages server (server.adoptView view) :=
  ages_of_slots stamped larger le_rfl rfl

theorem ages_raiseView {server : PaxosImpl} (stamped : server.Stamped) (view : Int) :
    Ages server (server.raiseView view) := by
  unfold raiseView
  split
  next larger => exact ages_adoptView stamped (le_of_lt larger)
  · exact .refl stamped

theorem ages_raiseAccepted {server : PaxosImpl} (stamped : server.Stamped) (seq : Int) :
    Ages server (server.raiseAccepted seq) := by
  unfold raiseAccepted
  split
  next larger => exact ages_of_slots stamped le_rfl (le_of_lt larger) rfl
  · exact .refl stamped

theorem ages_copyDecided {server : PaxosImpl} (stamped : server.Stamped)
    (received : Int → Option PaxosSlot) : Ages server (server.copyDecided received) := by
  have copied (seq : Int) : (server.copyDecided received).slots seq = server.slots seq ∨
      ∃ later, (server.copyDecided received).slots seq = some later ∧ later.nA = server.view := by
    unfold copyDecided
    dsimp only
    cases received seq with
    | none => exact .inl rfl
    | some other =>
        right
        refine ⟨_, rfl, ?_⟩
        split <;> rfl
  refine ⟨le_rfl, le_rfl, ?_, ?_⟩
  · intro seq slot found
    obtain same | ⟨later, there, stamp⟩ := copied seq
    · exact stamped seq slot (same ▸ found)
    · rw [there] at found
      cases found
      exact le_of_eq stamp
  · intro seq slot found
    obtain same | ⟨later, there, stamp⟩ := copied seq
    · exact ⟨slot, same.trans found, le_rfl⟩
    · exact ⟨later, there, (stamped seq slot found).trans (le_of_eq stamp.symm)⟩

theorem ages_elect {server : PaxosImpl} (stamped : server.Stamped) (request : ElectRequest) :
    Ages server (server.elect request).1 := by
  unfold elect electKeeping
  split
  next larger => exact ages_adoptView stamped (le_of_lt larger)
  · split <;> exact .refl stamped

theorem ages_prepare {server : PaxosImpl} (stamped : server.Stamped) (me : Fin n)
    (request : PrepareRequest) : Ages server (server.prepare me request).1 := by
  have added := ages_addSlots stamped request.seq
  cases server.prepare_cases me request with
  | collected _ same => rw [same]; exact .refl stamped
  | promises _ _ same => rw [same]; exact added.trans (ages_writeSlot added.stamped rfl)
  | rejects _ _ same => rw [same]; exact added

theorem ages_learn {server : PaxosImpl} (stamped : server.Stamped) (me : Fin n)
    (request : DecideRequest) (committed : Bool) : Ages server (server.learn me request committed).1 := by
  have added := ages_addSlots stamped request.seq
  have raised : Ages server ((server.addSlots request.seq).raiseHighestSlot request.seq) := by
    unfold raiseHighestSlot
    split
    · exact added.trans (ages_of_slots added.stamped le_rfl le_rfl rfl)
    · exact added
  cases server.learn_cases me request committed with
  | collected _ same => rw [same]; exact .refl stamped
  | settled _ _ same => rw [same]; exact raised
  | decides _ _ paxosDb same =>
      rw [same]
      have marked := raised.trans (ages_writeSlot raised.stamped rfl :
        Ages _ (((server.addSlots request.seq).raiseHighestSlot request.seq).markDecided request.seq
          request.value))
      exact marked.trans (ages_of_slots marked.stamped le_rfl le_rfl rfl)

theorem ages_heartbeat {server : PaxosImpl} (stamped : server.Stamped) (me : Fin n)
    (request : HeartbeatRequest) : Ages server (server.heartbeat me request).1 := by
  cases server.heartbeat_cases me request with
  | own _ same => rw [same]; exact ages_of_slots stamped le_rfl le_rfl rfl
  | refused _ same => rw [same]; exact .refl stamped
  | processed _ _ same =>
      have raised := ages_raiseView stamped request.view
      have synced : Ages server (server.syncedWith request) :=
        raised.trans (ages_of_slots raised.stamped le_rfl le_rfl rfl)
      rw [same]
      exact synced.trans (ages_copyDecided synced.stamped request.slots)

theorem ages_start {server : PaxosImpl} (stamped : server.Stamped) (me : Fin n) (seq : Int) :
    Ages server (server.start me seq).1 := by
  obtain ⟨_, same⟩ | ⟨_, same⟩ := server.start_server me seq <;> rw [same]
  · exact .refl stamped
  · exact ages_addSlots stamped seq

theorem ages_startOnForward {server : PaxosImpl} (stamped : server.Stamped) (me : Fin n) (seq : Int) :
    Ages server (server.startOnForward me seq).1 := by
  rw [startOnForward_server]
  exact ages_addSlots stamped seq

theorem ages_detectLeaderFailure {server : PaxosImpl} (stamped : server.Stamped) (me : Fin n) :
    Ages server (server.detectLeaderFailure me).1 := by
  unfold detectLeaderFailure
  dsimp only
  split <;> exact ages_of_slots stamped le_rfl le_rfl rfl

theorem ages_concludeElection {server : PaxosImpl} (stamped : server.Stamped) (groupSize : Nat)
    (target : Int) (tally : ElectTally) :
    Ages server (concludeElection groupSize server target tally).1 := by
  apply ages_of_slots stamped ?_ ?_ (concludeElection_slots ..)
  · by_cases won : (concludeElection groupSize server target tally).2 = .won
    · have elects := elects_of_won won
      rw [elects.view]
      exact le_of_lt elects.larger
    · exact (concludeElection_quiet won).settles.view
  · by_cases won : (concludeElection groupSize server target tally).2 = .won
    · exact (elects_of_won won).highestAcceptedSeq
    · exact le_of_eq (concludeElection_quiet won).settles.highestAcceptedSeq.symm

end PaxosImpl

/-- The handlers that are not split only let the server age. -/
theorem ServerCall.ages {server : PaxosImpl} (stamped : server.Stamped) (me : Fin n) (call : ServerCall) :
    server.Ages (call.run me server) := by
  cases call with
  | prepare request => exact PaxosImpl.ages_prepare stamped me request
  | learn request committed => exact PaxosImpl.ages_learn stamped me request committed
  | heartbeat request => exact PaxosImpl.ages_heartbeat stamped me request
  | heartbeatReply response => exact PaxosImpl.ages_copyDecided stamped response.slots
  | start seq => exact PaxosImpl.ages_start stamped me seq
  | startOnForward seq => exact PaxosImpl.ages_startOnForward stamped me seq
  | raiseNumber seq => exact PaxosImpl.ages_writeSlot stamped rfl
  | noteHighestN seq highestN => exact PaxosImpl.ages_writeSlot stamped rfl
  | adoptAccepted view => exact PaxosImpl.ages_raiseView stamped view
  | detectLeaderFailure => exact PaxosImpl.ages_detectLeaderFailure stamped me
  | quietPeriodEnds => exact PaxosImpl.ages_of_slots stamped le_rfl le_rfl rfl
  | concludeElection target tally => exact PaxosImpl.ages_concludeElection stamped n target tally

end Chubby.Paxos
