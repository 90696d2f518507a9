/-
This file proves when a vote of a server fences the Accepts of smaller views that it answers.
-/

import Chubby.Paxos.Sections

namespace Chubby.Paxos

open Chubby.Library

variable {n : Nat}

/-- Elect always reports the view that the server then has. -/
theorem PaxosImpl.elect_view (server : PaxosImpl) (request : ElectRequest) :
    (server.elect request).2.view = (server.elect request).1.view := by
  unfold elect electKeeping
  split
  · rfl
  · split <;> rfl

/-- Elect is answered with OK exactly when it is not of a smaller view. -/
theorem PaxosImpl.elect_ok_iff (server : PaxosImpl) (request : ElectRequest) :
    (server.elect request).2.status = .ok ↔ server.view ≤ request.view := by
  unfold elect electKeeping
  split
  next larger => exact iff_of_true rfl (le_of_lt larger)
  next behind =>
    split
    next same => exact iff_of_true rfl (le_of_eq same.symm)
    next differs => exact iff_of_false nofun fun reaches => behind (lt_of_le_of_ne reaches (Ne.symm differs))

namespace AcceptCall

def accepted (call : AcceptCall) : Bool :=
  match call.phase with
  | .answered response => response.status = .ok
  | .entered _ | .stored _ _ | .refused _ _ | .raised _ _ => false

/-- The call has stored its value and has not raised the accepted sequence number yet. -/
def storing (call : AcceptCall) : Bool :=
  match call.phase with
  | .stored _ _ => true
  | .entered _ | .refused _ _ | .raised _ _ | .answered _ => false

/-- The call has passed the test of its second section, so that only an OK answer is left to it. -/
def committed (call : AcceptCall) : Bool :=
  match call.phase with
  | .stored _ _ | .raised _ _ => true
  | .answered response => response.status = .ok
  | .entered _ | .refused _ _ => false

/-- The vote covers the call's slot, or the call is not of a smaller view. -/
def FencedBy (call : AcceptCall) (vote : Vote) : Prop :=
  call.request.view < vote.view → call.request.seq ≤ vote.highestSeq

instance (call : AcceptCall) (vote : Vote) : Decidable (call.FencedBy vote) :=
  inferInstanceAs (Decidable (_ → _))

/-- The votes before the call were for views up to the call's own view. -/
def Outdates (call : AcceptCall) (votes : List Vote) : Prop :=
  ∀ vote ∈ votes.take call.votesBefore, vote.view ≤ call.request.view

/-- What a call has found out about the votes before it, and what the server has recorded for it. -/
def Fits (server : PaxosImpl) (votes : List Vote) (call : AcceptCall) : Prop :=
  match call.phase with
  | .entered _ => call.request.view ≤ server.view ∧ ∃ slot, server.slots call.request.seq = some slot ∧
      ∀ vote ∈ votes.take call.votesBefore, vote.view ≤ slot.nA
  | .stored _ _ => call.Outdates votes
  | .refused _ _ => True
  | .raised _ _ => call.Outdates votes ∧ call.request.seq ≤ server.highestAcceptedSeq
  | .answered response => response.status = .ok →
      call.Outdates votes ∧ call.request.seq ≤ server.highestAcceptedSeq

theorem Fits.append {server later : PaxosImpl} {votes new : List Vote} {call : AcceptCall}
    (fits : call.Fits server votes) (early : call.votesBefore ≤ votes.length) (ages : server.Ages later) :
    call.Fits later (votes ++ new) := by
  have kept : (votes ++ new).take call.votesBefore = votes.take call.votesBefore :=
    List.take_append_of_le_length early
  have raised := ages.highestAcceptedSeq
  unfold Fits Outdates at fits ⊢
  rw [kept]
  cases phase : call.phase with
  | entered latestDone =>
      rw [phase] at fits
      obtain ⟨view, slot, found, above⟩ := fits
      obtain ⟨next, there, grown⟩ := ages.slots _ slot found
      exact ⟨view.trans ages.view, next, there, fun vote member => (above vote member).trans grown⟩
  | stored latestDone nA =>
      rw [phase] at fits
      exact fits
  | refused latestDone nA => trivial
  | raised latestDone nA =>
      rw [phase] at fits
      exact ⟨fits.1, fits.2.trans raised⟩
  | answered response =>
      rw [phase] at fits
      exact fun ok => ⟨(fits ok).1, (fits ok).2.trans raised⟩

theorem Fits.aged {server later : PaxosImpl} {votes : List Vote} {call : AcceptCall}
    (fits : call.Fits server votes) (early : call.votesBefore ≤ votes.length) (ages : server.Ages later) :
    call.Fits later votes := by
  have still : call.Fits later (votes ++ []) := fits.append early ages
  rw [List.append_nil] at still
  exact still

theorem committed_of_accepted {call : AcceptCall} (accepted : call.accepted = true) :
    call.committed = true := by
  unfold AcceptCall.accepted at accepted
  unfold committed
  split at accepted
  next response answered =>
    rw [answered]
    exact accepted
  all_goals cases accepted

/-- A committed call that is past its third section is recorded in the accepted sequence number. -/
theorem Fits.recorded {server : PaxosImpl} {votes : List Vote} {call : AcceptCall}
    (fits : call.Fits server votes) (committed : call.committed = true) (past : call.storing = false) :
    call.request.seq ≤ server.highestAcceptedSeq := by
  unfold AcceptCall.committed at committed
  unfold storing at past
  unfold Fits at fits
  cases phase : call.phase with
  | entered latestDone => rw [phase] at committed; cases committed
  | stored latestDone nA => rw [phase] at past; cases past
  | refused latestDone nA => rw [phase] at committed; cases committed
  | raised latestDone nA =>
      rw [phase] at fits
      exact fits.2
  | answered response =>
      rw [phase] at fits committed
      exact (fits (of_decide_eq_true committed)).2

theorem committed_of_storing {call : AcceptCall} (storing : call.storing = true) : call.committed = true := by
  unfold AcceptCall.storing at storing
  unfold committed
  split at storing
  next latestDone nA stored => rw [stored]
  all_goals cases storing

end AcceptCall

/-- Every OK answer to Elect covers every Accept of a smaller view that the server has answered with
OK. -/
def Fenced (s : Sections) : Prop :=
  ∀ vote ∈ s.votes, ∀ call ∈ s.accepts, call.accepted = true → call.FencedBy vote

/-- The votes also cover the Accepts that will be answered with OK. -/
def Covered (s : Sections) : Prop :=
  ∀ vote ∈ s.votes, ∀ call ∈ s.accepts, call.committed = true → call.FencedBy vote

theorem Covered.fenced {s : Sections} (covered : Covered s) : Fenced s :=
  fun vote given call among accepted => covered vote given call among (AcceptCall.committed_of_accepted accepted)

/-- No Accept of a smaller view is between its store and its raise of the accepted sequence number when
the server votes, unless the number covers it already; and no Accept passes the stamp of its slot after
the server has voted for a larger view, unless that vote covers it. -/
def Undisturbed (s : Sections) : Section → Prop
  | .elect request => s.server.view ≤ request.view → ∀ call ∈ s.accepts, call.storing = true →
      call.request.view < request.view → call.request.seq ≤ s.server.highestAcceptedSeq
  | .store k => ∀ call ∈ s.accepts[k]?, (s.server.slotAt call.request.seq).nA ≤ call.request.view →
      ∀ vote ∈ s.votes.drop call.votesBefore, call.FencedBy vote
  | .enter _ | .raise _ | .answer _ | .other _ => True

instance (s : Sections) : (label : Section) → Decidable (Undisturbed s label)
  | .elect _ => inferInstanceAs (Decidable (_ → ∀ call ∈ s.accepts, _ → _ → _))
  | .store k => inferInstanceAs (Decidable (∀ call ∈ s.accepts[k]?, _ → ∀ vote ∈ _, _))
  | .enter _ | .raise _ | .answer _ | .other _ => isTrue trivial

namespace Section

/-- The view of an Elect is in the range of the servers' views. -/
def Narrow : Section → Prop
  | .elect request => FitsInt request.view
  | .enter _ | .store _ | .raise _ | .answer _ | .other _ => True

/-- The section goes on with an Accept that has passed or failed its test. -/
def Finishes : Section → Prop
  | .raise _ | .answer _ => True
  | .elect _ | .enter _ | .store _ | .other _ => False

instance : DecidablePred Narrow
  | .elect _ => inferInstanceAs (Decidable (FitsInt _))
  | .enter _ | .store _ | .raise _ | .answer _ | .other _ => isTrue trivial

theorem Finishes.narrow {label : Section} (finishes : label.Finishes) : label.Narrow := by
  cases label with
  | raise k => trivial
  | answer k => trivial
  | elect request => cases finishes
  | enter request => cases finishes
  | store k => cases finishes
  | other call => cases finishes

theorem Finishes.undisturbed {label : Section} (finishes : label.Finishes) (s : Sections) :
    Undisturbed s label := by
  cases label with
  | raise k => trivial
  | answer k => trivial
  | elect request => cases finishes
  | enter request => cases finishes
  | store k => cases finishes
  | other call => cases finishes

end Section

namespace Sections

/-- The votes are within the view, and every call fits them. -/
structure Ordered (s : Sections) : Prop where
  stamped : s.server.Stamped
  votes : ∀ vote ∈ s.votes, vote.view ≤ s.server.view
  early : ∀ call ∈ s.accepts, call.votesBefore ≤ s.votes.length
  calls : ∀ call ∈ s.accepts, call.Fits s.server s.votes

/-- A section of one call, after which the server has aged. -/
theorem Ordered.advance {s : Sections} (ordered : s.Ordered) {k : Nat} {call : AcceptCall}
    (found : s.accepts[k]? = some call) {server : PaxosImpl} (ages : s.server.Ages server)
    {phase : AcceptPhase} (fits : ({ call with phase } : AcceptCall).Fits server s.votes) :
    ({ s.setCall k call phase with server } : Sections).Ordered := by
  have member := List.mem_of_getElem? found
  refine ⟨ages.stamped, fun vote given => (ordered.votes vote given).trans ages.view, ?_, ?_⟩
  · intro other among
    obtain kept | same := List.mem_or_eq_of_mem_set among
    · exact ordered.early other kept
    · rw [same]
      exact ordered.early call member
  · intro other among
    obtain kept | same := List.mem_or_eq_of_mem_set among
    · exact (ordered.calls other kept).aged (ordered.early other kept) ages
    · rw [same]
      exact fits

/-- A call that moves on without passing its test keeps the votes covered. -/
theorem covered_advance {s : Sections} {k : Nat} {call : AcceptCall} (covered : Covered s)
    (found : s.accepts[k]? = some call) {server : PaxosImpl} {phase : AcceptPhase}
    (old : ({ call with phase } : AcceptCall).committed = true → call.committed = true) :
    Covered { s.setCall k call phase with server } := by
  intro vote given other among committed
  obtain kept | new := List.mem_or_eq_of_mem_set among
  · exact covered vote given other kept committed
  · rw [new] at committed ⊢
    exact covered vote given call (List.mem_of_getElem? found) (old committed)

/-- A call that stays committed was covered before when it is now. -/
theorem covered_of_advance {s : Sections} {k : Nat} {call : AcceptCall} (found : s.accepts[k]? = some call)
    {server : PaxosImpl} {phase : AcceptPhase}
    (stays : call.committed = true → ({ call with phase } : AcceptCall).committed = true)
    (covered : Covered { s.setCall k call phase with server }) : Covered s := by
  intro vote given other among committed
  obtain ⟨j, at_⟩ := List.getElem?_of_mem among
  by_cases equal : k = j
  · rw [← equal, found] at at_
    cases at_
    exact covered vote given { call with phase } (List.mem_set (List.getElem?_eq_some_iff.mp found).1 _)
      (stays committed)
  · refine covered vote given other (List.mem_of_getElem? (i := j) ?_) committed
    show (s.accepts.set k { call with phase })[j]? = some other
    rw [List.getElem?_set_ne equal, at_]

/-- Calls of the other handlers keep the votes and the calls. -/
theorem Ordered.age {s : Sections} (ordered : s.Ordered) {server : PaxosImpl} (ages : s.server.Ages server) :
    ({ s with server } : Sections).Ordered := by
  refine ⟨ages.stamped, fun vote given => (ordered.votes vote given).trans ages.view, ordered.early, ?_⟩
  intro call among
  exact (ordered.calls call among).aged (ordered.early call among) ages

/-- An Elect of a narrow view gives a vote with the accepted sequence number, or none. -/
theorem elect_cases (s : Sections) {request : ElectRequest} (narrow : FitsInt request.view) :
    (s.server.view ≤ request.view ∧ s.elect request = { s with
      server := (s.server.elect request).1
      votes := s.votes ++ [⟨request.view, s.server.highestAcceptedSeq⟩] }) ∨
    (request.view < s.server.view ∧ s.elect request = { s with server := (s.server.elect request).1 }) := by
  unfold elect
  rw [PaxosImpl.electStored_eq_elect narrow]
  dsimp only
  by_cases reaches : s.server.view ≤ request.view
  · have voted := (PaxosImpl.elect_ok_iff s.server request).mpr reaches
    rw [if_pos voted, (PaxosImpl.elect_ok voted).2]
    exact .inl ⟨reaches, rfl⟩
  · have refused := mt (PaxosImpl.elect_ok_iff s.server request).mp reaches
    rw [if_neg refused]
    exact .inr ⟨not_le.mp reaches, rfl⟩

theorem ordered_elect {s : Sections} (ordered : s.Ordered) {request : ElectRequest}
    (narrow : FitsInt request.view) : (s.elect request).Ordered := by
  have ages := PaxosImpl.ages_elect ordered.stamped request
  obtain ⟨reaches, same⟩ | ⟨_, same⟩ := s.elect_cases narrow <;> rw [same]
  · refine ⟨ages.stamped, ?_, ?_, ?_⟩
    · intro vote given
      obtain before | new := List.mem_append.mp given
      · exact (ordered.votes vote before).trans ages.view
      · have voted := (PaxosImpl.elect_ok_iff s.server request).mpr reaches
        rw [List.mem_singleton.mp new]
        exact le_of_eq (PaxosImpl.elect_ok voted).1.symm
    · intro call among
      rw [List.length_append]
      exact (ordered.early call among).trans (Nat.le_add_right ..)
    · intro call among
      exact (ordered.calls call among).append (ordered.early call among) ages
  · exact ordered.age ages

theorem ordered_enter {s : Sections} (ordered : s.Ordered) (me : Fin n) (request : AcceptRequest) :
    (s.enter me request).Ordered := by
  unfold enter
  split
  · exact ordered
  · have added := PaxosImpl.ages_addSlots ordered.stamped request.seq
    have ages := added.trans (PaxosImpl.ages_raiseView added.stamped request.view)
    have before := ordered.age ages
    refine ⟨before.stamped, before.votes, ?_, ?_⟩
    · intro call among
      obtain earlier | new := List.mem_append.mp among
      · exact before.early call earlier
      · rw [List.mem_singleton.mp new]
    · intro call among
      obtain earlier | new := List.mem_append.mp among
      · exact before.calls call earlier
      · rw [List.mem_singleton.mp new]
        -- the slot was stamped with the view that all votes so far were within
        refine ⟨?_, { s.server.slotAt request.seq with nA := s.server.view }, ?_, ?_⟩
        · show request.view ≤ ((s.server.addSlots request.seq).raiseView request.view).view
          rw [PaxosImpl.raiseView_view]
          exact le_max_right ..
        · show ((s.server.addSlots request.seq).raiseView request.view).slots request.seq = _
          rw [PaxosImpl.raiseView_slots]
          exact Function.update_self ..
        · intro vote given
          exact ordered.votes vote (List.mem_of_mem_take given)

theorem store_cases {s s' : Sections} {k : Nat} (taken : s.store k = some s') :
    ∃ call latestDone, s.accepts[k]? = some call ∧ call.phase = .entered latestDone ∧
      (((s.server.slotAt call.request.seq).nA ≤ call.request.view ∧
        s' = { s.setCall k call (.stored latestDone (s.server.slotAt call.request.seq).nA) with
          server := s.server.setSlot call.request.seq { s.server.slotAt call.request.seq with
            nA := call.request.view, vA := call.request.value } }) ∨
        (call.request.view < (s.server.slotAt call.request.seq).nA ∧
          s' = s.setCall k call (.refused latestDone (s.server.slotAt call.request.seq).nA))) := by
  unfold store at taken
  split at taken
  · cases taken
  next call found =>
    split at taken
    next latestDone entered =>
      split at taken
      · dsimp only at taken
        split at taken
        next reaches =>
          cases taken
          exact ⟨call, latestDone, found, entered, .inl ⟨reaches, rfl⟩⟩
        next misses =>
          cases taken
          exact ⟨call, latestDone, found, entered, .inr ⟨not_le.mp misses, rfl⟩⟩
      · cases taken
    · cases taken

theorem raise_cases {s s' : Sections} {k : Nat} (taken : s.raise k = some s') :
    ∃ call latestDone nA, s.accepts[k]? = some call ∧ call.phase = .stored latestDone nA ∧
      s' = { s.setCall k call (.raised latestDone nA) with
        server := s.server.raiseAccepted call.request.seq } := by
  unfold raise at taken
  split at taken
  · cases taken
  next call found =>
    split at taken
    next latestDone nA stored =>
      cases taken
      exact ⟨call, latestDone, nA, found, stored, rfl⟩
    · cases taken

theorem answer_cases {s s' : Sections} {k : Nat} (taken : s.answer k = some s') :
    ∃ call response, s.accepts[k]? = some call ∧ s' = s.setCall k call (.answered response) ∧
      ((∃ latestDone nA, call.phase = .raised latestDone nA ∧ response.status = .ok) ∨
        (∃ latestDone nA, call.phase = .refused latestDone nA) ∧ response.status = .reject) := by
  unfold answer at taken
  split at taken
  · cases taken
  next call found =>
    dsimp only at taken
    split at taken
    next latestDone nA raised =>
      cases taken
      exact ⟨call, _, found, rfl, .inl ⟨latestDone, nA, raised, rfl⟩⟩
    next latestDone nA refused =>
      cases taken
      exact ⟨call, _, found, rfl, .inr ⟨⟨latestDone, nA, refused⟩, rfl⟩⟩
    · cases taken

/-- Every section keeps the order of votes and calls. -/
theorem Ordered.step {s s' : Sections} {me : Fin n} {label : Section} (ordered : s.Ordered)
    (narrow : label.Narrow) (taken : s.step me label = some s') : s'.Ordered := by
  cases label with
  | elect request =>
      cases taken
      exact ordered_elect ordered narrow
  | enter request =>
      cases taken
      exact ordered_enter ordered me request
  | store k =>
      obtain ⟨call, latestDone, found, entered, stores⟩ := store_cases taken
      have fits := ordered.calls call (List.mem_of_getElem? found)
      unfold AcceptCall.Fits at fits
      rw [entered] at fits
      obtain ⟨view, slot, there, above⟩ := fits
      obtain ⟨reaches, same⟩ | ⟨_, same⟩ := stores
      · rw [same]
        have at_ : s.server.slotAt call.request.seq = slot := by
          unfold PaxosImpl.slotAt
          rw [there]
          rfl
        apply ordered.advance found (PaxosImpl.ages_setSlot ordered.stamped reaches view)
        intro vote given
        rw [at_] at reaches
        exact (above vote given).trans reaches
      · rw [same]
        exact ordered.advance found (.refl ordered.stamped) trivial
  | raise k =>
      obtain ⟨call, latestDone, nA, found, stored, same⟩ := raise_cases taken
      have fits := ordered.calls call (List.mem_of_getElem? found)
      unfold AcceptCall.Fits at fits
      rw [stored] at fits
      rw [same]
      apply ordered.advance found (PaxosImpl.ages_raiseAccepted ordered.stamped _)
      refine ⟨fits, ?_⟩
      show call.request.seq ≤ (s.server.raiseAccepted call.request.seq).highestAcceptedSeq
      rw [PaxosImpl.raiseAccepted_highestAcceptedSeq]
      exact le_max_right ..
  | answer k =>
      obtain ⟨call, response, found, same, answers⟩ := answer_cases taken
      rw [same]
      apply ordered.advance found (.refl ordered.stamped)
      intro ok
      have fits := ordered.calls call (List.mem_of_getElem? found)
      unfold AcceptCall.Fits at fits
      obtain ⟨latestDone, nA, raised, _⟩ | ⟨_, rejects⟩ := answers
      · rw [raised] at fits
        exact fits
      · rw [rejects] at ok
        cases ok
  | other call =>
      cases taken
      exact ordered.age (call.ages ordered.stamped me)

/-- A vote leaves the votes covered exactly when it covers the calls that have stored their value. -/
theorem covered_elect {s : Sections} (ordered : s.Ordered) (covered : Covered s) {request : ElectRequest}
    (narrow : FitsInt request.view) : Covered (s.elect request) ↔ Undisturbed s (.elect request) := by
  obtain ⟨reaches, same⟩ | ⟨behind, same⟩ := s.elect_cases narrow <;> rw [same]
  · constructor
    · intro later _ call among storing smaller
      exact later ⟨request.view, s.server.highestAcceptedSeq⟩ (List.mem_append_right _ (List.mem_singleton_self _))
        call among (AcceptCall.committed_of_storing storing) smaller
    · intro undisturbed vote given call among committed
      obtain before | new := List.mem_append.mp given
      · exact covered vote before call among committed
      · rw [List.mem_singleton.mp new]
        intro smaller
        cases past : call.storing with
        | true => exact undisturbed reaches call among past smaller
        | false => exact (ordered.calls call among).recorded committed past
  · exact iff_of_true covered fun reaches => absurd behind (not_lt.mpr reaches)

/-- A call that passes its test leaves the votes covered exactly when the votes since its first section
cover it. -/
theorem covered_store {s s' : Sections} (ordered : s.Ordered) (covered : Covered s) {k : Nat}
    (taken : s.store k = some s') : Covered s' ↔ Undisturbed s (.store k) := by
  obtain ⟨call, latestDone, found, entered, ⟨reaches, same⟩ | ⟨misses, same⟩⟩ := store_cases taken
  · rw [same]
    have inside := (List.getElem?_eq_some_iff.mp found).1
    constructor
    · intro later other at_ _ vote late
      rw [found] at at_
      cases at_
      let stored := AcceptPhase.stored latestDone (s.server.slotAt call.request.seq).nA
      exact later vote (List.mem_of_mem_drop late) { call with phase := stored } (List.mem_set inside _) rfl
    · intro undisturbed vote given other among committed
      obtain kept | new := List.mem_or_eq_of_mem_set among
      · exact covered vote given other kept committed
      · rw [new]
        intro smaller
        have given : vote ∈ s.votes.take call.votesBefore ++ s.votes.drop call.votesBefore := by
          rw [List.take_append_drop]
          exact given
        obtain early | late := List.mem_append.mp given
        · -- the slot was stamped after this vote, so the call's view reaches it
          have fits := ordered.calls call (List.mem_of_getElem? found)
          unfold AcceptCall.Fits at fits
          rw [entered] at fits
          obtain ⟨_, slot, there, above⟩ := fits
          have at_ : s.server.slotAt call.request.seq = slot := by
            unfold PaxosImpl.slotAt
            rw [there]
            rfl
          rw [at_] at reaches
          exact absurd smaller (not_lt.mpr ((above vote early).trans reaches))
        · exact undisturbed call found reaches vote late smaller
  · rw [same]
    refine iff_of_true (covered_advance covered found nofun) ?_
    · intro other at_ reaches
      rw [found] at at_
      cases at_
      exact absurd misses (not_lt.mpr reaches)

/-- After a section the votes cover the committed Accepts exactly when the section is undisturbed. -/
theorem covered_step {s s' : Sections} {me : Fin n} {label : Section} (ordered : s.Ordered)
    (covered : Covered s) (narrow : label.Narrow) (taken : s.step me label = some s') :
    Covered s' ↔ Undisturbed s label := by
  cases label with
  | elect request =>
      cases taken
      exact covered_elect ordered covered narrow
  | enter request =>
      cases taken
      apply iff_of_true _ trivial
      unfold enter
      split
      · exact covered
      · intro vote given call among committed
        obtain earlier | new := List.mem_append.mp among
        · exact covered vote given call earlier committed
        · rw [List.mem_singleton.mp new] at committed
          cases committed
  | store k => exact covered_store ordered covered taken
  | raise k =>
      obtain ⟨call, latestDone, nA, found, stored, same⟩ := raise_cases taken
      rw [same]
      refine iff_of_true (covered_advance covered found fun _ => ?_) trivial
      unfold AcceptCall.committed
      rw [stored]
  | answer k =>
      obtain ⟨call, response, found, same, answers⟩ := answer_cases taken
      rw [same]
      refine iff_of_true (covered_advance covered found fun committed => ?_) trivial
      obtain ⟨latestDone, nA, raised, _⟩ | ⟨_, rejects⟩ := answers
      · unfold AcceptCall.committed
        rw [raised]
      · have ok : response.status = .ok := of_decide_eq_true committed
        rw [rejects] at ok
        cases ok
  | other call =>
      cases taken
      exact iff_of_true covered trivial

/-- A committed call has only the sections left to it that end with an OK answer. -/
theorem finish_committed {s : Sections} (me : Fin n) {k : Nat} {call : AcceptCall}
    (found : s.accepts[k]? = some call) (committed : call.committed = true) :
    ∃ rest last, (∀ label ∈ rest, label.Finishes) ∧ run (step me) s rest = some last ∧
      last.votes = s.votes ∧
      ∃ done ∈ last.accepts, done.request = call.request ∧ done.accepted = true := by
  have answered {s : Sections} {call : AcceptCall} {latestDone nA : Int}
      (found : s.accepts[k]? = some call) (raised : call.phase = .raised latestDone nA) :
      ∃ last, s.step me (.answer k) = some last ∧ last.votes = s.votes ∧
        ∃ done ∈ last.accepts, done.request = call.request ∧ done.accepted = true := by
    let response : AcceptResponse :=
      ⟨.ok, latestDone, PaxosImpl.decidedText (s.server.slotAt call.request.seq), nA⟩
    refine ⟨_, answer_accepts found raised, rfl, { call with phase := .answered response }, ?_, rfl, rfl⟩
    exact List.mem_set (List.getElem?_eq_some_iff.mp found).1 _
  unfold AcceptCall.committed at committed
  cases phase : call.phase with
  | entered latestDone => rw [phase] at committed; cases committed
  | refused latestDone nA => rw [phase] at committed; cases committed
  | stored latestDone nA =>
      have raises : s.step me (.raise k) = _ := raise_raises found phase
      have second := accepts_setCall found (.raised latestDone nA)
        (s.server.raiseAccepted call.request.seq)
      obtain ⟨last, answers, votes, done⟩ := answered second rfl
      refine ⟨[.raise k, .answer k], last, ?_, ?_, votes, done⟩
      · exact List.forall_mem_cons.mpr ⟨trivial, List.forall_mem_singleton.mpr trivial⟩
      · exact run_cons_eq_some.mpr ⟨_, raises, run_cons_eq_some.mpr ⟨_, answers, rfl⟩⟩
  | raised latestDone nA =>
      obtain ⟨last, answers, votes, done⟩ := answered found phase
      refine ⟨[.answer k], last, List.forall_mem_singleton.mpr trivial, ?_, votes, done⟩
      exact run_cons_eq_some.mpr ⟨_, answers, rfl⟩
  | answered response =>
      refine ⟨[], s, List.forall_mem_nil _, rfl, rfl, call, List.mem_of_getElem? found, rfl, ?_⟩
      unfold AcceptCall.accepted
      rw [phase] at committed ⊢
      exact committed

/-- The votes cover the committed Accepts when they fence every way to finish them. -/
theorem covered_of_finished {s : Sections} {me : Fin n}
    (fenced : ∀ rest last, (∀ label ∈ rest, label.Finishes) → run (step me) s rest = some last → Fenced last) :
    Covered s := by
  intro vote given call among committed
  obtain ⟨k, found⟩ := List.getElem?_of_mem among
  obtain ⟨rest, last, finishes, ran, votes, done, there, same, accepted⟩ :=
    finish_committed me found committed
  have fencedBy := fenced rest last finishes ran vote (votes ▸ given) done there accepted
  unfold AcceptCall.FencedBy at fencedBy ⊢
  rw [← same]
  exact fencedBy

/-- No section makes the votes cover a committed Accept that they did not cover. -/
theorem covered_back {me : Fin n} (s : Sections) (label : Section) (next : Sections)
    (taken : s.step me label = some next) (covered : Covered next) : Covered s := by
  cases label with
  | elect request =>
      cases taken
      intro vote given call among committed
      refine covered vote ?_ call among committed
      unfold elect
      dsimp only
      split
      · exact List.mem_append_left _ given
      · exact given
  | enter request =>
      cases taken
      unfold enter at covered
      split at covered
      · exact covered
      · exact fun vote given call among => covered vote given call (List.mem_append_left _ among)
  | store k =>
      obtain ⟨call, latestDone, found, entered, stores⟩ := store_cases taken
      have uncommitted : call.committed = false := by
        unfold AcceptCall.committed
        rw [entered]
      have stays {phase : AcceptPhase} :
          call.committed = true → ({ call with phase } : AcceptCall).committed = true := by
        rw [uncommitted]
        exact nofun
      obtain ⟨_, same⟩ | ⟨_, same⟩ := stores <;> rw [same] at covered
      · exact covered_of_advance found stays covered
      · exact covered_of_advance found stays covered
  | raise k =>
      obtain ⟨call, latestDone, nA, found, _, same⟩ := raise_cases taken
      rw [same] at covered
      exact covered_of_advance found (fun _ => rfl) covered
  | answer k =>
      obtain ⟨call, response, found, same, answers⟩ := answer_cases taken
      rw [same] at covered
      refine covered_of_advance found (fun committed => ?_) covered
      obtain ⟨_, _, _, ok⟩ | ⟨⟨latestDone, nA, refused⟩, _⟩ := answers
      · exact decide_eq_true ok
      · unfold AcceptCall.committed at committed
        rw [refused] at committed
        cases committed
  | other call =>
      cases taken
      exact covered

theorem ordered_initial (groupSize : Nat) : (initial groupSize).Ordered := by
  refine ⟨?_, ?_, ?_, ?_⟩
  · intro seq slot found
    cases found
  · intro vote given
    cases given
  · intro call among
    cases among
  · intro call among
    cases among

end Sections

/-- The votes stay covered in every state of a run exactly when its sections are undisturbed. -/
theorem covered_iff {me : Fin n} {labels : List Section} {final : Sections}
    (narrow : ∀ label ∈ labels, label.Narrow)
    (ran : run (Sections.step me) (Sections.initial n) labels = some final) :
    EveryStep (Sections.step me) (fun _ _ next => Covered next) (Sections.initial n) labels ↔
      Guarded (Sections.step me) Undisturbed (Sections.initial n) labels := by
  have start : (Sections.initial n).Ordered ∧ Covered (Sections.initial n) := by
    refine ⟨Sections.ordered_initial n, fun vote given => ?_⟩
    cases given
  refine @everyStep_iff_guarded _ _ _ _ _ (fun s => s.Ordered ∧ Covered s) _ ?_ ?_ _ _ _ start narrow ran
  · intro s label next holds narrow taken
    exact Sections.covered_step holds.1 holds.2 narrow taken
  · intro s label next holds narrow undisturbed taken
    exact ⟨holds.1.step narrow taken, (Sections.covered_step holds.1 holds.2 narrow taken).mpr undisturbed⟩

/-- The votes of a run fence the smaller views in every state, whichever of the Accepts that it has begun
are then finished, exactly when every section of the run is undisturbed. -/
theorem fenced_iff {me : Fin n} {labels : List Section} {final : Sections}
    (narrow : ∀ label ∈ labels, label.Narrow)
    (ran : run (Sections.step me) (Sections.initial n) labels = some final) :
    (∀ rest last, (∀ label ∈ rest, label.Finishes) →
      run (Sections.step me) (Sections.initial n) (labels ++ rest) = some last →
      EveryStep (Sections.step me) (fun _ _ next => Fenced next) (Sections.initial n) (labels ++ rest)) ↔
    Guarded (Sections.step me) Undisturbed (Sections.initial n) labels := by
  have start : Fenced (Sections.initial n) := by
    intro vote given
    cases given
  constructor
  · intro finished
    have covered : Covered final := by
      refine @Sections.covered_of_finished n final me ?_
      intro rest last finishes later
      have whole : run (Sections.step me) (Sections.initial n) (labels ++ rest) = some last := by
        rw [run_append, ran]
        exact later
      exact (finished rest last finishes whole).final start whole
    exact (covered_iff narrow ran).mp (.of_final Sections.covered_back ran covered)
  · intro guarded rest last finishes whole
    have narrowed : ∀ label ∈ labels ++ rest, label.Narrow := by
      intro label member
      obtain before | after := List.mem_append.mp member
      · exact narrow label before
      · exact (finishes label after).narrow
    have every := (covered_iff narrowed whole).mpr
      (guarded.append fun label member s => (finishes label member).undisturbed s)
    exact every.mono fun _ _ _ covered => covered.fenced

/-- An Accept of view 0 is over before the server votes for view 1. -/
def acceptThenVote : List Section :=
  [.enter ⟨5, 0, "x#SHARED"⟩, .store 0, .raise 0, .answer 0, .elect ⟨1⟩]

/-- The server votes for view 1 between the first and the second section of an Accept of view 0. -/
def voteWithinAccept : List Section :=
  [.enter ⟨5, 0, "x#SHARED"⟩, .elect ⟨1⟩, .store 0, .raise 0, .answer 0]

theorem fenced_iff_acceptThenVote : ∃ final : Sections,
    run (Sections.step (0 : Fin 1)) (Sections.initial 1) acceptThenVote = some final ∧
      final.votes.map Vote.highestSeq = [5] ∧
      ∀ rest last, (∀ label ∈ rest, label.Finishes) →
        run (Sections.step (0 : Fin 1)) (Sections.initial 1) (acceptThenVote ++ rest) = some last →
        EveryStep (Sections.step (0 : Fin 1)) (fun _ _ next => Fenced next) (Sections.initial 1)
          (acceptThenVote ++ rest) := by
  obtain ⟨final, ran, checked⟩ := (Option.any_eq_true _ _).mp (by decide :
    (run (Sections.step (0 : Fin 1)) (Sections.initial 1) acceptThenVote).any (fun final =>
      decide (final.votes.map Vote.highestSeq = [5])) = true)
  exact ⟨final, ran, of_decide_eq_true checked, (fenced_iff (by decide) ran).mpr (by decide)⟩

/-- The server votes for view 1 with the report 0 and then answers an Accept of view 0 for slot 5 with
OK. -/
theorem vote_overtaken : ¬ ∀ (n : Nat) (me : Fin n) (labels : List Section) (final : Sections),
    run (Sections.step me) (Sections.initial n) labels = some final → Fenced final := by
  intro fences
  obtain ⟨final, ran, checked⟩ := (Option.any_eq_true _ _).mp (by decide :
    (run (Sections.step (0 : Fin 1)) (Sections.initial 1) voteWithinAccept).any (fun final =>
      decide (∃ vote ∈ final.votes, ∃ call ∈ final.accepts, call.accepted = true ∧
        ¬ call.FencedBy vote)) = true)
  obtain ⟨vote, given, call, among, accepted, escapes⟩ := of_decide_eq_true checked
  exact escapes (fences 1 0 voteWithinAccept final ran vote given call among accepted)

end Chubby.Paxos
