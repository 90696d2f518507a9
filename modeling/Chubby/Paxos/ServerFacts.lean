/-
This file gives one specification lemma for each handler of a server.
-/

import Chubby.Paxos.Election

namespace Chubby.Paxos

namespace PaxosImpl

/-- The value of a slot that the server has decided. -/
def decidedValue (server : PaxosImpl) (seq : Int) : Option String :=
  if (server.slotAt seq).status = .decided then some (server.slotAt seq).value else none

/-- A step of this kind accepts nothing; it decides only values that its source offers. -/
structure Settles (before after : PaxosImpl) (source : Int → String → Prop) : Prop where
  view : before.view ≤ after.view
  highestAcceptedSeq : after.highestAcceptedSeq = before.highestAcceptedSeq
  lowestSlot : after.lowestSlot = before.lowestSlot
  vA : ∀ seq, (after.slotAt seq).vA = (before.slotAt seq).vA
  kept : ∀ seq value, before.decidedValue seq = some value → after.decidedValue seq = some value
  offered : ∀ seq value, after.decidedValue seq = some value →
    before.decidedValue seq = some value ∨ source seq value

/-- A quiet step neither accepts nor decides. -/
structure Quiet (before after : PaxosImpl) : Prop where
  settles : Settles before after fun _ _ => False
  done : after.done = before.done

theorem Settles.mono {before after : PaxosImpl} {source wider : Int → String → Prop}
    (settles : Settles before after source) (inside : ∀ seq value, source seq value → wider seq value) :
    Settles before after wider :=
  { settles with offered := fun seq value decided =>
      (settles.offered seq value decided).imp_right (inside seq value) }

theorem Settles.trans {first second third : PaxosImpl} {source : Int → String → Prop}
    (one : Settles first second source) (two : Settles second third source) :
    Settles first third source where
  view := le_trans one.view two.view
  highestAcceptedSeq := two.highestAcceptedSeq.trans one.highestAcceptedSeq
  lowestSlot := two.lowestSlot.trans one.lowestSlot
  vA seq := (two.vA seq).trans (one.vA seq)
  kept seq value decided := two.kept seq value (one.kept seq value decided)
  offered seq value decided := by
    rcases two.offered seq value decided with earlier | new
    · exact one.offered seq value earlier
    · exact .inr new

theorem Quiet.trans {first second third : PaxosImpl} (one : Quiet first second)
    (two : Quiet second third) : Quiet first third :=
  ⟨one.settles.trans two.settles, two.done.trans one.done⟩

theorem undecided_iff {server : PaxosImpl} {seq : Int} :
    server.decidedValue seq = none ↔ (server.slotAt seq).status ≠ .decided := by
  unfold PaxosImpl.decidedValue
  split <;> simp_all

/-- A quiet step keeps every decision. -/
theorem Quiet.decidedValue {before after : PaxosImpl} (quiet : Quiet before after) (query : Int) :
    after.decidedValue query = before.decidedValue query := by
  rcases early : before.decidedValue query with _ | text
  · rcases late : after.decidedValue query with _ | text
    · rfl
    · rcases quiet.settles.offered query text late with same | same
      · rw [early] at same
        cases same
      · exact same.elim
  · exact quiet.settles.kept query text early

theorem slotAt_setSlot (server : PaxosImpl) (seq query : Int) (slot : PaxosSlot) :
    (server.setSlot seq slot).slotAt query = if query = seq then slot else server.slotAt query := by
  by_cases same : query = seq
  · subst same; simp [slotAt, setSlot]
  · simp [slotAt, setSlot, same]

@[simp] theorem slotAt_setSlot_self (server : PaxosImpl) (seq : Int) (slot : PaxosSlot) :
    (server.setSlot seq slot).slotAt seq = slot := by
  simp [slotAt_setSlot]

@[simp] theorem slotAt_addSlots_self (server : PaxosImpl) (seq : Int) :
    (server.addSlots seq).slotAt seq = { server.slotAt seq with nA := server.view } := by
  simp [addSlots]

@[simp] theorem setSlot_view (server : PaxosImpl) (seq : Int) (slot : PaxosSlot) :
    (server.setSlot seq slot).view = server.view := rfl

@[simp] theorem addSlots_view (server : PaxosImpl) (seq : Int) :
    (server.addSlots seq).view = server.view := rfl

@[simp] theorem addSlots_highestAcceptedSeq (server : PaxosImpl) (seq : Int) :
    (server.addSlots seq).highestAcceptedSeq = server.highestAcceptedSeq := rfl

@[simp] theorem adoptView_view (server : PaxosImpl) (view : Int) :
    (server.adoptView view).view = view := rfl

/-- A record that keeps the slots, and may raise its view, is a quiet step. -/
theorem quiet_of_slots {before after : PaxosImpl} (view : before.view ≤ after.view)
    (highestAcceptedSeq : after.highestAcceptedSeq = before.highestAcceptedSeq)
    (lowestSlot : after.lowestSlot = before.lowestSlot) (done : after.done = before.done)
    (slots : after.slots = before.slots) : Quiet before after := by
  have fields (seq : Int) : (after.slotAt seq).vA = (before.slotAt seq).vA ∧
      after.decidedValue seq = before.decidedValue seq := by
    unfold decidedValue slotAt
    rw [slots]
    cases before.slots seq <;> exact ⟨rfl, rfl⟩
  refine ⟨⟨view, highestAcceptedSeq, lowestSlot, fun seq => (fields seq).1, ?_, ?_⟩, done⟩
  · intro seq value decided
    exact (fields seq).2.trans decided
  · intro seq value decided
    exact .inl ((fields seq).2.symm.trans decided)

theorem Quiet.refl (server : PaxosImpl) : Quiet server server :=
  quiet_of_slots le_rfl rfl rfl rfl rfl

/-- Writing a slot with the same accepted and decided fields is a quiet step. -/
theorem quiet_setSlot {server : PaxosImpl} {seq : Int} {slot : PaxosSlot}
    (vA : slot.vA = (server.slotAt seq).vA) (status : slot.status = (server.slotAt seq).status)
    (value : slot.value = (server.slotAt seq).value) : Quiet server (server.setSlot seq slot) := by
  have fields (query : Int) : ((server.setSlot seq slot).slotAt query).vA = (server.slotAt query).vA ∧
      (server.setSlot seq slot).decidedValue query = server.decidedValue query := by
    unfold decidedValue
    rw [slotAt_setSlot]
    split
    next same => subst same; rw [vA, status, value]; exact ⟨rfl, rfl⟩
    · exact ⟨rfl, rfl⟩
  refine ⟨⟨le_rfl, rfl, rfl, fun query => (fields query).1, ?_, ?_⟩, rfl⟩
  · intro query text decided
    exact (fields query).2.trans decided
  · intro query text decided
    exact .inl ((fields query).2.symm.trans decided)

theorem quiet_addSlots (server : PaxosImpl) (seq : Int) : Quiet server (server.addSlots seq) :=
  quiet_setSlot rfl rfl rfl

theorem quiet_adoptView {server : PaxosImpl} {view : Int} (larger : server.view ≤ view) :
    Quiet server (server.adoptView view) :=
  quiet_of_slots larger rfl rfl rfl rfl

theorem status_addSlots (server : PaxosImpl) (seq : Int) :
    ((server.addSlots seq).slotAt seq).status = (server.slotAt seq).status := by
  rw [slotAt_addSlots_self]

/-- The branches of `Start`. -/
inductive StartCases {n : Nat} (server : PaxosImpl) (me : Fin n) (seq : Int) : Prop where
  | collected (below : seq < server.lowestSlot) (same : server.start me seq = (server, .stop))
  | closed (above : server.lowestSlot ≤ seq)
      (settled : (server.slotAt seq).status = .decided ∨ server.isDead = true)
      (same : server.start me seq = (server.addSlots seq, .stop))
  | distrusts (above : server.lowestSlot ≤ seq) (undecided : (server.slotAt seq).status ≠ .decided)
      (leader : leads me server.view) (distrusted : server.leaderDead = true)
      (same : server.start me seq = (server.addSlots seq, .stop))
  | proposes (above : server.lowestSlot ≤ seq) (undecided : (server.slotAt seq).status ≠ .decided)
      (leader : leads me server.view) (trusted : server.leaderDead = false)
      (same : server.start me seq = (server.addSlots seq, .newSlot server.view))
  | forwards (above : server.lowestSlot ≤ seq) (undecided : (server.slotAt seq).status ≠ .decided)
      (alive : server.isDead = false) (follows : ¬ leads me server.view)
      (same : server.start me seq = (server.addSlots seq, .forward))

theorem start_cases {n : Nat} (server : PaxosImpl) (me : Fin n) (seq : Int) :
    server.StartCases me seq := by
  by_cases below : seq < server.lowestSlot
  · exact .collected below (by unfold start; rw [if_pos below])
  have above := Int.not_lt.mp below
  by_cases opened : (server.slotAt seq).status ≠ .decided ∧ ¬ server.isDead = true
  · have starts : server.start me seq = if leads me server.view then
        (server.addSlots seq, if server.leaderDead then .stop else .newSlot server.view)
        else (server.addSlots seq, .forward) := by
      unfold start
      rw [if_neg below]
      dsimp only
      rw [status_addSlots]
      exact if_pos opened
    by_cases leader : leads me server.view
    · rw [if_pos leader] at starts
      cases trusted : server.leaderDead with
      | true => exact .distrusts above opened.1 leader trusted (by simpa [trusted] using starts)
      | false => exact .proposes above opened.1 leader trusted (by simpa [trusted] using starts)
    · rw [if_neg leader] at starts
      exact .forwards above opened.1 (by simpa using opened.2) leader starts
  · refine .closed above (by simpa [or_iff_not_imp_left] using opened) ?_
    unfold start
    rw [if_neg below]
    dsimp only
    rw [status_addSlots]
    exact if_neg opened

/-- `Start` touches its slot unless it is collected. -/
theorem start_server {n : Nat} (server : PaxosImpl) (me : Fin n) (seq : Int) :
    (seq < server.lowestSlot ∧ (server.start me seq).1 = server) ∨
      (server.lowestSlot ≤ seq ∧ (server.start me seq).1 = server.addSlots seq) := by
  cases server.start_cases me seq with
  | collected below same => exact .inl ⟨below, congrArg Prod.fst same⟩
  | closed above settled same => exact .inr ⟨above, congrArg Prod.fst same⟩
  | distrusts above undecided leader distrusted same => exact .inr ⟨above, congrArg Prod.fst same⟩
  | proposes above undecided leader trusted same => exact .inr ⟨above, congrArg Prod.fst same⟩
  | forwards above undecided alive follows same => exact .inr ⟨above, congrArg Prod.fst same⟩

/-- `Start` drops a collected or decided slot. -/
theorem start_stops {n : Nat} {server : PaxosImpl} {me : Fin n} {seq : Int}
    (settled : seq < server.lowestSlot ∨ (server.slotAt seq).status = .decided) :
    (server.start me seq).2 = .stop := by
  cases server.start_cases me seq with
  | collected below same => rw [same]
  | closed above other same => rw [same]
  | distrusts above undecided leader distrusted same => rw [same]
  | proposes above undecided leader trusted same =>
      exact absurd settled (not_or.mpr ⟨Int.not_lt.mpr above, undecided⟩)
  | forwards above undecided alive follows same =>
      exact absurd settled (not_or.mpr ⟨Int.not_lt.mpr above, undecided⟩)

/-- `Start` at a trusted leader proposes for an open slot. -/
theorem start_proposes {n : Nat} {server : PaxosImpl} {me : Fin n} {seq : Int}
    (above : server.lowestSlot ≤ seq) (undecided : (server.slotAt seq).status ≠ .decided)
    (alive : server.isDead = false) (leader : leads me server.view)
    (trusted : server.leaderDead = false) :
    server.start me seq = (server.addSlots seq, .newSlot server.view) := by
  cases server.start_cases me seq with
  | collected below => exact absurd above (Int.not_le.mpr below)
  | closed _ settled => exact absurd settled (not_or.mpr ⟨undecided, by rw [alive]; exact Bool.false_ne_true⟩)
  | distrusts _ _ _ distrusted => rw [trusted] at distrusted; cases distrusted
  | proposes _ _ _ _ same => exact same
  | forwards _ _ _ follows => exact absurd leader follows

theorem startOnForward_server {n : Nat} (server : PaxosImpl) (me : Fin n) (seq : Int) :
    (server.startOnForward me seq).1 = server.addSlots seq := by
  unfold startOnForward
  dsimp only
  split <;> rfl

theorem start_quiet {n : Nat} (server : PaxosImpl) (me : Fin n) (seq : Int) :
    Quiet server (server.start me seq).1 := by
  obtain ⟨_, same⟩ | ⟨_, same⟩ := server.start_server me seq <;> rw [same]
  · exact .refl server
  · exact quiet_addSlots server seq

/-- A new slot is proposed only by the leader of the current view, above the collected slots. -/
theorem start_newSlot {n : Nat} {server : PaxosImpl} {me : Fin n} {seq view : Int}
    (action : (server.start me seq).2 = .newSlot view) :
    view = server.view ∧ leads me view ∧ server.lowestSlot ≤ seq := by
  cases server.start_cases me seq with
  | proposes above undecided leader trusted same =>
      rw [same] at action
      cases action
      exact ⟨rfl, leader, above⟩
  | collected _ same | closed _ _ same | distrusts _ _ _ _ same | forwards _ _ _ _ same =>
      rw [same] at action
      cases action

theorem start_forward {n : Nat} {server : PaxosImpl} {me : Fin n} {seq : Int}
    (action : (server.start me seq).2 = .forward) : server.lowestSlot ≤ seq := by
  obtain ⟨below, _⟩ | ⟨above, _⟩ := server.start_server me seq
  · rw [start_stops (.inl below)] at action
    cases action
  · exact above

theorem startOnForward_quiet {n : Nat} (server : PaxosImpl) (me : Fin n) (seq : Int) :
    Quiet server (server.startOnForward me seq).1 := by
  rw [startOnForward_server]
  exact quiet_addSlots server seq

theorem startOnForward_newSlot {n : Nat} {server : PaxosImpl} {me : Fin n} {seq view : Int}
    (action : (server.startOnForward me seq).2 = .newSlot view) :
    view = server.view ∧ leads me view := by
  unfold startOnForward at action
  dsimp only at action
  split at action
  next ready => cases action; exact ⟨rfl, ready.2.1⟩
  · cases action

theorem detectLeaderFailure_quiet {n : Nat} (server : PaxosImpl) (me : Fin n) :
    Quiet server (server.detectLeaderFailure me).1 := by
  unfold detectLeaderFailure
  dsimp only
  split <;> exact quiet_of_slots le_rfl rfl rfl rfl rfl

theorem elect_quiet (server : PaxosImpl) (request : ElectRequest) :
    Quiet server (server.elect request).1 := by
  unfold elect electKeeping
  split
  next larger => exact quiet_adoptView (le_of_lt larger)
  · split <;> exact .refl server

/-- A vote is given in the view that the voter then has, with its accepted sequence number. -/
theorem elect_ok {server : PaxosImpl} {request : ElectRequest}
    (voted : (server.elect request).2.status = .ok) :
    (server.elect request).1.view = request.view ∧
      (server.elect request).2.highestSeq = server.highestAcceptedSeq := by
  unfold elect electKeeping at voted ⊢
  split
  · exact ⟨rfl, rfl⟩
  · split
    next same => exact ⟨same.symm, rfl⟩
    next larger other => rw [if_neg larger, if_neg other] at voted; cases voted

/-- The branches of `Prepare`. -/
inductive PrepareCases {n : Nat} (server : PaxosImpl) (me : Fin n) (request : PrepareRequest) : Prop where
  | collected (below : request.seq < server.lowestSlot)
      (same : server.prepare me request = (server, .error garbageCollected))
  | promises (above : server.lowestSlot ≤ request.seq)
      (larger : (server.slotAt request.seq).nP < request.proposalNumber)
      (same : server.prepare me request = ((server.addSlots request.seq).setSlot request.seq
          { (server.addSlots request.seq).slotAt request.seq with nP := request.proposalNumber },
        .ok ⟨.ok, server.view, (server.slotAt request.seq).vA, request.proposalNumber,
          server.latestDone me, decidedText (server.slotAt request.seq)⟩))
  | rejects (above : server.lowestSlot ≤ request.seq)
      (smaller : request.proposalNumber ≤ (server.slotAt request.seq).nP)
      (same : server.prepare me request = (server.addSlots request.seq,
        .ok ⟨.reject, server.view, (server.slotAt request.seq).vA, (server.slotAt request.seq).nP,
          server.latestDone me, decidedText (server.slotAt request.seq)⟩))

theorem prepare_cases {n : Nat} (server : PaxosImpl) (me : Fin n) (request : PrepareRequest) :
    server.PrepareCases me request := by
  have added := slotAt_addSlots_self server request.seq
  by_cases below : request.seq < server.lowestSlot
  · exact .collected below (by unfold prepare; rw [if_pos below])
  · have above := Int.not_lt.mp below
    by_cases larger : (server.slotAt request.seq).nP < request.proposalNumber
    · refine .promises above larger ?_
      unfold prepare
      rw [if_neg below]
      dsimp only
      rw [if_pos (by rw [added]; exact larger), added]
      rfl
    · refine .rejects above (Int.not_lt.mp larger) ?_
      unfold prepare
      rw [if_neg below]
      dsimp only
      rw [if_neg (by rw [added]; exact larger), added]
      rfl

theorem prepare_quiet {n : Nat} (server : PaxosImpl) (me : Fin n) (request : PrepareRequest) :
    Quiet server (server.prepare me request).1 := by
  cases server.prepare_cases me request with
  | collected _ same => rw [same]; exact .refl server
  | promises _ _ same =>
      rw [same]
      exact (quiet_addSlots server request.seq).trans (quiet_setSlot rfl rfl rfl)
  | rejects _ _ same => rw [same]; exact quiet_addSlots server request.seq

/-- A reported text is the value of a decided slot. -/
theorem decidedValue_of_text {server : PaxosImpl} {seq : Int} {slot : PaxosSlot}
    (status : slot.status = (server.slotAt seq).status) (value : slot.value = (server.slotAt seq).value)
    (reported : decidedText slot ≠ "") : server.decidedValue seq = some (decidedText slot) := by
  unfold decidedText at reported ⊢
  unfold decidedValue
  rw [← status, ← value]
  split
  · rfl
  next undecided => exact absurd (if_neg undecided) reported

/-- A prepare reply reports the server's view as the accepted number of whatever it accepted. -/
theorem prepare_reply {n : Nat} {server : PaxosImpl} {me : Fin n} {request : PrepareRequest}
    {response : PrepareResponse} (replied : (server.prepare me request).2 = .ok response) :
    response.nA = server.view ∧ response.vA = (server.slotAt request.seq).vA ∧
      response.latestDone = server.latestDone me ∧
      (response.value ≠ "" → server.decidedValue request.seq = some response.value) := by
  cases server.prepare_cases me request with
  | collected _ same => rw [same] at replied; cases replied
  | promises _ _ same | rejects _ _ same =>
      rw [same] at replied
      cases replied
      exact ⟨rfl, rfl, rfl, decidedValue_of_text rfl rfl⟩

theorem prepare_ok_number {n : Nat} {server : PaxosImpl} {me : Fin n} {request : PrepareRequest}
    {response : PrepareResponse} (replied : (server.prepare me request).2 = .ok response)
    (ok : response.status = .ok) : response.highestN = request.proposalNumber := by
  cases server.prepare_cases me request with
  | collected _ same => rw [same] at replied; cases replied
  | promises _ _ same => rw [same] at replied; cases replied; rfl
  | rejects _ _ same => rw [same] at replied; cases replied; cases ok

theorem quiet_raiseView (server : PaxosImpl) (view : Int) : Quiet server (server.raiseView view) := by
  unfold raiseView
  split
  next larger => exact quiet_adoptView (le_of_lt larger)
  · exact .refl server

@[simp] theorem raiseView_view (server : PaxosImpl) (view : Int) :
    (server.raiseView view).view = max server.view view := by
  unfold raiseView
  split
  · rw [adoptView_view]; omega
  · omega

@[simp] theorem raiseView_slots (server : PaxosImpl) (view : Int) :
    (server.raiseView view).slots = server.slots := by
  unfold raiseView
  split <;> rfl

@[simp] theorem raiseAccepted_view (server : PaxosImpl) (seq : Int) :
    (server.raiseAccepted seq).view = server.view := by
  unfold raiseAccepted
  split <;> rfl

@[simp] theorem raiseAccepted_slotAt (server : PaxosImpl) (seq query : Int) :
    (server.raiseAccepted seq).slotAt query = server.slotAt query := by
  unfold raiseAccepted
  split <;> rfl

@[simp] theorem raiseAccepted_lowestSlot (server : PaxosImpl) (seq : Int) :
    (server.raiseAccepted seq).lowestSlot = server.lowestSlot := by
  unfold raiseAccepted
  split <;> rfl

@[simp] theorem raiseAccepted_done (server : PaxosImpl) (seq : Int) :
    (server.raiseAccepted seq).done = server.done := by
  unfold raiseAccepted
  split <;> rfl

@[simp] theorem raiseAccepted_highestAcceptedSeq (server : PaxosImpl) (seq : Int) :
    (server.raiseAccepted seq).highestAcceptedSeq = max server.highestAcceptedSeq seq := by
  unfold raiseAccepted
  split
  · dsimp only; omega
  · omega

/-- An accept in a view that the server has not passed stores its value and raises both marks. -/
structure Accepts (before after : PaxosImpl) (request : AcceptRequest) : Prop where
  allowed : before.view ≤ request.view
  view : after.view = request.view
  highestAcceptedSeq : after.highestAcceptedSeq = max before.highestAcceptedSeq request.seq
  lowestSlot : after.lowestSlot = before.lowestSlot
  done : after.done = before.done
  vA : ∀ seq, (after.slotAt seq).vA = if seq = request.seq then request.value else (before.slotAt seq).vA
  decidedValue : ∀ seq, after.decidedValue seq = before.decidedValue seq

/-- The branches of `Accept`. -/
inductive AcceptCases {n : Nat} (server : PaxosImpl) (me : Fin n) (request : AcceptRequest) : Prop where
  | collected (below : request.seq < server.lowestSlot)
      (same : server.accept me request = (server, .error garbageCollected))
  | accepts (above : server.lowestSlot ≤ request.seq) (current : server.view ≤ request.view)
      (same : server.accept me request =
        ((((server.addSlots request.seq).raiseView request.view).setSlot request.seq
          { server.slotAt request.seq with nA := request.view, vA := request.value }).raiseAccepted
            request.seq,
        .ok ⟨.ok, server.latestDone me, decidedText (server.slotAt request.seq), server.view⟩))
  | rejects (above : server.lowestSlot ≤ request.seq) (behind : request.view < server.view)
      (same : server.accept me request = ((server.addSlots request.seq).raiseView request.view,
        .ok ⟨.reject, server.latestDone me, decidedText (server.slotAt request.seq), server.view⟩))

theorem accept_cases {n : Nat} (server : PaxosImpl) (me : Fin n) (request : AcceptRequest) :
    server.AcceptCases me request := by
  have added := slotAt_addSlots_self server request.seq
  by_cases below : request.seq < server.lowestSlot
  · exact .collected below (by unfold accept; rw [if_pos below])
  · have above := Int.not_lt.mp below
    by_cases current : server.view ≤ request.view
    · refine .accepts above current ?_
      unfold accept
      rw [if_neg below]
      dsimp only
      rw [added, if_pos (show request.view ≥ server.view from current)]
      rfl
    · refine .rejects above (Int.not_le.mp current) ?_
      unfold accept
      rw [if_neg below]
      dsimp only
      rw [added, if_neg (show ¬ request.view ≥ server.view from current)]
      rfl

/-- An accept is refused below the server's view and otherwise stored in the request's view. -/
theorem accept_outcomes {n : Nat} (server : PaxosImpl) (me : Fin n) (request : AcceptRequest) :
    (server.accept me request = (server, .error garbageCollected)) ∨
    (∃ response, (server.accept me request).2 = .ok response ∧ response.status = .reject ∧
      request.view < server.view ∧ Quiet server (server.accept me request).1) ∨
    (∃ response, (server.accept me request).2 = .ok response ∧ response.status = .ok ∧
      Accepts server (server.accept me request).1 request) := by
  have quiet := (quiet_addSlots server request.seq).trans
    (quiet_raiseView (server.addSlots request.seq) request.view)
  cases server.accept_cases me request with
  | collected _ same => exact .inl same
  | rejects _ behind same =>
      rw [same]
      exact .inr (.inl ⟨_, rfl, rfl, behind, quiet⟩)
  | accepts _ current same =>
      rw [same]
      refine .inr (.inr ⟨_, rfl, rfl, current, ?_, ?_, ?_, ?_, ?_, ?_⟩)
      · simp only [raiseAccepted_view, setSlot_view, raiseView_view, addSlots_view]
        omega
      · rw [raiseAccepted_highestAcceptedSeq]
        exact congrArg (max · request.seq) quiet.settles.highestAcceptedSeq
      · rw [raiseAccepted_lowestSlot]
        exact quiet.settles.lowestSlot
      · rw [raiseAccepted_done]
        exact quiet.done
      · intro seq
        rw [raiseAccepted_slotAt, slotAt_setSlot]
        split
        · rfl
        · exact quiet.settles.vA seq
      · intro seq
        unfold PaxosImpl.decidedValue
        rw [raiseAccepted_slotAt, slotAt_setSlot]
        split
        next own => subst own; rfl
        next other =>
          unfold slotAt
          rw [raiseView_slots]
          unfold addSlots setSlot
          simp only [Function.update_of_ne other]
          cases server.slots seq <;> rfl

theorem accept_reply {n : Nat} {server : PaxosImpl} {me : Fin n} {request : AcceptRequest}
    {response : AcceptResponse} (replied : (server.accept me request).2 = .ok response) :
    response.latestDone = server.latestDone me ∧
      (response.value ≠ "" → server.decidedValue request.seq = some response.value) := by
  cases server.accept_cases me request with
  | collected _ same => rw [same] at replied; cases replied
  | accepts _ _ same | rejects _ _ same =>
      rw [same] at replied
      cases replied
      exact ⟨rfl, decidedValue_of_text rfl rfl⟩

theorem quiet_raiseHighestSlot (server : PaxosImpl) (seq : Int) :
    Quiet server (server.raiseHighestSlot seq) := by
  unfold raiseHighestSlot
  split
  · exact quiet_of_slots le_rfl rfl rfl rfl rfl
  · exact .refl server

/-- Marking an undecided slot decides exactly the given value there. -/
theorem markDecided_settles {server : PaxosImpl} {seq : Int} {value : String}
    (undecided : (server.slotAt seq).status ≠ .decided) :
    Settles server (server.markDecided seq value) fun query text => query = seq ∧ text = value := by
  unfold markDecided
  refine ⟨le_rfl, rfl, rfl, ?_, ?_, ?_⟩
  · intro query
    rw [slotAt_setSlot]
    split
    next same => rw [same]
    · rfl
  · intro query text decided
    unfold PaxosImpl.decidedValue at decided ⊢
    rw [slotAt_setSlot]
    split
    next same => rw [same, if_neg undecided] at decided; cases decided
    · exact decided
  · intro query text decided
    unfold PaxosImpl.decidedValue at decided ⊢
    rw [slotAt_setSlot] at decided
    split at decided
    next same => rw [if_pos rfl] at decided; exact .inr ⟨same, (Option.some.inj decided).symm⟩
    · exact .inl decided

/-- The branches of `Learn`, whatever becomes of its pair. -/
inductive LearnCases {n : Nat} (server : PaxosImpl) (me : Fin n) (request : DecideRequest)
    (committed : Bool) : Prop where
  | collected (below : request.seq < server.lowestSlot)
      (same : (server.learn me request committed).1 = server)
  | settled (above : server.lowestSlot ≤ request.seq)
      (decided : (server.slotAt request.seq).status = .decided)
      (same : (server.learn me request committed).1 =
        (server.addSlots request.seq).raiseHighestSlot request.seq)
  | decides (above : server.lowestSlot ≤ request.seq)
      (undecided : (server.slotAt request.seq).status ≠ .decided) (paxosDb : RocksDBWrapper)
      (same : (server.learn me request committed).1 =
        { ((server.addSlots request.seq).raiseHighestSlot request.seq).markDecided request.seq
            request.value with paxosDb })

theorem raiseHighestSlot_slots (server : PaxosImpl) (seq : Int) :
    (server.raiseHighestSlot seq).slots = server.slots := by
  unfold raiseHighestSlot
  split <;> rfl

/-- A slot that `Learn` has touched is stamped with the view. -/
theorem touched_slotAt (server : PaxosImpl) (seq : Int) :
    ((server.addSlots seq).raiseHighestSlot seq).slotAt seq =
      { server.slotAt seq with nA := server.view } := by
  have same : ((server.addSlots seq).raiseHighestSlot seq).slotAt seq = (server.addSlots seq).slotAt seq := by
    unfold raiseHighestSlot
    split <;> rfl
  rw [same, slotAt_addSlots_self]

theorem learn_cases {n : Nat} (server : PaxosImpl) (me : Fin n) (request : DecideRequest)
    (committed : Bool) : server.LearnCases me request committed := by
  by_cases below : request.seq < server.lowestSlot
  · exact .collected below (by unfold learn; rw [if_pos below])
  · have above := Int.not_lt.mp below
    have touched := touched_slotAt server request.seq
    by_cases decided : (server.slotAt request.seq).status = .decided
    · refine .settled above decided ?_
      unfold learn
      rw [if_neg below]
      dsimp only
      rw [touched, if_neg fun undecided => undecided decided]
    · have marks : ∃ paxosDb, (server.learn me request committed).1 =
          { ((server.addSlots request.seq).raiseHighestSlot request.seq).markDecided request.seq
              request.value with paxosDb } := by
        unfold learn
        rw [if_neg below]
        dsimp only
        rw [touched, if_pos decided]
        split <;> exact ⟨_, rfl⟩
      obtain ⟨paxosDb, same⟩ := marks
      exact .decides above decided paxosDb same

theorem learn_done {n : Nat} (server : PaxosImpl) (me : Fin n) (request : DecideRequest)
    (committed : Bool) : (server.learn me request committed).1.done = server.done := by
  have quiet := (quiet_addSlots server request.seq).trans
    (quiet_raiseHighestSlot (server.addSlots request.seq) request.seq)
  cases server.learn_cases me request committed with
  | collected _ same => rw [same]
  | settled _ _ same => rw [same]; exact quiet.done
  | decides _ _ paxosDb same => rw [same]; exact quiet.done

/-- Learning decides at most the requested slot, and only when it was undecided. -/
theorem learn_settles {n : Nat} (server : PaxosImpl) (me : Fin n) (request : DecideRequest)
    (committed : Bool) : Settles server (server.learn me request committed).1
      fun seq value => seq = request.seq ∧ value = request.value := by
  have quiet := ((quiet_addSlots server request.seq).trans
    (quiet_raiseHighestSlot (server.addSlots request.seq) request.seq)).settles
  cases server.learn_cases me request committed with
  | collected _ same => rw [same]; exact (Quiet.refl server).settles.mono fun _ _ => False.elim
  | settled _ _ same => rw [same]; exact quiet.mono fun _ _ => False.elim
  | decides _ undecided paxosDb same =>
      rw [same]
      have status : (((server.addSlots request.seq).raiseHighestSlot request.seq).slotAt
          request.seq).status ≠ .decided := by
        rw [touched_slotAt]
        exact undecided
      have settled := (quiet.mono fun _ _ => False.elim).trans
        (@markDecided_settles _ _ request.value status)
      exact ⟨settled.view, settled.highestAcceptedSeq, settled.lowestSlot, settled.vA, settled.kept,
        settled.offered⟩

theorem slotAt_copyDecided (server : PaxosImpl) (received : Int → Option PaxosSlot) (seq : Int) :
    (server.copyDecided received).slotAt seq = match received seq with
      | none => server.slotAt seq
      | some other =>
          if (server.slotAt seq).status ≠ .decided then
            { server.slotAt seq with nA := server.view, status := .decided, value := other.value }
          else { server.slotAt seq with nA := server.view } := by
  conv_lhs => unfold slotAt copyDecided
  dsimp only
  cases received seq <;> rfl

/-- Copying received slots decides only values that were received. -/
theorem copyDecided_settles (server : PaxosImpl) (received : Int → Option PaxosSlot) :
    Settles server (server.copyDecided received) fun seq value =>
      ∃ slot, received seq = some slot ∧ slot.value = value := by
  refine ⟨le_rfl, rfl, rfl, ?_, ?_, ?_⟩
  · intro seq
    rw [slotAt_copyDecided]
    split
    · rfl
    · split <;> rfl
  · intro seq value decided
    unfold PaxosImpl.decidedValue at decided ⊢
    rw [slotAt_copyDecided]
    split
    · exact decided
    · split
      next undecided => rw [if_neg undecided] at decided; cases decided
      · exact decided
  · intro seq value decided
    unfold PaxosImpl.decidedValue at decided ⊢
    rw [slotAt_copyDecided] at decided
    split at decided
    · exact .inl decided
    next slot offered =>
      split at decided
      · rw [if_pos rfl] at decided
        exact .inr ⟨slot, offered, Option.some.inj decided⟩
      · exact .inl decided

/-- The copies carry exactly the decided values. -/
theorem decidedCopies_value {server : PaxosImpl} {status : ConsensusStatus} {seq : Int}
    {slot : PaxosSlot} (copied : server.decidedCopies status seq = some slot) :
    server.decidedValue seq = some slot.value := by
  obtain ⟨original, found, kept⟩ := Option.bind_eq_some_iff.mp copied
  have at_ : server.slotAt seq = original := by simp [slotAt, found]
  unfold PaxosImpl.decidedValue
  rw [at_]
  split at kept
  next decided => cases kept; exact if_pos decided
  · cases kept

theorem heartbeatSlots_value {n : Nat} {server : PaxosImpl} {me : Fin n}
    {slots : Int → Option PaxosSlot} (built : server.heartbeatSlots me = some slots) {seq : Int}
    {slot : PaxosSlot} (found : slots seq = some slot) : server.decidedValue seq = some slot.value := by
  unfold heartbeatSlots at built
  split at built
  · cases built; exact decidedCopies_value found
  · cases built

/-- The server with the view and the done vector of a heartbeat, before it copies the slots. -/
def syncedWith (server : PaxosImpl) (request : HeartbeatRequest) : PaxosImpl :=
  { server.raiseView request.view with done := request.done, missedHeartbeats := 0 }

@[simp] theorem syncedWith_slots (server : PaxosImpl) (request : HeartbeatRequest) :
    (server.syncedWith request).slots = server.slots := raiseView_slots _ _

@[simp] theorem syncedWith_view (server : PaxosImpl) (request : HeartbeatRequest) :
    (server.syncedWith request).view = max server.view request.view := raiseView_view _ _

/-- The branches of `Heartbeat`. -/
inductive HeartbeatCases {n : Nat} (server : PaxosImpl) (me : Fin n) (request : HeartbeatRequest) :
    Prop where
  | own (own : (me.val : Int) = request.id)
      (same : server.heartbeat me request = ({ server with missedHeartbeats := 0 }, .ok ⟨fun _ => none⟩))
  | refused (behind : request.view < server.view)
      (same : server.heartbeat me request = (server, .error (.abortedStatus "your view is lower than mine")))
  | processed (other : (me.val : Int) ≠ request.id) (current : server.view ≤ request.view)
      (same : server.heartbeat me request = ((server.syncedWith request).copyDecided request.slots,
        .ok ⟨fun seq => if (request.slots seq).isSome then none else
          (server.syncedWith request).decidedCopies .decided seq⟩))

theorem heartbeat_cases {n : Nat} (server : PaxosImpl) (me : Fin n) (request : HeartbeatRequest) :
    server.HeartbeatCases me request := by
  by_cases own : (me.val : Int) = request.id
  · exact .own own (by unfold heartbeat; rw [if_pos own])
  · by_cases behind : request.view < server.view
    · exact .refused behind (by unfold heartbeat; rw [if_neg own, if_pos behind])
    · exact .processed own (Int.not_lt.mp behind) (by unfold heartbeat; rw [if_neg own, if_neg behind]; rfl)

/-- A heartbeat decides only the values of the request. -/
theorem heartbeat_settles {n : Nat} (server : PaxosImpl) (me : Fin n) (request : HeartbeatRequest) :
    Settles server (server.heartbeat me request).1 fun seq value =>
      ∃ slot, request.slots seq = some slot ∧ slot.value = value := by
  cases server.heartbeat_cases me request with
  | own _ same =>
      have reset : Quiet server { server with missedHeartbeats := 0 } :=
        quiet_of_slots le_rfl rfl rfl rfl rfl
      rw [same]
      exact reset.settles.mono fun _ _ => False.elim
  | refused _ same =>
      rw [same]
      exact (Quiet.refl server).settles.mono fun _ _ => False.elim
  | processed _ _ same =>
      have moved : Settles server (server.raiseView request.view) fun seq value =>
          ∃ slot, request.slots seq = some slot ∧ slot.value = value :=
        (quiet_raiseView server request.view).settles.mono fun _ _ => False.elim
      have synced : Settles (server.raiseView request.view) (server.syncedWith request)
          fun seq value => ∃ slot, request.slots seq = some slot ∧ slot.value = value :=
        ⟨le_rfl, rfl, rfl, fun _ => rfl, fun _ _ decided => decided, fun _ _ decided => .inl decided⟩
      rw [same]
      exact (moved.trans synced).trans (copyDecided_settles _ request.slots)

theorem heartbeat_done {n : Nat} (server : PaxosImpl) (me : Fin n) (request : HeartbeatRequest) :
    (server.heartbeat me request).1.done = server.done ∨
      (server.heartbeat me request).1.done = request.done := by
  cases server.heartbeat_cases me request with
  | own _ same | refused _ same => exact .inl (by rw [same])
  | processed _ _ same => exact .inr (by rw [same]; rfl)

/-- A heartbeat reply offers only values that the follower had decided. -/
theorem heartbeat_reply {n : Nat} {server : PaxosImpl} {me : Fin n} {request : HeartbeatRequest}
    {response : HeartbeatResponse} (replied : (server.heartbeat me request).2 = .ok response)
    {seq : Int} {slot : PaxosSlot} (found : response.slots seq = some slot) :
    server.decidedValue seq = some slot.value := by
  cases server.heartbeat_cases me request with
  | own _ same => rw [same] at replied; cases replied; cases found
  | refused _ same => rw [same] at replied; cases replied
  | processed _ _ same =>
      rw [same] at replied
      cases replied
      dsimp only at found
      split at found
      · cases found
      · have decided : (server.raiseView request.view).decidedValue seq = some slot.value :=
          decidedCopies_value found
        have quiet := (quiet_raiseView server request.view).settles
        exact (quiet.offered seq slot.value decided).resolve_right id

end PaxosImpl

/-- A campaign that does not win changes at most the view. -/
theorem concludeElection_quiet {groupSize : Nat} {server : PaxosImpl} {target : Int}
    {tally : ElectTally} (unwon : (concludeElection groupSize server target tally).2 ≠ .won) :
    PaxosImpl.Quiet server (concludeElection groupSize server target tally).1 := by
  have adopted (condition : Prop) [Decidable condition]
      (larger : condition → tally.highestView > server.view) :
      PaxosImpl.Quiet server (if condition then server.adoptView tally.highestView else server) := by
    split
    next holds => exact PaxosImpl.quiet_adoptView (le_of_lt (larger holds))
    · exact .refl server
  unfold concludeElection at unwon ⊢
  split
  · exact adopted _ And.left
  · split
    · split
      next rejected elected success => simp [rejected, elected, success] at unwon
      · exact adopted _ id
    · exact .refl server

/-- A campaign wins with a majority of votes, no rejection and a larger view. -/
theorem concludeElection_won {groupSize : Nat} {server : PaxosImpl} {target : Int}
    {tally : ElectTally} (won : (concludeElection groupSize server target tally).2 = .won) :
    tally.rejectCount = 0 ∧ groupSize / 2 < tally.majorityCount + 1 ∧ server.view < target ∧
      (concludeElection groupSize server target tally).1 =
        { server.adoptView target with
          highestAcceptedSeq := max server.highestAcceptedSeq tally.maxHighestAcceptedSeq } := by
  unfold concludeElection at won ⊢
  split
  next rejected => rw [if_pos rejected] at won; cases won
  next unrejected =>
    rw [if_neg unrejected] at won
    split
    next elected =>
      rw [if_pos elected] at won
      split
      next success => exact ⟨by omega, elected, success.2, rfl⟩
      next failure => rw [if_neg failure] at won; cases won
    next outvoted => rw [if_neg outvoted] at won; cases won

/-- A server that wins its election takes the view and keeps what its slots hold. -/
structure PaxosImpl.Elects (before after : PaxosImpl) (target : Int) : Prop where
  larger : before.view < target
  view : after.view = target
  highestAcceptedSeq : before.highestAcceptedSeq ≤ after.highestAcceptedSeq
  lowestSlot : after.lowestSlot = before.lowestSlot
  done : after.done = before.done
  vA : ∀ seq, (after.slotAt seq).vA = (before.slotAt seq).vA
  decidedValue : ∀ seq, after.decidedValue seq = before.decidedValue seq

theorem elects_of_won {groupSize : Nat} {server : PaxosImpl} {target : Int} {tally : ElectTally}
    (won : (concludeElection groupSize server target tally).2 = .won) :
    PaxosImpl.Elects server (concludeElection groupSize server target tally).1 target := by
  obtain ⟨_, _, larger, after⟩ := concludeElection_won won
  rw [after]
  have slots (seq : Int) : (server.adoptView target).slots seq = server.slots seq := rfl
  refine ⟨larger, rfl, le_max_left _ _, rfl, rfl, fun seq => ?_, fun seq => ?_⟩
  · unfold PaxosImpl.slotAt
    dsimp only
    rw [slots]
    cases server.slots seq <;> rfl
  · unfold PaxosImpl.decidedValue PaxosImpl.slotAt
    dsimp only
    rw [slots]
    cases server.slots seq <;> rfl

end Chubby.Paxos
