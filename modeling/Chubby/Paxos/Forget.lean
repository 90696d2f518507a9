/-
This file adds the collection of old slots to a server and proves when collected slots stay collected.
-/

import Chubby.Library.Floors
import Chubby.Paxos.ViewChange

namespace Chubby.Paxos

open Chubby.Library

variable {n : Nat}

def isInt (value : Int) : Prop := -2 ^ 31 ≤ value ∧ value < 2 ^ 31

instance : DecidablePred isInt := fun _ => inferInstanceAs (Decidable (_ ∧ _))

/-- A larger entry of the peer is stored; a peer without an entry is undefined behaviour. -/
def raiseDone (done : List Int) (peer : Nat) (peerDone : Int) : Option (List Int) :=
  match done[peer]? with
  | none => none
  | some entry => some (if peerDone > entry then done.set peer peerDone else done)

/-- The loop over the done entries starts from the first one. -/
def minDone (done : List Int) : Int := done.foldl min (done.headD 0)

namespace PaxosImpl

/-- An int that overflows is undefined behaviour. -/
def forget (server : PaxosImpl) (peer : Fin n) (peerDone : Int) : Option PaxosImpl :=
  match raiseDone server.done peer.val peerDone with
  | none => none
  | some done =>
      let mini := minDone done
      let offset := mini - server.lowestSlot + 1
      let lowestSlot := if offset > 0 then server.lowestSlot + offset else server.lowestSlot
      if isInt (mini - server.lowestSlot) ∧ isInt offset ∧ isInt lowestSlot then
        some { server with done, lowestSlot, slots := eraseBelow lowestSlot server.slots }
      else none

end PaxosImpl

theorem raiseDone_nonempty {done raised : List Int} {peer : Nat} {peerDone : Int}
    (same : raiseDone done peer peerDone = some raised) : raised ≠ [] := by
  unfold raiseDone at same
  split at same
  · cases same
  next entry found =>
    have nonempty : done ≠ [] := List.ne_nil_of_mem (List.mem_of_getElem? found)
    cases same
    split
    · exact fun empty => nonempty ((List.set_eq_nil_iff _ _).mp empty)
    · exact nonempty

theorem le_minDone_iff {done : List Int} (nonempty : done ≠ []) (seq : Int) :
    seq ≤ minDone done ↔ ∀ entry ∈ done, seq ≤ entry := by
  cases done with
  | nil => exact absurd rfl nonempty
  | cons first rest =>
      have least : (first :: rest).min? = some (minDone (first :: rest)) := by
        unfold minDone
        rw [List.headD_cons, List.foldl_cons, min_self]
        rfl
      exact List.le_min?_iff least

namespace PaxosImpl

/-- `Forget` raises the lowest slot past the least done entry and erases the slots below. -/
theorem forget_cases {server next : PaxosImpl} {peer : Fin n} {peerDone : Int}
    (taken : server.forget peer peerDone = some next) : next.done ≠ [] ∧
      next.lowestSlot = max server.lowestSlot (minDone next.done + 1) ∧
      next.slots = eraseBelow next.lowestSlot server.slots := by
  unfold forget at taken
  split at taken
  · cases taken
  next done raised =>
    obtain ⟨_, same⟩ := Option.ite_none_right_eq_some.mp taken
    cases same
    refine ⟨raiseDone_nonempty raised, ?_, rfl⟩
    dsimp only
    split <;> omega

/-- A handler that checks its sequence number refuses the request or stores the slot. -/
inductive Checked (server next : PaxosImpl) (seq : Int) : Prop where
  | refused (below : seq < server.lowestSlot) (same : next.slots = server.slots)
  | stored {slot : PaxosSlot} (above : server.lowestSlot ≤ seq)
      (written : next.slots = Function.update server.slots seq (some slot))

theorem Checked.adds {server next : PaxosImpl} {seq : Int} (checked : Checked server next seq) :
    AddsKeys (fun other => server.lowestSlot ≤ seq ∧ other = seq) server.slots next.slots := by
  cases checked with
  | refused below same => exact .of_same same fun _ added => absurd added.1 (Int.not_le.mpr below)
  | @stored slot above written =>
      intro other
      rw [written]
      exact (addsKeys_update server.slots seq slot other).trans
        (or_congr_right (and_iff_right above).symm)

theorem checked_prepare (server : PaxosImpl) (me : Fin n) (request : PrepareRequest) :
    Checked server (server.prepare me request).1 request.seq := by
  cases server.prepare_cases me request with
  | collected below same => exact .refused below (by rw [same])
  | promises above _ same => exact .stored above (by rw [same]; exact Function.update_idem _ _ _)
  | rejects above _ same => exact .stored above (by rw [same]; rfl)

theorem checked_accept (server : PaxosImpl) (me : Fin n) (request : AcceptRequest) :
    Checked server (server.accept me request).1 request.seq := by
  cases server.accept_cases me request with
  | collected below same => exact .refused below (by rw [same])
  | accepts above _ same => exact .stored above (by rw [same]; exact stored_slots server request _)
  | rejects above _ same => exact .stored above (by rw [same]; exact raiseView_slots _ _)

theorem checked_learn (server : PaxosImpl) (me : Fin n) (request : DecideRequest) (committed : Bool) :
    Checked server (server.learn me request committed).1 request.seq := by
  cases server.learn_cases me request committed with
  | collected below same => exact .refused below (by rw [same])
  | settled above _ same => exact .stored above (by rw [same]; exact touched_slots server request.seq)
  | decides above _ paxosDb same =>
      exact .stored above (by rw [same]; exact marked_slots server request.seq request.value)

theorem checked_start (server : PaxosImpl) (me : Fin n) (seq : Int) :
    Checked server (server.start me seq).1 seq := by
  obtain ⟨below, same⟩ | ⟨above, same⟩ := server.start_server me seq
  · exact .refused below (by rw [same])
  · exact .stored above (by rw [same]; rfl)

/-- Both ends of a heartbeat add every slot that they receive. -/
theorem copyDecided_adds (server : PaxosImpl) (received : Int → Option PaxosSlot) :
    AddsKeys (fun seq => (received seq).isSome) server.slots (server.copyDecided received).slots := by
  intro seq
  unfold copyDecided
  dsimp only
  cases received seq with
  | none => exact (or_iff_left Bool.false_ne_true).symm
  | some other => exact iff_of_true rfl (.inr rfl)

theorem heartbeat_adds (server : PaxosImpl) (me : Fin n) (request : HeartbeatRequest) :
    AddsKeys (fun seq => (me.val : Int) ≠ request.id ∧ server.view ≤ request.view ∧
      (request.slots seq).isSome) server.slots (server.heartbeat me request).1.slots := by
  cases server.heartbeat_cases me request with
  | own own same => exact .of_same (by rw [same]) fun _ added => added.1 own
  | refused behind same =>
      exact .of_same (by rw [same]) fun _ added => absurd added.2.1 (Int.not_le.mpr behind)
  | processed other current same =>
      intro seq
      rw [same, copyDecided_adds (server.syncedWith request) request.slots seq, syncedWith_slots]
      simp only [other, current, ne_eq, not_false_eq_true, true_and]

end PaxosImpl

/-- The threads of `StartOnNewSlot` write to a slot through the pointer that `addSlots` returned. -/
def HandlerCall.pointsTo : HandlerCall → Option Int
  | .other (.raiseNumber seq) => some seq
  | .other (.noteHighestN seq _) => some seq
  | _ => none

/-- The slots that a call adds when they are missing. -/
def HandlerCall.adds (me : Fin n) (server : PaxosImpl) : HandlerCall → Int → Prop
  | .accept request, seq => server.lowestSlot ≤ request.seq ∧ seq = request.seq
  | .other (.prepare request), seq => server.lowestSlot ≤ request.seq ∧ seq = request.seq
  | .other (.learn request _), seq => server.lowestSlot ≤ request.seq ∧ seq = request.seq
  | .other (.start started), seq => server.lowestSlot ≤ started ∧ seq = started
  | .other (.startOnForward started), seq => seq = started
  | .other (.heartbeat request), seq =>
      (me.val : Int) ≠ request.id ∧ server.view ≤ request.view ∧ (request.slots seq).isSome
  | .other (.heartbeatReply response), seq => (response.slots seq).isSome
  | _, _ => False

/-- A write through a pointer to a stored slot adds nothing. -/
theorem addsKeys_pointed {server : PaxosImpl} {seq : Int} (slot : PaxosSlot)
    (stored : (server.slots seq).isSome) :
    AddsKeys (fun _ => False) server.slots (server.setSlot seq slot).slots := by
  intro other
  refine (addsKeys_update server.slots seq slot other).trans ⟨fun kept => .inl ?_, fun kept => .inl ?_⟩
  · rcases kept with before | same
    · exact before
    · rw [show other = seq from same]
      exact stored
  · exact kept.resolve_right id

theorem HandlerCall.adds_run (server : PaxosImpl) (me : Fin n) {call : HandlerCall}
    (pointed : ∀ seq ∈ call.pointsTo, (server.slots seq).isSome) :
    AddsKeys (call.adds me server) server.slots (call.run me server).slots := by
  cases call with
  | elect request => exact .of_same (PaxosImpl.elect_slots server request) fun _ => id
  | accept request => exact (PaxosImpl.checked_accept server me request).adds
  | other call =>
      cases call with
      | prepare request => exact (PaxosImpl.checked_prepare server me request).adds
      | learn request committed => exact (PaxosImpl.checked_learn server me request committed).adds
      | start seq => exact (PaxosImpl.checked_start server me seq).adds
      | startOnForward seq =>
          have added : ((HandlerCall.other (.startOnForward seq)).run me server).slots =
              (server.addSlots seq).slots := congrArg PaxosImpl.slots (server.startOnForward_server me seq)
          rw [added]
          exact addsKeys_update server.slots seq _
      | heartbeat request => exact PaxosImpl.heartbeat_adds server me request
      | heartbeatReply response => exact PaxosImpl.copyDecided_adds server response.slots
      | raiseNumber seq => exact addsKeys_pointed _ (pointed seq rfl)
      | noteHighestN seq highestN => exact addsKeys_pointed _ (pointed seq rfl)
      | adoptAccepted view => exact .of_same (PaxosImpl.raiseView_slots server view) fun _ => id
      | detectLeaderFailure =>
          exact .of_same (PaxosImpl.detectLeaderFailure_slots server me) fun _ => id
      | quietPeriodEnds => exact .of_same rfl fun _ => id
      | concludeElection target tally =>
          exact .of_same (concludeElection_slots n server target tally) fun _ => id

theorem HandlerCall.lowestSlot (server : PaxosImpl) (me : Fin n) (call : HandlerCall) :
    (call.run me server).lowestSlot = server.lowestSlot := by
  cases call with
  | elect request => exact (PaxosImpl.elect_quiet server request).settles.lowestSlot
  | accept request =>
      rcases server.accept_outcomes me request with same | ⟨_, _, _, _, quiet⟩ | ⟨_, _, _, accepted⟩
      · exact congrArg (fun result => result.1.lowestSlot) same
      · exact quiet.settles.lowestSlot
      · exact accepted.lowestSlot
  | other call =>
      cases call with
      | prepare request => exact (PaxosImpl.prepare_quiet server me request).settles.lowestSlot
      | learn request committed => exact (PaxosImpl.learn_settles server me request committed).lowestSlot
      | start seq => exact (PaxosImpl.start_quiet server me seq).settles.lowestSlot
      | startOnForward seq => exact (PaxosImpl.startOnForward_quiet server me seq).settles.lowestSlot
      | heartbeat request => exact (PaxosImpl.heartbeat_settles server me request).lowestSlot
      | adoptAccepted view => exact (PaxosImpl.quiet_raiseView server view).settles.lowestSlot
      | detectLeaderFailure => exact (PaxosImpl.detectLeaderFailure_quiet server me).settles.lowestSlot
      | concludeElection target tally =>
          by_cases won : (Paxos.concludeElection n server target tally).2 = .won
          · exact (elects_of_won won).lowestSlot
          · exact (concludeElection_quiet won).settles.lowestSlot
      | heartbeatReply response | raiseNumber seq | noteHighestN seq highestN | quietPeriodEnds => rfl

/-- `Forget` of one peer's reply, or a handler or thread beside it. -/
inductive SlotStep (n : Nat) where
  | forget (peer : Fin n) (peerDone : Int)
  | handle (call : HandlerCall)

/-- A write through a pointer to a slot that `Forget` has erased changes no map and is no step here. -/
def SlotStep.run (me : Fin n) (server : PaxosImpl) : SlotStep n → Option PaxosImpl
  | .forget peer peerDone => server.forget peer peerDone
  | .handle call =>
      if ∀ seq ∈ call.pointsTo, (server.slots seq).isSome then some (call.run me server) else none

/-- What the calls without a check of the sequence number must bring: no slot below the lowest one. -/
def SlotStep.Uncollected (me : Fin n) (server : PaxosImpl) : SlotStep n → Prop
  | .handle (.other (.startOnForward seq)) => server.lowestSlot ≤ seq
  | .handle (.other (.heartbeat request)) => (me.val : Int) ≠ request.id → server.view ≤ request.view →
      ∀ seq, (request.slots seq).isSome → server.lowestSlot ≤ seq
  | .handle (.other (.heartbeatReply response)) =>
      ∀ seq, (response.slots seq).isSome → server.lowestSlot ≤ seq
  | _ => True

theorem HandlerCall.adds_above_iff (server : PaxosImpl) (me : Fin n) (call : HandlerCall) :
    (∀ seq, call.adds me server seq → server.lowestSlot ≤ seq) ↔
      (SlotStep.handle call).Uncollected me server := by
  have checked (seq : Int) :
      ∀ other, server.lowestSlot ≤ seq ∧ other = seq → server.lowestSlot ≤ other := by
    rintro other ⟨above, rfl⟩
    exact above
  have nothing : ∀ seq, False → server.lowestSlot ≤ seq := fun _ => False.elim
  cases call with
  | elect request => exact iff_of_true nothing trivial
  | accept request => exact iff_of_true (checked request.seq) trivial
  | other call =>
      cases call with
      | prepare request => exact iff_of_true (checked request.seq) trivial
      | learn request committed => exact iff_of_true (checked request.seq) trivial
      | start seq => exact iff_of_true (checked seq) trivial
      | startOnForward seq => exact forall_eq
      | heartbeat request =>
          constructor
          · intro above other current seq received
            exact above seq ⟨other, current, received⟩
          · rintro above seq ⟨other, current, received⟩
            exact above other current seq received
      | heartbeatReply response => exact Iff.rfl
      | _ => exact iff_of_true nothing trivial

/-- The lowest slot never becomes smaller, no slot is below it, and `Forget` erases exactly the slots up
to the least done entry. -/
def KeepsCollected (before : PaxosImpl) (step : SlotStep n) (after : PaxosImpl) : Prop :=
  before.lowestSlot ≤ after.lowestSlot ∧ ClearBelow after.lowestSlot after.slots ∧
    match step with
    | .forget _ _ => ∀ seq, after.slots seq =
        if ∀ entry ∈ after.done, seq ≤ entry then none else before.slots seq
    | .handle _ => True

theorem forget_keepsCollected {server next : PaxosImpl} (clear : ClearBelow server.lowestSlot server.slots)
    {peer : Fin n} {peerDone : Int} (taken : server.forget peer peerDone = some next) :
    KeepsCollected server (.forget peer peerDone) next := by
  obtain ⟨nonempty, raised, erased⟩ := PaxosImpl.forget_cases taken
  refine ⟨raised ▸ le_max_left _ _, erased ▸ clearBelow_eraseBelow _ _, fun seq => ?_⟩
  rw [erased, raised, clear.eraseBelow_max]
  exact if_congr (Int.lt_add_one_iff.trans (le_minDone_iff nonempty seq)) rfl rfl

theorem keepsCollected_iff {me : Fin n} {server next : PaxosImpl}
    (clear : ClearBelow server.lowestSlot server.slots) {step : SlotStep n}
    (taken : step.run me server = some next) :
    KeepsCollected server step next ↔ step.Uncollected me server := by
  cases step with
  | forget peer peerDone => exact iff_of_true (forget_keepsCollected clear taken) trivial
  | handle call =>
      obtain ⟨pointed, same⟩ := Option.ite_none_right_eq_some.mp taken
      cases same
      have above := clear.adds_iff (call.adds_run server me pointed)
      unfold KeepsCollected
      rw [call.lowestSlot server me, above, call.adds_above_iff server me]
      exact ⟨fun keeps => keeps.2.1, fun uncollected => ⟨le_rfl, uncollected, trivial⟩⟩

/-- Along every run of a server the collected slots stay collected exactly when no call without a check
brings a slot below the lowest one. -/
theorem keepsCollected_iff_uncollected {me : Fin n} {steps : List (SlotStep n)} {final : PaxosImpl}
    (ran : run (SlotStep.run me) (PaxosImpl.initial n) steps = some final) :
    EveryStep (SlotStep.run me) KeepsCollected (PaxosImpl.initial n) steps ↔
      Guarded (SlotStep.run me) (SlotStep.Uncollected me) (PaxosImpl.initial n) steps := by
  refine everyStep_iff_guarded_of_invariant (fun server => ClearBelow server.lowestSlot server.slots) ?_ ?_
    (fun _ _ => rfl) ran
  · intro server step next clear taken
    exact keepsCollected_iff clear taken
  · intro server step next clear uncollected taken
    exact ((keepsCollected_iff clear taken).mpr uncollected).2.1

/-- Both servers report slot 1 as done, and then a handler runs. -/
def collectedThen (me peer : Fin n) (call : HandlerCall) : List (SlotStep n) :=
  [.forget me 1, .forget peer 1, .handle call]

/-- Slot 1 is proposed, collected, and then asked for again. -/
def proposedCollected (me peer : Fin n) : List (SlotStep n) :=
  .handle (.other (.startOnForward 1)) ::
    .handle (.other (.heartbeat ⟨peer.val, 0, [-1, -1], fun _ => none⟩)) ::
    collectedThen me peer (.other (.prepare ⟨1, 5⟩))

theorem keepsCollected_iff_uncollected_refused : ∃ final : PaxosImpl, final.lowestSlot = 2 ∧
    run (SlotStep.run (1 : Fin 2)) (PaxosImpl.initial 2) (proposedCollected 1 0) = some final ∧
      EveryStep (SlotStep.run (1 : Fin 2)) KeepsCollected (PaxosImpl.initial 2) (proposedCollected 1 0) := by
  obtain ⟨final, ran, lowest⟩ := (Option.any_eq_true _ _).mp (by decide +kernel :
    (run (SlotStep.run (1 : Fin 2)) (PaxosImpl.initial 2) (proposedCollected 1 0)).any
      (fun final => decide (final.lowestSlot = 2)) = true)
  refine ⟨final, of_decide_eq_true lowest, ran, (keepsCollected_iff_uncollected ran).mpr ?_⟩
  have started : (0 : Int) ≤ 1 := by decide
  have quiet (server : PaxosImpl) : (SlotStep.handle (n := 2) (.other (.heartbeat
      ⟨0, 0, [-1, -1], fun _ => none⟩))).Uncollected 1 server := by
    intro _ _ seq received
    cases received
  exact ⟨started, fun _ _ => ⟨quiet _, fun _ _ => ⟨trivial, fun _ _ => ⟨trivial, fun _ _ =>
    ⟨trivial, fun _ _ => trivial⟩⟩⟩⟩⟩

/-- The leader has collected less; it sends slot 1 once more, and the server stores it again. -/
theorem collected_returns : ¬ ∀ (n : Nat) (me : Fin n) (steps : List (SlotStep n)) (final : PaxosImpl),
    run (SlotStep.run me) (PaxosImpl.initial n) steps = some final →
      ∀ seq, seq < final.lowestSlot → final.slots seq = none := by
  intro clear
  let again : HandlerCall := .other (.heartbeat ⟨0, 0, [-1, -1],
    fun seq => if seq = 1 then some { initSlot 0 with value := "x#SHARED" } else none⟩)
  obtain ⟨final, ran, returned⟩ := (Option.any_eq_true _ _).mp (by decide +kernel :
    (run (SlotStep.run (1 : Fin 2)) (PaxosImpl.initial 2) (collectedThen 1 0 again)).any
      (fun final => decide (1 < final.lowestSlot ∧ (final.slots 1).isSome)) = true)
  obtain ⟨below, stored⟩ := of_decide_eq_true returned
  rw [clear 2 1 _ final ran 1 below] at stored
  cases stored

end Chubby.Paxos
