/-
This file proves that a server writes the decision of a slot once, whatever requests it handles.
-/

import Chubby.Paxos.Sections

namespace Chubby.Paxos

open Chubby.Library

variable {n : Nat}

namespace PaxosImpl

/-- A slot stays in the map, and its status and value stay or turn from undecided to decided. -/
structure WritesOnce (before after : PaxosImpl) : Prop where
  present : ∀ seq, before.slots seq ≠ none → after.slots seq ≠ none
  written : ∀ seq, ((after.slotAt seq).status = (before.slotAt seq).status ∧
      (after.slotAt seq).value = (before.slotAt seq).value) ∨
    ((before.slotAt seq).status ≠ .decided ∧ (after.slotAt seq).status = .decided)

theorem WritesOnce.trans {first second third : PaxosImpl} (one : WritesOnce first second)
    (two : WritesOnce second third) : WritesOnce first third := by
  refine ⟨fun seq there => two.present seq (one.present seq there), fun seq => ?_⟩
  obtain ⟨status, value⟩ | ⟨open_, decides⟩ := one.written seq
  · rw [← status, ← value]
    exact two.written seq
  · obtain ⟨status, _⟩ | ⟨again, _⟩ := two.written seq
    · exact .inr ⟨open_, status.trans decides⟩
    · exact absurd decides again

theorem once_of_slots {before after : PaxosImpl} (same : after.slots = before.slots) :
    WritesOnce before after := by
  refine ⟨fun seq there => by rw [same]; exact there, fun seq => .inl ?_⟩
  unfold slotAt
  rw [same]
  cases before.slots seq <;> simp [initSlot]

theorem WritesOnce.refl (server : PaxosImpl) : WritesOnce server server := once_of_slots rfl

/-- Writing one slot is allowed when the slot itself changes this way. -/
theorem once_setSlot {server : PaxosImpl} {seq : Int} {slot : PaxosSlot}
    (written : (slot.status = (server.slotAt seq).status ∧ slot.value = (server.slotAt seq).value) ∨
      ((server.slotAt seq).status ≠ .decided ∧ slot.status = .decided)) :
    WritesOnce server (server.setSlot seq slot) := by
  constructor
  · intro query there
    show Function.update server.slots seq (some slot) query ≠ none
    by_cases same : query = seq
    · simp [same]
    · rw [Function.update_of_ne same]
      exact there
  · intro query
    rw [slotAt_setSlot]
    split
    next same =>
      rw [same]
      exact written
    · exact .inl ⟨rfl, rfl⟩

theorem once_addSlots (server : PaxosImpl) (seq : Int) : WritesOnce server (server.addSlots seq) :=
  once_setSlot (.inl ⟨rfl, rfl⟩)

theorem once_raiseHighestSlot (server : PaxosImpl) (seq : Int) :
    WritesOnce server (server.raiseHighestSlot seq) := by
  unfold raiseHighestSlot
  split <;> exact once_of_slots rfl

theorem once_copyDecided (server : PaxosImpl) (received : Int → Option PaxosSlot) :
    WritesOnce server (server.copyDecided received) := by
  constructor
  · intro seq there
    unfold copyDecided
    dsimp only
    cases received seq with
    | none => exact there
    | some other => simp
  · intro seq
    rw [slotAt_copyDecided]
    cases received seq with
    | none => exact .inl ⟨rfl, rfl⟩
    | some other =>
        dsimp only
        split
        next undecided => exact .inr ⟨undecided, rfl⟩
        · exact .inl ⟨rfl, rfl⟩

theorem once_electStored (server : PaxosImpl) (request : ElectRequest) :
    WritesOnce server (server.electStored request).1 := once_of_slots (electKeeping_slots ..)

theorem once_prepare (server : PaxosImpl) (me : Fin n) (request : PrepareRequest) :
    WritesOnce server (server.prepare me request).1 := by
  have added := once_addSlots server request.seq
  cases server.prepare_cases me request with
  | collected _ same => rw [same]; exact .refl server
  | promises _ _ same => rw [same]; exact added.trans (once_setSlot (.inl ⟨rfl, rfl⟩))
  | rejects _ _ same => rw [same]; exact added

theorem once_learn (server : PaxosImpl) (me : Fin n) (request : DecideRequest) (committed : Bool) :
    WritesOnce server (server.learn me request committed).1 := by
  have added := (once_addSlots server request.seq).trans
    (once_raiseHighestSlot (server.addSlots request.seq) request.seq)
  cases server.learn_cases me request committed with
  | collected _ same => rw [same]; exact .refl server
  | settled _ _ same => rw [same]; exact added
  | decides _ undecided paxosDb same =>
      have opened : (((server.addSlots request.seq).raiseHighestSlot request.seq).slotAt
          request.seq).status ≠ .decided := by
        rw [touched_slotAt]
        exact undecided
      have marked := added.trans (once_setSlot (.inr ⟨opened, rfl⟩) : WritesOnce _
        (((server.addSlots request.seq).raiseHighestSlot request.seq).markDecided request.seq
          request.value))
      rw [same]
      exact marked.trans (once_of_slots rfl)

theorem once_heartbeat (server : PaxosImpl) (me : Fin n) (request : HeartbeatRequest) :
    WritesOnce server (server.heartbeat me request).1 := by
  cases server.heartbeat_cases me request with
  | own _ same => rw [same]; exact once_of_slots rfl
  | refused _ same => rw [same]; exact .refl server
  | processed _ _ same =>
      have synced : WritesOnce server (server.syncedWith request) :=
        once_of_slots (syncedWith_slots server request)
      rw [same]
      exact synced.trans (once_copyDecided _ request.slots)

theorem once_start (server : PaxosImpl) (me : Fin n) (seq : Int) :
    WritesOnce server (server.start me seq).1 := by
  obtain ⟨_, same⟩ | ⟨_, same⟩ := server.start_server me seq <;> rw [same]
  · exact .refl server
  · exact once_addSlots server seq

theorem once_startOnForward (server : PaxosImpl) (me : Fin n) (seq : Int) :
    WritesOnce server (server.startOnForward me seq).1 := by
  rw [startOnForward_server]
  exact once_addSlots server seq

theorem once_detectLeaderFailure (server : PaxosImpl) (me : Fin n) :
    WritesOnce server (server.detectLeaderFailure me).1 :=
  once_of_slots (detectLeaderFailure_slots server me)

end PaxosImpl

/-- Every handler and thread writes a decision once. -/
theorem ServerCall.once (server : PaxosImpl) (me : Fin n) (call : ServerCall) :
    server.WritesOnce (call.run me server) := by
  cases call with
  | prepare request => exact PaxosImpl.once_prepare server me request
  | learn request committed => exact PaxosImpl.once_learn server me request committed
  | heartbeat request => exact PaxosImpl.once_heartbeat server me request
  | heartbeatReply response => exact PaxosImpl.once_copyDecided server response.slots
  | start seq => exact PaxosImpl.once_start server me seq
  | startOnForward seq => exact PaxosImpl.once_startOnForward server me seq
  | raiseNumber seq => exact PaxosImpl.once_setSlot (.inl ⟨rfl, rfl⟩)
  | noteHighestN seq highestN => exact PaxosImpl.once_setSlot (.inl ⟨rfl, rfl⟩)
  | adoptAccepted view => exact PaxosImpl.once_of_slots (PaxosImpl.raiseView_slots server view)
  | detectLeaderFailure => exact PaxosImpl.once_detectLeaderFailure server me
  | quietPeriodEnds => exact PaxosImpl.once_of_slots rfl
  | concludeElection target tally => exact PaxosImpl.once_of_slots (concludeElection_slots ..)

/-- Each section of an Accept touches no status and no value. -/
theorem Sections.step_once {me : Fin n} {s next : Sections} {label : Section}
    (taken : s.step me label = some next) : s.server.WritesOnce next.server := by
  cases label with
  | elect request =>
      cases taken
      exact PaxosImpl.once_electStored s.server request
  | enter request =>
      cases taken
      unfold enter
      split
      · exact .refl s.server
      · exact (PaxosImpl.once_addSlots s.server request.seq).trans
          (PaxosImpl.once_of_slots (PaxosImpl.raiseView_slots _ request.view))
  | store k =>
      unfold step store at taken
      dsimp only at taken
      split at taken
      · cases taken
      · split at taken
        · split at taken
          · split at taken <;> cases taken
            · exact PaxosImpl.once_setSlot (.inl ⟨rfl, rfl⟩)
            · exact .refl s.server
          · cases taken
        · cases taken
  | raise k =>
      unfold step raise at taken
      dsimp only at taken
      split at taken
      · cases taken
      · split at taken <;> cases taken
        exact PaxosImpl.once_of_slots (PaxosImpl.raiseAccepted_slots _ _)
  | answer k =>
      unfold step answer at taken
      dsimp only at taken
      split at taken
      · cases taken
      · split at taken <;> cases taken <;> exact .refl s.server
  | other call =>
      cases taken
      exact call.once s.server me

/-- The slot is in the map with status DECIDED and this value. -/
def PaxosImpl.HasDecided (server : PaxosImpl) (seq : Int) (value : String) : Prop :=
  ∃ slot, server.slots seq = some slot ∧ slot.status = .decided ∧ slot.value = value

theorem PaxosImpl.WritesOnce.keeps {before after : PaxosImpl} (once : before.WritesOnce after)
    {seq : Int} {value : String} (decided : before.HasDecided seq value) :
    after.HasDecided seq value := by
  obtain ⟨slot, found, status, same⟩ := decided
  have there : before.slotAt seq = slot := by simp [slotAt, found]
  cases later : after.slots seq with
  | none => exact absurd later (once.present seq (by simp [found]))
  | some kept =>
      have here : after.slotAt seq = kept := by simp [slotAt, later]
      have written := once.written seq
      rw [there, here, status, same] at written
      exact ⟨kept, later, written.resolve_right fun both => both.1 rfl⟩

/-- The step writes the value of a slot only when it makes the slot decided. -/
def DecidesWhenWriting (before : Sections) (_ : Section) (after : Sections) : Prop :=
  ∀ seq, (after.server.slotAt seq).value ≠ (before.server.slotAt seq).value →
    (before.server.slotAt seq).status ≠ .decided ∧ (after.server.slotAt seq).status = .decided

theorem PaxosImpl.WritesOnce.decides {before after : Sections} {label : Section}
    (once : before.server.WritesOnce after.server) : DecidesWhenWriting before label after := by
  intro seq changed
  exact (once.written seq).resolve_left fun ⟨_, value⟩ => changed value

/-- Along every run of a server each decision stays, and a value is written only by deciding. -/
theorem decisions_writeOnce {me : Fin n} {s final : Sections} {labels : List Section}
    (ran : run (Sections.step me) s labels = some final) :
    (∀ seq value, s.server.HasDecided seq value → final.server.HasDecided seq value) ∧
      EveryStep (Sections.step me) DecidesWhenWriting s labels := by
  induction labels generalizing s with
  | nil =>
      cases ran
      exact ⟨fun _ _ decided => decided, trivial⟩
  | cons label rest ih =>
      obtain ⟨next, taken, later⟩ := run_cons_eq_some.mp ran
      obtain ⟨kept, every⟩ := ih later
      have once := Sections.step_once taken
      refine ⟨fun seq value decided => kept seq value (once.keeps decided), fun other again => ?_⟩
      rw [taken] at again
      cases again
      exact ⟨once.decides, every⟩

/-- A second Learn and a heartbeat with another value leave the first decision of the slot. -/
def conflictingRequests : List Section :=
  [.other (.learn ⟨1, "x#SHARED"⟩ true), .other (.learn ⟨1, "x#FREE"⟩ true),
    .other (.heartbeat ⟨1, 0, [], fun _ => some { initSlot 0 with value := "x#EXCLUSIVE" }⟩)]

theorem decisions_writeOnce_conflicting :
    ∃ middle final : Sections, middle.server.HasDecided 1 "x#SHARED" ∧
      run (Sections.step (0 : Fin 2)) middle (conflictingRequests.drop 1) = some final ∧
      final.server.HasDecided 1 "x#SHARED" ∧
      EveryStep (Sections.step (0 : Fin 2)) DecidesWhenWriting middle (conflictingRequests.drop 1) := by
  obtain ⟨middle, one, learned⟩ : ∃ middle, run (Sections.step (0 : Fin 2)) (Sections.initial 2)
      (conflictingRequests.take 1) = some middle ∧ middle.server.HasDecided 1 "x#SHARED" :=
    ⟨_, rfl, _, rfl, rfl, rfl⟩
  obtain ⟨final, two⟩ : ∃ final, run (Sections.step (0 : Fin 2)) middle
      (conflictingRequests.drop 1) = some final := ⟨_, rfl⟩
  obtain ⟨kept, every⟩ := decisions_writeOnce two
  exact ⟨middle, final, learned, two, kept 1 "x#SHARED" learned, every⟩

end Chubby.Paxos
