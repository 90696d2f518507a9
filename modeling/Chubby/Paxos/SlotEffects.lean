/-
This file says what each step does to the promised number and the accepted pair of every slot.
-/

import Chubby.Paxos.History

namespace Chubby.Paxos

variable {n : Nat}

/-- The pair that a Prepare reply reports; a slot with an empty accepted value has none. -/
def PaxosSlot.acceptedPair (slot : PaxosSlot) : Option (Int × String) :=
  if slot.vA = "" then none else some (slot.nA, slot.vA)

/-- What one step does to one slot of a server. -/
inductive SlotEffect where
  | untouched
  | stamped (view : Int)
  | promised (view number : Int)
  | voted (view : Int) (value : String)
  deriving DecidableEq, Repr

namespace SlotEffect

/-- The view that `addSlots` leaves in the accepted number. -/
def stamp : SlotEffect → Option Int
  | .untouched | .voted _ _ => none
  | .stamped view | .promised view _ => some view

def nP : SlotEffect → Int → Int
  | .promised _ number, _ => number
  | .untouched, before | .stamped _, before | .voted _ _, before => before

def pair : SlotEffect → Option (Int × String) → Option (Int × String)
  | .untouched, before => before
  | .stamped view, before | .promised view _, before => before.map fun pair => (view, pair.2)
  | .voted view value, _ => if value = "" then none else some (view, value)

theorem pair_of_stamp {effect : SlotEffect} {view : Int} (stamped : effect.stamp = some view)
    (before : Option (Int × String)) :
    effect.pair before = before.map fun pair => (view, pair.2) := by
  cases effect <;> cases stamped <;> rfl

/-- A pair after the effect is an old one, stamped or not, or that of a vote. -/
theorem pair_eq_some {effect : SlotEffect} {before : Option (Int × String)} {nA : Int} {vA : String}
    (after : effect.pair before = some (nA, vA)) :
    (effect = .untouched ∧ before = some (nA, vA)) ∨
    (effect.stamp = some nA ∧ ∃ old, before = some (old, vA)) ∨ effect = .voted nA vA := by
  cases effect with
  | untouched => exact .inl ⟨rfl, after⟩
  | stamped view =>
      obtain ⟨⟨old, text⟩, found, same⟩ := Option.map_eq_some_iff.mp after
      cases same
      exact .inr (.inl ⟨rfl, old, found⟩)
  | promised view number =>
      obtain ⟨⟨old, text⟩, found, same⟩ := Option.map_eq_some_iff.mp after
      cases same
      exact .inr (.inl ⟨rfl, old, found⟩)
  | voted view value =>
      obtain ⟨_, same⟩ := Option.ite_none_left_eq_some.mp after
      cases same
      exact .inr (.inr rfl)

/-- The effect reaches one slot of a server and leaves the others. -/
def only (seq : Int) (effect : SlotEffect) (query : Int) : SlotEffect :=
  if query = seq then effect else .untouched

def none (_ : Int) : SlotEffect := .untouched

end SlotEffect

namespace PaxosImpl

def acceptedPair (server : PaxosImpl) (seq : Int) : Option (Int × String) :=
  (server.slotAt seq).acceptedPair

/-- The tests of `Accept` let the request through. -/
def Allows (server : PaxosImpl) (request : AcceptRequest) : Prop :=
  server.lowestSlot ≤ request.seq ∧ server.view ≤ request.view

instance (server : PaxosImpl) (request : AcceptRequest) : Decidable (server.Allows request) :=
  inferInstanceAs (Decidable (_ ∧ _))

/-- A handler that tests for a collected slot stamps the slot of its request. -/
def touchEffect (server : PaxosImpl) (seq : Int) : Int → SlotEffect :=
  if server.lowestSlot ≤ seq then .only seq (.stamped server.view) else .none

def prepareEffect (server : PaxosImpl) (request : PrepareRequest) : Int → SlotEffect :=
  if server.lowestSlot ≤ request.seq then
    .only request.seq (if request.proposalNumber > (server.slotAt request.seq).nP then
      .promised server.view request.proposalNumber else .stamped server.view)
  else .none

def acceptEffect (server : PaxosImpl) (request : AcceptRequest) : Int → SlotEffect :=
  if server.Allows request then .only request.seq (.voted request.view request.value)
  else server.touchEffect request.seq

/-- A follower raises its view before it stamps the received slots. -/
def heartbeatEffect (server : PaxosImpl) (me : Fin n) (request : HeartbeatRequest) (query : Int) :
    SlotEffect :=
  if (me.val : Int) ≠ request.id ∧ server.view ≤ request.view ∧ (request.slots query).isSome then
    .stamped request.view
  else .untouched

def copyEffect (server : PaxosImpl) (received : Int → Option PaxosSlot) (query : Int) : SlotEffect :=
  if (received query).isSome then .stamped server.view else .untouched

/-- A step changes the slots of a server as the effects say, and stamps no view out of range. -/
structure Follows (before after : PaxosImpl) (effect : Int → SlotEffect) : Prop where
  nP : ∀ seq, (after.slotAt seq).nP = (effect seq).nP (before.slotAt seq).nP
  pair : ∀ seq, after.acceptedPair seq = (effect seq).pair (before.acceptedPair seq)
  range : ∀ seq view, (effect seq).stamp = some view → before.view ≤ view ∧ view ≤ after.view

theorem acceptedPair_of_slots {before after : PaxosImpl} (same : after.slots = before.slots)
    (seq : Int) : after.acceptedPair seq = before.acceptedPair seq := by
  unfold acceptedPair slotAt
  rw [same]
  cases before.slots seq <;> rfl

theorem nP_of_slots {before after : PaxosImpl} (same : after.slots = before.slots) (seq : Int) :
    (after.slotAt seq).nP = (before.slotAt seq).nP := by
  unfold slotAt
  rw [same]
  cases before.slots seq <;> rfl

theorem follows_of_slots {before after : PaxosImpl} (same : after.slots = before.slots) :
    Follows before after .none :=
  ⟨nP_of_slots same, acceptedPair_of_slots same, fun _ _ stamped => by cases stamped⟩

theorem Follows.refl (server : PaxosImpl) : Follows server server .none := follows_of_slots rfl

/-- A step that writes one slot has the effect that this slot shows. -/
theorem follows_write {before after : PaxosImpl} {seq : Int} {slot : PaxosSlot} {effect : SlotEffect}
    (written : after.slots = Function.update before.slots seq (some slot))
    (nP : slot.nP = effect.nP (before.slotAt seq).nP)
    (pair : slot.acceptedPair = effect.pair (before.acceptedPair seq))
    (range : ∀ view, effect.stamp = some view → before.view ≤ view ∧ view ≤ after.view) :
    Follows before after (.only seq effect) := by
  have slots : after.slots = (before.setSlot seq slot).slots := written
  constructor
  · intro query
    rw [nP_of_slots slots, slotAt_setSlot]
    unfold SlotEffect.only
    split
    next same => rw [same, nP]
    · rfl
  · intro query
    rw [acceptedPair_of_slots slots]
    unfold acceptedPair SlotEffect.only
    rw [slotAt_setSlot]
    split
    next same =>
      rw [same]
      exact pair
    · rfl
  · intro query view stamped
    unfold SlotEffect.only at stamped
    split at stamped
    · exact range view stamped
    · cases stamped

/-- A slot whose promise and pair stay may change its other fields. -/
theorem follows_setSlot {server : PaxosImpl} {seq : Int} {slot : PaxosSlot}
    (nP : slot.nP = (server.slotAt seq).nP) (pair : slot.acceptedPair = server.acceptedPair seq) :
    Follows server (server.setSlot seq slot) .none := by
  have silent : SlotEffect.only seq .untouched = .none := by
    funext query
    exact ite_self _
  rw [← silent]
  exact follows_write rfl nP pair fun _ stamped => by cases stamped

theorem acceptedPair_stamp (slot : PaxosSlot) (view : Int) :
    ({ slot with nA := view } : PaxosSlot).acceptedPair =
      slot.acceptedPair.map fun pair => (view, pair.2) := by
  unfold PaxosSlot.acceptedPair
  dsimp only
  split <;> rfl

/-- A step that stamps one slot may also change the fields that no Prepare reply reports. -/
theorem follows_stamp {before after : PaxosImpl} {seq : Int} {slot : PaxosSlot}
    (written : after.slots = Function.update before.slots seq (some slot))
    (nP : slot.nP = (before.slotAt seq).nP) (nA : slot.nA = before.view)
    (vA : slot.vA = (before.slotAt seq).vA) (view : before.view ≤ after.view) :
    Follows before after (.only seq (.stamped before.view)) := by
  refine follows_write written nP ?_ fun stamp stamped => ?_
  · have stamp := acceptedPair_stamp (before.slotAt seq) before.view
    unfold PaxosSlot.acceptedPair at stamp ⊢
    rw [nA, vA]
    exact stamp
  · cases stamped
    exact ⟨le_rfl, view⟩

theorem follows_addSlots (server : PaxosImpl) (seq : Int) :
    Follows server (server.addSlots seq) (.only seq (.stamped server.view)) :=
  follows_stamp rfl rfl rfl rfl le_rfl

theorem start_follows (server : PaxosImpl) (me : Fin n) (seq : Int) :
    Follows server (server.start me seq).1 (server.touchEffect seq) := by
  unfold touchEffect
  obtain ⟨below, same⟩ | ⟨above, same⟩ := server.start_server me seq <;> rw [same]
  · rw [if_neg (Int.not_le.mpr below)]
    exact .refl server
  · rw [if_pos above]
    exact follows_addSlots server seq

theorem startOnForward_follows (server : PaxosImpl) (me : Fin n) (seq : Int) :
    Follows server (server.startOnForward me seq).1 (.only seq (.stamped server.view)) := by
  rw [startOnForward_server]
  exact follows_addSlots server seq

theorem prepare_follows (server : PaxosImpl) (me : Fin n) (request : PrepareRequest) :
    Follows server (server.prepare me request).1 (server.prepareEffect request) := by
  unfold prepareEffect
  cases server.prepare_cases me request with
  | collected below same =>
      rw [same, if_neg (Int.not_le.mpr below)]
      exact .refl server
  | promises above larger same =>
      rw [same, if_pos above, if_pos larger, slotAt_addSlots_self]
      refine follows_write (Function.update_idem _ _ _) rfl ?_ fun view stamped => ?_
      · exact acceptedPair_stamp (server.slotAt request.seq) server.view
      · cases stamped
        exact ⟨le_rfl, le_rfl⟩
  | rejects above smaller same =>
      rw [same, if_pos above, if_neg (Int.not_lt.mpr smaller)]
      exact follows_addSlots server request.seq

theorem raiseView_mono (server : PaxosImpl) (view : Int) : server.view ≤ (server.raiseView view).view := by
  rw [raiseView_view]
  exact le_max_left _ _

theorem raiseAccepted_slots (server : PaxosImpl) (seq : Int) :
    (server.raiseAccepted seq).slots = server.slots := by
  unfold raiseAccepted
  split <;> rfl

/-- The slots of a server that has accepted a value for one of them. -/
theorem stored_slots (server : PaxosImpl) (request : AcceptRequest) (slot : PaxosSlot) :
    ((((server.addSlots request.seq).raiseView request.view).setSlot request.seq slot).raiseAccepted
      request.seq).slots = Function.update server.slots request.seq (some slot) := by
  rw [raiseAccepted_slots]
  show Function.update ((server.addSlots request.seq).raiseView request.view).slots _ _ = _
  rw [raiseView_slots]
  exact Function.update_idem _ _ _

/-- The slots of a server that `Learn` has touched. -/
theorem touched_slots (server : PaxosImpl) (seq : Int) :
    ((server.addSlots seq).raiseHighestSlot seq).slots =
      Function.update server.slots seq (some { server.slotAt seq with nA := server.view }) :=
  raiseHighestSlot_slots _ _

/-- The slots of a server that has learned a value for one of them. -/
theorem marked_slots (server : PaxosImpl) (seq : Int) (value : String) :
    (((server.addSlots seq).raiseHighestSlot seq).markDecided seq value).slots =
      Function.update server.slots seq (some { server.slotAt seq with
        nA := server.view, status := .decided, value := value }) := by
  show Function.update ((server.addSlots seq).raiseHighestSlot seq).slots seq _ = _
  rw [touched_slotAt, touched_slots]
  exact Function.update_idem _ _ _

theorem accept_follows (server : PaxosImpl) (me : Fin n) (request : AcceptRequest) :
    Follows server (server.accept me request).1 (server.acceptEffect request) := by
  unfold acceptEffect touchEffect
  cases server.accept_cases me request with
  | collected below same =>
      rw [same, if_neg fun allowed => absurd allowed.1 (Int.not_le.mpr below),
        if_neg (Int.not_le.mpr below)]
      exact .refl server
  | accepts above current same =>
      rw [same, if_pos (show server.Allows request from ⟨above, current⟩)]
      refine follows_write (stored_slots server request _) rfl rfl fun view stamped => ?_
      cases stamped
  | rejects above behind same =>
      rw [same, if_neg fun allowed => absurd allowed.2 (Int.not_le.mpr behind), if_pos above]
      have slots : ((server.addSlots request.seq).raiseView request.view).slots =
          Function.update server.slots request.seq
            (some { server.slotAt request.seq with nA := server.view }) :=
        raiseView_slots _ _
      exact follows_stamp slots rfl rfl rfl (raiseView_mono (server.addSlots request.seq) request.view)

theorem learn_follows (server : PaxosImpl) (me : Fin n) (request : DecideRequest) (committed : Bool) :
    Follows server (server.learn me request committed).1 (server.touchEffect request.seq) := by
  have view : server.view ≤ ((server.addSlots request.seq).raiseHighestSlot request.seq).view :=
    ((quiet_addSlots server request.seq).trans
      (quiet_raiseHighestSlot (server.addSlots request.seq) request.seq)).settles.view
  unfold touchEffect
  cases server.learn_cases me request committed with
  | collected below same =>
      rw [same, if_neg (Int.not_le.mpr below)]
      exact .refl server
  | settled above _ same =>
      rw [same, if_pos above]
      exact follows_stamp (touched_slots server request.seq) rfl rfl rfl view
  | decides above _ paxosDb same =>
      rw [same, if_pos above]
      exact follows_stamp (marked_slots server request.seq request.value) rfl rfl rfl view

theorem copyDecided_follows (server : PaxosImpl) (received : Int → Option PaxosSlot) :
    Follows server (server.copyDecided received) (server.copyEffect received) := by
  constructor
  · intro seq
    unfold copyEffect
    rw [slotAt_copyDecided]
    cases received seq with
    | none => rfl
    | some other =>
        dsimp only
        split <;> rfl
  · intro seq
    unfold copyEffect acceptedPair
    rw [slotAt_copyDecided]
    cases received seq with
    | none => rfl
    | some other =>
        dsimp only
        split <;> exact acceptedPair_stamp (server.slotAt seq) server.view
  · intro seq view stamped
    unfold copyEffect at stamped
    split at stamped
    · cases stamped
      exact ⟨le_rfl, le_rfl⟩
    · cases stamped

theorem heartbeat_follows (server : PaxosImpl) (me : Fin n) (request : HeartbeatRequest) :
    Follows server (server.heartbeat me request).1 (server.heartbeatEffect me request) := by
  have unprocessed (refused : ¬ ((me.val : Int) ≠ request.id ∧ server.view ≤ request.view)) :
      server.heartbeatEffect me request = .none := by
    funext seq
    exact if_neg fun all => refused ⟨all.1, all.2.1⟩
  cases server.heartbeat_cases me request with
  | own own same =>
      rw [same, unprocessed fun processed => processed.1 own]
      exact follows_of_slots rfl
  | refused behind same =>
      rw [same, unprocessed fun processed => absurd processed.2 (Int.not_le.mpr behind)]
      exact .refl server
  | processed other reached same =>
      have raised : (server.syncedWith request).view = request.view := by
        rw [syncedWith_view]
        omega
      have copied := copyDecided_follows (server.syncedWith request) request.slots
      have effect : server.heartbeatEffect me request =
          copyEffect (server.syncedWith request) request.slots := by
        funext seq
        unfold heartbeatEffect copyEffect
        simp only [other, reached, raised, ne_eq, not_false_eq_true, true_and]
      have slots := syncedWith_slots server request
      rw [same, effect]
      constructor
      · intro seq
        rw [copied.nP]
        exact congrArg _ (nP_of_slots slots seq)
      · intro seq
        rw [copied.pair]
        exact congrArg _ (acceptedPair_of_slots slots seq)
      · intro seq view stamped
        have range := copied.range seq view stamped
        exact ⟨(raiseView_mono server request.view).trans range.1, range.2⟩

theorem electKeeping_slots (server : PaxosImpl) (view kept : Int) :
    (server.electKeeping view kept).1.slots = server.slots := by
  unfold electKeeping
  split
  · rfl
  · split <;> rfl

theorem elect_slots (server : PaxosImpl) (request : ElectRequest) :
    (server.elect request).1.slots = server.slots := server.electKeeping_slots request.view request.view

theorem detectLeaderFailure_slots (server : PaxosImpl) (me : Fin n) :
    (server.detectLeaderFailure me).1.slots = server.slots := by
  unfold detectLeaderFailure
  dsimp only
  split <;> rfl

end PaxosImpl

theorem concludeElection_slots (groupSize : Nat) (server : PaxosImpl) (target : Int)
    (tally : ElectTally) : (concludeElection groupSize server target tally).1.slots = server.slots := by
  unfold concludeElection
  split
  · dsimp only
    split <;> rfl
  · split
    · split
      · rfl
      · dsimp only
        split <;> rfl
    · rfl

namespace Cluster

/-- What the step of a label does to one slot of one server, read off the state before the step. -/
def effect (c : Cluster n) (label : Label n) (i : Fin n) : Int → SlotEffect :=
  let server := c.servers i
  match label with
  | .start j seq _ => if j = i then server.touchEffect seq else .none
  | .forward f =>
      match c.forwards[f]? with
      | some forward =>
          if forward.server = i then .only forward.seq (.stamped server.view) else .none
      | none => .none
  | .deliver k =>
      match c.msgs[k]? with
      | some (.prepareRequest _ j request) => if j = i then server.prepareEffect request else .none
      | some (.acceptRequest _ j request) => if j = i then server.acceptEffect request else .none
      | some (.learnRequest _ j request) => if j = i then server.touchEffect request.seq else .none
      | some (.forwardRequest _ j seq _) => if j = i then server.touchEffect seq else .none
      | some (.heartbeatRequest _ j request) =>
          if j = i then server.heartbeatEffect i request else .none
      | _ => .none
  | .receive k =>
      match c.msgs[k]? with
      | some (.heartbeatReply b j response) =>
          match c.beats[b]? with
          | some beat =>
              if beat.server = i ∧ j ≠ i then server.copyEffect response.slots else .none
          | none => .none
      | _ => .none
  | _ => .none

/-- Every server follows the effects of the label. -/
def StepFollows (c : Cluster n) (label : Label n) (c' : Cluster n) : Prop :=
  ∀ i, PaxosImpl.Follows (c.servers i) (c'.servers i) (c.effect label i)

end Cluster

/-- A step that writes one server follows the effects when that server does and the label names no
other one. -/
theorem follows_of_update {c c' : Cluster n} {label : Label n} {j : Fin n} {server : PaxosImpl}
    {effect : Int → SlotEffect} (written : c'.servers = Function.update c.servers j server)
    (own : PaxosImpl.Follows (c.servers j) server effect) (named : c.effect label j = effect)
    (others : ∀ i, j ≠ i → c.effect label i = .none) : c.StepFollows label c' := by
  intro i
  rw [written]
  by_cases same : j = i
  · subst same
    rw [Function.update_self, named]
    exact own
  · rw [Function.update_of_ne (Ne.symm same), others i same]
    exact .refl _

/-- A step that writes one server without an effect keeps the slots of every server. -/
theorem keeps_of_update {c c' : Cluster n} {j : Fin n} {server : PaxosImpl}
    (written : c'.servers = Function.update c.servers j server)
    (own : PaxosImpl.Follows (c.servers j) server .none) (i : Fin n) :
    PaxosImpl.Follows (c.servers i) (c'.servers i) .none := by
  rw [written]
  by_cases same : i = j
  · subst same
    rw [Function.update_self]
    exact own
  · rw [Function.update_of_ne same]
    exact .refl _

theorem keeps_of_same {c c' : Cluster n} (same : c'.servers = c.servers) (i : Fin n) :
    PaxosImpl.Follows (c.servers i) (c'.servers i) .none := by
  rw [same]
  exact .refl _

/-- A step without an effect has only to keep the slots. -/
theorem follows_of_silent {c c' : Cluster n} {label : Label n} (silent : ∀ i, c.effect label i = .none)
    (keeps : ∀ i, PaxosImpl.Follows (c.servers i) (c'.servers i) .none) : c.StepFollows label c' := by
  intro i
  rw [silent]
  exact keeps i

theorem prepareOutcome_keeps (c : Cluster n) (r : Nat) (round : Round n) (number highestN : Int)
    (outcomes : List (Option Promise)) (i : Fin n) : PaxosImpl.Follows (c.servers i)
      ((c.prepareOutcome r round number highestN outcomes).servers i) .none :=
  keeps_of_update (by rfl) (PaxosImpl.follows_setSlot (by rfl) (by rfl)) i

/-- The labels whose steps may reach a handler that touches slots. -/
def Label.touches : Label n → Bool
  | .start _ _ _ | .forward _ | .deliver _ | .receive _ => true
  | _ => false

theorem Event.keeps {c c' : Cluster n} {label : Label n} (event : Event c label c')
    (calm : label.touches = false) (i : Fin n) :
    PaxosImpl.Follows (c.servers i) (c'.servers i) .none := by
  cases event with
  | beginEnds found waits => exact keeps_of_same (by rfl) i
  | beginPrepare found waits free seen =>
      exact keeps_of_update (by rfl) (PaxosImpl.follows_setSlot (by rfl) (by rfl)) i
  | skip found skips free => exact keeps_of_same (by rfl) i
  | prepareOutcome found prepares continues received => exact prepareOutcome_keeps _ _ _ _ _ _ i
  | proposeForward found prepares asked =>
      exact keeps_of_update (by rfl) (PaxosImpl.follows_of_slots (PaxosImpl.raiseView_slots _ _)) i
  | proposeAccept found prepares done chosen => exact keeps_of_same (by rfl) i
  | proposeLearn found prepares chosen => exact keeps_of_same (by rfl) i
  | acceptOutcome found accepts received => exact keeps_of_same (by rfl) i
  | concludeEnds found accepts reported => exact keeps_of_same (by rfl) i
  | concludeLearn found accepts unreported => exact keeps_of_same (by rfl) i
  | finishLearn found learns => exact keeps_of_same (by rfl) i
  | forwardReturns found moved => exact keeps_of_same (by rfl) i
  | parentEnds found moved parent forwarding => exact keeps_of_same (by rfl) i
  | electOutcome found asks received => exact keeps_of_same (by rfl) i
  | electionEnds found asks asked =>
      exact keeps_of_update (endElection_servers _ _ _ _ _)
        (PaxosImpl.follows_of_slots (concludeElection_slots _ _ _ _)) i
  | detect =>
      exact keeps_of_update (by rfl)
        (PaxosImpl.follows_of_slots (PaxosImpl.detectLeaderFailure_slots _ _)) i
  | detectCampaign election =>
      exact keeps_of_update (by rfl)
        (PaxosImpl.follows_of_slots (PaxosImpl.detectLeaderFailure_slots _ _)) i
  | quietEnds => exact keeps_of_update (by rfl) (PaxosImpl.follows_of_slots (by rfl)) i
  | beat added => exact keeps_of_same (by rfl) i
  | sendBeat found waits next => exact keeps_of_same (by rfl) i
  | beatFails found => exact keeps_of_same (by rfl) i
  | _ => cases calm

theorem startCall_follows {c c' : Cluster n} {label : Label n} {j : Fin n} {seq : Int} {v : String}
    (taken : c.start j seq v = some c')
    (effect : ∀ i, c.effect label i = if j = i then (c.servers i).touchEffect seq else .none) :
    c.StepFollows label c' := by
  unfold Cluster.start at taken
  split at taken
  · cases taken
    exact follows_of_update (Cluster.spawn_servers _ _ _ _ _) (PaxosImpl.start_follows _ _ _)
      ((effect j).trans (if_pos rfl)) fun i other => (effect i).trans (if_neg other)
  · cases taken

theorem forward_follows {c c' : Cluster n} {f : Nat} (taken : c.forward f = some c') :
    c.StepFollows (.forward f) c' := by
  unfold Cluster.forward at taken
  split at taken
  · cases taken
  next forward found =>
    have written (next : Cluster n) (same : next.servers = Function.update c.servers forward.server
        ((c.servers forward.server).startOnForward forward.server forward.seq).1) :
        c.StepFollows (.forward f) next :=
      follows_of_update same (PaxosImpl.startOnForward_follows _ _ _)
        (by simp only [Cluster.effect, found, if_true])
        fun i other => by simp only [Cluster.effect, found, if_neg other]
    split at taken
    · dsimp only at taken
      split at taken
      · cases taken
        exact written _ rfl
      · split at taken
        · cases taken
        · cases taken
          exact written _ rfl
    · cases taken

theorem deliver_follows {c c' : Cluster n} {k : Nat} (taken : c.deliver k = some c') :
    c.StepFollows (.deliver k) c' := by
  unfold Cluster.deliver at taken
  split at taken
  next r j request sent =>
    split at taken
    · cases taken
      exact follows_of_update (by rfl) (PaxosImpl.prepare_follows _ _ _)
        (by simp only [Cluster.effect, sent, if_true])
        fun i other => by simp only [Cluster.effect, sent, if_neg other]
    · cases taken
  next r j request sent =>
    split at taken
    · cases taken
      exact follows_of_update (by rfl) (PaxosImpl.accept_follows _ _ _)
        (by simp only [Cluster.effect, sent, if_true])
        fun i other => by simp only [Cluster.effect, sent, if_neg other]
    · cases taken
  next r j request sent =>
    split at taken
    · cases taken
      exact follows_of_update (by rfl) (PaxosImpl.learn_follows _ _ _ _)
        (by simp only [Cluster.effect, sent, if_true])
        fun i other => by simp only [Cluster.effect, sent, if_neg other]
    · cases taken
  next e attempt j request sent =>
    split at taken
    · cases taken
      apply follows_of_silent fun i => by simp only [Cluster.effect, sent]
      exact keeps_of_update (by rfl) (PaxosImpl.follows_of_slots (PaxosImpl.elect_slots _ _))
    · cases taken
  next f j seq v sent =>
    exact startCall_follows taken fun i => by simp only [Cluster.effect, sent]
  next b j request sent =>
    split at taken
    · cases taken
      exact follows_of_update (by rfl) (PaxosImpl.heartbeat_follows _ _ _)
        (by simp only [Cluster.effect, sent, if_true])
        fun i other => by simp only [Cluster.effect, sent, if_neg other]
    · cases taken
  · cases taken

theorem receive_follows {c c' : Cluster n} {k : Nat} (taken : c.receive k = some c') :
    c.StepFollows (.receive k) c' := by
  unfold Cluster.receive at taken
  split at taken
  next r j promise sent =>
    apply follows_of_silent fun i => by simp only [Cluster.effect, sent]
    split at taken
    · cases taken
    · split at taken
      · split at taken
        · cases taken
          exact prepareOutcome_keeps _ _ _ _ _ _
        · cases taken
      · cases taken
  next r j request response sent =>
    apply follows_of_silent fun i => by simp only [Cluster.effect, sent]
    unfold Cluster.acceptOutcome at taken
    split at taken
    · cases taken
    · split at taken
      · split at taken
        · cases taken
        · cases taken
          exact keeps_of_same (by rfl)
      · cases taken
  next e attempt j request response sent =>
    apply follows_of_silent fun i => by simp only [Cluster.effect, sent]
    split at taken
    · cases taken
    · split at taken
      · split at taken
        · cases taken
          exact keeps_of_same (by rfl)
        · cases taken
      · cases taken
  next b j response sent =>
    split at taken
    · cases taken
    next beat found =>
      split at taken
      · cases taken
        by_cases own : j = beat.server
        · have silent (i : Fin n) : c.effect (.receive k) i = .none := by
            simp only [Cluster.effect, sent, found]
            exact if_neg fun both => both.2 (own.trans both.1)
          apply follows_of_silent silent
          apply keeps_of_update (by rfl)
          rw [if_pos own]
          exact .refl _
        · have copied : PaxosImpl.Follows (c.servers beat.server)
              (if j = beat.server then c.servers beat.server else
                (c.servers beat.server).copyDecided response.slots)
              ((c.servers beat.server).copyEffect response.slots) := by
            rw [if_neg own]
            exact PaxosImpl.copyDecided_follows _ _
          refine follows_of_update (by rfl) copied ?_ fun i other => ?_
          · simp only [Cluster.effect, sent, found]
            exact if_pos ⟨trivial, own⟩
          · simp only [Cluster.effect, sent, found]
            exact if_neg fun both => other both.1
      · cases taken
  · cases taken

/-- Every step changes the slots of every server as its label says. -/
theorem step_follows {c c' : Cluster n} {label : Label n} (taken : c.step label = some c') :
    c.StepFollows label c' := by
  cases label with
  | start j seq v => exact startCall_follows taken fun i => rfl
  | forward f => exact forward_follows taken
  | deliver k => exact deliver_follows taken
  | receive k => exact receive_follows taken
  | _ => exact fun i => (Cluster.step_event taken).keeps rfl i

section Replies

variable {server : PaxosImpl} {me : Fin n}

/-- An Accept is answered with OK exactly when it passes the tests. -/
theorem accept_ok_iff {request : AcceptRequest} :
    (∃ response, (server.accept me request).2 = .ok response ∧ response.status = .ok) ↔
      server.Allows request := by
  cases server.accept_cases me request with
  | collected below same =>
      refine iff_of_false (fun ⟨response, replied, _⟩ => ?_)
        fun allowed => absurd allowed.1 (Int.not_le.mpr below)
      rw [same] at replied
      cases replied
  | accepts above current same =>
      exact iff_of_true ⟨_, congrArg Prod.snd same, rfl⟩ ⟨above, current⟩
  | rejects above behind same =>
      refine iff_of_false (fun ⟨response, replied, ok⟩ => ?_)
        fun allowed => absurd allowed.2 (Int.not_le.mpr behind)
      rw [same] at replied
      cases replied
      cases ok

/-- A Prepare is answered with OK exactly when it names a larger number for an open slot. -/
theorem prepare_ok_iff {request : PrepareRequest} :
    (∃ response, (server.prepare me request).2 = .ok response ∧ response.status = .ok) ↔
      server.lowestSlot ≤ request.seq ∧ (server.slotAt request.seq).nP < request.proposalNumber := by
  cases server.prepare_cases me request with
  | collected below same =>
      refine iff_of_false (fun ⟨response, replied, _⟩ => ?_)
        fun both => absurd both.1 (Int.not_le.mpr below)
      rw [same] at replied
      cases replied
  | promises above larger same =>
      exact iff_of_true ⟨_, congrArg Prod.snd same, rfl⟩ ⟨above, larger⟩
  | rejects above smaller same =>
      refine iff_of_false (fun ⟨response, replied, ok⟩ => ?_)
        fun both => absurd both.2 (Int.not_lt.mpr smaller)
      rw [same] at replied
      cases replied
      cases ok

end Replies

/-- The reason for which a step has its effect on one slot. -/
inductive EffectOrigin (c : Cluster n) (label : Label n) (i : Fin n) (seq : Int) : SlotEffect → Prop where
  | untouched : EffectOrigin c label i seq .untouched
  | stamped {view : Int} : EffectOrigin c label i seq (.stamped view)
  | promised {k r : Nat} {number : Int} (delivered : label = .deliver k)
      (sent : c.msgs[k]? = some (.prepareRequest r i ⟨seq, number⟩))
      (above : (c.servers i).lowestSlot ≤ seq) (larger : ((c.servers i).slotAt seq).nP < number) :
      EffectOrigin c label i seq (.promised (c.servers i).view number)
  | voted {k r : Nat} {view : Int} {value : String} (delivered : label = .deliver k)
      (sent : c.msgs[k]? = some (.acceptRequest r i ⟨seq, view, value⟩))
      (allowed : (c.servers i).Allows ⟨seq, view, value⟩) :
      EffectOrigin c label i seq (.voted view value)

section Origin

variable {c : Cluster n} {label : Label n} {i : Fin n}

theorem EffectOrigin.only {seq query : Int} {effect : SlotEffect}
    (own : EffectOrigin c label i seq effect) : EffectOrigin c label i query (.only seq effect query) := by
  unfold SlotEffect.only
  split
  next same =>
    subst same
    exact own
  · exact .untouched

/-- A label leaves the slots of every server that it does not name alone. -/
theorem EffectOrigin.named {condition : Prop} [Decidable condition] {effect : Int → SlotEffect} {seq : Int}
    (inside : condition → EffectOrigin c label i seq (effect seq)) :
    EffectOrigin c label i seq ((if condition then effect else .none) seq) := by
  split
  next holds => exact inside holds
  · exact .untouched

theorem touchEffect_origin (seq query : Int) :
    EffectOrigin c label i query ((c.servers i).touchEffect seq query) := by
  unfold PaxosImpl.touchEffect
  split
  · exact .only .stamped
  · exact .untouched

theorem deliver_origin (c : Cluster n) (k : Nat) (i : Fin n) (seq : Int) :
    EffectOrigin c (.deliver k) i seq (c.effect (.deliver k) i seq) := by
  cases sent : c.msgs[k]? with
  | none =>
      simp only [Cluster.effect, sent]
      exact .untouched
  | some message =>
      cases message with
      | prepareRequest r j request =>
          simp only [Cluster.effect, sent]
          apply EffectOrigin.named
          rintro rfl
          unfold PaxosImpl.prepareEffect
          split
          next above =>
            apply EffectOrigin.only
            split
            next larger => exact .promised rfl sent above larger
            · exact .stamped
          · exact .untouched
      | acceptRequest r j request =>
          simp only [Cluster.effect, sent]
          apply EffectOrigin.named
          rintro rfl
          unfold PaxosImpl.acceptEffect
          split
          next allowed =>
            apply EffectOrigin.only
            exact .voted rfl sent allowed
          · exact touchEffect_origin _ _
      | learnRequest r j request =>
          simp only [Cluster.effect, sent]
          exact .named fun _ => touchEffect_origin _ _
      | forwardRequest f j query v =>
          simp only [Cluster.effect, sent]
          exact .named fun _ => touchEffect_origin _ _
      | heartbeatRequest b j request =>
          simp only [Cluster.effect, sent]
          apply EffectOrigin.named
          intro _
          unfold PaxosImpl.heartbeatEffect
          split
          · exact .stamped
          · exact .untouched
      | _ =>
          simp only [Cluster.effect, sent]
          exact .untouched

theorem effect_origin (c : Cluster n) (label : Label n) (i : Fin n) (seq : Int) :
    EffectOrigin c label i seq (c.effect label i seq) := by
  cases label with
  | start j query v =>
      simp only [Cluster.effect]
      exact .named fun _ => touchEffect_origin _ _
  | forward f =>
      cases found : c.forwards[f]? with
      | none =>
          simp only [Cluster.effect, found]
          exact .untouched
      | some forward =>
          simp only [Cluster.effect, found]
          exact .named fun _ => .only .stamped
  | deliver k => exact deliver_origin c k i seq
  | receive k =>
      cases sent : c.msgs[k]? with
      | none =>
          simp only [Cluster.effect, sent]
          exact .untouched
      | some message =>
          cases message with
          | heartbeatReply b j response =>
              cases found : c.beats[b]? with
              | none =>
                  simp only [Cluster.effect, sent, found]
                  exact .untouched
              | some beat =>
                  simp only [Cluster.effect, sent, found]
                  apply EffectOrigin.named
                  intro _
                  unfold PaxosImpl.copyEffect
                  split
                  · exact .stamped
                  · exact .untouched
          | _ =>
              simp only [Cluster.effect, sent]
              exact .untouched
  | _ => exact .untouched

/-- Only an Accept that passes the tests votes. -/
theorem effect_voted {seq view : Int} {value : String}
    (voted : c.effect label i seq = .voted view value) :
    ∃ k r, label = .deliver k ∧ c.msgs[k]? = some (.acceptRequest r i ⟨seq, view, value⟩) ∧
      (c.servers i).Allows ⟨seq, view, value⟩ := by
  have origin := effect_origin c label i seq
  rw [voted] at origin
  cases origin with
  | voted delivered sent allowed => exact ⟨_, _, delivered, sent, allowed⟩

/-- Only a Prepare with a larger number promises. -/
theorem effect_promised {seq view number : Int}
    (promised : c.effect label i seq = .promised view number) :
    ∃ k r, label = .deliver k ∧ c.msgs[k]? = some (.prepareRequest r i ⟨seq, number⟩) ∧
      (c.servers i).lowestSlot ≤ seq ∧ ((c.servers i).slotAt seq).nP < number := by
  have origin := effect_origin c label i seq
  rw [promised] at origin
  cases origin with
  | promised delivered sent above larger => exact ⟨_, _, delivered, sent, above, larger⟩

end Origin

section History

variable {c c' : Cluster n} {label : Label n} {i : Fin n}

theorem deliver_accept {k r : Nat} {request : AcceptRequest}
    (sent : c.msgs[k]? = some (.acceptRequest r i request)) (taken : c.step (.deliver k) = some c') :
    c' = c.handled i ((c.servers i).accept i request) (.acceptReply r i request) := by
  simp only [Cluster.step, Cluster.deliver, sent, Option.ite_none_right_eq_some,
    Option.some.injEq] at taken
  exact taken.2.symm

/-- The votes of the next state are the old ones and those of the step's effects. -/
theorem voted_step_iff (taken : c.step label = some c') {seq view : Int} {value : String} :
    Voted c' i seq view value ↔
      Voted c i seq view value ∨ c.effect label i seq = .voted view value := by
  have event := Cluster.step_event taken
  constructor
  · intro voted
    rcases event.voted_cases voted with before | ⟨⟨k, r, rfl, sent⟩, _⟩
    · exact .inl before
    by_cases allowed : (c.servers i).Allows ⟨seq, view, value⟩
    · right
      simp only [Cluster.effect, sent, if_true, PaxosImpl.acceptEffect, if_pos allowed,
        SlotEffect.only]
    · left
      obtain ⟨s, response, member, ok⟩ := voted
      rw [deliver_accept sent taken] at member
      obtain before | new := List.mem_append.mp member
      · exact ⟨s, response, before, ok⟩
      · split at new
        · cases new
        next answer replied =>
          cases List.mem_singleton.mp new
          exact absurd (accept_ok_iff.mp ⟨response, replied, ok⟩) allowed
  · rintro (before | voted)
    · exact before.step event
    · obtain ⟨k, r, rfl, sent, allowed⟩ := effect_voted voted
      obtain ⟨response, replied, ok⟩ := (@accept_ok_iff n _ i _).mpr allowed
      refine ⟨r, response, ?_, ok⟩
      rw [deliver_accept sent taken]
      apply List.mem_append_right
      rw [replied]
      exact List.mem_singleton.mpr rfl

/-- A new answer to a Prepare comes from the handler that the step runs. -/
theorem Event.prepareReply_cases (event : Event c label c') {r : Nat} {promise : Promise}
    (member : .prepareReply r i promise ∈ c'.msgs) : .prepareReply r i promise ∈ c.msgs ∨
      ∃ k request, label = .deliver k ∧ c.msgs[k]? = some (.prepareRequest r i request) ∧
        ((c.servers i).prepare i request).2 = .ok promise.response ∧
        c'.servers i = ((c.servers i).prepare i request).1 := by
  have earlier {new : List (Msg n)} (added : c'.msgs = c.msgs ++ new)
      (other : .prepareReply r i promise ∉ new) : .prepareReply r i promise ∈ c.msgs := by
    rw [added] at member
    exact (List.mem_append.mp member).resolve_right other
  cases event.replies with
  | requests added asks =>
      left
      apply earlier added
      intro new
      cases asks _ new
  | @prepare k s j request sent =>
      obtain before | new := List.mem_append.mp member
      · exact .inl before
      · split at new
        · cases new
        next answer replied =>
          cases List.mem_singleton.mp new
          exact .inr ⟨k, request, rfl, sent, replied, Function.update_self ..⟩
  | accept sent =>
      refine .inl (earlier rfl ?_)
      split <;> simp
  | elect sent => exact .inl (earlier rfl (by simp))
  | heartbeat sent =>
      refine .inl (earlier rfl ?_)
      split <;> simp

end History

end Chubby.Paxos
