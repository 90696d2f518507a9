/-
This file lists the steps that write to the database of a server.
-/

import Chubby.Paxos.Convergence
import Chubby.Paxos.FaultFree

namespace Chubby.Paxos

variable {n : Nat}

namespace PaxosImpl

variable (server : PaxosImpl)

@[simp] theorem raiseView_paxosDb (view : Int) : (server.raiseView view).paxosDb = server.paxosDb := by
  unfold raiseView
  split <;> rfl

@[simp] theorem raiseAccepted_paxosDb (seq : Int) :
    (server.raiseAccepted seq).paxosDb = server.paxosDb := by
  unfold raiseAccepted
  split <;> rfl

@[simp] theorem setSlot_paxosDb (seq : Int) (slot : PaxosSlot) :
    (server.setSlot seq slot).paxosDb = server.paxosDb := rfl

@[simp] theorem addSlots_paxosDb (seq : Int) : (server.addSlots seq).paxosDb = server.paxosDb := rfl

@[simp] theorem adoptView_paxosDb (view : Int) : (server.adoptView view).paxosDb = server.paxosDb := rfl

end PaxosImpl

theorem pairOf_eq_some {request : DecideRequest} {pair : String × String} :
    pairOf request = some pair ↔ getKeyValue request.value = .ok pair := by
  unfold pairOf
  cases getKeyValue request.value <;> simp

/-- The value that the label has the server learn in an open slot. -/
def Cluster.learns (c : Cluster n) (label : Label n) (i : Fin n) : Option DecideRequest :=
  match label with
  | .deliver k =>
      match c.msgs[k]? with
      | some (.learnRequest _ j request) =>
          if j = i ∧ (c.servers i).closedSlot request.seq = false then some request else none
      | _ => none
  | _ => none

theorem learns_eq_some {c : Cluster n} {label : Label n} {i : Fin n} {request : DecideRequest} :
    c.learns label i = some request ↔ ∃ k r, label = .deliver k ∧
      c.msgs[k]? = some (.learnRequest r i request) ∧ (c.servers i).closedSlot request.seq = false := by
  constructor
  · intro learned
    unfold Cluster.learns at learned
    split at learned
    next k =>
      split at learned
      next r j other sent =>
        split at learned
        next open_ =>
          cases learned
          obtain ⟨rfl, open_⟩ := open_
          exact ⟨k, r, rfl, sent, open_⟩
        · cases learned
      · cases learned
    · cases learned
  · rintro ⟨k, r, rfl, sent, open_⟩
    unfold Cluster.learns
    dsimp only
    rw [sent]
    dsimp only
    rw [if_pos ⟨rfl, open_⟩]

/-- A server that learns no value in an open slot keeps its database. -/
theorem Event.paxosDb_kept {c c' : Cluster n} {label : Label n} (event : Event c label c') {j : Fin n}
    (unlearned : c.learns label j = none) :
    (c'.servers j).paxosDb = (c.servers j).paxosDb := by
  cases event.written j with
  | nothing after => rw [after]
  | @start seq after =>
      rw [after]
      obtain ⟨_, same⟩ | ⟨_, same⟩ := (c.servers j).start_server j seq <;> simp [same]
  | startOnForward after => rw [after, PaxosImpl.startOnForward_server]; simp
  | begins named found waits own free entered after => rw [after]; simp
  | hears found prepares own heard after => rw [after]; simp
  | raiseView after => rw [after]; simp
  | concludeElection found self asks asked after =>
      subst self
      rw [after]
      unfold concludeElection
      dsimp only
      split_ifs <;> simp
  | detectLeaderFailure after =>
      rw [after]
      unfold PaxosImpl.detectLeaderFailure
      dsimp only
      split_ifs <;> rfl
  | quietPeriodEnds after => rw [after]; rfl
  | @prepare k r request named sent after =>
      rw [after]
      cases (c.servers j).prepare_cases j request with
      | collected _ same | promises _ _ same | rejects _ _ same => simp [same]
  | @accept k r request named sent handled after =>
      rw [after]
      cases (c.servers j).accept_cases j request with
      | collected _ same | accepts _ _ same | rejects _ _ same => simp [same]
  | @learn k r request named sent after =>
      rw [after]
      refine (learn_closed _ _ _ (Bool.eq_true_of_not_eq_false fun open_ => ?_)).1
      rw [learns_eq_some.mpr ⟨k, r, named, sent, open_⟩] at unlearned
      cases unlearned
  | elect after => rw [after]; unfold PaxosImpl.elect PaxosImpl.electKeeping; split_ifs <;> simp
  | @heartbeat k b request named sent after =>
      rw [after]
      cases (c.servers j).heartbeat_cases j request with
      | own _ same | refused _ same => rw [same]
      | processed _ _ same =>
          rw [same]
          show ((c.servers j).raiseView request.view).paxosDb = _
          simp
  | copyDecided named sent after => rw [after]; rfl

/-- A server that learns a value in an open slot stores its pair and decides the slot. -/
theorem Cluster.step_learns {c c' : Cluster n} {label : Label n} {i : Fin n} {request : DecideRequest}
    (learned : c.learns label i = some request) (taken : c.step label = some c') :
    (c'.servers i).paxosDb = (match pairOf request with
      | none => (c.servers i).paxosDb
      | some (key, mode) => ((c.servers i).paxosDb.put key mode true).1) ∧
      ((c.servers i).slotAt request.seq).status ≠ .decided ∧
      ((c'.servers i).slotAt request.seq).status = .decided := by
  obtain ⟨k, r, rfl, sent, open_⟩ := learns_eq_some.mp learned
  obtain ⟨above, undecided⟩ : ¬ request.seq < (c.servers i).lowestSlot ∧
      ((c.servers i).slotAt request.seq).status ≠ .decided := by
    simpa [PaxosImpl.closedSlot] using open_
  have after : c'.servers i = ((c.servers i).learn i request true).1 := by
    simp only [Cluster.step, Cluster.deliver, sent, Option.ite_none_right_eq_some,
      Option.some.injEq] at taken
    rw [← taken.2]
    exact Function.update_self ..
  rw [after]
  exact ⟨(learn_open (c.servers i) i request open_).1, undecided,
    PaxosImpl.learn_decides (Int.not_lt.mp above)⟩

end Chubby.Paxos
