/-
This file follows the lock service of a stable leader down to the threads and messages of its cluster.
-/

import Chubby.Lock.Replicated
import Chubby.Paxos.GroupRun

namespace Chubby.Paxos.StableGroup

open Chubby.Library

variable {n view : Nat} {g next : StableGroup n} {seq : Int} {path mode : String}

/-- Every server finds the values that the leader finds. -/
def Replicated (g : StableGroup n) : Prop := ∀ i path, (g.servers i).paxosDb.get path = g.get path

/-- The values of a pair reach the database of every server, or of none. -/
theorem Replicated.ends (replicated : g.Replicated) (ends : Ends view seq path mode g next) :
    next.Replicated := by
  intro i query
  show _ = (next.servers next.me).paxosDb.get query
  rw [ends.me, ends.values, ends.values]
  have same : (g.servers i).paxosDb.get query = (g.servers g.me).paxosDb.get query := replicated i query
  rw [same]

/-- The cluster comes to the servers of the group by proposals of its leader, each of which is a path and a
mode, and all of which have ended. -/
def Deployed (c : Cluster n) (me : Fin n) (g : StableGroup n) : Prop :=
  ∃ (labels : List (Label n)) (final : Cluster n), run Cluster.step c labels = some final ∧ final.Idle ∧
    g = ⟨final.servers, me⟩ ∧ ∀ proposal ∈ labels.filterMap Label.proposal,
      proposal.1 = me ∧ ∃ path mode, '#' ∉ path.toList ∧ proposal.2.2 = keyValue path mode

theorem Deployed.start {c : Cluster n} {me : Fin n} (deployed : Deployed c me g) (plain : '#' ∉ path.toList)
    (started : g.start seq (keyValue path mode) = some next) : Deployed c me next := by
  obtain ⟨labels, final, ran, idle, rfl, every⟩ := deployed
  obtain ⟨begun, after, begins, ⟨silent, hidden, ends⟩, idle', same⟩ := start_ends idle me started
  refine ⟨labels ++ .start me seq (keyValue path mode) :: silent, after, ?_, idle', same, ?_⟩
  · rw [run_append, ran]
    exact run_cons_eq_some.mpr ⟨begun, begins, ends⟩
  · have visible : Label.proposal (.start me seq (keyValue path mode)) = some (me, seq, keyValue path mode) := rfl
    rw [List.filterMap_append, List.filterMap_cons_some visible, hidden]
    intro proposal member
    obtain before | last := List.mem_append.mp member
    · exact every proposal before
    · cases List.mem_singleton.mp last
      exact ⟨rfl, path, mode, plain, rfl⟩

end Chubby.Paxos.StableGroup

namespace Chubby.Lock

open Chubby.Library Chubby.Paxos

variable {n view : Nat} {c : Cluster n} {me : Fin n} {s next stored : ChubbyImpl (StableGroup n)}
  {path mode : String}

/-- The server is in step, all servers of its group find the same values, and the cluster has carried out
every `Put`. -/
structure Carried (view : Nat) (c : Cluster n) (me : Fin n) (s : ChubbyImpl (StableGroup n)) : Prop where
  inStep : InStep view s
  replicated : s.paxosService.Replicated
  deployed : s.paxosService.Deployed c me

theorem Carried.put (carried : Carried view c me s) (plain : '#' ∉ path.toList)
    (puts : s.put path mode = some stored) : Carried view c me stored := by
  have inStep := (carried.inStep.put_exact plain puts).1
  obtain ⟨g, started, rfl⟩ := Option.map_eq_some_iff.mp puts
  have started : s.paxosService.start s.slotNumber (keyValue path mode) = some g := started
  obtain ⟨other, started', ends⟩ :=
    carried.inStep.stable.start_effect (carried.inStep.regular s.slotNumber) plain mode
  cases started.symm.trans started'
  exact ⟨inStep, carried.replicated.ends ends, carried.deployed.start plain started⟩

theorem Carried.expireKey (carried : Carried view c me s) {key client : String} (holds : s.Holds key client)
    (expires : s.expireKey key = some next) : Carried view c me next := by
  unfold ChubbyImpl.expireKey at expires
  split at expires
  · exact carried.put (carried.inStep.plain key client holds) expires
  · cases expires
    exact carried

/-- A pass touches the Paxos service only by the `Put`s of its keys. -/
theorem Carried.expireClients (carried : Carried view c me s) {order : List String}
    (released : order.foldlM ChubbyImpl.releaseLocksForClient s = some next) : Carried view c me next := by
  rw [ChubbyImpl.foldlM_releaseLocks] at released
  have both : Carried view c me next ∧ next.clientLockMap = s.clientLockMap := by
    refine @foldlM_invariant _ _ _ _
      (fun state : ChubbyImpl (StableGroup n) => Carried view c me state ∧ state.clientLockMap = s.clientLockMap)
      ?_ _ _ ⟨carried, rfl⟩ released
    rintro state key member after ⟨kept, map⟩ expires
    obtain ⟨client, _, member⟩ := List.mem_flatMap.mp member
    have holds : state.Holds key client := by
      unfold ChubbyImpl.Holds
      rw [map]
      exact ChubbyImpl.mem_lockedKeys.mp member
    exact ⟨kept.expireKey holds expires, (ChubbyImpl.expireKey_kept expires).1.trans map⟩
  exact both.1

/-- The operations touch the Paxos service by `Put`s only. -/
theorem Carried.outcome (carried : Carried view c me s) {operation : Operation} (plain : operation.PlainPath)
    (outcome : Outcome s operation next) : Carried view c me next := by
  have inStep := carried.inStep.outcome plain outcome
  cases outcome with
  | renewed => exact ⟨inStep, carried.replicated, carried.deployed⟩
  | acquireAborted => exact carried
  | releaseAborted _ => exact carried
  | notLocked _ => exact carried
  | refused => exact ⟨inStep, carried.replicated, carried.deployed⟩
  | joined _ => exact ⟨inStep, carried.replicated, carried.deployed⟩
  | granted free puts =>
      have moved : Carried view c me s.nextSlot :=
        ⟨carried.inStep.nextSlot, carried.replicated, carried.deployed⟩
      have after := moved.put plain puts
      exact ⟨inStep, after.replicated, after.deployed⟩
  | freed locked puts =>
      have after := carried.put plain puts
      exact ⟨inStep, after.replicated, after.deployed⟩
  | @expired _ order leases _ _ released =>
      have start : Carried view c me { s with clientLeaseMap := leases } :=
        ⟨{ carried.inStep with }, carried.replicated, carried.deployed⟩
      exact start.expireClients released

theorem carried_initial (m : Nat) (slotNumber : Int) :
    Carried 0 (Cluster.initial (m + 1)) 0 (.initial (StableGroup.initial m 0) slotNumber) where
  inStep := inStep_initial m 0 slotNumber
  replicated _ _ := rfl
  deployed := ⟨[], _, rfl, ⟨nofun, nofun⟩, rfl, nofun⟩

/-- Every run of the lock service on the first leader is carried out by the threads and messages of its
cluster, which propose nothing but its `Put`s and come to rest with the same servers; and the database of
every server has the values of the lock table. -/
theorem service_runs {m : Nat} {slotNumber : Int} {operations : List Operation}
    {s : Timed (StableGroup (m + 1))}
    (plain : ∀ operation ∈ operations, operation.PlainPath)
    (ran : run Timed.step (Timed.initial (StableGroup.initial m 0) slotNumber) operations = some s) :
    ∃ (labels : List (Label (m + 1))) (final : Cluster (m + 1)),
      run Cluster.step (Cluster.initial (m + 1)) labels = some final ∧ final.Idle ∧
      s.chubby.paxosService = ⟨final.servers, 0⟩ ∧
      (∀ proposal ∈ labels.filterMap Label.proposal, proposal.1 = 0 ∧
        ∃ path mode, '#' ∉ path.toList ∧ proposal.2.2 = keyValue path mode) ∧
      ∀ i path, (final.servers i).paxosDb.get path = s.chubby.found path := by
  have carried : Carried 0 (Cluster.initial (m + 1)) 0 s.chubby := by
    refine @run_invariant _ _ _ _ (fun s : Timed (StableGroup (m + 1)) =>
      Carried 0 (Cluster.initial (m + 1)) 0 s.chubby) ?_ _ _ _ (carried_initial m slotNumber)
      (guarded_of_forall plain _) ran
    intro state operation next carried plain taken
    exact carried.outcome plain (Timed.step_outcome taken)
  obtain ⟨labels, final, ran, idle, same, every⟩ := carried.deployed
  refine ⟨labels, final, ran, idle, same, every, fun i path => ?_⟩
  have replicated := carried.replicated i path
  rw [same] at replicated
  unfold ChubbyImpl.found
  rw [same]
  exact replicated

theorem service_runs_contendedExpiry : ∃ (labels : List (Label 3)) (final : Cluster 3),
    run Cluster.step (Cluster.initial 3) labels = some final ∧ final.Idle ∧
      (final.servers 2).paxosDb.get "x" = some "SHARED" := by
  obtain ⟨s, ran, checked⟩ := (Option.any_eq_true _ _).mp (by decide +kernel :
    (run Timed.step (Timed.initial (StableGroup.initial 2 0) 0) contendedExpiry).any
      (fun s => decide (s.chubby.found "x" = some "SHARED")) = true)
  obtain ⟨labels, final, ran, idle, _, _, found⟩ := service_runs (by decide) ran
  exact ⟨labels, final, ran, idle, (found 2 "x").trans (of_decide_eq_true checked)⟩

end Chubby.Lock
