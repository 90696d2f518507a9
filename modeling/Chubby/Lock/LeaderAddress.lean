/-
This file proves when the address of the leader is one of the addresses that the servers have stubs for.
-/

import Chubby.Lock.Server
import Chubby.Paxos.ViewChange

namespace Chubby.Lock

open Chubby.Library Chubby.Paxos

variable {n : Nat}

/-- The keys that `InitializeServerStubs` puts into the stub maps. -/
def stubAddresses (groupSize : Nat) : List String :=
  (List.range groupSize).map fun i : Nat => "127.0.0.1:" ++ toString (50051 + (i : Int))

theorem leaderAddress_mem {view : Int} (inside : 0 ≤ view.tmod n) (below : view.tmod n < n) :
    leaderAddress n view ∈ stubAddresses n := by
  have port : (view.tmod n).toNat < n := by omega
  refine List.mem_map.mpr ⟨(view.tmod n).toNat, List.mem_range.mpr port, ?_⟩
  unfold leaderAddress
  rw [Int.toNat_of_nonneg inside]

/-- The requests that can move a view, with the types of their fields on the wire. -/
inductive ViewRequest where
  | elect (view : Int64)
  | accept (seq view : Int32) (value : String)
  | heartbeat (id view : Int32) (done : List Int32) (slots : Int → Option PaxosSlot)

namespace ViewRequest

def handle (me : Fin n) (server : PaxosImpl) : ViewRequest → Option PaxosImpl
  | .elect view => some (server.electStored ⟨view.toInt⟩).1
  | .accept seq view value => some (server.accept me ⟨seq.toInt, view.toInt, value⟩).1
  | .heartbeat id view done slots =>
      some (server.heartbeat me ⟨id.toInt, view.toInt, done.map Int32.toInt, slots⟩).1

/-- The view has not become smaller, and the address of its leader has a stub. -/
structure Resolves (n : Nat) (before after : PaxosImpl) : Prop where
  grows : before.view ≤ after.view
  inside : 0 ≤ after.view.tmod n
  below : after.view.tmod n < n
  address : leaderAddress n after.view ∈ stubAddresses n

/-- The 32 bits that Elect keeps of a larger view are not smaller than the current one. -/
def Fits (server : PaxosImpl) : ViewRequest → Prop
  | .elect view => server.view < view.toInt → server.view ≤ asInt view.toInt
  | .accept _ _ _ | .heartbeat _ _ _ _ => True

instance (server : PaxosImpl) : DecidablePred (Fits server)
  | .elect _ => inferInstanceAs (Decidable (_ → _))
  | .accept _ _ _ | .heartbeat _ _ _ _ => .isTrue trivial

theorem resolves_iff {before after : PaxosImpl} (positive : 0 < n) (start : 0 ≤ before.view) :
    Resolves n before after ↔ before.view ≤ after.view := by
  refine ⟨Resolves.grows, fun grows => ?_⟩
  have inside : 0 ≤ after.view.tmod n := Int.tmod_nonneg _ (start.trans grows)
  have below : after.view.tmod n < n := Int.tmod_lt_of_pos _ (Int.natCast_pos.mpr positive)
  exact ⟨grows, inside, below, leaderAddress_mem inside below⟩

theorem grows_of_fresh {before after : PaxosImpl} (fresh : before.FreshStart after) :
    before.view ≤ after.view := by
  obtain ⟨same, _⟩ | moves := fresh.view
  · exact le_of_eq same.symm
  · exact le_of_lt moves.larger

/-- A request lets the view grow exactly when the bits that are kept of it do. -/
theorem handle_grows_iff {me : Fin n} {server next : PaxosImpl} {request : ViewRequest}
    (taken : handle me server request = some next) : server.view ≤ next.view ↔ Fits server request := by
  cases request with
  | elect view =>
      cases taken
      unfold Fits PaxosImpl.electStored PaxosImpl.electKeeping
      dsimp only
      split
      next larger => exact ⟨fun grows _ => grows, fun fits => fits larger⟩
      next smaller => split <;> exact iff_of_true le_rfl fun larger => absurd larger smaller
  | accept seq view value =>
      cases taken
      exact iff_of_true (grows_of_fresh (PaxosImpl.fresh_accept server me _)) trivial
  | heartbeat id view done slots =>
      cases taken
      exact iff_of_true (grows_of_fresh (PaxosImpl.fresh_heartbeat server me _)) trivial

end ViewRequest

/-- Along every run of requests from view 0 the leader's address always resolves and the view never
becomes smaller exactly when every Elect of a larger view is still no smaller in 32 bits. -/
theorem leaderAddress_iff {me : Fin n} {server final : PaxosImpl} (zero : server.view = 0)
    {requests : List ViewRequest} (ran : run (ViewRequest.handle me) server requests = some final) :
    EveryStep (ViewRequest.handle me) (fun before _ after => ViewRequest.Resolves n before after)
        server requests ↔
      Guarded (ViewRequest.handle me) ViewRequest.Fits server requests := by
  have positive : 0 < n := me.pos
  refine everyStep_iff_guarded_of_invariant (fun server => 0 ≤ server.view) ?_ ?_ (le_of_eq zero.symm) ran
  · intro before request after start taken
    exact (ViewRequest.resolves_iff positive start).trans (ViewRequest.handle_grows_iff taken)
  · intro before request after start fits taken
    exact start.trans ((ViewRequest.handle_grows_iff taken).mpr fits)

/-- The views of these requests need at most 32 bits. -/
def smallViews : List ViewRequest :=
  [.elect 5, .accept 1 2147483647 "x#SHARED", .heartbeat 1 7 [] fun _ => none]

theorem leaderAddress_iff_smallViews : ∃ final : PaxosImpl, final.view = 2147483647 ∧
    run (ViewRequest.handle (0 : Fin 3)) (PaxosImpl.initial 3) smallViews = some final ∧
      EveryStep (ViewRequest.handle (0 : Fin 3))
        (fun before _ after => ViewRequest.Resolves 3 before after) (PaxosImpl.initial 3) smallViews := by
  obtain ⟨final, ran, view⟩ : ∃ final, run (ViewRequest.handle (0 : Fin 3)) (PaxosImpl.initial 3)
      smallViews = some final ∧ final.view = 2147483647 := ⟨_, rfl, by decide⟩
  exact ⟨final, view, ran, (leaderAddress_iff rfl ran).mpr (by decide)⟩

/-- An Elect of view 2^31 leaves view -2^31, whose leader would have port 50049. -/
theorem leaderAddress_unknown : ¬ ∀ (n : Nat) (me : Fin n) (server final : PaxosImpl)
    (requests : List ViewRequest), server.view = 0 →
      run (ViewRequest.handle me) server requests = some final →
      server.view ≤ final.view ∧ 0 ≤ final.view.tmod n ∧ leaderAddress n final.view ∈ stubAddresses n := by
  intro resolves
  obtain ⟨final, ran, negative⟩ : ∃ final, run (ViewRequest.handle (0 : Fin 3)) (PaxosImpl.initial 3)
      [.elect 2147483648] = some final ∧ final.view.tmod 3 < 0 := ⟨_, rfl, by decide⟩
  exact absurd (resolves 3 0 _ final _ rfl ran).2.1 (Int.not_le.mpr negative)

end Chubby.Lock
