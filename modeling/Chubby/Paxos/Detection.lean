/-
This file proves when a server that has given up on its leader has heard nothing from it since.
-/

import Chubby.Paxos.Fencing
import Chubby.Paxos.ViewChange

namespace Chubby.Paxos

open Chubby.Library

variable {n : Nat}

/-- Every section but the detector and its timer keeps the judgement of the leader or trusts it anew. -/
theorem Sections.trustsAnew {me : Fin n} {s next : Sections} {label : Section}
    (taken : s.step me label = some next) (undetected : label ≠ .other .detectLeaderFailure)
    (untimed : label ≠ .other .quietPeriodEnds) : s.server.TrustsAnew next.server := by
  cases label with
  | elect request =>
      cases taken
      exact PaxosImpl.trustsAnew_electStored s.server request
  | enter request =>
      cases taken
      apply PaxosImpl.FreshStart.trustsAnew
      unfold enter
      split
      · exact .refl s.server
      · exact PaxosImpl.fresh_addedView s.server request.seq request.view
  | store k =>
      apply PaxosImpl.FreshStart.trustsAnew
      obtain ⟨call, latestDone, _, _, ⟨_, rfl⟩ | ⟨_, rfl⟩⟩ := store_cases taken
      · exact .of_same rfl rfl rfl
      · exact .refl s.server
  | raise k =>
      obtain ⟨call, latestDone, nA, _, _, rfl⟩ := raise_cases taken
      exact (PaxosImpl.fresh_raiseAccepted (.refl s.server) call.request.seq).trustsAnew
  | answer k =>
      obtain ⟨call, response, _, rfl, _⟩ := answer_cases taken
      exact (PaxosImpl.FreshStart.refl s.server).trustsAnew
  | other call =>
      cases taken
      apply PaxosImpl.FreshStart.trustsAnew
      exact call.fresh s.server me (fun same => undetected (congrArg _ same))
        fun same => untimed (congrArg _ same)

/-- A server with the views of the Heartbeats that it has answered with OK since its detector last
fired; the list is a history variable. -/
structure Watched where
  sections : Sections
  answered : List Int

namespace Watched

def initial (groupSize : Nat) : Watched := ⟨.initial groupSize, []⟩

def note (me : Fin n) (w : Watched) : Section → List Int
  | .other .detectLeaderFailure =>
      if (w.sections.server.detectLeaderFailure me).2.1 then [] else w.answered
  | .other (.heartbeat request) =>
      match (w.sections.server.heartbeat me request).2 with
      | .ok _ => request.view :: w.answered
      | .error _ => w.answered
  | _ => w.answered

def step (me : Fin n) (w : Watched) (label : Section) : Option Watched :=
  (w.sections.step me label).map fun sections => ⟨sections, w.note me label⟩

/-- A server that considers its leader dead has answered no Heartbeat of its view since. -/
def TrustsLive (w : Watched) : Prop :=
  w.sections.server.leaderDead = true → w.sections.server.view ∉ w.answered

instance (w : Watched) : Decidable w.TrustsLive := inferInstanceAs (Decidable (_ → _))

/-- No Heartbeat of the view arrives while the server considers its leader dead. -/
def Unheard (w : Watched) : Section → Prop
  | .other (.heartbeat request) =>
      w.sections.server.leaderDead = true → request.view ≠ w.sections.server.view
  | _ => True

instance (w : Watched) : DecidablePred w.Unheard
  | .other (.heartbeat _) => inferInstanceAs (Decidable (_ → _))
  | .other (.prepare _) | .other (.learn _ _) | .other (.heartbeatReply _) | .other (.start _)
  | .other (.startOnForward _) | .other (.raiseNumber _) | .other (.noteHighestN _ _)
  | .other (.adoptAccepted _) | .other .detectLeaderFailure | .other .quietPeriodEnds
  | .other (.concludeElection _ _) | .elect _ | .enter _ | .store _ | .raise _ | .answer _ => .isTrue trivial

/-- A step that answers no Heartbeat and keeps the judgement of the leader or trusts it anew keeps the
trust. -/
theorem TrustsLive.anew {w : Watched} (trusts : w.TrustsLive) {sections : Sections}
    (anew : w.sections.server.TrustsAnew sections.server) : TrustsLive ⟨sections, w.answered⟩ := by
  intro dead
  obtain ⟨view, leaderDead⟩ | trusted := anew.view
  · dsimp only
    rw [view]
    exact trusts (leaderDead.symm.trans dead)
  · rw [trusted] at dead
    cases dead

/-- A Heartbeat that is answered with OK breaks the trust when it is of the view of a distrusted leader. -/
theorem TrustsLive.heard {w : Watched} (trusts : w.TrustsLive) {sections : Sections} {view : Int}
    (fresh : w.sections.server.FreshStart sections.server)
    (stays : view = w.sections.server.view → sections.server.view = w.sections.server.view) :
    TrustsLive ⟨sections, view :: w.answered⟩ ↔
      (w.sections.server.leaderDead = true → view ≠ w.sections.server.view) := by
  unfold TrustsLive
  rw [List.mem_cons, not_or]
  obtain ⟨same, leaderDead⟩ | moves := fresh.view
  · dsimp only
    rw [same, leaderDead]
    constructor
    · intro holds dead equal
      exact (holds dead).1 equal.symm
    · intro differs dead
      exact ⟨fun equal => differs dead equal.symm, trusts dead⟩
  · refine iff_of_true (fun dead => ?_) fun _ equal => ?_
    · rw [moves.trusted] at dead
      cases dead
    · exact absurd (stays equal) (ne_of_gt moves.larger)

theorem heartbeat_trusts {me : Fin n} {w next : Watched} {request : HeartbeatRequest}
    (trusts : w.TrustsLive) (taken : w.step me (.other (.heartbeat request)) = some next) :
    next.TrustsLive ↔ w.Unheard (.other (.heartbeat request)) := by
  have fresh := PaxosImpl.fresh_heartbeat w.sections.server me request
  cases taken
  cases w.sections.server.heartbeat_cases me request with
  | own _ same =>
      unfold note
      dsimp only
      rw [same]
      refine trusts.heard fresh fun _ => ?_
      show (w.sections.server.heartbeat me request).1.view = _
      rw [same]
  | refused behind same =>
      unfold note
      dsimp only
      rw [same]
      exact iff_of_true (trusts.anew fresh.trustsAnew) fun _ => ne_of_lt behind
  | processed _ _ same =>
      unfold note
      dsimp only
      rw [same]
      refine trusts.heard fresh fun equal => ?_
      show (w.sections.server.heartbeat me request).1.view = _
      rw [same]
      show (w.sections.server.syncedWith request).view = w.sections.server.view
      rw [PaxosImpl.syncedWith_view, equal, max_self]

/-- One step keeps the trust exactly when it is no Heartbeat of the view of a distrusted leader. -/
theorem trustsLive_step {me : Fin n} {w next : Watched} {label : Section} (trusts : w.TrustsLive)
    (taken : w.step me label = some next) : next.TrustsLive ↔ w.Unheard label := by
  obtain ⟨sections, stepped, same⟩ := Option.map_eq_some_iff.mp taken
  have kept (undetected : label ≠ .other .detectLeaderFailure) (untimed : label ≠ .other .quietPeriodEnds)
      (silent : w.note me label = w.answered) : next.TrustsLive := by
    rw [← same, silent]
    exact trusts.anew (Sections.trustsAnew stepped undetected untimed)
  cases label with
  | elect request => exact iff_of_true (kept nofun nofun rfl) trivial
  | enter request => exact iff_of_true (kept nofun nofun rfl) trivial
  | store k => exact iff_of_true (kept nofun nofun rfl) trivial
  | raise k => exact iff_of_true (kept nofun nofun rfl) trivial
  | answer k => exact iff_of_true (kept nofun nofun rfl) trivial
  | other call =>
      cases call with
      | heartbeat request => exact heartbeat_trusts trusts taken
      | detectLeaderFailure =>
          refine iff_of_true ?_ trivial
          cases taken
          obtain ⟨view, ⟨fired, _⟩ | ⟨calm, leaderDead, _⟩⟩ :=
            w.sections.server.detectLeaderFailure_cases me
          · intro _
            unfold note
            dsimp only
            rw [if_pos fired]
            exact List.not_mem_nil
          · intro dead
            unfold note
            dsimp only
            rw [calm, if_neg Bool.false_ne_true]
            show (w.sections.server.detectLeaderFailure me).1.view ∉ w.answered
            rw [view]
            exact trusts (leaderDead.symm.trans dead)
      | quietPeriodEnds =>
          cases taken
          exact iff_of_true trusts trivial
      | _ => exact iff_of_true (kept nofun nofun rfl) trivial

end Watched

/-- Along every run of a server no live leader is considered dead exactly when no Heartbeat of the view
arrives while the flag is set. -/
theorem trustsLive_iff {me : Fin n} {labels : List Section} {final : Watched}
    (ran : run (Watched.step me) (Watched.initial n) labels = some final) :
    EveryStep (Watched.step me) (fun _ _ next => next.TrustsLive) (Watched.initial n) labels ↔
      Guarded (Watched.step me) Watched.Unheard (Watched.initial n) labels := by
  refine everyStep_iff_guarded_of_invariant Watched.TrustsLive ?_ ?_ ?_ ran
  · intro w label next trusts taken
    exact Watched.trustsLive_step trusts taken
  · intro w label next trusts unheard taken
    exact (Watched.trustsLive_step trusts taken).mpr unheard
  · intro dead
    cases dead

/-- Four missed heartbeats, and then a Heartbeat of this view. -/
def missedThenHeard (view : Int) : List Section :=
  List.replicate 4 (.other .detectLeaderFailure) ++ [.other (.heartbeat ⟨0, view, [-1, -1], fun _ => none⟩)]

theorem trustsLive_iff_newView : ∃ final : Watched,
    run (Watched.step (1 : Fin 2)) (Watched.initial 2) (missedThenHeard 2) = some final ∧
      EveryStep (Watched.step (1 : Fin 2)) (fun _ _ next => next.TrustsLive) (Watched.initial 2)
        (missedThenHeard 2) := by
  obtain ⟨final, ran⟩ : ∃ final, run (Watched.step (1 : Fin 2)) (Watched.initial 2) (missedThenHeard 2) =
      some final := ⟨_, rfl⟩
  exact ⟨final, ran, (trustsLive_iff ran).mpr (by decide)⟩

/-- The leader of view 0 is heard again, and its follower still considers it dead. -/
theorem live_leader_distrusted : ¬ ∀ (n : Nat) (me : Fin n) (labels : List Section) (final : Watched),
    run (Watched.step me) (Watched.initial n) labels = some final → final.TrustsLive := by
  intro trusts
  obtain ⟨final, ran, checked⟩ := (Option.any_eq_true _ _).mp (by decide :
    (run (Watched.step (1 : Fin 2)) (Watched.initial 2) (missedThenHeard 0)).any (fun final =>
      decide (¬ final.TrustsLive)) = true)
  exact of_decide_eq_true checked (trusts 2 1 (missedThenHeard 0) final ran)

end Chubby.Paxos
