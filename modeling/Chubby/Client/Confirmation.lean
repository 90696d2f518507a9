/-
This file models the lock calls of a client beside its KeepAlive threads and proves when they report
success only for what a server has confirmed.
-/

import Chubby.Client.KeepAlive
import Chubby.Client.Session
import Mathlib.Data.Finset.Basic

namespace Chubby.Client

open Chubby.Library Chubby.Lock
open Chubby.Paxos (HandlerError)

/-- The server has confirmed the request. -/
def RpcEnd.Confirms (rpc : RpcEnd) : Prop := rpc.code = .ok ∧ rpc.success = true

instance : DecidablePred RpcEnd.Confirms := fun _ => inferInstanceAs (Decidable (_ ∧ _))

inductive LockRequest where
  | acquireLock (path mode : String)
  | releaseLock (path : String)
  deriving DecidableEq, Repr

def LockRequest.endCode : LockRequest → RpcEnd → Int
  | .acquireLock _ _ => chubbyLockCode
  | .releaseLock _ => chubbyUnlockCode

/-- A lock call has passed the test for jeopardy, waits for the call it has made, or has returned. -/
inductive CallStage where
  | entered
  | sent (cell : String)
  | ended
  deriving DecidableEq, Repr

structure LockCall where
  request : LockRequest
  stage : CallStage
  deriving DecidableEq, Repr

/-- What a lock call has returned, with the end of its call if it has made one. -/
structure CallResult where
  request : LockRequest
  rpc : Option RpcEnd
  code : Int
  deriving DecidableEq, Repr

/-- The results of the lock calls, in the order in which they returned, are a history variable. -/
structure ClientRun where
  client : ClientFields
  keepers : List Position
  calls : List LockCall
  results : List CallResult

inductive ClientStep (cells : ChubbyCells) where
  | sendKeepAlive
  | keepAlive (keeper : Nat) (step : KeepAliveStep cells)
  | call (request : LockRequest)
  | test (call : Nat) (now : UInt64)
  | ends (call : Nat) (rpc : RpcEnd)

/-- The call that a step ends. -/
def ClientStep.endedCall {cells : ChubbyCells} : ClientStep cells → Option Nat
  | .ends k _ => some k
  | .sendKeepAlive | .keepAlive .. | .call _ | .test .. => none

/-- A lock that was acquired with code 0 is believed until it is released with code 0. -/
def CallResult.believe (held : Finset String) (result : CallResult) : Finset String :=
  if result.code = 0 then
    match result.request with
    | .acquireLock path _ => insert path held
    | .releaseLock path => held.erase path
  else held

def believed (results : List CallResult) : Finset String := results.foldl CallResult.believe ∅

namespace ClientRun

def start (client : ClientFields) : ClientRun := ⟨client, [], [], []⟩

def setCall (r : ClientRun) (k : Nat) (call : LockCall) (stage : CallStage) : ClientRun :=
  { r with calls := r.calls.set k { call with stage } }

def result (r : ClientRun) (request : LockRequest) (rpc : Option RpcEnd) (code : Int) : ClientRun :=
  { r with results := r.results ++ [⟨request, rpc, code⟩] }

/-- In jeopardy a lock call returns at once. -/
def call (r : ClientRun) (request : LockRequest) : ClientRun :=
  if r.client.acceptRequests then { r with calls := r.calls ++ [⟨request, .entered⟩] }
  else r.result request none (-4)

/-- Outside its lease the client returns without a call. -/
def test (r : ClientRun) (k : Nat) (now : UInt64) : Option ClientRun :=
  match r.calls[k]? with
  | some ⟨request, .entered⟩ =>
      if now < r.client.clientLeaseTimeout then
        some (r.setCall k ⟨request, .entered⟩ (.sent r.client.currentLeader))
      else some ((r.setCall k ⟨request, .entered⟩ .ended).result request none (-3))
  | _ => none

/-- Only a call that ends with OK names the leader. -/
def ends (cells : ChubbyCells) (r : ClientRun) (k : Nat) (rpc : RpcEnd) : Option ClientRun :=
  match r.calls[k]? with
  | some ⟨request, .sent cell⟩ =>
      if cell ∈ cells.names then
        let leader := if rpc.code = .ok then rpc.currentLeader else r.client.currentLeader
        let ended := r.setCall k ⟨request, .sent cell⟩ .ended
        some ({ ended with client := { r.client with currentLeader := leader } }.result request (some rpc)
          (request.endCode rpc))
      else none
  | _ => none

/-- A KeepAlive thread steps on the fields that it shares with the lock calls. -/
def keepAlive (cells : ChubbyCells) (r : ClientRun) (k : Nat) (step : KeepAliveStep cells) :
    Option ClientRun :=
  match r.keepers[k]? with
  | none => none
  | some position =>
      (SendKeepAlive.step cells ⟨r.client, position, 0, []⟩ step).map fun next =>
        { r with client := next.client, keepers := r.keepers.set k next.position }

def step (cells : ChubbyCells) (r : ClientRun) : ClientStep cells → Option ClientRun
  | .sendKeepAlive => some { r with keepers := r.keepers ++ [.reading false] }
  | .keepAlive k step => r.keepAlive cells k step
  | .call request => some (r.call request)
  | .test k now => r.test k now
  | .ends k rpc => r.ends cells k rpc

/-- A step returns from no lock call, from one without a call to a server, or from one whose call ends. -/
inductive Returns (cells : ChubbyCells) (r : ClientRun) : ClientStep cells → List CallResult → Prop where
  | none {step : ClientStep cells} (unended : step.endedCall = .none) : Returns cells r step r.results
  | refused {step : ClientStep cells} {request : LockRequest} {code : Int} (failed : code ≠ 0)
      (unended : step.endedCall = .none) :
      Returns cells r step (r.results ++ [⟨request, .none, code⟩])
  | ended {k : Nat} {rpc : RpcEnd} {call : LockCall} (found : r.calls[k]? = some call) :
      Returns cells r (.ends k rpc) (r.results ++ [⟨call.request, some rpc, call.request.endCode rpc⟩])

theorem step_returns {cells : ChubbyCells} {r next : ClientRun} {step : ClientStep cells}
    (taken : r.step cells step = some next) : Returns cells r step next.results := by
  cases step with
  | sendKeepAlive => cases taken; exact .none rfl
  | keepAlive k step =>
      change r.keepAlive cells k step = some next at taken
      unfold keepAlive at taken
      split at taken
      · cases taken
      · obtain ⟨stepped, _, same⟩ := Option.map_eq_some_iff.mp taken
        cases same
        exact .none rfl
  | call request =>
      cases taken
      unfold call
      split
      · exact .none rfl
      · exact .refused (by decide) rfl
  | test k now =>
      change r.test k now = some next at taken
      unfold test at taken
      split at taken
      · split at taken
        · cases taken; exact .none rfl
        · cases taken; exact .refused (by decide) rfl
      · cases taken
  | ends k rpc =>
      change r.ends cells k rpc = some next at taken
      unfold ends at taken
      split at taken
      next request cell found =>
        split at taken
        · cases taken; exact .ended found
        · cases taken
      · cases taken

/-- The code of the returned call is 0 exactly for a confirmed request, and only a confirmation changes
what the client believes to hold. -/
def Confirms {cells : ChubbyCells} (r : ClientRun) (step : ClientStep cells) (next : ClientRun) : Prop :=
  (∀ result, next.results = r.results ++ [result] →
      (result.code = 0 ↔ ∃ rpc, result.rpc = some rpc ∧ rpc.Confirms)) ∧
    (believed next.results ≠ believed r.results → ∃ k rpc, step = .ends k rpc ∧ rpc.Confirms)

end ClientRun

/-- The statuses that `chubby_unlock` tells apart from a success. -/
def LockRequest.Names : LockRequest → StatusCode → Prop
  | .acquireLock _ _, _ => True
  | .releaseLock _, code => code = .ok ∨ code = .aborted ∨ code = .deadlineExceeded

instance : (request : LockRequest) → DecidablePred request.Names
  | .acquireLock _ _, _ => .isTrue trivial
  | .releaseLock _, _ => inferInstanceAs (Decidable (_ ∨ _ ∨ _))

theorem confirmed_iff (rpc : RpcEnd) :
    (∃ other, some rpc = some other ∧ other.Confirms) ↔ rpc.Confirms := by
  simp only [Option.some.injEq, exists_eq_left']

theorem chubbyLockCode_eq_zero_iff (rpc : RpcEnd) : chubbyLockCode rpc = 0 ↔ rpc.Confirms := by
  unfold chubbyLockCode RpcEnd.Confirms
  by_cases ok : rpc.code = .ok
  · rw [if_pos ok, and_iff_right ok]
    cases rpc.success <;> decide
  · rw [if_neg ok]
    refine iff_of_false ?_ fun confirmed => ok confirmed.1
    split <;> decide

/-- `chubby_unlock` reports what the server has confirmed exactly for the statuses that it names. -/
theorem chubbyUnlockCode_eq_zero_iff (rpc : RpcEnd) :
    (chubbyUnlockCode rpc = 0 ↔ rpc.Confirms) ↔
      rpc.code = .ok ∨ rpc.code = .aborted ∨ rpc.code = .deadlineExceeded := by
  unfold chubbyUnlockCode RpcEnd.Confirms
  by_cases ok : rpc.code = .ok
  · rw [if_pos ok, and_iff_right ok]
    refine iff_of_true ?_ (.inl ok)
    cases rpc.success <;> decide
  · rw [if_neg ok, or_iff_right ok]
    by_cases aborted : rpc.code = .aborted
    · rw [if_pos aborted]
      exact iff_of_true (iff_of_false (by decide) fun confirmed => ok confirmed.1) (.inl aborted)
    · rw [if_neg aborted, or_iff_right aborted]
      by_cases exceeded : rpc.code = .deadlineExceeded
      · rw [if_pos exceeded]
        exact iff_of_true (iff_of_false (by decide) fun confirmed => ok confirmed.1) exceeded
      · rw [if_neg exceeded]
        exact iff_of_false (fun same => ok (same.mp rfl).1) exceeded

theorem endCode_confirms_iff (request : LockRequest) (rpc : RpcEnd) :
    (request.endCode rpc = 0 ↔ rpc.Confirms) ↔ request.Names rpc.code := by
  cases request with
  | acquireLock path mode => exact iff_of_true (chubbyLockCode_eq_zero_iff rpc) trivial
  | releaseLock path => exact chubbyUnlockCode_eq_zero_iff rpc

/-- A call that has failed changes nothing in what the client believes. -/
theorem believed_failed (results : List CallResult) {result : CallResult} (failed : result.code ≠ 0) :
    believed (results ++ [result]) = believed results := by
  unfold believed
  rw [List.foldl_append]
  exact if_neg failed

namespace ClientRun

/-- No ReleaseLock ends with a status that `chubby_unlock` does not name. -/
def Named {cells : ChubbyCells} (r : ClientRun) : ClientStep cells → Prop
  | .ends k rpc => ∀ call ∈ r.calls[k]?, call.request.Names rpc.code
  | _ => True

instance {cells : ChubbyCells} (r : ClientRun) : DecidablePred (@Named cells r)
  | .ends k rpc => inferInstanceAs (Decidable (∀ call ∈ r.calls[k]?, call.request.Names rpc.code))
  | .sendKeepAlive | .keepAlive .. | .call _ | .test .. => .isTrue trivial

theorem named_of_unended {cells : ChubbyCells} (r : ClientRun) {step : ClientStep cells}
    (unended : step.endedCall = none) : r.Named step := by
  cases step with
  | ends k rpc => cases unended
  | sendKeepAlive | keepAlive k step | call request | test k now => trivial

/-- A step that returns nothing confirms nothing and changes nothing. -/
theorem confirms_of_same {cells : ChubbyCells} {r next : ClientRun} {step : ClientStep cells}
    (same : next.results = r.results) : Confirms r step next := by
  refine ⟨fun result added => ?_, fun changed => absurd (congrArg believed same) changed⟩
  rw [same] at added
  cases List.self_eq_append_right.mp added

theorem confirms_iff_named {cells : ChubbyCells} {r next : ClientRun} {step : ClientStep cells}
    (taken : r.step cells step = some next) : Confirms r step next ↔ r.Named step := by
  have returns := step_returns taken
  generalize after : next.results = results at returns
  cases returns with
  | none unended => exact iff_of_true (confirms_of_same after) (r.named_of_unended unended)
  | @refused _ request code failed unended =>
      refine iff_of_true ⟨fun result added => ?_, fun changed => ?_⟩ (r.named_of_unended unended)
      · cases List.append_cancel_left (after.symm.trans added)
        exact iff_of_false failed fun confirmed => by
          obtain ⟨rpc, made, _⟩ := confirmed
          cases made
      · rw [after] at changed
        exact absurd (believed_failed _ failed) changed
  | @ended k rpc call found =>
      have named : r.Named (.ends k rpc : ClientStep cells) ↔ call.request.Names rpc.code := by
        unfold Named
        dsimp only
        rw [found]
        exact ⟨fun all => all call rfl, fun names other same => Option.some.inj same ▸ names⟩
      rw [named, ← endCode_confirms_iff]
      constructor
      · intro confirms
        exact (confirms.1 _ after).trans (confirmed_iff rpc)
      · intro exact_
        refine ⟨fun result added => ?_, fun changed => ⟨k, rpc, rfl, ?_⟩⟩
        · cases List.append_cancel_left (after.symm.trans added)
          exact exact_.trans (confirmed_iff rpc).symm
        · by_contra unconfirmed
          rw [after] at changed
          exact changed (believed_failed _ fun zero => unconfirmed (exact_.mp zero))

end ClientRun

/-- Along every run of a client the lock calls report success exactly for confirmed requests, and what the
client believes to hold changes only by them, exactly when every ReleaseLock ends with a named status. -/
theorem confirms_iff {cells : ChubbyCells} {client : ClientFields} {steps : List (ClientStep cells)}
    {final : ClientRun}
    (ran : run (ClientRun.step cells) (ClientRun.start client) steps = some final) :
    EveryStep (ClientRun.step cells) ClientRun.Confirms (ClientRun.start client) steps ↔
      Guarded (ClientRun.step cells) ClientRun.Named (ClientRun.start client) steps := by
  refine everyStep_iff_guarded_of_invariant (fun _ => True) ?_ ?_ trivial ran
  · intro r step next _ taken
    exact ClientRun.confirms_iff_named taken
  · intro r step next _ _ _
    trivial

/-- A lock is acquired and then released; the second call ends with the given status. -/
def lockThenUnlock {cells : ChubbyCells} (leader : String) (code : StatusCode) : List (ClientStep cells) :=
  [.call (.acquireLock "x" "EXCLUSIVE"), .test 0 5, .ends 0 ⟨.ok, true, leader⟩, .call (.releaseLock "x"),
    .test 1 6, .ends 1 ⟨code, false, ""⟩]

theorem confirms_iff_deadlineExceeded : ∃ final : ClientRun, "x" ∈ believed final.results ∧
    run (ClientRun.step oneCell) (ClientRun.start ⟨"127.0.0.1:50051", 100, true, 0⟩)
      (lockThenUnlock "127.0.0.1:50051" .deadlineExceeded) = some final ∧
    EveryStep (ClientRun.step oneCell) ClientRun.Confirms
      (ClientRun.start ⟨"127.0.0.1:50051", 100, true, 0⟩)
      (lockThenUnlock "127.0.0.1:50051" .deadlineExceeded) := by
  obtain ⟨final, ran, held⟩ := (Option.any_eq_true _ _).mp (by decide +kernel :
    (run (ClientRun.step oneCell) (ClientRun.start ⟨"127.0.0.1:50051", 100, true, 0⟩)
      (lockThenUnlock "127.0.0.1:50051" .deadlineExceeded)).any
        (fun final => decide ("x" ∈ believed final.results)) = true)
  exact ⟨final, of_decide_eq_true held, ran, (confirms_iff ran).mpr (by decide +kernel)⟩

/-- The server is unreachable, and the client forgets a lock that it still holds. -/
theorem unlock_unconfirmed : ¬ ∀ (cells : ChubbyCells) (client : ClientFields)
    (steps : List (ClientStep cells)) (final : ClientRun),
    run (ClientRun.step cells) (ClientRun.start client) steps = some final →
      ∀ result ∈ final.results, result.code = 0 ↔ ∃ rpc, result.rpc = some rpc ∧ rpc.Confirms := by
  intro confirms
  obtain ⟨final, ran, released⟩ := (Option.any_eq_true _ _).mp (by decide +kernel :
    (run (ClientRun.step oneCell) (ClientRun.start ⟨"127.0.0.1:50051", 100, true, 0⟩)
      (lockThenUnlock "127.0.0.1:50051" .unavailable)).any (fun final => decide
        ((⟨.releaseLock "x", some ⟨.unavailable, false, ""⟩, 0⟩ : CallResult) ∈ final.results)) = true)
  obtain ⟨rpc, made, confirmed⟩ := (confirms oneCell _ _ final ran _ (of_decide_eq_true released)).mp rfl
  cases made
  exact absurd confirmed (by decide)

end Chubby.Client
