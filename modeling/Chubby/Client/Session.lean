/-
This file models the client library and its one server under a shared clock.
-/

import Chubby.Library.Runs
import Chubby.Lock.Table

namespace Chubby.Client

open Chubby.Lock
open Chubby.Paxos (HandlerError)

/-- These fields of `ClientLib` change in the calls of a session; its lease is in seconds. -/
structure ClientLib where
  clientLeaseTimeout : Nat
  acceptRequests : Bool
  latestEpochNumber : Int
  deriving DecidableEq, Repr

def ClientLib.leaseTimeout : Nat := 12

def ClientLib.gracePeriod : Nat := 45

/-- The thread of `send_keep_alive`: it tests the condition of its first or second loop against the
time that it has read, waits for its call, or sleeps for a second after a failure. -/
inductive Keeper where
  | idle
  | looping (grace : Bool) (currentTime : Nat)
  | calling (grace : Bool) (currentTime : Nat) (rpc : Nat)
  | sleeping (grace : Bool) (wakes : Nat)
  | returned (code : Int)
  deriving DecidableEq, Repr

inductive Request where
  | keepAlive
  | acquireLock (path mode : String)
  | releaseLock (path : String)
  deriving DecidableEq, Repr

/-- A request is on its way until its handler starts; a handler of `KeepAlive` sleeps. -/
inductive Stage where
  | sent
  | sleeping (deadline : Nat)
  | renewed (response : KeepAliveResponse)
  | answered (reply : Except HandlerError LockResponse)

/-- A call that has failed on the client's side may still be handled by the server. -/
structure Rpc where
  request : Request
  stage : Stage
  awaited : Bool

/-- The status of a call whose response does not arrive. -/
inductive Failure where
  | deadlineExceeded
  | unavailable
  deriving DecidableEq, Repr

/-- The client with its calls and the last code of a lock call, the server with its lease checker, and
the paths that the client holds by its own codes. The checker has taken the clients in `expiring` out
of the lease map and still has to release the keys in `keys`. -/
structure Session where
  clientId : String
  clock : Nat
  client : ClientLib
  keeper : Keeper
  rpcs : List Rpc
  server : ChubbyImpl Database
  expiring : List String
  keys : List String
  lastCode : Option Int
  locked : List String

/-- Every choice of the environment is one label. -/
inductive SessionLabel where
  | tick (now : Nat)
  | newView (view : Int)
  | sendKeepAlive
  | keeperTests (emptyServer : Bool)
  | keeperReturns
  | keeperFails
  | keeperWakes
  | chubbyLock (path mode : String)
  | chubbyUnlock (path : String)
  | returns (rpc : Nat)
  | fails (rpc : Nat) (failure : Failure)
  | deliver (rpc : Nat)
  | wake (rpc : Nat)
  | checkLeases (order : List String)
  | expireNext
  | freeKey
  deriving DecidableEq, Repr

/-- The status codes of gRPC. -/
inductive StatusCode where
  | ok
  | cancelled
  | unknown
  | invalidArgument
  | deadlineExceeded
  | notFound
  | alreadyExists
  | permissionDenied
  | resourceExhausted
  | failedPrecondition
  | aborted
  | outOfRange
  | unimplemented
  | internal
  | unavailable
  | dataLoss
  | unauthenticated
  deriving DecidableEq, Repr

/-- How an AcquireLock or ReleaseLock call ends; its response is read only for the status OK. -/
structure RpcEnd where
  code : StatusCode
  success : Bool
  currentLeader : String
  deriving DecidableEq, Repr

/-- The code of `chubby_lock` once its call has ended. -/
def chubbyLockCode (rpc : RpcEnd) : Int :=
  if rpc.code = .ok then if rpc.success then 0 else -1
  else if rpc.code = .aborted then -5
  else -2

/-- The code of `chubby_unlock` once its call has ended; every status it does not name is a success. -/
def chubbyUnlockCode (rpc : RpcEnd) : Int :=
  if rpc.code = .ok then if rpc.success then 0 else -1
  else if rpc.code = .aborted then -5
  else if rpc.code = .deadlineExceeded then -2
  else 0

/-- The outcomes of a session as ends of calls; gRPC reports an exception of a handler as unknown. -/
def endOf : Except Failure (Except HandlerError LockResponse) → RpcEnd
  | .ok (.ok response) => ⟨.ok, response.success, response.currentLeader⟩
  | .ok (.error (.abortedStatus _)) => ⟨.aborted, false, ""⟩
  | .ok (.error (.invalidArgumentStatus _)) => ⟨.invalidArgument, false, ""⟩
  | .ok (.error (.invalidArgumentException _)) => ⟨.unknown, false, ""⟩
  | .error .deadlineExceeded => ⟨.deadlineExceeded, false, ""⟩
  | .error .unavailable => ⟨.unavailable, false, ""⟩

def lockCode (outcome : Except Failure (Except HandlerError LockResponse)) : Int :=
  chubbyLockCode (endOf outcome)

def unlockCode (outcome : Except Failure (Except HandlerError LockResponse)) : Int :=
  chubbyUnlockCode (endOf outcome)

namespace Session

/-- `chubby_open` has set the lease of the client and is about to send its first KeepAlive. -/
def opened (clientId : String) (clock : Nat) : Session where
  clientId := clientId
  clock := clock
  client := ⟨clock / 1000 + ClientLib.leaseTimeout, true, 0⟩
  keeper := .idle
  rpcs := []
  server := .initial .empty 0
  expiring := []
  keys := []
  lastCode := none
  locked := []

/-- Both programs read the clock in whole seconds where they compare with the client's lease. -/
def seconds (s : Session) : Nat := s.clock / 1000

def send (s : Session) (request : Request) : Session :=
  { s with rpcs := s.rpcs ++ [⟨request, .sent, true⟩] }

def setStage (s : Session) (k : Nat) (rpc : Rpc) (stage : Stage) : Session :=
  { s with rpcs := s.rpcs.set k { rpc with stage } }

/-- The caller no longer waits for the call. -/
def endCall (s : Session) (k : Nat) (rpc : Rpc) : Session :=
  { s with rpcs := s.rpcs.set k { rpc with awaited := false } }

def callKeepAlive (s : Session) (grace : Bool) (currentTime : Nat) : Session :=
  { s.send .keepAlive with keeper := .calling grace currentTime s.rpcs.length }

def sendKeepAlive (s : Session) : Option Session :=
  match s.keeper with
  | .idle | .returned _ => some { s with keeper := .looping false s.seconds }
  | _ => none

/-- The second loop picks its server from a shuffled vector that may have empty entries in front. -/
def keeperTests (s : Session) (emptyServer : Bool) : Option Session :=
  match s.keeper with
  | .looping false currentTime =>
      if currentTime < s.client.clientLeaseTimeout then some (s.callKeepAlive false currentTime)
      else some { s with keeper := .looping true s.seconds }
  | .looping true currentTime =>
      if currentTime < s.client.clientLeaseTimeout + ClientLib.gracePeriod then
        let jeopardy := { s with client := { s.client with acceptRequests := false } }
        if emptyServer then some { jeopardy with keeper := .returned (-2) }
        else some (jeopardy.callKeepAlive true currentTime)
      else some { s with keeper := .returned (-1) }
  | _ => none

/-- A newer epoch only makes the loop go on with the time that it had read before. -/
def keeperReturns (s : Session) : Option Session :=
  match s.keeper with
  | .calling grace currentTime k =>
      match s.rpcs[k]? with
      | some ⟨request, .renewed response, true⟩ =>
          let ended := s.endCall k ⟨request, .renewed response, true⟩
          if response.success then
            if response.epochNumber > s.client.latestEpochNumber then
              some { ended with
                client := { s.client with latestEpochNumber := response.epochNumber }
                keeper := .looping grace currentTime }
            else
              some { ended with
                client := { s.client with
                  clientLeaseTimeout := response.leaseTimeout
                  acceptRequests := true }
                keeper := .returned 0 }
          else if grace then some { ended with keeper := .sleeping true (s.clock + 1000) }
          else some { ended with keeper := .looping false s.seconds }
      | _ => none
  | _ => none

def keeperFails (s : Session) : Option Session :=
  match s.keeper with
  | .calling grace _ k =>
      (s.rpcs[k]?).map fun rpc =>
        { s.endCall k rpc with keeper := .sleeping grace (s.clock + 1000) }
  | _ => none

def keeperWakes (s : Session) : Option Session :=
  match s.keeper with
  | .sleeping grace wakes =>
      if wakes ≤ s.clock then some { s with keeper := .looping grace s.seconds } else none
  | _ => none

/-- In jeopardy or outside its lease the client returns one of these codes without a call. -/
def refusal (s : Session) : Option Int :=
  if !s.client.acceptRequests then some (-4)
  else if s.seconds < s.client.clientLeaseTimeout then none
  else some (-3)

/-- A lock call either returns at once or sends its request. -/
def call (s : Session) (request : Request) : Session :=
  match s.refusal with
  | some code => { s with lastCode := some code }
  | none => s.send request

def chubbyLock (s : Session) (path mode : String) : Session := s.call (.acquireLock path mode)

/-- The path counts as given up as soon as `chubby_unlock` is called. -/
def chubbyUnlock (s : Session) (path : String) : Session :=
  { s with locked := s.locked.filter (· ≠ path) }.call (.releaseLock path)

/-- A call of `chubby_lock` or `chubby_unlock` ends with a reply or a failure. -/
def finishCall (s : Session) (k : Nat) (rpc : Rpc)
    (outcome : Except Failure (Except HandlerError LockResponse)) : Option Session :=
  match rpc.request with
  | .acquireLock path _ => some { s.endCall k rpc with
      lastCode := some (lockCode outcome)
      locked := if lockCode outcome = 0 then path :: s.locked else s.locked }
  | .releaseLock _ => some { s.endCall k rpc with lastCode := some (unlockCode outcome) }
  | .keepAlive => none

def returns (s : Session) (k : Nat) : Option Session :=
  match s.rpcs[k]? with
  | some ⟨request, .answered reply, true⟩ => s.finishCall k ⟨request, .answered reply, true⟩ (.ok reply)
  | _ => none

def fails (s : Session) (k : Nat) (failure : Failure) : Option Session :=
  match s.rpcs[k]? with
  | some ⟨request, stage, true⟩ => s.finishCall k ⟨request, stage, true⟩ (.error failure)
  | _ => none

/-- The handlers of the lock calls end at once; the one of `KeepAlive` reads its deadline first. -/
def deliver (s : Session) (k : Nat) : Option Session :=
  match s.rpcs[k]? with
  | some ⟨.keepAlive, .sent, awaited⟩ =>
      some (s.setStage k ⟨.keepAlive, .sent, awaited⟩ (.sleeping (s.server.leaseOf s.clientId)))
  | some ⟨.acquireLock path mode, .sent, awaited⟩ =>
      (s.server.acquireLock s.clientId path mode).map fun handled =>
        { s.setStage k ⟨.acquireLock path mode, .sent, awaited⟩ (.answered handled.2) with
          server := handled.1 }
  | some ⟨.releaseLock path, .sent, awaited⟩ =>
      (s.server.releaseLock s.clientId path).map fun handled =>
        { s.setStage k ⟨.releaseLock path, .sent, awaited⟩ (.answered handled.2) with
          server := handled.1 }
  | _ => none

def wake (s : Session) (k : Nat) : Option Session :=
  match s.rpcs[k]? with
  | some ⟨request, .sleeping deadline, awaited⟩ =>
      if s.server.keepAliveWakes s.clientId deadline s.clock then
        let handled := s.server.keepAlive s.clientId s.clock
        some { s.setStage k ⟨request, .sleeping deadline, awaited⟩ (.renewed handled.2) with
          server := handled.1 }
      else none
  | _ => none

def checkLeases (s : Session) (order : List String) : Option Session :=
  if s.expiring = [] ∧ s.keys = [] ∧ order.Perm (s.server.expiredClients s.clock) then
    let leases := order.foldl (fun leases client => leases.erase client) s.server.clientLeaseMap
    some { s with server := { s.server with clientLeaseMap := leases }, expiring := order }
  else none

def expireNext (s : Session) : Option Session :=
  match s.keys, s.expiring with
  | [], client :: rest => some { s with expiring := rest, keys := s.server.lockedKeys client }
  | _, _ => none

def freeKey (s : Session) : Option Session :=
  match s.keys with
  | [] => none
  | key :: rest => (s.server.expireKey key).map fun server => { s with server, keys := rest }

def newView (s : Session) (view : Int) : Option Session :=
  if s.server.paxosService.view < view then
    some { s with server := { s.server with paxosService := { s.server.paxosService with view } } }
  else none

def step (s : Session) : SessionLabel → Option Session
  | .tick now => if s.clock ≤ now then some { s with clock := now } else none
  | .newView view => s.newView view
  | .sendKeepAlive => s.sendKeepAlive
  | .keeperTests emptyServer => s.keeperTests emptyServer
  | .keeperReturns => s.keeperReturns
  | .keeperFails => s.keeperFails
  | .keeperWakes => s.keeperWakes
  | .chubbyLock path mode => some (s.chubbyLock path mode)
  | .chubbyUnlock path => some (s.chubbyUnlock path)
  | .returns k => s.returns k
  | .fails k failure => s.fails k failure
  | .deliver k => s.deliver k
  | .wake k => s.wake k
  | .checkLeases order => s.checkLeases order
  | .expireNext => s.expireNext
  | .freeKey => s.freeKey

end Session

end Chubby.Client
