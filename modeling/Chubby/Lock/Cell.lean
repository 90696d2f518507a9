/-
This file composes the lock handlers of all servers with the Paxos cluster.
-/

import Chubby.Lock.Server
import Chubby.Paxos.Cluster

namespace Chubby.Lock

open Chubby.Paxos (Cluster keyValue leaderOf)

/-- A thread answers one request or releases the locks of one expired client. -/
inductive Task where
  | acquire (mode : LockingMode)
  | release
  | expire
  deriving DecidableEq, Repr

/-- A `Put` returns when the Paxos thread that `Start` has joined is over. -/
inductive PutThread where
  | done
  | round (r : Nat)
  | forward (f : Nat)
  deriving DecidableEq, Repr

/-- The key lock is held in every phase from `locked` to `putting`. -/
inductive HandlerPhase where
  | calling
  | called
  | waiting
  | locked
  | checked (session : Bool)
  | decided (decision : Decision)
  | starting (seq : Int)
  | putting (thread : PutThread)
  | finished
  deriving DecidableEq, Repr

/-- The first key is the one in work; `freed` collects the keys for which the thread has decided to
put `FREE`, and `answer` is the success field of the leader's response. -/
structure Handler (n : Nat) where
  server : Fin n
  client : String
  task : Task
  keys : List String
  freed : List String
  answer : Bool
  phase : HandlerPhase
  deriving DecidableEq, Repr

/-- A client holds a path from the answer of its acquire to the end of a release or an expiry. -/
structure Hold where
  client : String
  path : String
  mode : LockingMode
  deriving DecidableEq, Repr

/-- The pointer of each lock server to its Paxos service is the index of the server. The holds and
the value that was last put for a path are history variables that no handler reads. -/
structure Cell (n : Nat) where
  paxos : Cluster n
  chubby : Fin n → ChubbyImpl (Fin n)
  expiring : Fin n → List String
  clock : Nat
  handlers : List (Handler n)
  holds : List Hold
  lastPut : String → Option String

/-- Every choice of the environment is one label. -/
inductive CellLabel (n : Nat) where
  | paxos (label : Paxos.Label n)
  | keepAlive (server : Fin n) (client : String) (now : Nat)
  | acquireLock (server : Fin n) (client path : String) (mode : LockingMode)
  | releaseLock (server : Fin n) (client path : String)
  | callLeader (handler : Nat)
  | leaderReturns (handler : Nat) (answer : Bool)
  | lock (handler : Nat)
  | checkSession (handler : Nat)
  | decide (handler : Nat)
  | readSlot (handler : Nat)
  | start (handler : Nat)
  | finish (handler : Nat)
  | checkLeases (server : Fin n) (now : Nat) (order : List String)
  | expireNext (server : Fin n)
  deriving DecidableEq, Repr

namespace Handler

variable {n : Nat}

def holdsKey (handler : Handler n) (path : String) : Bool :=
  handler.keys.head? = some path &&
    match handler.phase with
    | .locked | .checked _ | .decided _ | .starting _ | .putting _ => true
    | .calling | .called | .waiting | .finished => false

/-- The value that the thread puts when it takes the `put` branch. -/
def putValue (handler : Handler n) : String :=
  match handler.task with
  | .acquire mode => mode.text
  | .release | .expire => "FREE"

def decision (handler : Handler n) (session : Bool) (found : Option String) : Decision :=
  match handler.task with
  | .acquire mode => acquireDecision session found mode.text
  | .release => releaseDecision found
  | .expire => if Locked found then .put else .refuse ""

/-- A thread that puts `FREE` will have freed the path. -/
def choose (handler : Handler n) (path : String) (decision : Decision) : Handler n :=
  { handler with
    freed := if decision = .put ∧ handler.putValue = "FREE" then path :: handler.freed else handler.freed
    phase := .decided decision }

end Handler

namespace Cell

variable {n : Nat}

/-- Every process starts with a slot number of its own. -/
def initial (n : Nat) (slotNumbers : Fin n → Int) : Cell n where
  paxos := .initial n
  chubby := fun i => .initial i (slotNumbers i)
  expiring := fun _ => []
  clock := 0
  handlers := []
  holds := []
  lastPut := fun _ => none

def setChubby (c : Cell n) (i : Fin n) (chubby : ChubbyImpl (Fin n)) : Cell n :=
  { c with chubby := Function.update c.chubby i chubby }

def setHandler (c : Cell n) (h : Nat) (handler : Handler n) : Cell n :=
  { c with handlers := c.handlers.set h handler }

def setPhase (c : Cell n) (h : Nat) (handler : Handler n) (phase : HandlerPhase) : Cell n :=
  c.setHandler h { handler with phase }

def found (c : Cell n) (i : Fin n) (path : String) : Option String :=
  (c.paxos.servers (c.chubby i).paxosService).paxosDb.get path

def keyFree (c : Cell n) (i : Fin n) (path : String) : Bool :=
  c.handlers.all fun handler => handler.server ≠ i || !handler.holdsKey path

/-- A request that meets a recent election is answered with ABORTED and leaves no thread. -/
def arrive (c : Cell n) (i : Fin n) (client path : String) (task : Task) : Cell n :=
  let server := c.paxos.servers i
  if server.leaderElectionHappened then c
  else
    let phase := if server.leaderDead then .calling else .waiting
    { c with handlers := c.handlers ++ [⟨i, client, task, [path], [], false, phase⟩] }

/-- A server whose leader is dead sends the request to the leader of its view. -/
def callLeader (c : Cell n) (h : Nat) : Option (Cell n) :=
  match c.handlers[h]? with
  | none => none
  | some handler =>
      match handler.phase, handler.keys with
      | .calling, path :: _ =>
          (leaderOf n (c.paxos.servers handler.server).view).map fun leader =>
            (c.setPhase h handler .called).arrive leader handler.client path handler.task
      | _, _ => none

/-- The call fails or returns at any time, and the handler goes on with whatever response it has. -/
def leaderReturns (c : Cell n) (h : Nat) (answer : Bool) : Option (Cell n) :=
  match c.handlers[h]? with
  | none => none
  | some handler =>
      if handler.phase = .calling ∨ handler.phase = .called then
        some (c.setHandler h { handler with answer, phase := .waiting })
      else none

/-- `AcquireLock` moves the slot number as soon as it has the key lock. -/
def lock (c : Cell n) (h : Nat) : Option (Cell n) :=
  match c.handlers[h]? with
  | none => none
  | some handler =>
      match handler.phase, handler.keys with
      | .waiting, path :: _ =>
          if c.keyFree handler.server path then
            let chubby := c.chubby handler.server
            let moved := match handler.task with
              | .acquire _ => chubby.nextSlot
              | .release | .expire => chubby
            some ((c.setChubby handler.server moved).setPhase h handler .locked)
          else none
      | _, _ => none

/-- Only `AcquireLock` uses the result. -/
def checkSession (c : Cell n) (h : Nat) : Option (Cell n) :=
  match c.handlers[h]? with
  | none => none
  | some handler =>
      if handler.phase = .locked then
        some (c.setPhase h handler (.checked ((c.chubby handler.server).hasSession handler.client)))
      else none

/-- The handler reads its own server's database and chooses a branch. -/
def decide (c : Cell n) (h : Nat) : Option (Cell n) :=
  match c.handlers[h]? with
  | none => none
  | some handler =>
      match handler.phase, handler.keys with
      | .checked session, path :: _ =>
          let decision := handler.decision session (c.found handler.server path)
          let next := c.setHandler h (handler.choose path decision)
          some (if decision = .put then
            { next with lastPut := Function.update c.lastPut path (some handler.putValue) } else next)
      | _, _ => none

def readSlot (c : Cell n) (h : Nat) : Option (Cell n) :=
  match c.handlers[h]? with
  | none => none
  | some handler =>
      if handler.phase = .decided .put then
        some (c.setPhase h handler (.starting (c.chubby handler.server).slotNumber))
      else none

/-- `Start` joins the thread of its round or of its `StartOnForward`. -/
def putThread (before after : Cluster n) : PutThread :=
  if before.rounds.length < after.rounds.length then .round before.rounds.length
  else if before.forwards.length < after.forwards.length then .forward before.forwards.length
  else .done

def start (c : Cell n) (h : Nat) : Option (Cell n) :=
  match c.handlers[h]? with
  | none => none
  | some handler =>
      match handler.phase, handler.keys with
      | .starting seq, path :: _ =>
          (c.paxos.start (c.chubby handler.server).paxosService seq (keyValue path handler.putValue)).map
            fun paxos => { c.setPhase h handler (.putting (putThread c.paxos paxos)) with paxos }
      | _, _ => none

def threadOver (c : Cell n) : PutThread → Bool
  | .done => true
  | .round r => c.paxos.rounds[r]?.any fun round =>
      match round.phase with
      | .finished => true
      | .waiting | .preparing _ _ _ | .accepting _ _ | .learning _ | .forwarding => false
  | .forward f => c.paxos.forwards[f]?.any fun forward => forward.phase = .finished

/-- The success field of the answer; no branch sets it when no branch is taken. -/
def succeeds (handler : Handler n) : Decision → Bool
  | .put | .join => true
  | .refuse _ => false
  | .unanswered => handler.answer

/-- The end of the section updates the lock map, sets the response and releases the key lock. -/
def conclude (c : Cell n) (h : Nat) (handler : Handler n) (path : String) (rest : List String)
    (decision : Decision) : Cell n :=
  let chubby := c.chubby handler.server
  match handler.task with
  | .acquire mode =>
      let inserted := if decision = .put ∨ decision = .join then chubby.insertLock path handler.client
        else chubby
      let next := (c.setChubby handler.server inserted).setPhase h handler .finished
      if succeeds handler decision then { next with holds := ⟨handler.client, path, mode⟩ :: c.holds }
      else next
  | .release =>
      let erased := if decision = .put then chubby.eraseLock path handler.client else chubby
      let next := (c.setChubby handler.server erased).setPhase h handler .finished
      if succeeds handler decision then
        { next with holds := c.holds.filter fun hold =>
            ¬ (hold.client = handler.client ∧ hold.path = path) }
      else next
  | .expire => c.setHandler h { handler with keys := rest, phase := .waiting }

/-- `ReleaseLocksForClient` has come to its end. -/
def endExpiry (c : Cell n) (h : Nat) (handler : Handler n) : Cell n :=
  { c.setPhase h handler .finished with
    holds := c.holds.filter fun hold => hold.client ≠ handler.client }

def finish (c : Cell n) (h : Nat) : Option (Cell n) :=
  match c.handlers[h]? with
  | none => none
  | some handler =>
      match handler.phase, handler.keys with
      | .waiting, [] => some (c.endExpiry h handler)
      | .decided decision, path :: rest =>
          if decision = .put then none else some (c.conclude h handler path rest decision)
      | .putting thread, path :: rest =>
          if c.threadOver thread then some (c.conclude h handler path rest .put) else none
      | _, _ => none

/-- The lease checker of a server runs one thread for one client after the other. -/
def checkerFree (c : Cell n) (i : Fin n) : Bool :=
  c.handlers.all fun handler =>
    handler.server ≠ i || handler.task ≠ .expire || handler.phase = .finished

def checkLeases (c : Cell n) (i : Fin n) (now : Nat) (order : List String) : Option (Cell n) :=
  let chubby := c.chubby i
  if c.clock ≤ now ∧ c.expiring i = [] ∧ c.checkerFree i ∧ order.Perm (chubby.expiredClients now) then
    let erased := order.foldl (fun leases client => leases.erase client) chubby.clientLeaseMap
    some { c.setChubby i { chubby with clientLeaseMap := erased } with
      expiring := Function.update c.expiring i order
      clock := now }
  else none

def expireNext (c : Cell n) (i : Fin n) : Option (Cell n) :=
  match c.expiring i with
  | [] => none
  | client :: rest =>
      if c.checkerFree i then
        some { c with
          expiring := Function.update c.expiring i rest
          handlers := c.handlers ++
            [⟨i, client, .expire, (c.chubby i).lockedKeys client, [], false, .waiting⟩] }
      else none

/-- The lease is renewed when the handler wakes up; a forwarded call has the same effect on the
leader. -/
def keepAlive (c : Cell n) (i : Fin n) (client : String) (now : Nat) : Option (Cell n) :=
  let chubby := c.chubby i
  if c.clock ≤ now ∧ chubby.keepAliveWakes client (chubby.leaseOf client) now then
    let renewed := chubby.clientLeaseMap.insert client (now + leaseTimeout)
    some { c.setChubby i { chubby with clientLeaseMap := renewed } with clock := now }
  else none

/-- Clients only reach Paxos through the lock handlers. -/
def step (c : Cell n) : CellLabel n → Option (Cell n)
  | .paxos (.start _ _ _) => none
  | .paxos label => (c.paxos.step label).map fun paxos => { c with paxos }
  | .keepAlive i client now => c.keepAlive i client now
  | .acquireLock i client path mode => some (c.arrive i client path (.acquire mode))
  | .releaseLock i client path => some (c.arrive i client path .release)
  | .callLeader h => c.callLeader h
  | .leaderReturns h answer => c.leaderReturns h answer
  | .lock h => c.lock h
  | .checkSession h => c.checkSession h
  | .decide h => c.decide h
  | .readSlot h => c.readSlot h
  | .start h => c.start h
  | .finish h => c.finish h
  | .checkLeases i now order => c.checkLeases i now order
  | .expireNext i => c.expireNext i

end Cell

end Chubby.Lock
