/-
This file lists what a step of the lock servers does to their threads and to the history.
-/

import Chubby.Lock.Cell

namespace Chubby.Lock

variable {n : Nat}

/-- The thread has chosen to put a value and has not ended its section. -/
def HandlerPhase.puts : HandlerPhase → Bool
  | .decided .put | .starting _ | .putting _ => true
  | _ => false

/-- An acquire in this phase will be answered with success. -/
def HandlerPhase.granted : HandlerPhase → Bool
  | .decided .join => true
  | phase => phase.puts

/-- The phases that follow each other without a decision. -/
inductive Moves : HandlerPhase → HandlerPhase → Prop where
  | calls : Moves .calling .called
  | fails : Moves .calling .waiting
  | returns : Moves .called .waiting
  | locks : Moves .waiting .locked
  | checks {session : Bool} : Moves .locked (.checked session)
  | reads {seq : Int} : Moves (.decided .put) (.starting seq)
  | starts {seq : Int} {thread : PutThread} : Moves (.starting seq) (.putting thread)

/-- Such a move keeps what the phase says about the locks, and neither ends nor decides. -/
structure Advances (before after : HandlerPhase) : Prop where
  puts : after.puts = before.puts
  granted : after.granted = before.granted
  running : before ≠ .finished ∧ after ≠ .finished
  decided : ∀ decision, after ≠ .decided decision

theorem Moves.advances {before after : HandlerPhase} (moves : Moves before after) :
    Advances before after := by
  cases moves <;> exact ⟨rfl, rfl, by simp, by simp⟩

/-- The thread comes to the end of its section with this decision. -/
def Ends (handler : Handler n) (decision : Decision) : Prop :=
  (decision ≠ .put ∧ handler.phase = .decided decision) ∨
    (decision = .put ∧ ∃ thread, handler.phase = .putting thread)

/-- The ways in which a step changes the threads, the holds and the values last put. -/
inductive CellEvent (c : Cell n) : CellLabel n → Cell n → Prop where
  | quiet {label : CellLabel n} {c' : Cell n} (handlers : c'.handlers = c.handlers)
      (holds : c'.holds = c.holds) (lastPut : c'.lastPut = c.lastPut) : CellEvent c label c'
  | spawned {label : CellLabel n} {c' : Cell n} {new : Handler n}
      (handlers : c'.handlers = c.handlers ++ [new]) (holds : c'.holds = c.holds)
      (lastPut : c'.lastPut = c.lastPut) (freed : new.freed = [])
      (fresh : new.phase = .calling ∨ new.phase = .waiting) : CellEvent c label c'
  | advanced {label : CellLabel n} {c' : Cell n} {h : Nat} {handler : Handler n} {answer : Bool}
      {phase : HandlerPhase} (handlers : c'.handlers = c.handlers.set h { handler with answer, phase })
      (holds : c'.holds = c.holds) (lastPut : c'.lastPut = c.lastPut)
      (at_ : c.handlers[h]? = some handler) (moves : Moves handler.phase phase)
      (free : phase = .locked →
        label = .lock h ∧ ∀ path ∈ handler.keys.head?, c.keyFree handler.server path = true)
      (starts : ∀ thread, phase = .putting thread → label = .start h) : CellEvent c label c'
  | called {h : Nat} {handler new : Handler n} {c' : Cell n}
      (handlers : c'.handlers = c.handlers.set h { handler with phase := .called } ++ [new])
      (holds : c'.holds = c.holds) (lastPut : c'.lastPut = c.lastPut)
      (at_ : c.handlers[h]? = some handler) (calls : handler.phase = .calling) (freed : new.freed = [])
      (fresh : new.phase = .calling ∨ new.phase = .waiting) : CellEvent c (.callLeader h) c'
  | decided {h : Nat} {handler : Handler n} {session : Bool} {path : String} {rest : List String}
      {decision : Decision} {c' : Cell n} (at_ : c.handlers[h]? = some handler)
      (checked : handler.phase = .checked session) (keys : handler.keys = path :: rest)
      (chosen : handler.decision session (c.found handler.server path) = decision)
      (handlers : c'.handlers = c.handlers.set h (handler.choose path decision))
      (holds : c'.holds = c.holds)
      (lastPut : c'.lastPut = if decision = .put then
        Function.update c.lastPut path (some handler.putValue) else c.lastPut) :
      CellEvent c (.decide h) c'
  | concluded {h : Nat} {handler : Handler n} {path : String} {rest : List String}
      {decision : Decision} (at_ : c.handlers[h]? = some handler) (keys : handler.keys = path :: rest)
      (ends : Ends handler decision) :
      CellEvent c (.finish h) (c.conclude h handler path rest decision)
  | expiryEnds {h : Nat} {handler : Handler n} (at_ : c.handlers[h]? = some handler)
      (waits : handler.phase = .waiting) (keys : handler.keys = []) :
      CellEvent c (.finish h) (c.endExpiry h handler)

namespace Cell

/-- A request that arrives leaves no thread after an election, and else one that has not decided. -/
theorem arrive_cases (c : Cell n) (i : Fin n) (client path : String) (task : Task) :
    ((c.paxos.servers i).leaderElectionHappened = true ∧ c.arrive i client path task = c) ∨
      ((c.paxos.servers i).leaderElectionHappened ≠ true ∧
        ∃ phase, (phase = .calling ∨ phase = .waiting) ∧ c.arrive i client path task =
          { c with handlers := c.handlers ++ [⟨i, client, task, [path], [], false, phase⟩] }) := by
  unfold arrive
  dsimp only
  split
  next elected => exact .inl ⟨elected, rfl⟩
  next unelected =>
    refine .inr ⟨unelected, _, ?_, rfl⟩
    split
    · exact .inl rfl
    · exact .inr rfl

theorem arrive_event (c : Cell n) (label : CellLabel n) (i : Fin n) (client path : String) (task : Task) :
    CellEvent c label (c.arrive i client path task) := by
  obtain ⟨_, same⟩ | ⟨_, phase, fresh, same⟩ := c.arrive_cases i client path task
  · rw [same]
    exact .quiet rfl rfl rfl
  · rw [same]
    exact .spawned rfl rfl rfl rfl fresh

/-- A call to the leader is the arrival of the same request there. -/
theorem callLeader_cases {c c' : Cell n} {h : Nat} (taken : c.callLeader h = some c') :
    ∃ handler path rest leader, c.handlers[h]? = some handler ∧ handler.phase = .calling ∧
      handler.keys = path :: rest ∧
      c' = (c.setPhase h handler .called).arrive leader handler.client path handler.task := by
  unfold callLeader at taken
  split at taken
  · cases taken
  next handler at_ =>
    split at taken
    next path rest calls keys =>
      obtain ⟨leader, _, same⟩ := Option.map_eq_some_iff.mp taken
      exact ⟨handler, path, rest, leader, at_, calls, keys, same.symm⟩
    · cases taken

theorem callLeader_event {c c' : Cell n} {h : Nat} (taken : c.callLeader h = some c') :
    CellEvent c (.callLeader h) c' := by
  obtain ⟨handler, path, rest, leader, at_, calls, keys, same⟩ := callLeader_cases taken
  rw [same]
  obtain ⟨_, aborted⟩ | ⟨_, phase, fresh, spawned⟩ :=
    (c.setPhase h handler .called).arrive_cases leader handler.client path handler.task
  · rw [aborted]
    exact @CellEvent.advanced n c _ _ h handler handler.answer .called rfl rfl rfl at_ (calls ▸ .calls)
      HandlerPhase.noConfusion fun _ => HandlerPhase.noConfusion
  · rw [spawned]
    exact .called rfl rfl rfl at_ calls rfl fresh

/-- A decision changes the deciding thread and the history of puts. -/
theorem decide_cases {c c' : Cell n} {h : Nat} (taken : c.decide h = some c') :
    ∃ handler session path rest, c.handlers[h]? = some handler ∧ handler.phase = .checked session ∧
      handler.keys = path :: rest ∧ c' = { c with
        handlers := c.handlers.set h
          (handler.choose path (handler.decision session (c.found handler.server path)))
        lastPut := if handler.decision session (c.found handler.server path) = .put then
          Function.update c.lastPut path (some handler.putValue) else c.lastPut } := by
  unfold decide at taken
  split at taken
  · cases taken
  next handler at_ =>
    split at taken
    next session path rest checked keys =>
      cases taken
      refine ⟨handler, session, path, rest, at_, checked, keys, ?_⟩
      split <;> rfl
    · cases taken

theorem decide_event {c c' : Cell n} {h : Nat} (taken : c.decide h = some c') :
    CellEvent c (.decide h) c' := by
  obtain ⟨handler, session, path, rest, at_, checked, keys, same⟩ := decide_cases taken
  rw [same]
  exact .decided at_ checked keys rfl rfl rfl rfl

/-- The end of a section either ends an expiry or applies the decision of the thread. -/
theorem finish_cases {c c' : Cell n} {h : Nat} (taken : c.finish h = some c') :
    ∃ handler, c.handlers[h]? = some handler ∧
      ((handler.phase = .waiting ∧ handler.keys = [] ∧ c' = c.endExpiry h handler) ∨
        ∃ path rest decision, handler.keys = path :: rest ∧ Ends handler decision ∧
          c' = c.conclude h handler path rest decision) := by
  unfold finish at taken
  split at taken
  · cases taken
  next handler at_ =>
    apply Exists.intro handler
    apply And.intro at_
    split at taken
    next waits keys =>
      cases taken
      exact .inl ⟨waits, keys, rfl⟩
    next decision path rest decided keys =>
      split at taken
      · cases taken
      next other =>
        cases taken
        exact .inr ⟨path, rest, decision, keys, .inl ⟨other, decided⟩, rfl⟩
    next thread path rest putting keys =>
      split at taken
      · cases taken
        exact .inr ⟨path, rest, .put, keys, .inr ⟨rfl, thread, putting⟩, rfl⟩
      · cases taken
    · cases taken

theorem finish_event {c c' : Cell n} {h : Nat} (taken : c.finish h = some c') :
    CellEvent c (.finish h) c' := by
  obtain ⟨handler, at_, ending⟩ := finish_cases taken
  obtain ⟨waits, keys, same⟩ | ⟨path, rest, decision, keys, ends, same⟩ := ending
  · rw [same]
    exact .expiryEnds at_ waits keys
  · rw [same]
    exact .concluded at_ keys ends

end Cell

/-- A thread that acquires moves the slot number as soon as it has the key lock. -/
def Handler.takeSlot (handler : Handler n) (chubby : ChubbyImpl (Fin n)) : ChubbyImpl (Fin n) :=
  match handler.task with
  | .acquire _ => chubby.nextSlot
  | .release | .expire => chubby

theorem Handler.takeSlot_kept (handler : Handler n) (chubby : ChubbyImpl (Fin n)) :
    (handler.takeSlot chubby).paxosService = chubby.paxosService ∧
      (handler.takeSlot chubby).clientLockMap = chubby.clientLockMap := by
  unfold takeSlot
  split <;> exact ⟨rfl, rfl⟩

namespace Cell

theorem lock_chubby (c : Cell n) (handler : Handler n) (i : Fin n) :
    (c.setChubby handler.server (handler.takeSlot (c.chubby handler.server))).chubby i =
      if i = handler.server then handler.takeSlot (c.chubby i) else c.chubby i := by
  show Function.update c.chubby handler.server _ i = _
  by_cases self : i = handler.server
  · rw [if_pos self, self, Function.update_self]
  · rw [if_neg self, Function.update_of_ne self]

theorem lock_kept (c : Cell n) (handler : Handler n) (i : Fin n) :
    ((c.setChubby handler.server (handler.takeSlot (c.chubby handler.server))).chubby i).paxosService =
        (c.chubby i).paxosService ∧
      ((c.setChubby handler.server (handler.takeSlot (c.chubby handler.server))).chubby i).clientLockMap =
        (c.chubby i).clientLockMap := by
  rw [lock_chubby]
  split
  · exact handler.takeSlot_kept _
  · exact ⟨rfl, rfl⟩

theorem lock_cases {c c' : Cell n} {h : Nat} (taken : c.lock h = some c') :
    ∃ handler path rest, c.handlers[h]? = some handler ∧ handler.phase = .waiting ∧
      handler.keys = path :: rest ∧ c.keyFree handler.server path = true ∧
      c' = (c.setChubby handler.server (handler.takeSlot (c.chubby handler.server))).setPhase h handler
        .locked := by
  unfold lock at taken
  split at taken
  · cases taken
  next handler at_ =>
    split at taken
    next path rest waits keys =>
      split at taken
      next free =>
        cases taken
        exact ⟨handler, path, rest, at_, waits, keys, free, rfl⟩
      · cases taken
    · cases taken

end Cell

/-- The labels at which the cluster below the lock servers takes a step. -/
def CellLabel.runsPaxos : CellLabel n → Bool
  | .paxos _ | .start _ => true
  | _ => false

/-- The labels at which a slot number may change. -/
def CellLabel.locks : CellLabel n → Bool
  | .lock _ => true
  | _ => false

/-- The labels at which a lock map may change. -/
def CellLabel.finishes : CellLabel n → Bool
  | .finish _ => true
  | _ => false

/-- The thread that the label moves on without a decision. -/
def CellLabel.moves : CellLabel n → Option Nat
  | .leaderReturns h _ | .lock h | .checkSession h | .readSlot h | .start h => some h
  | _ => none

/-- Only the return of a call to the leader replaces the answer of a thread. -/
def CellLabel.answers : CellLabel n → Bool → Bool
  | .leaderReturns _ answer, _ => answer
  | _, answer => answer

/-- The label has moved the thread on, and only a thread that puts has run Paxos; a thread that locks its
key finds it free. -/
structure Moved (c : Cell n) (label : CellLabel n) (h : Nat) (handler : Handler n) (phase : HandlerPhase)
    (c' : Cell n) : Prop where
  at_ : c.handlers[h]? = some handler
  moves : Moves handler.phase phase
  free : phase = .locked → label = .lock h ∧ ∀ path ∈ handler.keys.head?, c.keyFree handler.server path = true
  starts : ∀ thread, phase = .putting thread → label = .start h
  handlers : c'.handlers = c.handlers.set h { handler with answer := label.answers handler.answer, phase }
  holds : c'.holds = c.holds
  lastPut : c'.lastPut = c.lastPut
  chubby : label.locks = false → c'.chubby = c.chubby
  paxos : label.runsPaxos = false → c'.paxos = c.paxos
  puts : label.runsPaxos = true → handler.phase.puts = true

namespace Cell

theorem step_moves {c c' : Cell n} {label : CellLabel n} {h : Nat} (moves : label.moves = some h)
    (taken : c.step label = some c') : ∃ handler phase, Moved c label h handler phase c' := by
  cases label with
  | leaderReturns caller answer =>
      cases moves
      change c.leaderReturns h answer = some c' at taken
      unfold leaderReturns at taken
      split at taken
      · cases taken
      next handler at_ =>
        split at taken
        next calls =>
          cases taken
          refine ⟨handler, .waiting, at_, ?_, HandlerPhase.noConfusion, fun _ => HandlerPhase.noConfusion,
            rfl, rfl, rfl, fun _ => rfl, fun _ => rfl, Bool.noConfusion⟩
          rcases calls with calls | calls <;> rw [calls]
          · exact .fails
          · exact .returns
        · cases taken
  | lock _ =>
      cases moves
      obtain ⟨handler, path, rest, at_, waits, keys, free, same⟩ := lock_cases taken
      rw [same]
      refine ⟨handler, .locked, at_, waits ▸ .locks, fun _ => ⟨rfl, ?_⟩, fun _ => HandlerPhase.noConfusion,
        rfl, rfl, rfl, Bool.noConfusion, fun _ => rfl, Bool.noConfusion⟩
      rw [keys]
      rintro _ ⟨⟩
      exact free
  | checkSession _ =>
      cases moves
      change c.checkSession h = some c' at taken
      unfold checkSession at taken
      split at taken
      · cases taken
      next handler at_ =>
        split at taken
        next locked =>
          cases taken
          exact ⟨handler, _, at_, locked ▸ .checks, HandlerPhase.noConfusion, fun _ => HandlerPhase.noConfusion,
            rfl, rfl, rfl, fun _ => rfl, fun _ => rfl, Bool.noConfusion⟩
        · cases taken
  | readSlot _ =>
      cases moves
      change c.readSlot h = some c' at taken
      unfold readSlot at taken
      split at taken
      · cases taken
      next handler at_ =>
        split at taken
        next puts =>
          cases taken
          exact ⟨handler, _, at_, puts ▸ .reads, HandlerPhase.noConfusion, fun _ => HandlerPhase.noConfusion,
            rfl, rfl, rfl, fun _ => rfl, fun _ => rfl, Bool.noConfusion⟩
        · cases taken
  | start _ =>
      cases moves
      change c.start h = some c' at taken
      unfold start at taken
      split at taken
      · cases taken
      next handler at_ =>
        split at taken
        next seq path rest starts keys =>
          obtain ⟨paxos, _, rfl⟩ := Option.map_eq_some_iff.mp taken
          exact ⟨handler, _, at_, starts ▸ .starts, HandlerPhase.noConfusion, fun _ _ => rfl, rfl, rfl, rfl,
            fun _ => rfl, Bool.noConfusion, fun _ => by rw [starts]; rfl⟩
        · cases taken
  | _ => cases moves

end Cell

theorem CellEvent.of_moved {c c' : Cell n} {label : CellLabel n} {h : Nat}
    (moved : ∃ handler phase, Moved c label h handler phase c') : CellEvent c label c' := by
  obtain ⟨handler, phase, moved⟩ := moved
  exact .advanced moved.handlers moved.holds moved.lastPut moved.at_ moved.moves moved.free
    moved.starts

namespace Cell

/-- Every step of the lock servers is one of the listed events. -/
theorem step_event {c c' : Cell n} {label : CellLabel n} (taken : c.step label = some c') :
    CellEvent c label c' := by
  cases label with
  | paxos label =>
      cases label with
      | start i seq v => cases taken
      | _ =>
          obtain ⟨paxos, _, rfl⟩ := Option.map_eq_some_iff.mp taken
          exact .quiet rfl rfl rfl
  | keepAlive i client now =>
      change c.keepAlive i client now = some c' at taken
      unfold keepAlive at taken
      dsimp only at taken
      split at taken
      · cases taken
        exact .quiet rfl rfl rfl
      · cases taken
  | acquireLock i client path mode =>
      cases taken
      exact arrive_event c _ i client path _
  | releaseLock i client path =>
      cases taken
      exact arrive_event c _ i client path _
  | callLeader h => exact callLeader_event taken
  | leaderReturns h answer => exact .of_moved (step_moves rfl taken)
  | lock h => exact .of_moved (step_moves rfl taken)
  | checkSession h => exact .of_moved (step_moves rfl taken)
  | decide h => exact decide_event taken
  | readSlot h => exact .of_moved (step_moves rfl taken)
  | start h => exact .of_moved (step_moves rfl taken)
  | finish h => exact finish_event taken
  | checkLeases i now order =>
      change c.checkLeases i now order = some c' at taken
      unfold checkLeases at taken
      dsimp only at taken
      split at taken
      · cases taken
        exact .quiet rfl rfl rfl
      · cases taken
  | expireNext i =>
      change c.expireNext i = some c' at taken
      unfold expireNext at taken
      split at taken
      · cases taken
      · split at taken
        · cases taken
          exact .spawned rfl rfl rfl rfl (.inr rfl)
        · cases taken

end Cell

/-- The parts of the cell that the label leaves alone. -/
structure Frame (c : Cell n) (label : CellLabel n) (c' : Cell n) : Prop where
  paxos : label.runsPaxos = false → c'.paxos = c.paxos
  services : ∀ i, (c'.chubby i).paxosService = (c.chubby i).paxosService
  locks : label.finishes = false → ∀ i, (c'.chubby i).clientLockMap = (c.chubby i).clientLockMap
  slots : label.locks = false → ∀ i, (c'.chubby i).slotNumber = (c.chubby i).slotNumber

theorem Frame.of_chubby {c c' : Cell n} {label : CellLabel n}
    (paxos : label.runsPaxos = false → c'.paxos = c.paxos) (chubby : c'.chubby = c.chubby) :
    Frame c label c' := by
  refine ⟨paxos, ?_, ?_, ?_⟩
  · intro i
    rw [chubby]
  · intro _ i
    rw [chubby]
  · intro _ i
    rw [chubby]

theorem Frame.of_same {c c' : Cell n} {label : CellLabel n} (paxos : c'.paxos = c.paxos)
    (chubby : c'.chubby = c.chubby) : Frame c label c' := .of_chubby (fun _ => paxos) chubby

theorem Frame.of_moved {c c' : Cell n} {label : CellLabel n} {h : Nat} (unlocked : label.locks = false)
    (moved : ∃ handler phase, Moved c label h handler phase c') : Frame c label c' := by
  obtain ⟨_, _, moved⟩ := moved
  exact .of_chubby moved.paxos (moved.chubby unlocked)

/-- A step that changes the leases of one server at most. -/
theorem Frame.of_leases {c c' : Cell n} {label : CellLabel n} {j : Fin n}
    {leases : AList fun _ : String => Nat} (paxos : c'.paxos = c.paxos)
    (chubby : c'.chubby = Function.update c.chubby j { c.chubby j with clientLeaseMap := leases }) :
    Frame c label c' := by
  have kept (i : Fin n) : c'.chubby i = c.chubby i ∨
      (i = j ∧ c'.chubby i = { c.chubby j with clientLeaseMap := leases }) := by
    rw [chubby]
    by_cases self : i = j
    · exact .inr ⟨self, by rw [self, Function.update_self]⟩
    · exact .inl (Function.update_of_ne self ..)
  refine ⟨fun _ => paxos, ?_, ?_, ?_⟩
  · intro i
    obtain same | ⟨self, same⟩ := kept i
    · rw [same]
    · rw [same, self]
  · intro _ i
    obtain same | ⟨self, same⟩ := kept i
    · rw [same]
    · rw [same, self]
  · intro _ i
    obtain same | ⟨self, same⟩ := kept i
    · rw [same]
    · rw [same, self]

namespace Cell

theorem arrive_frame (c : Cell n) (label : CellLabel n) (i : Fin n) (client path : String) (task : Task) :
    Frame c label (c.arrive i client path task) := by
  obtain ⟨_, same⟩ | ⟨_, _, _, same⟩ := c.arrive_cases i client path task
  · rw [same]
    exact .of_same rfl rfl
  · rw [same]
    exact .of_same rfl rfl

end Cell

/-- What the end of the thread's section makes of its lock server. -/
def Handler.concluded (handler : Handler n) (path : String) (decision : Decision)
    (chubby : ChubbyImpl (Fin n)) : ChubbyImpl (Fin n) :=
  match handler.task with
  | .acquire _ =>
      if decision = .put ∨ decision = .join then chubby.insertLock path handler.client else chubby
  | .release => if decision = .put then chubby.eraseLock path handler.client else chubby
  | .expire => chubby

/-- Only the lock map changes there. -/
theorem Handler.concluded_kept (handler : Handler n) (path : String) (decision : Decision)
    (chubby : ChubbyImpl (Fin n)) :
    (handler.concluded path decision chubby).paxosService = chubby.paxosService ∧
      (handler.concluded path decision chubby).slotNumber = chubby.slotNumber := by
  unfold concluded
  split
  · split <;> exact ⟨rfl, rfl⟩
  · split <;> exact ⟨rfl, rfl⟩
  · exact ⟨rfl, rfl⟩

namespace Cell

section Conclude

variable {c : Cell n} {h : Nat} {handler : Handler n} {path : String} {rest : List String}
  {decision : Decision}

theorem conclude_paxos : (c.conclude h handler path rest decision).paxos = c.paxos := by
  unfold conclude
  dsimp only
  split
  · split <;> rfl
  · split <;> rfl
  · rfl

/-- The end of a section changes its own lock server, in the way of its task. -/
theorem conclude_chubby : (c.conclude h handler path rest decision).chubby =
    Function.update c.chubby handler.server
      (handler.concluded path decision (c.chubby handler.server)) := by
  unfold conclude Handler.concluded
  cases handler.task with
  | acquire mode =>
      dsimp only
      rw [apply_ite Cell.chubby]
      exact ite_self _
  | release =>
      dsimp only
      rw [apply_ite Cell.chubby]
      exact ite_self _
  | expire => exact (Function.update_eq_self handler.server c.chubby).symm

theorem conclude_chubby_of_ne {i : Fin n} (other : i ≠ handler.server) :
    (c.conclude h handler path rest decision).chubby i = c.chubby i := by
  rw [conclude_chubby, Function.update_of_ne other]

theorem conclude_chubby_self : (c.conclude h handler path rest decision).chubby handler.server =
    handler.concluded path decision (c.chubby handler.server) := by
  rw [conclude_chubby, Function.update_self]

theorem conclude_kept (i : Fin n) :
    ((c.conclude h handler path rest decision).chubby i).paxosService = (c.chubby i).paxosService ∧
      ((c.conclude h handler path rest decision).chubby i).slotNumber = (c.chubby i).slotNumber := by
  by_cases self : i = handler.server
  · rw [self, conclude_chubby_self]
    exact handler.concluded_kept path decision _
  · rw [conclude_chubby_of_ne self]
    exact ⟨rfl, rfl⟩

end Conclude

/-- Every step keeps the parts that its label does not name. -/
theorem step_frame {c c' : Cell n} {label : CellLabel n} (taken : c.step label = some c') :
    Frame c label c' := by
  cases label with
  | paxos label =>
      cases label with
      | start i seq v => cases taken
      | _ =>
          obtain ⟨paxos, _, same⟩ := Option.map_eq_some_iff.mp taken
          rw [← same]
          exact .of_chubby (fun named => Bool.noConfusion named) rfl
  | keepAlive i client now =>
      change c.keepAlive i client now = some c' at taken
      unfold keepAlive at taken
      dsimp only at taken
      split at taken
      · cases taken
        exact .of_leases rfl rfl
      · cases taken
  | acquireLock i client path mode =>
      cases taken
      exact arrive_frame ..
  | releaseLock i client path =>
      cases taken
      exact arrive_frame ..
  | callLeader h =>
      obtain ⟨handler, path, rest, leader, _, _, _, same⟩ := callLeader_cases taken
      have frame := (c.setPhase h handler .called).arrive_frame (.callLeader h) leader handler.client path
        handler.task
      rw [same]
      exact ⟨frame.paxos, frame.services, frame.locks, frame.slots⟩
  | leaderReturns h answer => exact .of_moved rfl (step_moves rfl taken)
  | lock h =>
      obtain ⟨handler, path, rest, _, _, _, _, same⟩ := lock_cases taken
      rw [same]
      exact ⟨fun _ => rfl, fun i => (lock_kept c handler i).1, fun _ i => (lock_kept c handler i).2,
        fun named => Bool.noConfusion named⟩
  | checkSession h => exact .of_moved rfl (step_moves rfl taken)
  | decide h =>
      obtain ⟨handler, session, path, rest, _, _, _, same⟩ := decide_cases taken
      rw [same]
      exact .of_same rfl rfl
  | readSlot h => exact .of_moved rfl (step_moves rfl taken)
  | start h => exact .of_moved rfl (step_moves rfl taken)
  | finish h =>
      obtain ⟨handler, _, ending⟩ := finish_cases taken
      obtain ⟨_, _, same⟩ | ⟨path, rest, decision, _, _, same⟩ := ending
      · rw [same]
        exact .of_same rfl rfl
      · rw [same]
        exact ⟨fun _ => conclude_paxos, fun i => (conclude_kept i).1, fun named => Bool.noConfusion named,
          fun _ i => (conclude_kept i).2⟩
  | checkLeases i now order =>
      change c.checkLeases i now order = some c' at taken
      unfold checkLeases at taken
      dsimp only at taken
      split at taken
      · cases taken
        exact .of_leases rfl rfl
      · cases taken
  | expireNext i =>
      change c.expireNext i = some c' at taken
      unfold expireNext at taken
      split at taken
      · cases taken
      · split at taken
        · cases taken
          exact .of_same rfl rfl
        · cases taken

end Cell

end Chubby.Lock
