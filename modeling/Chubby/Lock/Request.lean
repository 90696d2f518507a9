/-
This file proves when the reply to a lock request tells what the request has done to the cluster.
-/

import Chubby.Lock.Exclusion
import Chubby.Paxos.ServerFacts

namespace Chubby.Lock

open Chubby.Library

variable {n : Nat}

def Decision.applies : Decision → Bool
  | .put | .join => true
  | .refuse _ | .unanswered => false

/-- The thread is inside its call of `Put`. -/
def HandlerPhase.inPut : HandlerPhase → Bool
  | .starting _ | .putting _ => true
  | _ => false

/-- The success field of the reply that the thread gives when its section ends now. -/
def Handler.reply (handler : Handler n) : Option Bool :=
  match handler.phase with
  | .decided decision => some (Cell.succeeds handler decision)
  | .putting _ => some (Cell.succeeds handler .put)
  | _ => none

/-- One request of a client runs alone. Its first thread answers the client, and each later thread
answers a call to the leader by the thread before it. The list of the replies and the list of the
threads that have granted or released the path are history variables. -/
structure Request (n : Nat) where
  cell : Cell n
  first : Nat
  replies : List (Nat × Bool)
  applied : List Nat

namespace Cell

/-- The reply that the label lets a thread give. -/
def replyAt (c : Cell n) : CellLabel n → Option (Nat × Bool)
  | .finish h => c.handlers[h]?.bind fun handler => handler.reply.map fun answer => (h, answer)
  | _ => none

/-- The thread that the label lets decide to put or to join. -/
def appliesAt (c : Cell n) : CellLabel n → Option Nat
  | .decide h => c.handlers[h]?.bind fun handler => handler.keys.head?.bind fun path =>
      if (c.upcoming handler path).applies then some h else none
  | _ => none

end Cell

namespace Request

def start (c : Cell n) (i : Fin n) (client path : String) (task : Task) : Request n :=
  ⟨c.arrive i client path task, c.handlers.length, [], []⟩

/-- Only the threads of the request take steps, and Paxos takes steps for their calls of `Put`. A call
to the leader returns with success only after the next thread has replied so. -/
def allows (s : Request n) : CellLabel n → Bool
  | .paxos _ => (s.cell.handlers.drop s.first).any fun handler => handler.phase.inPut
  | .leaderReturns h answer => s.first ≤ h && (!answer || s.replies.contains (h + 1, true))
  | .callLeader h | .lock h | .checkSession h | .decide h | .readSlot h | .start h | .finish h => s.first ≤ h
  | _ => false

/-- The history grows with the step of the cell. -/
def record (s : Request n) (label : CellLabel n) (cell : Cell n) : Request n where
  cell := cell
  first := s.first
  replies := (s.cell.replyAt label).toList ++ s.replies
  applied := (s.cell.appliesAt label).toList ++ s.applied

def step (s : Request n) (label : CellLabel n) : Option (Request n) :=
  if s.allows label then (s.cell.step label).map (s.record label) else none

/-- The steps of the request are steps of the cell. -/
theorem run_cell {s s' : Request n} {labels : List (CellLabel n)} (ran : run step s labels = some s') :
    run Cell.step s.cell labels = some s'.cell := by
  induction labels generalizing s with
  | nil =>
      cases ran
      rfl
  | cons label rest ih =>
      obtain ⟨next, taken, later⟩ := run_cons_eq_some.mp ran
      obtain ⟨_, taken⟩ := Option.ite_none_right_eq_some.mp taken
      obtain ⟨cell, stepped, rfl⟩ := Option.map_eq_some_iff.mp taken
      exact run_cons_eq_some.mpr ⟨cell, stepped, ih later⟩

end Request

/-- The decided slots, the databases and the lock maps of all servers are the same. -/
structure Unchanged (before after : Cell n) : Prop where
  decided : ∀ i seq, (after.paxos.servers i).decidedValue seq = (before.paxos.servers i).decidedValue seq
  stored : ∀ i, (after.paxos.servers i).paxosDb = (before.paxos.servers i).paxosDb
  locks : ∀ i, (after.chubby i).clientLockMap = (before.chubby i).clientLockMap

/-- The database and the lock map of the server show that the request has been granted. -/
def Shows (c : Cell n) (i : Fin n) (client path : String) : Task → Prop
  | .acquire mode => c.found i path = some mode.text ∧ (c.chubby i).Holds path client
  | .release => c.found i path = some "FREE" ∧ ¬ (c.chubby i).Holds path client
  | .expire => True

/-- A request that was aborted or has failed has changed nothing, and one that has succeeded was applied
once, by the thread that answers it. -/
structure Settled (before : Cell n) (i : Fin n) (client path : String) (task : Task) (s : Request n) :
    Prop where
  aborted : (before.paxos.servers i).leaderElectionHappened = true → Unchanged before s.cell
  failed : (s.first, false) ∈ s.replies → Unchanged before s.cell
  succeeded : (s.first, true) ∈ s.replies → s.applied = [s.first] ∧ Shows s.cell i client path task

/-- The leader does not put or join for a forwarded request, and a `Put` has taken effect at its own
server when it returns. -/
def Single (s : Request n) : CellLabel n → Prop
  | .decide h => s.first < h → s.cell.appliesAt (.decide h) = none
  | .finish h => ∀ handler ∈ s.cell.handlers[h]?, ∀ path ∈ handler.keys.head?,
      handler.phase.inPut = true → s.cell.found handler.server path = some handler.putValue
  | _ => True

instance (s : Request n) : (label : CellLabel n) → Decidable (Single s label)
  | .decide h => inferInstanceAs (Decidable (s.first < h → s.cell.appliesAt (.decide h) = none))
  | .finish h => inferInstanceAs (Decidable (∀ handler ∈ s.cell.handlers[h]?,
      ∀ path ∈ handler.keys.head?, handler.phase.inPut = true →
        s.cell.found handler.server path = some handler.putValue))
  | .paxos _ | .keepAlive _ _ _ | .acquireLock _ _ _ _ | .releaseLock _ _ _ | .callLeader _
  | .leaderReturns _ _ | .lock _ | .checkSession _ | .readSlot _ | .start _ | .checkLeases _ _ _
  | .expireNext _ => isTrue trivial

/-- The thread works for the request: the first one at the server of the client, and the later ones without
a grant. -/
structure Serves (i : Fin n) (client path : String) (task : Task) (first h : Nat) (handler : Handler n) :
    Prop where
  client : handler.client = client
  keys : handler.keys = [path]
  task : handler.task = task
  answer : handler.answer = false
  server : h = first → handler.server = i
  forwarded : first < h → handler.phase.granted = false

/-- The thread that answers the request has been granted it, or shows its effect after the answer. -/
structure Fulfils (i : Fin n) (client path : String) (task : Task) (c : Cell n) (phase : HandlerPhase) :
    Prop where
  stage : phase.granted = true ∨ (phase = .finished ∧ Shows c i client path task)
  joins : phase.granted = true → phase.puts = false →
    ∃ mode, task = .acquire mode ∧ c.found i path = some mode.text

/-- The invariant of a request that runs alone. -/
structure Handled (before : Cell n) (i : Fin n) (client path : String) (task : Task) (s : Request n) :
    Prop where
  absent : (before.paxos.servers i).leaderElectionHappened = true → s.cell.handlers.length ≤ s.first
  threads : ∀ h handler, s.first ≤ h → s.cell.handlers[h]? = some handler →
    Serves i client path task s.first h handler
  own : (s.applied = [] ∧ s.cell.paxos = before.paxos ∧
      (∀ j, (s.cell.chubby j).clientLockMap = (before.chubby j).clientLockMap) ∧
      ∀ handler, s.cell.handlers[s.first]? = some handler → handler.phase.granted = false) ∨
    (s.applied = [s.first] ∧ ∃ handler, s.cell.handlers[s.first]? = some handler ∧
      Fulfils i client path task s.cell handler.phase)
  answered : ∀ answer, (s.first, answer) ∈ s.replies →
    (s.applied = if answer then [s.first] else []) ∧
      ∃ handler, s.cell.handlers[s.first]? = some handler ∧ handler.phase = .finished
  replied : ∀ h, (h, true) ∈ s.replies → h = s.first

/-- The thread moves on without a new decision. -/
structure Keeps (before after : HandlerPhase) : Prop where
  puts : after.puts = before.puts
  granted : after.granted = before.granted
  running : before ≠ .finished

theorem Decision.applies_iff {decision : Decision} :
    decision.applies = true ↔ decision = .put ∨ decision = .join := by
  cases decision <;> simp [applies]

@[simp] theorem HandlerPhase.decided_granted (decision : Decision) :
    (HandlerPhase.decided decision).granted = decision.applies := by
  cases decision <;> rfl

theorem HandlerPhase.decided_puts {decision : Decision} :
    (HandlerPhase.decided decision).puts = true ↔ decision = .put := by
  cases decision <;> simp [puts]

theorem HandlerPhase.granted_of_puts {phase : HandlerPhase} (puts : phase.puts = true) :
    phase.granted = true := by
  unfold granted
  split
  · rfl
  · exact puts

theorem HandlerPhase.unput_of_ungranted {phase : HandlerPhase} (ungranted : phase.granted = false) :
    phase.puts = false := by
  apply Bool.eq_false_iff.mpr
  intro puts
  rw [granted_of_puts puts] at ungranted
  cases ungranted

theorem HandlerPhase.ungranted_fresh {phase : HandlerPhase} (fresh : phase = .calling ∨ phase = .waiting) :
    phase.granted = false := by
  obtain calls | waits := fresh
  · rw [calls]
    rfl
  · rw [waits]
    rfl

/-- A thread that ends with a grant has been granted it before. -/
theorem Ends.granted {handler : Handler n} {decision : Decision} (ends : Ends handler decision)
    (applies : decision.applies = true) : handler.phase.granted = true := by
  obtain ⟨_, decided⟩ | ⟨_, _, putting⟩ := ends
  · rw [decided, HandlerPhase.decided_granted, applies]
  · rw [putting]
    rfl

theorem Ends.phase {handler : Handler n} {decision : Decision} (ends : Ends handler decision)
    (other : decision ≠ .put) : handler.phase = .decided decision := by
  obtain ⟨_, decided⟩ | ⟨puts, _⟩ := ends
  · exact decided
  · exact absurd puts other

/-- Without a success of the leader, a thread replies with success exactly when it puts or joins. -/
theorem Cell.succeeds_eq {handler : Handler n} (answer : handler.answer = false) (decision : Decision) :
    Cell.succeeds handler decision = decision.applies := by
  cases decision <;> simp [succeeds, Decision.applies, answer]

/-- Only an acquire joins, when it finds the path in its own mode. -/
theorem Handler.decision_join {handler : Handler n} {session : Bool} {found : Option String}
    (joined : handler.decision session found = .join) :
    ∃ mode, handler.task = .acquire mode ∧ found = some mode.text := by
  unfold decision at joined
  cases task : handler.task with
  | acquire mode =>
      rw [task] at joined
      obtain ⟨_, shared, shows⟩ := acquireDecision_join joined
      exact ⟨mode, rfl, shows.trans (congrArg some shared.symm)⟩
  | release =>
      rw [task] at joined
      exact absurd joined releaseDecision_ne_join
  | expire =>
      rw [task] at joined
      dsimp only at joined
      split at joined <;> cases joined

theorem found_of_same {c c' : Cell n} (paxos : c'.paxos = c.paxos)
    (services : ∀ i, (c'.chubby i).paxosService = (c.chubby i).paxosService) (i : Fin n) (path : String) :
    c'.found i path = c.found i path := by
  unfold Cell.found
  rw [paxos, services]

theorem Shows.of_same {c c' : Cell n} {i : Fin n} {client path : String} {task : Task}
    (shows : Shows c i client path task) (found : c'.found i path = c.found i path)
    (locks : (c'.chubby i).clientLockMap = (c.chubby i).clientLockMap) : Shows c' i client path task := by
  cases task with
  | acquire mode =>
      refine ⟨found.trans shows.1, ?_⟩
      show _ ∈ (c'.chubby i).clientLockMap
      rw [locks]
      exact shows.2
  | release =>
      refine ⟨found.trans shows.1, ?_⟩
      show _ ∉ (c'.chubby i).clientLockMap
      rw [locks]
      exact shows.2
  | expire => trivial

namespace Cell

section Conclude

variable {c : Cell n} {h : Nat} {handler : Handler n} {path : String} {rest : List String}
  {decision : Decision}

theorem conclude_handlers (request : handler.task ≠ .expire) :
    (c.conclude h handler path rest decision).handlers =
      c.handlers.set h { handler with phase := .finished } := by
  unfold conclude
  dsimp only
  split
  · split <;> rfl
  · split <;> rfl
  next expires => exact absurd expires request

/-- The end of a section that puts or joins leaves the effect of the request behind when the value is in
the database. -/
theorem conclude_shows {task : Task} (serves : handler.task = task) (applies : decision.applies = true)
    (puts : decision = .put → c.found handler.server path = some handler.putValue)
    (joins : decision = .join → ∃ mode, task = .acquire mode ∧
      c.found handler.server path = some mode.text) :
    Shows (c.conclude h handler path rest decision) handler.server handler.client path task := by
  have found : (c.conclude h handler path rest decision).found handler.server path =
      c.found handler.server path :=
    found_of_same conclude_paxos (fun j => (conclude_kept j).1) handler.server path
  cases task with
  | acquire mode =>
      have takes := Decision.applies_iff.mp applies
      constructor
      · rw [found]
        obtain put | join := takes
        · rw [puts put, Handler.putValue, serves]
        · obtain ⟨_, same, shows⟩ := joins join
          cases same
          exact shows
      · rw [conclude_chubby_self, Handler.concluded, serves]
        dsimp only
        rw [if_pos takes]
        exact ChubbyImpl.insertLock_holds.mpr (.inl ⟨rfl, rfl⟩)
  | release =>
      have put : decision = .put := by
        apply (Decision.applies_iff.mp applies).resolve_right
        intro join
        obtain ⟨_, same, _⟩ := joins join
        cases same
      constructor
      · rw [found, puts put, Handler.putValue, serves]
      · rw [conclude_chubby_self, Handler.concluded, serves]
        dsimp only
        rw [if_pos put]
        intro holds
        exact (ChubbyImpl.eraseLock_holds.mp holds).1 ⟨rfl, rfl⟩
  | expire => trivial

end Conclude

end Cell

/-- A section that neither puts nor joins leaves its lock server alone. -/
theorem Handler.concluded_idle (handler : Handler n) {path : String} {decision : Decision}
    {chubby : ChubbyImpl (Fin n)} (idle : decision.applies = false) :
    handler.concluded path decision chubby = chubby := by
  have refuses : ¬ (decision = .put ∨ decision = .join) := by
    rw [← Decision.applies_iff, idle]
    exact Bool.false_ne_true
  unfold concluded
  split
  · exact if_neg refuses
  · exact if_neg fun put => refuses (.inl put)
  · rfl

theorem Fulfils.of_same {c c' : Cell n} {i : Fin n} {client path : String} {task : Task}
    {phase : HandlerPhase} (fulfils : Fulfils i client path task c phase)
    (found : c'.found i path = c.found i path)
    (locks : (c'.chubby i).clientLockMap = (c.chubby i).clientLockMap) :
    Fulfils i client path task c' phase := by
  refine ⟨fulfils.stage.imp_right fun ended => ⟨ended.1, ended.2.of_same found locks⟩, ?_⟩
  intro granted unput
  obtain ⟨mode, acquires, shows⟩ := fulfils.joins granted unput
  exact ⟨mode, acquires, found.trans shows⟩

namespace Handled

variable {before : Cell n} {i : Fin n} {client path : String} {task : Task} {s : Request n}

/-- What the invariant says of the replies and of the effect is what the request promises. -/
theorem settled (handled : Handled before i client path task s) : Settled before i client path task s := by
  have unchanged (kept : s.applied = []) : Unchanged before s.cell := by
    obtain ⟨_, paxos, locks, _⟩ | ⟨applied, _⟩ := handled.own
    · exact ⟨fun j seq => by rw [paxos], fun j => by rw [paxos], locks⟩
    · rw [kept] at applied
      cases applied
  refine ⟨fun elected => ?_, fun failed => ?_, fun succeeded => ?_⟩
  · obtain ⟨applied, _⟩ | ⟨_, handler, at_, _⟩ := handled.own
    · exact unchanged applied
    · have beyond : s.cell.handlers[s.first]? = none := List.getElem?_eq_none (handled.absent elected)
      rw [beyond] at at_
      cases at_
  · exact unchanged (handled.answered false failed).1
  · obtain ⟨applied, handler, at_, finished⟩ := handled.answered true succeeded
    refine ⟨applied, ?_⟩
    obtain ⟨unapplied, _⟩ | ⟨_, other, again, fulfils⟩ := handled.own
    · rw [applied] at unapplied
      cases unapplied
    · rw [at_] at again
      cases again
      obtain granted | ⟨_, shows⟩ := fulfils.stage
      · rw [finished] at granted
        cases granted
      · exact shows

/-- A request that leaves a thread leaves it undecided. -/
theorem start (c : Cell n) (i : Fin n) (client path : String) (task : Task) :
    Handled c i client path task (Request.start c i client path task) := by
  have none_ : c.handlers[c.handlers.length]? = none := List.getElem?_eq_none (Nat.le_refl _)
  unfold Request.start
  obtain ⟨_, same⟩ | ⟨unelected, phase, fresh, same⟩ := c.arrive_cases i client path task
  · rw [same]
    refine ⟨fun _ => Nat.le_refl _, ?_, .inl ⟨rfl, rfl, fun _ => rfl, ?_⟩, ?_, ?_⟩
    · intro h handler later at_
      rw [List.getElem?_eq_none later] at at_
      cases at_
    · intro handler at_
      rw [none_] at at_
      cases at_
    · intro _ member
      cases member
    · intro _ member
      cases member
  · have undecided := HandlerPhase.ungranted_fresh fresh
    have only {h : Nat} {handler : Handler n} (later : c.handlers.length ≤ h)
        (at_ : (c.handlers ++ [⟨i, client, task, [path], [], false, phase⟩])[h]? = some handler) :
        handler = ⟨i, client, task, [path], [], false, phase⟩ := by
      rw [List.getElem?_append_right later] at at_
      exact List.mem_singleton.mp (List.mem_of_getElem? at_)
    rw [same]
    refine ⟨fun elected => absurd elected unelected, ?_, .inl ⟨rfl, rfl, fun _ => rfl, ?_⟩, ?_, ?_⟩
    · intro h handler later at_
      rw [only later at_]
      exact ⟨rfl, rfl, rfl, rfl, fun _ => rfl, fun _ => undecided⟩
    · intro handler at_
      rw [only (Nat.le_refl _) at_]
      exact undecided
    · intro _ member
      cases member
    · intro _ member
      cases member

section Preserved

variable {h : Nat} {handler new : Handler n} {cell : Cell n}

/-- Nothing is applied while the first thread runs without a grant. -/
theorem unapplied (handled : Handled before i client path task s)
    (at_ : s.cell.handlers[s.first]? = some handler) (ungranted : handler.phase.granted = false)
    (running : handler.phase ≠ .finished) : s.applied = [] := by
  obtain ⟨applied, _⟩ | ⟨_, answering, there, fulfils⟩ := handled.own
  · exact applied
  · rw [at_] at there
    cases there
    obtain granted | ⟨finished, _⟩ := fulfils.stage
    · rw [ungranted] at granted
      cases granted
    · exact absurd finished running

/-- The threads that serve the request still do after one of them is replaced. -/
theorem threads_set (handled : Handled before i client path task s)
    (serves : Serves i client path task s.first h new)
    (handlers : cell.handlers = s.cell.handlers.set h new) :
    ∀ k other, s.first ≤ k → cell.handlers[k]? = some other →
      Serves i client path task s.first k other := by
  intro k other later there
  rw [handlers] at there
  by_cases self : h = k
  · subst self
    obtain inside | outside := Nat.lt_or_ge h s.cell.handlers.length
    · rw [List.getElem?_set_self inside] at there
      cases there
      exact serves
    · rw [List.getElem?_eq_none (by rw [List.length_set]; exact outside)] at there
      cases there
  · rw [List.getElem?_set_ne self] at there
    exact handled.threads k other later there

/-- A thread of the request goes on without a new decision, and Paxos has run only if it puts. -/
theorem replaced (handled : Handled before i client path task s) (later : s.first ≤ h)
    (at_ : s.cell.handlers[h]? = some handler) (serves : Serves i client path task s.first h new)
    (keeps : Keeps handler.phase new.phase) (handlers : cell.handlers = s.cell.handlers.set h new)
    (paxos : cell.paxos = s.cell.paxos ∨ handler.phase.puts = true)
    (services : ∀ j, (cell.chubby j).paxosService = (s.cell.chubby j).paxosService)
    (locks : ∀ j, (cell.chubby j).clientLockMap = (s.cell.chubby j).clientLockMap) :
    Handled before i client path task { s with cell } := by
  have inside : h < s.cell.handlers.length := (List.getElem?_eq_some_iff.mp at_).1
  have here : cell.handlers[h]? = some new := by
    rw [handlers, List.getElem?_set_self inside]
  have elsewhere {k : Nat} (other : h ≠ k) : cell.handlers[k]? = s.cell.handlers[k]? := by
    rw [handlers, List.getElem?_set_ne other]
  have still (unput : handler.phase.puts = false) : cell.paxos = s.cell.paxos :=
    paxos.resolve_right (by rw [unput]; exact Bool.false_ne_true)
  have forwarded (other : h ≠ s.first) : handler.phase.granted = false :=
    (handled.threads h handler later at_).forwarded (lt_of_le_of_ne later (Ne.symm other))
  refine ⟨?_, handled.threads_set serves handlers, ?_, ?_, handled.replied⟩
  · intro elected
    show cell.handlers.length ≤ _
    rw [handlers, List.length_set]
    exact handled.absent elected
  · obtain ⟨applied, same, table, ungranted⟩ | ⟨applied, answering, there, fulfils⟩ := handled.own
    · have refused : handler.phase.granted = false := by
        by_cases self : h = s.first
        · exact ungranted handler (self ▸ at_)
        · exact forwarded self
      have unmoved := still (HandlerPhase.unput_of_ungranted refused)
      refine .inl ⟨applied, unmoved.trans same, fun j => (locks j).trans (table j), ?_⟩
      intro other found
      by_cases self : h = s.first
      · have found : cell.handlers[s.first]? = some other := found
        rw [← self, here] at found
        cases found
        exact keeps.granted.trans refused
      · exact ungranted other ((elsewhere self).symm.trans found)
    · refine .inr ⟨applied, ?_⟩
      by_cases self : h = s.first
      · rw [← self, at_] at there
        cases there
        refine ⟨new, self ▸ here, .inl ?_, ?_⟩
        · rw [keeps.granted]
          exact fulfils.stage.resolve_right fun ended => keeps.running ended.1
        · intro granted unput
          rw [keeps.granted] at granted
          rw [keeps.puts] at unput
          obtain ⟨mode, acquires, shows⟩ := fulfils.joins granted unput
          have same := still unput
          exact ⟨mode, acquires, (found_of_same same services i path).trans shows⟩
      · have same := still (HandlerPhase.unput_of_ungranted (forwarded self))
        exact ⟨answering, (elsewhere self).trans there,
          fulfils.of_same (found_of_same same services i path) (locks i)⟩
  · intro answer replied
    obtain ⟨applied, answering, there, finished⟩ := handled.answered answer replied
    refine ⟨applied, answering, ?_, finished⟩
    by_cases self : h = s.first
    · rw [← self, at_] at there
      cases there
      exact absurd finished keeps.running
    · exact (elsewhere self).trans there

/-- A call to the leader adds a thread that has not decided. -/
theorem spawned (handled : Handled before i client path task s) (inside : s.first < s.cell.handlers.length)
    (serves : Serves i client path task s.first s.cell.handlers.length new) :
    Handled before i client path task
      { s with cell := { s.cell with handlers := s.cell.handlers ++ [new] } } := by
  have early {k : Nat} (earlier : k < s.cell.handlers.length) :
      (s.cell.handlers ++ [new])[k]? = s.cell.handlers[k]? := List.getElem?_append_left earlier
  refine ⟨fun elected => absurd (handled.absent elected) (Nat.not_le.mpr inside), ?_, ?_, ?_, handled.replied⟩
  · intro k other later there
    obtain earlier | beyond := Nat.lt_or_ge k s.cell.handlers.length
    · exact handled.threads k other later ((early earlier).symm.trans there)
    · have there : (s.cell.handlers ++ [new])[k]? = some other := there
      have last : k = s.cell.handlers.length := by
        have bound := (List.getElem?_eq_some_iff.mp there).1
        rw [List.length_append, List.length_singleton] at bound
        omega
      rw [last, List.getElem?_concat_length] at there
      cases there
      rw [last]
      exact serves
  · obtain ⟨applied, same, table, ungranted⟩ | ⟨applied, answering, there, fulfils⟩ := handled.own
    · exact .inl ⟨applied, same, table, fun other found =>
        ungranted other ((early inside).symm.trans found)⟩
    · exact .inr ⟨applied, answering, (early inside).trans there, fulfils.of_same rfl rfl⟩
  · intro answer replied
    obtain ⟨applied, answering, there, finished⟩ := handled.answered answer replied
    exact ⟨applied, answering, (early inside).trans there, finished⟩

/-- A thread that has ended without a grant replies that it failed. -/
theorem refused (handled : Handled before i client path task s) (at_ : s.cell.handlers[h]? = some handler)
    (finished : handler.phase = .finished) (unapplied : h = s.first → s.applied = []) :
    Handled before i client path task { s with replies := (h, false) :: s.replies } := by
  refine ⟨handled.absent, handled.threads, handled.own, ?_, ?_⟩
  · intro answer replied
    obtain now | early := List.mem_cons.mp replied
    · obtain ⟨own, failed⟩ := Prod.mk.inj now
      rw [failed]
      exact ⟨unapplied own.symm, handler, own ▸ at_, finished⟩
    · exact handled.answered answer early
  · intro k replied
    obtain now | early := List.mem_cons.mp replied
    · cases now
    · exact handled.replied k early

/-- Paxos takes a step for the call of `Put` that the first thread has made. -/
theorem ranPaxos {paxos : Paxos.Cluster n} (handled : Handled before i client path task s)
    (allowed : (s.cell.handlers.drop s.first).any (fun handler => handler.phase.inPut) = true) :
    Handled before i client path task { s with cell := { s.cell with paxos } } := by
  obtain ⟨caller, member, puts⟩ := List.any_eq_true.mp allowed
  obtain ⟨k, at_⟩ := List.mem_iff_getElem?.mp member
  rw [List.getElem?_drop] at at_
  have putting : caller.phase.puts = true := by
    cases phase : caller.phase <;> rw [phase] at puts <;> first | rfl | cases puts
  have granted := HandlerPhase.granted_of_puts putting
  have own : s.first + k = s.first := by
    by_contra other
    have forwarded := (handled.threads _ caller (Nat.le_add_right ..) at_).forwarded (by omega)
    rw [granted] at forwarded
    cases forwarded
  rw [own] at at_
  refine ⟨handled.absent, handled.threads, ?_, handled.answered, handled.replied⟩
  obtain ⟨_, _, _, ungranted⟩ | ⟨applied, _⟩ := handled.own
  · have forwarded := ungranted caller at_
    rw [granted] at forwarded
    cases forwarded
  · refine .inr ⟨applied, caller, at_, .inl granted, fun _ unput => ?_⟩
    rw [putting] at unput
    cases unput

/-- A thread of the request that decides not to put or to join has no effect. -/
theorem declined {decision : Decision} {session : Bool} (handled : Handled before i client path task s)
    (later : s.first ≤ h) (at_ : s.cell.handlers[h]? = some handler)
    (checked : handler.phase = .checked session) (idle : decision.applies = false)
    (handlers : cell.handlers = s.cell.handlers.set h (handler.choose path decision))
    (paxos : cell.paxos = s.cell.paxos) (chubby : cell.chubby = s.cell.chubby) :
    Handled before i client path task { s with cell } := by
  have serves := handled.threads h handler later at_
  have ungranted : (HandlerPhase.decided decision).granted = false :=
    (HandlerPhase.decided_granted decision).trans idle
  have served : Serves i client path task s.first h (handler.choose path decision) :=
    ⟨serves.client, serves.keys, serves.task, serves.answer, serves.server, fun _ => ungranted⟩
  have keeps : Keeps handler.phase (handler.choose path decision).phase := by
    rw [checked]
    exact ⟨HandlerPhase.unput_of_ungranted ungranted, ungranted, HandlerPhase.noConfusion⟩
  exact handled.replaced later at_ served keeps handlers (.inl paxos) (fun j => by rw [chubby])
    fun j => by rw [chubby]

/-- The first thread decides to put or to join, and no thread has before. -/
theorem granted {decision : Decision} {session : Bool} (handled : Handled before i client path task s)
    (at_ : s.cell.handlers[s.first]? = some handler) (checked : handler.phase = .checked session)
    (chosen : handler.decision session (s.cell.found handler.server path) = decision)
    (applies : decision.applies = true)
    (handlers : cell.handlers = s.cell.handlers.set s.first (handler.choose path decision))
    (paxos : cell.paxos = s.cell.paxos) (chubby : cell.chubby = s.cell.chubby) :
    Handled before i client path task { s with cell, applied := s.first :: s.applied } := by
  have serves := handled.threads s.first handler (Nat.le_refl _) at_
  have served : Serves i client path task s.first s.first (handler.choose path decision) :=
    ⟨serves.client, serves.keys, serves.task, serves.answer, serves.server,
      fun forwarded => absurd forwarded (Nat.lt_irrefl _)⟩
  have inside : s.first < s.cell.handlers.length := (List.getElem?_eq_some_iff.mp at_).1
  have here : cell.handlers[s.first]? = some (handler.choose path decision) := by
    rw [handlers, List.getElem?_set_self inside]
  have unapplied : s.applied = [] := by
    apply handled.unapplied at_
    · rw [checked]
      rfl
    · rw [checked]
      exact HandlerPhase.noConfusion
  have granted : (HandlerPhase.decided decision).granted = true :=
    (HandlerPhase.decided_granted decision).trans applies
  have joins (unput : (HandlerPhase.decided decision).puts = false) :
      ∃ mode, task = .acquire mode ∧ cell.found i path = some mode.text := by
    have joined : handler.decision session (s.cell.found handler.server path) = .join := by
      rw [chosen]
      apply (Decision.applies_iff.mp applies).resolve_left
      intro put
      rw [HandlerPhase.decided_puts.mpr put] at unput
      cases unput
    obtain ⟨mode, acquires, shows⟩ := Handler.decision_join joined
    refine ⟨mode, serves.task.symm.trans acquires, ?_⟩
    rw [found_of_same paxos (fun j => by rw [chubby]), ← serves.server rfl]
    exact shows
  refine ⟨?_, handled.threads_set served handlers, ?_, ?_, handled.replied⟩
  · intro elected
    exact absurd (handled.absent elected) (Nat.not_le.mpr inside)
  · exact .inr ⟨congrArg (s.first :: ·) unapplied, _, here, .inl granted, fun _ => joins⟩
  · intro answer replied
    obtain ⟨_, answering, there, finished⟩ := handled.answered answer replied
    rw [at_] at there
    cases there
    rw [checked] at finished
    cases finished

/-- A section that ends without a grant replies with failure and leaves every table alone. -/
theorem finishedRefused {decision : Decision} (request : task ≠ .expire)
    (handled : Handled before i client path task s) (later : s.first ≤ h)
    (at_ : s.cell.handlers[h]? = some handler) (phase : handler.phase = .decided decision)
    (idle : decision.applies = false) :
    Handled before i client path task
      { s with cell := s.cell.conclude h handler path [] decision, replies := (h, false) :: s.replies } := by
  have serves := handled.threads h handler later at_
  have ungranted : handler.phase.granted = false := by
    rw [phase, HandlerPhase.decided_granted, idle]
  have ended : (s.cell.conclude h handler path [] decision).handlers =
      s.cell.handlers.set h { handler with phase := .finished } :=
    Cell.conclude_handlers fun expires => request (serves.task.symm.trans expires)
  have locks (j : Fin n) : ((s.cell.conclude h handler path [] decision).chubby j).clientLockMap =
      (s.cell.chubby j).clientLockMap := by
    rw [Cell.conclude_chubby, handler.concluded_idle idle, Function.update_eq_self]
  have inside : h < s.cell.handlers.length := (List.getElem?_eq_some_iff.mp at_).1
  have here : (s.cell.conclude h handler path [] decision).handlers[h]? =
      some { handler with phase := .finished } := by
    rw [ended, List.getElem?_set_self inside]
  have served : Serves i client path task s.first h { handler with phase := .finished } :=
    ⟨serves.client, serves.keys, serves.task, serves.answer, serves.server, fun _ => rfl⟩
  have keeps : Keeps handler.phase .finished := by
    refine ⟨(HandlerPhase.unput_of_ungranted ungranted).symm, ungranted.symm, ?_⟩
    rw [phase]
    exact HandlerPhase.noConfusion
  have next := handled.replaced later at_ served keeps ended (.inl Cell.conclude_paxos)
    (fun j => (Cell.conclude_kept j).1) locks
  refine next.refused here rfl fun own => ?_
  apply handled.unapplied (own ▸ at_) ungranted
  rw [phase]
  exact HandlerPhase.noConfusion

/-- The section of the first thread ends with the grant, and its effect is seen at its server. -/
theorem finishedGranted {decision : Decision} (request : task ≠ .expire)
    (handled : Handled before i client path task s) (later : s.first ≤ h)
    (at_ : s.cell.handlers[h]? = some handler) (ends : Ends handler decision)
    (applies : decision.applies = true)
    (effect : decision = .put → s.cell.found handler.server path = some handler.putValue) :
    Handled before i client path task
      { s with cell := s.cell.conclude h handler path [] decision, replies := (h, true) :: s.replies } := by
  have serves := handled.threads h handler later at_
  have granted := ends.granted applies
  have own : h = s.first := by
    by_contra other
    have forwarded := serves.forwarded (lt_of_le_of_ne later (Ne.symm other))
    rw [granted] at forwarded
    cases forwarded
  subst own
  have server := serves.server rfl
  have inside : s.first < s.cell.handlers.length := (List.getElem?_eq_some_iff.mp at_).1
  have ended : (s.cell.conclude s.first handler path [] decision).handlers =
      s.cell.handlers.set s.first { handler with phase := .finished } :=
    Cell.conclude_handlers fun expires => request (serves.task.symm.trans expires)
  have here : (s.cell.conclude s.first handler path [] decision).handlers[s.first]? =
      some { handler with phase := .finished } := by
    rw [ended, List.getElem?_set_self inside]
  have served : Serves i client path task s.first s.first { handler with phase := .finished } :=
    ⟨serves.client, serves.keys, serves.task, serves.answer, serves.server, fun _ => rfl⟩
  have shows : s.applied = [s.first] ∧
      Shows (s.cell.conclude s.first handler path [] decision) i client path task := by
    obtain ⟨_, _, _, ungranted⟩ | ⟨applied, answering, there, fulfils⟩ := handled.own
    · have refused := ungranted handler at_
      rw [granted] at refused
      cases refused
    · rw [at_] at there
      cases there
      refine ⟨applied, ?_⟩
      rw [← server, ← serves.client]
      apply Cell.conclude_shows serves.task applies effect
      intro joins
      have unput : handler.phase.puts = false := by
        subst joins
        rw [ends.phase Decision.noConfusion]
        rfl
      obtain ⟨mode, acquires, found⟩ := fulfils.joins granted unput
      exact ⟨mode, acquires, server ▸ found⟩
  refine ⟨fun elected => absurd (handled.absent elected) (Nat.not_le.mpr inside),
    handled.threads_set served ended, ?_, ?_, ?_⟩
  · exact .inr ⟨shows.1, _, here, .inr ⟨rfl, shows.2⟩, fun finished => Bool.noConfusion finished⟩
  · intro answer replied
    obtain now | early := List.mem_cons.mp replied
    · obtain ⟨_, succeeded⟩ := Prod.mk.inj now
      rw [succeeded]
      exact ⟨shows.1, _, here, rfl⟩
    · obtain ⟨_, answering, there, finished⟩ := handled.answered answer early
      rw [at_] at there
      cases there
      rw [finished] at granted
      cases granted
  · intro k replied
    obtain now | early := List.mem_cons.mp replied
    · exact (Prod.mk.inj now).1
    · exact handled.replied k early

end Preserved

end Handled

namespace Cell

section History

variable {c : Cell n} {h : Nat} {handler : Handler n} {path : String} {rest : List String}

theorem appliesAt_decide {session : Bool} (at_ : c.handlers[h]? = some handler)
    (checked : handler.phase = .checked session) (keys : handler.keys = path :: rest) :
    c.appliesAt (.decide h) =
      if (handler.decision session (c.found handler.server path)).applies then some h else none := by
  unfold appliesAt upcoming
  simp only [at_, keys, checked, Option.bind_some, List.head?_cons]

theorem replyAt_finish {decision : Decision} (at_ : c.handlers[h]? = some handler)
    (ends : Ends handler decision) : c.replyAt (.finish h) = some (h, succeeds handler decision) := by
  have reply : handler.reply = some (succeeds handler decision) := by
    unfold Handler.reply
    obtain ⟨_, decided⟩ | ⟨puts, _, putting⟩ := ends
    · rw [decided]
    · rw [putting, puts]
  unfold replyAt
  simp only [at_, reply, Option.bind_some, Option.map_some]

end History

end Cell

namespace Handled

variable {before : Cell n} {i : Fin n} {client path : String} {task : Task} {s : Request n}

/-- A step without a decision or an end leaves the history alone. -/
theorem record_quiet {label : CellLabel n} {cell : Cell n} (replies : s.cell.replyAt label = none)
    (applied : s.cell.appliesAt label = none) : s.record label cell = { s with cell } := by
  unfold Request.record
  rw [replies, applied]
  rfl

/-- Every step that a thread takes without a decision keeps the invariant. -/
theorem moved {label : CellLabel n} {h : Nat} {cell : Cell n}
    (handled : Handled before i client path task s) (moves : label.moves = some h) (later : s.first ≤ h)
    (returns : ∀ answer, label = .leaderReturns h answer → answer = true → (h + 1, true) ∈ s.replies)
    (taken : s.cell.step label = some cell) :
    Handled before i client path task { s with cell } := by
  obtain ⟨handler, phase, moved⟩ := Cell.step_moves moves taken
  have frame := Cell.step_frame taken
  have serves := handled.threads h handler later moved.at_
  have advances := moved.moves.advances
  have answer : label.answers handler.answer = false := by
    cases label with
    | leaderReturns caller answer =>
        cases moves
        cases answer with
        | false => rfl
        | true =>
            have replied := handled.replied (h + 1) (returns true rfl rfl)
            omega
    | _ => exact serves.answer
  have served : Serves i client path task s.first h
      { handler with answer := label.answers handler.answer, phase } :=
    ⟨serves.client, serves.keys, serves.task, answer, serves.server,
      fun forwarded => advances.granted.trans (serves.forwarded forwarded)⟩
  have ends : label.finishes = false := by
    cases label <;> first | rfl | cases moves
  have paxos : cell.paxos = s.cell.paxos ∨ handler.phase.puts = true := by
    cases runs : label.runsPaxos with
    | false => exact .inl (moved.paxos runs)
    | true => exact .inr (moved.puts runs)
  exact handled.replaced later moved.at_ served ⟨advances.puts, advances.granted, advances.running.1⟩
    moved.handlers paxos frame.services (frame.locks ends)

/-- A thread of the request calls the leader, which starts the next thread or aborts. -/
theorem called {h : Nat} {cell : Cell n} (handled : Handled before i client path task s)
    (later : s.first ≤ h) (taken : s.cell.callLeader h = some cell) :
    Handled before i client path task { s with cell } := by
  obtain ⟨handler, head, rest, leader, at_, calls, keys, same⟩ := Cell.callLeader_cases taken
  have serves := handled.threads h handler later at_
  have inside : h < s.cell.handlers.length := (List.getElem?_eq_some_iff.mp at_).1
  have served : Serves i client path task s.first h { handler with phase := .called } :=
    ⟨serves.client, serves.keys, serves.task, serves.answer, serves.server, fun _ => rfl⟩
  have keeps : Keeps handler.phase .called := by
    rw [calls]
    exact ⟨rfl, rfl, HandlerPhase.noConfusion⟩
  have middle : Handled before i client path task { s with cell := s.cell.setPhase h handler .called } :=
    handled.replaced later at_ served keeps rfl (.inl rfl) (fun _ => rfl) fun _ => rfl
  obtain ⟨_, aborted⟩ | ⟨_, phase, fresh, arrived⟩ :=
    (s.cell.setPhase h handler .called).arrive_cases leader handler.client head handler.task
  · rw [same, aborted]
    exact middle
  · have undecided := HandlerPhase.ungranted_fresh fresh
    have length : (s.cell.setPhase h handler .called).handlers.length = s.cell.handlers.length :=
      List.length_set ..
    have head_ : [head] = [path] := by
      rw [serves.keys] at keys
      rw [(List.cons.inj keys).1]
    rw [same, arrived]
    apply middle.spawned
    · show s.first < _
      rw [length]
      omega
    · show Serves i client path task s.first (s.cell.setPhase h handler .called).handlers.length _
      rw [length]
      exact ⟨serves.client, head_, serves.task, rfl, fun own => by omega, fun _ => undecided⟩

/-- A thread of the request decides; only the first one may put or join. -/
theorem decided {h : Nat} {cell : Cell n} (handled : Handled before i client path task s)
    (later : s.first ≤ h) (single : s.first < h → s.cell.appliesAt (.decide h) = none)
    (taken : s.cell.decide h = some cell) :
    Handled before i client path task (s.record (.decide h) cell) := by
  obtain ⟨handler, session, head, rest, at_, checked, keys, same⟩ := Cell.decide_cases taken
  have applied := Cell.appliesAt_decide at_ checked keys
  have head_ : head = path := by
    rw [(handled.threads h handler later at_).keys] at keys
    exact (List.cons.inj keys).1.symm
  subst head_
  unfold Request.record
  rw [same, applied]
  cases applies : (handler.decision session (s.cell.found handler.server head)).applies with
  | false => exact handled.declined later at_ checked applies rfl rfl rfl
  | true =>
      have own : h = s.first := by
        by_contra other
        have refused := single (lt_of_le_of_ne later (Ne.symm other))
        rw [applied, applies] at refused
        cases refused
      subst own
      exact handled.granted at_ checked rfl applies rfl rfl rfl

/-- A thread of the request ends its section and replies. -/
theorem finished {h : Nat} {cell : Cell n} (request : task ≠ .expire)
    (handled : Handled before i client path task s) (later : s.first ≤ h)
    (effect : ∀ handler ∈ s.cell.handlers[h]?, ∀ path ∈ handler.keys.head?,
      handler.phase.inPut = true → s.cell.found handler.server path = some handler.putValue)
    (taken : s.cell.finish h = some cell) :
    Handled before i client path task (s.record (.finish h) cell) := by
  obtain ⟨handler, at_, ending⟩ := Cell.finish_cases taken
  have serves := handled.threads h handler later at_
  obtain ⟨_, keys, _⟩ | ⟨head, rest, decision, keys, ends, same⟩ := ending
  · rw [serves.keys] at keys
    cases keys
  · have keys_ : [path] = head :: rest := serves.keys.symm.trans keys
    cases keys_
    unfold Request.record
    rw [same, Cell.replyAt_finish at_ ends, Cell.succeeds_eq serves.answer]
    cases applies : decision.applies with
    | false =>
        have phase : handler.phase = .decided decision := by
          apply ends.phase
          intro put
          rw [put] at applies
          cases applies
        exact handled.finishedRefused request later at_ phase applies
    | true =>
        apply handled.finishedGranted request later at_ ends applies
        intro put
        apply effect handler at_ path (by rw [keys]; rfl)
        obtain ⟨other, _⟩ | ⟨_, _, putting⟩ := ends
        · exact absurd put other
        · rw [putting]
          rfl

/-- Every step of the request under the condition keeps the invariant. -/
theorem step {s' : Request n} {label : CellLabel n} (request : task ≠ .expire)
    (handled : Handled before i client path task s) (single : Single s label)
    (taken : s.step label = some s') : Handled before i client path task s' := by
  obtain ⟨allowed, taken⟩ := Option.ite_none_right_eq_some.mp taken
  obtain ⟨cell, stepped, rfl⟩ := Option.map_eq_some_iff.mp taken
  cases label with
  | paxos label =>
      rw [record_quiet rfl rfl]
      cases label with
      | start j seq v => cases stepped
      | _ =>
          obtain ⟨paxos, _, rfl⟩ := Option.map_eq_some_iff.mp stepped
          exact handled.ranPaxos allowed
  | leaderReturns h answer =>
      rw [record_quiet rfl rfl]
      obtain ⟨later, returned⟩ := Bool.and_eq_true_iff.mp allowed
      apply handled.moved rfl (of_decide_eq_true later) _ stepped
      intro other same succeeded
      cases same
      rw [succeeded] at returned
      exact List.contains_iff_mem.mp returned
  | lock h =>
      rw [record_quiet rfl rfl]
      exact handled.moved rfl (of_decide_eq_true allowed) (fun _ same => by cases same) stepped
  | checkSession h =>
      rw [record_quiet rfl rfl]
      exact handled.moved rfl (of_decide_eq_true allowed) (fun _ same => by cases same) stepped
  | readSlot h =>
      rw [record_quiet rfl rfl]
      exact handled.moved rfl (of_decide_eq_true allowed) (fun _ same => by cases same) stepped
  | start h =>
      rw [record_quiet rfl rfl]
      exact handled.moved rfl (of_decide_eq_true allowed) (fun _ same => by cases same) stepped
  | callLeader h =>
      rw [record_quiet rfl rfl]
      exact handled.called (of_decide_eq_true allowed) stepped
  | decide h => exact handled.decided (of_decide_eq_true allowed) single stepped
  | finish h => exact handled.finished request (of_decide_eq_true allowed) single stepped
  | _ => cases allowed

end Handled

/-- Along every run of the request whose steps meet the condition, the reply tells what the request has
done. -/
theorem request_settled {c : Cell n} {i : Fin n} {client path : String} {task : Task}
    (request : task ≠ .expire) {labels : List (CellLabel n)} {s : Request n}
    (single : Guarded Request.step Single (.start c i client path task) labels)
    (ran : run Request.step (.start c i client path task) labels = some s) :
    Settled c i client path task s := by
  have handled : Handled c i client path task s := by
    apply run_invariant _ (Handled.start c i client path task) single ran
    exact fun _ _ _ holds meets taken => holds.step request meets taken
  exact handled.settled

/-- Server 1 has heard nothing from the leader for so long that it takes it for dead. -/
def leaderMissing (second : Fin 2) : List (CellLabel 2) :=
  [.keepAlive second "1" 0, .paxos (.detect second), .paxos (.detect second), .paxos (.detect second),
    .paxos (.detect second), .paxos (.quietEnds second)]

/-- The leader refuses the client without a session, and server 1 then takes the path for it. -/
def refusedThenGranted (second : Fin 2) : List (CellLabel 2) :=
  [.callLeader 0, .lock 1, .checkSession 1, .decide 1, .finish 1, .leaderReturns 0 false, .lock 0,
    .checkSession 0, .decide 0, .readSlot 0, .start 0, .paxos (.forward 0), .paxos (.deliver 1),
    .paxos (.begin 0), .paxos (.deliver 2), .paxos (.receive 4), .paxos (.acceptFails 0 second),
    .paxos (.conclude 0), .paxos (.deliver 5), .paxos (.finishLearn 0), .paxos (.forwardReturns 0),
    .paxos (.deliver 6), .finish 0]

theorem request_settled_refusedThenGranted : ∃ (c : Cell 2) (s : Request 2),
    run Cell.step (Cell.initial 2 fun _ => 0) (leaderMissing 1) = some c ∧
      run Request.step (.start c 1 "1" "x" (.acquire .exclusive)) (refusedThenGranted 1) = some s ∧
      s.replies = [(0, true), (1, false)] ∧ Settled c 1 "1" "x" (.acquire .exclusive) s := by
  obtain ⟨c, reached, checked⟩ := (Option.any_eq_true _ _).mp (by decide +kernel :
    (run Cell.step (Cell.initial 2 fun _ => 0) (leaderMissing 1)).any (fun c =>
      (run Request.step (.start c 1 "1" "x" (.acquire .exclusive)) (refusedThenGranted 1)).any (fun s =>
        decide (s.replies = [(0, true), (1, false)] ∧ Guarded Request.step Single
          (.start c 1 "1" "x" (.acquire .exclusive)) (refusedThenGranted 1)))) = true)
  obtain ⟨s, ran, checked⟩ := (Option.any_eq_true _ _).mp checked
  obtain ⟨replies, single⟩ := of_decide_eq_true checked
  exact ⟨c, s, reached, ran, replies, request_settled (by decide) single ran⟩

/-- The leader takes the path for the client, and the server of the client then finds it taken. -/
def grantedThenRefused : List (CellLabel 2) :=
  [.callLeader 0, .lock 1, .checkSession 1, .decide 1, .readSlot 1, .start 1, .paxos (.begin 0),
    .paxos (.deliver 1), .paxos (.deliver 2), .paxos (.receive 3), .paxos (.receive 4),
    .paxos (.conclude 0), .paxos (.deliver 5), .paxos (.deliver 6), .paxos (.finishLearn 0), .finish 1,
    .leaderReturns 0 true, .lock 0, .checkSession 0, .decide 0, .finish 0]

theorem refused_after_grant : ¬ ∀ (n : Nat) (slotNumbers : Fin n → Int) (c : Cell n),
    Reachable Cell.step (Cell.initial n slotNumbers) c →
    ∀ (i : Fin n) (client path : String) (task : Task), task ≠ .expire →
      ∀ (labels : List (CellLabel n)) (s : Request n),
        run Request.step (.start c i client path task) labels = some s →
          Settled c i client path task s := by
  intro every
  obtain ⟨c, reached, checked⟩ := (Option.any_eq_true _ _).mp (by decide +kernel :
    (run Cell.step (Cell.initial 2 fun _ => 0) (.keepAlive 0 "1" 0 :: leaderMissing 1)).any (fun c =>
      (run Request.step (.start c 1 "1" "x" (.acquire .exclusive)) grantedThenRefused).any (fun s =>
        decide ((0, false) ∈ s.replies ∧ s.first = 0 ∧ ("x", "1") ∉ (c.chubby 0).clientLockMap ∧
          ("x", "1") ∈ (s.cell.chubby 0).clientLockMap))) = true)
  obtain ⟨s, ran, checked⟩ := (Option.any_eq_true _ _).mp checked
  obtain ⟨failed, first, absent, present⟩ := of_decide_eq_true checked
  have settled := every 2 0 c ⟨_, reached⟩ 1 "1" "x" (.acquire .exclusive) (by decide) _ s ran
  have unchanged := settled.failed (by rw [first]; exact failed)
  rw [unchanged.locks 0] at present
  exact absent present

end Chubby.Lock
