/-
This file keeps the history that tells which locked values of a database its own server has granted.
-/

import Chubby.Lock.KeyOwner
import Chubby.Paxos.Databases
import Chubby.Paxos.Encoding

namespace Chubby.Lock

open Chubby.Library
open Chubby.Paxos (DecideRequest keyValue pairOf)

variable {n : Nat}

/-- A thread has handed the value of its key to `Start` under the slot number. -/
structure Proposal (n : Nat) where
  thread : Nat
  handler : Handler n
  path : String
  seq : Int
  deriving DecidableEq, Repr

def Handler.acquires (handler : Handler n) : Bool :=
  match handler.task with
  | .acquire _ => true
  | .release | .expire => false

theorem Handler.acquires_iff {handler : Handler n} :
    handler.acquires = true ↔ ∃ mode, handler.task = .acquire mode := by
  unfold acquires
  cases handler.task <;> simp

def Proposal.request (put : Proposal n) : DecideRequest :=
  ⟨put.seq, keyValue put.path put.handler.putValue⟩

namespace Cell

/-- The call of `Start` has not returned. -/
def Open (c : Cell n) (put : Proposal n) : Prop :=
  ∃ joined, c.handlers[put.thread]? = some { put.handler with phase := .putting joined }

/-- What a thread hands to `Start` by the label. -/
def proposes (c : Cell n) : CellLabel n → Option (Proposal n)
  | .start h => c.handlers[h]?.bind fun handler =>
      match handler.phase, handler.keys with
      | .starting seq, path :: _ => some ⟨h, handler, path, seq⟩
      | _, _ => none
  | _ => none

/-- What the server learns in an open slot by the label. -/
def learns (c : Cell n) (label : CellLabel n) (i : Fin n) : Option DecideRequest :=
  match label with
  | .paxos label => c.paxos.learns label i
  | _ => none

/-- The label ends an AcquireLock of the server that joins a shared lock of the path. -/
def joins (c : Cell n) (label : CellLabel n) (i : Fin n) (path : String) : Bool :=
  match label with
  | .finish h => c.handlers[h]?.any fun handler =>
      handler.server = i && handler.acquires && handler.phase = .decided .join &&
        handler.keys.head? = some path
  | _ => false

theorem joins_iff {c : Cell n} {label : CellLabel n} {i : Fin n} {path : String} :
    c.joins label i path = true ↔ ∃ h handler, label = .finish h ∧ c.handlers[h]? = some handler ∧
      handler.server = i ∧ handler.acquires = true ∧ handler.phase = .decided .join ∧
      handler.keys.head? = some path := by
  unfold joins
  cases label <;> simp [Option.any_eq_true, and_assoc]

end Cell

/-- The request writes to the key. -/
def Writes (path : String) (request : DecideRequest) : Bool := (pairOf request).any (·.1 = path)

/-- The proposals, the values that each server has learned in open slots with the last one first, and the
shared locks that a server has joined since it last learned a value of the path are history variables. -/
structure Traced (n : Nat) where
  cell : Cell n
  puts : List (Proposal n)
  learned : Fin n → List DecideRequest
  joined : Fin n → String → Bool

namespace Traced

def initial (n : Nat) (slotNumbers : Fin n → Int) : Traced n :=
  ⟨.initial n slotNumbers, [], fun _ => [], fun _ _ => false⟩

/-- The history grows with the step of the cell. -/
def record (g : Traced n) (label : CellLabel n) (cell : Cell n) : Traced n where
  cell := cell
  puts := (g.cell.proposes label).toList ++ g.puts
  learned i := (g.cell.learns label i).toList ++ g.learned i
  joined i path := g.cell.joins label i path ||
    (g.joined i path && !(g.cell.learns label i).any (Writes path))

def step (g : Traced n) (label : CellLabel n) : Option (Traced n) :=
  (g.cell.step label).map (g.record label)

/-- Every run of the cell has a history. -/
theorem run_cell (g : Traced n) (labels : List (CellLabel n)) :
    (run step g labels).map Traced.cell = run Cell.step g.cell labels := by
  induction labels generalizing g with
  | nil => rfl
  | cons label rest ih =>
      show ((g.step label).bind fun next => run step next rest).map Traced.cell =
        (g.cell.step label).bind fun next => run Cell.step next rest
      unfold step
      cases g.cell.step label with
      | none => rfl
      | some cell => exact ih (g.record label cell)

/-- The last value of the path that the server has learned. -/
def last (g : Traced n) (i : Fin n) (path : String) : Option DecideRequest :=
  (g.learned i).find? (Writes path)

/-- The path is locked in the server's database, and an AcquireLock that the server handled has put this
very value or has joined it. -/
def OwnLock (g : Traced n) (i : Fin n) (path : String) : Prop :=
  Locked (g.cell.found i path) ∧ (g.joined i path = true ∨
    ∃ put ∈ g.puts, put.handler.server = i ∧ put.handler.acquires = true ∧ g.last i path = some put.request)

/-- The call of `Put` has decided the slot of an AcquireLock, and the server has learned the value of a
ReleaseLock. -/
def Done (g : Traced n) (i : Fin n) (put : Proposal n) : Prop :=
  match put.handler.task with
  | .acquire _ => ((g.cell.paxos.servers i).slotAt put.seq).status = .decided
  | .release => put.request ∈ g.learned i
  | .expire => True

/-- When `Put` returns to an AcquireLock of the server, the server has decided the slot, and while `Put`
runs for a ReleaseLock of the server, the server learns its value. -/
def TakesEffect (i : Fin n) (g : Traced n) : CellLabel n → Prop
  | .start h => ∀ put ∈ g.cell.proposes (.start h), put.handler.server = i → put.handler.task = .release →
      put.request ∉ g.learned i
  | .finish h => ∀ put ∈ g.puts, put.thread = h → put.handler.server = i → g.Done i put
  | _ => True

instance (g : Traced n) (i : Fin n) (path : String) : Decidable (g.OwnLock i path) :=
  inferInstanceAs (Decidable (_ ∧ (_ ∨ _)))

instance (g : Traced n) (i : Fin n) (put : Proposal n) : Decidable (g.Done i put) :=
  match task : put.handler.task with
  | .acquire _ => decidable_of_iff (((g.cell.paxos.servers i).slotAt put.seq).status = .decided)
      (by rw [Done, task])
  | .release => decidable_of_iff (put.request ∈ g.learned i) (by rw [Done, task])
  | .expire => isTrue (by rw [Done, task]; trivial)

instance (i : Fin n) (g : Traced n) : (label : CellLabel n) → Decidable (TakesEffect i g label)
  | .start h => inferInstanceAs (Decidable (∀ put ∈ g.cell.proposes (.start h), put.handler.server = i →
      put.handler.task = .release → put.request ∉ g.learned i))
  | .finish h => inferInstanceAs (Decidable (∀ put ∈ g.puts, put.thread = h →
      put.handler.server = i → g.Done i put))
  | .paxos _ | .keepAlive _ _ _ | .acquireLock _ _ _ _ | .releaseLock _ _ _ | .callLeader _
  | .leaderReturns _ _ | .lock _ | .checkSession _ | .decide _ | .readSlot _ | .checkLeases _ _ _
  | .expireNext _ => isTrue trivial

end Traced

/-- A step of the cell steps the cluster or leaves it alone. -/
theorem Cell.step_paxos {c c' : Cell n} {label : CellLabel n} (taken : c.step label = some c') :
    (c'.paxos = c.paxos ∧ ∀ i, c.learns label i = none) ∨
      ∃ below, c.paxos.step below = some c'.paxos ∧ ∀ i, c.learns label i = c.paxos.learns below i := by
  have frame := step_frame taken
  cases label with
  | paxos below =>
      cases below with
      | start i seq v => cases taken
      | _ =>
          obtain ⟨paxos, moved, same⟩ := Option.map_eq_some_iff.mp taken
          rw [← same]
          exact .inr ⟨_, moved, fun _ => rfl⟩
  | start h =>
      change c.start h = some c' at taken
      unfold start at taken
      split at taken
      · cases taken
      next handler at_ =>
        split at taken
        next seq path rest starts keys =>
          obtain ⟨paxos, moved, same⟩ := Option.map_eq_some_iff.mp taken
          rw [← same]
          exact .inr ⟨.start _ seq _, moved, fun _ => rfl⟩
        · cases taken
  | _ => exact .inl ⟨frame.paxos rfl, fun _ => rfl⟩

namespace Traced

/-- The database of the server shows the last values that the server has learned. -/
structure Shown (i : Fin n) (g : Traced n) : Prop where
  service : (g.cell.chubby i).paxosService = i
  opened : (g.cell.paxos.servers i).paxosDb.opened = true
  values : ∀ path, (g.cell.paxos.servers i).paxosDb.get path =
    (g.last i path).bind fun request => (pairOf request).map Prod.snd
  decided : ∀ request ∈ g.learned i,
    ((g.cell.paxos.servers i).slotAt request.seq).status = .decided

theorem shown_initial (slotNumbers : Fin n → Int) (i : Fin n) : Shown i (initial n slotNumbers) where
  service := rfl
  opened := rfl
  values _ := rfl
  decided _ member := by cases member

theorem record_last (g : Traced n) (label : CellLabel n) (cell : Cell n) (i : Fin n) (path : String) :
    (g.record label cell).last i path =
      ((g.cell.learns label i).filter (Writes path)).or (g.last i path) := by
  show ((g.cell.learns label i).toList ++ g.learned i).find? (Writes path) = _
  rw [List.find?_append]
  cases g.cell.learns label i with
  | none => rfl
  | some request =>
      rw [Option.toList_some, List.find?_singleton, Option.filter_some]
      rfl

/-- A slot that a server has decided stays decided. -/
theorem status_kept {c c' : Cell n} {label : CellLabel n} (taken : c.step label = some c') {i : Fin n} {seq : Int}
    (decided : ((c.paxos.servers i).slotAt seq).status = .decided) :
    ((c'.paxos.servers i).slotAt seq).status = .decided := by
  obtain ⟨same, _⟩ | ⟨below, ran, _⟩ := Cell.step_paxos taken
  · rw [same]
    exact decided
  · exact (Paxos.Cluster.step_event ran).status_kept decided

/-- A step by which the server learns nothing shows what its database has shown. -/
theorem Shown.keep {g : Traced n} {label : CellLabel n} {cell : Cell n} {i : Fin n} (shown : Shown i g)
    (moved : g.cell.step label = some cell) (unlearned : g.cell.learns label i = none)
    (same : (cell.paxos.servers i).paxosDb = (g.cell.paxos.servers i).paxosDb) :
    Shown i (g.record label cell) := by
  have learned : (g.record label cell).learned i = g.learned i := by
    show (g.cell.learns label i).toList ++ g.learned i = _
    rw [unlearned, Option.toList_none, List.nil_append]
  refine ⟨((Cell.step_frame moved).services i).trans shown.service, ?_, fun path => ?_, ?_⟩
  · show (cell.paxos.servers i).paxosDb.opened = true
    rw [same]
    exact shown.opened
  · show (cell.paxos.servers i).paxosDb.get path = _
    rw [same, record_last g label cell i path, unlearned, Option.filter_none, Option.none_or]
    exact shown.values path
  · rw [learned]
    exact fun request member => status_kept moved (shown.decided request member)

theorem Shown.step {g g' : Traced n} {label : CellLabel n} {i : Fin n} (shown : Shown i g)
    (taken : g.step label = some g') : Shown i g' := by
  obtain ⟨cell, moved, rfl⟩ := Option.map_eq_some_iff.mp taken
  obtain ⟨same, unlearned⟩ | ⟨below, ran, learns⟩ := Cell.step_paxos moved
  · exact shown.keep moved (unlearned i) (by rw [same])
  · cases new : g.cell.paxos.learns below i with
    | none =>
        exact shown.keep moved ((learns i).trans new) ((Paxos.Cluster.step_event ran).paxosDb_kept new)
    | some request =>
        have now := (learns i).trans new
        obtain ⟨db, _, decides⟩ := Paxos.Cluster.step_learns new ran
        refine ⟨((Cell.step_frame moved).services i).trans shown.service, ?_, fun path => ?_, ?_⟩
        · show (cell.paxos.servers i).paxosDb.opened = true
          rw [db]
          split
          · exact shown.opened
          · rw [Paxos.RocksDBWrapper.put_opened]
            exact shown.opened
        · show (cell.paxos.servers i).paxosDb.get path = _
          rw [db, record_last g label cell i path, now, Option.filter_some]
          unfold Writes
          rcases pair : pairOf request with _ | ⟨key, mode⟩
          · exact shown.values path
          · dsimp only
            rw [Paxos.RocksDBWrapper.get_put _ shown.opened, shown.values path]
            by_cases same : path = key
            · simp [same, pair]
            · simp [same, Ne.symm same]
        · intro other member
          change other ∈ (g.cell.learns label i).toList ++ g.learned i at member
          rw [now, Option.toList_some, List.singleton_append] at member
          obtain rfl | old := List.mem_cons.mp member
          · exact decides
          · exact status_kept moved (shown.decided other old)

end Traced

section Threads

variable {c c' : Cell n} {label : CellLabel n} {put : Proposal n}

/-- A thread keeps its place. -/
theorem place_kept (event : CellEvent c label c') {k : Nat} {handler : Handler n}
    (at_ : c.handlers[k]? = some handler) :
    ∃ next, c'.handlers[k]? = some next ∧ k < c.handlers.length ∧ ThreadStep c label k next := by
  have inside := (List.getElem?_eq_some_iff.mp at_).1
  have there := List.getElem?_eq_getElem (lt_of_lt_of_le inside event.threads_grow)
  exact ⟨_, there, inside, event.thread there⟩

/-- A thread that waits for `Put` keeps waiting until its section ends. -/
theorem open_kept (event : CellEvent c label c') (opened : c.Open put)
    (running : label ≠ .finish put.thread) : c'.Open put := by
  obtain ⟨joined, at_⟩ := opened
  obtain ⟨next, there, inside, moved⟩ := place_kept event at_
  cases moved with
  | kept old =>
      rw [at_] at old
      exact ⟨joined, there.trans old.symm⟩
  | fresh new idle => exact absurd new (Nat.not_le.mpr inside)
  | moved old moves free starts same =>
      cases at_.symm.trans old
      nomatch moves
  | decided old checked keys same =>
      cases at_.symm.trans old
      cases checked
  | ended named old idle task done => exact absurd named running

/-- A thread that waits for `Put` has called `Start` by this step or before it. -/
theorem open_back (event : CellEvent c label c') (opened : c'.Open put) :
    c.Open put ∨ label = .start put.thread := by
  obtain ⟨joined, there⟩ := opened
  cases event.thread there with
  | kept old => exact .inl ⟨joined, old⟩
  | fresh new idle => cases idle
  | moved old moves free starts same =>
      injection same with _ _ _ _ _ _ phase
      exact .inr (starts joined phase.symm)
  | decided old checked keys same =>
      injection same with _ _ _ _ _ _ phase
      cases phase
  | ended named old idle task done => cases idle

/-- The thread has called `Put` or is over. -/
def HandlerPhase.late : HandlerPhase → Bool
  | .putting _ | .finished => true
  | _ => false

theorem Moves.early {before after : HandlerPhase} (moves : Moves before after) : before.late = false := by
  cases moves <;> rfl

/-- The thread of a proposal is about to start it, and it waits for `Put` after the step. -/
structure Starts (c : Cell n) (put : Proposal n) (c' : Cell n) : Prop where
  at_ : c.handlers[put.thread]? = some put.handler
  starting : put.handler.phase = .starting put.seq
  head : put.handler.keys.head? = some put.path
  opened : c'.Open put

theorem start_cases {h : Nat} (taken : c.step (.start h) = some c') :
    ∃ put, c.proposes (.start h) = some put ∧ put.thread = h ∧ Starts c put c' := by
  change c.start h = some c' at taken
  unfold Cell.start at taken
  split at taken
  · cases taken
  next handler at_ =>
    split at taken
    next seq path rest starts keys =>
      obtain ⟨paxos, _, rfl⟩ := Option.map_eq_some_iff.mp taken
      refine ⟨⟨h, handler, path, seq⟩, ?_, rfl, at_, starts, by rw [keys]; rfl, _, place_set_self at_⟩
      unfold Cell.proposes
      dsimp only
      rw [at_, Option.bind_some, starts, keys]
    · cases taken

theorem proposes_cases (taken : c.step label = some c') (proposed : c.proposes label = some put) :
    label = .start put.thread ∧ Starts c put c' := by
  cases label with
  | start h =>
      obtain ⟨other, again, rfl, starts⟩ := start_cases taken
      cases again.symm.trans proposed
      exact ⟨rfl, starts⟩
  | _ => cases proposed

end Threads

namespace Traced

/-- The history names every call of `Put`, and the thread of a request calls it once. -/
structure Recorded (g : Traced n) : Prop where
  heads : ∀ put ∈ g.puts, put.handler.keys.head? = some put.path
  putting : ∀ {h : Nat} {handler : Handler n} {joined : PutThread}, g.cell.handlers[h]? = some handler →
    handler.phase = .putting joined →
    ∃ put ∈ g.puts, put.thread = h ∧ handler = { put.handler with phase := .putting joined }
  past : ∀ put ∈ g.puts, put.handler.task ≠ .expire → ∃ handler,
    g.cell.handlers[put.thread]? = some handler ∧ handler.task = put.handler.task ∧
      handler.phase.late = true

theorem recorded_initial (slotNumbers : Fin n → Int) : Recorded (initial n slotNumbers) where
  heads _ member := by cases member
  putting at_ := by cases at_
  past _ member := by cases member

theorem mem_record {g : Traced n} {label : CellLabel n} {cell : Cell n} {put : Proposal n} :
    put ∈ (g.record label cell).puts ↔ g.cell.proposes label = some put ∨ put ∈ g.puts := by
  show put ∈ (g.cell.proposes label).toList ++ g.puts ↔ _
  rw [List.mem_append, Option.mem_toList]

theorem mem_learned {g : Traced n} {label : CellLabel n} {cell : Cell n} {i : Fin n}
    {request : DecideRequest} : request ∈ (g.record label cell).learned i ↔
      g.cell.learns label i = some request ∨ request ∈ g.learned i := by
  show request ∈ (g.cell.learns label i).toList ++ g.learned i ↔ _
  rw [List.mem_append, Option.mem_toList]

theorem Recorded.step {g g' : Traced n} {label : CellLabel n} (recorded : Recorded g)
    (taken : g.step label = some g') : Recorded g' := by
  obtain ⟨cell, moved, rfl⟩ := Option.map_eq_some_iff.mp taken
  have event := Cell.step_event moved
  refine ⟨fun put member => ?_, ?_, fun put member request => ?_⟩
  · obtain new | old := mem_record.mp member
    · exact (proposes_cases moved new).2.head
    · exact recorded.heads put old
  · intro h handler joined at_ putting
    cases event.thread at_ with
    | kept old =>
        obtain ⟨put, member, named⟩ := recorded.putting old putting
        exact ⟨put, mem_record.mpr (.inr member), named⟩
    | fresh new idle =>
        rw [putting] at idle
        cases idle
    | @moved before answer phase old moves free starts same =>
        obtain rfl := starts joined (by rw [same] at putting; exact putting)
        obtain ⟨put, proposed, rfl, started⟩ := start_cases moved
        refine ⟨put, mem_record.mpr (.inl proposed), rfl, ?_⟩
        obtain ⟨thread, there⟩ := started.opened
        rw [← Option.some.inj (there.symm.trans at_)] at putting ⊢
        cases putting
        rfl
    | decided old checked keys same =>
        rw [same] at putting
        cases putting
    | ended named old idle task done =>
        rw [putting] at idle
        cases idle
  · obtain new | old := mem_record.mp member
    · obtain ⟨joined, there⟩ := (proposes_cases moved new).2.opened
      exact ⟨_, there, rfl, rfl⟩
    · obtain ⟨handler, at_, task, late⟩ := recorded.past put old request
      obtain ⟨next, there, inside, step⟩ := place_kept event at_
      refine ⟨next, there, ?_⟩
      cases step with
      | kept same =>
          cases at_.symm.trans same
          exact ⟨task, late⟩
      | fresh new idle => exact absurd new (Nat.not_le.mpr inside)
      | moved same moves free starts after =>
          cases at_.symm.trans same
          rw [moves.early] at late
          cases late
      | decided same checked keys after =>
          cases at_.symm.trans same
          rw [checked] at late
          cases late
      | ended named same idle served done =>
          cases at_.symm.trans same
          have finished := done.resolve_right fun expires =>
            request (task.symm.trans (served.symm.trans expires))
          exact ⟨served.trans task, by rw [finished]; rfl⟩

end Traced

end Chubby.Lock
