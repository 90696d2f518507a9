/-
This file proves which locks a server can still free by the expiry of a lease, after any failover.
-/

import Chubby.Lock.OwnLocks

namespace Chubby.Lock

open Chubby.Library
open Chubby.Paxos (getKeyValue_eq_ok getKeyValue_keyValue keyValue_of_plain pairOf pairOf_eq_some)

variable {n : Nat}

namespace Cell

/-- The thread that expires the client's lease at the server goes over the path, and it puts `FREE` for
every path that it finds locked. -/
def ExpiryCovers (c : Cell n) (i : Fin n) (path client : String) : Prop :=
  ∀ rest c', c.expiring i = client :: rest → c.step (.expireNext i) = some c' → ∃ thread,
    c'.handlers = c.handlers ++ [thread] ∧ thread.server = i ∧ path ∈ thread.keys ∧
      thread.putValue = "FREE" ∧
      ∀ session found, Locked found → thread.decision session found = .put

/-- The end of a section changes the lock map of its own server, by its own pair. -/
theorem conclude_holds {c : Cell n} {h : Nat} {handler : Handler n} {path : String} {rest : List String}
    {decision : Decision} {i : Fin n} {query client : String} :
    ((c.conclude h handler path rest decision).chubby i).Holds query client ↔
      match handler.task with
      | .acquire _ => ((handler.server = i ∧ (decision = .put ∨ decision = .join)) ∧
          query = path ∧ client = handler.client) ∨ (c.chubby i).Holds query client
      | .release => ¬ ((handler.server = i ∧ decision = .put) ∧ query = path ∧ client = handler.client) ∧
          (c.chubby i).Holds query client
      | .expire => (c.chubby i).Holds query client := by
  by_cases self : i = handler.server
  · rw [self, conclude_chubby_self]
    unfold Handler.concluded
    cases handler.task with
    | acquire mode =>
        dsimp only
        split
        next takes =>
          rw [ChubbyImpl.insertLock_holds]
          simp [takes]
        next refuses => simp [refuses]
    | release =>
        dsimp only
        split
        next frees =>
          rw [ChubbyImpl.eraseLock_holds]
          simp [frees]
        next keeps => simp [keeps]
    | expire => exact Iff.rfl
  · rw [conclude_chubby_of_ne self]
    cases handler.task <;> simp [Ne.symm self]

/-- A pair leaves the lock map only when a ReleaseLock of its client ends with a `Put`. -/
theorem holds_kept {c c' : Cell n} {label : CellLabel n} (taken : c.step label = some c') {i : Fin n}
    {path client : String} (holds : (c.chubby i).Holds path client) :
    (c'.chubby i).Holds path client ∨ ∃ h handler joined, label = .finish h ∧
      c.handlers[h]? = some handler ∧ handler.server = i ∧ handler.task = .release ∧
      handler.keys.head? = some path ∧ handler.phase = .putting joined := by
  have frame := step_frame taken
  have kept (same : (c'.chubby i).clientLockMap = (c.chubby i).clientLockMap) :
      (c'.chubby i).Holds path client := by
    unfold ChubbyImpl.Holds
    rw [same]
    exact holds
  cases label with
  | finish h =>
      obtain ⟨handler, at_, ending⟩ := finish_cases taken
      obtain ⟨_, _, same⟩ | ⟨head, rest, decision, keys, ends, same⟩ := ending
      · rw [same]
        exact .inl holds
      · rw [same, conclude_holds]
        cases task : handler.task with
        | acquire mode => exact .inl (.inr holds)
        | expire => exact .inl holds
        | release =>
            by_cases erased : (handler.server = i ∧ decision = .put) ∧ path = head ∧ client = handler.client
            · obtain ⟨⟨own, puts⟩, rfl, _⟩ := erased
              obtain ⟨unput, _⟩ | ⟨_, joined, putting⟩ := ends
              · exact absurd puts unput
              · exact .inr ⟨h, handler, joined, rfl, at_, own, task, by rw [keys]; rfl, putting⟩
            · exact .inl ⟨erased, holds⟩
  | _ => exact .inl (kept (frame.locks rfl i))

/-- An AcquireLock that ends with a `Put` or joins leaves its client in the lock map. -/
theorem finish_holds {c c' : Cell n} {h : Nat} (taken : c.step (.finish h) = some c') {handler : Handler n}
    {path : String} (at_ : c.handlers[h]? = some handler) (acquires : handler.acquires = true)
    (head : handler.keys.head? = some path)
    (takes : handler.phase = .decided .join ∨ ∃ joined, handler.phase = .putting joined) :
    (c'.chubby handler.server).Holds path handler.client := by
  obtain ⟨other, again, ending⟩ := finish_cases taken
  cases at_.symm.trans again
  obtain ⟨waits, _, _⟩ | ⟨key, rest, decision, keys, ends, same⟩ := ending
  · exfalso
    obtain joins | ⟨joined, putting⟩ := takes
    · rw [waits] at joins
      cases joins
    · rw [waits] at putting
      cases putting
  · rw [keys] at head
    cases head
    have effect : decision = .put ∨ decision = .join := by
      obtain ⟨_, decided⟩ | ⟨puts, _⟩ := ends
      · obtain joins | ⟨joined, putting⟩ := takes
        · rw [decided] at joins
          cases joins
          exact .inr rfl
        · rw [decided] at putting
          cases putting
      · exact .inl puts
    rw [same, conclude_holds]
    obtain ⟨mode, task⟩ := Handler.acquires_iff.mp acquires
    rw [task]
    exact .inl ⟨⟨rfl, effect⟩, rfl, rfl⟩

/-- An expiry of the client at a server that has the pair goes over the path. -/
theorem holds_covered {c : Cell n} {i : Fin n} {path client : String}
    (holds : (c.chubby i).Holds path client) : ExpiryCovers c i path client := by
  intro rest c' expires taken
  change c.expireNext i = some c' at taken
  unfold expireNext at taken
  rw [expires] at taken
  dsimp only at taken
  split at taken
  · cases taken
    exact ⟨_, rfl, rfl, ChubbyImpl.mem_lockedKeys.mpr holds, rfl, fun _ _ locked => if_pos locked⟩
  · cases taken

end Cell

namespace Traced

/-- An AcquireLock of the server for the path has called `Put` and waits for it. -/
def Pending (g : Traced n) (i : Fin n) (path : String) : Prop :=
  ∃ put ∈ g.puts, put.handler.server = i ∧ put.handler.acquires = true ∧ put.path = path ∧ g.cell.Open put

/-- The invariant that links the value of a locked path to a holder in the memory of its own server. -/
structure Granted (i : Fin n) (g : Traced n) : Prop where
  settled : ∀ put ∈ g.puts, put.handler.server = i → put.handler.acquires = true →
    g.cell.Open put ∨ ((g.cell.paxos.servers i).slotAt put.seq).status = .decided
  held : ∀ path, g.OwnLock i path → (∃ client, (g.cell.chubby i).Holds path client) ∨ g.Pending i path
  freed : ∀ put ∈ g.puts, put.handler.server = i → put.handler.task = .release → g.cell.Open put →
    put.request ∈ g.learned i → ¬ g.OwnLock i put.path

theorem granted_initial (slotNumbers : Fin n → Int) (i : Fin n) : Granted i (initial n slotNumbers) where
  settled _ member := by cases member
  held path own := by
    obtain ⟨locked, _⟩ := own
    exact absurd locked (Vacant.not_locked (.inl rfl))
  freed _ member := by cases member

variable {g : Traced n} {label : CellLabel n} {cell : Cell n} {i : Fin n} {path : String}

theorem Shown.found (shown : Shown i g) : g.cell.found i path =
    (g.last i path).bind fun request => (pairOf request).map Prod.snd := by
  unfold Cell.found
  rw [shown.service]
  exact shown.values path

/-- The last value of the path parses to the path. -/
theorem last_pair {request : Paxos.DecideRequest} (last : g.last i path = some request) :
    ∃ value, pairOf request = some (path, value) := by
  have writes : Writes path request = true := List.find?_some last
  obtain ⟨⟨key, value⟩, pair, same⟩ := (Option.any_eq_true _ _).mp writes
  cases of_decide_eq_true same
  exact ⟨value, pair⟩

theorem plain_of_locked {value : String} (locked : Locked (some value)) : '#' ∉ value.toList := by
  rcases locked with same | same <;> cases same <;> decide

/-- A locked path shows the value of a proposal for this very path. -/
theorem Shown.proposed (shown : Shown i g) (locked : Locked (g.cell.found i path)) {put : Proposal n}
    (last : g.last i path = some put.request) : put.path = path := by
  obtain ⟨value, pair⟩ := last_pair last
  rw [shown.found, last, Option.bind_some, pair] at locked
  exact (keyValue_of_plain (pairOf_eq_some.mp pair) (plain_of_locked locked)).1

/-- A locked value that the server has granted was granted before the step, or the step joins it, or a
`Put` that still runs has put it. -/
theorem OwnLock.before (shown : Shown i g) (granted : Granted i g) (moved : g.cell.step label = some cell)
    (own : (g.record label cell).OwnLock i path) :
    g.OwnLock i path ∨ g.cell.joins label i path = true ∨ (g.record label cell).Pending i path := by
  have after : Shown i (g.record label cell) := shown.step (Option.map_eq_some_iff.mpr ⟨cell, moved, rfl⟩)
  obtain ⟨locked, origin⟩ := own
  have last := record_last g label cell i path
  -- when the step learns no value of the path, the path shows what it has shown
  have missed (unwritten : (g.cell.learns label i).any (Writes path) = false) :
      (g.record label cell).last i path = g.last i path := by
    rw [last]
    cases learned : g.cell.learns label i with
    | none => rfl
    | some request =>
        rw [learned, Option.any_some] at unwritten
        rw [Option.filter_some, if_neg (by rw [unwritten]; exact Bool.false_ne_true), Option.none_or]
  have still (same : (g.record label cell).last i path = g.last i path) : Locked (g.cell.found i path) := by
    rw [after.found, same, ← shown.found] at locked
    exact locked
  obtain joined | ⟨put, member, server, acquires, shows⟩ := origin
  · obtain joins | kept := (Bool.or_eq_true _ _).mp joined
    · exact .inr (.inl joins)
    · obtain ⟨before, unwritten⟩ := (Bool.and_eq_true _ _).mp kept
      exact .inl ⟨still (missed (by simpa using unwritten)), .inl before⟩
  · have own := after.proposed locked shows
    obtain proposed | old := mem_record.mp member
    · exact .inr (.inr ⟨put, member, server, acquires, own, (proposes_cases moved proposed).2.opened⟩)
    · cases written : (g.cell.learns label i).any (Writes path) with
      | false =>
          have same := missed written
          exact .inl ⟨still same, .inr ⟨put, old, server, acquires, same ▸ shows⟩⟩
      | true =>
          obtain ⟨request, learned, writes⟩ := (Option.any_eq_true _ _).mp written
          rw [last, learned, Option.filter_some, if_pos writes, Option.some_or] at shows
          cases shows
          refine .inr (.inr ⟨put, member, server, acquires, own, ?_⟩)
          obtain opened | decided := granted.settled put old server acquires
          · refine open_kept (Cell.step_event moved) opened ?_
            rintro rfl
            cases learned
          · exfalso
            obtain ⟨_, unlearned⟩ | ⟨below, ran, learns⟩ := Cell.step_paxos moved
            · rw [unlearned] at learned
              cases learned
            · rw [learns] at learned
              exact (Paxos.Cluster.step_learns learned ran).2.1 decided

theorem Granted.settled_step (granted : Granted i g) (effective : g.TakesEffect i label)
    (moved : g.cell.step label = some cell) :
    ∀ put ∈ (g.record label cell).puts, put.handler.server = i → put.handler.acquires = true →
      cell.Open put ∨ ((cell.paxos.servers i).slotAt put.seq).status = .decided := by
  intro put member server acquires
  obtain proposed | old := mem_record.mp member
  · exact .inl (proposes_cases moved proposed).2.opened
  · obtain opened | decided := granted.settled put old server acquires
    · by_cases returns : label = .finish put.thread
      · subst returns
        have effect := effective put old rfl server
        obtain ⟨mode, task⟩ := Handler.acquires_iff.mp acquires
        rw [Done, task] at effect
        exact .inr (status_kept moved effect)
      · exact .inl (open_kept (Cell.step_event moved) opened returns)
    · exact .inr (status_kept moved decided)

theorem Granted.held_step (shown : Shown i g) (recorded : Recorded g) (granted : Granted i g)
    (effective : g.TakesEffect i label) (moved : g.cell.step label = some cell)
    (own : (g.record label cell).OwnLock i path) :
    (∃ client, (cell.chubby i).Holds path client) ∨ (g.record label cell).Pending i path := by
  obtain before | joins | fresh := own.before shown granted moved
  · obtain ⟨client, holds⟩ | ⟨put, member, server, acquires, same, opened⟩ := granted.held path before
    · obtain kept | ⟨h, handler, joined, rfl, at_, server, task, head, putting⟩ := Cell.holds_kept moved holds
      · exact .inl ⟨client, kept⟩
      · -- the release has put `FREE` over the value, so the lock was not the server's own any more
        exfalso
        obtain ⟨put, member, rfl, rfl⟩ := recorded.putting at_ putting
        have effect := effective put member rfl server
        have releases : put.handler.task = .release := task
        rw [Done, releases] at effect
        obtain rfl := Option.some.inj ((recorded.heads put member).symm.trans head)
        exact granted.freed put member server releases ⟨joined, at_⟩ effect before
    · by_cases returns : label = .finish put.thread
      · subst returns
        obtain ⟨joined, at_⟩ := opened
        have head := recorded.heads put member
        rw [same] at head
        have holds := Cell.finish_holds moved at_ acquires head (.inr ⟨joined, rfl⟩)
        exact .inl ⟨_, server ▸ holds⟩
      · exact .inr ⟨put, mem_record.mpr (.inr member), server, acquires, same,
          open_kept (Cell.step_event moved) opened returns⟩
  · obtain ⟨h, handler, rfl, at_, server, acquires, decided, head⟩ := Cell.joins_iff.mp joins
    rw [← server]
    exact .inl ⟨_, Cell.finish_holds moved at_ acquires head (.inl decided)⟩
  · exact .inr fresh

/-- A server that learns the `FREE` of a release finds its path unlocked. -/
theorem freed_unlocked {put : Proposal n} (after : Shown i (g.record label cell))
    (releases : put.handler.task = .release) (learned : g.cell.learns label i = some put.request) :
    ¬ Locked ((g.record label cell).cell.found i put.path) := by
  intro locked
  rw [after.found] at locked
  have last := record_last g label cell i put.path
  -- a locked path has no separator, so the value of the release parses to it
  have plain : '#' ∉ put.path.toList := by
    cases shows : (g.record label cell).last i put.path with
    | none =>
        rw [shows] at locked
        exact absurd locked (Vacant.not_locked (.inl rfl))
    | some request =>
        obtain ⟨value, pair⟩ := last_pair shows
        exact (getKeyValue_eq_ok (pairOf_eq_some.mp pair)).1
  have value : put.handler.putValue = "FREE" := by
    unfold Handler.putValue
    rw [releases]
  have pair : pairOf put.request = some (put.path, "FREE") := by
    rw [pairOf_eq_some, ← value]
    exact getKeyValue_keyValue plain _
  have writes : Writes put.path put.request = true := by
    unfold Writes
    rw [pair]
    exact decide_eq_true rfl
  rw [learned, Option.filter_some, if_pos writes, Option.some_or] at last
  rw [last, Option.bind_some, pair] at locked
  exact Vacant.not_locked (.inr rfl) locked

theorem Granted.freed_step (owned : KeysOwned g.cell) (shown : Shown i g) (recorded : Recorded g)
    (granted : Granted i g) (effective : g.TakesEffect i label) (moved : g.cell.step label = some cell) :
    ∀ put ∈ (g.record label cell).puts, put.handler.server = i → put.handler.task = .release →
      cell.Open put → put.request ∈ (g.record label cell).learned i →
      ¬ (g.record label cell).OwnLock i put.path := by
  intro put member server releases opened learned own
  have event := Cell.step_event moved
  have recorded_ : Recorded (g.record label cell) :=
    recorded.step (Option.map_eq_some_iff.mpr ⟨cell, moved, rfl⟩)
  obtain proposed | old := mem_record.mp member
  · -- the server has learned the value before `Put` was called
    obtain ⟨named, _⟩ := proposes_cases moved proposed
    rw [named] at effective proposed
    have unlearned := effective put proposed server releases
    rw [named] at learned
    exact unlearned learned
  · obtain running | starts := open_back event opened
    · obtain new | before := mem_learned.mp learned
      · exact freed_unlocked (shown.step (Option.map_eq_some_iff.mpr ⟨cell, moved, rfl⟩)) releases new own.1
      · obtain granted_ | joins | ⟨other, member', server', acquires, same, opened'⟩ :=
          own.before shown granted moved
        · exact granted.freed put old server releases running before granted_
        · obtain ⟨h, handler, _, at_, server', _, decided, head⟩ := Cell.joins_iff.mp joins
          obtain ⟨joined, there⟩ := running
          have alone := owned at_ there (server'.trans server.symm)
            (Handler.holdsKey_iff.mpr ⟨head, by rw [decided]; rfl⟩)
            (Handler.holdsKey_iff.mpr ⟨recorded.heads put old, rfl⟩)
          rw [alone, there] at at_
          cases at_
          cases decided
        · obtain ⟨joined, there⟩ := opened
          obtain ⟨joined', there'⟩ := opened'
          have head := recorded_.heads other member'
          rw [same] at head
          have alone := (owned.step event) there there' (server.trans server'.symm)
            (Handler.holdsKey_iff.mpr ⟨recorded.heads put old, rfl⟩) (Handler.holdsKey_iff.mpr ⟨head, rfl⟩)
          rw [← alone] at there'
          obtain ⟨mode, task⟩ := Handler.acquires_iff.mp acquires
          injection Option.some.inj (there.symm.trans there') with _ _ tasks
          rw [releases, task] at tasks
          cases tasks
    · obtain ⟨handler, at_, _, late⟩ := recorded.past put old (by rw [releases]; exact Task.noConfusion)
      rw [starts] at moved
      obtain ⟨other, _, same, begun⟩ := start_cases moved
      have there := begun.at_
      rw [same, at_] at there
      cases there
      rw [begun.starting] at late
      cases late

/-- All that is known of a history along a run in which the calls of `Put` take effect. -/
structure Linked (i : Fin n) (g : Traced n) : Prop where
  owned : KeysOwned g.cell
  shown : Shown i g
  recorded : Recorded g
  granted : Granted i g

theorem linked_initial (slotNumbers : Fin n → Int) (i : Fin n) : Linked i (initial n slotNumbers) :=
  ⟨keysOwned_initial slotNumbers, shown_initial slotNumbers i, recorded_initial slotNumbers,
    granted_initial slotNumbers i⟩

theorem Linked.step {g' : Traced n} (linked : Linked i g) (effective : g.TakesEffect i label)
    (taken : g.step label = some g') : Linked i g' := by
  obtain ⟨owned, shown, recorded, granted⟩ := linked
  refine ⟨?_, shown.step taken, recorded.step taken, ?_⟩
  · obtain ⟨cell, moved, rfl⟩ := Option.map_eq_some_iff.mp taken
    exact owned.step (Cell.step_event moved)
  · obtain ⟨cell, moved, rfl⟩ := Option.map_eq_some_iff.mp taken
    exact ⟨granted.settled_step effective moved,
      fun path own => granted.held_step shown recorded effective moved own,
      granted.freed_step owned shown recorded effective moved⟩

end Traced

/-- No lock request and no expiry of a lease is in progress. -/
def Idle (c : Cell n) : Prop :=
  (∀ handler ∈ c.handlers, handler.phase = .finished) ∧ ∀ i, c.expiring i = []

instance (c : Cell n) : Decidable (Idle c) := inferInstanceAs (Decidable (_ ∧ _))

/-- A client takes a path at server 0, both servers learn it, and then server 1 wins an election. -/
def failedOver (first second : Fin 2) : List (CellLabel 2) :=
  [.keepAlive first "1" 0, .acquireLock first "1" "x" .exclusive, .lock 0, .checkSession 0, .decide 0,
    .readSlot 0, .start 0, .paxos (.begin 0), .paxos (.deliver 0), .paxos (.deliver 1),
    .paxos (.receive 2), .paxos (.receive 3), .paxos (.conclude 0), .paxos (.deliver 4),
    .paxos (.deliver 5), .paxos (.finishLearn 0), .finish 0] ++
  [.paxos (.detect second), .paxos (.detect second), .paxos (.detect second), .paxos (.detect second),
    .paxos (.deliver 6), .paxos (.receive 7), .paxos (.concludeElection 0)]

/-- The server to which the message is addressed has learned its value. -/
def Cell.learned (c : Cell n) : Paxos.Msg n → Bool
  | .learnRequest _ i request => ((c.paxos.servers i).slotAt request.seq).status = .decided
  | _ => true

/-- The server leads its own view, and no view is larger. -/
def LeadsLargest (c : Cell n) (i : Fin n) : Prop :=
  Paxos.leads i (c.paxos.servers i).view ∧ ∀ j, (c.paxos.servers j).view ≤ (c.paxos.servers i).view

/-- Every path that is locked at the leader of the largest view has a holder in that server's memory. -/
def NoOrphan (c : Cell n) : Prop :=
  ∀ i path, LeadsLargest c i → Locked (c.found i path) → ∃ client, (c.chubby i).Holds path client

instance (c : Cell n) (i : Fin n) : Decidable (LeadsLargest c i) := inferInstanceAs (Decidable (_ ∧ _))

end Chubby.Lock
