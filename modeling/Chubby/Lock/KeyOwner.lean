/-
This file follows the single threads of the cell and proves that a key lock has one owner at a time.
-/

import Chubby.Library.Places
import Chubby.Lock.CellEvent

namespace Chubby.Lock

open Chubby.Library

variable {n : Nat} {c c' : Cell n} {label : CellLabel n}

/-- A thread in such a phase has no key lock. -/
def HandlerPhase.idle : HandlerPhase → Bool
  | .calling | .called | .waiting | .finished => true
  | .locked | .checked _ | .decided _ | .starting _ | .putting _ => false

/-- A thread that is not idle holds the lock of its first key. -/
theorem Handler.holdsKey_iff {handler : Handler n} {path : String} :
    handler.holdsKey path = true ↔ handler.keys.head? = some path ∧ handler.phase.idle = false := by
  unfold holdsKey HandlerPhase.idle
  cases handler.phase <;> simp

theorem Handler.holdsKey_of_idle {handler : Handler n} (idle : handler.phase.idle = true) (path : String) :
    handler.holdsKey path ≠ true := by
  rw [Ne, holdsKey_iff, idle]
  simp

/-- The end of a section leaves its thread idle, and ends it unless it is an expiry. -/
theorem Cell.conclude_threads (c : Cell n) (h : Nat) (handler : Handler n) (path : String)
    (rest : List String) (decision : Decision) : ∃ last : Handler n, last.phase.idle = true ∧
      last.task = handler.task ∧ (last.phase = .finished ∨ last.task = .expire) ∧
      (c.conclude h handler path rest decision).handlers = c.handlers.set h last := by
  unfold conclude
  dsimp only
  split
  · split <;> exact ⟨{ handler with phase := .finished }, rfl, rfl, .inl rfl, rfl⟩
  · split <;> exact ⟨{ handler with phase := .finished }, rfl, rfl, .inl rfl, rfl⟩
  next expires =>
    exact ⟨{ handler with keys := rest, phase := .waiting }, rfl, rfl, .inr expires, rfl⟩

/-- What a step makes of the thread at a place. -/
inductive ThreadStep (c : Cell n) (label : CellLabel n) (k : Nat) (next : Handler n) : Prop where
  | kept (at_ : c.handlers[k]? = some next)
  | fresh (new : c.handlers.length ≤ k) (idle : next.phase.idle = true)
  | moved {handler : Handler n} {answer : Bool} {phase : HandlerPhase}
      (at_ : c.handlers[k]? = some handler) (moves : Moves handler.phase phase)
      (free : phase = .locked →
        label = .lock k ∧ ∀ path ∈ handler.keys.head?, c.keyFree handler.server path = true)
      (starts : ∀ thread, phase = .putting thread → label = .start k)
      (same : next = { handler with answer, phase })
  | decided {handler : Handler n} {session : Bool} {path : String} {decision : Decision}
      (at_ : c.handlers[k]? = some handler) (checked : handler.phase = .checked session)
      (keys : handler.keys.head? = some path) (same : next = handler.choose path decision)
  | ended {handler : Handler n} (named : label = .finish k) (at_ : c.handlers[k]? = some handler)
      (idle : next.phase.idle = true) (task : next.task = handler.task)
      (done : next.phase = .finished ∨ next.task = .expire)

theorem CellEvent.thread (event : CellEvent c label c') {k : Nat} {next : Handler n}
    (there : c'.handlers[k]? = some next) : ThreadStep c label k next := by
  have idle_of_fresh {new : Handler n} (fresh : new.phase = .calling ∨ new.phase = .waiting) :
      new.phase.idle = true := by
    rcases fresh with fresh | fresh <;> rw [fresh] <;> rfl
  cases event with
  | quiet handlers holds lastPut =>
      rw [handlers] at there
      exact .kept there
  | spawned handlers holds lastPut freed fresh =>
      rw [handlers] at there
      obtain old | ⟨rfl, rfl⟩ := place_concat_cases there
      · exact .kept old
      · exact .fresh le_rfl (idle_of_fresh fresh)
  | @advanced _ _ h handler answer phase handlers holds lastPut at_ moves free starts =>
      rw [handlers] at there
      obtain ⟨_, old⟩ | ⟨rfl, same⟩ := place_set_cases there
      · exact .kept old
      · exact .moved at_ moves free starts same
  | @called h handler new _ handlers holds lastPut at_ calls freed fresh =>
      rw [handlers] at there
      obtain old | ⟨rfl, rfl⟩ := place_concat_cases there
      · obtain ⟨_, old⟩ | ⟨rfl, same⟩ := place_set_cases old
        · exact .kept old
        · exact @ThreadStep.moved n c _ k next handler handler.answer .called at_ (calls ▸ .calls)
            HandlerPhase.noConfusion (fun _ => HandlerPhase.noConfusion) same
      · exact .fresh (by rw [List.length_set]) (idle_of_fresh fresh)
  | @decided h handler session path rest decision _ at_ checked keys chosen handlers holds lastPut =>
      rw [handlers] at there
      obtain ⟨_, old⟩ | ⟨rfl, same⟩ := place_set_cases there
      · exact .kept old
      · exact .decided at_ checked (by rw [keys]; rfl) same
  | @concluded h handler path rest decision at_ keys ends =>
      obtain ⟨last, idle, task, done, handlers⟩ := c.conclude_threads h handler path rest decision
      rw [handlers] at there
      obtain ⟨_, old⟩ | ⟨rfl, rfl⟩ := place_set_cases there
      · exact .kept old
      · exact .ended rfl at_ idle task done
  | @expiryEnds h handler at_ waits keys =>
      obtain ⟨_, old⟩ | ⟨rfl, rfl⟩ := place_set_cases there
      · exact .kept old
      · exact .ended rfl at_ rfl rfl (.inl rfl)

/-- No step removes a thread. -/
theorem CellEvent.threads_grow (event : CellEvent c label c') :
    c.handlers.length ≤ c'.handlers.length := by
  cases event with
  | quiet handlers holds lastPut => rw [handlers]
  | spawned handlers holds lastPut freed fresh =>
      rw [handlers, List.length_append]
      omega
  | advanced handlers holds lastPut at_ moves free starts => rw [handlers, List.length_set]
  | called handlers holds lastPut at_ calls freed fresh =>
      rw [handlers, List.length_append, List.length_set]
      omega
  | decided at_ checked keys chosen handlers holds lastPut => rw [handlers, List.length_set]
  | @concluded h handler path rest decision at_ keys ends =>
      obtain ⟨last, _, _, _, handlers⟩ := c.conclude_threads h handler path rest decision
      rw [handlers, List.length_set]
  | expiryEnds at_ waits keys => exact (List.length_set ..).ge

/-- A thread that moves on without taking its key lock has a lock in both phases or in none. -/
theorem Moves.idle {before after : HandlerPhase} (moves : Moves before after) (unlocked : after ≠ .locked) :
    after.idle = before.idle := by
  cases moves with
  | locks => exact absurd rfl unlocked
  | calls | fails | returns | checks | reads | starts => rfl

/-- A thread that holds the key lock of a path has held it before the step or has found it free. -/
theorem ThreadStep.holdsKey {k : Nat} {next : Handler n} (moved : ThreadStep c label k next) {path : String}
    (holds : next.holdsKey path = true) :
    (∃ handler, c.handlers[k]? = some handler ∧ handler.server = next.server ∧
      handler.holdsKey path = true) ∨ (label = .lock k ∧ c.keyFree next.server path = true) := by
  cases moved with
  | kept at_ => exact .inl ⟨next, at_, rfl, holds⟩
  | fresh new idle => exact absurd holds (Handler.holdsKey_of_idle idle path)
  | @moved handler answer phase at_ moves free starts same =>
      subst same
      by_cases locked : phase = .locked
      · obtain ⟨named, free⟩ := free locked
        exact .inr ⟨named, free path (Handler.holdsKey_iff.mp holds).1⟩
      · obtain ⟨head, busy⟩ := Handler.holdsKey_iff.mp holds
        refine .inl ⟨handler, at_, rfl, Handler.holdsKey_iff.mpr ⟨head, ?_⟩⟩
        rw [← moves.idle locked]
        exact busy
  | @decided handler session key decision at_ checked keys same =>
      subst same
      refine .inl ⟨handler, at_, rfl, Handler.holdsKey_iff.mpr ⟨(Handler.holdsKey_iff.mp holds).1, ?_⟩⟩
      rw [checked]
      rfl
  | ended named at_ idle task done => exact absurd holds (Handler.holdsKey_of_idle idle path)

theorem Cell.keyFree_iff {i : Fin n} {path : String} : c.keyFree i path = true ↔
    ∀ handler ∈ c.handlers, handler.server = i → handler.holdsKey path = false := by
  unfold keyFree
  rw [List.all_eq_true]
  refine forall₂_congr fun handler _ => ?_
  by_cases own : handler.server = i <;> simp [own]

/-- Two threads of one server that hold the key lock of one path are the same thread. -/
def KeysOwned (c : Cell n) : Prop :=
  ∀ {first second : Nat} {one other : Handler n} {path : String}, c.handlers[first]? = some one →
    c.handlers[second]? = some other → one.server = other.server → one.holdsKey path = true →
    other.holdsKey path = true → first = second

theorem keysOwned_initial (slotNumbers : Fin n → Int) : KeysOwned (Cell.initial n slotNumbers) := by
  intro first second one other path there
  cases there

theorem KeysOwned.step (owned : KeysOwned c) (event : CellEvent c label c') : KeysOwned c' := by
  intro first second one other path one_ other_ server oneHolds otherHolds
  -- a thread that finds the key free excludes every thread that has held it
  have excluded {k : Nat} {next handler : Handler n} (free : c.keyFree next.server path = true)
      (at_ : c.handlers[k]? = some handler) (same : handler.server = next.server)
      (holds : handler.holdsKey path = true) : False := by
    have unheld := Cell.keyFree_iff.mp free handler (List.mem_of_getElem? at_) same
    rw [holds] at unheld
    cases unheld
  obtain ⟨before, at_, same, holds⟩ | ⟨locks, free⟩ := (event.thread one_).holdsKey oneHolds
  · obtain ⟨before', at', same', holds'⟩ | ⟨_, free⟩ := (event.thread other_).holdsKey otherHolds
    · exact owned at_ at' (same.trans (server.trans same'.symm)) holds holds'
    · exact (excluded free at_ (same.trans server) holds).elim
  · obtain ⟨before', at', same', holds'⟩ | ⟨locks', _⟩ := (event.thread other_).holdsKey otherHolds
    · exact (excluded free at' (same'.trans server.symm) holds').elim
    · rw [locks] at locks'
      cases locks'
      rfl

/-- In every reachable state each key lock of each server has one owner at most. -/
theorem keysOwned {slotNumbers : Fin n → Int} (reached : Reachable Cell.step (Cell.initial n slotNumbers) c) :
    KeysOwned c := by
  refine @reachable_invariant _ _ _ _ c (fun c => KeysOwned c) (keysOwned_initial slotNumbers) ?_ reached
  exact fun _ _ _ _ owned taken => owned.step (Cell.step_event taken)

end Chubby.Lock
