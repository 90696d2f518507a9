/-
This file gives the mutexes that a chain of waiting calls holds and the lock objects of the calls.
-/

import Mathlib.Data.List.Basic

namespace Chubby.Library

/-- A chain of calls that breaks a rule of its mutexes does not go on: it waits for itself, or throws.
A chain may also end with its process, or be cut off before its end. -/
inductive Fault (Mutex : Type) where
  | relocked (mutex : Mutex)
  | notOwned (mutex : Mutex)
  | crashed
  | unfinished
  deriving DecidableEq, Repr

variable {Mutex Result : Type}

/-- The chain returns, or its process ends, without a broken rule. -/
def Disciplined : Except (Fault Mutex) Result → Prop
  | .ok _ | .error .crashed => True
  | .error (.relocked _) | .error (.notOwned _) | .error .unfinished => False

/-- What a caller does with the result of a call keeps the discipline when it always returns. -/
theorem disciplined_map {Other : Type} {called : Except (Fault Mutex) Result} (finish : Result → Other) :
    Disciplined (called >>= fun result => Except.ok (finish result)) ↔ Disciplined called := by
  cases called with
  | ok result => exact Iff.rfl
  | error fault => cases fault <;> exact Iff.rfl

/-- A caller that breaks a rule after its call is saved only by the end of the process. -/
theorem disciplined_notOwned {Other : Type} {called : Except (Fault Mutex) Result} {mutex : Mutex} :
    Disciplined (called >>= fun _ => (Except.error (.notOwned mutex) : Except (Fault Mutex) Other)) ↔
      called = .error .crashed := by
  cases called with
  | ok result => simp [bind, Except.bind, Disciplined]
  | error fault => cases fault <;> simp [bind, Except.bind, Disciplined]

variable [DecidableEq Mutex]

/-- A mutex that the chain already holds is never given to it again. -/
def lockMutex (mutex : Mutex) (held : List Mutex) : Except (Fault Mutex) (List Mutex) :=
  if mutex ∈ held then .error (.relocked mutex) else .ok (mutex :: held)

def unlockMutex (mutex : Mutex) (held : List Mutex) : List Mutex := held.erase mutex

/-- A section locks and unlocks a mutex by hand. -/
def passMutex (mutex : Mutex) (held : List Mutex) : Except (Fault Mutex) (List Mutex) := do
  let held ← lockMutex mutex held
  pure (unlockMutex mutex held)

/-- A lock object knows whether it owns its mutex. -/
structure UniqueLock (Mutex : Type) where
  mutex : Mutex
  owns : Bool
  deriving DecidableEq, Repr

namespace UniqueLock

/-- The constructor locks the mutex. -/
def acquire (mutex : Mutex) (held : List Mutex) :
    Except (Fault Mutex) (UniqueLock Mutex × List Mutex) := do
  let held ← lockMutex mutex held
  pure (⟨mutex, true⟩, held)

def lock (object : UniqueLock Mutex) (held : List Mutex) :
    Except (Fault Mutex) (UniqueLock Mutex × List Mutex) :=
  acquire object.mutex held

/-- An object that does not own its mutex throws. -/
def unlock (object : UniqueLock Mutex) (held : List Mutex) :
    Except (Fault Mutex) (UniqueLock Mutex × List Mutex) :=
  if object.owns then .ok (⟨object.mutex, false⟩, unlockMutex object.mutex held)
  else .error (.notOwned object.mutex)

/-- The destructor unlocks only a mutex that the object owns. -/
def destroy (object : UniqueLock Mutex) (held : List Mutex) : List Mutex :=
  if object.owns then unlockMutex object.mutex held else held

end UniqueLock

variable {mutex : Mutex} {held : List Mutex}

theorem lockMutex_of_mem (member : mutex ∈ held) : lockMutex mutex held = .error (.relocked mutex) :=
  if_pos member

theorem lockMutex_of_notMem (absent : mutex ∉ held) : lockMutex mutex held = .ok (mutex :: held) :=
  if_neg absent

theorem acquire_of_mem (member : mutex ∈ held) :
    UniqueLock.acquire mutex held = .error (.relocked mutex) := by
  unfold UniqueLock.acquire
  rw [lockMutex_of_mem member]
  rfl

theorem acquire_of_notMem (absent : mutex ∉ held) :
    UniqueLock.acquire mutex held = .ok (⟨mutex, true⟩, mutex :: held) := by
  unfold UniqueLock.acquire
  rw [lockMutex_of_notMem absent]
  rfl

theorem passMutex_of_mem (member : mutex ∈ held) : passMutex mutex held = .error (.relocked mutex) := by
  unfold passMutex
  rw [lockMutex_of_mem member]
  rfl

theorem passMutex_of_notMem (absent : mutex ∉ held) : passMutex mutex held = .ok held := by
  unfold passMutex
  rw [lockMutex_of_notMem absent]
  show Except.ok ((mutex :: held).erase mutex) = Except.ok held
  rw [List.erase_cons_head]

/-- Threads that each pass a free mutex leave it free. -/
theorem passMutex_each {Item : Type} (items : List Item) (absent : mutex ∉ held) :
    items.foldlM (fun held _ => passMutex mutex held) held = .ok held := by
  induction items with
  | nil => rfl
  | cons item rest ih =>
      rw [List.foldlM_cons, passMutex_of_notMem absent]
      exact ih

end Chubby.Library
