/-
This file runs the handlers and the expiry thread with the mutexes of `KeyLock`, and proves that these
mutexes give exactly the key locks of the interleaved server.
-/

import Chubby.Library.Refinement
import Chubby.Library.Places
import Chubby.Lock.Interleaving

namespace Chubby.Lock

open Chubby.Library

inductive Caller where
  | handler (thread : Nat)
  | expiry
  deriving DecidableEq, Repr

/-- The entry of a key is `some none` when it is a null pointer. The history variable `owners` says who
has locked each mutex. -/
structure KeyLock where
  lockMap : String → Option (Option Nat)
  owners : Nat → Option Caller
  made : Nat

namespace KeyLock

def initial : KeyLock := ⟨fun _ => none, fun _ => none, 0⟩

/-- The section of `lock` under `map_mutex`. -/
def find (s : KeyLock) (key : String) : KeyLock × Option Nat :=
  match s.lockMap key with
  | none => ({ s with
      lockMap := Function.update s.lockMap key (some (some s.made))
      made := s.made + 1 }, some s.made)
  | some keyMutex => (s, keyMutex)

/-- The section of `unlock` under `map_mutex`, where the subscript makes a null pointer for a new key. -/
def subscript (s : KeyLock) (key : String) : KeyLock × Option Nat :=
  match s.lockMap key with
  | none => ({ s with lockMap := Function.update s.lockMap key (some none) }, none)
  | some keyMutex => (s, keyMutex)

def setOwner (s : KeyLock) (keyMutex : Nat) (owner : Option Caller) : KeyLock :=
  { s with owners := Function.update s.owners keyMutex owner }

end KeyLock

/-- The sections of the server with the calls of `KeyLock` that are between their two parts. A call
that uses a null pointer, or unlocks a mutex that its caller does not have, breaks the server. -/
structure Keyed where
  base : Interleaved
  keyLock : KeyLock
  keyMutex : Caller → Option (Option Nat)
  broken : Bool

inductive KeyedLabel where
  | run (label : SectionLabel)
  | findMutex (caller : Caller)
  | lockMutex (caller : Caller)
  | subscript (caller : Caller)
  | unlockMutex (caller : Caller)
  deriving DecidableEq, Repr

/-- The sections that take or release a key lock run as calls of `KeyLock`. -/
def SectionLabel.plain : SectionLabel → Bool
  | .lock _ | .answer _ | .lockKey | .unlockKey => false
  | .keepAlive _ _ _ | .acquireLock _ _ _ | .releaseLock _ _ | .checkSession _ | .readValue _ | .put _
  | .record _ | .collect _ _ | .lookUp | .readKey | .freeKey _ => true

namespace LockThread

/-- The key that a handler has the lock of. -/
def holding (thread : LockThread) : Option String :=
  if thread.stage.holds then some thread.path else none

/-- The key that a handler is about to lock, and the one that it is about to unlock. -/
def locking (thread : LockThread) : Option String :=
  if thread.stage = .waiting then some thread.path else none

def unlocking (thread : LockThread) : Option String :=
  match thread.stage with
  | .settled _ _ => some thread.path
  | .waiting | .locked | .checked | .decided _ | .stored | .answered _ => none

end LockThread

namespace KeyStage

def holding (stage : KeyStage) (lockedKeys : List String) : Option String :=
  match stage with
  | .resting => none
  | .locked | .found _ => lockedKeys.head?
  | .freed key => some key

def locking (stage : KeyStage) (lockedKeys : List String) : Option String :=
  match stage with
  | .resting => lockedKeys.head?
  | .locked | .found _ | .freed _ => none

def unlocking : KeyStage → Option String
  | .freed key => some key
  | .resting | .locked | .found _ => none

end KeyStage

namespace Interleaved

def holding (s : Interleaved) : Caller → Option String
  | .handler k => s.threads[k]?.bind LockThread.holding
  | .expiry => s.keyStage.holding s.lockedKeys

def locking (s : Interleaved) : Caller → Option String
  | .handler k => s.threads[k]?.bind LockThread.locking
  | .expiry => s.keyStage.locking s.lockedKeys

def unlocking (s : Interleaved) : Caller → Option String
  | .handler k => s.threads[k]?.bind LockThread.unlocking
  | .expiry => s.keyStage.unlocking

/-- What a caller does as soon as it has its key lock. -/
def entered (s : Interleaved) : Caller → Option Interleaved
  | .handler k => s.threads[k]?.map fun thread => s.enter k thread
  | .expiry => some { s with keyStage := .locked }

def left (s : Interleaved) : Caller → Option Interleaved
  | .handler k => s.answer k
  | .expiry => s.unlockKey

/-- The section that a caller takes its key lock in, or releases it in. -/
def lockLabel : Caller → SectionLabel
  | .handler k => .lock k
  | .expiry => .lockKey

def unlockLabel : Caller → SectionLabel
  | .handler k => .answer k
  | .expiry => .unlockKey

end Interleaved

namespace Keyed

def initial (slotNumber : Int) : Keyed := ⟨.initial slotNumber, .initial, fun _ => none, false⟩

def findMutex (s : Keyed) (caller : Caller) : Option Keyed :=
  match s.keyMutex caller, s.base.locking caller with
  | none, some key =>
      let found := s.keyLock.find key
      some { s with
        keyLock := found.1
        keyMutex := Function.update s.keyMutex caller (some found.2) }
  | _, _ => none

/-- The caller waits for its mutex until nobody owns it. -/
def lockMutex (s : Keyed) (caller : Caller) : Option Keyed :=
  match s.keyMutex caller, s.base.locking caller with
  | some none, some _ => some { s with broken := true }
  | some (some keyMutex), some _ =>
      if s.keyLock.owners keyMutex = none then
        (s.base.entered caller).map fun base =>
          ⟨base, s.keyLock.setOwner keyMutex (some caller), Function.update s.keyMutex caller none, s.broken⟩
      else none
  | _, _ => none

def subscript (s : Keyed) (caller : Caller) : Option Keyed :=
  match s.keyMutex caller, s.base.unlocking caller with
  | none, some key =>
      let found := s.keyLock.subscript key
      some { s with
        keyLock := found.1
        keyMutex := Function.update s.keyMutex caller (some found.2) }
  | _, _ => none

def unlockMutex (s : Keyed) (caller : Caller) : Option Keyed :=
  match s.keyMutex caller, s.base.unlocking caller with
  | some none, some _ => some { s with broken := true }
  | some (some keyMutex), some _ =>
      if s.keyLock.owners keyMutex = some caller then
        (s.base.left caller).map fun base =>
          ⟨base, s.keyLock.setOwner keyMutex none, Function.update s.keyMutex caller none, s.broken⟩
      else some { s with broken := true }
  | _, _ => none

def step (s : Keyed) : KeyedLabel → Option Keyed
  | .run label => if label.plain then (s.base.step label).map fun base => { s with base } else none
  | .findMutex caller => s.findMutex caller
  | .lockMutex caller => s.lockMutex caller
  | .subscript caller => s.subscript caller
  | .unlockMutex caller => s.unlockMutex caller

/-- The section of the server that a step of the calls completes. -/
def shownSection : KeyedLabel → Option SectionLabel
  | .run label => some label
  | .lockMutex caller => some (Interleaved.lockLabel caller)
  | .unlockMutex caller => some (Interleaved.unlockLabel caller)
  | .findMutex _ | .subscript _ => none

end Keyed

namespace Interleaved

variable {s next : Interleaved}

theorem holding_eq_some {thread : LockThread} {key : String} :
    thread.holding = some key ↔ thread.stage.holds = true ∧ thread.path = key := by
  unfold LockThread.holding
  rw [Option.ite_none_right_eq_some, Option.some.injEq]

theorem expiryHolds_eq (s : Interleaved) (key : String) :
    s.expiryHolds key = decide (s.holding .expiry = some key) := by
  unfold expiryHolds holding KeyStage.holding
  cases s.keyStage <;> simp

theorem keyFree_iff {key : String} : s.keyFree key = true ↔ ∀ caller, s.holding caller ≠ some key := by
  unfold keyFree
  rw [Bool.and_eq_true, List.all_eq_true, Bool.not_eq_true', expiryHolds_eq, decide_eq_false_iff_not]
  constructor
  · rintro ⟨threads, expiry⟩ caller holds
    cases caller with
    | handler k =>
        obtain ⟨thread, there, holds⟩ := Option.bind_eq_some_iff.mp holds
        obtain ⟨held, same⟩ := holding_eq_some.mp holds
        have free := threads thread (List.mem_of_getElem? there)
        simp [held, same] at free
    | expiry => exact expiry holds
  · intro free
    refine ⟨fun thread member => ?_, free .expiry⟩
    obtain ⟨k, there⟩ := List.mem_iff_getElem?.mp member
    by_contra held
    refine free (.handler k) (Option.bind_eq_some_iff.mpr ⟨thread, there, holding_eq_some.mpr ?_⟩)
    simpa [and_comm] using held

/-- A handler with its key lock that has not settled its answer. -/
def Busy (stage : ThreadStage) : Prop :=
  stage.holds = true ∧ ∀ success message, stage ≠ .settled success message

/-- A section that neither takes nor releases a key lock moves a handler that has one, or brings a new
handler, or moves the expiry thread from key to key. -/
theorem plain_cases {label : SectionLabel} (plain : label.plain = true) (taken : s.step label = some next) :
    (next.threads = s.threads ∨ (∃ thread : LockThread, thread.stage = .waiting ∧
        next.threads = s.threads ++ [thread]) ∨
      ∃ (k : Nat) (thread : LockThread) (stage : ThreadStage), s.threads[k]? = some thread ∧
        Busy thread.stage ∧ stage.holds = true ∧
        next.threads = s.threads.set k { thread with stage }) ∧
    ((next.keyStage = s.keyStage ∧ next.lockedKeys = s.lockedKeys) ∨
      (s.keyStage = .resting ∧ next.keyStage = .resting ∧ s.lockedKeys = []) ∨
      (s.keyStage = .locked ∧ (∃ locked, next.keyStage = .found locked) ∧ next.lockedKeys = s.lockedKeys) ∨
      ∃ (locked : Bool) (key : String) (rest : List String), s.keyStage = .found locked ∧
        s.lockedKeys = key :: rest ∧ next.keyStage = .freed key) := by
  cases label with
  | lock _ | answer _ | lockKey | unlockKey => cases plain
  | keepAlive client deadline now =>
      obtain ⟨_, same⟩ := Option.ite_none_right_eq_some.mp taken
      cases same
      exact ⟨.inl rfl, .inl ⟨rfl, rfl⟩⟩
  | acquireLock client path mode =>
      cases taken
      exact ⟨.inr (.inl ⟨_, rfl, rfl⟩), .inl ⟨rfl, rfl⟩⟩
  | releaseLock client path =>
      cases taken
      exact ⟨.inr (.inl ⟨_, rfl, rfl⟩), .inl ⟨rfl, rfl⟩⟩
  | checkSession k =>
      simp only [step, checkSession] at taken
      split at taken
      · cases taken
      next thread there =>
        split at taken
        next locked =>
          cases taken
          refine ⟨.inr (.inr ⟨k, thread, _, there, ?_, ?_, rfl⟩), .inl ⟨rfl, rfl⟩⟩
          · rw [locked]
            exact ⟨rfl, nofun⟩
          · split <;> rfl
        · cases taken
  | readValue k =>
      simp only [step, readValue] at taken
      split at taken
      · cases taken
      next thread there =>
        obtain ⟨reads, same⟩ := Option.ite_none_right_eq_some.mp taken
        cases same
        refine ⟨.inr (.inr ⟨k, thread, _, there, ?_, ?_, rfl⟩), .inl ⟨rfl, rfl⟩⟩
        · unfold Reads at reads
          split at reads
          all_goals
            rw [reads]
            exact ⟨rfl, nofun⟩
        · split <;> rfl
  | put k =>
      simp only [step, put] at taken
      split at taken
      · cases taken
      next thread there =>
        obtain ⟨decided, moved⟩ := Option.ite_none_right_eq_some.mp taken
        obtain ⟨chubby, _, rfl⟩ := Option.map_eq_some_iff.mp moved
        refine ⟨.inr (.inr ⟨k, thread, .stored, there, ?_, rfl, rfl⟩), .inl ⟨rfl, rfl⟩⟩
        rw [decided]
        exact ⟨rfl, nofun⟩
  | record k =>
      simp only [step, record] at taken
      split at taken
      · cases taken
      next thread there =>
        obtain ⟨ready, same⟩ := Option.ite_none_right_eq_some.mp taken
        cases same
        refine ⟨.inr (.inr ⟨k, thread, _, there, ?_, rfl, rfl⟩), .inl ⟨rfl, rfl⟩⟩
        obtain stage | stage := ready
        all_goals
          rw [stage]
          exact ⟨rfl, nofun⟩
  | collect now order =>
      obtain ⟨⟨_, empty, resting, _⟩, same⟩ := Option.ite_none_right_eq_some.mp taken
      cases same
      exact ⟨.inl rfl, .inr (.inl ⟨resting, resting, empty⟩)⟩
  | lookUp =>
      simp only [step, lookUp] at taken
      split at taken
      next resting empty _ =>
        cases taken
        exact ⟨.inl rfl, .inr (.inl ⟨resting, resting, empty⟩)⟩
      · cases taken
  | readKey =>
      simp only [step, readKey] at taken
      split at taken
      next locked _ =>
        cases taken
        exact ⟨.inl rfl, .inr (.inr (.inl ⟨locked, ⟨_, rfl⟩, rfl⟩))⟩
      · cases taken
  | freeKey now =>
      simp only [step, freeKey] at taken
      split at taken
      next found keys =>
        obtain ⟨_, moved⟩ := Option.ite_none_right_eq_some.mp taken
        obtain ⟨chubby, _, rfl⟩ := Option.map_eq_some_iff.mp moved
        exact ⟨.inl rfl, .inr (.inr (.inr ⟨_, _, _, found, keys, rfl⟩))⟩
      · cases taken

section Plain

variable {label : SectionLabel} (plain : label.plain = true) (taken : s.step label = some next)
include plain taken

/-- No other section than those of the locks changes who has which key. -/
theorem holding_plain (caller : Caller) : next.holding caller = s.holding caller := by
  obtain ⟨threads, expiry⟩ := plain_cases plain taken
  cases caller with
  | handler j =>
      obtain same | ⟨thread, waits, added⟩ | ⟨k, thread, stage, there, busy, holds, moved⟩ := threads
      · exact congrArg (·[j]?.bind _) same
      · refine (congrArg (·[j]?.bind _) added).trans (bind_place_concat ?_ j)
        unfold LockThread.holding
        rw [waits]
        rfl
      · refine (congrArg (·[j]?.bind _) moved).trans (bind_place_set there ?_ j)
        unfold LockThread.holding
        rw [holds, busy.1]
  | expiry =>
      show next.keyStage.holding next.lockedKeys = s.keyStage.holding s.lockedKeys
      obtain ⟨stage, keys⟩ | ⟨before, after, _⟩ | ⟨before, ⟨_, after⟩, keys⟩ | ⟨_, key, _, before, keys, after⟩ :=
        expiry
      · rw [stage, keys]
      · rw [before, after]
        rfl
      · rw [before, after, keys]
        rfl
      · rw [before, after, keys]
        rfl

/-- A caller stays at its key until it takes the lock or releases it. -/
theorem locking_plain {caller : Caller} {key : String} (locks : s.locking caller = some key) :
    next.locking caller = some key := by
  obtain ⟨threads, expiry⟩ := plain_cases plain taken
  cases caller with
  | handler j =>
      obtain same | ⟨thread, waits, added⟩ | ⟨k, thread, stage, there, busy, holds, moved⟩ := threads
      · exact (congrArg (·[j]?.bind _) same).trans locks
      · exact (congrArg (·[j]?.bind _) added).trans (bind_some_concat locks)
      · refine (congrArg (·[j]?.bind _) moved).trans (bind_some_set there ?_ locks)
        refine if_neg fun waits => ?_
        have held := busy.1
        rw [waits] at held
        cases held
  | expiry =>
      have locks : s.keyStage.locking s.lockedKeys = some key := locks
      show next.keyStage.locking next.lockedKeys = some key
      obtain ⟨stage, keys⟩ | ⟨before, _, empty⟩ | ⟨before, _⟩ | ⟨_, _, _, before, _⟩ := expiry
      · rw [stage, keys]
        exact locks
      · rw [before, empty] at locks
        cases locks
      · rw [before] at locks
        cases locks
      · rw [before] at locks
        cases locks

theorem unlocking_plain {caller : Caller} {key : String} (unlocks : s.unlocking caller = some key) :
    next.unlocking caller = some key := by
  obtain ⟨threads, expiry⟩ := plain_cases plain taken
  cases caller with
  | handler j =>
      obtain same | ⟨thread, waits, added⟩ | ⟨k, thread, stage, there, busy, holds, moved⟩ := threads
      · exact (congrArg (·[j]?.bind _) same).trans unlocks
      · exact (congrArg (·[j]?.bind _) added).trans (bind_some_concat unlocks)
      · refine (congrArg (·[j]?.bind _) moved).trans (bind_some_set there ?_ unlocks)
        unfold LockThread.unlocking
        split
        next settled => exact absurd settled (busy.2 _ _)
        all_goals rfl
  | expiry =>
      have unlocks : s.keyStage.unlocking = some key := unlocks
      show next.keyStage.unlocking = some key
      obtain ⟨stage, _⟩ | ⟨before, _⟩ | ⟨before, _⟩ | ⟨_, _, _, before, _⟩ := expiry
      · rw [stage]
        exact unlocks
      all_goals
        rw [before] at unlocks
        cases unlocks

end Plain

/-- What a caller does to the others when it takes its lock or releases it: nothing. -/
def OthersStay (s next : Interleaved) (caller : Caller) : Prop :=
  ∀ other, other ≠ caller → next.holding other = s.holding other ∧ next.locking other = s.locking other ∧
    next.unlocking other = s.unlocking other

theorem othersStay_setStage {k : Nat} {thread : LockThread} {stage : ThreadStage} {chubby : ChubbyImpl Database} :
    OthersStay s ({ s with chubby }.setStage k thread stage) (.handler k) := by
  rintro (j | _) different
  · have away : j ≠ k := fun same => different (congrArg Caller.handler same)
    have place : (s.threads.set k { thread with stage })[j]? = s.threads[j]? := place_set_other away
    exact ⟨congrArg (Option.bind · _) place, congrArg (Option.bind · _) place, congrArg (Option.bind · _) place⟩
  · exact ⟨rfl, rfl, rfl⟩

theorem othersStay_keyStage {keyStage : KeyStage} : OthersStay s { s with keyStage } .expiry := by
  rintro (j | _) different
  · exact ⟨rfl, rfl, rfl⟩
  · exact absurd rfl different

/-- A caller that is about to lock a key takes the lock in its next section, when the key is free. -/
theorem entered_spec {caller : Caller} {key : String} (locks : s.locking caller = some key) :
    s.unlocking caller = none ∧ s.holding caller = none ∧ ∃ base, s.entered caller = some base ∧
      base.holding caller = some key ∧
      OthersStay s base caller ∧ s.step (lockLabel caller) = if s.keyFree key then some base else none := by
  cases caller with
  | handler k =>
      obtain ⟨thread, there, locks⟩ := Option.bind_eq_some_iff.mp locks
      obtain ⟨waits, same⟩ := Option.ite_none_right_eq_some.mp locks
      cases same
      refine ⟨?_, ?_, s.enter k thread, congrArg (Option.map _) there, ?_, othersStay_setStage, ?_⟩
      · refine (congrArg (Option.bind · _) there).trans ?_
        show thread.unlocking = none
        unfold LockThread.unlocking
        rw [waits]
      · refine (congrArg (Option.bind · _) there).trans ?_
        show thread.holding = none
        unfold LockThread.holding
        rw [waits]
        rfl
      · exact congrArg (Option.bind · _) (place_set_self there)
      · simp only [lockLabel, step, lock, there, waits, true_and]
  | expiry =>
      have locks : s.keyStage.locking s.lockedKeys = some key := locks
      unfold KeyStage.locking at locks
      split at locks
      next resting =>
        obtain ⟨rest, keys⟩ := List.head?_eq_some_iff.mp locks
        refine ⟨congrArg KeyStage.unlocking resting, congrArg (KeyStage.holding · s.lockedKeys) resting, _, rfl,
          locks, othersStay_keyStage, ?_⟩
        simp only [lockLabel, step, lockKey, resting, keys]
      all_goals cases locks

/-- A caller that is about to unlock a key has it until its next section. -/
theorem left_spec {caller : Caller} {key : String} (unlocks : s.unlocking caller = some key) :
    s.holding caller = some key ∧ s.locking caller = none ∧ ∃ base, s.left caller = some base ∧
      base.holding caller = none ∧ OthersStay s base caller ∧ s.step (unlockLabel caller) = some base := by
  cases caller with
  | handler k =>
      obtain ⟨thread, there, unlocks⟩ := Option.bind_eq_some_iff.mp unlocks
      unfold LockThread.unlocking at unlocks
      split at unlocks
      next success message settled =>
        cases unlocks
        have left : s.left (.handler k) =
            some (s.setStage k thread (.answered ⟨success, message, s.chubby.currentLeader⟩)) := by
          simp only [left, answer, there, settled]
        refine ⟨?_, ?_, _, left, ?_, othersStay_setStage, left⟩
        · refine Option.bind_eq_some_iff.mpr ⟨thread, there, holding_eq_some.mpr ⟨?_, rfl⟩⟩
          rw [settled]
          rfl
        · refine (congrArg (Option.bind · _) there).trans (if_neg ?_)
          rw [settled]
          nofun
        · exact congrArg (Option.bind · _) (place_set_self there)
      all_goals cases unlocks
  | expiry =>
      have unlocks : s.keyStage.unlocking = some key := unlocks
      unfold KeyStage.unlocking at unlocks
      split at unlocks
      next freed =>
        cases unlocks
        have left : s.left .expiry = some { s with keyStage := .resting } := by
          simp only [left, unlockKey, freed]
        refine ⟨?_, ?_, _, left, rfl, othersStay_keyStage, left⟩
        · exact congrArg (KeyStage.holding · s.lockedKeys) freed
        · exact congrArg (KeyStage.locking · s.lockedKeys) freed
      all_goals cases unlocks

end Interleaved

namespace Keyed

/-- Every key has a mutex of its own, which is owned by the caller that has the lock of the key. -/
structure Fitted (s : Keyed) : Prop where
  whole : s.broken = false
  pointers : ∀ {key : String} {keyMutex : Option Nat}, s.keyLock.lockMap key = some keyMutex →
    ∃ id < s.keyLock.made, keyMutex = some id
  injective : ∀ {first second : String} {id : Nat}, s.keyLock.lockMap first = some (some id) →
    s.keyLock.lockMap second = some (some id) → first = second
  owned : ∀ {id : Nat} {caller : Caller}, s.keyLock.owners id = some caller ↔
    ∃ key, s.keyLock.lockMap key = some (some id) ∧ s.base.holding caller = some key
  known : ∀ {caller : Caller} {key : String}, s.base.holding caller = some key →
    ∃ id, s.keyLock.lockMap key = some (some id)
  called : ∀ {caller : Caller} {keyMutex : Option Nat}, s.keyMutex caller = some keyMutex →
    ∃ key, (s.base.locking caller = some key ∨ s.base.unlocking caller = some key) ∧
      s.keyLock.lockMap key = some keyMutex

theorem fitted_initial (slotNumber : Int) : Fitted (initial slotNumber) where
  whole := rfl
  pointers := nofun
  injective := nofun
  owned := by
    intro id caller
    refine iff_of_false nofun ?_
    rintro ⟨_, made, _⟩
    cases made
  known := by
    intro caller key holds
    cases caller <;> cases holds
  called := nofun

section Steps

variable {s next : Keyed} {caller : Caller} {key : String}

/-- The key of a free mutex is free, and the other way round. -/
theorem Fitted.free_iff (fitted : s.Fitted) {id : Nat} (mapped : s.keyLock.lockMap key = some (some id)) :
    s.keyLock.owners id = none ↔ s.base.keyFree key = true := by
  rw [Interleaved.keyFree_iff, Option.eq_none_iff_forall_ne_some]
  refine forall_congr' fun caller => not_congr (fitted.owned.trans ⟨?_, fun holds => ⟨key, mapped, holds⟩⟩)
  rintro ⟨other, same, holds⟩
  rwa [fitted.injective mapped same]

theorem Fitted.plain {label : SectionLabel} {base : Interleaved} (fitted : s.Fitted)
    (plain : label.plain = true) (taken : s.base.step label = some base) : Fitted { s with base } where
  whole := fitted.whole
  pointers := fitted.pointers
  injective := fitted.injective
  owned := by
    intro id caller
    rw [Interleaved.holding_plain plain taken]
    exact fitted.owned
  known := by
    intro caller key holds
    rw [Interleaved.holding_plain plain taken] at holds
    exact fitted.known holds
  called := by
    intro caller keyMutex calls
    obtain ⟨key, here, mapped⟩ := fitted.called calls
    refine ⟨key, here.imp ?_ ?_, mapped⟩
    · exact Interleaved.locking_plain plain taken
    · exact Interleaved.unlocking_plain plain taken

/-- The table of the mutexes may gain a key that nobody has, with a mutex that nobody has locked. -/
theorem Fitted.makes (fitted : s.Fitted) (fresh : s.keyLock.lockMap key = none) :
    Fitted { s with keyLock := { s.keyLock with
      lockMap := Function.update s.keyLock.lockMap key (some (some s.keyLock.made))
      made := s.keyLock.made + 1 } } := by
  have old {other : String} {keyMutex : Option Nat} (mapped : s.keyLock.lockMap other = some keyMutex) :
      Function.update s.keyLock.lockMap key (some (some s.keyLock.made)) other = some keyMutex := by
    rw [Function.update_of_ne, mapped]
    rintro rfl
    cases fresh.symm.trans mapped
  have back {other : String} {keyMutex : Option Nat}
      (mapped : Function.update s.keyLock.lockMap key (some (some s.keyLock.made)) other = some keyMutex) :
      (other = key ∧ keyMutex = some s.keyLock.made) ∨ s.keyLock.lockMap other = some keyMutex := by
    by_cases same : other = key
    · rw [same, Function.update_self] at mapped
      cases mapped
      exact .inl ⟨same, rfl⟩
    · rw [Function.update_of_ne same] at mapped
      exact .inr mapped
  have below {other : String} {id : Nat} (mapped : s.keyLock.lockMap other = some (some id)) :
      id < s.keyLock.made := by
    obtain ⟨_, below, same⟩ := fitted.pointers mapped
    cases same
    exact below
  refine ⟨fitted.whole, ?_, ?_, ?_, ?_, ?_⟩
  · intro other keyMutex mapped
    obtain ⟨_, rfl⟩ | mapped := back mapped
    · exact ⟨_, Nat.lt_succ_self _, rfl⟩
    · obtain ⟨id, below, same⟩ := fitted.pointers mapped
      exact ⟨id, Nat.lt_succ_of_lt below, same⟩
  · intro first second id one two
    obtain ⟨rfl, new⟩ | early := back one
    · obtain ⟨rfl, _⟩ | late := back two
      · rfl
      · cases new
        exact absurd (below late) (Nat.lt_irrefl _)
    · obtain ⟨rfl, new⟩ | late := back two
      · cases new
        exact absurd (below early) (Nat.lt_irrefl _)
      · exact fitted.injective early late
  · intro id caller
    refine fitted.owned.trans ⟨fun ⟨other, mapped, holds⟩ => ⟨other, old mapped, holds⟩, ?_⟩
    rintro ⟨other, mapped, holds⟩
    obtain ⟨rfl, _⟩ | mapped := back mapped
    · obtain ⟨_, known⟩ := fitted.known holds
      cases fresh.symm.trans known
    · exact ⟨other, mapped, holds⟩
  · intro caller other holds
    obtain ⟨id, known⟩ := fitted.known holds
    exact ⟨id, old known⟩
  · intro caller keyMutex calls
    obtain ⟨other, here, mapped⟩ := fitted.called calls
    exact ⟨other, here, old mapped⟩

/-- A caller may look up the mutex of the key at which it is. -/
theorem Fitted.calls (fitted : s.Fitted) {keyMutex : Option Nat}
    (here : s.base.locking caller = some key ∨ s.base.unlocking caller = some key)
    (mapped : s.keyLock.lockMap key = some keyMutex) :
    Fitted { s with keyMutex := Function.update s.keyMutex caller (some keyMutex) } := by
  refine ⟨fitted.whole, fitted.pointers, fitted.injective, fitted.owned, fitted.known, ?_⟩
  intro other found calls
  by_cases same : other = caller
  · subst same
    have calls : Function.update s.keyMutex other (some keyMutex) other = some found := calls
    rw [Function.update_self] at calls
    cases calls
    exact ⟨key, here, mapped⟩
  · have calls : Function.update s.keyMutex caller (some keyMutex) other = some found := calls
    rw [Function.update_of_ne same] at calls
    exact fitted.called calls

theorem Fitted.findMutex (fitted : s.Fitted) (taken : s.findMutex caller = some next) :
    next.Fitted ∧ next.base = s.base := by
  unfold Keyed.findMutex at taken
  split at taken
  next key _ locks =>
    cases taken
    unfold KeyLock.find
    split
    next fresh => exact ⟨(fitted.makes fresh).calls (.inl locks) (Function.update_self ..), rfl⟩
    next keyMutex mapped => exact ⟨fitted.calls (.inl locks) mapped, rfl⟩
  · cases taken

theorem Fitted.subscript (fitted : s.Fitted) (taken : s.subscript caller = some next) :
    next.Fitted ∧ next.base = s.base := by
  unfold Keyed.subscript at taken
  split at taken
  next key _ unlocks =>
    cases taken
    obtain ⟨id, mapped⟩ := fitted.known (Interleaved.left_spec unlocks).1
    unfold KeyLock.subscript
    rw [mapped]
    exact ⟨fitted.calls (.inr unlocks) mapped, rfl⟩
  · cases taken

/-- The mutex of a call in progress is that of the key at which the caller is. -/
theorem Fitted.mutex_of_call (fitted : s.Fitted) {keyMutex : Option Nat}
    (calls : s.keyMutex caller = some keyMutex)
    (here : s.base.locking caller = some key ∨ s.base.unlocking caller = some key) :
    ∃ id, keyMutex = some id ∧ s.keyLock.lockMap key = some (some id) := by
  obtain ⟨other, there, mapped⟩ := fitted.called calls
  have same : other = key := by
    obtain here | here := here <;> obtain there | there := there
    · exact Option.some.inj (there.symm.trans here)
    · cases there.symm.trans (Interleaved.entered_spec here).1
    · cases there.symm.trans (Interleaved.left_spec here).2.1
    · exact Option.some.inj (there.symm.trans here)
  subst same
  obtain ⟨id, _, rfl⟩ := fitted.pointers mapped
  exact ⟨id, rfl, mapped⟩

/-- The caller changes the owner of the mutex of its key as it takes the lock or releases it. -/
theorem Fitted.moves (fitted : s.Fitted) {base : Interleaved} {id : Nat} {owner : Option Caller}
    (mapped : s.keyLock.lockMap key = some (some id)) (others : Interleaved.OthersStay s.base base caller)
    (alone : ∀ other, other ≠ caller → s.base.holding other ≠ some key)
    (before : ∀ other, s.base.holding caller = some other → other = key)
    (after : (owner = some caller ∧ base.holding caller = some key) ∨
      (owner = none ∧ base.holding caller = none)) :
    Fitted ⟨base, s.keyLock.setOwner id owner, Function.update s.keyMutex caller none, s.broken⟩ := by
  refine ⟨fitted.whole, fitted.pointers, fitted.injective, ?_, ?_, ?_⟩
  · intro other reader
    show Function.update s.keyLock.owners id owner other = some reader ↔
      ∃ query, s.keyLock.lockMap query = some (some other) ∧ base.holding reader = some query
    by_cases same : other = id
    · subst same
      rw [Function.update_self]
      constructor
      · rintro rfl
        obtain ⟨own, holds⟩ | ⟨none_, _⟩ := after
        · cases own
          exact ⟨key, mapped, holds⟩
        · cases none_
      · rintro ⟨query, there, holds⟩
        cases fitted.injective mapped there
        by_cases here : reader = caller
        · subst here
          obtain ⟨own, _⟩ | ⟨_, none_⟩ := after
          · exact own
          · cases holds.symm.trans none_
        · rw [(others reader here).1] at holds
          exact absurd holds (alone reader here)
    · rw [Function.update_of_ne same]
      refine fitted.owned.trans (exists_congr fun query => and_congr_right fun there => ?_)
      have away : query ≠ key := by
        rintro rfl
        cases mapped.symm.trans there
        exact same rfl
      by_cases here : reader = caller
      · subst here
        refine iff_of_false (fun holds => away (before query holds)) fun holds => ?_
        obtain ⟨_, own⟩ | ⟨_, none_⟩ := after
        · cases holds.symm.trans own
          exact away rfl
        · cases holds.symm.trans none_
      · rw [(others reader here).1]
  · intro reader query holds
    by_cases here : reader = caller
    · subst here
      obtain ⟨_, own⟩ | ⟨_, none_⟩ := after
      · cases holds.symm.trans own
        exact ⟨id, mapped⟩
      · cases holds.symm.trans none_
    · rw [show base.holding reader = _ from (others reader here).1] at holds
      exact fitted.known holds
  · intro reader keyMutex calls
    have calls : Function.update s.keyMutex caller none reader = some keyMutex := calls
    by_cases here : reader = caller
    · rw [here, Function.update_self] at calls
      cases calls
    · rw [Function.update_of_ne here] at calls
      obtain ⟨query, there, found⟩ := fitted.called calls
      refine ⟨query, ?_, found⟩
      show base.locking reader = _ ∨ base.unlocking reader = _
      rw [(others reader here).2.1, (others reader here).2.2]
      exact there

/-- A caller gets the mutex of its key exactly when the key is free, and takes its lock with it. -/
theorem Fitted.lockMutex (fitted : s.Fitted) (taken : s.lockMutex caller = some next) :
    next.Fitted ∧ s.base.step (Interleaved.lockLabel caller) = some next.base ∧
      next.keyMutex = Function.update s.keyMutex caller none := by
  unfold Keyed.lockMutex at taken
  split at taken
  next calls locks =>
    obtain ⟨_, null, _⟩ := fitted.mutex_of_call calls (.inl locks)
    cases null
  next keyMutex key calls locks =>
    obtain ⟨id, same, mapped⟩ := fitted.mutex_of_call calls (.inl locks)
    cases same
    obtain ⟨free, moved⟩ := Option.ite_none_right_eq_some.mp taken
    obtain ⟨_, nothing, base, entered, holds, others, steps⟩ := Interleaved.entered_spec locks
    rw [entered] at moved
    cases moved
    have free_ := (fitted.free_iff mapped).mp free
    rw [if_pos free_] at steps
    rw [Interleaved.keyFree_iff] at free_
    refine ⟨fitted.moves mapped others (fun other _ => free_ other) (fun other held => ?_) (.inl ⟨rfl, holds⟩),
      steps, rfl⟩
    cases nothing.symm.trans held
  · cases taken

/-- A caller releases the mutex that it owns, and its lock with it. -/
theorem Fitted.unlockMutex (fitted : s.Fitted) (taken : s.unlockMutex caller = some next) :
    next.Fitted ∧ s.base.step (Interleaved.unlockLabel caller) = some next.base := by
  unfold Keyed.unlockMutex at taken
  split at taken
  next calls unlocks =>
    obtain ⟨_, null, _⟩ := fitted.mutex_of_call calls (.inr unlocks)
    cases null
  next keyMutex key calls unlocks =>
    obtain ⟨id, same, mapped⟩ := fitted.mutex_of_call calls (.inr unlocks)
    cases same
    obtain ⟨holds, _, base, left, none_, others, steps⟩ := Interleaved.left_spec unlocks
    have own : s.keyLock.owners keyMutex = some caller := fitted.owned.mpr ⟨key, mapped, holds⟩
    rw [if_pos own, left] at taken
    cases taken
    refine ⟨fitted.moves mapped others (fun other different held => different ?_) (fun other held => ?_)
      (.inr ⟨rfl, none_⟩), steps⟩
    · exact Option.some.inj ((fitted.owned.mpr ⟨key, mapped, held⟩).symm.trans own)
    · exact Option.some.inj (held.symm.trans holds)
  · cases taken

theorem Fitted.step {label : KeyedLabel} (fitted : s.Fitted) (taken : s.step label = some next) :
    Shows Interleaved.step shownSection base s label next ∧ next.Fitted := by
  cases label with
  | run label =>
      obtain ⟨plain, moved⟩ := Option.ite_none_right_eq_some.mp taken
      obtain ⟨base, stepped, rfl⟩ := Option.map_eq_some_iff.mp moved
      exact ⟨stepped, fitted.plain plain stepped⟩
  | findMutex caller => exact (fitted.findMutex taken).symm
  | lockMutex caller =>
      obtain ⟨fits, steps, _⟩ := fitted.lockMutex taken
      exact ⟨steps, fits⟩
  | subscript caller => exact (fitted.subscript taken).symm
  | unlockMutex caller => exact (fitted.unlockMutex taken).symm

/-- A caller that waits for the mutex of its key goes on exactly when the key is free. -/
theorem Fitted.lockMutex_iff (fitted : s.Fitted) {keyMutex : Option Nat}
    (calls : s.keyMutex caller = some keyMutex) (locks : s.base.locking caller = some key) :
    (∃ next, s.lockMutex caller = some next) ↔ s.base.keyFree key = true := by
  obtain ⟨id, rfl, mapped⟩ := fitted.mutex_of_call calls (.inl locks)
  obtain ⟨_, _, base, entered, _⟩ := Interleaved.entered_spec locks
  rw [← fitted.free_iff mapped]
  unfold Keyed.lockMutex
  rw [calls, locks]
  dsimp only
  by_cases free : s.keyLock.owners id = none
  · rw [if_pos free, entered]
    exact iff_of_true ⟨_, rfl⟩ free
  · rw [if_neg free]
    exact iff_of_false nofun free

theorem Fitted.unlockMutex_enabled (fitted : s.Fitted) {keyMutex : Option Nat}
    (calls : s.keyMutex caller = some keyMutex) (unlocks : s.base.unlocking caller = some key) :
    ∃ next, s.unlockMutex caller = some next ∧ next.keyMutex = Function.update s.keyMutex caller none := by
  obtain ⟨id, rfl, mapped⟩ := fitted.mutex_of_call calls (.inr unlocks)
  obtain ⟨holds, _, base, left, _⟩ := Interleaved.left_spec unlocks
  have own : s.keyLock.owners id = some caller := fitted.owned.mpr ⟨key, mapped, holds⟩
  unfold Keyed.unlockMutex
  rw [calls, unlocks]
  dsimp only
  rw [if_pos own, left]
  exact ⟨_, rfl, rfl⟩

/-- No caller is between the two sections of a call. -/
def Idle (s : Keyed) : Prop := ∀ caller, s.keyMutex caller = none

theorem Idle.again (idle : s.Idle) {keyMutex : Option Nat} {calls : Caller → Option (Option Nat)}
    (called : calls = Function.update s.keyMutex caller (some keyMutex))
    (ended : next.keyMutex = Function.update calls caller none) : next.Idle := by
  intro other
  rw [ended, called, Function.update_idem]
  by_cases here : other = caller
  · rw [here, Function.update_self]
  · rw [Function.update_of_ne here]
    exact idle other

/-- A caller takes a free key, and releases its own, with the two sections of a call. -/
theorem Fitted.lift_lock (fitted : s.Fitted) (idle : s.Idle) {after : Interleaved}
    (locks : s.base.locking caller = some key) (free : s.base.keyFree key = true)
    (steps : s.base.step (Interleaved.lockLabel caller) = some after) :
    ∃ final, run Keyed.step s [.findMutex caller, .lockMutex caller] = some final ∧ final.base = after ∧
      final.Fitted ∧ final.Idle := by
  have found : s.findMutex caller = some { s with
      keyLock := (s.keyLock.find key).1
      keyMutex := Function.update s.keyMutex caller (some (s.keyLock.find key).2) } := by
    unfold Keyed.findMutex
    rw [idle caller, locks]
  have fitted' := (fitted.findMutex found).1
  obtain ⟨final, locked⟩ := (fitted'.lockMutex_iff (Function.update_self ..) locks).mpr free
  obtain ⟨fits, same, ended⟩ := fitted'.lockMutex locked
  exact ⟨final, run_cons_eq_some.mpr ⟨_, found, run_cons_eq_some.mpr ⟨_, locked, rfl⟩⟩,
    Option.some.inj (same.symm.trans steps), fits, idle.again rfl ended⟩

theorem Fitted.lift_unlock (fitted : s.Fitted) (idle : s.Idle) {after : Interleaved}
    (unlocks : s.base.unlocking caller = some key)
    (steps : s.base.step (Interleaved.unlockLabel caller) = some after) :
    ∃ final, run Keyed.step s [.subscript caller, .unlockMutex caller] = some final ∧ final.base = after ∧
      final.Fitted ∧ final.Idle := by
  have found : s.subscript caller = some { s with
      keyLock := (s.keyLock.subscript key).1
      keyMutex := Function.update s.keyMutex caller (some (s.keyLock.subscript key).2) } := by
    unfold Keyed.subscript
    rw [idle caller, unlocks]
  have fitted' := (fitted.subscript found).1
  obtain ⟨final, unlocked, ended⟩ := fitted'.unlockMutex_enabled (Function.update_self ..) unlocks
  obtain ⟨fits, same⟩ := fitted'.unlockMutex unlocked
  exact ⟨final, run_cons_eq_some.mpr ⟨_, found, run_cons_eq_some.mpr ⟨_, unlocked, rfl⟩⟩,
    Option.some.inj (same.symm.trans steps), fits, idle.again rfl ended⟩

end Steps

end Keyed

namespace Interleaved

variable {s after : Interleaved}

theorem locking_of_lock {k : Nat} (taken : s.step (.lock k) = some after) :
    ∃ key, s.locking (.handler k) = some key ∧ s.keyFree key = true := by
  simp only [step, lock] at taken
  split at taken
  · cases taken
  next thread there =>
    obtain ⟨⟨waits, free⟩, _⟩ := Option.ite_none_right_eq_some.mp taken
    exact ⟨thread.path, Option.bind_eq_some_iff.mpr ⟨thread, there, if_pos waits⟩, free⟩

theorem locking_of_lockKey (taken : s.step .lockKey = some after) :
    ∃ key, s.locking .expiry = some key ∧ s.keyFree key = true := by
  simp only [step, lockKey] at taken
  split at taken
  next key rest resting keys =>
    obtain ⟨free, _⟩ := Option.ite_none_right_eq_some.mp taken
    refine ⟨key, ?_, free⟩
    show s.keyStage.locking s.lockedKeys = some key
    rw [resting, keys]
    rfl
  · cases taken

theorem unlocking_of_answer {k : Nat} (taken : s.step (.answer k) = some after) :
    ∃ key, s.unlocking (.handler k) = some key := by
  simp only [step, answer] at taken
  split at taken
  · cases taken
  next thread there =>
    split at taken
    next settled =>
      refine ⟨thread.path, Option.bind_eq_some_iff.mpr ⟨thread, there, ?_⟩⟩
      unfold LockThread.unlocking
      rw [settled]
    · cases taken

theorem unlocking_of_unlockKey (taken : s.step .unlockKey = some after) :
    ∃ key, s.unlocking .expiry = some key := by
  simp only [step, unlockKey] at taken
  split at taken
  next key freed => exact ⟨key, congrArg KeyStage.unlocking freed⟩
  · cases taken

end Interleaved

namespace Keyed

/-- Every section of the interleaved server runs as one section or as the two sections of a call. -/
theorem Fitted.lift {s : Keyed} (fitted : s.Fitted) (idle : s.Idle) {label : SectionLabel}
    {after : Interleaved} (taken : s.base.step label = some after) :
    ∃ (labels : List KeyedLabel) (next : Keyed), labels.filterMap shownSection = [label] ∧
      run Keyed.step s labels = some next ∧ next.base = after ∧ next.Fitted ∧ next.Idle := by
  by_cases plain : label.plain = true
  · have steps : s.step (.run label) = some { s with base := after } := by
      simp only [Keyed.step, if_pos plain, taken, Option.map_some]
    exact ⟨[.run label], _, rfl, run_cons_eq_some.mpr ⟨_, steps, rfl⟩, rfl, fitted.plain plain taken, idle⟩
  · cases label with
    | lock k =>
        obtain ⟨key, locks, free⟩ := Interleaved.locking_of_lock taken
        obtain ⟨final, ran, fits⟩ := fitted.lift_lock idle locks free taken
        exact ⟨_, final, rfl, ran, fits⟩
    | lockKey =>
        obtain ⟨key, locks, free⟩ := Interleaved.locking_of_lockKey taken
        obtain ⟨final, ran, fits⟩ := fitted.lift_lock idle locks free taken
        exact ⟨_, final, rfl, ran, fits⟩
    | answer k =>
        obtain ⟨key, unlocks⟩ := Interleaved.unlocking_of_answer taken
        obtain ⟨final, ran, fits⟩ := fitted.lift_unlock idle unlocks taken
        exact ⟨_, final, rfl, ran, fits⟩
    | unlockKey =>
        obtain ⟨key, unlocks⟩ := Interleaved.unlocking_of_unlockKey taken
        obtain ⟨final, ran, fits⟩ := fitted.lift_unlock idle unlocks taken
        exact ⟨_, final, rfl, ran, fits⟩
    | keepAlive _ _ _ | acquireLock _ _ _ | releaseLock _ _ | checkSession _ | readValue _ | put _ | record _
    | collect _ _ | lookUp | readKey | freeKey _ => exact absurd rfl plain

/-- The server with the mutexes of `KeyLock` runs exactly as the server with one lock for each key. No
call of it uses a null pointer or unlocks a mutex of another caller, and a caller that waits for the
mutex of its key goes on exactly when no caller has the key. -/
theorem keyLock_refines (slotNumber : Int) :
    (∀ (labels : List KeyedLabel) (final : Keyed), run step (initial slotNumber) labels = some final →
      run Interleaved.step (.initial slotNumber) (labels.filterMap shownSection) = some final.base ∧
        final.broken = false ∧
        ∀ (caller : Caller) (keyMutex : Option Nat) (key : String), final.keyMutex caller = some keyMutex →
          final.base.locking caller = some key →
            ((∃ next, final.lockMutex caller = some next) ↔
              ∀ other, final.base.holding other ≠ some key)) ∧
      ∀ (labels : List SectionLabel) (after : Interleaved),
        run Interleaved.step (.initial slotNumber) labels = some after →
          ∃ (fine : List KeyedLabel) (final : Keyed), fine.filterMap shownSection = labels ∧
            run step (initial slotNumber) fine = some final ∧ final.base = after := by
  constructor
  · intro labels final ran
    obtain ⟨shown, fitted⟩ := run_shown (fun _ _ _ => Fitted.step) (fitted_initial slotNumber) ran
    refine ⟨shown, fitted.whole, fun caller keyMutex key calls locks => ?_⟩
    rw [← Interleaved.keyFree_iff]
    exact fitted.lockMutex_iff calls locks
  · intro labels after ran
    have start : (initial slotNumber).Fitted ∧ (initial slotNumber).Idle :=
      ⟨fitted_initial slotNumber, fun _ => rfl⟩
    obtain ⟨fine, final, visible, ran, same, _⟩ := exists_run_shown (fun s : Keyed => s.Fitted ∧ s.Idle)
      (fun _ _ _ both taken => both.1.lift both.2 taken) start ran
    exact ⟨fine, final, visible, ran, same⟩

end Keyed

end Chubby.Lock
