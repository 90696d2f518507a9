/-
This file models the thread pool section by section and proves that no task in it is lost or left waiting.
-/

import Chubby.Library.Descent
import Chubby.Library.Places
import Mathlib.Algebra.Ring.Nat

namespace Chubby.Common

open Chubby.Library

/-- A worker that is `ready` has to take the mutex and check the predicate, at first or woken up. -/
inductive Worker (Task : Type) where
  | ready
  | asleep
  | running (task : Task)
  | gone
  deriving DecidableEq, Repr

namespace Worker

variable {Task : Type}

def isReady : Worker Task → Bool
  | .ready => true
  | .asleep | .running _ | .gone => false

def isAsleep : Worker Task → Bool
  | .asleep => true
  | .ready | .running _ | .gone => false

def isGone : Worker Task → Bool
  | .gone => true
  | .ready | .asleep | .running _ => false

/-- The steps that a worker takes before it next looks for a task. -/
def weight : Worker Task → Nat
  | .running _ => 2
  | .ready => 1
  | .asleep | .gone => 0

def current : Worker Task → Option Task
  | .running task => some task
  | .ready | .asleep | .gone => none

end Worker

/-- `notifying` counts the calls of `enqueue` that have left the mutex and not yet notified a worker.
The history variables list the tasks in the order of their arrivals, their starts and their ends. -/
structure ThreadPool (Task : Type) where
  workers : List (Worker Task)
  tasks : List Task
  stop : Bool
  notified : Bool
  notifying : Nat
  enqueued : List Task
  started : List Task
  finished : List Task
  deriving DecidableEq, Repr

/-- Each section under `queue_mutex` is a step. A notification names the worker that it wakes up. -/
inductive PoolLabel (Task : Type) where
  | enqueue (task : Task)
  | notifyOne (worker : Option Nat)
  | wakeUp (worker : Nat)
  | check (worker : Nat)
  | finish (worker : Nat)
  | stop
  | notifyAll
  deriving DecidableEq, Repr

def PoolLabel.arrival {Task : Type} : PoolLabel Task → Option Task
  | .enqueue task => some task
  | .notifyOne _ | .wakeUp _ | .check _ | .finish _ | .stop | .notifyAll => none

namespace ThreadPool

variable {Task : Type}

def initial (numThreads : Nat) : ThreadPool Task where
  workers := .replicate numThreads .ready
  tasks := []
  stop := false
  notified := false
  notifying := 0
  enqueued := []
  started := []
  finished := []

def enqueue (s : ThreadPool Task) (task : Task) : ThreadPool Task :=
  { s with
    tasks := s.tasks ++ [task]
    notifying := s.notifying + 1
    enqueued := s.enqueued ++ [task] }

/-- A notification is lost when no worker sleeps. -/
def notifyOne (s : ThreadPool Task) (worker : Option Nat) : Option (ThreadPool Task) :=
  if 0 < s.notifying then
    match worker with
    | none =>
        if s.workers.any Worker.isAsleep then none else some { s with notifying := s.notifying - 1 }
    | some k =>
        match s.workers[k]? with
        | some .asleep => some { s with
            workers := s.workers.set k .ready
            notifying := s.notifying - 1 }
        | _ => none
  else none

/-- A worker may wake up without a notification. -/
def wakeUp (s : ThreadPool Task) (k : Nat) : Option (ThreadPool Task) :=
  match s.workers[k]? with
  | some .asleep => some { s with workers := s.workers.set k .ready }
  | _ => none

/-- The worker sleeps, leaves or takes the first task. -/
def check (s : ThreadPool Task) (k : Nat) : Option (ThreadPool Task) :=
  match s.workers[k]? with
  | some .ready =>
      match s.tasks with
      | [] => some { s with workers := s.workers.set k (if s.stop then .gone else .asleep) }
      | task :: rest => some { s with
          workers := s.workers.set k (.running task)
          tasks := rest
          started := s.started ++ [task] }
  | _ => none

def finish (s : ThreadPool Task) (k : Nat) : Option (ThreadPool Task) :=
  match s.workers[k]? with
  | some (.running task) => some { s with
      workers := s.workers.set k .ready
      finished := s.finished ++ [task] }
  | _ => none

def notifyAll (s : ThreadPool Task) : Option (ThreadPool Task) :=
  if s.stop && !s.notified then
    some { s with
      workers := s.workers.map fun worker => if worker.isAsleep then .ready else worker
      notified := true }
  else none

/-- The destructor stops the pool once, and joins the workers until they are all gone. -/
def step (s : ThreadPool Task) : PoolLabel Task → Option (ThreadPool Task)
  | .enqueue task => some (s.enqueue task)
  | .notifyOne worker => s.notifyOne worker
  | .wakeUp k => s.wakeUp k
  | .check k => s.check k
  | .finish k => s.finish k
  | .stop => if s.stop then none else some { s with stop := true }
  | .notifyAll => s.notifyAll

def AllGone (s : ThreadPool Task) : Prop := s.workers.all Worker.isGone = true

instance (s : ThreadPool Task) : Decidable s.AllGone := inferInstanceAs (Decidable (_ = true))

/-- What the queue, the workers and the notifications on their way have to do with one another. -/
structure Sound (s : ThreadPool Task) : Prop where
  order : s.started ++ s.tasks = s.enqueued
  ended : (s.finished ++ s.workers.filterMap Worker.current).Perm s.started
  awake : s.workers.any Worker.isAsleep = true →
    s.tasks.length ≤ s.notifying + s.workers.countP Worker.isReady ∧ s.notified = false
  stopped : s.notified = true → s.stop = true

theorem sound_initial (numThreads : Nat) : Sound (initial numThreads : ThreadPool Task) where
  order := rfl
  ended := by
    unfold initial
    rw [List.filterMap_replicate]
    exact .refl _
  awake := fun _ => ⟨Nat.zero_le _, rfl⟩
  stopped := nofun

section Steps

variable {s next : ThreadPool Task} {k : Nat} {worker new : Worker Task}

/-- The running tasks change by those of the worker that moves on. -/
theorem current_tasks (there : s.workers[k]? = some worker) :
    (worker.current.toList ++ (s.workers.set k new).filterMap Worker.current).Perm
      (new.current.toList ++ s.workers.filterMap Worker.current) := by
  have cons (first : Worker Task) (others : List (Worker Task)) :
      (first :: others).filterMap Worker.current = first.current.toList ++ others.filterMap Worker.current := by
    cases first <;> rfl
  rw [← cons, ← cons]
  exact (place_set_perm there).filterMap Worker.current

/-- A worker that gets ready counts, and one that leaves this stage does not any more. -/
theorem ready_count (there : s.workers[k]? = some worker) :
    (s.workers.set k new).countP Worker.isReady + (if worker.isReady then 1 else 0) =
      s.workers.countP Worker.isReady + (if new.isReady then 1 else 0) := by
  have traded : (worker :: s.workers.set k new).Perm (new :: s.workers) := place_set_perm there
  have count := traded.countP_eq Worker.isReady
  rwa [List.countP_cons, List.countP_cons] at count

/-- A worker that does not fall asleep leaves the sleepers that it finds. -/
theorem asleep_of_set (awake : new.isAsleep = false)
    (sleeps : (s.workers.set k new).any Worker.isAsleep = true) : s.workers.any Worker.isAsleep = true := by
  obtain ⟨other, member, sleeping⟩ := List.any_eq_true.mp sleeps
  obtain old | rfl := List.mem_or_eq_of_mem_set member
  · exact List.any_eq_true.mpr ⟨other, old, sleeping⟩
  · rw [awake] at sleeping
    cases sleeping

theorem Sound.enqueue (sound : Sound s) (task : Task) : Sound (s.enqueue task) where
  order := by
    show s.started ++ (s.tasks ++ [task]) = s.enqueued ++ [task]
    rw [← List.append_assoc, sound.order]
  ended := sound.ended
  awake sleeps := by
    obtain ⟨few, unnotified⟩ := sound.awake sleeps
    refine ⟨?_, unnotified⟩
    show (s.tasks ++ [task]).length ≤ s.notifying + 1 + s.workers.countP Worker.isReady
    rw [List.length_append, List.length_singleton]
    omega
  stopped := sound.stopped

/-- A sleeper that wakes up will look for a task. -/
theorem Sound.wakes (sound : Sound s) (there : s.workers[k]? = some .asleep) {notifying : Nat}
    (fewer : s.notifying ≤ notifying + 1) : Sound { s with workers := s.workers.set k .ready, notifying } where
  order := sound.order
  ended := by
    have traded : ((s.workers.set k .ready).filterMap Worker.current).Perm _ := current_tasks there
    exact (traded.append_left s.finished).trans sound.ended
  awake sleeps := by
    obtain ⟨few, unnotified⟩ := sound.awake (asleep_of_set rfl sleeps)
    have count : (s.workers.set k .ready).countP Worker.isReady = s.workers.countP Worker.isReady + 1 :=
      ready_count there
    refine ⟨?_, unnotified⟩
    show s.tasks.length ≤ notifying + (s.workers.set k .ready).countP Worker.isReady
    omega
  stopped := sound.stopped

theorem Sound.notifyOne {chosen : Option Nat} (sound : Sound s) (taken : s.notifyOne chosen = some next) :
    Sound next := by
  unfold ThreadPool.notifyOne at taken
  split at taken
  next pending =>
    split at taken
    · split at taken
      · cases taken
      next none_ =>
        cases taken
        exact ⟨sound.order, sound.ended, fun sleeps => absurd sleeps none_, sound.stopped⟩
    · split at taken
      next there =>
        cases taken
        exact sound.wakes there (by omega)
      · cases taken
  · cases taken

theorem Sound.wakeUp (sound : Sound s) (taken : s.wakeUp k = some next) : Sound next := by
  unfold ThreadPool.wakeUp at taken
  split at taken
  next there =>
    cases taken
    exact sound.wakes there (by omega)
  · cases taken

/-- A worker that takes a task makes up for it, and one that sleeps has seen that there is none. -/
theorem Sound.check (sound : Sound s) (taken : s.check k = some next) : Sound next := by
  unfold ThreadPool.check at taken
  split at taken
  next there =>
    split at taken
    next empty =>
      cases taken
      refine ⟨sound.order, ?_, fun sleeps => ⟨?_, ?_⟩, sound.stopped⟩
      · have without : (if s.stop then .gone else .asleep : Worker Task).current = none := by split <;> rfl
        have traded : ((s.workers.set k (if s.stop then .gone else .asleep)).filterMap Worker.current).Perm
            (Option.toList _ ++ _) := current_tasks there
        rw [without] at traded
        exact (traded.append_left s.finished).trans sound.ended
      · rw [empty]
        exact Nat.zero_le _
      · by_contra notified
        have stops := sound.stopped ((Bool.not_eq_false _).mp notified)
        rw [stops, if_pos rfl] at sleeps
        exact notified (sound.awake (asleep_of_set rfl sleeps)).2
    next task rest queue =>
      cases taken
      refine ⟨?_, ?_, fun sleeps => ?_, sound.stopped⟩
      · rw [← sound.order, queue, List.append_assoc]
        rfl
      · have traded : ((s.workers.set k (.running task)).filterMap Worker.current).Perm (task :: _) :=
          current_tasks there
        have moved := (traded.append_left s.finished).trans List.perm_middle
        exact (moved.trans (sound.ended.cons task)).trans (List.perm_append_singleton task _).symm
      · obtain ⟨few, unnotified⟩ := sound.awake (asleep_of_set rfl sleeps)
        have count : (s.workers.set k (.running task)).countP Worker.isReady + 1 =
            s.workers.countP Worker.isReady := ready_count there
        rw [queue, List.length_cons] at few
        refine ⟨?_, unnotified⟩
        show rest.length ≤ s.notifying + (s.workers.set k (.running task)).countP Worker.isReady
        omega
  · cases taken

theorem Sound.finish (sound : Sound s) (taken : s.finish k = some next) : Sound next := by
  unfold ThreadPool.finish at taken
  split at taken
  next task there =>
    cases taken
    refine ⟨sound.order, ?_, fun sleeps => ?_, sound.stopped⟩
    · have traded : (task :: (s.workers.set k .ready).filterMap Worker.current).Perm _ := current_tasks there
      have moved := (traded.append_left s.finished).trans sound.ended
      rwa [List.append_cons] at moved
    · obtain ⟨few, unnotified⟩ := sound.awake (asleep_of_set rfl sleeps)
      have count : (s.workers.set k .ready).countP Worker.isReady = s.workers.countP Worker.isReady + 1 :=
        ready_count there
      refine ⟨?_, unnotified⟩
      show s.tasks.length ≤ s.notifying + (s.workers.set k .ready).countP Worker.isReady
      omega
  · cases taken

theorem Sound.notifyAll (sound : Sound s) (taken : s.notifyAll = some next) : Sound next := by
  unfold ThreadPool.notifyAll at taken
  split at taken
  next stops =>
    cases taken
    refine ⟨sound.order, ?_, fun sleeps => ?_, fun _ => (Bool.and_eq_true_iff.mp stops).1⟩
    · rw [List.filterMap_map]
      refine (List.Perm.of_eq ?_).trans sound.ended
      congr 1
      refine List.filterMap_congr fun worker _ => ?_
      cases worker <;> rfl
    · obtain ⟨worker, member, sleeping⟩ := List.any_eq_true.mp sleeps
      obtain ⟨old, _, rfl⟩ := List.mem_map.mp member
      cases old <;> cases sleeping
  · cases taken

theorem Sound.step {label : PoolLabel Task} (sound : Sound s) (taken : s.step label = some next) :
    Sound next := by
  cases label with
  | enqueue task =>
      cases taken
      exact sound.enqueue task
  | notifyOne worker => exact sound.notifyOne taken
  | wakeUp k => exact sound.wakeUp taken
  | check k => exact sound.check taken
  | finish k => exact sound.finish taken
  | stop =>
      obtain ⟨_, stopped⟩ := Option.ite_none_left_eq_some.mp taken
      cases stopped
      exact ⟨sound.order, sound.ended, sound.awake, fun _ => rfl⟩
  | notifyAll => exact sound.notifyAll taken

/-- The pool itself takes these steps, once nobody hands it a task or stops it. -/
def Own : PoolLabel Task → Prop
  | .notifyOne _ | .check _ | .finish _ | .notifyAll => True
  | .enqueue _ | .wakeUp _ | .stop => False

/-- The steps that the pool has to take for its tasks, its notifications and its workers. -/
def work (s : ThreadPool Task) : Nat :=
  2 * s.notifying + 2 * s.tasks.length + (if s.stop && !s.notified then s.workers.length + 1 else 0) +
    (s.workers.map Worker.weight).sum

theorem weight_set (there : s.workers[k]? = some worker) :
    ((s.workers.set k new).map Worker.weight).sum + worker.weight =
      (s.workers.map Worker.weight).sum + new.weight := by
  have traded : (worker :: s.workers.set k new).Perm (new :: s.workers) := place_set_perm there
  have sums := (traded.map Worker.weight).sum_nat
  rw [List.map_cons, List.sum_cons, List.map_cons, List.sum_cons] at sums
  omega

theorem weight_awake (workers : List (Worker Task)) :
    ((workers.map fun worker => if worker.isAsleep then .ready else worker).map Worker.weight).sum ≤
      workers.length + (workers.map Worker.weight).sum := by
  induction workers with
  | nil => exact Nat.le_refl 0
  | cons worker rest ih =>
      simp only [List.map_cons, List.sum_cons, List.length_cons]
      have one : (if worker.isAsleep then .ready else worker : Worker Task).weight ≤ 1 + worker.weight := by
        cases worker <;> simp [Worker.isAsleep, Worker.weight]
      omega

theorem work_lower {label : PoolLabel Task} (own : Own label) (taken : s.step label = some next) :
    next.work < s.work := by
  cases label with
  | enqueue _ | wakeUp _ | stop => exact absurd own id
  | notifyOne chosen =>
      simp only [step, notifyOne] at taken
      split at taken
      next pending =>
        split at taken
        · split at taken
          · cases taken
          · cases taken
            simp only [work]
            omega
        next k =>
          split at taken
          next there =>
            cases taken
            have weights : ((s.workers.set k .ready).map Worker.weight).sum + 0 = _ + 1 := weight_set there
            simp only [work, List.length_set]
            omega
          · cases taken
      · cases taken
  | check k =>
      simp only [step, check] at taken
      split at taken
      next there =>
        split at taken
        next empty =>
          cases taken
          have light : (if s.stop then .gone else .asleep : Worker Task).weight = 0 := by split <;> rfl
          have weights : ((s.workers.set k (if s.stop then .gone else .asleep)).map Worker.weight).sum + 1 =
            _ + Worker.weight _ := weight_set there
          rw [light] at weights
          simp only [work, List.length_set]
          omega
        next task rest queue =>
          cases taken
          have weights : ((s.workers.set k (.running task)).map Worker.weight).sum + 1 = _ + 2 :=
            weight_set there
          simp only [work, List.length_set, queue, List.length_cons]
          omega
      · cases taken
  | finish k =>
      simp only [step, finish] at taken
      split at taken
      next task there =>
        cases taken
        have weights : ((s.workers.set k .ready).map Worker.weight).sum + 2 = _ + 1 := weight_set there
        simp only [work, List.length_set]
        omega
      · cases taken
  | notifyAll =>
      simp only [step, notifyAll] at taken
      split at taken
      next stops =>
        cases taken
        have weights := weight_awake s.workers
        simp only [work, if_pos stops, Bool.not_true, Bool.and_false, Bool.false_eq_true, if_false]
        omega
      · cases taken

/-- A pool at rest has no task left unless it has no worker left, and a stopped one has no worker left. -/
theorem Sound.of_resting (sound : Sound s) (rests : Resting ThreadPool.step Own s) :
    (s.AllGone ∨ s.tasks = []) ∧ (s.stop = true → s.AllGone) := by
  have quiet : s.notifying = 0 := by
    by_contra pending
    cases sleeps : s.workers.any Worker.isAsleep with
    | false =>
        have stuck := rests (.notifyOne none) trivial
        simp [ThreadPool.step, ThreadPool.notifyOne, Nat.pos_of_ne_zero pending, sleeps] at stuck
    | true =>
        obtain ⟨worker, member, sleeping⟩ := List.any_eq_true.mp sleeps
        obtain ⟨k, there⟩ := List.mem_iff_getElem?.mp member
        have asleep : worker = .asleep := by cases worker <;> first | rfl | cases sleeping
        rw [asleep] at there
        have stuck := rests (.notifyOne (some k)) trivial
        simp [ThreadPool.step, ThreadPool.notifyOne, Nat.pos_of_ne_zero pending, there] at stuck
  have complete {worker : Worker Task} (member : worker ∈ s.workers) : worker = .asleep ∨ worker = .gone := by
    obtain ⟨k, there⟩ := List.mem_iff_getElem?.mp member
    cases worker with
    | asleep => exact .inl rfl
    | gone => exact .inr rfl
    | ready =>
        have stuck := rests (.check k) trivial
        simp only [ThreadPool.step, ThreadPool.check, there] at stuck
        split at stuck <;> cases stuck
    | running task =>
        have stuck := rests (.finish k) trivial
        simp [ThreadPool.step, ThreadPool.finish, there] at stuck
  have none_ready : s.workers.countP Worker.isReady = 0 := by
    refine List.countP_eq_zero.mpr fun worker member => ?_
    obtain rfl | rfl := complete member <;> exact Bool.false_ne_true
  have all_gone (awake : s.workers.any Worker.isAsleep = false) : s.AllGone := by
    refine List.all_eq_true.mpr fun worker member => ?_
    obtain rfl | rfl := complete member
    · exact absurd rfl (List.any_eq_false.mp awake _ member)
    · rfl
  cases sleeps : s.workers.any Worker.isAsleep with
  | false => exact ⟨.inl (all_gone sleeps), fun _ => all_gone sleeps⟩
  | true =>
      obtain ⟨few, unnotified⟩ := sound.awake sleeps
      refine ⟨.inr (List.eq_nil_of_length_eq_zero (by omega)), fun stops => ?_⟩
      have stuck := rests .notifyAll trivial
      simp [ThreadPool.step, ThreadPool.notifyAll, stops, unnotified] at stuck

end Steps

theorem descends : Descends step Own Sound (work : ThreadPool Task → Nat) where
  kept _ _ _ sound taken := sound.step taken
  lower _ _ _ _ own taken := work_lower own taken

/-- From every reachable state the pool itself takes a bounded number of steps, and rests only when
every task has been taken or no worker is left to take it. A stopped pool rests only when all its
workers are gone, so that the destructor returns. -/
theorem pool_rests {numThreads : Nat} {s : ThreadPool Task}
    (reached : Reachable step (initial numThreads) s) :
    (∀ (labels : List (PoolLabel Task)) (final : ThreadPool Task), (∀ label ∈ labels, Own label) →
      run step s labels = some final → labels.length ≤ s.work ∧
        (Resting step Own final → (final.AllGone ∨ final.tasks = []) ∧ (final.stop = true → final.AllGone))) ∧
      ∃ (labels : List (PoolLabel Task)) (final : ThreadPool Task), (∀ label ∈ labels, Own label) ∧
        run step s labels = some final ∧ Resting step Own final := by
  have sound : Sound s := by
    obtain ⟨labels, ran⟩ := reached
    exact run_invariant_of_step (fun _ _ _ => Sound.step) (sound_initial numThreads) ran
  refine ⟨fun labels final owned ran => ⟨?_, fun rests => ?_⟩, ?_⟩
  · have bounded := descends.length_le sound owned ran
    omega
  · exact (run_invariant_of_step (fun _ _ _ => Sound.step) sound ran).of_resting rests
  · obtain ⟨labels, final, owned, ran, _, rests⟩ := descends.exists_resting sound
    exact ⟨labels, final, owned, ran, rests⟩

/-- A task comes while some worker can still take it. -/
def InTime (s : ThreadPool Task) : PoolLabel Task → Prop
  | .enqueue _ => ¬ s.AllGone
  | _ => True

instance (s : ThreadPool Task) : (label : PoolLabel Task) → Decidable (s.InTime label)
  | .enqueue _ => inferInstanceAs (Decidable (¬ s.AllGone))
  | .notifyOne _ | .wakeUp _ | .check _ | .finish _ | .stop | .notifyAll => isTrue trivial

/-- Tasks wait in the queue of a pool whose workers have all gone. -/
def Abandoned (s : ThreadPool Task) : Prop := s.AllGone ∧ s.tasks ≠ []

section Drains

variable {s next final : ThreadPool Task} {label : PoolLabel Task} {labels : List (PoolLabel Task)}

/-- A step leaves the workers alone, wakes up all sleepers, or moves one worker that is not gone. -/
theorem workers_cases (taken : s.step label = some next) :
    (next.workers = s.workers ∧ (next.tasks = s.tasks ∨ ∃ task, label = .enqueue task ∧
        next.tasks = s.tasks ++ [task])) ∨
      (next.workers = s.workers.map (fun worker => if worker.isAsleep then .ready else worker) ∧
        next.tasks = s.tasks) ∨
      ∃ (k : Nat) (worker new : Worker Task), s.workers[k]? = some worker ∧ worker.isGone = false ∧
        next.workers = s.workers.set k new ∧ (new.isGone = true → next.tasks = []) := by
  cases label with
  | enqueue task =>
      cases taken
      exact .inl ⟨rfl, .inr ⟨task, rfl, rfl⟩⟩
  | notifyOne chosen =>
      simp only [step, notifyOne] at taken
      split at taken
      · split at taken
        · split at taken
          · cases taken
          · cases taken
            exact .inl ⟨rfl, .inl rfl⟩
        · split at taken
          next there =>
            cases taken
            exact .inr (.inr ⟨_, _, _, there, rfl, rfl, nofun⟩)
          · cases taken
      · cases taken
  | wakeUp k =>
      simp only [step, wakeUp] at taken
      split at taken
      next there =>
        cases taken
        exact .inr (.inr ⟨k, _, _, there, rfl, rfl, nofun⟩)
      · cases taken
  | check k =>
      simp only [step, check] at taken
      split at taken
      next there =>
        split at taken
        next empty =>
          cases taken
          exact .inr (.inr ⟨k, _, _, there, rfl, rfl, fun _ => empty⟩)
        · cases taken
          exact .inr (.inr ⟨k, _, _, there, rfl, rfl, nofun⟩)
      · cases taken
  | finish k =>
      simp only [step, finish] at taken
      split at taken
      next there =>
        cases taken
        exact .inr (.inr ⟨k, _, _, there, rfl, rfl, nofun⟩)
      · cases taken
  | stop =>
      obtain ⟨_, stopped⟩ := Option.ite_none_left_eq_some.mp taken
      cases stopped
      exact .inl ⟨rfl, .inl rfl⟩
  | notifyAll =>
      simp only [step, notifyAll] at taken
      split at taken
      · cases taken
        exact .inr (.inl ⟨rfl, rfl⟩)
      · cases taken

/-- Waking up the sleepers brings no worker back and takes none away. -/
theorem allGone_awake (workers : List (Worker Task)) :
    (workers.map fun worker => if worker.isAsleep then .ready else worker).all Worker.isGone =
      workers.all Worker.isGone := by
  rw [List.all_map]
  congr 1
  funext worker
  cases worker <;> rfl

/-- A pool whose workers have all gone leaves the tasks that come later. -/
theorem Abandoned.step (abandoned : Abandoned s) (taken : s.step label = some next) : Abandoned next := by
  obtain ⟨gone, left⟩ := abandoned
  unfold Abandoned AllGone
  obtain ⟨same, queue⟩ | ⟨awake, same⟩ | ⟨k, worker, new, there, stays, _⟩ := workers_cases taken
  · rw [same]
    obtain queue | ⟨task, _, queue⟩ := queue
    · rw [queue]
      exact ⟨gone, left⟩
    · rw [queue]
      exact ⟨gone, List.append_ne_nil_of_left_ne_nil left _⟩
  · rw [awake, allGone_awake, same]
    exact ⟨gone, left⟩
  · have complete := List.all_eq_true.mp gone worker (List.mem_of_getElem? there)
    rw [stays] at complete
    cases complete

/-- A step in time leaves no task to workers that have all gone. -/
theorem not_abandoned (kept : ¬ Abandoned s) (timely : s.InTime label) (taken : s.step label = some next) :
    ¬ Abandoned next := by
  rintro ⟨gone, left⟩
  unfold AllGone at gone
  obtain ⟨same, queue⟩ | ⟨awake, same⟩ | ⟨k, worker, new, there, stays, same, last⟩ := workers_cases taken
  · rw [same] at gone
    obtain queue | ⟨task, rfl, _⟩ := queue
    · rw [queue] at left
      exact kept ⟨gone, left⟩
    · exact timely gone
  · rw [awake, allGone_awake] at gone
    rw [same] at left
    exact kept ⟨gone, left⟩
  · rw [same] at gone
    exact left (last (List.all_eq_true.mp gone new (List.mem_of_getElem? (place_set_self there))))

theorem enqueued_step (taken : s.step label = some next) :
    next.enqueued = s.enqueued ++ label.arrival.toList := by
  cases label <;> simp only [step, notifyOne, wakeUp, check, finish, notifyAll] at taken <;>
    grind [PoolLabel.arrival, enqueue]

theorem enqueued_run (ran : run step s labels = some final) :
    final.enqueued = s.enqueued ++ labels.filterMap PoolLabel.arrival := by
  induction labels generalizing s with
  | nil =>
      cases ran
      exact (List.append_nil _).symm
  | cons label rest ih =>
      obtain ⟨next, taken, later⟩ := run_cons_eq_some.mp ran
      rw [ih later, enqueued_step taken, List.append_assoc]
      cases label <;> rfl

end Drains

/-- Tasks start once each and in the order of their arrivals. When all workers are gone, every task has
been run to its end exactly when none has come after the last worker had gone. -/
theorem drained_iff {numThreads : Nat} {labels : List (PoolLabel Task)} {final : ThreadPool Task}
    (ran : run step (initial numThreads) labels = some final) (gone : final.AllGone) :
    final.started ++ final.tasks = labels.filterMap PoolLabel.arrival ∧
      final.finished.Perm final.started ∧
      (final.finished.Perm (labels.filterMap PoolLabel.arrival) ↔
        Guarded step InTime (initial numThreads) labels) := by
  have sound : Sound final := run_invariant_of_step (fun _ _ _ => Sound.step) (sound_initial numThreads) ran
  have arrived : final.enqueued = labels.filterMap PoolLabel.arrival := enqueued_run ran
  have ended : final.finished.Perm final.started := by
    have idle : final.workers.filterMap Worker.current = [] := by
      refine List.filterMap_eq_nil_iff.mpr fun worker member => ?_
      have complete := List.all_eq_true.mp gone worker member
      cases worker <;> first | rfl | cases complete
    have all := sound.ended
    rwa [idle, List.append_nil] at all
  rw [← arrived]
  refine ⟨sound.order, ended, ?_⟩
  have drained : final.finished.Perm final.enqueued ↔ final.tasks = [] := by
    rw [← sound.order]
    constructor
    · intro every
      have lengths := (ended.symm.trans every).length_eq
      rw [List.length_append] at lengths
      exact List.eq_nil_of_length_eq_zero (by omega)
    · intro none_
      rw [none_, List.append_nil]
      exact ended
  rw [drained]
  constructor
  · intro none_
    refine guarded_of_final (fun _ _ _ => Abandoned.step) ?_ ran fun abandoned => abandoned.2 none_
    intro s label next late taken
    cases label with
    | enqueue task =>
        cases taken
        exact ⟨not_not.mp late, List.append_ne_nil_of_right_ne_nil _ (List.cons_ne_nil task [])⟩
    | notifyOne _ | wakeUp _ | check _ | finish _ | stop | notifyAll => exact absurd trivial late
  · intro timely
    have kept : ¬ Abandoned final :=
      run_invariant (fun _ _ _ => not_abandoned) (fun abandoned => abandoned.2 rfl) timely ran
    by_contra left
    exact kept ⟨gone, left⟩

/-- Two workers share three tasks, and the destructor joins them. -/
def shared : List (PoolLabel Nat) :=
  [.check 0, .enqueue 1, .notifyOne (some 0), .check 1, .enqueue 2, .enqueue 3, .check 0, .notifyOne none,
    .finish 0, .check 0, .finish 1, .stop, .check 1, .notifyAll, .finish 0, .check 0]

theorem drained_iff_shared : ∃ final : ThreadPool Nat, run step (initial 2) shared = some final ∧
    final.finished.Perm [1, 2, 3] := by
  obtain ⟨final, ran, gone⟩ := (Option.any_eq_true _ _).mp (by decide :
    (run step (initial 2) shared).any (fun final => decide final.AllGone) = true)
  exact ⟨final, ran, (drained_iff ran (of_decide_eq_true gone)).2.2.mpr (by decide)⟩

theorem pool_rests_shared : ∃ s : ThreadPool Nat, run step (initial 2) shared = some s ∧
    ∃ (labels : List (PoolLabel Nat)) (final : ThreadPool Nat), (∀ label ∈ labels, Own label) ∧
      run step s labels = some final ∧ Resting step Own final := by
  obtain ⟨s, ran, _⟩ := (Option.any_eq_true _ _).mp (by decide :
    (run step (initial 2) shared).any (fun _ => true) = true)
  exact ⟨s, ran, (pool_rests ⟨shared, ran⟩).2⟩

end ThreadPool

end Chubby.Common
