/-
This file proves when no two calls of `Put` hand the same slot to Paxos.
-/

import Chubby.Lock.CellEvent

namespace Chubby.Lock

open Chubby.Library
open Chubby.Paxos (asInt asInt_eq_iff asInt_asInt_add)

variable {n : Nat} {slotNumbers : Fin n → Int}

/-- A call of `Put` hands the sequence number to `Start`; its server had counted so many AcquireLock
calls by then. -/
structure PutCall (n : Nat) where
  server : Fin n
  seq : Int
  counted : Nat
  deriving DecidableEq, Repr

/-- The counters of AcquireLock calls and the list of all calls of `Put` are history variables. -/
structure Logged (n : Nat) where
  cell : Cell n
  counted : Fin n → Nat
  puts : List (PutCall n)

/-- Only an AcquireLock call counts a slot. -/
def Handler.countsAt (handler : Handler n) : Option (Fin n) :=
  match handler.task with
  | .acquire _ => some handler.server
  | .release | .expire => none

namespace Cell

/-- The server at which the label lets an AcquireLock call count a slot. -/
def countsAt (c : Cell n) : CellLabel n → Option (Fin n)
  | .lock h => c.handlers[h]?.bind Handler.countsAt
  | _ => none

/-- The server at which the label lets a thread call `Put`. -/
def putsAt (c : Cell n) : CellLabel n → Option (Fin n)
  | .readSlot h => c.handlers[h]?.map Handler.server
  | _ => none

/-- A slot number moves by one exactly when an AcquireLock call of its server counts a slot. -/
theorem step_slots {c c' : Cell n} {label : CellLabel n} (taken : c.step label = some c') (i : Fin n) :
    (c'.chubby i).slotNumber =
      if c.countsAt label = some i then asInt ((c.chubby i).slotNumber + 1) else (c.chubby i).slotNumber := by
  have frame := step_frame taken
  cases label with
  | lock h =>
      obtain ⟨handler, path, rest, at_, _, _, _, same⟩ := lock_cases taken
      rw [same]
      show ((c.setChubby handler.server (handler.takeSlot (c.chubby handler.server))).chubby i).slotNumber = _
      have caller : c.countsAt (.lock h) = handler.countsAt := by
        unfold countsAt
        dsimp only
        rw [at_, Option.bind_some]
      rw [lock_chubby, caller]
      unfold Handler.countsAt Handler.takeSlot
      split
      next self =>
        cases handler.task with
        | acquire mode => simp [ChubbyImpl.nextSlot, self]
        | release => simp
        | expire => simp
      next other =>
        cases handler.task with
        | acquire mode => simp [Ne.symm other]
        | release => simp
        | expire => simp
  | _ => exact frame.slots rfl i

end Cell

namespace Logged

def initial (n : Nat) (slotNumbers : Fin n → Int) : Logged n := ⟨.initial n slotNumbers, fun _ => 0, []⟩

/-- The history grows with the step of the cell. -/
def record (s : Logged n) (label : CellLabel n) (cell : Cell n) : Logged n where
  cell := cell
  counted i := s.counted i + if s.cell.countsAt label = some i then 1 else 0
  puts := s.puts ++ ((s.cell.putsAt label).map fun i =>
    (⟨i, (s.cell.chubby i).slotNumber, s.counted i⟩ : PutCall n)).toList

def step (s : Logged n) (label : CellLabel n) : Option (Logged n) :=
  (s.cell.step label).map (s.record label)

/-- Every run of the cell has a history. -/
theorem run_cell (s : Logged n) (labels : List (CellLabel n)) :
    (run step s labels).map Logged.cell = run Cell.step s.cell labels := by
  induction labels generalizing s with
  | nil => rfl
  | cons label rest ih =>
      show ((s.step label).bind fun next => run step next rest).map Logged.cell =
        (s.cell.step label).bind fun next => run Cell.step next rest
      unfold step
      cases s.cell.step label with
      | none => rfl
      | some cell => exact ih (s.record label cell)

end Logged

/-- No two calls of `Put` have called `Start` with the same sequence number. -/
def OwnSlots (s : Logged n) : Prop := (s.puts.map PutCall.seq).Nodup

/-- A server that calls `Put` has counted AcquireLock calls since each earlier `Put` of its own, and their
number is no multiple of `2 ^ 32`; and its count is not that of a `Put` of another server, shifted by the
difference of the two numbers at which the processes started. -/
def SlotMoved (slotNumbers : Fin n → Int) (s : Logged n) (label : CellLabel n) : Prop :=
  ∀ i ∈ s.cell.putsAt label, ∀ put ∈ s.puts,
    (put.server = i → ¬ 2 ^ 32 ∣ s.counted i - put.counted) ∧
      (put.server ≠ i →
        ¬ (2 ^ 32 : Int) ∣ (slotNumbers put.server + put.counted) - (slotNumbers i + s.counted i))

instance (s : Logged n) (label : CellLabel n) : Decidable (SlotMoved slotNumbers s label) :=
  inferInstanceAs (Decidable (∀ i ∈ s.cell.putsAt label, ∀ put ∈ s.puts, _))

/-- A slot number is a count of AcquireLock calls that wraps, now and at each call of `Put`. -/
structure Logged.Counts (slotNumbers : Fin n → Int) (s : Logged n) : Prop where
  slots : ∀ i, (s.cell.chubby i).slotNumber = asInt (slotNumbers i + s.counted i)
  puts : ∀ put ∈ s.puts, put.seq = asInt (slotNumbers put.server + put.counted) ∧
    put.counted ≤ s.counted put.server

theorem Logged.Counts.step {s s' : Logged n} {label : CellLabel n}
    (counts : Counts slotNumbers s) (taken : s.step label = some s') : Counts slotNumbers s' := by
  obtain ⟨cell, moved, same⟩ := Option.map_eq_some_iff.mp taken
  rw [← same]
  have grows (i : Fin n) : s.counted i ≤ (s.record label cell).counted i := Nat.le_add_right ..
  constructor
  · intro i
    have one := Cell.step_slots moved i
    have before := counts.slots i
    show (cell.chubby i).slotNumber =
      asInt (slotNumbers i + ((s.counted i + if s.cell.countsAt label = some i then 1 else 0 : Nat) : Int))
    rw [one, before]
    split
    · rw [asInt_asInt_add, Int.add_assoc, Int.natCast_add, Int.natCast_one]
    · rw [Nat.add_zero]
  · intro put member
    obtain earlier | new := List.mem_append.mp member
    · obtain ⟨seq, below⟩ := counts.puts put earlier
      exact ⟨seq, below.trans (grows put.server)⟩
    · obtain ⟨i, _, equal⟩ := Option.map_eq_some_iff.mp (Option.mem_toList.mp new)
      rw [← equal]
      exact ⟨counts.slots i, grows i⟩

/-- After a step all slots are own slots exactly when the slot number of the caller has moved. -/
theorem ownSlots_step {s s' : Logged n} {label : CellLabel n} (counts : Logged.Counts slotNumbers s)
    (own : OwnSlots s) (taken : s.step label = some s') : OwnSlots s' ↔ SlotMoved slotNumbers s label := by
  obtain ⟨cell, moved, same⟩ := Option.map_eq_some_iff.mp taken
  rw [← same]
  unfold OwnSlots SlotMoved
  show ((s.puts ++ _).map PutCall.seq).Nodup ↔ _
  cases caller : s.cell.putsAt label with
  | none =>
      rw [Option.map_none, Option.toList_none, List.append_nil]
      exact iff_of_true own fun i absent => by cases absent
  | some i =>
      have fresh (put : PutCall n) (member : put ∈ s.puts) :
          put.seq ≠ (s.cell.chubby i).slotNumber ↔
            (put.server = i → ¬ 2 ^ 32 ∣ s.counted i - put.counted) ∧
              (put.server ≠ i →
                ¬ (2 ^ 32 : Int) ∣ (slotNumbers put.server + put.counted) - (slotNumbers i + s.counted i)) := by
        obtain ⟨seq, below⟩ := counts.puts put member
        rw [seq, counts.slots i, Ne, asInt_eq_iff]
        by_cases self : put.server = i
        · rw [self] at below
          simp only [self, true_implies, ne_eq, not_true, false_implies, and_true]
          omega
        · simp only [self, false_implies, ne_eq, not_false_eq_true, true_implies, true_and]
      simp only [Option.map_some, Option.toList_some, List.map_append, List.map_cons, List.map_nil,
        Option.mem_some, forall_eq']
      rw [List.nodup_append]
      constructor
      · intro distinct put member
        apply (fresh put member).mp
        exact distinct.2.2 _ (List.mem_map_of_mem member) _ (List.mem_singleton.mpr rfl)
      · intro moves
        apply And.intro own
        apply And.intro (List.nodup_singleton _)
        intro seq earlier new last
        obtain ⟨put, member, equal⟩ := List.mem_map.mp earlier
        rw [← equal, List.mem_singleton.mp last]
        exact (fresh put member).mpr (moves put member)

theorem counts_initial (slotNumbers : Fin n → Int) :
    Logged.Counts slotNumbers (Logged.initial n slotNumbers) := by
  constructor
  · intro i
    exact congrArg asInt (Int.add_zero _).symm
  · intro put member
    cases member

/-- Along every run, every call of `Put` has its own slot in every state exactly when at every call the
counts of AcquireLock calls keep its slot number apart from those of all earlier calls. -/
theorem ownSlots_iff {labels : List (CellLabel n)} {final : Logged n}
    (ran : run Logged.step (Logged.initial n slotNumbers) labels = some final) :
    EveryStep Logged.step (fun _ _ next => OwnSlots next) (Logged.initial n slotNumbers) labels ↔
      Guarded Logged.step (SlotMoved slotNumbers) (Logged.initial n slotNumbers) labels := by
  refine everyStep_iff_guarded_of_invariant (fun s => Logged.Counts slotNumbers s ∧ OwnSlots s) ?_ ?_ ?_ ran
  · intro s label next holds taken
    exact ownSlots_step holds.1 holds.2 taken
  · intro s label next holds moved taken
    exact ⟨holds.1.step taken, (ownSlots_step holds.1 holds.2 taken).mpr moved⟩
  · exact ⟨counts_initial slotNumbers, List.nodup_nil⟩

/-- A client asks for two paths; the handlers then run in the given order. -/
def twoPaths (server : Fin 1) (handlers : List (CellLabel 1)) : List (CellLabel 1) :=
  [.keepAlive server "1" 0, .acquireLock server "1" "x" .exclusive,
    .acquireLock server "1" "y" .exclusive] ++ handlers

/-- The second handler starts after the first one has called `Put`. -/
def oneAfterTheOther (server : Fin 1) : List (CellLabel 1) :=
  twoPaths server [.lock 0, .checkSession 0, .decide 0, .readSlot 0, .lock 1, .checkSession 1, .decide 1,
    .readSlot 1]

/-- Both handlers count their slots before the first one calls `Put`. -/
def interleaved (server : Fin 1) : List (CellLabel 1) :=
  twoPaths server [.lock 0, .lock 1, .checkSession 0, .checkSession 1, .decide 0, .decide 1, .readSlot 0,
    .readSlot 1]

theorem ownSlots_iff_oneAfterTheOther : ∃ final : Logged 1,
    run Logged.step (Logged.initial 1 fun _ => 0) (oneAfterTheOther 0) = some final ∧
      final.puts.map PutCall.seq = [1, 2] ∧
      EveryStep Logged.step (fun _ _ next => OwnSlots next) (Logged.initial 1 fun _ => 0)
        (oneAfterTheOther 0) := by
  obtain ⟨final, ran, checked⟩ := (Option.any_eq_true _ _).mp (by decide +kernel :
    (run Logged.step (Logged.initial 1 fun _ => 0) (oneAfterTheOther 0)).any (fun final =>
      decide (final.puts.map PutCall.seq = [1, 2])) = true)
  have moved : Guarded Logged.step (SlotMoved fun _ => 0) (Logged.initial 1 fun _ => 0)
    (oneAfterTheOther 0) := by decide +kernel
  exact ⟨final, ran, of_decide_eq_true checked, (ownSlots_iff ran).mpr moved⟩

/-- Two handlers of different paths hand the same slot to Paxos. -/
theorem slot_shared : ¬ ∀ (n : Nat) (slotNumbers : Fin n → Int) (labels : List (CellLabel n))
    (final : Logged n), run Logged.step (Logged.initial n slotNumbers) labels = some final → OwnSlots final := by
  intro own
  obtain ⟨final, ran, checked⟩ := (Option.any_eq_true _ _).mp (by decide +kernel :
    (run Logged.step (Logged.initial 1 fun _ => 0) (interleaved 0)).any (fun final =>
      decide (final.puts.map PutCall.seq = [2, 2])) = true)
  have same := of_decide_eq_true checked
  have distinct := own 1 (fun _ => 0) (interleaved 0) final ran
  unfold OwnSlots at distinct
  rw [same] at distinct
  simp at distinct

end Chubby.Lock
