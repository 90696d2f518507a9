/-
This file proves when a Learn that cannot be applied leaves its slot open.
-/

import Chubby.Library.Runs
import Chubby.Paxos.SlotEffects
import Mathlib.Data.List.TakeWhile

namespace Chubby.Paxos

open Chubby.Library

variable {n : Nat}

/-- The parser throws, or `Put` reports an error. -/
def Unapplied (db : RocksDBWrapper) (keyValue : String) (committed : Bool) : Prop :=
  match getKeyValue keyValue with
  | .error _ => True
  | .ok (key, value) => (db.put key value committed).2 = -1

/-- The value has a separator, and RocksDB is open and commits the transaction. -/
def Storable (db : RocksDBWrapper) (keyValue : String) (committed : Bool) : Prop :=
  '#' ∈ keyValue.toList ∧ db.opened = true ∧ committed = true

instance (db : RocksDBWrapper) (keyValue : String) (committed : Bool) :
    Decidable (Storable db keyValue committed) := inferInstanceAs (Decidable (_ ∧ _ ∧ _))

theorem RocksDBWrapper.put_fails_iff {db : RocksDBWrapper} {key value : String} {committed : Bool} :
    (db.put key value committed).2 = -1 ↔ ¬ (db.opened = true ∧ committed = true) := by
  unfold put
  cases db.opened with
  | false => simp
  | true =>
      cases committed with
      | false => simp
      | true => cases (db.contents key).isSome <;> simp

theorem getKeyValue_cases (keyValue : String) :
    ('#' ∉ keyValue.toList ∧ ∃ failure, getKeyValue keyValue = .error failure) ∨
      ('#' ∈ keyValue.toList ∧ ∃ pair, getKeyValue keyValue = .ok pair) := by
  unfold getKeyValue
  cases rest : keyValue.toList.dropWhile (· ≠ '#') with
  | nil =>
      refine .inl ⟨fun member => ?_, _, rfl⟩
      have all := List.dropWhile_eq_nil_iff.mp rest '#' member
      exact absurd all (by simp)
  | cons letter value =>
      refine .inr ⟨?_, _, rfl⟩
      by_contra absent
      have none_ : keyValue.toList.dropWhile (· ≠ '#') = [] := by
        refine List.dropWhile_eq_nil_iff.mpr fun other member => decide_eq_true ?_
        rintro rfl
        exact absent member
      rw [rest] at none_
      cases none_

theorem unapplied_iff {db : RocksDBWrapper} {keyValue : String} {committed : Bool} :
    Unapplied db keyValue committed ↔ ¬ Storable db keyValue committed := by
  unfold Unapplied Storable
  obtain ⟨plain, failure, thrown⟩ | ⟨separated, ⟨key, value⟩, parsed⟩ := getKeyValue_cases keyValue
  · rw [thrown]
    exact iff_of_true trivial fun storable => plain storable.1
  · rw [parsed]
    dsimp only
    rw [RocksDBWrapper.put_fails_iff, not_iff_not]
    exact (and_iff_right separated).symm

/-- The slot is not decided and has its old value. -/
def PaxosImpl.LeavesOpen (before after : PaxosImpl) (seq : Int) : Prop :=
  (after.slotAt seq).status ≠ .decided ∧ (after.slotAt seq).value = (before.slotAt seq).value

namespace PaxosImpl

/-- The handler decides its slot before it parses and stores the value. -/
theorem learn_decides_value {server : PaxosImpl} {me : Fin n} {request : DecideRequest} {committed : Bool}
    (above : server.lowestSlot ≤ request.seq) (undecided : (server.slotAt request.seq).status ≠ .decided) :
    (server.learn me request committed).1.decidedValue request.seq = some request.value := by
  cases server.learn_cases me request committed with
  | collected below => exact absurd above (Int.not_le.mpr below)
  | settled _ decided => exact absurd decided undecided
  | decides _ _ paxosDb same =>
      have there : (server.learn me request committed).1.slotAt request.seq = { server.slotAt request.seq with
          nA := server.view, status := .decided, value := request.value } := by
        rw [same]
        show (PaxosImpl.slots (markDecided _ _ _) request.seq).getD _ = _
        rw [marked_slots, Function.update_self]
        rfl
      unfold PaxosImpl.decidedValue
      rw [there]
      exact if_pos rfl

/-- A Learn of an open slot leaves it open when it cannot be applied, exactly if it is refused or can be
applied. -/
theorem leavesOpen_iff {server : PaxosImpl} {me : Fin n} {request : DecideRequest} {committed : Bool}
    (undecided : (server.slotAt request.seq).status ≠ .decided) :
    (Unapplied server.paxosDb request.value committed →
        server.LeavesOpen (server.learn me request committed).1 request.seq) ↔
      request.seq < server.lowestSlot ∨ Storable server.paxosDb request.value committed := by
  by_cases below : request.seq < server.lowestSlot
  · refine iff_of_true (fun _ => ?_) (.inl below)
    cases server.learn_cases me request committed with
    | collected _ same => rw [same]; exact ⟨undecided, rfl⟩
    | settled above | decides above => exact absurd above (Int.not_le.mpr below)
  · have decides : ¬ server.LeavesOpen (server.learn me request committed).1 request.seq := by
      intro opened
      have decided := @learn_decides_value n server me request committed (Int.not_lt.mp below) undecided
      rw [undecided_iff.mpr opened.1] at decided
      cases decided
    rw [unapplied_iff]
    constructor
    · intro leaves
      by_contra neither
      exact decides (leaves fun storable => neither (.inr storable))
    · rintro (collected | storable) unapplied
      · exact absurd collected below
      · exact absurd storable unapplied

end PaxosImpl

/-- A server with the slots and values that its Learns have stored; the list is a history variable. -/
structure Learning where
  server : PaxosImpl
  stored : List (Int × String)

/-- A Learn request with the choice of RocksDB. -/
structure LearnLabel where
  request : DecideRequest
  committed : Bool
  deriving DecidableEq, Repr

namespace Learning

def initial (n : Nat) (db : RocksDBWrapper) : Learning := ⟨{ PaxosImpl.initial n with paxosDb := db }, []⟩

/-- The Learn takes its branch for an open slot. -/
def Decides (w : Learning) (request : DecideRequest) : Prop :=
  w.server.lowestSlot ≤ request.seq ∧ (w.server.slotAt request.seq).status ≠ .decided

instance (w : Learning) (request : DecideRequest) : Decidable (w.Decides request) :=
  inferInstanceAs (Decidable (_ ∧ _))

/-- The pair is stored when `Put` is called and reports no error. -/
def note (w : Learning) (label : LearnLabel) : List (Int × String) :=
  if w.Decides label.request then
    match getKeyValue label.request.value with
    | .error _ => w.stored
    | .ok (key, value) =>
        if (w.server.paxosDb.put key value label.committed).2 = -1 then w.stored
        else (label.request.seq, label.request.value) :: w.stored
  else w.stored

def step (me : Fin n) (w : Learning) (label : LearnLabel) : Option Learning :=
  some ⟨(w.server.learn me label.request label.committed).1, w.note label⟩

/-- The value of every decided slot has been stored. -/
def Applied (w : Learning) : Prop :=
  ∀ seq value, w.server.decidedValue seq = some value → (seq, value) ∈ w.stored

/-- Only decided values are stored. -/
def Backed (w : Learning) : Prop :=
  ∀ seq value, (seq, value) ∈ w.stored → w.server.decidedValue seq = some value

/-- A Learn that decides its slot can be applied. -/
def Applicable (w : Learning) (label : LearnLabel) : Prop :=
  w.Decides label.request → Storable w.server.paxosDb label.request.value label.committed

instance (w : Learning) : DecidablePred w.Applicable :=
  fun _ => inferInstanceAs (Decidable (_ → _))

theorem note_eq (w : Learning) (label : LearnLabel) : w.note label =
    if w.Decides label.request ∧ Storable w.server.paxosDb label.request.value label.committed then
      (label.request.seq, label.request.value) :: w.stored
    else w.stored := by
  have unapplied := @unapplied_iff w.server.paxosDb label.request.value label.committed
  unfold Unapplied at unapplied
  unfold note
  by_cases decides : w.Decides label.request
  · rw [if_pos decides]
    split
    next failure thrown =>
      rw [thrown] at unapplied
      rw [if_neg fun both => unapplied.mp trivial both.2]
    next key value parsed =>
      rw [parsed] at unapplied
      split
      next fails => rw [if_neg fun both => unapplied.mp fails both.2]
      next puts => rw [if_pos ⟨decides, not_not.mp fun fails => puts (unapplied.mpr fails)⟩]
  · rw [if_neg decides, if_neg fun both => decides both.1]

/-- What a Learn decides: the value of its request when the slot is open, and nothing else. -/
theorem learn_decidedValue_iff {w : Learning} {me : Fin n} {label : LearnLabel} {seq : Int} {value : String} :
    (w.server.learn me label.request label.committed).1.decidedValue seq = some value ↔
      w.server.decidedValue seq = some value ∨
        (w.Decides label.request ∧ seq = label.request.seq ∧ value = label.request.value) := by
  have settles := w.server.learn_settles me label.request label.committed
  constructor
  · intro after
    rcases settles.offered seq value after with before | ⟨rfl, rfl⟩
    · exact .inl before
    · by_cases decides : w.Decides label.request
      · exact .inr ⟨decides, rfl, rfl⟩
      · left
        cases w.server.learn_cases me label.request label.committed with
        | collected _ same => rwa [same] at after
        | settled _ decided same =>
            rw [same] at after
            have quiet := (PaxosImpl.quiet_addSlots w.server label.request.seq).trans
              (PaxosImpl.quiet_raiseHighestSlot (w.server.addSlots label.request.seq) label.request.seq)
            rwa [quiet.decidedValue] at after
        | decides above undecided => exact absurd ⟨above, undecided⟩ decides
  · rintro (before | ⟨decides, rfl, rfl⟩)
    · exact settles.kept seq value before
    · exact PaxosImpl.learn_decides_value decides.1 decides.2

theorem backed_step {me : Fin n} {w next : Learning} {label : LearnLabel} (backed : w.Backed)
    (taken : w.step me label = some next) : next.Backed := by
  cases taken
  intro seq value stored
  rw [note_eq] at stored
  rw [learn_decidedValue_iff]
  split at stored
  next both =>
    rcases List.mem_cons.mp stored with same | earlier
    · cases same
      exact .inr ⟨both.1, rfl, rfl⟩
    · exact .inl (backed seq value earlier)
  · exact .inl (backed seq value stored)

/-- One Learn keeps the decided slots stored exactly when it can be applied. -/
theorem applied_step {me : Fin n} {w next : Learning} {label : LearnLabel} (backed : w.Backed)
    (applied : w.Applied) (taken : w.step me label = some next) : next.Applied ↔ w.Applicable label := by
  cases taken
  constructor
  · intro all decides
    by_contra unstorable
    have stored := all label.request.seq label.request.value
      (learn_decidedValue_iff.mpr (.inr ⟨decides, rfl, rfl⟩))
    rw [note_eq, if_neg fun both => unstorable both.2] at stored
    have decided := backed _ _ stored
    rw [PaxosImpl.undecided_iff.mpr decides.2] at decided
    cases decided
  · intro applicable seq value after
    show (seq, value) ∈ w.note label
    rw [note_eq]
    rcases learn_decidedValue_iff.mp after with before | ⟨decides, rfl, rfl⟩
    · split
      · exact List.mem_cons_of_mem _ (applied seq value before)
      · exact applied seq value before
    · rw [if_pos ⟨decides, applicable decides⟩]
      exact List.mem_cons_self ..

end Learning

/-- A Learn of an open slot that cannot be applied leaves the slot open exactly when there is no such
Learn, and along every run of Learns the value of every decided slot has been stored exactly when every
Learn that decides its slot can be applied. -/
theorem applied_iff (me : Fin n) :
    (∀ (server : PaxosImpl) (request : DecideRequest) (committed : Bool),
      (server.slotAt request.seq).status ≠ .decided →
      ((Unapplied server.paxosDb request.value committed →
          server.LeavesOpen (server.learn me request committed).1 request.seq) ↔
        request.seq < server.lowestSlot ∨ Storable server.paxosDb request.value committed)) ∧
      ∀ (db : RocksDBWrapper) (labels : List LearnLabel) (final : Learning),
        run (Learning.step me) (Learning.initial n db) labels = some final →
        (EveryStep (Learning.step me) (fun _ _ next => next.Applied) (Learning.initial n db) labels ↔
          Guarded (Learning.step me) Learning.Applicable (Learning.initial n db) labels) := by
  refine ⟨fun server request committed => PaxosImpl.leavesOpen_iff, fun db labels final ran => ?_⟩
  refine everyStep_iff_guarded_of_invariant (fun w => w.Backed ∧ w.Applied) ?_ ?_ ?_ ran
  · intro w label next holds taken
    exact Learning.applied_step holds.1 holds.2 taken
  · intro w label next holds applicable taken
    exact ⟨Learning.backed_step holds.1 taken, (Learning.applied_step holds.1 holds.2 taken).mpr applicable⟩
  · refine ⟨fun seq value stored => ?_, fun seq value decided => ?_⟩
    · cases stored
    · cases decided

/-- A value without a separator, as the proposals of the source's own test have it. -/
theorem learn_unapplied : ¬ ∀ (n : Nat) (me : Fin n) (server : PaxosImpl) (request : DecideRequest)
    (committed : Bool), (server.slotAt request.seq).status ≠ .decided →
      Unapplied server.paxosDb request.value committed →
      server.LeavesOpen (server.learn me request committed).1 request.seq := by
  intro leaves
  have opened := leaves 1 0 (.initial 1) ⟨1, "Hello"⟩ true (by decide) (unapplied_iff.mpr (by decide))
  exact absurd opened.1 (by decide)

end Chubby.Paxos
