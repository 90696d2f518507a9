/-
This file proves for which paths a logged value keeps to its own key in the database.
-/

import Chubby.Paxos.ServerFacts
import Mathlib.Data.List.TakeWhile

namespace Chubby.Paxos

/-- The parser of the Paxos server gives back what the lock service has joined. -/
def Decodes (path mode : String) : Prop := getKeyValue (keyValue path mode) = .ok (path, mode)

/-- Learning the logged value of a path changes no other key of any server's database. -/
def LeavesOthers (path mode : String) : Prop :=
  ∀ (n : Nat) (me : Fin n) (server : PaxosImpl) (seq : Int) (committed : Bool) (other : String),
    other ≠ path → (server.learn me ⟨seq, keyValue path mode⟩ committed).1.paxosDb.get other =
      server.paxosDb.get other

theorem RocksDBWrapper.get_put_of_ne (db : RocksDBWrapper) {key other : String} (different : other ≠ key)
    (value : String) (committed : Bool) : (db.put key value committed).1.get other = db.get other := by
  unfold put
  split
  · rfl
  · split
    · rfl
    · simp [get, different]

/-- A Learn touches the database only by storing the pair that its value parses to. -/
theorem PaxosImpl.learn_paxosDb {n : Nat} (server : PaxosImpl) (me : Fin n) (request : DecideRequest)
    (committed : Bool) : (server.learn me request committed).1.paxosDb = server.paxosDb ∨
      ∃ key value, getKeyValue request.value = .ok (key, value) ∧
        (server.learn me request committed).1.paxosDb = (server.paxosDb.put key value committed).1 := by
  have added : ((server.addSlots request.seq).raiseHighestSlot request.seq).paxosDb = server.paxosDb := by
    unfold raiseHighestSlot
    split <;> rfl
  unfold learn
  split
  · exact .inl rfl
  · dsimp only
    split
    · split
      · exact .inl added
      next key value parsed =>
        right
        refine ⟨key, value, parsed, ?_⟩
        rw [← added]
        rfl
    · exact .inl added

/-- A path with a separator is cut at its first one. -/
theorem getKeyValue_separated {path : String} (separated : '#' ∈ path.toList) (mode : String) :
    ∃ key value, getKeyValue (keyValue path mode) = .ok (key, value) ∧ '#' ∉ key.toList := by
  have split : (keyValue path mode).toList = path.toList ++ '#' :: mode.toList := by
    simp [keyValue, String.toList_append]
  unfold getKeyValue
  rw [split]
  cases rest : (path.toList ++ '#' :: mode.toList).dropWhile (· ≠ '#') with
  | nil =>
      have all := List.dropWhile_eq_nil_iff.mp rest '#' (List.mem_append_left _ separated)
      simp at all
  | cons letter value =>
      refine ⟨_, _, rfl, fun member => ?_⟩
      rw [String.toList_ofList] at member
      have kept := List.mem_takeWhile_imp member
      simp at kept

/-- A text that parses is its key and its value around the first separator. -/
theorem getKeyValue_eq_ok {text key value : String} (parsed : getKeyValue text = .ok (key, value)) :
    '#' ∉ key.toList ∧ text.toList = key.toList ++ '#' :: value.toList := by
  unfold getKeyValue at parsed
  split at parsed
  · cases parsed
  next letter rest split =>
    cases parsed
    rw [String.toList_ofList, String.toList_ofList]
    have head := List.head?_dropWhile_not (· ≠ '#') text.toList
    rw [split] at head
    have separator : letter = '#' := by simpa using head
    constructor
    · intro member
      have kept := List.mem_takeWhile_imp member
      simp at kept
    · rw [separator] at split
      rw [← split]
      exact List.takeWhile_append_dropWhile.symm

/-- A logged value whose parsed value has no separator belongs to the parsed path. -/
theorem keyValue_of_plain {path mode key value : String}
    (parsed : getKeyValue (keyValue path mode) = .ok (key, value)) (plain : '#' ∉ value.toList) :
    path = key ∧ mode = value := by
  obtain ⟨apart, text⟩ := getKeyValue_eq_ok parsed
  have joined : (keyValue path mode).toList = path.toList ++ '#' :: mode.toList := by
    simp [keyValue, String.toList_append]
  rw [joined] at text
  obtain ⟨sameKey, _, sameValue⟩ := (List.append_cons_inj_of_notMem apart plain).mp text.symm
  exact ⟨String.toList_inj.mp sameKey.symm, String.toList_inj.mp sameValue.symm⟩

theorem decodes_iff {path mode : String} : Decodes path mode ↔ '#' ∉ path.toList := by
  constructor
  · intro decodes separated
    obtain ⟨key, value, parsed, plain⟩ := getKeyValue_separated separated mode
    rw [Decodes, parsed] at decodes
    cases decodes
    exact plain separated
  · intro plain
    exact getKeyValue_keyValue plain mode

theorem leavesOthers_iff {path mode : String} : LeavesOthers path mode ↔ '#' ∉ path.toList := by
  constructor
  · intro leaves separated
    obtain ⟨key, value, parsed, plain⟩ := getKeyValue_separated separated mode
    have different : key ≠ path := fun same => plain (same ▸ separated)
    -- a fresh server has no value for the cut path and stores one
    have kept := leaves 1 0 (.initial 1) 0 true key different
    have stored : ((PaxosImpl.initial 1).learn (0 : Fin 1) ⟨0, keyValue path mode⟩ true).1.paxosDb =
        (RocksDBWrapper.empty.put key value true).1 := by
      unfold PaxosImpl.learn
      simp [parsed, PaxosImpl.initial, PaxosImpl.addSlots, PaxosImpl.setSlot, PaxosImpl.slotAt,
        PaxosImpl.raiseHighestSlot, PaxosImpl.markDecided, initSlot]
    rw [stored, RocksDBWrapper.get_put _ rfl, if_pos rfl] at kept
    cases kept
  · intro plain n me server seq committed other different
    obtain same | ⟨key, value, parsed, stored⟩ :=
      server.learn_paxosDb me ⟨seq, keyValue path mode⟩ committed
    · rw [same]
    · have decodes := getKeyValue_keyValue plain mode
      rw [decodes] at parsed
      cases parsed
      rw [stored]
      exact RocksDBWrapper.get_put_of_ne _ different mode committed

/-- The encoding keeps a path apart from all others exactly when the path has no separator. -/
theorem independent_iff {path mode : String} :
    Decodes path mode ∧ LeavesOthers path mode ↔ '#' ∉ path.toList := by
  rw [decodes_iff, leavesOthers_iff, and_self]

/-- A server that has learned a lock on the path `a`. -/
def pathHeld : PaxosImpl :=
  ((PaxosImpl.initial 1).learn (⟨0, Nat.one_pos⟩ : Fin 1) ⟨1, keyValue "a" "EXCLUSIVE"⟩ true).1

/-- Learning a lock on the path `a#b` overwrites the value of the path `a`. -/
theorem separator_corrupts : getKeyValue (keyValue "a#b" "SHARED") = .ok ("a", "b#SHARED") ∧
    pathHeld.paxosDb.get "a" = some "EXCLUSIVE" ∧
    (pathHeld.learn (⟨0, Nat.one_pos⟩ : Fin 1) ⟨2, keyValue "a#b" "SHARED"⟩ true).1.paxosDb.get "a" =
      some "b#SHARED" ∧
    ¬ ∀ path mode : String, Decodes path mode ∧ LeavesOthers path mode := by
  refine ⟨by decide, by decide, by decide, fun independent => ?_⟩
  have plain := leavesOthers_iff.mp (independent "a#b" "SHARED").2
  exact plain (by decide)

end Chubby.Paxos
