/-
This file proves when every prepare round sends a number that no other round of its slot has sent and
that exceeds the numbers of its rejections.
-/

import Chubby.Paxos.Numbers

namespace Chubby.Paxos

open Chubby.Library

variable {n : Nat}

/-- The round passes the first tests of `StartOnNewSlot`, and its slot is not above every slot that its
server knows to be accepted. -/
def Cluster.entersPrepare (c : Cluster n) (round : Round n) : Prop :=
  round.phase = .waiting ∧ ((c.servers round.server).slotAt round.seq).status ≠ .decided ∧
    (c.servers round.server).isDead = false ∧ round.seq ≤ (c.servers round.server).highestAcceptedSeq

instance (c : Cluster n) (round : Round n) : Decidable (c.entersPrepare round) :=
  inferInstanceAs (Decidable (_ ∧ _ ∧ _ ∧ _))

namespace Cluster

/-- The round that a label lets begin its prepare loop. -/
def begun (c : Cluster n) : Label n → Option (Round n)
  | .begin r => (c.rounds[r]?).filter fun round => decide (c.entersPrepare round)
  | _ => none

/-- The slot of a round on its server. -/
def slotOf (c : Cluster n) (round : Round n) : PaxosSlot := (c.servers round.server).slotAt round.seq

/-- The round that a label gives a Reject, with the number that the reply carries. -/
def rejection (c : Cluster n) : Label n → Option (Round n × Int)
  | .receive k =>
      match c.msgs[k]? with
      | some (.prepareReply r _ promise) =>
          if promise.response.status = .reject then
            (c.rounds[r]?).map fun round => (round, promise.response.highestN)
          else none
      | _ => none
  | _ => none

end Cluster

/-- The cluster with a history of its prepare rounds: their servers, slots and numbers, the number that
a slot had before the first of them, and the numbers of the Rejects that the last one received. -/
structure Numbered (n : Nat) where
  cluster : Cluster n
  sent : List (Fin n × Int × Int)
  base : Fin n → Int → Option Int
  rejects : Fin n → Int → List Int

namespace Numbered

def initial (n : Nat) : Numbered n := ⟨.initial n, [], fun _ _ => none, fun _ _ => []⟩

def note (s : Numbered n) (label : Label n) (cluster : Cluster n) : Numbered n :=
  match s.cluster.begun label with
  | some round =>
      { cluster
        sent := (round.server, round.seq, nextNumber n (s.cluster.slotOf round)) :: s.sent
        base := fun i seq => if i = round.server ∧ seq = round.seq then
          some ((s.base i seq).getD (s.cluster.slotOf round).n) else s.base i seq
        rejects := fun i seq => if i = round.server ∧ seq = round.seq then [] else s.rejects i seq }
  | none =>
      match s.cluster.rejection label with
      | some (round, highestN) => { s with
          cluster
          rejects := fun i seq => if i = round.server ∧ seq = round.seq then
            highestN :: s.rejects i seq else s.rejects i seq }
      | none => { s with cluster }

def step (s : Numbered n) (label : Label n) : Option (Numbered n) :=
  (s.cluster.step label).map (s.note label)

/-- A round that begins to prepare sends a number that no round of the slot has sent, and that exceeds
the numbers of the Rejects of its server's last round for the slot. -/
def FreshNumber (s : Numbered n) (label : Label n) (_ : Numbered n) : Prop :=
  ∀ round ∈ s.cluster.begun label,
    (∀ i, (i, round.seq, nextNumber n (s.cluster.slotOf round)) ∉ s.sent) ∧
    ∀ highestN ∈ s.rejects round.server round.seq, highestN < nextNumber n (s.cluster.slotOf round)

/-- The round finds the largest number that it has seen in place, its Rejects were below the next
number, and no server whose numbers meet its own has come as far as that. -/
def Unspent (s : Numbered n) (label : Label n) : Prop :=
  ∀ round ∈ s.cluster.begun label,
    (s.cluster.slotOf round).n ≤ (s.cluster.slotOf round).highestN ∧
    (∀ highestN ∈ s.rejects round.server round.seq, highestN < (s.cluster.slotOf round).n + n) ∧
    ∀ i, i ≠ round.server → ∀ base ∈ s.base i round.seq, base < (s.cluster.slotOf round).n + n →
      (s.cluster.slotOf round).n + n ≤ ((s.cluster.servers i).slotAt round.seq).n →
        ¬ (n : Int) ∣ (s.cluster.slotOf round).n + n - base

instance (s : Numbered n) (label : Label n) : Decidable (s.Unspent label) :=
  inferInstanceAs (Decidable (∀ round ∈ s.cluster.begun label, _ ∧ _ ∧ ∀ i, i ≠ round.server →
    ∀ base ∈ s.base i round.seq, _ → _ → ¬ _ ∣ _))

end Numbered

section Steps

variable {c c' : Cluster n} {label : Label n} {r : Nat} {round round' : Round n}
  {number highestN : Int} {outcomes : List (Option Promise)}

/-- Only the beginning of a round makes it prepare its slot. -/
theorem Event.begins_prepare (event : Event c label c') (before : c.rounds[r]? = some round)
    (waits : round.phase = .waiting) (after : c'.rounds[r]? = some round')
    (prepares : round'.phase = .preparing number highestN outcomes) : label = .begin r := by
  have kept (same : c'.rounds[r]? = c.rounds[r]?) : label = .begin r := by
    rw [same, before] at after
    cases after
    rw [waits] at prepares
    cases prepares
  have added {new : List (Round n)} (appended : c'.rounds = c.rounds ++ new) : label = .begin r := by
    refine kept ?_
    rw [appended, List.getElem?_append_left (List.getElem?_eq_some_iff.mp before).1]
  have moved {s : Nat} {old : Round n} {phase : RoundPhase n} (found : c.rounds[s]? = some old)
      (written : c'.rounds = c.rounds.set s { old with phase })
      (other : old.phase ≠ .waiting ∨
        ∀ number highestN outcomes, phase ≠ .preparing number highestN outcomes) :
      label = .begin r := by
    by_cases same : s = r
    · subst same
      rw [found] at before
      cases before
      rw [written, getElem?_set_self_of_some found] at after
      cases after
      obtain left | not_preparing := other
      · exact absurd waits left
      · exact absurd prepares (not_preparing _ _ _)
    · exact kept (by rw [written, List.getElem?_set_ne same])
  have spawned {i : Fin n} {seq : Int} {v : String} (same : c' = (c.setServer i
      ((c.servers i).start i seq).1).spawn i seq v ((c.servers i).start i seq).2) : label = .begin r := by
    rcases action : ((c.servers i).start i seq).2 with _ | view | _
    · exact kept (by rw [same, action]; rfl)
    · exact added (by rw [same, action]; rfl)
    · exact kept (by rw [same, action]; rfl)
  cases event with
  | @beginPrepare s old found waited free seen =>
      by_cases same : s = r
      · rw [same]
      · exact kept (List.getElem?_set_ne same)
  | start => exact spawned rfl
  | forwardHandled sent => exact spawned rfl
  | forwardProposes found action moved => exact added rfl
  | beginEnds found waited => exact moved found rfl (.inr (by simp))
  | skip found skips free => exact moved found rfl (.inr (by simp))
  | prepareOutcome found prepared continues received => exact moved found rfl (.inl (by simp [prepared]))
  | proposeForward found prepared asked => exact moved found rfl (.inr (by simp))
  | proposeAccept found prepared done chosen => exact moved found rfl (.inr (by simp))
  | proposeLearn found prepared chosen => exact moved found rfl (.inr (by simp))
  | acceptOutcome found accepts received => exact moved found rfl (.inr (by simp))
  | concludeEnds found accepts reported => exact moved found rfl (.inr (by simp))
  | concludeLearn found accepts unreported => exact moved found rfl (.inr (by simp))
  | finishLearn found learns => exact moved found rfl (.inr (by simp))
  | parentEnds found written parent forwarding => exact moved parent rfl (.inr (by simp))
  | electionEnds found asks asked => exact kept (congrArg (·[r]?) (endElection_rounds _ _ _ _ _))
  | _ => exact kept rfl

/-- A label that begins a prepare loop takes the slot's mutex and sends the next number. -/
theorem Cluster.begun_step (begins : c.begun label = some round) (taken : c.step label = some c') :
    ∃ r, label = .begin r ∧ c.rounds[r]? = some round ∧ round.phase = .waiting ∧
      c.slotFree round.server round.seq = true ∧ c' = c.enterPrepare r round := by
  cases label with
  | begin r =>
      obtain ⟨found, enters⟩ := Option.filter_eq_some_iff.mp begins
      obtain ⟨waits, undecided, alive, seen⟩ := of_decide_eq_true enters
      refine ⟨r, rfl, found, waits, ?_⟩
      simp only [Cluster.step, Cluster.begin, found, waits] at taken
      split at taken
      next free =>
        rw [if_neg (by simp [undecided, alive])] at taken
        split at taken
        · exact ⟨free, (Option.some.inj taken).symm⟩
        · cases taken
      · cases taken
  | _ => cases begins

/-- A round that a step leaves in its prepare loop, and that waited before, has begun by that step. -/
theorem Cluster.begun_of_prepares (taken : c.step label = some c') (before : c.rounds[r]? = some round)
    (waits : round.phase = .waiting) (after : c'.rounds[r]? = some round')
    (prepares : round'.phase = .preparing number highestN outcomes) : c.begun label = some round := by
  have named := (Cluster.step_event taken).begins_prepare before waits after prepares
  subst named
  refine Option.filter_eq_some_iff.mpr ⟨before, decide_eq_true ?_⟩
  simp only [Cluster.step, Cluster.begin, before, waits] at taken
  split at taken
  · split at taken
    · rw [← Option.some.inj taken, Cluster.setPhase_rounds, getElem?_set_self_of_some before] at after
      cases after
      cases prepares
    next opened =>
      split at taken
      · split at taken
        next seen =>
          obtain ⟨undecided, alive⟩ := not_or.mp opened
          exact ⟨waits, undecided, by simpa using alive, seen⟩
        · rw [← Option.some.inj taken] at after
          have there : (c.rounds.set r { round with phase := .accepting round.v fun _ => none })[r]? =
            some round' := after
          rw [getElem?_set_self_of_some before] at there
          cases there
          cases prepares
      · cases taken
  · cases taken

/-- Any other label keeps the numbers of every slot, or lets a round hear of a promise. -/
theorem Cluster.numbers_of_other (taken : c.step label = some c') (other : c.begun label = none)
    (j : Fin n) : PaxosImpl.KeepsNumbers (c.servers j) (c'.servers j) ∨
      ∃ (r : Nat) (round : Round n) (number highestN : Int) (outcomes : List (Option Promise)),
        c.rounds[r]? = some round ∧ (∃ earlier, round.phase = .preparing number highestN earlier) ∧
        round.server = j ∧ c' = c.prepareOutcome r round number highestN outcomes := by
  cases (Cluster.step_event taken).numbers j with
  | keeps kept => exact .inl kept
  | begins named found waits own free after =>
      subst after
      have begins := Cluster.begun_of_prepares taken found waits
        (getElem?_set_self_of_some found) rfl
      rw [other] at begins
      cases begins
  | hears found prepares own after => exact .inr ⟨_, _, _, _, _, found, ⟨_, prepares⟩, own, after⟩

end Steps

/-- A step that writes one slot of one server leaves the others. -/
theorem Cluster.slots_of_write {c c' : Cluster n} {j : Fin n} {seq : Int} {slot : PaxosSlot}
    (written : c'.servers = Function.update c.servers j ((c.servers j).setSlot seq slot))
    (i : Fin n) (query : Int) :
    (c'.servers i).slots query = (if i = j ∧ query = seq then some slot else (c.servers i).slots query) ∧
      (c'.servers i).slotAt query = if i = j ∧ query = seq then slot else (c.servers i).slotAt query := by
  rw [written]
  by_cases same : i = j
  · subst same
    rw [Function.update_self]
    constructor
    · by_cases own : query = seq
      · subst own
        rw [if_pos ⟨rfl, rfl⟩]
        exact Function.update_self ..
      · rw [if_neg fun both => own both.2]
        exact Function.update_of_ne own ..
    · rw [PaxosImpl.slotAt_setSlot]
      simp
  · rw [Function.update_of_ne same, if_neg fun both => same both.1, if_neg fun both => same both.1]
    exact ⟨rfl, rfl⟩

/-- A round that hears of a promise writes the largest number of its own slot. -/
theorem Cluster.slots_of_heard {c c' : Cluster n} {round : Round n} {number highestN : Int}
    {outcomes : List (Option Promise)}
    (after : c' = c.prepareOutcome r round number highestN outcomes) (i : Fin n) (query : Int) :
    (c'.servers i).slots query =
        (if i = round.server ∧ query = round.seq then some { c.slotOf round with
          highestN := (prepareLocals n round.v highestN outcomes).slotHighestN }
        else (c.servers i).slots query) ∧
      (c'.servers i).slotAt query =
        if i = round.server ∧ query = round.seq then { c.slotOf round with
          highestN := (prepareLocals n round.v highestN outcomes).slotHighestN }
        else (c.servers i).slotAt query :=
  Cluster.slots_of_write (by rw [after]; rfl) i query

/-- A step that begins no prepare loop keeps the number of every slot. -/
theorem Cluster.number_stays {c c' : Cluster n} {label : Label n} (taken : c.step label = some c')
    (other : c.begun label = none) {i : Fin n} {seq : Int} {slot : PaxosSlot}
    (there : (c.servers i).slots seq = some slot) :
    ∃ later, (c'.servers i).slots seq = some later ∧ later.n = slot.n := by
  obtain keeps | ⟨r, round, number, highestN, outcomes, _, _, own, after⟩ :=
    Cluster.numbers_of_other taken other i
  · obtain ⟨later, now, same, _⟩ := keeps.kept seq slot there
    exact ⟨later, now, same⟩
  · obtain ⟨written, _⟩ := Cluster.slots_of_heard after i seq
    by_cases named : i = round.server ∧ seq = round.seq
    · obtain ⟨rfl, rfl⟩ := named
      have here : c.slotOf round = slot := PaxosImpl.slotAt_of_some there
      refine ⟨_, written.trans (if_pos ⟨rfl, rfl⟩), ?_⟩
      dsimp only
      rw [here]
    · exact ⟨slot, written.trans ((if_neg named).trans there), rfl⟩

section Numbers

variable {slot : PaxosSlot}

/-- A slot whose largest number is its own moves on by the size of the group. -/
theorem nextNumber_of_eq (met : slot.n = slot.highestN) : nextNumber n slot = slot.n + n := by
  unfold nextNumber
  rw [← met, show (slot.n - slot.n + 1).toNat = 1 by omega]
  exact if_pos le_rfl

/-- A slot that has not met its own number stays where it is. -/
theorem nextNumber_of_lt (unmet : slot.highestN < slot.n) : nextNumber n slot = slot.n := by
  unfold nextNumber
  rw [show (slot.highestN - slot.n + 1).toNat = 0 by omega]
  rfl

end Numbers

namespace Numbered

variable {s next : Numbered n} {label : Label n}

/-- The history of a server and a slot in terms of the slot: no round has begun and the numbers agree,
or the rounds have sent every number from the first one up to that of the slot. -/
structure Counted (s : Numbered n) : Prop where
  reached : s.cluster.Reached
  unbegun : ∀ i seq, s.base i seq = none →
    ((s.cluster.servers i).slotAt seq).n = ((s.cluster.servers i).slotAt seq).highestN ∧
      ∀ number, (i, seq, number) ∉ s.sent
  begun : ∀ i seq base, s.base i seq = some base → ∃ slot, (s.cluster.servers i).slots seq = some slot ∧
    base < slot.n ∧ slot.highestN ≤ slot.n ∧ (n : Int) ∣ slot.n - base ∧
    ∀ number, (i, seq, number) ∈ s.sent ↔
      base < number ∧ number ≤ slot.n ∧ (n : Int) ∣ number - base
  preparing : ∀ (r : Nat) round number highestN outcomes, s.cluster.rounds[r]? = some round →
    round.phase = .preparing number highestN outcomes →
      s.base round.server round.seq ≠ none ∧ (s.cluster.slotOf round).n = number ∧ highestN ≤ number

theorem counted_initial (n : Nat) : Counted (initial n) where
  reached := .refl _ _
  unbegun i seq _ := ⟨rfl, fun number sent => by cases sent⟩
  begun i seq base known := by cases known
  preparing r round number highestN outcomes found := by cases found

/-- A number is new for a server exactly when its own numbers do not meet it or have not come so far. -/
theorem Counted.unsent_iff (counted : Counted s) (i : Fin n) (seq number : Int) :
    (i, seq, number) ∉ s.sent ↔ ∀ base ∈ s.base i seq, base < number →
      number ≤ ((s.cluster.servers i).slotAt seq).n → ¬ (n : Int) ∣ number - base := by
  cases known : s.base i seq with
  | none =>
      refine iff_of_true ((counted.unbegun i seq known).2 number) ?_
      intro base member
      cases member
  | some base =>
      obtain ⟨slot, found, _, _, _, sent⟩ := counted.begun i seq base known
      rw [sent, PaxosImpl.slotAt_of_some found]
      simp only [Option.mem_some_iff, forall_eq', not_and]

/-- A slot that has met its own number has not seen a larger one. -/
theorem Counted.agrees (counted : Counted s) {round : Round n}
    (met : (s.cluster.slotOf round).n ≤ (s.cluster.slotOf round).highestN) :
    (s.cluster.slotOf round).n = (s.cluster.slotOf round).highestN := by
  cases known : s.base round.server round.seq with
  | none => exact (counted.unbegun round.server round.seq known).1
  | some base =>
      obtain ⟨slot, found, _, bound, _, _⟩ := counted.begun round.server round.seq base known
      have here : s.cluster.slotOf round = slot := PaxosImpl.slotAt_of_some found
      rw [here] at met ⊢
      omega

/-- A round that begins sends a fresh number exactly when the next number is unspent. -/
theorem freshNumber_iff (counted : Counted s) : FreshNumber s label next ↔ s.Unspent label := by
  refine forall₂_congr fun round begins => ?_
  have positive : (0 : Int) < n := by
    have server := round.server.isLt
    omega
  simp only [counted.unsent_iff]
  by_cases met : (s.cluster.slotOf round).n ≤ (s.cluster.slotOf round).highestN
  · rw [nextNumber_of_eq (counted.agrees met), and_iff_right met, and_comm]
    refine and_congr_right fun _ => ⟨fun every i _ => every i, fun others i => ?_⟩
    by_cases own : i = round.server
    · subst own
      intro base _ _ reachedIt
      have same : ((s.cluster.servers round.server).slotAt round.seq).n = (s.cluster.slotOf round).n := rfl
      omega
    · exact others i own
  · refine iff_of_false ?_ fun unspent => met unspent.1
    rintro ⟨every, _⟩
    have unmet : (s.cluster.slotOf round).highestN < (s.cluster.slotOf round).n := not_le.mp met
    have own := every round.server
    rw [nextNumber_of_lt unmet] at own
    cases known : s.base round.server round.seq with
    | none =>
        have same := (counted.unbegun round.server round.seq known).1
        unfold Cluster.slotOf at unmet
        omega
    | some base =>
        obtain ⟨slot, found, above, _, meets, _⟩ := counted.begun round.server round.seq base known
        have here : (s.cluster.servers round.server).slotAt round.seq = slot :=
          PaxosImpl.slotAt_of_some found
        rw [show s.cluster.slotOf round = slot from here, here] at own
        exact own base known above le_rfl meets

/-- The numbers of a server up to the next one are the old ones and the next one. -/
theorem multiples_next {step base number current : Int} (positive : 0 < step)
    (meets : step ∣ current - base) (above : base ≤ current) :
    base < number ∧ number ≤ current + step ∧ step ∣ number - base ↔
      number = current + step ∨ (base < number ∧ number ≤ current ∧ step ∣ number - base) := by
  constructor
  · rintro ⟨after, before, multiple⟩
    by_cases late : number ≤ current
    · exact .inr ⟨after, late, multiple⟩
    · have rest : step ∣ number - current := by
        have difference := Int.dvd_sub multiple meets
        rwa [show number - base - (current - base) = number - current by omega] at difference
      have least := Int.le_of_dvd (by omega) rest
      exact .inl (by omega)
  · rintro (rfl | ⟨after, before, multiple⟩)
    · refine ⟨by omega, le_rfl, ?_⟩
      have sum := Int.dvd_add meets (Int.dvd_refl step)
      rwa [show current - base + step = current + step - base by omega] at sum
    · exact ⟨after, by omega, multiple⟩

/-- The next number of a slot continues the numbers of its server, or is their first. -/
theorem Counted.sends_next (counted : Counted s) (round : Round n) (number : Int) :
    (round.server, round.seq, number) ∈
        (round.server, round.seq, (s.cluster.slotOf round).n + n) :: s.sent ↔
      (s.base round.server round.seq).getD (s.cluster.slotOf round).n < number ∧
        number ≤ (s.cluster.slotOf round).n + n ∧
        (n : Int) ∣ number - (s.base round.server round.seq).getD (s.cluster.slotOf round).n := by
  have positive : (0 : Int) < n := by
    have server := round.server.isLt
    omega
  cases known : s.base round.server round.seq with
  | none =>
      have unsent := (counted.unbegun round.server round.seq known).2
      rw [Option.getD_none, multiples_next positive (by simp) le_rfl]
      simp only [List.mem_cons, Prod.mk.injEq, true_and, unsent, or_false]
      refine (or_iff_left ?_).symm
      omega
  | some first =>
      obtain ⟨slot, there, above, bound, meets, sent⟩ :=
        counted.begun round.server round.seq first known
      have here : s.cluster.slotOf round = slot := PaxosImpl.slotAt_of_some there
      rw [here, Option.getD_some, multiples_next positive meets (by omega), ← sent]
      simp

/-- The next number of a slot is a whole number of steps above the first one. -/
theorem Counted.next_meets (counted : Counted s) (round : Round n) :
    (s.base round.server round.seq).getD (s.cluster.slotOf round).n < (s.cluster.slotOf round).n + n ∧
      (n : Int) ∣ (s.cluster.slotOf round).n + n -
        (s.base round.server round.seq).getD (s.cluster.slotOf round).n := by
  have positive : (0 : Int) < n := by
    have server := round.server.isLt
    omega
  cases known : s.base round.server round.seq with
  | none =>
      rw [Option.getD_none]
      exact ⟨by omega, by simp⟩
  | some first =>
      obtain ⟨slot, there, above, _, meets, _⟩ := counted.begun round.server round.seq first known
      have here : s.cluster.slotOf round = slot := PaxosImpl.slotAt_of_some there
      have sum := Int.dvd_add meets (Int.dvd_refl (n : Int))
      rw [here, Option.getD_some]
      exact ⟨by omega, by rwa [show slot.n - first + n = slot.n + n - first by omega] at sum⟩

/-- A round that begins sends the next number of its server. -/
theorem Counted.begins {cluster : Cluster n} {round : Round n} (counted : Counted s)
    (allowed : s.Unspent label) (begun : s.cluster.begun label = some round)
    (taken : s.cluster.step label = some cluster) : Counted (s.note label cluster) := by
  obtain ⟨r, named, found, waits, free, after⟩ := Cluster.begun_step begun taken
  obtain ⟨met, _, _⟩ := allowed round begun
  have agree := counted.agrees met
  have number := @nextNumber_of_eq n _ agree
  have slots := Cluster.slots_of_write (show cluster.servers = Function.update s.cluster.servers
    round.server ((s.cluster.servers round.server).setSlot round.seq
      { s.cluster.slotOf round with n := nextNumber n (s.cluster.slotOf round) }) by rw [after]; rfl)
  unfold note
  rw [begun]
  refine ⟨counted.reached.step taken, fun i seq fresh => ?_, fun i seq base known => ?_, ?_⟩
  · dsimp only at fresh ⊢
    split at fresh
    · cases fresh
    next other =>
      obtain ⟨same, unsent⟩ := counted.unbegun i seq fresh
      refine ⟨by rw [(slots i seq).2, if_neg other]; exact same, fun number member => ?_⟩
      obtain own | earlier := List.mem_cons.mp member
      · rw [Prod.mk.injEq, Prod.mk.injEq] at own
        exact other ⟨own.1, own.2.1⟩
      · exact unsent number earlier
  · dsimp only at known ⊢
    split at known
    next own =>
      obtain ⟨rfl, rfl⟩ := own
      cases known
      obtain ⟨above, meets⟩ := counted.next_meets round
      refine ⟨_, (slots round.server round.seq).1.trans (if_pos ⟨rfl, rfl⟩), ?_⟩
      dsimp only
      rw [number, ← agree]
      exact ⟨above, by omega, meets, counted.sends_next round⟩
    next other =>
      obtain ⟨slot, there, above, bound, meets, sent⟩ := counted.begun i seq base known
      refine ⟨slot, (slots i seq).1.trans ((if_neg other).trans there), above, bound, meets,
        fun number => ?_⟩
      rw [← sent, List.mem_cons, or_iff_right]
      intro own
      rw [Prod.mk.injEq, Prod.mk.injEq] at own
      exact other ⟨own.1, own.2.1⟩
  · intro q other number' highestN outcomes there prepares
    have rounds : cluster.rounds = s.cluster.rounds.set r { round with
        phase :=
          .preparing (nextNumber n (s.cluster.slotOf round)) (s.cluster.slotOf round).highestN [] } := by
      rw [after]
      rfl
    dsimp only at there ⊢
    rw [rounds] at there
    obtain before | ⟨_, same⟩ := getElem?_set_cases there
    · -- a round that prepares holds its slot, so it is not the slot that was free
      have holds : other.holdsSlot = true := by
        unfold Round.holdsSlot
        rw [prepares]
      have different : ¬ (other.server = round.server ∧ other.seq = round.seq) := by
        rintro ⟨server, slot⟩
        rw [slotFree_not_holds free before server slot] at holds
        cases holds
      obtain ⟨known, here, bound⟩ := counted.preparing q other number' highestN outcomes before prepares
      refine ⟨by rw [if_neg different]; exact known, ?_, bound⟩
      unfold Cluster.slotOf
      rw [(slots other.server other.seq).2, if_neg different]
      exact here
    · subst same
      cases prepares
      refine ⟨by simp, ?_, by omega⟩
      unfold Cluster.slotOf
      rw [(slots round.server round.seq).2, if_pos ⟨rfl, rfl⟩]
      rfl

/-- Only the outcomes of its own loop change the largest number of a slot, and none exceeds the number
that the loop sends. -/
theorem Counted.hears {cluster : Cluster n} {r : Nat} {round : Round n} {number highestN : Int}
    {earlier outcomes : List (Option Promise)} (counted : Counted s) (reached : cluster.Reached)
    (found : s.cluster.rounds[r]? = some round) (prepares : round.phase = .preparing number highestN earlier)
    (after : cluster = s.cluster.prepareOutcome r round number highestN outcomes) :
    (prepareLocals n round.v highestN outcomes).slotHighestN ≤ number := by
  have there : cluster.rounds[r]? =
      some { round with phase := .preparing number highestN outcomes } := by
    rw [after]
    exact getElem?_set_self_of_some found
  refine prepareLoop_slotHighestN (fun response member ok => ?_)
    (counted.preparing r round number highestN earlier found prepares).2.2
  obtain ⟨outcome, among, shown⟩ := List.mem_map.mp member
  obtain ⟨promise, rfl, rfl⟩ := Option.map_eq_some_iff.mp shown
  obtain ⟨k, at_⟩ := List.getElem?_of_mem among
  obtain ⟨i, _, replied⟩ := (preparing_outcome reached there rfl).2 k promise at_
  exact prepareReply_number reached replied ok there rfl

section Others

variable {cluster : Cluster n} {r : Nat} {round : Round n} {number highestN : Int}
  {outcomes : List (Option Promise)}

/-- A slot for which no round has begun keeps its two numbers equal. -/
theorem Counted.unbegun_stays (counted : Counted s) (other : s.cluster.begun label = none)
    (taken : s.cluster.step label = some cluster) {i : Fin n} {seq : Int}
    (fresh : s.base i seq = none) :
    ((cluster.servers i).slotAt seq).n = ((cluster.servers i).slotAt seq).highestN := by
  have agree := (counted.unbegun i seq fresh).1
  obtain keeps | ⟨r, round, number, highestN, outcomes, found, ⟨earlier, prepares⟩, own, after⟩ :=
    Cluster.numbers_of_other taken other i
  · cases before : (s.cluster.servers i).slots seq with
    | none => exact keeps.fresh seq before
    | some slot =>
        obtain ⟨later, now, number, highestN⟩ := keeps.kept seq slot before
        rw [PaxosImpl.slotAt_of_some before] at agree
        rw [PaxosImpl.slotAt_of_some now, number, highestN, agree]
  · have different : ¬ (i = round.server ∧ seq = round.seq) := by
      rintro ⟨rfl, rfl⟩
      exact (counted.preparing r round number highestN earlier found prepares).1 fresh
    rw [(Cluster.slots_of_heard after i seq).2, if_neg different]
    exact agree

/-- A slot whose rounds have begun keeps its number, and sees no larger one. -/
theorem Counted.begun_stays (counted : Counted s) (other : s.cluster.begun label = none)
    (taken : s.cluster.step label = some cluster) {i : Fin n} {seq base : Int} {slot : PaxosSlot}
    (known : s.base i seq = some base) (there : (s.cluster.servers i).slots seq = some slot) :
    ∃ later, (cluster.servers i).slots seq = some later ∧ later.n = slot.n ∧ later.highestN ≤ later.n := by
  obtain ⟨slot', there', _, bound, _, _⟩ := counted.begun i seq base known
  rw [there] at there'
  cases there'
  obtain keeps | ⟨r, round, number, highestN, outcomes, found, ⟨earlier, prepares⟩, own, after⟩ :=
    Cluster.numbers_of_other taken other i
  · obtain ⟨later, now, same, highest⟩ := keeps.kept seq slot there
    exact ⟨later, now, same, by omega⟩
  · obtain ⟨written, _⟩ := Cluster.slots_of_heard after i seq
    by_cases named : i = round.server ∧ seq = round.seq
    · obtain ⟨rfl, rfl⟩ := named
      have here : s.cluster.slotOf round = slot := PaxosImpl.slotAt_of_some there
      obtain ⟨_, sends, _⟩ := counted.preparing r round number highestN earlier found prepares
      have least := counted.hears (counted.reached.step taken) found prepares after
      refine ⟨_, written.trans (if_pos ⟨rfl, rfl⟩), ?_⟩
      dsimp only
      rw [here] at sends ⊢
      exact ⟨rfl, by omega⟩
    · exact ⟨slot, written.trans ((if_neg named).trans there), rfl, bound⟩

/-- A round in its prepare loop was there before, and its slot has kept its number. -/
theorem Counted.preparing_stays (counted : Counted s) (other : s.cluster.begun label = none)
    (taken : s.cluster.step label = some cluster) (found : cluster.rounds[r]? = some round)
    (prepares : round.phase = .preparing number highestN outcomes) :
    s.base round.server round.seq ≠ none ∧ (cluster.slotOf round).n = number ∧ highestN ≤ number := by
  have settled {old : Round n} {earlier : List (Option Promise)} (server : round.server = old.server)
      (slot : round.seq = old.seq) (before : s.cluster.rounds[r]? = some old)
      (prepared : old.phase = .preparing number highestN earlier) :
      s.base round.server round.seq ≠ none ∧ (cluster.slotOf round).n = number ∧ highestN ≤ number := by
    obtain ⟨known, sends, bound⟩ := counted.preparing r old number highestN earlier before prepared
    rw [← server, ← slot] at known
    obtain ⟨base, begun⟩ := Option.ne_none_iff_exists'.mp known
    obtain ⟨first, there, _⟩ := counted.begun _ _ base begun
    obtain ⟨later, now, same⟩ := Cluster.number_stays taken other there
    refine ⟨known, ?_, bound⟩
    unfold Cluster.slotOf at sends ⊢
    rw [← server, ← slot, PaxosImpl.slotAt_of_some there] at sends
    rw [PaxosImpl.slotAt_of_some now, same, sends]
  obtain @⟨old, before, step, same⟩ | ⟨_, fresh⟩ := (Cluster.step_event taken).rounds found
  · have server : round.server = old.server := by rw [same]
    have slot : round.seq = old.seq := by rw [same]
    have now := prepares
    rw [now] at step
    generalize phase : RoundPhase.preparing number highestN outcomes = next at step
    cases step with
    | same => exact settled server slot before phase.symm
    | prepares waits free =>
        rw [Cluster.begun_of_prepares taken before waits found prepares] at other
        cases other
    | hears heard continues received =>
        cases phase
        exact settled server slot before heard
    | _ => cases phase
  · rw [fresh.waits] at prepares
    cases prepares

theorem Counted.others {rejects : Fin n → Int → List Int} (counted : Counted s)
    (other : s.cluster.begun label = none) (taken : s.cluster.step label = some cluster) :
    Counted ⟨cluster, s.sent, s.base, rejects⟩ where
  reached := counted.reached.step taken
  unbegun i seq fresh := ⟨counted.unbegun_stays other taken fresh, (counted.unbegun i seq fresh).2⟩
  begun i seq base known := by
    obtain ⟨slot, there, above, _, meets, sent⟩ := counted.begun i seq base known
    obtain ⟨later, now, same, bound⟩ := counted.begun_stays other taken known there
    exact ⟨later, now, by omega, bound, by rw [same]; exact meets,
      fun number => by rw [same]; exact sent number⟩
  preparing r round number highestN outcomes := counted.preparing_stays other taken

end Others

theorem Counted.step (counted : Counted s) (allowed : s.Unspent label)
    (taken : s.step label = some next) : Counted next := by
  obtain ⟨cluster, moved, rfl⟩ := Option.map_eq_some_iff.mp taken
  cases begins : s.cluster.begun label with
  | some round => exact counted.begins allowed begins moved
  | none =>
      unfold note
      rw [begins]
      dsimp only
      split
      · exact counted.others begins moved
      · exact counted.others begins moved

/-- In every run every prepare round sends a fresh number exactly when every round that begins finds its
next number unspent. -/
theorem freshNumbers_iff {labels : List (Label n)} {final : Numbered n}
    (ran : run step (initial n) labels = some final) :
    EveryStep step FreshNumber (initial n) labels ↔ Guarded step Unspent (initial n) labels := by
  refine everyStep_iff_guarded_of_invariant Counted ?_ ?_ (counted_initial n) ran
  · intro s label next counted _
    exact freshNumber_iff counted
  · intro s label next counted allowed taken
    exact counted.step allowed taken

/-- The round has no vote and no decision, and its caller starts the slot again. -/
def startAgain (leader other : Fin n) : List (Label n) :=
  [.propose 0, .acceptFails 0 leader, .acceptFails 0 other, .conclude 0, .finishLearn 0,
    .start leader 0 "x#SHARED"]

/-- The leader hears of both promises of its first round. -/
def promisedRound (leader : Fin n) : List (Label n) :=
  [.start leader 0 "x#SHARED", .begin 0, .deliver 0, .receive 1, .deliver 2, .receive 3]

/-- No call of the first round has an answer. -/
def silentRound (leader : Fin n) : List (Label n) :=
  [.start leader 0 "x#SHARED", .begin 0, .prepareFails 0, .prepareFails 0]

theorem freshNumbers_iff_promisedRound : ∃ final : Numbered 2,
    run step (initial 2) (promisedRound 0 ++ startAgain 0 1 ++ [.begin 1]) = some final ∧
    final.sent = [(0, 0, 4), (0, 0, 2)] ∧
    EveryStep step FreshNumber (initial 2) (promisedRound 0 ++ startAgain 0 1 ++ [.begin 1]) := by
  obtain ⟨final, ran, checked⟩ := (Option.any_eq_true _ _).mp (by decide +kernel :
    (run step (initial 2) (promisedRound 0 ++ startAgain 0 1 ++ [.begin 1])).any (fun final =>
      decide (final.sent = [(0, 0, 4), (0, 0, 2)])) = true)
  exact ⟨final, ran, of_decide_eq_true checked, (freshNumbers_iff ran).mpr (by decide +kernel)⟩

/-- The second round of the leader sends the number of its first one again. -/
theorem number_sent_again : ∃ s final : Numbered 2,
    run step (initial 2) (silentRound 0 ++ startAgain 0 1) = some s ∧ s.step (.begin 1) = some final ∧
    final.sent = [(0, 0, 2), (0, 0, 2)] ∧
    ¬ EveryStep step FreshNumber (initial 2) (silentRound 0 ++ startAgain 0 1 ++ [.begin 1]) := by
  obtain ⟨s, ran, checked⟩ := (Option.any_eq_true _ _).mp (by decide +kernel :
    (run step (initial 2) (silentRound 0 ++ startAgain 0 1)).any (fun s =>
      decide (∃ round ∈ s.cluster.begun (.begin 1), ∃ i,
        (i, round.seq, nextNumber 2 (s.cluster.slotOf round)) ∈ s.sent) &&
      (s.step (.begin 1)).any fun final => decide (final.sent = [(0, 0, 2), (0, 0, 2)])) = true)
  obtain ⟨before, after⟩ := Bool.and_eq_true_iff.mp checked
  obtain ⟨round, begins, i, known⟩ := of_decide_eq_true before
  obtain ⟨final, taken, sent⟩ := (Option.any_eq_true _ _).mp after
  refine ⟨s, final, ran, taken, of_decide_eq_true sent, fun every => ?_⟩
  exact (every.last ran taken round begins).1 i known

end Numbered

end Chubby.Paxos
