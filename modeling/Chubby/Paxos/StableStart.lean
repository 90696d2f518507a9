/-
This file proves what the `Start` of a stable leader does to its slot and to the databases.
-/

import Chubby.Paxos.PrepareLoop
import Chubby.Paxos.ServerFacts
import Chubby.Paxos.StableGroup

namespace Chubby.Paxos

namespace PaxosImpl

/-- The fields that a stable leader keeps on every server of its group. -/
structure Settled (view : Nat) (server : PaxosImpl) : Prop where
  view : server.view = view
  lowestSlot : server.lowestSlot = 0
  done : ∀ done ∈ server.done, done = -1
  leaderDead : server.leaderDead = false
  isDead : server.isDead = false
  noElection : server.leaderElectionHappened = false
  opened : server.paxosDb.opened = true

/-- A settled server has worked on one slot, and neither on another one nor on its database. -/
structure Beside (view : Nat) (seq : Int) (before after : PaxosImpl) : Prop where
  settled : Settled view after
  paxosDb : after.paxosDb = before.paxosDb
  others : ∀ query, query ≠ seq → after.slotAt query = before.slotAt query

/-- Nothing has been accepted or decided in the slot. -/
structure Blank (seq : Int) (server : PaxosImpl) : Prop where
  undecided : (server.slotAt seq).status ≠ .decided
  unaccepted : (server.slotAt seq).vA = ""

variable {n view : Nat} {server after : PaxosImpl} {seq : Int} {value : String}

theorem Settled.latestDone (settled : Settled view server) (me : Fin n) : server.latestDone me = -1 := by
  unfold PaxosImpl.latestDone
  rw [List.getD_eq_getElem?_getD]
  rcases found : server.done[me.val]? with _ | done
  · rfl
  · exact settled.done done (List.mem_of_getElem? found)

theorem raiseView_self (server : PaxosImpl) : server.raiseView server.view = server :=
  if_neg (lt_irrefl _)

theorem Beside.refl (settled : Settled view server) : Beside view seq server server :=
  ⟨settled, rfl, fun _ _ => rfl⟩

theorem Beside.trans {first second third : PaxosImpl} (one : Beside view seq first second)
    (two : Beside view seq second third) : Beside view seq first third :=
  ⟨two.settled, two.paxosDb.trans one.paxosDb,
    fun query other => (two.others query other).trans (one.others query other)⟩

theorem Settled.setSlot (settled : Settled view server) (seq : Int) (slot : PaxosSlot) :
    Beside view seq server (server.setSlot seq slot) where
  settled := { settled with }
  paxosDb := rfl
  others query other := by rw [slotAt_setSlot, if_neg other]

theorem Settled.addSlots (settled : Settled view server) (seq : Int) :
    Beside view seq server (server.addSlots seq) :=
  settled.setSlot seq _

theorem Blank.addSlots (blank : Blank seq server) : Blank seq (server.addSlots seq) := by
  constructor <;> rw [slotAt_addSlots_self]
  · exact blank.undecided
  · exact blank.unaccepted

theorem Settled.raiseAccepted (settled : Settled view server) (other : Int) :
    Beside view seq server (server.raiseAccepted other) := by
  unfold PaxosImpl.raiseAccepted
  split
  · exact ⟨{ settled with }, rfl, fun _ _ => rfl⟩
  · exact .refl settled

theorem Settled.raiseHighestSlot (settled : Settled view server) (other : Int) :
    Beside view seq server (server.raiseHighestSlot other) := by
  unfold PaxosImpl.raiseHighestSlot
  split
  · exact ⟨{ settled with }, rfl, fun _ _ => rfl⟩
  · exact .refl settled

/-- `Prepare` leaves all else alone and reports nothing of a blank slot. -/
theorem Settled.prepare (settled : Settled view server) (me : Fin n) (blank : Blank seq server)
    (number : Int) : Beside view seq server (server.prepare me ⟨seq, number⟩).1 ∧
      Blank seq (server.prepare me ⟨seq, number⟩).1 ∧
      ∀ response, (server.prepare me ⟨seq, number⟩).2 = .ok response →
        response.nA = view ∧ response.vA = "" ∧ response.value = "" := by
  have silent : decidedText (server.slotAt seq) = "" := if_neg blank.undecided
  have added := settled.addSlots seq
  cases server.prepare_cases me ⟨seq, number⟩ with
  | collected _ same =>
      rw [same]
      exact ⟨.refl settled, blank, nofun⟩
  | promises _ _ same =>
      rw [same]
      refine ⟨added.trans (added.settled.setSlot seq _), ?_, ?_⟩
      · have kept := blank.addSlots
        constructor <;> rw [slotAt_setSlot_self]
        · exact kept.undecided
        · exact kept.unaccepted
      · rintro _ ⟨⟩
        exact ⟨settled.view, blank.unaccepted, silent⟩
  | rejects _ _ same =>
      rw [same]
      refine ⟨added, blank.addSlots, ?_⟩
      rintro _ ⟨⟩
      exact ⟨settled.view, blank.unaccepted, silent⟩

/-- A number above its promise is answered with OK. -/
theorem Settled.promised (settled : Settled view server) (me : Fin n) (blank : Blank seq server)
    (positive : 0 ≤ seq) {number : Int} (larger : (server.slotAt seq).nP < number) :
    ∃ response, (server.prepare me ⟨seq, number⟩).2 = .ok response ∧ response.status = .ok ∧
      response.nA = view ∧ response.vA = "" ∧ response.value = "" := by
  have silent := (settled.prepare me blank number).2.2
  cases server.prepare_cases me ⟨seq, number⟩ with
  | collected below _ =>
      rw [settled.lowestSlot] at below
      exact absurd below (Int.not_lt.mpr positive)
  | promises _ _ same =>
      rw [same] at silent ⊢
      exact ⟨_, rfl, rfl, silent _ rfl⟩
  | rejects _ smaller _ => exact absurd larger (Int.not_lt.mpr smaller)

/-- A server in the view of the request accepts it and reports nothing about an undecided slot. -/
theorem Settled.accept (settled : Settled view server) (me : Fin n) (positive : 0 ≤ seq)
    (undecided : (server.slotAt seq).status ≠ .decided) :
    server.accept me ⟨seq, view, value⟩ =
      (((server.addSlots seq).setSlot seq
        { server.slotAt seq with nA := view, vA := value }).raiseAccepted seq, .ok ⟨.ok, -1, "", view⟩) := by
  unfold PaxosImpl.accept
  have kept : ¬ seq < server.lowestSlot := by rw [settled.lowestSlot]; omega
  have same : (server.addSlots seq).raiseView view = server.addSlots seq := by
    rw [← settled.view]
    exact raiseView_self (server.addSlots seq)
  have text : decidedText { server.slotAt seq with nA := view } = "" := if_neg undecided
  rw [if_neg kept]
  dsimp only
  rw [slotAt_addSlots_self, settled.view, if_pos le_rfl, same, settled.latestDone, text]

/-- An accept leaves all else alone and decides nothing. -/
theorem Settled.accepted (settled : Settled view server) (me : Fin n) (value : String)
    (positive : 0 ≤ seq) (undecided : (server.slotAt seq).status ≠ .decided)
    (handled : after = (server.accept me ⟨seq, view, value⟩).1) :
    Beside view seq server after ∧ (after.slotAt seq).status ≠ .decided := by
  rw [settled.accept me positive undecided] at handled
  subst handled
  have written := (settled.addSlots seq).trans
    ((settled.addSlots seq).settled.setSlot seq { server.slotAt seq with nA := view, vA := value })
  constructor
  · exact written.trans (written.settled.raiseAccepted seq)
  · rw [raiseAccepted_slotAt, slotAt_setSlot_self]
    exact undecided

/-- Learning an undecided slot decides it, and applies the text when it is a pair. -/
theorem Settled.learned (settled : Settled view server) (me : Fin n) (positive : 0 ≤ seq)
    (undecided : (server.slotAt seq).status ≠ .decided)
    (handled : after = (server.learn me ⟨seq, value⟩ true).1) :
    Settled view after ∧ (after.slotAt seq).status = .decided ∧
      (∀ query, query ≠ seq → after.slotAt query = server.slotAt query) ∧
      ∀ query, after.paxosDb.get query = match getKeyValue value with
        | .error _ => server.paxosDb.get query
        | .ok (key, stored) => if query = key then some stored else server.paxosDb.get query := by
  have kept : ¬ seq < server.lowestSlot := by rw [settled.lowestSlot]; omega
  have added := settled.addSlots seq
  have touched := added.trans (added.settled.raiseHighestSlot seq)
  have base := touched.settled
  have others (query : Int) (other : query ≠ seq) :
      (((server.addSlots seq).raiseHighestSlot seq).markDecided seq value).slotAt query = server.slotAt query := by
    unfold markDecided
    rw [slotAt_setSlot, if_neg other]
    exact touched.others query other
  have decided : ((((server.addSlots seq).raiseHighestSlot seq).markDecided seq value).slotAt seq).status =
      .decided := by
    unfold markDecided
    rw [slotAt_setSlot_self]
  unfold PaxosImpl.learn at handled
  rw [if_neg kept] at handled
  dsimp only at handled
  rw [if_pos (by rw [touched_slotAt]; exact undecided)] at handled
  cases parsed : getKeyValue value with
  | error failure =>
      rw [parsed] at handled
      subst handled
      exact ⟨{ base with }, decided, others, fun query => congrArg (RocksDBWrapper.get · query) touched.paxosDb⟩
  | ok pair =>
      rw [parsed] at handled
      subst handled
      refine ⟨{ base with opened := (RocksDBWrapper.put_opened _ _ _ _).trans base.opened }, decided, others,
        fun query => ?_⟩
      apply (RocksDBWrapper.get_put _ base.opened pair.1 pair.2 query).trans
      show (if _ then _ else ((server.addSlots seq).raiseHighestSlot seq).paxosDb.get query) = _
      rw [touched.paxosDb]

end PaxosImpl

section PrepareLoop

variable {n view : Nat} {v : String} {locals : PrepareLocals} {outcome : Option PrepareResponse}

/-- The prepare loop of a group of several servers meets blank slots only: at most one reply counts for
its accepted number. -/
structure Silent (view : Nat) (v : String) (locals : PrepareLocals) : Prop where
  undecided : locals.isDecidedPrep = false
  kept : (locals.highestNa = -1 ∧ locals.highestVa = v ∧ ∀ number, locals.naCountMap number = 0) ∨
    (locals.highestNa = view ∧ locals.highestVa = "" ∧ locals.naCountMap view = 1)

theorem silent_initial (view : Nat) (v : String) (highestN : Int) : Silent view v (.initial v highestN) :=
  ⟨rfl, .inl ⟨rfl, rfl, fun _ => rfl⟩⟩

theorem Silent.noteMajority (silent : Silent view v locals) (groupSize : Nat) :
    Silent view v (locals.noteMajority groupSize) := by
  unfold PrepareLocals.noteMajority
  split
  · exact ⟨silent.undecided, silent.kept⟩
  · exact silent

theorem Silent.takeReply (silent : Silent view v locals) {response : PrepareResponse} (nA : response.nA = view)
    (vA : response.vA = "") : Silent view v (locals.takeReply id response) := by
  unfold PrepareLocals.takeReply
  split
  next above =>
    refine ⟨silent.undecided, .inr ⟨nA, vA, ?_⟩⟩
    obtain ⟨_, _, none_⟩ | ⟨early, _⟩ := silent.kept
    · show Function.update locals.naCountMap response.nA _ view = 1
      rw [nA, Function.update_self]
      exact congrArg (· + 1) (none_ _)
    · rw [nA, early] at above
      exact absurd above (lt_irrefl _)
  · exact ⟨silent.undecided, silent.kept⟩

theorem Silent.noteDecision (silent : Silent view v locals) (several : 1 < n) {response : PrepareResponse}
    (value : response.value = "") : Silent view v (locals.noteDecision n response) := by
  have few : ¬ locals.naCountMap locals.highestNa > n / 2 := by
    obtain ⟨_, _, none_⟩ | ⟨early, _, one⟩ := silent.kept
    · rw [none_]
      exact Nat.not_lt_zero _
    · rw [early, one]
      omega
  unfold PrepareLocals.noteDecision
  rw [if_neg (not_not_intro value), if_neg few]
  exact silent

theorem Silent.iterate (silent : Silent view v locals) (several : 1 < n)
    (blank : ∀ response, outcome = some response →
      response.nA = view ∧ response.vA = "" ∧ response.value = "") :
    Silent view v (locals.iterate id n outcome) := by
  unfold PrepareLocals.iterate
  split
  · exact silent.noteMajority n
  next response =>
    obtain ⟨nA, vA, value⟩ := blank response rfl
    split
    · exact ((silent.takeReply nA vA).noteDecision several value).noteMajority n
    · exact silent.noteMajority n

theorem Silent.below (silent : Silent view v locals) : ¬ locals.highestNa > view := by
  obtain ⟨early, _⟩ | ⟨early, _⟩ := silent.kept
  · rw [early]
    omega
  · rw [early]
    exact lt_irrefl _

/-- The round then accepts its own value. -/
theorem Silent.afterPrepare (silent : Silent view v locals) : afterPrepare v view locals = .accept v := by
  have text : (if locals.highestVa = "" then v else locals.highestVa) = v := by
    obtain ⟨_, same, _⟩ | ⟨_, empty, _⟩ := silent.kept
    · rw [same, ite_eq_right_iff]
      exact fun _ => rfl
    · exact if_pos empty
  unfold Paxos.afterPrepare
  rw [if_neg silent.below, silent.undecided, if_neg Bool.false_ne_true, text]

end PrepareLoop

namespace StableGroup

variable {n view : Nat} {g : StableGroup n} {seq : Int} {path mode v : String}

/-- Every server of the group is settled, and the caller leads the view. -/
structure Stable (view : Nat) (g : StableGroup n) : Prop where
  settled : ∀ i, (g.servers i).Settled view
  leads : leads g.me view

def get (g : StableGroup n) (path : String) : Option String := g.leader.paxosDb.get path

def decided (g : StableGroup n) (seq : Int) : Prop := (g.leader.slotAt seq).status = .decided

instance (g : StableGroup n) (seq : Int) : Decidable (g.decided seq) := inferInstanceAs (Decidable (_ = _))

/-- Every server of the group has the slot as a new one. -/
def Untouched (view : Nat) (g : StableGroup n) (seq : Int) : Prop :=
  ∀ i, (g.servers i).slotAt seq = initSlot view

/-- The slot takes a value: it is not below the lowest one, it is undecided, and a leader without peers
does not run a prepare phase for it, which takes the empty text for decided. -/
def Takes (g : StableGroup n) (seq : Int) : Prop :=
  g.leader.lowestSlot ≤ seq ∧ ¬ g.decided seq ∧ (1 < n ∨ g.leader.highestAcceptedSeq < seq)

instance (g : StableGroup n) (seq : Int) : Decidable (g.Takes seq) := inferInstanceAs (Decidable (_ ∧ _))

theorem stable_initial (m view : Nat) : Stable view (initial m view) where
  settled i :=
    { view := rfl, lowestSlot := rfl, leaderDead := rfl, isDead := rfl, noElection := rfl,
      opened := rfl, done := fun done member => List.eq_of_mem_replicate member }
  leads := by
    simp [leads, initial, Int.tmod_eq_emod_of_nonneg]

theorem Untouched.blank (untouched : g.Untouched view seq) (i : Fin n) : (g.servers i).Blank seq := by
  constructor <;> rw [untouched i]
  · exact ConsensusStatus.noConfusion
  · rfl

/-- All servers of a group have worked on one slot only. -/
structure Beside (view : Nat) (seq : Int) (g next : StableGroup n) : Prop where
  me : next.me = g.me
  servers : ∀ i, (g.servers i).Beside view seq (next.servers i)

theorem Beside.trans {first second third : StableGroup n} (one : Beside view seq first second)
    (two : Beside view seq second third) : Beside view seq first third :=
  ⟨two.me.trans one.me, fun i => (one.servers i).trans (two.servers i)⟩

theorem Beside.stable {next : StableGroup n} (beside : Beside view seq g next) (stable : Stable view g) :
    Stable view next :=
  ⟨fun i => (beside.servers i).settled, beside.me ▸ stable.leads⟩

theorem setServer_server (g : StableGroup n) (i j : Fin n) (server : PaxosImpl) :
    (g.setServer i server).servers j = if j = i then server else g.servers j :=
  Function.update_apply _ _ _ _

theorem Stable.setServer (stable : Stable view g) {i : Fin n} {server : PaxosImpl}
    (beside : (g.servers i).Beside view seq server) : Beside view seq g (g.setServer i server) := by
  refine ⟨rfl, fun j => ?_⟩
  rw [setServer_server]
  split
  next same =>
    rw [same]
    exact beside
  · exact .refl (stable.settled j)

theorem blank_setServer {i : Fin n} {server : PaxosImpl} (blank : ∀ j, (g.servers j).Blank seq)
    (here : server.Blank seq) (j : Fin n) : ((g.setServer i server).servers j).Blank seq := by
  rw [setServer_server]
  split
  · exact here
  · exact blank j

/-- One call of the prepare loop, with the number that its reply raises. -/
theorem Stable.prepareCall (stable : Stable view g) (blank : ∀ i, (g.servers i).Blank seq) (peer : Fin n)
    (number highestN : Int) :
    let called := g.setServer peer ((g.servers peer).prepare peer ⟨seq, number⟩).1
    let raised := called.setServer g.me
      (called.leader.setSlot seq { called.leader.slotAt seq with highestN })
    Beside view seq g raised ∧ ∀ i, (raised.servers i).Blank seq := by
  intro called raised
  obtain ⟨beside, kept, _⟩ := (stable.settled peer).prepare peer (blank peer) number
  have first : Beside view seq g called := stable.setServer beside
  have blank' : ∀ i, (called.servers i).Blank seq := blank_setServer blank kept
  have second : Beside view seq called raised :=
    (first.stable stable).setServer (((first.stable stable).settled g.me).setSlot seq _)
  refine ⟨first.trans second, blank_setServer blank' ?_⟩
  constructor <;> rw [PaxosImpl.slotAt_setSlot_self]
  · exact (blank' g.me).undecided
  · exact (blank' g.me).unaccepted

/-- The prepare calls of several servers leave the slot blank and find nothing accepted. -/
theorem Stable.prepareCalls (stable : Stable view g) (several : 1 < n)
    (blank : ∀ i, (g.servers i).Blank seq) {locals : PrepareLocals} (silent : Silent view v locals)
    (number : Int) (peers : List (Fin n)) :
    Beside view seq g (prepareCalls seq number g locals peers).1 ∧
      (∀ i, ((prepareCalls seq number g locals peers).1.servers i).Blank seq) ∧
      Silent view v (prepareCalls seq number g locals peers).2 := by
  induction peers generalizing g locals with
  | nil => exact ⟨⟨rfl, fun i => .refl (stable.settled i)⟩, blank, silent⟩
  | cons peer rest ih =>
      have reply := ((stable.settled peer).prepare peer (blank peer) number).2.2
      have next : Silent view v
          (locals.iterate id n ((g.servers peer).prepare peer ⟨seq, number⟩).2.toOption) := by
        apply silent.iterate several
        intro response answered
        apply reply response
        cases outcome : ((g.servers peer).prepare peer ⟨seq, number⟩).2 with
        | error failure =>
            rw [outcome] at answered
            cases answered
        | ok other =>
            rw [outcome] at answered
            cases answered
            rfl
      obtain ⟨beside, blank'⟩ := stable.prepareCall blank peer number
        (locals.iterate id n ((g.servers peer).prepare peer ⟨seq, number⟩).2.toOption).slotHighestN
      unfold StableGroup.prepareCalls
      dsimp only
      split
      · exact ⟨beside, blank', next⟩
      · obtain ⟨later, kept⟩ := ih (beside.stable stable) blank' next
        exact ⟨beside.trans later, kept⟩

/-- The group has decided the slot: every server has applied the text when it is a pair. -/
structure Decides (view : Nat) (seq : Int) (v : String) (g next : StableGroup n) : Prop where
  me : next.me = g.me
  settled : ∀ i, (next.servers i).Settled view
  decided : next.decided seq
  others : ∀ i query, query ≠ seq → (next.servers i).slotAt query = (g.servers i).slotAt query
  values : ∀ i query, (next.servers i).paxosDb.get query = match getKeyValue v with
    | .error _ => (g.servers i).paxosDb.get query
    | .ok (key, stored) => if query = key then some stored else (g.servers i).paxosDb.get query

theorem Beside.decides {middle next : StableGroup n} (beside : Beside view seq g middle)
    (decides : Decides view seq v middle next) : Decides view seq v g next where
  me := decides.me.trans beside.me
  settled := decides.settled
  decided := decides.decided
  others i query other := (decides.others i query other).trans ((beside.servers i).others query other)
  values i query := by
    rw [decides.values, (beside.servers i).paxosDb]

theorem Stable.learnCalls (stable : Stable view g) (positive : 0 ≤ seq)
    (undecided : ∀ i, ((g.servers i).slotAt seq).status ≠ .decided) :
    Decides view seq v g (g.learnCalls seq v) := by
  have learned (i : Fin n) := (stable.settled i).learned i positive (undecided i) (rfl :
    ((g.servers i).learn i ⟨seq, v⟩ true).1 = _)
  exact ⟨rfl, fun i => (learned i).1, (learned g.me).2.1, fun i => (learned i).2.2.1,
    fun i => (learned i).2.2.2⟩

/-- The accept calls for an undecided slot report no decision, so the learn calls follow. -/
theorem Stable.acceptCalls (stable : Stable view g) (positive : 0 ≤ seq)
    (undecided : ∀ i, ((g.servers i).slotAt seq).status ≠ .decided) {highestNa : Int}
    (below : ¬ highestNa > view) :
    ∃ next, g.acceptCalls seq view highestNa v = some next ∧ Decides view seq v g next := by
  have accepted (i : Fin n) := (stable.settled i).accepted i v positive (undecided i) rfl
  have beside : Beside view seq g
      { g with servers := fun i => ((g.servers i).accept i ⟨seq, view, v⟩).1 } :=
    ⟨rfl, fun i => (accepted i).1⟩
  have unreported : isDecidedAcc seq
      (List.ofFn fun i => ((g.servers i).accept i ⟨seq, view, v⟩).2.toOption) = false := by
    rw [isDecidedAcc, List.any_eq_false]
    intro outcome member
    obtain ⟨i, rfl⟩ := (List.mem_ofFn' _ _).mp member
    dsimp only
    rw [(stable.settled i).accept i positive (undecided i)]
    have early : ¬ seq ≤ -1 := by omega
    simp [Except.toOption, AcceptResponse.reportsDecision, early]
  unfold StableGroup.acceptCalls
  dsimp only
  rw [afterAccept, unreported, if_neg Bool.false_ne_true]
  dsimp only
  rw [if_neg below]
  exact ⟨_, rfl, beside.decides
    ((beside.stable stable).learnCalls positive fun i => (accepted i).2)⟩

/-- The leader has added the slot and raised its number. -/
theorem Stable.raised (stable : Stable view g) (untouched : g.Untouched view seq) (number : Int) :
    let raised := g.setServer g.me (g.leader.setSlot seq { g.leader.slotAt seq with n := number })
    Beside view seq g raised ∧ ∀ i, (raised.servers i).Blank seq := by
  refine ⟨stable.setServer ((stable.settled g.me).setSlot seq _),
    blank_setServer untouched.blank ?_⟩
  constructor <;> rw [PaxosImpl.slotAt_setSlot_self]
  · exact (untouched.blank g.me).undecided
  · exact (untouched.blank g.me).unaccepted

theorem Stable.going (stable : Stable view g) (untouched : g.Untouched view seq) :
    ¬ ((g.leader.slotAt seq).status = .decided ∨ g.leader.isDead = true) := by
  rintro (decided | dead)
  · exact (untouched.blank g.me).undecided decided
  · have alive : g.leader.isDead = false := (stable.settled g.me).isDead
    rw [alive] at dead
    cases dead

/-- The round of an untouched slot decides its own value, with or without a prepare phase. -/
theorem Stable.proposes (stable : Stable view g) (positive : 0 ≤ seq) (untouched : g.Untouched view seq)
    (takes : 1 < n ∨ g.leader.highestAcceptedSeq < seq) (v : String) :
    ∃ next, g.startOnNewSlot seq v view = some next ∧ Decides view seq v g next := by
  unfold startOnNewSlot
  dsimp only
  rw [if_neg (stable.going untouched)]
  split
  next seen =>
    have several : 1 < n := takes.resolve_right (Int.not_lt.mpr seen)
    obtain ⟨raised, blank⟩ := stable.raised untouched (nextNumber n (g.leader.slotAt seq))
    obtain ⟨prepared, blank', silent⟩ := (raised.stable stable).prepareCalls several blank
      (silent_initial view v (g.leader.slotAt seq).highestN) (nextNumber n (g.leader.slotAt seq))
      (List.finRange n)
    have beside := raised.trans prepared
    rw [silent.afterPrepare]
    obtain ⟨next, accepts, decides⟩ :=
      (beside.stable stable).acceptCalls positive (fun i => (blank' i).undecided) silent.below
    exact ⟨next, accepts, beside.decides decides⟩
  next unseen =>
    exact stable.acceptCalls positive (fun i => (untouched.blank i).undecided) (by omega)

theorem prepareCalls_single (g : StableGroup n) (seq number : Int) (locals : PrepareLocals) (peer : Fin n) :
    let called := g.setServer peer ((g.servers peer).prepare peer ⟨seq, number⟩).1
    let next := locals.iterate id n ((g.servers peer).prepare peer ⟨seq, number⟩).2.toOption
    StableGroup.prepareCalls seq number g locals [peer] = (called.setServer g.me
      (called.leader.setSlot seq { called.leader.slotAt seq with highestN := next.slotHighestN }), next) := by
  unfold StableGroup.prepareCalls
  dsimp only
  split <;> rfl

/-- The first number of a new slot is above its promise, so the prepare call of a leader without peers is
answered with OK, and the empty text is taken for decided. -/
theorem Stable.proposes_alone {g : StableGroup 1} (stable : Stable view g) (positive : 0 ≤ seq)
    (untouched : g.Untouched view seq) (seen : seq ≤ g.leader.highestAcceptedSeq) (v : String) :
    ∃ next, g.startOnNewSlot seq v view = some next ∧ Decides view seq "" g next := by
  have fresh : g.leader.slotAt seq = initSlot view := untouched g.me
  have number : nextNumber 1 (initSlot view) = view + 1 := by
    simp [nextNumber, raiseNumber, initSlot]
  unfold startOnNewSlot
  dsimp only
  rw [if_neg (stable.going untouched), if_pos seen, fresh, number]
  obtain ⟨raised, blank⟩ := stable.raised untouched (view + 1)
  rw [fresh] at raised blank
  have peers : List.finRange 1 = [g.me] := by
    rw [Subsingleton.elim g.me 0]
    rfl
  have promise : (((g.setServer g.me (g.leader.setSlot seq { initSlot view with n := view + 1 })).servers
      g.me).slotAt seq).nP = -1 := by
    rw [setServer_server, if_pos rfl, PaxosImpl.slotAt_setSlot_self]
    rfl
  obtain ⟨response, answered, ok, nA, vA, value⟩ :=
    ((raised.servers g.me).settled).promised g.me (blank g.me) positive
      (show _ < (view + 1 : Int) by rw [promise]; omega)
  have learns : Paxos.afterPrepare v view
      ((PrepareLocals.initial v (initSlot view).highestN).iterate id 1 (some response)) = .learn "" := by
    refine (afterPrepare_ok le_rfl ok (by rw [nA]; omega)).trans ?_
    rw [nA, if_neg (lt_irrefl _), if_pos value, vA]
  obtain ⟨prepared, blank'⟩ := (raised.stable stable).prepareCall blank g.me (view + 1)
    ((PrepareLocals.initial v (initSlot view).highestN).iterate id 1 (some response)).slotHighestN
  rw [peers, prepareCalls_single]
  dsimp only
  rw [answered]
  dsimp only [Except.toOption]
  rw [learns]
  have beside := raised.trans prepared
  exact ⟨_, rfl, beside.decides
    ((beside.stable stable).learnCalls positive fun i => (blank' i).undecided)⟩

/-- The slot is decided, or new on every server. -/
def Regular (view : Nat) (g : StableGroup n) (seq : Int) : Prop := g.decided seq ∨ g.Untouched view seq

theorem regular_initial (m view : Nat) (seq : Int) : (initial m view).Regular view seq := .inr fun _ => rfl

theorem Beside.regular {next : StableGroup n} {other : Int} (beside : Beside view seq g next)
    (different : other ≠ seq) (regular : g.Regular view other) : next.Regular view other := by
  refine regular.imp (fun decided => ?_) (fun untouched i => ?_)
  · unfold StableGroup.decided leader
    rw [beside.me, (beside.servers g.me).others other different]
    exact decided
  · rw [(beside.servers i).others other different]
    exact untouched i

theorem Decides.regular {next : StableGroup n} {other : Int} (decides : Decides view seq v g next)
    (regular : g.Regular view other) : next.Regular view other := by
  by_cases same : other = seq
  · rw [same]
    exact .inl decides.decided
  refine regular.imp (fun decided => ?_) (fun untouched i => ?_)
  · unfold StableGroup.decided leader
    rw [decides.me, decides.others g.me other same]
    exact decided
  · rw [decides.others i other same]
    exact untouched i

/-- `Start` has ended: its slot takes no further value, and its pair is in every database exactly when the
slot took it. -/
structure Ends (view : Nat) (seq : Int) (path mode : String) (g next : StableGroup n) : Prop where
  stable : Stable view next
  spent : ¬ next.Takes seq
  regular : ∀ other, g.Regular view other → next.Regular view other
  me : next.me = g.me
  values : ∀ i query, (next.servers i).paxosDb.get query =
    if query = path ∧ g.Takes seq then some mode else (g.servers i).paxosDb.get query

/-- A round that decides a pair for a slot that takes it, or another text for one that does not, is the
end of `Start`. -/
theorem Decides.ends {next : StableGroup n} (decides : Decides view seq v g next) (stable : Stable view g)
    (parsed : getKeyValue v = .ok (path, mode) ∧ g.Takes seq ∨
      (∃ failure, getKeyValue v = .error failure) ∧ ¬ g.Takes seq) :
    Ends view seq path mode g next where
  stable := ⟨decides.settled, decides.me ▸ stable.leads⟩
  spent taken := taken.2.1 decides.decided
  regular _ := decides.regular
  me := decides.me
  values i query := by
    rw [decides.values]
    obtain ⟨pair, takes⟩ | ⟨⟨failure, failed⟩, dropped⟩ := parsed
    · rw [pair]
      simp only [takes, and_true]
    · rw [failed, if_neg fun both => dropped both.2]

/-- The group after the leader has added the slot. -/
def added (g : StableGroup n) (seq : Int) : StableGroup n := g.setServer g.me (g.leader.addSlots seq)

theorem added_leader (g : StableGroup n) (seq : Int) : (g.added seq).leader = g.leader.addSlots seq :=
  Function.update_self _ _ _

theorem Stable.added (stable : Stable view g) (seq : Int) : Beside view seq g (g.added seq) :=
  stable.setServer ((stable.settled g.me).addSlots seq)

theorem added_decided (g : StableGroup n) (seq : Int) : (g.added seq).decided seq ↔ g.decided seq := by
  unfold StableGroup.decided
  rw [added_leader, PaxosImpl.status_addSlots]

theorem Stable.added_untouched (stable : Stable view g) (untouched : g.Untouched view seq) :
    (g.added seq).Untouched view seq := by
  intro i
  unfold StableGroup.added
  rw [setServer_server]
  split
  · have fresh : g.leader.slotAt seq = initSlot view := untouched g.me
    have here : g.leader.view = view := (stable.settled g.me).view
    rw [PaxosImpl.slotAt_addSlots_self, fresh, here]
    rfl
  · exact untouched i

theorem added_takes (g : StableGroup n) (seq : Int) : (g.added seq).Takes seq ↔ g.Takes seq := by
  unfold Takes
  rw [added_decided, added_leader]
  rfl

/-- A `Start` that only touches its slot stores nothing. -/
theorem Beside.ends {next : StableGroup n} (beside : Beside view seq g next) (stable : Stable view g)
    (dropped : ¬ g.Takes seq) (spent : ¬ next.Takes seq)
    (regular : g.Regular view seq → next.Regular view seq) : Ends view seq path mode g next where
  stable := beside.stable stable
  spent := spent
  regular other before := by
    by_cases same : other = seq
    · rw [same] at before ⊢
      exact regular before
    · exact beside.regular same before
  me := beside.me
  values i query := by rw [(beside.servers i).paxosDb, if_neg fun both => dropped both.2]

/-- `Start` on a regular slot ends, and stores its pair exactly when the slot takes it. -/
theorem Stable.start_effect (stable : Stable view g) (regular : g.Regular view seq)
    (plain : '#' ∉ path.toList) (mode : String) :
    ∃ next, g.start seq (keyValue path mode) = some next ∧ Ends view seq path mode g next := by
  have here : g.leader.Settled view := stable.settled g.me
  have touched := stable.added seq
  unfold start
  cases g.leader.start_cases g.me seq with
  | collected below same =>
      rw [same]
      have unchanged : g.setServer g.me g.leader = g := congrArg (StableGroup.mk · g.me)
        (Function.update_eq_self g.me g.servers)
      have dropped : ¬ g.Takes seq := fun takes => Int.not_lt.mpr takes.1 below
      refine ⟨_, rfl, ?_⟩
      rw [unchanged]
      exact Beside.ends ⟨rfl, fun i => .refl (stable.settled i)⟩ stable dropped dropped id
  | closed above settled same =>
      rw [same]
      have decided : g.decided seq := settled.resolve_right (by rw [here.isDead]; exact Bool.false_ne_true)
      have dropped : ¬ g.Takes seq := fun takes => takes.2.1 decided
      exact ⟨_, rfl, touched.ends stable dropped (mt (added_takes g seq).mp dropped)
        fun _ => .inl ((added_decided g seq).mpr decided)⟩
  | distrusts _ _ _ distrusted _ =>
      rw [here.leaderDead] at distrusted
      cases distrusted
  | forwards _ _ _ follows _ =>
      rw [here.view] at follows
      exact absurd stable.leads follows
  | proposes above undecided leader trusted same =>
      rw [same, here.view]
      have untouched := stable.added_untouched (regular.resolve_left undecided)
      have positive : 0 ≤ seq := by rw [here.lowestSlot] at above; exact above
      have ready := touched.stable stable
      by_cases takes : 1 < n ∨ g.leader.highestAcceptedSeq < seq
      · obtain ⟨next, started, decides⟩ := ready.proposes positive untouched
          (by rw [added_leader]; exact takes) (keyValue path mode)
        exact ⟨next, started, (touched.decides decides).ends stable
          (.inl ⟨getKeyValue_keyValue plain mode, above, undecided, takes⟩)⟩
      · obtain ⟨alone, seen⟩ := not_or.mp takes
        obtain rfl : n = 1 := by
          have member := g.me.isLt
          omega
        obtain ⟨next, started, decides⟩ := ready.proposes_alone positive untouched
          (by rw [added_leader]; exact Int.not_lt.mp seen) (keyValue path mode)
        exact ⟨next, started, (touched.decides decides).ends stable
          (.inr ⟨⟨_, rfl⟩, fun taken => takes taken.2.2⟩)⟩

end StableGroup

end Chubby.Paxos
