/-
This file proves that two heartbeat passes of one leader give every server all slots that were decided.
-/

import Chubby.Paxos.Beats
import Chubby.Paxos.Calls
import Chubby.Paxos.Exchange

namespace Chubby.Paxos

open Chubby.Library

variable {n : Nat} {c c' : Cluster n} {label : Label n}

/-- What one step does to a heartbeat pass: it begins, stays where it is, loses a call or hears a peer. -/
inductive BeatMove (c : Cluster n) (label : Label n) (c' : Cluster n) (b : Nat) (beat' : Beat n) : Prop where
  | new (missing : c.beats[b]? = none) (first : beat'.next = 0)
      (built : (c.servers beat'.server).heartbeatSlots beat'.server = some beat'.slots)
  | stays {beat : Beat n} (found : c.beats[b]? = some beat) (server : beat'.server = beat.server)
      (slots : beat'.slots = beat.slots) (next : beat'.next = beat.next)
  | fails (named : label = .beatFails b)
  | hears {beat : Beat n} {i : Fin n} {response : HeartbeatResponse} (found : c.beats[b]? = some beat)
      (server : beat'.server = beat.server) (slots : beat'.slots = beat.slots)
      (current : beat.next = i.val) (next : beat'.next = beat.next + 1)
      (sent : .heartbeatReply b i response ∈ c.msgs)
      (copied : i ≠ beat.server →
        c'.servers beat.server = (c.servers beat.server).copyDecided response.slots)

theorem Cluster.step_beat (taken : c.step label = some c') {b : Nat} {beat' : Beat n}
    (after : c'.beats[b]? = some beat') : BeatMove c label c' b beat' := by
  have kept (before : c.beats[b]? = some beat') : BeatMove c label c' b beat' := .stays before rfl rfl rfl
  cases Cluster.step_event taken with
  | start | forwardHandled => exact kept (by simpa using after)
  | electionEnds =>
      apply kept
      rwa [endElection_beats] at after
  | beat added =>
      rcases added with rfl | ⟨slots, built, rfl⟩
      · exact kept after
      · rcases getElem?_concat_cases after with before | ⟨missing, rfl⟩
        · exact kept before
        · exact .new missing rfl built
  | sendBeat found waits next =>
      rcases getElem?_set_cases after with before | ⟨rfl, rfl⟩
      · exact kept before
      · exact .stays found rfl rfl rfl
  | beatFails found =>
      rcases getElem?_set_cases after with before | ⟨rfl, rfl⟩
      · exact kept before
      · exact .fails rfl
  | beatReceived sent found =>
      rcases getElem?_set_cases after with before | ⟨rfl, rfl⟩
      · exact kept before
      · refine .hears found rfl rfl ?_ rfl (List.mem_of_getElem? sent) fun other => ?_
        · simp only [Cluster.step, Cluster.receive, sent, found] at taken
          split at taken
          next current => exact current.2.1
          · cases taken
        · exact (Function.update_self ..).trans (if_neg other)
  | _ => exact kept after

/-- Every heartbeat message belongs to a pass that has begun. -/
def BeatsBegun (c : Cluster n) : Prop :=
  ∀ b, c.beats[b]? = none → (∀ i request, .heartbeatRequest b i request ∉ c.msgs) ∧
    ∀ i response, .heartbeatReply b i response ∉ c.msgs

theorem beatsBegun (reached : c.Reached) : BeatsBegun c := by
  refine @reachable_invariant _ _ _ _ c BeatsBegun ?_ ?_ reached
  · exact fun b _ => ⟨nofun, nofun⟩
  · intro c label c' _ begun taken b missing
    have event := Cluster.step_event taken
    have before : c.beats[b]? = none := by
      cases found : c.beats[b]? with
      | none => rfl
      | some beat =>
          obtain ⟨_, there, _⟩ := event.beat_kept found
          cases there.symm.trans missing
    obtain ⟨unasked, unanswered⟩ := begun b before
    refine ⟨fun i request sent => ?_, fun i response sent => ?_⟩
    · obtain old | ⟨beat, found, _⟩ := event.beat_sent sent
      · exact unasked i request old
      · cases found.symm.trans before
    · obtain old | ⟨request, asked, _⟩ := event.beat_answered sent
      · exact unanswered i response old
      · exact unasked i request asked

/-- The server has decided the slot. -/
def PaxosImpl.Decides (server : PaxosImpl) (seq : Int) : Prop := ∃ value, server.decidedValue seq = some value

theorem PaxosImpl.decides_iff {server : PaxosImpl} {seq : Int} :
    server.Decides seq ↔ (server.decidedValue seq).isSome = true := Option.isSome_iff_exists.symm

/-- The leader of a pass and the peer have the slots that the other had decided before the pass. -/
structure Synced (c₀ c : Cluster n) (leader peer : Fin n) : Prop where
  gathers : ∀ seq, (c₀.servers peer).Decides seq → (c.servers leader).Decides seq
  spreads : ∀ seq, (c₀.servers leader).Decides seq → (c.servers peer).Decides seq

/-- What a pass that begins after `c₀` and loses no call has brought together in `c`. -/
structure Gathering (c₀ : Cluster n) (b : Nat) (c : Cluster n) : Prop where
  kept : ∀ i seq, (c₀.servers i).Decides seq → (c.servers i).Decides seq
  carries : ∀ beat : Beat n, c.beats[b]? = some beat →
    (∀ seq, (c₀.servers beat.server).Decides seq → (beat.slots seq).isSome = true) ∧
      ∀ seq, (beat.slots seq).isSome = true → (c.servers beat.server).Decides seq
  heard : ∀ beat : Beat n, c.beats[b]? = some beat → ∀ i : Fin n, i.val < beat.next →
    Synced c₀ c beat.server i
  requests : ∀ beat : Beat n, c.beats[b]? = some beat → ∀ i request,
    .heartbeatRequest b i request ∈ c.msgs → request.slots = beat.slots ∧ request.id = (beat.server.val : Int)
  replies : ∀ beat : Beat n, c.beats[b]? = some beat → ∀ i response,
    .heartbeatReply b i response ∈ c.msgs → i ≠ beat.server →
      (∀ seq, (c₀.servers i).Decides seq →
        (response.slots seq).isSome = true ∨ (beat.slots seq).isSome = true) ∧
      ∀ seq, (c₀.servers beat.server).Decides seq → (c.servers i).Decides seq

theorem Event.decides_kept (event : Event c label c') {i : Fin n} {seq : Int}
    (decides : (c.servers i).Decides seq) : (c'.servers i).Decides seq := by
  obtain ⟨value, decided⟩ := decides
  exact ⟨value, event.decided_kept decided⟩

theorem gathering_start {b : Nat} (fresh : c.beats.length ≤ b) : Gathering c b c := by
  have missing : c.beats[b]? = none := List.getElem?_eq_none fresh
  refine ⟨fun _ _ decides => decides, ?_, ?_, ?_, ?_⟩
  all_goals
    intro beat found
    cases found.symm.trans missing

/-- A server that has copied the slots of a message has decided them. -/
theorem decides_copyDecided {server : PaxosImpl} {received : Int → Option PaxosSlot} {seq : Int}
    (carried : (received seq).isSome = true ∨ server.Decides seq) :
    (server.copyDecided received).Decides seq := by
  rw [PaxosImpl.decides_iff, PaxosImpl.copyDecided_extends]
  unfold extend
  rw [Option.isSome_or, Option.isSome_map, Bool.or_eq_true, ← PaxosImpl.decides_iff]
  exact carried.symm

/-- A peer that answers a request of the pass has its slots, and offers those that the pass lacks. -/
theorem Gathering.answers {c₀ : Cluster n} {b : Nat} (known : Gathering c₀ b c) {beat : Beat n}
    (found : c.beats[b]? = some beat) {i : Fin n} {request : HeartbeatRequest} {response : HeartbeatResponse}
    (asked : .heartbeatRequest b i request ∈ c.msgs)
    (replied : ((c.servers i).heartbeat i request).2 = .ok response) (other : i ≠ beat.server) :
    (∀ seq, (c₀.servers i).Decides seq →
      (response.slots seq).isSome = true ∨ (beat.slots seq).isSome = true) ∧
      ∀ seq, (c₀.servers beat.server).Decides seq →
        ((c.servers i).heartbeat i request).1.Decides seq := by
  obtain ⟨slots, sender⟩ := known.requests beat found i request asked
  have foreign : (i.val : Int) ≠ request.id := by
    rw [sender]
    exact fun same => other (Fin.ext (Int.ofNat.inj same))
  have current : (c.servers i).view ≤ request.view := by
    cases (c.servers i).heartbeat_cases i request with
    | own own _ => exact absurd own foreign
    | refused _ same =>
        rw [same] at replied
        cases replied
    | processed _ current _ => exact current
  have processed : request.processedBy i (c.servers i) := ⟨foreign, current⟩
  obtain ⟨follows, answer, answers, offered⟩ := PaxosImpl.heartbeat_exchanges processed fun _ => rfl
  cases answers.symm.trans replied
  rw [slots] at follows offered
  refine ⟨fun seq decided => ?_, fun seq decided => ?_⟩
  · have own := PaxosImpl.decides_iff.mp (known.kept i seq decided)
    have there := congrArg Option.isSome (congrFun offered seq)
    rw [Option.isSome_map] at there
    rw [there]
    unfold without
    rw [Option.isSome_map]
    split
    next carried => exact .inr carried
    · exact .inl own
  · rw [PaxosImpl.decides_iff, follows]
    unfold extend
    rw [Option.isSome_or, Option.isSome_map, (known.carries beat found).1 seq decided, Bool.or_true]

/-- A leader that copies the reply of a peer is in step with it. -/
theorem Gathering.hears {c₀ : Cluster n} {b : Nat} (known : Gathering c₀ b c) (event : Event c label c')
    {beat : Beat n} (found : c.beats[b]? = some beat) {i : Fin n} {response : HeartbeatResponse}
    (sent : .heartbeatReply b i response ∈ c.msgs)
    (copied : i ≠ beat.server → c'.servers beat.server = (c.servers beat.server).copyDecided response.slots) :
    Synced c₀ c' beat.server i := by
  by_cases same : i = beat.server
  · rw [same]
    have stays (seq : Int) (decided : (c₀.servers beat.server).Decides seq) :
        (c'.servers beat.server).Decides seq := event.decides_kept (known.kept _ seq decided)
    exact ⟨stays, stays⟩
  · obtain ⟨offers, follows⟩ := known.replies beat found i response sent same
    refine ⟨fun seq decided => ?_, fun seq decided => event.decides_kept (follows seq decided)⟩
    rw [copied same]
    exact decides_copyDecided ((offers seq decided).imp_right ((known.carries beat found).2 seq))

theorem Synced.step {c₀ : Cluster n} {leader peer : Fin n} (synced : Synced c₀ c leader peer)
    (event : Event c label c') : Synced c₀ c' leader peer :=
  ⟨fun seq decided => event.decides_kept (synced.gathers seq decided),
    fun seq decided => event.decides_kept (synced.spreads seq decided)⟩

theorem Gathering.step {c₀ : Cluster n} {b : Nat} (reached : c.Reached) (known : Gathering c₀ b c)
    (answered : label ≠ .beatFails b) (taken : c.step label = some c') : Gathering c₀ b c' := by
  have event := Cluster.step_event taken
  have previous {beat beat' : Beat n} (before : c.beats[b]? = some beat) (after : c'.beats[b]? = some beat') :
      beat'.server = beat.server ∧ beat'.slots = beat.slots := by
    obtain ⟨kept, there, same⟩ := event.beat_kept before
    cases after.symm.trans there
    exact same
  refine ⟨fun i seq decided => event.decides_kept (known.kept i seq decided), ?_, ?_, ?_, ?_⟩
  · intro beat' after
    have old {beat : Beat n} (found : c.beats[b]? = some beat) :
        (∀ seq, (c₀.servers beat'.server).Decides seq → (beat'.slots seq).isSome = true) ∧
          ∀ seq, (beat'.slots seq).isSome = true → (c'.servers beat'.server).Decides seq := by
      obtain ⟨server, slots⟩ := previous found after
      obtain ⟨carries, carried⟩ := known.carries beat found
      rw [server, slots]
      exact ⟨carries, fun seq there => event.decides_kept (carried seq there)⟩
    cases Cluster.step_beat taken after with
    | new missing first built =>
        have slots (seq : Int) : (beat'.slots seq).isSome = true ↔ (c.servers beat'.server).Decides seq := by
          rw [PaxosImpl.decides_iff, ← PaxosImpl.heartbeatSlots_map built, Option.isSome_map]
        exact ⟨fun seq decided => (slots seq).mpr (known.kept _ seq decided),
          fun seq there => event.decides_kept ((slots seq).mp there)⟩
    | stays found _ _ _ => exact old found
    | fails named => exact absurd named answered
    | hears found _ _ _ _ _ _ => exact old found
  · intro beat' after i below
    cases Cluster.step_beat taken after with
    | new missing first built =>
        rw [first] at below
        exact absurd below (Nat.not_lt_zero _)
    | stays found server slots next =>
        rw [next] at below
        rw [server]
        exact (known.heard _ found i below).step event
    | fails named => exact absurd named answered
    | @hears beat peer response found server slots current next sent copied =>
        rw [server]
        rw [next, current] at below
        obtain earlier | same := Nat.lt_succ_iff_lt_or_eq.mp below
        · rw [← current] at earlier
          exact (known.heard beat found i earlier).step event
        · rw [Fin.ext same]
          exact known.hears event found sent copied
  · intro beat' after i request sent
    obtain old | ⟨beat, found, slots, sender, _⟩ := event.beat_sent sent
    · cases found : c.beats[b]? with
      | none => exact absurd old ((beatsBegun reached b found).1 i request)
      | some beat =>
          obtain ⟨server, slots⟩ := previous found after
          rw [server, slots]
          exact known.requests beat found i request old
    · obtain ⟨server, slots'⟩ := previous found after
      rw [server, slots']
      exact ⟨slots, sender⟩
  · intro beat' after i response sent other
    obtain old | ⟨request, asked, replied, handled⟩ := event.beat_answered sent
    · cases found : c.beats[b]? with
      | none => exact absurd old ((beatsBegun reached b found).2 i response)
      | some beat =>
          obtain ⟨server, slots⟩ := previous found after
          rw [server] at other
          rw [server, slots]
          obtain ⟨offers, follows⟩ := known.replies beat found i response old other
          exact ⟨offers, fun seq decided => event.decides_kept (follows seq decided)⟩
    · cases found : c.beats[b]? with
      | none => exact absurd asked ((beatsBegun reached b found).1 i request)
      | some beat =>
          obtain ⟨server, slots⟩ := previous found after
          rw [server] at other
          rw [server, slots, handled]
          exact known.answers found asked replied other

/-- A pass that begins later and ends without a failed call puts its leader in step with every server. -/
theorem pass_synced (reached : c.Reached) {labels : List (Label n)} {final : Cluster n}
    (ran : run Cluster.step c labels = some final) {b : Nat} (fresh : c.beats.length ≤ b)
    (answered : .beatFails b ∉ labels) {beat : Beat n} (found : final.beats[b]? = some beat)
    (complete : beat.next = n) (i : Fin n) : Synced c final beat.server i := by
  have unfailed : ∀ label ∈ labels, label ≠ .beatFails b := by
    rintro label member rfl
    exact answered member
  have hears : Guarded Cluster.step (fun _ label => label ≠ .beatFails b) c labels :=
    guarded_of_forall unfailed c
  have gathering : final.Reached ∧ Gathering c b final := by
    refine @run_invariant _ _ _ _ (fun state => state.Reached ∧ Gathering c b state) ?_ _ _ _
      ⟨reached, gathering_start fresh⟩ hears ran
    rintro state label next ⟨reached, known⟩ hears taken
    exact ⟨reached.step taken, known.step reached hears taken⟩
  exact gathering.2.heard beat found i (by rw [complete]; exact i.isLt)

/-- A leader completes two heartbeat passes one after the other. -/
structure TwoPasses (c middle final : Cluster n) (first second : List (Label n)) (leader : Fin n) : Prop where
  gathers : ∃ (b : Nat) (beat : Beat n), c.beats.length ≤ b ∧ .beatFails b ∉ first ∧
    middle.beats[b]? = some beat ∧ beat.next = n ∧ beat.server = leader
  spreads : ∃ (b : Nat) (beat : Beat n), middle.beats.length ≤ b ∧ .beatFails b ∉ second ∧
    final.beats[b]? = some beat ∧ beat.next = n ∧ beat.server = leader

/-- Every slot that some server had decided is decided by all servers after two heartbeat passes of one
leader of which no call failed, whatever else the servers and the messages did in between. -/
theorem passes_sync {middle final : Cluster n} {first second : List (Label n)} {leader : Fin n}
    (reached : c.Reached) (gathered : run Cluster.step c first = some middle)
    (spread : run Cluster.step middle second = some final)
    (passes : TwoPasses c middle final first second leader) (i j : Fin n) {seq : Int}
    (decided : (c.servers i).Decides seq) : (final.servers j).Decides seq := by
  obtain ⟨a, beat, fresh, answered, found, complete, rfl⟩ := passes.gathers
  obtain ⟨b, later, fresh', answered', found', complete', same⟩ := passes.spreads
  have reached' : middle.Reached := by
    obtain ⟨labels, ran⟩ := reached
    exact ⟨labels ++ first, by rw [run_append, ran]; exact gathered⟩
  have one := pass_synced reached gathered fresh answered found complete i
  have two := pass_synced reached' spread fresh' answered' found' complete' j
  rw [same] at two
  exact two.spreads seq (one.gathers seq decided)

/-- Only the second server learns the slot of the first proposal. -/
def learnedOnce (leader second third : Fin 3) : List (Label 3) :=
  [.start leader 1 "x#SHARED", .begin 0, .acceptFails 0 leader, .acceptFails 0 second, .acceptFails 0 third,
    .conclude 0, .deliver 4]

def firstPass (leader : Fin 3) : List (Label 3) :=
  [.beat leader, .sendBeat 0, .deliver 6, .receive 7, .sendBeat 0, .deliver 8, .receive 9, .sendBeat 0,
    .deliver 10, .receive 11]

def secondPass (leader : Fin 3) : List (Label 3) :=
  [.beat leader, .sendBeat 1, .deliver 12, .receive 13, .sendBeat 1, .deliver 14, .receive 15, .sendBeat 1,
    .deliver 16, .receive 17]

theorem passes_sync_learnedOnce : ∃ c middle final : Cluster 3,
    run Cluster.step (Cluster.initial 3) (learnedOnce 0 1 2) = some c ∧
    run Cluster.step c (firstPass 0) = some middle ∧ run Cluster.step middle (secondPass 0) = some final ∧
    ¬ (c.servers 2).Decides 1 ∧ (c.servers 1).Decides 1 ∧ (final.servers 2).Decides 1 := by
  obtain ⟨c, ran, checked⟩ := (Option.any_eq_true _ _).mp (by decide +kernel :
    (run Cluster.step (Cluster.initial 3) (learnedOnce 0 1 2)).any (fun c =>
      decide ((c.servers 2).decidedValue 1 = none ∧ ((c.servers 1).decidedValue 1).isSome = true ∧
        c.beats.length = 0) && (run Cluster.step c (firstPass 0)).any fun middle =>
          decide (middle.beats.length = 1 ∧ (middle.beats[0]?.any fun beat => beat.next = 3 ∧ beat.server = 0)) &&
            (run Cluster.step middle (secondPass 0)).any fun final =>
              final.beats[1]?.any fun beat => beat.next = 3 ∧ beat.server = 0) = true)
  obtain ⟨before, rest⟩ := Bool.and_eq_true_iff.mp checked
  obtain ⟨missing, learned, unbeaten⟩ := of_decide_eq_true before
  obtain ⟨middle, gathered, rest⟩ := (Option.any_eq_true _ _).mp rest
  obtain ⟨one, rest⟩ := Bool.and_eq_true_iff.mp rest
  obtain ⟨single, one⟩ := of_decide_eq_true one
  obtain ⟨first, found, complete⟩ := (Option.any_eq_true _ _).mp one
  obtain ⟨final, spread, two⟩ := (Option.any_eq_true _ _).mp rest
  obtain ⟨second, found', complete'⟩ := (Option.any_eq_true _ _).mp two
  have passes : TwoPasses c middle final (firstPass 0) (secondPass 0) 0 :=
    ⟨⟨0, first, Nat.le_of_eq unbeaten, by decide, found, of_decide_eq_true complete⟩,
      ⟨1, second, Nat.le_of_eq single, by decide, found', of_decide_eq_true complete'⟩⟩
  have decided := PaxosImpl.decides_iff.mpr learned
  refine ⟨c, middle, final, ran, gathered, spread, ?_, decided, ?_⟩
  · rintro ⟨value, found⟩
    cases found.symm.trans missing
  · exact passes_sync ⟨learnedOnce 0 1 2, ran⟩ gathered spread passes 1 2 decided

end Chubby.Paxos
