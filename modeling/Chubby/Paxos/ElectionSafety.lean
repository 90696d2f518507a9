/-
This file proves which views the servers campaign for and what a won election establishes.
-/

import Chubby.Paxos.Legitimacy
import Mathlib.Data.Int.ModEq

namespace Chubby.Paxos

open Chubby.Library

variable {n : Nat}

/-- Two integers of one residue class are a whole number of moduli apart. -/
theorem le_of_modEq {modulus first second : Int} (same : first ≡ second [ZMOD modulus])
    (near : first < second + modulus) : first ≤ second := by
  by_contra larger
  have apart := Int.le_of_dvd (by omega) same.symm.dvd
  omega

/-- The detector adds the distance to the next view that the server leads. -/
theorem PaxosImpl.detectLeaderFailure_target {server : PaxosImpl} {me : Fin n} {view offset : Int}
    (nonneg : 0 ≤ server.view) (election : (server.detectLeaderFailure me).2.2 = some (view, offset)) :
    view = server.view ∧ 0 < offset ∧ offset ≤ n ∧ view + offset ≡ me.val [ZMOD n] := by
  have positive : 0 < n := by have := me.isLt; omega
  have remainder : server.view.tmod n = server.view % n := Int.tmod_eq_emod_of_nonneg nonneg
  have lower : 0 ≤ server.view % n := Int.emod_nonneg _ (by omega)
  have upper : server.view % n < n := Int.emod_lt_of_pos _ (by omega)
  have divided : (n : Int) ∣ server.view - server.view % n := Int.dvd_self_sub_emod
  unfold detectLeaderFailure at election
  dsimp only at election
  rw [remainder] at election
  split at election
  · dsimp only at election
    split at election
    next below =>
      cases election
      refine ⟨rfl, by omega, by have := me.isLt; omega, ?_⟩
      apply Int.ModEq.symm
      apply (Int.modEq_iff_dvd).mpr
      rw [show server.view + ((me.val : Int) - server.view % n) - me.val =
        server.view - server.view % n by omega]
      exact divided
    · split at election
      next above =>
        cases election
        refine ⟨rfl, by omega, by omega, ?_⟩
        apply Int.ModEq.symm
        apply (Int.modEq_iff_dvd).mpr
        rw [show server.view + ((me.val : Int) + n - server.view % n) - me.val =
          server.view - server.view % n + n by omega]
        exact Int.dvd_add divided (dvd_refl _)
      · cases election
  · cases election

/-- A campaign that appears in a step is one that the detector of its server spawned. -/
theorem Event.campaign_spawned {c c' : Cluster n} {label : Label n} (event : Event c label c') {e : Nat}
    {campaign : Campaign n} (missing : c.campaigns[e]? = none)
    (after : c'.campaigns[e]? = some campaign) :
    ∃ view offset, ((c.servers campaign.server).detectLeaderFailure campaign.server).2.2 =
      some (view, offset) ∧ campaign.target = view + offset := by
  have length : c.campaigns.length ≤ e := List.getElem?_eq_none_iff.mp missing
  have inside : e < c'.campaigns.length := (List.getElem?_eq_some_iff.mp after).1
  cases event with
  | @detectCampaign i timers view offset election =>
      obtain before | ⟨_, same⟩ := getElem?_concat_cases after
      · rw [missing] at before
        cases before
      · rw [same]
        exact ⟨view, offset, election, rfl⟩
  | @electionEnds s attempt campaign outcomes found asks asked =>
      exfalso
      unfold Cluster.endElection at inside
      dsimp only at inside
      split at inside <;> simp [Cluster.electOutcome] at inside <;> omega
  | _ =>
      exfalso
      simp [Cluster.enterPrepare, Cluster.enterAccept, Cluster.enterLearn, Cluster.prepareOutcome,
        Cluster.electOutcome, Cluster.callBeat, Cluster.handled] at inside
      omega

/-- Every campaign is for a view that its server leads. -/
theorem campaign_residue {c : Cluster n} (reached : c.Reached) {e : Nat} {campaign : Campaign n}
    (found : c.campaigns[e]? = some campaign) :
    campaign.target ≡ campaign.server.val [ZMOD n] := by
  revert found
  revert campaign e
  refine @reachable_invariant _ _ _ _ c (fun c => ∀ {e : Nat} {campaign : Campaign n},
    c.campaigns[e]? = some campaign → campaign.target ≡ campaign.server.val [ZMOD n]) ?_ ?_ reached
  · intro e campaign found
    cases found
  · intro c label c' before known taken e campaign after
    have event := Cluster.step_event taken
    cases earlier : c.campaigns[e]? with
    | some old =>
        obtain ⟨phase, kept⟩ := event.campaigns_kept earlier
        rw [kept] at after
        have residue := known earlier
        cases after
        exact residue
    | none =>
        obtain ⟨view, offset, election, target⟩ := event.campaign_spawned earlier after
        rw [target]
        exact (PaxosImpl.detectLeaderFailure_target (view_nonneg before _) election).2.2.2

/-- The outcome of the call to the voter in this pass over the peers. -/
def Campaign.answer (campaign : Campaign n) (outcomes : List (Option ElectResponse)) (voter : Fin n) :
    Option ElectResponse := (outcomes[(electPeers campaign.server).idxOf voter]?).join

/-- The servers whose calls were answered with OK in this pass over the peers. -/
def Campaign.voters (campaign : Campaign n) (outcomes : List (Option ElectResponse)) : Finset (Fin n) :=
  Finset.univ.filter fun voter =>
    voter ≠ campaign.server ∧ (campaign.answer outcomes voter).any (·.status = .ok)

theorem Campaign.voters_answered {campaign : Campaign n} {outcomes : List (Option ElectResponse)}
    {voter : Fin n} (member : voter ∈ campaign.voters outcomes) :
    ∃ (k : Nat) (response : ElectResponse), (electPeers campaign.server)[k]? = some voter ∧
      outcomes[k]? = some (some response) ∧ campaign.answer outcomes voter = some response ∧
      response.status = .ok := by
  obtain ⟨_, other, answered⟩ := Finset.mem_filter.mp member
  obtain ⟨response, heard, ok⟩ := (Option.any_eq_true _ _).mp answered
  have peer : voter ∈ electPeers campaign.server := by simp [electPeers, other]
  refine ⟨(electPeers campaign.server).idxOf voter, response, ?_, ?_, heard, by simpa using ok⟩
  · rw [List.getElem?_eq_some_iff]
    exact ⟨List.idxOf_lt_length_iff.mpr peer, List.getElem_idxOf _⟩
  · exact Option.join_eq_some_iff.mp heard

/-- A pass in which more than half of the group votes, the candidate counted, has a majority. -/
theorem Campaign.voters_majority {campaign : Campaign n} {outcomes : List (Option ElectResponse)}
    (asked : outcomes.length = (electPeers campaign.server).length)
    (elected : n / 2 < (electTally outcomes).majorityCount + 1) :
    n < 2 * (insert campaign.server (campaign.voters outcomes)).card := by
  have distinct : (electPeers campaign.server).Nodup := (List.nodup_finRange n).filter _
  obtain ⟨counted, card, each⟩ := exists_answered distinct (le_of_eq asked)
    fun outcome => outcome.any (·.status = .ok)
  rw [← (electTally_counts outcomes).1] at card
  have within : counted ⊆ campaign.voters outcomes := by
    intro voter member
    obtain ⟨k, outcome, place, heard, ok⟩ := each voter member
    have other : voter ≠ campaign.server := by
      have peer := List.mem_of_getElem? place
      simp only [electPeers, List.mem_filter, decide_eq_true_eq] at peer
      exact peer.2
    obtain ⟨inside, here⟩ := List.getElem?_eq_some_iff.mp place
    have position : (electPeers campaign.server).idxOf voter = k := by
      rw [← here]
      exact distinct.idxOf_getElem k inside
    refine Finset.mem_filter.mpr ⟨Finset.mem_univ voter, other, ?_⟩
    unfold Campaign.answer
    rw [position, heard]
    exact ok
  have outside : campaign.server ∉ campaign.voters outcomes := by simp [Campaign.voters]
  have more := Finset.card_le_card within
  rw [Finset.card_insert_of_notMem outside]
  omega

theorem view_mono_of_reachable {c final : Cluster n} (later : Reachable Cluster.step c final) (i : Fin n) :
    (c.servers i).view ≤ (final.servers i).view :=
  @reachable_invariant _ _ _ _ final (fun state => (c.servers i).view ≤ (state.servers i).view)
    le_rfl (fun _ _ _ _ below taken => below.trans ((Cluster.step_event taken).servers i).view_mono) later

theorem accepted_mono_of_reachable {c final : Cluster n} (later : Reachable Cluster.step c final)
    (i : Fin n) : (c.servers i).highestAcceptedSeq ≤ (final.servers i).highestAcceptedSeq :=
  @reachable_invariant _ _ _ _ final
    (fun state => (c.servers i).highestAcceptedSeq ≤ (state.servers i).highestAcceptedSeq) le_rfl
    (fun _ _ _ _ below taken => below.trans ((Cluster.step_event taken).servers i).accepted_mono) later

/-- An answered vote of the pass was sent for the campaign's target in this pass. -/
theorem voter_replied {c : Cluster n} (reached : c.Reached) {e attempt : Nat} {campaign : Campaign n}
    {outcomes : List (Option ElectResponse)} (found : c.campaigns[e]? = some campaign)
    (asks : campaign.phase = .asking attempt outcomes) {voter : Fin n}
    (member : voter ∈ campaign.voters outcomes) :
    ∃ response, campaign.answer outcomes voter = some response ∧ response.status = .ok ∧
      .electReply e attempt voter ⟨campaign.target⟩ response ∈ c.msgs ∧
      some response ∈ outcomes := by
  obtain ⟨k, response, place, heard, answered, ok⟩ := Campaign.voters_answered member
  obtain ⟨peer, request, position, replied⟩ := asking_outcome reached found asks heard
  rw [place] at position
  cases position
  obtain ⟨same, again, target⟩ := electRequest_target reached (electReply_covers reached replied).1
  rw [found] at again
  cases again
  obtain ⟨view⟩ := request
  dsimp only at target
  subst target
  exact ⟨response, answered, ok, replied, List.mem_of_getElem? heard⟩

/-- The pass has ended the campaign in the success branch: a majority stays at the target or above,
and the winner stays at or above every number that its voters reported. -/
structure Secured (c c' : Cluster n) (e attempt : Nat) (campaign : Campaign n)
    (outcomes : List (Option ElectResponse)) : Prop where
  majority : n < 2 * (insert campaign.server (campaign.voters outcomes)).card
  voted : ∀ voter ∈ campaign.voters outcomes, ∃ response,
    campaign.answer outcomes voter = some response ∧ response.status = .ok ∧
    .electReply e attempt voter ⟨campaign.target⟩ response ∈ c.msgs
  reached : ∀ final, Reachable Cluster.step c' final →
    ∀ i ∈ insert campaign.server (campaign.voters outcomes), campaign.target ≤ (final.servers i).view
  covered : ∀ final, Reachable Cluster.step c' final → ∀ voter ∈ campaign.voters outcomes,
    ∀ response, campaign.answer outcomes voter = some response →
      response.highestSeq ≤ (final.servers campaign.server).highestAcceptedSeq

/-- What a step may do to the campaigns of the cluster. -/
structure ElectionSafe (c c' : Cluster n) : Prop where
  spawned : ∀ (e : Nat) (campaign : Campaign n), c.campaigns[e]? = none →
    c'.campaigns[e]? = some campaign →
    IsLeast {view : Int | (c.servers campaign.server).view < view ∧
      view ≡ campaign.server.val [ZMOD n]} campaign.target
  apart : ∀ (e f : Nat) (first second : Campaign n), c'.campaigns[e]? = some first →
    c'.campaigns[f]? = some second → first.target = second.target → first.server = second.server
  won : ∀ (e attempt : Nat) (campaign : Campaign n) (outcomes : List (Option ElectResponse)),
    c.campaigns[e]? = some campaign → campaign.phase = .asking attempt outcomes →
    c'.campaigns[e]? = some { campaign with phase := .won } →
    Secured c c' e attempt campaign outcomes

/-- A detector spawns a campaign for the smallest larger view that its server leads. -/
theorem spawned_least {c c' : Cluster n} {label : Label n} (reached : c.Reached)
    (event : Event c label c') {e : Nat} {campaign : Campaign n} (missing : c.campaigns[e]? = none)
    (after : c'.campaigns[e]? = some campaign) :
    IsLeast {view : Int | (c.servers campaign.server).view < view ∧
      view ≡ campaign.server.val [ZMOD n]} campaign.target := by
  obtain ⟨view, offset, election, target⟩ := event.campaign_spawned missing after
  obtain ⟨here, positive, near, residue⟩ :=
    PaxosImpl.detectLeaderFailure_target (view_nonneg reached _) election
  rw [target]
  constructor
  · exact ⟨by omega, residue⟩
  · rintro other ⟨larger, congruent⟩
    exact le_of_modEq (residue.trans congruent.symm) (by omega)

/-- Two campaigns for one view belong to one server. -/
theorem campaigns_apart {c : Cluster n} (reached : c.Reached) {e f : Nat} {first second : Campaign n}
    (one : c.campaigns[e]? = some first) (two : c.campaigns[f]? = some second)
    (same : first.target = second.target) : first.server = second.server := by
  have residues : (first.server.val : Int) ≡ second.server.val [ZMOD n] :=
    (campaign_residue reached one).symm.trans (same ▸ campaign_residue reached two)
  apply Fin.ext
  have inside := first.server.isLt
  have within := second.server.isLt
  have one := le_of_modEq residues (by omega)
  have two := le_of_modEq residues.symm (by omega)
  omega

/-- A pass that ends in the success branch has secured its target. -/
theorem won_secures {c c' : Cluster n} {label : Label n} (reached : c.Reached)
    (event : Event c label c') {e attempt : Nat} {campaign : Campaign n}
    {outcomes : List (Option ElectResponse)} (found : c.campaigns[e]? = some campaign)
    (asks : campaign.phase = .asking attempt outcomes)
    (after : c'.campaigns[e]? = some { campaign with phase := .won }) :
    Secured c c' e attempt campaign outcomes := by
  cases event.campaigns after with
  | old again =>
      rw [found] at again
      injection again with same
      rw [same] at asks
      cases asks
  | new missing => rw [found] at missing; cases missing
  | hears _ _ _ same => injection same with _ _ other; cases other
  | unwon _ _ _ ending => obtain lost | ⟨_, retry⟩ := ending <;> contradiction
  | wins again heard asked won moved =>
      rw [found] at again
      cases again
      rw [asks] at heard
      cases heard
      obtain ⟨_, elected, larger, outcome⟩ := concludeElection_won won
      have winner : (c'.servers campaign.server).view = campaign.target := by rw [moved, outcome]; rfl
      refine ⟨Campaign.voters_majority asked elected, ?_, ?_, ?_⟩
      · intro voter member
        obtain ⟨response, answered, ok, replied, _⟩ := voter_replied reached found asks member
        exact ⟨response, answered, ok, replied⟩
      · intro final later i member
        obtain rfl | voter := Finset.mem_insert.mp member
        · exact (le_of_eq winner.symm).trans (view_mono_of_reachable later _)
        · obtain ⟨response, _, ok, replied, _⟩ := voter_replied reached found asks voter
          have covers := ((electReply_covers reached replied).2 ok).step event
          exact covers.1.trans (view_mono_of_reachable later i)
      · intro final later voter member response answered
        obtain ⟨other, again, ok, _, heard⟩ := voter_replied reached found asks member
        rw [answered] at again
        cases again
        have counted := (electTally_counts outcomes).2 response heard ok
        have merged : (c'.servers campaign.server).highestAcceptedSeq =
            max (c.servers campaign.server).highestAcceptedSeq
              (electTally outcomes).maxHighestAcceptedSeq := by rw [moved, outcome]
        have kept := accepted_mono_of_reachable later campaign.server
        omega

/-- Every step of every run is safe for the elections. -/
theorem elections_safe {c c' : Cluster n} {label : Label n} (reached : c.Reached)
    (taken : c.step label = some c') : ElectionSafe c c' where
  spawned _ _ missing after := spawned_least reached (Cluster.step_event taken) missing after
  apart _ _ _ _ one two same := campaigns_apart (reached.step taken) one two same
  won _ _ _ _ found asks after := won_secures reached (Cluster.step_event taken) found asks after

/-- The last step of the run in which server 1 wins view 1 with the vote of server 0. -/
theorem elections_safe_wonElection : ∃ c c' : Cluster 3, c.step (.concludeElection 0) = some c' ∧
    c'.campaigns.any (·.phase = .won) ∧ ElectionSafe c c' := by
  obtain ⟨c, ran, checked⟩ := (Option.any_eq_true _ _).mp (by decide +kernel :
    (run Cluster.step (Cluster.initial 3) (wonElection.take 7)).any (fun c =>
      (c.step (.concludeElection 0)).any fun c' => c'.campaigns.any (·.phase = .won)) = true)
  obtain ⟨c', taken, won⟩ := (Option.any_eq_true _ _).mp checked
  exact ⟨c, c', taken, won, elections_safe ⟨wonElection.take 7, ran⟩ taken⟩

end Chubby.Paxos
