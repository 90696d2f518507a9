/-
This file proves when a round may skip its prepare phase, from the votes that an election collects.
-/

import Chubby.Library.Ballots
import Chubby.Paxos.Threads

namespace Chubby.Paxos

open Chubby.Library

variable {n : Nat}

/-- Each OK vote of a campaign is counted once. -/
theorem electTally_counts (outcomes : List (Option ElectResponse)) :
    (electTally outcomes).majorityCount = outcomes.countP (fun outcome => outcome.any (·.status = .ok)) ∧
      ∀ response, some response ∈ outcomes → response.status = .ok →
        response.highestSeq ≤ (electTally outcomes).maxHighestAcceptedSeq := by
  -- the fold is generalized over the counters it starts from
  have folded (tally : ElectTally) :
      (outcomes.foldl ElectTally.count tally).majorityCount =
        tally.majorityCount + outcomes.countP (fun outcome => outcome.any (·.status = .ok)) ∧
      tally.maxHighestAcceptedSeq ≤ (outcomes.foldl ElectTally.count tally).maxHighestAcceptedSeq ∧
      ∀ response, some response ∈ outcomes → response.status = .ok →
        response.highestSeq ≤ (outcomes.foldl ElectTally.count tally).maxHighestAcceptedSeq := by
    induction outcomes generalizing tally with
    | nil => exact ⟨rfl, le_rfl, fun response member => by cases member⟩
    | cons outcome rest ih =>
        obtain ⟨count, above, each⟩ := ih (tally.count outcome)
        rw [List.foldl_cons, List.countP_cons]
        rcases outcome with _ | response
        · refine ⟨by rw [count]; rfl, above, fun response member => ?_⟩
          exact each response ((List.mem_cons.mp member).resolve_left (by simp))
        · rcases status : response.status with _ | _
          · have counted : tally.count (some response) = { tally with
                majorityCount := tally.majorityCount + 1
                maxHighestAcceptedSeq := max tally.maxHighestAcceptedSeq response.highestSeq } := by
              simp only [ElectTally.count, status]
            rw [counted] at count above each ⊢
            dsimp only at count above
            refine ⟨by rw [count]; simp [status]; omega, by omega, fun other member voted => ?_⟩
            rcases List.mem_cons.mp member with same | later
            · cases same
              omega
            · exact each other later voted
          · have counted : (tally.count (some response)).majorityCount = tally.majorityCount ∧
                (tally.count (some response)).maxHighestAcceptedSeq = tally.maxHighestAcceptedSeq := by
              simp only [ElectTally.count, status, and_self]
            rw [counted.1] at count
            rw [counted.2] at above
            refine ⟨by rw [count]; simp [status], above, fun other member voted => ?_⟩
            rcases List.mem_cons.mp member with same | later
            · cases same
              rw [status] at voted
              cases voted
            · exact each other later voted
  obtain ⟨count, _, each⟩ := folded ⟨0, 0, -1, -1⟩
  exact ⟨count.trans (Nat.zero_add _), each⟩

/-- An Elect request asks for the target of its campaign. -/
theorem electRequest_target {c : Cluster n} (reached : c.Reached) {e attempt : Nat} {i : Fin n}
    {request : ElectRequest} (member : .electRequest e attempt i request ∈ c.msgs) :
    ∃ campaign, c.campaigns[e]? = some campaign ∧ request.view = campaign.target := by
  revert member
  revert request i attempt e
  refine @reachable_invariant _ _ _ _ c (fun c => ∀ {e attempt : Nat} {i : Fin n}
    {request : ElectRequest}, .electRequest e attempt i request ∈ c.msgs →
    ∃ campaign, c.campaigns[e]? = some campaign ∧ request.view = campaign.target) ?_ ?_ reached
  · intro e attempt i request member
    cases member
  · intro c label c' _ known taken e attempt i request member
    have event := Cluster.step_event taken
    obtain ⟨new, added, fresh⟩ := event.msgs
    rw [added] at member
    rcases List.mem_append.mp member with before | sending
    · obtain ⟨campaign, found, target⟩ := known before
      obtain ⟨phase, after⟩ := event.campaigns_kept found
      exact ⟨_, after, target⟩
    · exact fresh _ sending

/-- A voter has reached the view of its vote, and the vote covers all that it accepted below. -/
def CoversBelow (c : Cluster n) (i : Fin n) (view highestSeq : Int) : Prop :=
  view ≤ (c.servers i).view ∧
    ∀ seq lower value, Voted c i seq lower value → lower < view → seq ≤ highestSeq

theorem CoversBelow.step {c c' : Cluster n} {label : Label n} (event : Event c label c') {i : Fin n}
    {view highestSeq : Int} (covers : CoversBelow c i view highestSeq) :
    CoversBelow c' i view highestSeq := by
  refine ⟨covers.1.trans (event.servers i).view_mono, ?_⟩
  intro seq lower value voted below
  rcases event.voted_cases voted with earlier | ⟨_, accepted⟩
  · exact covers.2 seq lower value earlier below
  · have allowed := accepted.allowed
    have passed := covers.1
    dsimp only at allowed
    omega

theorem CoversBelow.mono {c : Cluster n} {i : Fin n} {view first second : Int}
    (covers : CoversBelow c i view first) (more : first ≤ second) : CoversBelow c i view second :=
  ⟨covers.1, fun seq lower value voted below => (covers.2 seq lower value voted below).trans more⟩

/-- An OK vote covers what its voter accepted in smaller views. -/
theorem electReply_covers {c : Cluster n} (reached : c.Reached) {e attempt : Nat} {i : Fin n}
    {request : ElectRequest} {response : ElectResponse}
    (member : .electReply e attempt i request response ∈ c.msgs) :
    .electRequest e attempt i request ∈ c.msgs ∧
      (response.status = .ok → CoversBelow c i request.view response.highestSeq) := by
  revert member
  revert response request i attempt e
  refine @reachable_invariant _ _ _ _ c (fun c => ∀ {e attempt : Nat} {i : Fin n}
    {request : ElectRequest} {response : ElectResponse},
    .electReply e attempt i request response ∈ c.msgs → .electRequest e attempt i request ∈ c.msgs ∧
      (response.status = .ok → CoversBelow c i request.view response.highestSeq)) ?_ ?_ reached
  · intro e attempt i request response member
    cases member
  · intro c label c' before known taken e attempt i request response member
    have event := Cluster.step_event taken
    obtain ⟨new, added, fresh⟩ := event.msgs
    rw [added] at member
    rcases List.mem_append.mp member with earlier | sending
    · obtain ⟨asked, covers⟩ := known earlier
      exact ⟨event.sent asked, fun voted => (covers voted).step event⟩
    · obtain ⟨asked, same, moved⟩ := fresh _ sending
      refine ⟨event.sent asked, fun voted => ?_⟩
      rw [same] at voted ⊢
      obtain ⟨view, highestSeq⟩ := PaxosImpl.elect_ok voted
      refine ⟨by rw [moved, view], fun seq lower value accepted below => ?_⟩
      rw [highestSeq]
      rcases event.voted_cases accepted with old | ⟨_, again⟩
      · exact (Voted.bounded before old).2
      · have passed := again.view
        rw [moved, view] at passed
        dsimp only at passed
        omega

/-- Each outcome of a campaign is a vote of the peer in its place. -/
theorem asking_outcome {c : Cluster n} (reached : c.Reached) {e attempt : Nat} {campaign : Campaign n}
    {outcomes : List (Option ElectResponse)} (found : c.campaigns[e]? = some campaign)
    (asks : campaign.phase = .asking attempt outcomes) {k : Nat} {response : ElectResponse}
    (heard : outcomes[k]? = some (some response)) :
    ∃ i request, (electPeers campaign.server)[k]? = some i ∧
      .electReply e attempt i request response ∈ c.msgs := by
  revert heard asks found
  revert response k outcomes campaign attempt e
  refine @reachable_invariant _ _ _ _ c (fun c => ∀ {e attempt : Nat} {campaign : Campaign n}
    {outcomes : List (Option ElectResponse)} {k : Nat} {response : ElectResponse},
    c.campaigns[e]? = some campaign → campaign.phase = .asking attempt outcomes →
    outcomes[k]? = some (some response) → ∃ i request, (electPeers campaign.server)[k]? = some i ∧
      .electReply e attempt i request response ∈ c.msgs) ?_ ?_ reached
  · intro e attempt campaign outcomes k response found
    cases found
  · intro c label c' _ known taken e attempt campaign outcomes k response after asks heard
    have event := Cluster.step_event taken
    cases event.campaigns after with
    | old found =>
        obtain ⟨i, request, place, member⟩ := known found asks heard
        exact ⟨i, request, place, event.sent member⟩
    | new missing fresh =>
        rw [fresh] at asks
        cases asks
        cases heard
    | @hears old current earlier outcome found before received same =>
        rw [same] at asks ⊢
        cases asks
        rcases getElem?_concat_cases heard with first | ⟨missing, last⟩
        · obtain ⟨i, request, place, member⟩ := known found before first
          exact ⟨i, request, place, event.sent member⟩
        · obtain ⟨i, request, place, member⟩ := received response last.symm
          have short : k < (earlier ++ [outcome]).length := (List.getElem?_eq_some_iff.mp heard).1
          have long : earlier.length ≤ k := List.getElem?_eq_none_iff.mp missing
          rw [List.length_append, List.length_singleton] at short
          have position : k = earlier.length := by omega
          rw [position]
          exact ⟨i, request, place, event.sent member⟩
    | unwon found target server ending =>
        rcases ending with lost | ⟨next, retry⟩
        · rw [lost] at asks
          cases asks
        · rw [retry] at asks
          cases asks
          cases heard
    | wins found before asked won moved same =>
        rw [same] at asks
        cases asks

/-- The server has won the election of the view. -/
def Won (c : Cluster n) (i : Fin n) (view : Int) : Prop :=
  ∃ campaign ∈ c.campaigns, campaign.server = i ∧ campaign.target = view ∧ campaign.phase = .won

instance (c : Cluster n) (i : Fin n) (view : Int) : Decidable (Won c i view) :=
  inferInstanceAs (Decidable (∃ campaign ∈ c.campaigns, _))

/-- A majority has reached the view, and the server's accepted number covers it below the view. -/
def Merged (c : Cluster n) (i : Fin n) (view : Int) : Prop :=
  ∃ quorum : Finset (Fin n), Majority quorum ∧
    ∀ j ∈ quorum, CoversBelow c j view (c.servers i).highestAcceptedSeq

theorem Merged.step {c c' : Cluster n} {label : Label n} (event : Event c label c') {i : Fin n}
    {view : Int} (merged : Merged c i view) : Merged c' i view := by
  obtain ⟨quorum, large, each⟩ := merged
  refine ⟨quorum, large, fun j member => ?_⟩
  exact ((each j member).step event).mono (event.servers i).accepted_mono

/-- The voters of a winning campaign and the candidate itself are a majority, and each of them answered
a request of the campaign with OK. -/
theorem winning_voters {c : Cluster n} (reached : c.Reached) {e attempt : Nat} {campaign : Campaign n}
    {outcomes : List (Option ElectResponse)} (found : c.campaigns[e]? = some campaign)
    (asks : campaign.phase = .asking attempt outcomes)
    (asked : outcomes.length = (electPeers campaign.server).length)
    (won : (concludeElection n (c.servers campaign.server) campaign.target
      (electTally outcomes)).2 = .won) :
    ∃ voters : Finset (Fin n), Majority (insert campaign.server voters) ∧ ∀ j ∈ voters, ∃ response,
      .electReply e attempt j ⟨campaign.target⟩ response ∈ c.msgs ∧ response.status = .ok ∧
        response.highestSeq ≤ (electTally outcomes).maxHighestAcceptedSeq := by
  obtain ⟨_, elected, _, _⟩ := concludeElection_won won
  obtain ⟨count, covered⟩ := electTally_counts outcomes
  have distinct : (electPeers campaign.server).Nodup := (List.nodup_finRange n).filter _
  obtain ⟨voters, card, each⟩ := exists_answered distinct (le_of_eq asked)
    fun outcome => outcome.any (·.status = .ok)
  have outside : campaign.server ∉ voters := by
    intro member
    obtain ⟨k, _, place, _⟩ := each campaign.server member
    have self := List.mem_of_getElem? place
    simp [electPeers] at self
  refine ⟨voters, majority_of_half_lt ?_, fun j voter => ?_⟩
  · rw [Finset.card_insert_of_notMem outside, card, ← count, Fintype.card_fin]
    exact elected
  · obtain ⟨k, outcome, place, heard, positive⟩ := each j voter
    rcases outcome with _ | response
    · simp at positive
    have ok : response.status = .ok := by simpa using positive
    obtain ⟨peer, request, position, replied⟩ := asking_outcome reached found asks heard
    rw [place] at position
    cases position
    obtain ⟨sent, _⟩ := electReply_covers reached replied
    obtain ⟨same, again, target⟩ := electRequest_target reached sent
    rw [found] at again
    cases again
    obtain ⟨view⟩ := request
    dsimp only at target
    subst target
    exact ⟨response, replied, ok, covered response (List.mem_of_getElem? heard) ok⟩

/-- A winning campaign takes its target and the largest number that was reported to it. -/
theorem winning_moves {c c' : Cluster n} {campaign : Campaign n} {outcomes : List (Option ElectResponse)}
    (won : (concludeElection n (c.servers campaign.server) campaign.target
      (electTally outcomes)).2 = .won)
    (moved : c'.servers campaign.server = (concludeElection n (c.servers campaign.server)
      campaign.target (electTally outcomes)).1) :
    (c'.servers campaign.server).view = campaign.target ∧
      (c'.servers campaign.server).highestAcceptedSeq =
        max (c.servers campaign.server).highestAcceptedSeq (electTally outcomes).maxHighestAcceptedSeq := by
  obtain ⟨_, _, _, after⟩ := concludeElection_won won
  rw [moved, after]
  exact ⟨rfl, rfl⟩

/-- The votes of a winning campaign cover what a majority accepted below its target. -/
theorem winning_merges {c c' : Cluster n} {label : Label n} (reached : c.Reached)
    (event : Event c label c') {e attempt : Nat} {campaign : Campaign n}
    {outcomes : List (Option ElectResponse)} (found : c.campaigns[e]? = some campaign)
    (asks : campaign.phase = .asking attempt outcomes)
    (asked : outcomes.length = (electPeers campaign.server).length)
    (won : (concludeElection n (c.servers campaign.server) campaign.target
      (electTally outcomes)).2 = .won)
    (moved : c'.servers campaign.server = (concludeElection n (c.servers campaign.server)
      campaign.target (electTally outcomes)).1) : Merged c' campaign.server campaign.target := by
  obtain ⟨view, highest⟩ := winning_moves won moved
  obtain ⟨voters, large, each⟩ := winning_voters reached found asks asked won
  refine ⟨insert campaign.server voters, large, fun j member => ?_⟩
  rcases Finset.mem_insert.mp member with rfl | voter
  · -- the candidate's own votes were cast before it took the view
    refine ⟨le_of_eq view.symm, fun seq lower value voted below => ?_⟩
    rw [highest]
    rcases event.voted_cases voted with earlier | ⟨_, again⟩
    · exact (Voted.bounded reached earlier).2.trans (le_max_left _ _)
    · have passed := again.view
      rw [view] at passed
      dsimp only at passed
      omega
  · obtain ⟨response, replied, ok, covered⟩ := each j voter
    obtain ⟨_, covers⟩ := electReply_covers reached replied
    apply ((covers ok).step event).mono
    rw [highest]
    exact covered.trans (le_max_right _ _)

/-- What every winning step establishes and every step keeps holds of each won election. -/
theorem Won.since {fact : Cluster n → Fin n → Int → Prop}
    (kept : ∀ {c c' : Cluster n} {label : Label n}, Event c label c' → ∀ {i : Fin n} {view : Int},
      fact c i view → fact c' i view)
    (wins : ∀ {c c' : Cluster n} {label : Label n}, c.Reached → Event c label c' →
      ∀ {e attempt : Nat} {campaign : Campaign n} {outcomes : List (Option ElectResponse)},
        c.campaigns[e]? = some campaign → campaign.phase = .asking attempt outcomes →
        outcomes.length = (electPeers campaign.server).length →
        (concludeElection n (c.servers campaign.server) campaign.target
          (electTally outcomes)).2 = .won →
        c'.servers campaign.server = (concludeElection n (c.servers campaign.server) campaign.target
          (electTally outcomes)).1 → fact c' campaign.server campaign.target)
    {c : Cluster n} (reached : c.Reached) {i : Fin n} {view : Int} (won : Won c i view) :
    fact c i view := by
  revert won
  revert view i
  refine @reachable_invariant _ _ _ _ c (fun c => ∀ {i : Fin n} {view : Int},
    Won c i view → fact c i view) ?_ ?_ reached
  · intro i view won
    obtain ⟨_, member, _⟩ := won
    cases member
  · intro c label c' before known taken i view won
    obtain ⟨campaign, member, server, target, won⟩ := won
    have event := Cluster.step_event taken
    obtain ⟨e, after⟩ := List.getElem?_of_mem member
    cases event.campaigns after with
    | old found => exact kept event (known ⟨campaign, List.mem_of_getElem? found, server, target, won⟩)
    | new missing asks => rw [asks] at won; cases won
    | hears found asks received same => rw [same] at won; cases won
    | unwon found _ _ ending =>
        rcases ending with lost | ⟨next, retry⟩
        · rw [lost] at won; cases won
        · rw [retry] at won; cases won
    | wins found asks asked success moved same =>
        have holds := wins before event found asks asked success moved
        rw [same] at server target
        rw [← server, ← target]
        exact holds

/-- A won election has merged what a majority accepted below its view. -/
theorem Won.merged {c : Cluster n} (reached : c.Reached) {i : Fin n} {view : Int}
    (won : Won c i view) : Merged c i view :=
  @Won.since n Merged (fun event _ _ merged => merged.step event) winning_merges c reached i view won

/-- The votes of one slot; a server's view closes every smaller one. -/
def voting (c : Cluster n) (seq : Int) : Voting (Fin n) Int String where
  votes i view value := Voted c i seq view value
  closed i view := view < (c.servers i).view

/-- More than half of the servers accepted the value for the slot in the view. -/
def AcceptedByMajority (c : Cluster n) (seq view : Int) (value : String) : Prop :=
  (voting c seq).Chosen view value

theorem Event.voting_closing {c c' : Cluster n} {label : Label n} (event : Event c label c')
    {seq : Int} (i : Fin n) (view : Int) (closed : (voting c seq).closed i view) :
    (voting c' seq).closed i view :=
  lt_of_lt_of_le closed (event.servers i).view_mono

/-- A server does not vote in a view that it has passed. -/
theorem Event.voting_respects {c c' : Cluster n} {label : Label n} (event : Event c label c')
    {seq : Int} (i : Fin n) (view : Int) (value : String) (voted : (voting c' seq).votes i view value)
    (closed : (voting c seq).closed i view) : (voting c seq).votes i view value := by
  rcases event.voted_cases voted with earlier | ⟨_, accepted⟩
  · exact earlier
  · exact absurd accepted.allowed (not_le.mpr closed)

/-- The view's smaller views are silent for a slot above what an election merged. -/
theorem Merged.silent {c : Cluster n} {i : Fin n} {view seq : Int} (merged : Merged c i view)
    (fresh : (c.servers i).highestAcceptedSeq < seq) : (voting c seq).Silent view := by
  obtain ⟨quorum, large, each⟩ := merged
  refine ⟨quorum, large, fun j member lower below => ⟨lt_of_lt_of_le below (each j member).1, ?_⟩⟩
  intro value voted
  have covered := (each j member).2 seq lower value voted below
  omega

/-- No view is smaller than zero, in which every server starts. -/
theorem silent_zero [NeZero n] {c : Cluster n} (reached : c.Reached) (seq : Int) :
    (voting c seq).Silent 0 := by
  refine ⟨Finset.univ, majority_univ, fun j _ lower below => ⟨?_, fun value voted => ?_⟩⟩
  · exact lt_of_lt_of_le below (view_nonneg reached j)
  · obtain ⟨r, i, member⟩ := Voted.proposed reached voted
    obtain ⟨round, found, _, view, _⟩ := acceptRequest_round reached member
    have positive := (round_view reached found).2.1
    dsimp only at view
    omega

/-- The thread takes the slot's mutex and goes to the accept phase without a prepare phase. -/
structure Skips (c : Cluster n) (r : Nat) (round : Round n) : Prop where
  found : c.rounds[r]? = some round
  enters : (c.step (.begin r)).isSome
  skips : c.skipsPrepare round

theorem silent_of_reachable {c final : Cluster n} {seq view : Int}
    (silent : (voting c seq).Silent view) (later : Reachable Cluster.step c final) :
    (voting final seq).Silent view := by
  refine @reachable_invariant _ _ _ _ final (fun c => (voting c seq).Silent view) silent ?_ later
  intro state label next _ quiet taken
  have event := Cluster.step_event taken
  exact quiet.stable event.voting_closing event.voting_respects

/-- A skip in view zero or in a view whose election the server has won is safe for ever. -/
theorem skip_safe {c final : Cluster n} (reached : c.Reached) {r : Nat} {round : Round n}
    (skips : Skips c r round) (merged : round.myView = 0 ∨ Won c round.server round.myView)
    (later : Reachable Cluster.step c final) {view : Int} (smaller : view < round.myView)
    (value : String) : ¬ AcceptedByMajority final round.seq view value := by
  have silent : (voting c round.seq).Silent round.myView := by
    rcases merged with zero | won
    · have : NeZero n := ⟨by have := round.server.isLt; omega⟩
      rw [zero]
      exact silent_zero reached round.seq
    · exact (won.merged reached).silent skips.skips.2.2.2
  exact (silent_of_reachable silent later).not_chosen smaller value

/-- Server 1 wins the election of view 1 and then proposes. -/
def wonElection : List (Label 3) :=
  [.detect 1, .detect 1, .detect 1, .detect 1, .deliver 0, .receive 1, .electFails 0,
    .concludeElection 0, .start 1 5 "x#SHARED"]

theorem skip_safe_wonElection : ∃ (c : Cluster 3) (round : Round 3), c.Reached ∧ Skips c 0 round ∧
    round.seq = 5 ∧ ∀ final, Reachable Cluster.step c final →
      ∀ value, ¬ AcceptedByMajority final round.seq 0 value := by
  obtain ⟨c, ran, checked⟩ := (Option.any_eq_true _ _).mp (by decide :
    (run Cluster.step (Cluster.initial 3) wonElection).any (fun c => (c.rounds[0]?).any fun round =>
      decide ((c.step (.begin 0)).isSome ∧ c.skipsPrepare round ∧ round.seq = 5 ∧
        0 < round.myView ∧ Won c round.server round.myView)) = true)
  obtain ⟨round, found, facts⟩ := (Option.any_eq_true _ _).mp checked
  obtain ⟨enters, skipsPrepare, seq, larger, won⟩ := of_decide_eq_true facts
  have reached : c.Reached := ⟨wonElection, ran⟩
  have skips : Skips c 0 round := ⟨found, enters, skipsPrepare⟩
  exact ⟨c, round, reached, skips, seq, fun final later value =>
    skip_safe reached skips (.inr won) later larger value⟩

/-- Servers 0 and 2 accept a value in view 0. Server 1 then takes view 4 from a server that
rejected its election, so its own accepted number still lacks the slot. -/
def rejectedElection : List (Label 3) :=
  [.start 0 1 "x#SHARED", .begin 0, .deliver 0, .deliver 2,
    .detect 1, .detect 1, .detect 1, .detect 1, .detect 2, .detect 2, .detect 2, .detect 2,
    .electFails 1, .deliver 7, .detect 1, .detect 1, .detect 1, .detect 1, .deliver 9, .deliver 5,
    .receive 11, .electFails 0, .concludeElection 0, .start 1 1 "x#EXCLUSIVE"]

theorem skip_unsafe : ¬ ∀ (n : Nat) (c final : Cluster n) (r : Nat) (round : Round n), c.Reached →
    Skips c r round → Reachable Cluster.step c final →
      ∀ view value, view < round.myView → ¬ AcceptedByMajority final round.seq view value := by
  intro safe
  obtain ⟨c, ran, checked⟩ := (Option.any_eq_true _ _).mp (by decide :
    (run Cluster.step (Cluster.initial 3) rejectedElection).any (fun c =>
      (c.rounds[1]?).any fun round =>
        decide ((c.step (.begin 1)).isSome ∧ c.skipsPrepare round ∧ 0 < round.myView ∧
          ∀ i ∈ ({0, 2} : Finset (Fin 3)), Voted c i round.seq 0 "x#SHARED")) = true)
  obtain ⟨round, found, facts⟩ := (Option.any_eq_true _ _).mp checked
  obtain ⟨enters, skipsPrepare, larger, voted⟩ := of_decide_eq_true facts
  have skips : Skips c 1 round := ⟨found, enters, skipsPrepare⟩
  exact safe 3 c c 1 round ⟨rejectedElection, ran⟩ skips (.refl _ c) 0 "x#SHARED" larger
    ⟨{0, 2}, by decide, voted⟩

end Chubby.Paxos
