/-
This file proves when one execution of `StartOnNewSlot` is gated by majorities in both phases.
-/

import Chubby.Paxos.PrepareLoop

namespace Chubby.Paxos

variable {n : Nat}

/-- The replies of the prepare phase that report a text, whatever their status. -/
def Reports (outcomes : List (Option PrepareResponse)) (text : String) : Prop :=
  ∃ response, some response ∈ outcomes ∧ response.value = text ∧ text ≠ ""

instance (outcomes : List (Option PrepareResponse)) (text : String) :
    Decidable (Reports outcomes text) :=
  decidable_of_iff (∃ outcome ∈ outcomes, ∃ response ∈ outcome, response.value = text ∧ text ≠ "") <| by
    constructor
    · rintro ⟨outcome, member, response, rfl, facts⟩
      exact ⟨response, member, facts⟩
    · rintro ⟨response, member, facts⟩
      exact ⟨_, member, response, rfl, facts⟩

/-- Accepts follow a majority of promises, and Learns a majority of accepts or a reported text. -/
structure QuorumGated (acceptReplies : Fin n → Option AcceptResponse) (calls : RoundCalls) : Prop where
  accepts : ∀ outcomes, calls.prepared = some outcomes → (∀ text, ¬ Reports outcomes text) →
    calls.accepts.isSome → n / 2 < outcomes.countP PrepareResponse.isOk
  learns : ∀ text, calls.learns = some text →
    (calls.accepts = some text ∧ n / 2 < acceptMajorityCount (List.ofFn acceptReplies)) ∨
    (∃ outcomes, calls.prepared = some outcomes ∧ Reports outcomes text) ∨
    (∃ i response, calls.accepts.isSome ∧ acceptReplies i = some response ∧ response.value = text ∧
      text ≠ "")

/-- The replies let the round go on from its prepare phase to its accept phase. -/
def GoesOn (n : Nat) (myView : Int) (outcomes : List (Option PrepareResponse)) : Prop :=
  keptNumber id (keptReply id outcomes) ≤ myView ∧
    (∀ response, some response ∈ outcomes → response.status = .ok → response.value = "") ∧
    (n ≤ 1 → keptReply id outcomes = none)

section Processed

variable {stores : Int → Int} {groupSize : Nat} {locals : PrepareLocals} {replies : List (Option PrepareResponse)}

theorem prepareLoop_cons (outcome : Option PrepareResponse) (rest : List (Option PrepareResponse)) :
    prepareLoop stores groupSize locals (outcome :: rest) =
      prepareLoop stores groupSize (locals.iterate stores groupSize outcome) rest := rfl

/-- The loop processes all replies, or a first part of them after which it is stopped. -/
theorem processed_append : ∃ rest, processed stores groupSize locals replies ++ rest = replies ∧
    (rest = [] ∨ (prepareLoop stores groupSize locals (processed stores groupSize locals replies)).stopped = true) := by
  induction replies generalizing locals with
  | nil => exact ⟨[], rfl, .inl rfl⟩
  | cons outcome replies ih =>
      unfold processed
      dsimp only
      split
      next stopped => exact ⟨replies, rfl, .inr stopped⟩
      · obtain ⟨rest, split, ends⟩ := @ih (locals.iterate stores groupSize outcome)
        refine ⟨rest, by rw [List.cons_append, split], ends.imp_right fun stopped => ?_⟩
        rw [prepareLoop_cons]
        exact stopped

/-- When the round goes on, the calls that the loop has not made do not matter for the majority. -/
theorem majority_processed {v : String} {highestN myView : Int} {value : String}
    (faithful : Faithful stores (processed stores groupSize (.initial v highestN) replies))
    (chosen : afterPrepare v myView (prepareLoop stores groupSize (.initial v highestN)
      (processed stores groupSize (.initial v highestN) replies)) = .accept value) :
    groupSize / 2 < (processed stores groupSize (.initial v highestN) replies).countP PrepareResponse.isOk ↔
      groupSize / 2 < replies.countP PrepareResponse.isOk := by
  obtain ⟨rest, split, ends⟩ := @processed_append stores groupSize (.initial v highestN) replies
  have tracks := prepareLoop_tracks groupSize v highestN faithful
  have count : replies.countP PrepareResponse.isOk =
      (processed stores groupSize (.initial v highestN) replies).countP PrepareResponse.isOk +
        rest.countP PrepareResponse.isOk := by
    rw [← List.countP_append, split]
  rcases ends with rfl | stopped
  · rw [count, List.countP_nil, Nat.add_zero]
  · have undecided : (prepareLoop stores groupSize (.initial v highestN)
        (processed stores groupSize (.initial v highestN) replies)).isDecidedPrep = false := by
      unfold afterPrepare at chosen
      split at chosen
      · cases chosen
      · split at chosen
        · cases chosen
        next open_ => simpa using open_
    have majority := (tracks.stops stopped).resolve_left (by simp [undecided])
    rw [tracks.majorityCount] at majority
    exact iff_of_true majority (by omega)

/-- In a group of one server the loop sees one reply; elsewhere only a reported text decides it. -/
theorem reports_of_learn {v : String} {highestN myView : Int} {value : String}
    (short : replies.length ≤ groupSize)
    (faithful : Faithful stores (processed stores groupSize (.initial v highestN) replies))
    (chosen : afterPrepare v myView (prepareLoop stores groupSize (.initial v highestN)
      (processed stores groupSize (.initial v highestN) replies)) = .learn value) :
    Reports (processed stores groupSize (.initial v highestN) replies) value ↔
      ∃ response, some response ∈ processed stores groupSize (.initial v highestN) replies ∧
        response.status = .ok ∧ response.value ≠ "" := by
  obtain ⟨rest, split, _⟩ := @processed_append stores groupSize (.initial v highestN) replies
  have length := congrArg List.length split
  rw [List.length_append] at length
  generalize processed stores groupSize (.initial v highestN) replies = outcomes at faithful chosen length ⊢
  have tracks := prepareLoop_tracks groupSize v highestN faithful
  obtain ⟨decided, text⟩ : (prepareLoop stores groupSize (.initial v highestN) outcomes).isDecidedPrep = true ∧
      (prepareLoop stores groupSize (.initial v highestN) outcomes).decidedV = value := by
    unfold afterPrepare at chosen
    split at chosen
    · cases chosen
    · split at chosen
      next decided => cases chosen; exact ⟨decided, rfl⟩
      · cases chosen
  rcases tracks.reported decided with small | ⟨filled, response, member, ok, same⟩
  · rcases outcomes with _ | ⟨outcome, others⟩
    · cases decided
    · obtain rfl : others = [] := List.eq_nil_of_length_eq_zero (by
        rw [List.length_cons] at length; omega)
      have told := tracks.decided.mp decided
      rcases outcome with _ | response
      · simp [keptReply, keepReply] at told
      · have ok : response.status = .ok := by
          by_contra refused
          simp [keptReply, keepReply, refused] at told
        by_cases filled : response.value = ""
        · refine iff_of_false ?_ ?_
          · rintro ⟨other, member, same, nonempty⟩
            cases List.mem_singleton.mp member
            exact nonempty (same.symm.trans filled)
          · rintro ⟨other, member, _, nonempty⟩
            cases List.mem_singleton.mp member
            exact nonempty filled
        · have same : response.value = value := by
            rw [← text]
            unfold prepareLoop
            rw [List.foldl_cons, List.foldl_nil]
            unfold PrepareLocals.iterate PrepareLocals.noteMajority PrepareLocals.noteDecision
            simp only [ok, filled, ne_eq, not_false_eq_true, if_true]
            split <;> rfl
          have last := List.mem_singleton.mpr (rfl : some response = some response)
          exact iff_of_true ⟨response, last, same, same ▸ filled⟩ ⟨response, last, ok, filled⟩
  · rw [text] at filled same
    exact iff_of_true ⟨response, member, same, filled⟩ ⟨response, member, ok, same ▸ filled⟩

end Processed

section Round

variable (server : PaxosImpl) (seq : Int) (v : String) (myView : Int)
  (prepareReplies : Fin n → Option PrepareResponse) (acceptReplies : Fin n → Option AcceptResponse)

/-- The replies to Prepare that the round takes before its loop ends. -/
def heard : List (Option PrepareResponse) :=
  processed asInt n (.initial v (server.slotAt seq).highestN) (List.ofFn prepareReplies)

/-- The locals of the round after its prepare loop. -/
def looped : PrepareLocals :=
  prepareLoop asInt n (.initial v (server.slotAt seq).highestN) (heard server seq v prepareReplies)

/-- The slot is open, so the round runs. -/
def Runs : Prop := (server.slotAt seq).status ≠ .decided ∧ server.isDead = false

/-- The text of the round's Accepts, if it sends any. -/
def roundText : String :=
  if seq ≤ server.highestAcceptedSeq then
    keptText v (keptReply id (heard server seq v prepareReplies)) else v

/-- More than half of the servers answer OK in each phase that the round goes through, where no
reply reports a decision; and a server alone in its group does not prepare. -/
structure HasQuorums : Prop where
  promises : Runs server seq → seq ≤ server.highestAcceptedSeq →
    GoesOn n myView (heard server seq v prepareReplies) →
    n / 2 < (List.ofFn prepareReplies).countP PrepareResponse.isOk ∨
      ∃ text, Reports (heard server seq v prepareReplies) text
  accepts : Runs server seq → -1 ≤ myView →
    (seq ≤ server.highestAcceptedSeq → GoesOn n myView (heard server seq v prepareReplies)) →
    isDecidedAcc seq (List.ofFn acceptReplies) = false →
    n / 2 < acceptMajorityCount (List.ofFn acceptReplies) ∨
      (seq ≤ server.highestAcceptedSeq ∧ Reports (heard server seq v prepareReplies)
        (roundText server seq v prepareReplies))
  alone : Runs server seq → seq ≤ server.highestAcceptedSeq →
    keptNumber id (keptReply id (heard server seq v prepareReplies)) ≤ myView →
    (∀ response, some response ∈ heard server seq v prepareReplies → response.status = .ok →
      response.value = "") → n ≤ 1 → keptReply id (heard server seq v prepareReplies) = none

variable {server seq v myView prepareReplies acceptReplies}

theorem keptNumber_ge (outcomes : List (Option PrepareResponse)) :
    -1 ≤ keptNumber id (keptReply id outcomes) := by
  rcases keeps : keptReply id outcomes with _ | kept
  · exact le_refl _
  · exact le_of_lt (keptReply_first id keeps).2.1

/-- The accept phase is gated by its own replies. -/
theorem acceptPhase_gated {prepared : Option (List (Option PrepareResponse))} {highestNa : Int}
    {text : String} :
    QuorumGated acceptReplies (acceptPhase prepared seq myView highestNa text acceptReplies) ↔
      (∀ outcomes, prepared = some outcomes → (∀ text, ¬ Reports outcomes text) →
        n / 2 < outcomes.countP PrepareResponse.isOk) ∧
      (highestNa ≤ myView → isDecidedAcc seq (List.ofFn acceptReplies) = false →
        n / 2 < acceptMajorityCount (List.ofFn acceptReplies) ∨
        ∃ outcomes, prepared = some outcomes ∧ Reports outcomes text) := by
  have fields := acceptPhase_calls prepared seq myView highestNa text acceptReplies
  have learned (value : String) :
      (acceptPhase prepared seq myView highestNa text acceptReplies).learns = some value ↔
        highestNa ≤ myView ∧ isDecidedAcc seq (List.ofFn acceptReplies) = false ∧ text = value := by
    unfold acceptPhase afterAccept
    by_cases reported : isDecidedAcc seq (List.ofFn acceptReplies) = true
    · simp [reported]
    · rw [if_neg reported]
      dsimp only
      by_cases above : highestNa > myView
      · simp [above]
      · simp [above, Int.not_lt.mp above, Bool.not_eq_true _ ▸ reported]
  constructor
  · intro gated
    refine ⟨fun outcomes same silent => ?_, fun within unreported => ?_⟩
    · exact gated.accepts outcomes (fields.1.trans same) silent (by rw [fields.2]; rfl)
    · rcases gated.learns text ((learned text).mpr ⟨within, unreported, rfl⟩) with
        ⟨_, many⟩ | ⟨outcomes, same, reports⟩ | ⟨i, response, _, replied, same, filled⟩
      · exact .inl many
      · exact .inr ⟨outcomes, fields.1.symm.trans same, reports⟩
      · -- an Accept reply with a text would have ended the round
        have told : isDecidedAcc seq (List.ofFn acceptReplies) = true := by
          refine List.any_eq_true.mpr ⟨acceptReplies i, (List.mem_ofFn' _ _).mpr ⟨i, rfl⟩, ?_⟩
          simp [replied, AcceptResponse.reportsDecision, same, filled]
        rw [told] at unreported
        cases unreported
  · rintro ⟨promises, accepts⟩
    refine ⟨fun outcomes same silent _ => ?_, fun value learns => ?_⟩
    · exact promises outcomes (fields.1.symm.trans same) silent
    · obtain ⟨within, unreported, rfl⟩ := (learned value).mp learns
      rcases accepts within unreported with many | ⟨outcomes, same, reports⟩
      · exact .inl ⟨fields.2, many⟩
      · exact .inr (.inl ⟨outcomes, fields.1.trans same, reports⟩)

/-- The loop ends in the accept phase exactly when the replies let the round go on. -/
theorem goesOn_iff (faithful : Faithful asInt (heard server seq v prepareReplies)) :
    (∃ value, afterPrepare v myView (looped server seq v prepareReplies) = .accept value) ↔
      GoesOn n myView (heard server seq v prepareReplies) := by
  unfold looped
  constructor
  · rintro ⟨value, chosen⟩
    obtain ⟨within, unreported, alone, _⟩ := (afterPrepare_accept faithful).mp chosen
    exact ⟨within, unreported, alone⟩
  · rintro ⟨within, unreported, alone⟩
    exact ⟨_, (afterPrepare_accept faithful).mpr ⟨within, unreported, alone, rfl⟩⟩

theorem looped_highestNa (faithful : Faithful asInt (heard server seq v prepareReplies)) :
    (looped server seq v prepareReplies).highestNa =
      keptNumber id (keptReply id (heard server seq v prepareReplies)) :=
  (prepareLoop_tracks n v (server.slotAt seq).highestN faithful).highestNa

/-- The loop ends with a forwarded request exactly when the kept reply is above the round's view. -/
theorem overtaken_iff (faithful : Faithful asInt (heard server seq v prepareReplies)) :
    (∃ highestNa, afterPrepare v myView (looped server seq v prepareReplies) = .forward highestNa) ↔
      myView < keptNumber id (keptReply id (heard server seq v prepareReplies)) := by
  unfold afterPrepare
  rw [← looped_highestNa faithful]
  split
  next above => exact iff_of_true ⟨_, rfl⟩ above
  next within => split <;> simp [within]

/-- A round that is overtaken sends nothing. -/
theorem forward_gated {highestNa : Int} (faithful : Faithful asInt (heard server seq v prepareReplies))
    (prepares : seq ≤ server.highestAcceptedSeq)
    (chosen : afterPrepare v myView (looped server seq v prepareReplies) = .forward highestNa) :
    QuorumGated acceptReplies ⟨some (heard server seq v prepareReplies), none, none, some highestNa⟩ ↔
      HasQuorums server seq v myView prepareReplies acceptReplies := by
  have passed := (overtaken_iff faithful).mp ⟨_, chosen⟩
  have stays : ¬ GoesOn n myView (heard server seq v prepareReplies) :=
    fun on => absurd on.1 (Int.not_le.mpr passed)
  refine iff_of_true ⟨?_, ?_⟩ ⟨?_, ?_, ?_⟩
  · intro outcomes _ _ accepts
    cases accepts
  · intro value learns
    cases learns
  · exact fun _ _ on => absurd on stays
  · exact fun _ _ on => absurd (on prepares) stays
  · exact fun _ _ within => absurd within (Int.not_le.mpr passed)

theorem accept_gated {text : String} (faithful : Faithful asInt (heard server seq v prepareReplies))
    (runs : Runs server seq) (prepares : seq ≤ server.highestAcceptedSeq)
    (chosen : afterPrepare v myView (looped server seq v prepareReplies) = .accept text) :
    QuorumGated acceptReplies (acceptPhase (some (heard server seq v prepareReplies)) seq myView
        (looped server seq v prepareReplies).highestNa text acceptReplies) ↔
      HasQuorums server seq v myView prepareReplies acceptReplies := by
  have on := (goesOn_iff faithful).mp ⟨_, chosen⟩
  have majority := @majority_processed asInt n (List.ofFn prepareReplies) v
    (server.slotAt seq).highestN myView text faithful chosen
  have sent : text = roundText server seq v prepareReplies := by
    unfold roundText
    rw [if_pos prepares]
    exact ((afterPrepare_accept faithful).mp chosen).2.2.2
  have within : (looped server seq v prepareReplies).highestNa ≤ myView := by
    rw [looped_highestNa faithful]
    exact on.1
  have low := keptNumber_ge (heard server seq v prepareReplies)
  rw [acceptPhase_gated, sent]
  constructor
  · rintro ⟨promises, accepts⟩
    refine ⟨fun _ _ _ => ?_, fun _ _ _ unreported => ?_, fun _ _ _ _ => on.2.2⟩
    · by_cases told : ∃ value, Reports (heard server seq v prepareReplies) value
      · exact .inr told
      · exact .inl (majority.mp (promises _ rfl fun value reports => told ⟨value, reports⟩))
    · apply (accepts within unreported).imp_right
      rintro ⟨outcomes, same, reports⟩
      cases same
      exact ⟨prepares, reports⟩
  · intro quorums
    refine ⟨fun outcomes same silent => ?_, fun _ unreported => ?_⟩
    · cases same
      refine majority.mpr ((quorums.promises runs prepares on).resolve_right ?_)
      rintro ⟨value, reports⟩
      exact silent value reports
    · apply (quorums.accepts runs (low.trans on.1) (fun _ => on) unreported).imp_right
      rintro ⟨_, reports⟩
      exact ⟨_, rfl, reports⟩

/-- A round that learns from its prepare phase must have been told the text. -/
theorem learn_gated {text : String} (faithful : Faithful asInt (heard server seq v prepareReplies))
    (runs : Runs server seq) (prepares : seq ≤ server.highestAcceptedSeq)
    (chosen : afterPrepare v myView (looped server seq v prepareReplies) = .learn text) :
    QuorumGated acceptReplies ⟨some (heard server seq v prepareReplies), none, some text, none⟩ ↔
      HasQuorums server seq v myView prepareReplies acceptReplies := by
  have within : keptNumber id (keptReply id (heard server seq v prepareReplies)) ≤ myView := by
    refine Int.not_lt.mp fun passed => ?_
    obtain ⟨_, other⟩ := (overtaken_iff faithful).mpr passed
    rw [chosen] at other
    cases other
  have stays : ¬ GoesOn n myView (heard server seq v prepareReplies) := by
    intro on
    obtain ⟨_, other⟩ := (goesOn_iff faithful).mpr on
    rw [chosen] at other
    cases other
  have told : Reports (heard server seq v prepareReplies) text ↔
      ∃ response, some response ∈ heard server seq v prepareReplies ∧
        response.status = .ok ∧ response.value ≠ "" :=
    reports_of_learn (by simp) faithful chosen
  constructor
  · intro gated
    refine ⟨fun _ _ on => absurd on stays, fun _ _ on => absurd (on prepares) stays,
      fun _ _ _ silent => ?_⟩
    rcases gated.learns text rfl with ⟨accepts, _⟩ | ⟨outcomes, same, reports⟩ | ⟨_, _, accepts, _⟩
    · cases accepts
    · cases same
      obtain ⟨response, member, ok, filled⟩ := told.mp reports
      exact absurd (silent response member ok) filled
    · cases accepts
  · intro quorums
    refine ⟨?_, fun value learns => ?_⟩
    · intro outcomes _ _ accepts
      cases accepts
    · cases learns
      refine .inr (.inl ⟨_, rfl, told.mpr ?_⟩)
      by_contra silent
      refine stays ⟨within, ?_, quorums.alone runs prepares within ?_⟩ <;>
      · intro response member ok
        by_contra filled
        exact silent ⟨response, member, ok, filled⟩

/-- The part of the claim about a round that prepares, by the way in which its loop ends. -/
theorem prepared_gated (faithful : Faithful asInt (heard server seq v prepareReplies))
    (runs : Runs server seq) (prepares : seq ≤ server.highestAcceptedSeq) :
    QuorumGated acceptReplies (match afterPrepare v myView (looped server seq v prepareReplies) with
      | .forward highestNa => ⟨some (heard server seq v prepareReplies), none, none, some highestNa⟩
      | .accept value => acceptPhase (some (heard server seq v prepareReplies)) seq myView
          (looped server seq v prepareReplies).highestNa value acceptReplies
      | .learn value => ⟨some (heard server seq v prepareReplies), none, some value, none⟩) ↔
    HasQuorums server seq v myView prepareReplies acceptReplies := by
  cases chosen : afterPrepare v myView (looped server seq v prepareReplies) with
  | forward highestNa => exact forward_gated faithful prepares chosen
  | accept text => exact accept_gated faithful runs prepares chosen
  | learn text => exact learn_gated faithful runs prepares chosen

/-- A round whose promises carry accepted numbers in the range of an `int` is gated by majorities exactly
when the majorities answer. -/
theorem quorumGated_iff
    (fits : ∀ response, some response ∈ heard server seq v prepareReplies → FitsInt response.nA) :
    QuorumGated acceptReplies
      (startOnNewSlot server seq v myView prepareReplies acceptReplies) ↔
    HasQuorums server seq v myView prepareReplies acceptReplies := by
  unfold startOnNewSlot
  dsimp only
  by_cases settled : (server.slotAt seq).status = .decided ∨ server.isDead
  · rw [if_pos settled]
    have still : ¬ Runs server seq := by
      rintro ⟨undecided, alive⟩
      simp [undecided, alive] at settled
    refine iff_of_true ⟨?_, ?_⟩ ⟨?_, ?_, ?_⟩
    · intro outcomes prepared
      cases prepared
    · intro text learns
      cases learns
    · exact fun runs => absurd runs still
    · exact fun runs => absurd runs still
    · exact fun runs => absurd runs still
  · rw [if_neg settled]
    have runs : Runs server seq := by
      obtain ⟨undecided, alive⟩ := not_or.mp settled
      exact ⟨undecided, by simpa using alive⟩
    by_cases prepares : seq ≤ server.highestAcceptedSeq
    · rw [if_pos prepares]
      exact prepared_gated (faithful_asInt fits) runs prepares
    · rw [if_neg prepares, acceptPhase_gated]
      have sent : roundText server seq v prepareReplies = v := if_neg prepares
      constructor
      · rintro ⟨_, accepts⟩
        refine ⟨fun _ on => absurd on prepares, fun _ within _ unreported => ?_,
          fun _ on => absurd on prepares⟩
        apply (accepts within unreported).imp_right
        rintro ⟨_, missing, _⟩
        cases missing
      · intro quorums
        refine ⟨fun _ missing => (by cases missing), fun within unreported => .inl ?_⟩
        apply (quorums.accepts runs within (fun on => absurd on prepares) unreported).resolve_right
        exact fun on => prepares on.1

end Round

/-- Two servers promise and accept, and the third one is down. -/
def twoPromise : Fin 3 → Option PrepareResponse
  | 0 | 1 => some ⟨.ok, 0, "", 3, -1, ""⟩
  | 2 => none

def twoAccept : Fin 3 → Option AcceptResponse
  | 0 | 1 => some ⟨.ok, -1, "", 0⟩
  | 2 => none

theorem quorumGated_iff_twoOfThree : QuorumGated twoAccept
    (startOnNewSlot (.initial 3) 0 "x#SHARED" 0 twoPromise twoAccept) := by
  have took : heard (.initial 3) 0 "x#SHARED" twoPromise =
      [some ⟨.ok, 0, "", 3, -1, ""⟩, some ⟨.ok, 0, "", 3, -1, ""⟩] := by decide
  have fits : ∀ response, some response ∈ heard (.initial 3) 0 "x#SHARED" twoPromise →
      FitsInt response.nA := by
    intro response member
    rw [took] at member
    simp only [List.mem_cons, Option.some.injEq, List.not_mem_nil, or_false, or_self] at member
    rw [member]
    decide
  refine (quorumGated_iff fits).mpr ⟨fun _ _ _ => .inl (by decide), fun _ _ _ _ => .inl (by decide), ?_⟩
  intro _ _ _ _ alone
  exact absurd alone (by decide)

/-- A leader that reaches nobody still sends its Accepts and then teaches its value. -/
theorem round_without_quorum : ¬ ∀ (n : Nat) (server : PaxosImpl) (seq : Int) (v : String)
    (myView : Int) (prepareReplies : Fin n → Option PrepareResponse)
    (acceptReplies : Fin n → Option AcceptResponse), 0 < n → QuorumGated acceptReplies
      (startOnNewSlot server seq v myView prepareReplies acceptReplies) := by
  intro gated
  have alone := gated 3 (.initial 3) 0 "x#SHARED" 0 (fun _ => none) (fun _ => none) (by decide)
  have calls : startOnNewSlot (.initial 3) 0 "x#SHARED" 0 (fun _ : Fin 3 => none) (fun _ => none) =
      ⟨some [none, none, none], some "x#SHARED", some "x#SHARED", none⟩ := by decide
  rw [calls] at alone
  rcases alone.learns "x#SHARED" rfl with ⟨_, many⟩ | ⟨outcomes, same, reports⟩ | ⟨_, _, _, replied, _⟩
  · exact absurd many (by decide)
  · cases same
    exact absurd reports (by decide)
  · cases replied

end Chubby.Paxos
