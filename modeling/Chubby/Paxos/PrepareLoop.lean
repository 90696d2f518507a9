/-
This file gives the counters and the kept reply of the prepare loop for every list of outcomes.
-/

import Chubby.Paxos.Round
import Mathlib.Data.List.Induction

namespace Chubby.Paxos

section Kept

variable {A B : Type} (response : A → PrepareResponse)

def keptNumber : Option A → Int
  | none => -1
  | some reply => (response reply).nA

/-- One outcome replaces the kept reply when it is OK and its accepted number is greater. -/
def keepReply (kept : Option A) : Option A → Option A
  | none => kept
  | some reply =>
      if (response reply).status = .ok ∧ keptNumber response kept < (response reply).nA then
        some reply else kept

/-- The loop keeps the first OK reply of the greatest accepted number. -/
def keptReply (outcomes : List (Option A)) : Option A := outcomes.foldl (keepReply response) none

theorem keptReply_concat (outcomes : List (Option A)) (outcome : Option A) :
    keptReply response (outcomes ++ [outcome]) = keepReply response (keptReply response outcomes) outcome := by
  simp [keptReply]

theorem keptReply_map (f : B → A) (outcomes : List (Option B)) :
    (keptReply (response ∘ f) outcomes).map f = keptReply response (outcomes.map (Option.map f)) := by
  induction outcomes using List.reverseRecOn with
  | nil => rfl
  | append_singleton outcomes outcome ih =>
      rw [List.map_append, List.map_singleton, keptReply_concat, keptReply_concat, ← ih]
      rcases outcome with _ | reply
      · rfl
      · have number : keptNumber response ((keptReply (response ∘ f) outcomes).map f) =
            keptNumber (response ∘ f) (keptReply (response ∘ f) outcomes) := by
          cases keptReply (response ∘ f) outcomes <;> rfl
        simp only [keepReply, Option.map_some, number, Function.comp_apply]
        split <;> rfl

/-- No OK reply has a greater accepted number than the kept one. -/
theorem le_keptNumber {outcomes : List (Option A)} {reply : A} (member : some reply ∈ outcomes)
    (ok : (response reply).status = .ok) :
    (response reply).nA ≤ keptNumber response (keptReply response outcomes) := by
  induction outcomes using List.reverseRecOn with
  | nil => cases member
  | append_singleton outcomes outcome ih =>
      rw [keptReply_concat]
      have grows : keptNumber response (keptReply response outcomes) ≤
          keptNumber response (keepReply response (keptReply response outcomes) outcome) := by
        unfold keepReply
        split
        · exact le_refl _
        · split
          next larger => exact le_of_lt larger.2
          · exact le_refl _
      rcases List.mem_append.mp member with earlier | last
      · exact (ih earlier).trans grows
      · cases List.mem_singleton.mp last
        by_cases larger : keptNumber response (keptReply response outcomes) < (response reply).nA
        · rw [keepReply, if_pos ⟨ok, larger⟩]
          exact le_refl _
        · exact (Int.not_lt.mp larger).trans grows

/-- The kept reply is an OK reply, and every OK reply before it has a smaller accepted number. -/
theorem keptReply_first {outcomes : List (Option A)} {kept : A}
    (keeps : keptReply response outcomes = some kept) :
    (response kept).status = .ok ∧ -1 < (response kept).nA ∧ ∃ earlier later,
      outcomes = earlier ++ some kept :: later ∧ ∀ reply, some reply ∈ earlier →
        (response reply).status = .ok → (response reply).nA < (response kept).nA := by
  induction outcomes using List.reverseRecOn generalizing kept with
  | nil => cases keeps
  | append_singleton outcomes outcome ih =>
      rw [keptReply_concat] at keeps
      have old (same : keptReply response outcomes = some kept) :
          (response kept).status = .ok ∧ -1 < (response kept).nA ∧ ∃ earlier later,
            outcomes ++ [outcome] = earlier ++ some kept :: later ∧ ∀ reply, some reply ∈ earlier →
              (response reply).status = .ok → (response reply).nA < (response kept).nA := by
        obtain ⟨ok, above, earlier, later, split, smaller⟩ := ih same
        exact ⟨ok, above, earlier, later ++ [outcome], by rw [split]; simp, smaller⟩
      rcases outcome with _ | reply
      · exact old keeps
      · unfold keepReply at keeps
        dsimp only at keeps
        split at keeps
        next larger =>
          cases keeps
          refine ⟨larger.1, ?_, outcomes, [], rfl, fun other member ok => ?_⟩
          · rcases first : keptReply response outcomes with _ | before
            · rw [first] at larger
              exact larger.2
            · rw [first] at larger
              exact (ih first).2.1.trans larger.2
          · exact lt_of_le_of_lt (le_keptNumber response member ok) larger.2
        · exact old keeps

theorem keptReply_mem {outcomes : List (Option A)} {kept : A}
    (keeps : keptReply response outcomes = some kept) : some kept ∈ outcomes := by
  obtain ⟨_, _, earlier, later, split, _⟩ := keptReply_first response keeps
  rw [split]
  simp

theorem le_kept {outcomes : List (Option A)} {kept reply : A}
    (keeps : keptReply response outcomes = some kept) (member : some reply ∈ outcomes)
    (ok : (response reply).status = .ok) : (response reply).nA ≤ (response kept).nA := by
  have most := le_keptNumber response member ok
  rw [keeps] at most
  exact most

end Kept

section Loop

variable {stores : Int → Int} {groupSize : Nat} {v : String} {highestN : Int}
  {outcomes : List (Option PrepareResponse)}

/-- What the loop stores of the accepted numbers that it takes is all of them. -/
def Faithful (stores : Int → Int) (outcomes : List (Option PrepareResponse)) : Prop :=
  ∀ response, some response ∈ outcomes → response.status = .ok → stores response.nA = response.nA

theorem faithful_id (outcomes : List (Option PrepareResponse)) : Faithful id outcomes := fun _ _ _ => rfl

theorem faithful_asInt (fits : ∀ response, some response ∈ outcomes → FitsInt response.nA) :
    Faithful asInt outcomes := fun response member _ => asInt_of_fits (fits response member)

def PrepareResponse.isOk (outcome : Option PrepareResponse) : Bool := outcome.any (·.status = .ok)

/-- The locals of the loop are these functions of the outcomes that it has processed. -/
structure PrepareLocals.Tracks (groupSize : Nat) (v : String) (outcomes : List (Option PrepareResponse))
    (locals : PrepareLocals) : Prop where
  highestNa : locals.highestNa = keptNumber id (keptReply id outcomes)
  highestVa : locals.highestVa = ((keptReply id outcomes).map PrepareResponse.vA).getD v
  majorityCount : locals.majorityCount = outcomes.countP PrepareResponse.isOk
  rejected : locals.rejectCount ≤ locals.majorityCount
  counted : ∀ number, locals.naCountMap number ≤ min 1 locals.majorityCount
  uncounted : ∀ number, locals.highestNa < number → locals.naCountMap number = 0
  current : (keptReply id outcomes).isSome ↔ locals.naCountMap locals.highestNa = 1
  decided : locals.isDecidedPrep = true ↔
    (∃ response, some response ∈ outcomes ∧ response.status = .ok ∧ response.value ≠ "") ∨
      groupSize ≤ 1 ∧ (keptReply id outcomes).isSome
  reported : locals.isDecidedPrep = true → groupSize ≤ 1 ∨ locals.decidedV ≠ "" ∧
    ∃ response, some response ∈ outcomes ∧ response.status = .ok ∧ response.value = locals.decidedV
  stops : locals.stopped = true → locals.isDecidedPrep = true ∨ groupSize / 2 < locals.majorityCount

namespace PrepareLocals

theorem tracks_initial (v : String) (highestN : Int) :
    Tracks groupSize v [] (.initial v highestN) where
  highestNa := rfl
  highestVa := rfl
  majorityCount := rfl
  rejected := le_refl 0
  counted _ := Nat.zero_le _
  uncounted _ _ := rfl
  current := by simp [keptReply, initial]
  decided := by simp [keptReply, initial]
  reported decided := by cases decided
  stops stopped := by cases stopped

/-- The final test of a pass only stops the loop, and then a majority has answered. -/
theorem Tracks.noteMajority {locals : PrepareLocals} (tracks : Tracks groupSize v outcomes locals) :
    Tracks groupSize v outcomes (locals.noteMajority groupSize) := by
  unfold PrepareLocals.noteMajority
  split
  next test =>
    refine { tracks with stops := fun _ => .inr ?_ }
    dsimp only
    have rejected := tracks.rejected
    have counted := tracks.counted locals.highestNa
    omega
  · exact tracks

/-- A failed call and a Reject reply leave the tracked locals alone. -/
theorem Tracks.skip {locals : PrepareLocals} (tracks : Tracks groupSize v outcomes locals)
    {outcome : Option PrepareResponse} (refused : PrepareResponse.isOk outcome = false) :
    Tracks groupSize v (outcomes ++ [outcome]) locals := by
  have keeps : keptReply id (outcomes ++ [outcome]) = keptReply id outcomes := by
    rw [keptReply_concat]
    rcases outcome with _ | response
    · rfl
    · refine if_neg fun larger => ?_
      have ok : response.status = .ok := larger.1
      simp [PrepareResponse.isOk, ok] at refused
  have same {response : PrepareResponse} (ok : response.status = .ok) :
      some response ∈ outcomes ++ [outcome] ↔ some response ∈ outcomes := by
    constructor
    · intro member
      refine (List.mem_append.mp member).resolve_right fun last => ?_
      rw [← List.mem_singleton.mp last] at refused
      simp [PrepareResponse.isOk, ok] at refused
    · exact List.mem_append_left _
  refine ⟨by rw [keeps]; exact tracks.highestNa, by rw [keeps]; exact tracks.highestVa, ?_,
    tracks.rejected, tracks.counted, tracks.uncounted, by rw [keeps]; exact tracks.current, ?_, ?_,
    tracks.stops⟩
  · rw [List.countP_append, List.countP_singleton, refused]
    exact tracks.majorityCount
  · rw [keeps, tracks.decided]
    refine or_congr_left (exists_congr fun response => ?_)
    constructor
    · rintro ⟨member, ok, text⟩
      exact ⟨(same ok).mpr member, ok, text⟩
    · rintro ⟨member, ok, text⟩
      exact ⟨(same ok).mp member, ok, text⟩
  · intro decided
    apply (tracks.reported decided).imp_right
    rintro ⟨text, response, member, ok, value⟩
    exact ⟨text, response, (same ok).mpr member, ok, value⟩

/-- An OK reply moves the counters and the kept reply; its own text is not read yet. -/
structure Took (groupSize : Nat) (v : String) (outcomes : List (Option PrepareResponse))
    (before after : PrepareLocals) : Prop where
  highestNa : after.highestNa = keptNumber id (keptReply id outcomes)
  highestVa : after.highestVa = ((keptReply id outcomes).map PrepareResponse.vA).getD v
  majorityCount : after.majorityCount = outcomes.countP PrepareResponse.isOk
  rejected : after.rejectCount ≤ after.majorityCount
  counted : ∀ number, after.naCountMap number ≤ min 1 after.majorityCount
  uncounted : ∀ number, after.highestNa < number → after.naCountMap number = 0
  current : (keptReply id outcomes).isSome ↔ after.naCountMap after.highestNa = 1
  isDecidedPrep : after.isDecidedPrep = before.isDecidedPrep
  decidedV : after.decidedV = before.decidedV
  grows : after.majorityCount = before.majorityCount + 1
  stopped : after.stopped = before.stopped

theorem Tracks.takeReply {locals : PrepareLocals} (tracks : Tracks groupSize v outcomes locals)
    {response : PrepareResponse} (ok : response.status = .ok) (faithful : stores response.nA = response.nA) :
    Took groupSize v (outcomes ++ [some response]) locals (locals.takeReply stores response) := by
  have counts : (outcomes ++ [some response]).countP PrepareResponse.isOk = locals.majorityCount + 1 := by
    rw [List.countP_append, List.countP_singleton, tracks.majorityCount]
    simp [PrepareResponse.isOk, ok]
  have rejected := tracks.rejected
  unfold PrepareLocals.takeReply
  rw [faithful]
  by_cases larger : response.nA > locals.highestNa
  · have keeps : keptReply id (outcomes ++ [some response]) = some response := by
      rw [keptReply_concat]
      refine if_pos ⟨ok, ?_⟩
      rw [← tracks.highestNa]
      exact larger
    have unused := tracks.uncounted _ larger
    rw [if_pos larger]
    refine ⟨by rw [keeps]; rfl, by rw [keeps]; rfl, counts.symm, Nat.le_succ_of_le rejected,
      fun number => ?_, fun number above => ?_, ?_, rfl, rfl, rfl, rfl⟩
    · dsimp only
      by_cases same : number = response.nA
      · rw [same, Function.update_self, unused]
        omega
      · rw [Function.update_of_ne same]
        have counted := tracks.counted number
        omega
    · dsimp only at above ⊢
      rw [Function.update_of_ne (by omega)]
      exact tracks.uncounted number (by omega)
    · rw [keeps]
      dsimp only
      rw [Function.update_self, unused]
      simp
  · have keeps : keptReply id (outcomes ++ [some response]) = keptReply id outcomes := by
      rw [keptReply_concat]
      refine if_neg fun both => larger ?_
      rw [tracks.highestNa]
      exact both.2
    rw [if_neg larger]
    refine ⟨by rw [keeps]; exact tracks.highestNa, by rw [keeps]; exact tracks.highestVa, counts.symm,
      Nat.succ_le_succ rejected, fun number => ?_, tracks.uncounted, by rw [keeps]; exact tracks.current,
      rfl, rfl, rfl, rfl⟩
    have counted := tracks.counted number
    dsimp only
    omega

/-- After an OK reply the loop is decided if it was, or if the reply reports a text, or if one reply
with the kept number is more than half of the group. -/
theorem Tracks.take {locals : PrepareLocals} (tracks : Tracks groupSize v outcomes locals)
    {response : PrepareResponse} (ok : response.status = .ok) (faithful : stores response.nA = response.nA) :
    Tracks groupSize v (outcomes ++ [some response])
      ((locals.takeReply stores response).noteDecision groupSize response) := by
  have took := tracks.takeReply ok faithful
  have last : some response ∈ outcomes ++ [some response] :=
    List.mem_append_right _ (List.mem_singleton.mpr rfl)
  have once := took.counted (locals.takeReply stores response).highestNa
  have current := took.current
  unfold noteDecision
  split
  next text =>
    refine ⟨took.highestNa, took.highestVa, took.majorityCount, took.rejected, took.counted,
      took.uncounted, took.current, ?_, ?_, fun _ => .inl rfl⟩
    · exact iff_of_true rfl (.inl ⟨response, last, ok, text⟩)
    · exact fun _ => .inr ⟨text, response, last, ok, rfl⟩
  next silent =>
    split
    next many =>
      have small : groupSize ≤ 1 := by omega
      have kept : (keptReply id (outcomes ++ [some response])).isSome := current.mpr (by omega)
      refine ⟨took.highestNa, took.highestVa, took.majorityCount, took.rejected, took.counted,
        took.uncounted, took.current, ?_, fun _ => .inl small, fun _ => .inl rfl⟩
      exact iff_of_true rfl (.inr ⟨small, kept⟩)
    next few =>
      refine ⟨took.highestNa, took.highestVa, took.majorityCount, took.rejected, took.counted,
        took.uncounted, took.current, ?_, ?_, ?_⟩
      · have alone : ¬ (groupSize ≤ 1 ∧ (keptReply id (outcomes ++ [some response])).isSome) := by
          rintro ⟨small, kept⟩
          have one := current.mp kept
          omega
        have before : ¬ (groupSize ≤ 1 ∧ (keptReply id outcomes).isSome) := by
          rintro ⟨small, kept⟩
          refine alone ⟨small, ?_⟩
          rw [keptReply_concat]
          unfold keepReply
          split
          · exact kept
          · split
            · rfl
            · exact kept
        rw [took.isDecidedPrep, tracks.decided, or_iff_left alone, or_iff_left before]
        refine exists_congr fun other => ?_
        constructor
        · rintro ⟨member, accepted, text⟩
          exact ⟨List.mem_append_left _ member, accepted, text⟩
        · rintro ⟨member, accepted, text⟩
          refine ⟨(List.mem_append.mp member).resolve_right fun new => ?_, accepted, text⟩
          cases List.mem_singleton.mp new
          exact silent text
      · rw [took.isDecidedPrep, took.decidedV]
        intro decided
        apply (tracks.reported decided).imp_right
        rintro ⟨text, other, member, accepted, value⟩
        exact ⟨text, other, List.mem_append_left _ member, accepted, value⟩
      · rw [took.isDecidedPrep, took.stopped, took.grows]
        intro stopped
        exact (tracks.stops stopped).imp_right Nat.lt_succ_of_lt

/-- One pass of the loop tracks one more outcome. -/
theorem Tracks.iterate {locals : PrepareLocals} (tracks : Tracks groupSize v outcomes locals)
    {outcome : Option PrepareResponse} (faithful : Faithful stores [outcome]) :
    Tracks groupSize v (outcomes ++ [outcome]) (locals.iterate stores groupSize outcome) := by
  unfold PrepareLocals.iterate
  split
  · exact (tracks.skip rfl).noteMajority
  next response =>
    split
    next ok => exact (tracks.take ok (faithful response (List.mem_singleton_self _) ok)).noteMajority
    next refused => exact (tracks.skip (by simp [PrepareResponse.isOk, refused])).noteMajority

end PrepareLocals

/-- The whole loop tracks its outcomes. -/
theorem prepareLoop_tracks (groupSize : Nat) (v : String) (highestN : Int)
    {outcomes : List (Option PrepareResponse)} (faithful : Faithful stores outcomes) :
    PrepareLocals.Tracks groupSize v outcomes
      (prepareLoop stores groupSize (.initial v highestN) outcomes) := by
  induction outcomes using List.reverseRecOn with
  | nil => exact PrepareLocals.tracks_initial v highestN
  | append_singleton outcomes outcome ih =>
      have concat : prepareLoop stores groupSize (.initial v highestN) (outcomes ++ [outcome]) =
          (prepareLoop stores groupSize (.initial v highestN) outcomes).iterate stores groupSize outcome := by
        simp [prepareLoop]
      rw [concat]
      apply (ih fun response member => faithful response (List.mem_append_left _ member)).iterate
      exact fun response member => faithful response (List.mem_append_right _ member)

/-- The text of the kept reply, or the round's own value in place of a missing or empty one. -/
def keptText (v : String) : Option PrepareResponse → String
  | none => v
  | some kept => if kept.vA = "" then v else kept.vA

/-- The loop leads to the accept phase when no accepted number passes the round's view, no OK reply
reports a text and the group is not a single server; the kept text is then sent. -/
theorem afterPrepare_accept {myView : Int} {value : String} (faithful : Faithful stores outcomes) :
    afterPrepare v myView (prepareLoop stores groupSize (.initial v highestN) outcomes) = .accept value ↔
      keptNumber id (keptReply id outcomes) ≤ myView ∧
      (∀ response, some response ∈ outcomes → response.status = .ok → response.value = "") ∧
      (groupSize ≤ 1 → keptReply id outcomes = none) ∧ value = keptText v (keptReply id outcomes) := by
  have tracks := prepareLoop_tracks groupSize v highestN faithful
  have undecided : ¬ (prepareLoop stores groupSize (.initial v highestN) outcomes).isDecidedPrep = true ↔
      (∀ response, some response ∈ outcomes → response.status = .ok → response.value = "") ∧
        (groupSize ≤ 1 → keptReply id outcomes = none) := by
    rw [tracks.decided, not_or]
    refine and_congr ⟨fun none response member ok => ?_, fun each => ?_⟩ ?_
    · by_contra text
      exact none ⟨response, member, ok, text⟩
    · rintro ⟨response, member, ok, text⟩
      exact text (each response member ok)
    · rw [not_and, Bool.not_eq_true, Option.isSome_eq_false_iff, Option.isNone_iff_eq_none]
  have text : (if (prepareLoop stores groupSize (.initial v highestN) outcomes).highestVa = "" then v else
      (prepareLoop stores groupSize (.initial v highestN) outcomes).highestVa) =
        keptText v (keptReply id outcomes) := by
    rw [tracks.highestVa]
    rcases keptReply id outcomes with _ | kept
    · simp [keptText]
    · rfl
  unfold afterPrepare
  rw [text, tracks.highestNa]
  split
  next above => simp [Int.not_le.mpr above]
  next within =>
    split
    next decided =>
      have told := mt undecided.mpr (not_not.mpr decided)
      simp only [reduceCtorEq, false_iff]
      rintro ⟨_, unreported, alone, _⟩
      exact told ⟨unreported, alone⟩
    next open_ =>
      obtain ⟨unreported, alone⟩ := undecided.mp open_
      simp only [AfterPrepare.accept.injEq]
      exact ⟨fun same => ⟨Int.not_lt.mp within, unreported, alone, same.symm⟩,
        fun facts => facts.2.2.2.symm⟩

/-- The learn phase is entered from the loop with a reported text, or in a group of one. -/
theorem afterPrepare_learn {myView : Int} {value : String} (faithful : Faithful stores outcomes)
    (chosen : afterPrepare v myView (prepareLoop stores groupSize (.initial v highestN) outcomes) =
      .learn value) :
    groupSize ≤ 1 ∨ value ≠ "" ∧
      ∃ response, some response ∈ outcomes ∧ response.status = .ok ∧ response.value = value := by
  have tracks := prepareLoop_tracks groupSize v highestN faithful
  unfold afterPrepare at chosen
  split at chosen
  · cases chosen
  · split at chosen
    next decided =>
      cases chosen
      exact tracks.reported decided
    · cases chosen

/-- With one server a single OK reply decides the reported text, or else the accepted value, however
it reads. -/
theorem afterPrepare_ok {myView : Int} {response : PrepareResponse} (alone : groupSize ≤ 1)
    (ok : response.status = .ok) (positive : -1 < response.nA) :
    afterPrepare v myView (prepareLoop id groupSize (.initial v highestN) [some response]) =
      if response.nA > myView then .forward response.nA
      else .learn (if response.value = "" then response.vA else response.value) := by
  have half : groupSize / 2 = 0 := by omega
  by_cases text : response.value = ""
  · simp [prepareLoop, PrepareLocals.iterate, PrepareLocals.takeReply, PrepareLocals.noteDecision,
      PrepareLocals.noteMajority, PrepareLocals.initial, afterPrepare, half, ok, positive, text]
  · simp [prepareLoop, PrepareLocals.iterate, PrepareLocals.takeReply, PrepareLocals.noteDecision,
      PrepareLocals.noteMajority, PrepareLocals.initial, afterPrepare, half, ok, positive, text]

end Loop

theorem acceptPhase_calls {n : Nat} (prepared : Option (List (Option PrepareResponse)))
    (seq myView highestNa : Int)
    (text : String) (acceptReplies : Fin n → Option AcceptResponse) :
    (acceptPhase prepared seq myView highestNa text acceptReplies).prepared = prepared ∧
      (acceptPhase prepared seq myView highestNa text acceptReplies).accepts = some text := by
  unfold acceptPhase
  split
  · exact ⟨rfl, rfl⟩
  · split <;> exact ⟨rfl, rfl⟩

end Chubby.Paxos
