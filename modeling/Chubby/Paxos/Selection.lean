/-
This file proves when a prepared round sends the text of the latest accept that its promises report.
-/

import Chubby.Paxos.PrepareLoop

namespace Chubby.Paxos

/-- An OK reply of a server that has accepted a text for the slot. -/
def Accepted (outcomes : List (Option PrepareResponse)) (reply : PrepareResponse) : Prop :=
  some reply ∈ outcomes ∧ reply.status = .ok ∧ reply.vA ≠ ""

/-- An accepted reply of the greatest accepted number. -/
def Latest (outcomes : List (Option PrepareResponse)) (reply : PrepareResponse) : Prop :=
  Accepted outcomes reply ∧ ∀ other, Accepted outcomes other → other.nA ≤ reply.nA

/-- The text sent is that of a latest reply, and the round's own value only without any. -/
structure SelectsLatest (v : String) (outcomes : List (Option PrepareResponse)) (text : String) :
    Prop where
  latest : (∃ reply, Accepted outcomes reply) → ∃ reply, Latest outcomes reply ∧ reply.vA = text
  own : (∀ reply, ¬ Accepted outcomes reply) → text = v

/-- The kept reply has a text, unless no reply has one or the round's own value is a latest one. -/
def KeepsText (v : String) (outcomes : List (Option PrepareResponse)) : Prop :=
  (∀ reply, ¬ Accepted outcomes reply) ∨ (∃ kept ∈ keptReply id outcomes, kept.vA ≠ "") ∨
    ∃ reply, Latest outcomes reply ∧ reply.vA = v

variable {v : String} {outcomes : List (Option PrepareResponse)}

theorem accepted_of_kept {kept : PrepareResponse} (keeps : keptReply id outcomes = some kept)
    (filled : kept.vA ≠ "") : Latest outcomes kept :=
  ⟨⟨keptReply_mem id keeps, (keptReply_first id keeps).1, filled⟩,
    fun _ other => le_kept id keeps other.1 other.2.1⟩

/-- The text of the kept reply is that of a latest reply, when it has one. -/
theorem keptText_of_filled {kept : PrepareResponse} (keeps : keptReply id outcomes = some kept)
    (filled : kept.vA ≠ "") : SelectsLatest v outcomes (keptText v (keptReply id outcomes)) := by
  have latest := accepted_of_kept keeps filled
  rw [keeps]
  have text : keptText v (some kept) = kept.vA := if_neg filled
  rw [text]
  exact ⟨fun _ => ⟨kept, latest, rfl⟩, fun none => absurd latest.1 (none kept)⟩

/-- A missing or empty kept text falls back to the round's own value. -/
theorem keptText_of_unfilled (unfilled : ¬ ∃ kept ∈ keptReply id outcomes, kept.vA ≠ "") :
    keptText v (keptReply id outcomes) = v := by
  rcases keeps : keptReply id outcomes with _ | kept
  · rfl
  · apply if_pos
    by_contra filled
    exact unfilled ⟨kept, keeps, filled⟩

theorem selectsLatest_keptText :
    SelectsLatest v outcomes (keptText v (keptReply id outcomes)) ↔ KeepsText v outcomes := by
  by_cases kept : ∃ kept ∈ keptReply id outcomes, kept.vA ≠ ""
  · obtain ⟨reply, keeps, filled⟩ := kept
    exact iff_of_true (keptText_of_filled keeps filled) (.inr (.inl ⟨reply, keeps, filled⟩))
  · rw [keptText_of_unfilled kept]
    constructor
    · intro selects
      by_cases some_ : ∃ reply, Accepted outcomes reply
      · exact .inr (.inr (selects.latest some_))
      · exact .inl fun reply accepted => some_ ⟨reply, accepted⟩
    · rintro (none | filled | ⟨reply, latest, same⟩)
      · refine ⟨?_, fun _ => rfl⟩
        rintro ⟨reply, accepted⟩
        exact absurd accepted (none reply)
      · exact absurd filled kept
      · exact ⟨fun _ => ⟨reply, latest, same⟩, fun _ => rfl⟩

section Round

variable {n : Nat} {server : PaxosImpl} {seq myView : Int} {text : String}
  {prepareReplies : Fin n → Option PrepareResponse} {acceptReplies : Fin n → Option AcceptResponse}

/-- A round that prepares and then accepts sends the kept text of the replies it has processed. -/
theorem accepts_keptText (faithful : Faithful asInt outcomes)
    (prepared : (startOnNewSlot server seq v myView prepareReplies acceptReplies).prepared = some outcomes)
    (accepts : (startOnNewSlot server seq v myView prepareReplies acceptReplies).accepts = some text) :
    text = keptText v (keptReply id outcomes) := by
  unfold startOnNewSlot at prepared accepts
  dsimp only at prepared accepts
  split at prepared
  · cases prepared
  next open_ =>
    rw [if_neg open_] at accepts
    split at prepared
    next seen =>
      rw [if_pos seen] at accepts
      split at prepared
      next highestNa chosen =>
        rw [chosen] at accepts
        cases accepts
      next value chosen =>
        rw [chosen] at accepts
        dsimp only at accepts
        rw [(acceptPhase_calls _ _ _ _ _ _).1] at prepared
        rw [(acceptPhase_calls _ _ _ _ _ _).2] at accepts
        cases prepared
        cases accepts
        exact ((afterPrepare_accept faithful).mp chosen).2.2.2
      next value chosen =>
        rw [chosen] at accepts
        cases accepts
    · rw [(acceptPhase_calls _ _ _ _ _ _).1] at prepared
      cases prepared

/-- A prepared round whose promises carry accepted numbers in the range of an `int` sends the latest
reported text exactly when the reply it keeps has one. -/
theorem selectsLatest_iff (fits : ∀ response, some response ∈ outcomes → FitsInt response.nA)
    (prepared : (startOnNewSlot server seq v myView prepareReplies acceptReplies).prepared = some outcomes)
    (accepts : (startOnNewSlot server seq v myView prepareReplies acceptReplies).accepts = some text) :
    SelectsLatest v outcomes text ↔ KeepsText v outcomes := by
  rw [accepts_keptText (faithful_asInt fits) prepared accepts]
  exact selectsLatest_keptText

end Round

/-- Two servers have accepted nothing, or an older text, and the third a later one. -/
def laterLast : Fin 3 → Option PrepareResponse
  | 0 => some ⟨.ok, 0, "", 3, -1, ""⟩
  | 1 => some ⟨.ok, 1, "x#SHARED", 3, -1, ""⟩
  | 2 => none

theorem selectsLatest_laterLast :
    SelectsLatest "x#EXCLUSIVE" [some ⟨.ok, 0, "", 3, -1, ""⟩, some ⟨.ok, 1, "x#SHARED", 3, -1, ""⟩]
      "x#SHARED" := by
  have fits : ∀ response : PrepareResponse, some response ∈ [some ⟨.ok, 0, "", 3, -1, ""⟩,
      some ⟨.ok, 1, "x#SHARED", 3, -1, ""⟩] → FitsInt response.nA := by
    intro response member
    simp only [List.mem_cons, Option.some.injEq, List.not_mem_nil, or_false] at member
    rcases member with rfl | rfl <;> decide
  refine (@selectsLatest_iff _ _ 3 (.initial 3) 0 1 _ laterLast (fun _ => none) fits (by decide)
    (by decide)).mpr (.inr (.inl ⟨⟨.ok, 1, "x#SHARED", 3, -1, ""⟩, by decide, by decide⟩))

/-- Both servers stamp their replies with one view; the first of them has accepted nothing. -/
def emptyFirst : Fin 3 → Option PrepareResponse
  | 0 => some ⟨.ok, 0, "", 3, -1, ""⟩
  | 1 => some ⟨.ok, 0, "x#SHARED", 3, -1, ""⟩
  | 2 => none

theorem selection_of_empty_text : ¬ ∀ (n : Nat) (server : PaxosImpl) (seq : Int) (v : String)
    (myView : Int) (prepareReplies : Fin n → Option PrepareResponse)
    (acceptReplies : Fin n → Option AcceptResponse) (outcomes : List (Option PrepareResponse))
    (text : String), 2 ≤ n →
      (startOnNewSlot server seq v myView prepareReplies acceptReplies).prepared = some outcomes →
      (startOnNewSlot server seq v myView prepareReplies acceptReplies).accepts = some text →
        SelectsLatest v outcomes text := by
  intro selects
  have chosen := selects 3 (.initial 3) 0 "x#EXCLUSIVE" 0 emptyFirst (fun _ => none)
    [some ⟨.ok, 0, "", 3, -1, ""⟩, some ⟨.ok, 0, "x#SHARED", 3, -1, ""⟩] "x#EXCLUSIVE" (by decide)
    (by decide) (by decide)
  obtain ⟨reply, ⟨⟨member, _, _⟩, _⟩, text⟩ :=
    chosen.latest ⟨⟨.ok, 0, "x#SHARED", 3, -1, ""⟩, by decide, rfl, by decide⟩
  simp only [List.mem_cons, Option.some.injEq, List.not_mem_nil, or_false] at member
  rcases member with rfl | rfl
  · exact absurd text (by decide)
  · exact absurd text (by decide)

end Chubby.Paxos
