/-
This file models one execution of `StartOnNewSlot` as a function of the RPC outcomes it sees.
-/

import Chubby.Paxos.Server
import Mathlib.Data.Fin.Basic
import Mathlib.Data.List.FinRange

namespace Chubby.Paxos

/-- The `while` loop raises the slot's number by the group size until it passes `highest_N`. -/
def raiseNumber (groupSize : Nat) (highestN : Int) : Nat → Int → Int
  | 0, number => number
  | fuel + 1, number =>
      if number ≤ highestN then raiseNumber groupSize highestN fuel (number + groupSize) else number

/-- Every pass adds at least one, so the distance to `highest_N` bounds the passes. -/
def nextNumber (groupSize : Nat) (slot : PaxosSlot) : Int :=
  raiseNumber groupSize slot.highestN (slot.highestN - slot.n + 1).toNat slot.n

/-- These are the locals of the prepare loop; `stopped` records a `break`. -/
structure PrepareLocals where
  highestNa : Int
  highestVa : String
  isDecidedPrep : Bool
  decidedV : String
  majorityCount : Nat
  rejectCount : Nat
  naCountMap : Int → Nat
  slotHighestN : Int
  stopped : Bool

def PrepareLocals.initial (v : String) (highestN : Int) : PrepareLocals where
  highestNa := -1
  highestVa := v
  isDecidedPrep := false
  decidedV := ""
  majorityCount := 0
  rejectCount := 0
  naCountMap := fun _ => 0
  slotHighestN := highestN
  stopped := false

namespace PrepareLocals

/-- The loop takes a reply only when its accepted number is strictly greater; the `else` branch
belongs to this comparison and counts every other OK reply as a rejection. The 64 bits of the reply's
number are compared, and `highest_na` takes what it `stores` of them. -/
def takeReply (stores : Int → Int) (locals : PrepareLocals) (response : PrepareResponse) : PrepareLocals :=
  if response.nA > locals.highestNa then
    let number := stores response.nA
    { locals with
      majorityCount := locals.majorityCount + 1
      highestNa := number
      highestVa := response.vA
      naCountMap := Function.update locals.naCountMap number (locals.naCountMap number + 1) }
  else
    { locals with
      majorityCount := locals.majorityCount + 1
      rejectCount := locals.rejectCount + 1
      slotHighestN :=
        if locals.slotHighestN < response.highestN then response.highestN else locals.slotHighestN }

/-- A reported value, or enough replies with the winning number, ends the loop as decided. -/
def noteDecision (groupSize : Nat) (locals : PrepareLocals) (response : PrepareResponse) :
    PrepareLocals :=
  if response.value ≠ "" then
    { locals with isDecidedPrep := true, decidedV := response.value, stopped := true }
  else if locals.naCountMap locals.highestNa > groupSize / 2 then
    { locals with isDecidedPrep := true, decidedV := locals.highestVa, stopped := true }
  else locals

def noteMajority (groupSize : Nat) (locals : PrepareLocals) : PrepareLocals :=
  if locals.rejectCount > groupSize / 2 ∨ locals.majorityCount > groupSize / 2 ∨
      locals.naCountMap locals.highestNa > groupSize / 2 then
    { locals with stopped := true } else locals

/-- One pass of the loop; a failed RPC and a Reject reply only reach the final test. -/
def iterate (stores : Int → Int) (groupSize : Nat) (locals : PrepareLocals)
    (outcome : Option PrepareResponse) : PrepareLocals :=
  match outcome with
  | none => locals.noteMajority groupSize
  | some response =>
      if response.status = .ok then
        ((locals.takeReply stores response).noteDecision groupSize response).noteMajority groupSize
      else locals.noteMajority groupSize

end PrepareLocals

/-- The outcomes that the loop reaches end with the one at which it breaks. -/
def processed (stores : Int → Int) (groupSize : Nat) :
    PrepareLocals → List (Option PrepareResponse) → List (Option PrepareResponse)
  | _, [] => []
  | locals, outcome :: rest =>
      let next := locals.iterate stores groupSize outcome
      outcome :: if next.stopped then [] else processed stores groupSize next rest

/-- The prepare loop folds its body over the outcomes it reaches. -/
def prepareLoop (stores : Int → Int) (groupSize : Nat) (locals : PrepareLocals)
    (outcomes : List (Option PrepareResponse)) : PrepareLocals :=
  outcomes.foldl (PrepareLocals.iterate stores groupSize) locals

/-- The round leaves its prepare loop for one of these continuations. -/
inductive AfterPrepare where
  | forward (highestNa : Int)
  | accept (value : String)
  | learn (value : String)
  deriving DecidableEq, Repr

/-- A missing majority of promises only makes the thread sleep; the accept phase follows anyway. -/
def afterPrepare (v : String) (myView : Int) (locals : PrepareLocals) : AfterPrepare :=
  if locals.highestNa > myView then .forward locals.highestNa
  else if locals.isDecidedPrep then .learn locals.decidedV
  else .accept (if locals.highestVa = "" then v else locals.highestVa)

/-- An accept reply reports a decision by its value, or by a done index that covers the slot. -/
def AcceptResponse.reportsDecision (seq : Int) (response : AcceptResponse) : Bool :=
  response.latestDone ≥ seq || response.value ≠ ""

def isDecidedAcc (seq : Int) (outcomes : List (Option AcceptResponse)) : Bool :=
  outcomes.any fun outcome => outcome.any (·.reportsDecision seq)

def acceptMajorityCount (outcomes : List (Option AcceptResponse)) : Nat :=
  outcomes.countP fun outcome => outcome.any (·.status = .ok)

/-- A missing majority of accepts only makes the thread sleep; the learn phase follows anyway. -/
def afterAccept (seq : Int) (value : String) (outcomes : List (Option AcceptResponse)) :
    Option String :=
  if isDecidedAcc seq outcomes then none else some value

/-- The calls of one execution: the outcomes of its Prepare calls when it entered the prepare phase,
the texts that it sent in Accept and in Learn, and the accepted number that made it forward. -/
structure RoundCalls where
  prepared : Option (List (Option PrepareResponse))
  accepts : Option String
  learns : Option String
  forwards : Option Int
  deriving DecidableEq, Repr

/-- The test of `highest_na` after the accept phase repeats the one after the prepare phase, so it
succeeds only for a round that skipped the prepare phase in a view below `-1`. -/
def acceptPhase {n : Nat} (prepared : Option (List (Option PrepareResponse))) (seq myView highestNa : Int)
    (value : String) (acceptReplies : Fin n → Option AcceptResponse) : RoundCalls :=
  match afterAccept seq value (List.ofFn acceptReplies) with
  | none => ⟨prepared, some value, none, none⟩
  | some learned =>
      if highestNa > myView then ⟨prepared, some value, none, some highestNa⟩
      else ⟨prepared, some value, some learned, none⟩

/-- `StartOnNewSlot(seq, v, slot, my_view)` in a group whose servers give these replies, where a
failed RPC gives none; the call to `StartOnForward` is left to the caller. The local `highest_na` is an
`int`. -/
def startOnNewSlot {n : Nat} (server : PaxosImpl) (seq : Int) (v : String) (myView : Int)
    (prepareReplies : Fin n → Option PrepareResponse) (acceptReplies : Fin n → Option AcceptResponse) :
    RoundCalls :=
  let slot := server.slotAt seq
  if slot.status = .decided ∨ server.isDead then ⟨none, none, none, none⟩
  else if seq ≤ server.highestAcceptedSeq then
    let outcomes := processed asInt n (.initial v slot.highestN) (List.ofFn prepareReplies)
    let locals := prepareLoop asInt n (.initial v slot.highestN) outcomes
    match afterPrepare v myView locals with
    | .forward highestNa => ⟨some outcomes, none, none, some highestNa⟩
    | .accept value => acceptPhase (some outcomes) seq myView locals.highestNa value acceptReplies
    | .learn value => ⟨some outcomes, none, some value, none⟩
  else acceptPhase none seq myView (-1) v acceptReplies

end Chubby.Paxos
