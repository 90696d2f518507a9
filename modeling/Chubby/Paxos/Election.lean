/-
This file models one campaign of `Election` as a function of the votes it collects.
-/

import Chubby.Paxos.Server
import Mathlib.Data.List.FinRange

namespace Chubby.Paxos

/-- A campaign asks every other server in the order of the stub map. -/
def electPeers {n : Nat} (me : Fin n) : List (Fin n) := (List.finRange n).filter (· ≠ me)

/-- These are the counters of one pass over the peers. -/
structure ElectTally where
  majorityCount : Nat
  rejectCount : Nat
  highestView : Int
  maxHighestAcceptedSeq : Int
  deriving DecidableEq, Repr

def ElectTally.count (tally : ElectTally) : Option ElectResponse → ElectTally
  | none => tally
  | some response =>
      match response.status with
      | .reject => { tally with
          rejectCount := tally.rejectCount + 1
          highestView := max tally.highestView response.view }
      | .ok => { tally with
          majorityCount := tally.majorityCount + 1
          maxHighestAcceptedSeq := max tally.maxHighestAcceptedSeq response.highestSeq }

def electTally (outcomes : List (Option ElectResponse)) : ElectTally :=
  outcomes.foldl ElectTally.count ⟨0, 0, -1, -1⟩

/-- A pass ends the campaign or starts the next pass. -/
inductive ElectionEnd where
  | won
  | lost
  | retry
  deriving DecidableEq, Repr

/-- Only the success branch merges the accepted sequence number of the voters. -/
def concludeElection (groupSize : Nat) (server : PaxosImpl) (target : Int) (tally : ElectTally) :
    PaxosImpl × ElectionEnd :=
  if tally.rejectCount > 0 then
    (if tally.highestView > server.view ∧ target < tally.highestView then
      server.adoptView tally.highestView else server, .lost)
  else if tally.majorityCount + 1 > groupSize / 2 then
    if tally.highestView ≤ target ∧ server.view < target then
      ({ server.adoptView target with
        highestAcceptedSeq := max server.highestAcceptedSeq tally.maxHighestAcceptedSeq }, .won)
    else
      (if tally.highestView > server.view then server.adoptView tally.highestView else server, .lost)
  else (server, .retry)

end Chubby.Paxos
