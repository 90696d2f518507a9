/-
This file models a group under a stable leader, in which every RPC is delivered at once.
-/

import Chubby.Paxos.Round

namespace Chubby.Paxos

/-- The servers of a group and the one that calls `Start`. -/
structure StableGroup (n : Nat) where
  servers : Fin n → PaxosImpl
  me : Fin n

namespace StableGroup

variable {n : Nat}

def leader (g : StableGroup n) : PaxosImpl := g.servers g.me

def setServer (g : StableGroup n) (i : Fin n) (server : PaxosImpl) : StableGroup n :=
  { g with servers := Function.update g.servers i server }

/-- Before any proposal, all servers are in the view that belongs to the leader. -/
def initial (m view : Nat) : StableGroup (m + 1) where
  servers := fun _ => { PaxosImpl.initial (m + 1) with view := view }
  me := Fin.ofNat (m + 1) view

/-- The prepare loop calls the peers in order until it breaks. -/
def prepareCalls (seq number : Int) :
    StableGroup n → PrepareLocals → List (Fin n) → StableGroup n × PrepareLocals
  | g, locals, [] => (g, locals)
  | g, locals, peer :: rest =>
      let (server, reply) := (g.servers peer).prepare peer ⟨seq, number⟩
      let next := locals.iterate id n reply.toOption
      let called := g.setServer peer server
      let slot := called.leader.slotAt seq
      let raised := called.setServer g.me
        (called.leader.setSlot seq { slot with highestN := next.slotHighestN })
      if next.stopped then (raised, next) else prepareCalls seq number raised next rest

def learnCalls (g : StableGroup n) (seq : Int) (value : String) : StableGroup n :=
  { g with servers := fun i => ((g.servers i).learn i ⟨seq, value⟩ true).1 }

/-- A round that goes to `StartOnForward` is not followed further. -/
def acceptCalls (g : StableGroup n) (seq myView highestNa : Int) (value : String) : Option (StableGroup n) :=
  let request : AcceptRequest := ⟨seq, myView, value⟩
  let accepted := { g with servers := fun i => ((g.servers i).accept i request).1 }
  match afterAccept seq value (List.ofFn fun i => ((g.servers i).accept i request).2.toOption) with
  | none => some accepted
  | some learned => if highestNa > myView then none else some (accepted.learnCalls seq learned)

/-- The steps of `StartOnNewSlot` on the leader. -/
def startOnNewSlot (g : StableGroup n) (seq : Int) (v : String) (myView : Int) : Option (StableGroup n) :=
  let slot := g.leader.slotAt seq
  if slot.status = .decided ∨ g.leader.isDead then some g
  else if seq ≤ g.leader.highestAcceptedSeq then
    let number := nextNumber n slot
    let raised := g.setServer g.me (g.leader.setSlot seq { slot with n := number })
    let (prepared, locals) :=
      prepareCalls seq number raised (.initial v slot.highestN) (List.finRange n)
    match afterPrepare v myView locals with
    | .forward _ => none
    | .accept value => prepared.acceptCalls seq myView locals.highestNa value
    | .learn value => some (prepared.learnCalls seq value)
  else g.acceptCalls seq myView (-1) v

/-- `Start` on the leader returns when its round has ended. -/
def start (g : StableGroup n) (seq : Int) (v : String) : Option (StableGroup n) :=
  let (server, action) := g.leader.start g.me seq
  let added := g.setServer g.me server
  match action with
  | .stop => some added
  | .newSlot view => added.startOnNewSlot seq v view
  | .forward => none

end StableGroup

end Chubby.Paxos
