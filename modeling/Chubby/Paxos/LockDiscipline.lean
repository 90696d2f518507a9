/-
This file proves when the calls behind one `Start` keep the rules of their mutexes.
-/

import Chubby.Library.Mutexes
import Chubby.Paxos.Round

namespace Chubby.Paxos

open Chubby.Library

/-- A call on one slot uses the mutex of the server and the two mutexes of the slot. -/
inductive Mutex where
  | mu
  | slotMu
  | slotMu_
  deriving DecidableEq, Repr

/-- The calls behind one `Start` have the server and the mutexes that they hold together. -/
structure CallChain where
  server : PaxosImpl
  held : List Mutex

/-- A thread is joined by its parent, so every call waits for the call that it makes. -/
inductive Call where
  | startOnForward
  | startOnNewSlot (myView : Int)
  deriving DecidableEq, Repr

/-- What one call meets: the other threads change the server until its first section and during its
remote calls, and these have outcomes. -/
structure Scene (n : Nat) where
  entering : PaxosImpl → PaxosImpl
  calling : PaxosImpl → PaxosImpl
  prepareReplies : Fin n → Option PrepareResponse
  acceptReplies : Fin n → Option AcceptResponse
  answered : Bool

namespace CallChain

abbrev Outcome : Type := Except (Fault Mutex) CallChain

variable {n : Nat} (me : Fin n) (seq : Int) (v : String)

/-- The block that follows both phases and runs when a reply had a larger accepted number. -/
def forwardAgain (call : Call → CallChain → Outcome) (startOnNewSlotLock : UniqueLock Mutex)
    (highestNa : Int) (chain : CallChain) : Outcome := do
  let (object, held) ← startOnNewSlotLock.lock chain.held
  let (object, chain) ←
    if highestNa > chain.server.view then do
      let (object, held) ← object.unlock held
      let called ← call .startOnForward ⟨chain.server.adoptView highestNa, held⟩
      pure (object, called)
    else pure (object, { chain with held })
  let (_, held) ← object.unlock chain.held
  call .startOnForward { chain with held }

/-- A thread for each server takes `mu` to build its request. -/
def learnPhase (chain : CallChain) : Outcome := do
  let held ← (List.finRange n).foldlM (fun held _ => passMutex .mu held) chain.held
  pure { chain with held }

/-- A phase without a majority sleeps under the second mutex of the slot. -/
def pause (missing : Bool) (chain : CallChain) : Outcome :=
  if missing then do
    let held ← passMutex .slotMu_ chain.held
    pure { chain with held }
  else pure chain

/-- The thread of every reply that reports a decision takes `mu` to note its value. -/
def acceptPhase (scene : Scene n) (call : Call → CallChain → Outcome)
    (startOnNewSlotLock : UniqueLock Mutex) (myView highestNa : Int) (chain : CallChain) : Outcome := do
  let outcomes := List.ofFn scene.acceptReplies
  let reports := outcomes.filter fun outcome => outcome.any (·.reportsDecision seq)
  let held ← reports.foldlM (fun held _ => passMutex .mu held) chain.held
  if isDecidedAcc seq outcomes then pure { chain with held }
  else if highestNa > myView then
    forwardAgain call startOnNewSlotLock highestNa ⟨scene.calling chain.server, held⟩
  else do
    let chain ← pause (acceptMajorityCount outcomes ≤ n / 2) { chain with held }
    learnPhase (n := n) chain

/-- The locals after the calls of the prepare loop. -/
def prepared (scene : Scene n) (server : PaxosImpl) : PrepareLocals :=
  let highestN := (server.slotAt seq).highestN
  prepareLoop asInt n (.initial v highestN)
    (processed asInt n (.initial v highestN) (List.ofFn scene.prepareReplies))

/-- The round raises the number of its slot and notes the numbers of the replies. -/
def raised (scene : Scene n) (server : PaxosImpl) : PaxosImpl :=
  let slot := server.slotAt seq
  server.setSlot seq
    { slot with n := nextNumber n slot, highestN := (prepared seq v scene server).slotHighestN }

/-- The phases that run between the two destructors of `StartOnNewSlot`. -/
def phases (scene : Scene n) (call : Call → CallChain → Outcome) (myView : Int)
    (startOnNewSlotLock : UniqueLock Mutex) (chain : CallChain) : Outcome := do
  let (object, held) ← startOnNewSlotLock.unlock chain.held
  if seq ≤ chain.server.highestAcceptedSeq then
    let locals := prepared seq v scene chain.server
    let server := raised seq v scene chain.server
    match afterPrepare v myView locals with
    | .forward highestNa => forwardAgain call object highestNa ⟨scene.calling server, held⟩
    | .accept _ => do
        let chain ← pause (locals.majorityCount ≤ n / 2) ⟨server, held⟩
        acceptPhase seq scene call object myView locals.highestNa chain
    | .learn _ => learnPhase (n := n) ⟨server, held⟩
  else acceptPhase seq scene call object myView (-1) ⟨chain.server, held⟩

def startOnNewSlot (scene : Scene n) (call : Call → CallChain → Outcome) (myView : Int)
    (chain : CallChain) : Outcome := do
  let (slotLock, held) ← UniqueLock.acquire .slotMu chain.held
  let entered := scene.entering chain.server
  if (entered.slotAt seq).status = .decided ∨ entered.isDead = true then
    pure ⟨entered, slotLock.destroy held⟩
  else
    let (object, held) ← UniqueLock.acquire .mu held
    let chain ← phases seq v scene call myView object ⟨entered, held⟩
    pure { chain with held := slotLock.destroy chain.held }

/-- The stub map has an empty pointer for a leader that does not exist. -/
def startOnForward (scene : Scene n) (call : Call → CallChain → Outcome) (chain : CallChain) :
    Outcome := do
  let (startOnForwardLock, held) ← UniqueLock.acquire .mu chain.held
  let (server, action) := (scene.entering chain.server).startOnForward me seq
  match action with
  | .newSlot view => do
      let chain ← call (.startOnNewSlot view) ⟨server, held⟩
      pure { chain with held := startOnForwardLock.destroy chain.held }
  | .forward | .stop =>
      match leaderOf n server.view with
      | none => .error .crashed
      | some _ =>
          if scene.answered then pure ⟨scene.calling server, startOnForwardLock.destroy held⟩
          else do
            let held ← passMutex .mu held
            pure ⟨scene.calling server, startOnForwardLock.destroy held⟩

/-- A call makes at most one call before it returns or faults, so the scenes follow the calls. -/
def call : Nat → (Nat → Scene n) → Call → CallChain → Outcome
  | 0, _, _, _ => .error .unfinished
  | fuel + 1, scenes, .startOnForward, chain =>
      startOnForward me seq (scenes 0) (call fuel fun depth => scenes (depth + 1)) chain
  | fuel + 1, scenes, .startOnNewSlot myView, chain =>
      startOnNewSlot seq v (scenes 0) (call fuel fun depth => scenes (depth + 1)) myView chain

/-- `Start` unlocks `mu` before it copies the view for the thread of the round; `copying` is what the
other threads change in between. -/
def start (fuel : Nat) (copying : PaxosImpl → PaxosImpl) (scenes : Nat → Scene n) (server : PaxosImpl) :
    Outcome := do
  let (startLock, held) ← UniqueLock.acquire .mu []
  let (server, action) := server.start me seq
  match action with
  | .stop => pure ⟨server, startLock.destroy held⟩
  | .newSlot _ => do
      let (object, held) ← startLock.unlock held
      let server := copying server
      let chain ← call me seq v fuel scenes (.startOnNewSlot server.view) ⟨server, held⟩
      pure { chain with held := object.destroy chain.held }
  | .forward => do
      let (object, held) ← startLock.unlock held
      let chain ← call me seq v fuel scenes .startOnForward ⟨server, held⟩
      pure { chain with held := object.destroy chain.held }

section Condition

/-- The calls of a round end without one of `StartOnForward`. -/
def roundForwards (scene : Scene n) (myView : Int) (server : PaxosImpl) : Option Int :=
  (Paxos.startOnNewSlot server seq v myView scene.prepareReplies scene.acceptReplies).forwards

/-- The server once the calls before that of `StartOnForward` have ended. -/
def called (scene : Scene n) (server : PaxosImpl) : PaxosImpl :=
  scene.calling (if seq ≤ server.highestAcceptedSeq then raised seq v scene server else server)

/-- A round that finds its slot closed returns at once. -/
def Closed (server : PaxosImpl) : Prop :=
  (server.slotAt seq).status = .decided ∨ server.isDead = true

instance (server : PaxosImpl) : Decidable (Closed seq server) := inferInstanceAs (Decidable (_ ∨ _))

/-- The call of `StartOnForward` behind a `Start` proposes only on a slot that is closed by then, and
otherwise has an answer from its leader. -/
def ForwardsInOrder (scenes : Nat → Scene n) (server : PaxosImpl) : Prop :=
  match ((scenes 0).entering server).startOnForward me seq with
  | (moved, .newSlot _) => Closed seq ((scenes 1).entering moved)
  | (moved, _) => leaderOf n moved.view = none ∨ (scenes 0).answered = true

/-- The call of `StartOnForward` behind a round never proposes. It has an answer from its leader, and
the round has not raised the view before it, unless the process ends there. -/
def RoundInOrder (scenes : Nat → Scene n) (myView : Int) (server : PaxosImpl) : Prop :=
  let entered := (scenes 0).entering server
  match roundForwards seq v (scenes 0) myView entered with
  | none => True
  | some highestNa =>
      let before := called seq v (scenes 0) entered
      match ((scenes 1).entering (before.raiseView highestNa)).startOnForward me seq with
      | (_, .newSlot _) => False
      | (moved, _) => leaderOf n moved.view = none ∨
          (highestNa ≤ before.view ∧ (scenes 1).answered = true)

def InOrder (copying : PaxosImpl → PaxosImpl) (scenes : Nat → Scene n) (server : PaxosImpl) : Prop :=
  match server.start me seq with
  | (_, .stop) => True
  | (added, .forward) => ForwardsInOrder me seq scenes added
  | (added, .newSlot _) => RoundInOrder me seq v scenes (copying added).view (copying added)

end Condition

variable {me seq v} {scene : Scene n} {chain : CallChain} {myView : Int}

/-- A round on a slot whose mutex a waiting call holds never starts. -/
theorem startOnNewSlot_relocks {call : Call → CallChain → Outcome} (member : Mutex.slotMu ∈ chain.held) :
    startOnNewSlot seq v scene call myView chain = .error (.relocked .slotMu) := by
  unfold startOnNewSlot
  rw [acquire_of_mem member]
  rfl

/-- A round under `mu` gets past the test of its slot only to wait for itself. -/
theorem startOnNewSlot_underMu {call : Call → CallChain → Outcome} (mu : Mutex.mu ∈ chain.held)
    (slotMu : Mutex.slotMu ∉ chain.held) :
    Disciplined (startOnNewSlot seq v scene call myView chain) ↔
      Closed seq (scene.entering chain.server) := by
  unfold startOnNewSlot
  rw [acquire_of_notMem slotMu]
  show Disciplined (if Closed seq (scene.entering chain.server) then _ else _) ↔ _
  split
  next closed => exact iff_of_true trivial closed
  next opened =>
    rw [acquire_of_mem (List.mem_cons_of_mem _ mu)]
    exact iff_of_false id opened

/-- How a call of `StartOnForward` ends is decided by what it finds and by its own call. -/
theorem startOnForward_eq {call : Call → CallChain → Outcome} (free : Mutex.mu ∉ chain.held) :
    startOnForward me seq scene call chain =
      match (scene.entering chain.server).startOnForward me seq with
      | (moved, .newSlot view) =>
          call (.startOnNewSlot view) ⟨moved, .mu :: chain.held⟩ >>= fun called =>
            .ok { called with held := unlockMutex .mu called.held }
      | (moved, _) =>
          if leaderOf n moved.view = none then .error .crashed
          else if scene.answered then .ok ⟨scene.calling moved, chain.held⟩
          else .error (.relocked .mu) := by
  unfold startOnForward
  rw [acquire_of_notMem free]
  generalize (scene.entering chain.server).startOnForward me seq = looked
  obtain ⟨moved, action⟩ := looked
  have calls : (match leaderOf n moved.view with
      | none => .error .crashed
      | some _ =>
          if scene.answered then
            pure ⟨scene.calling moved, UniqueLock.destroy ⟨.mu, true⟩ (.mu :: chain.held)⟩
          else do
            let held ← passMutex .mu (.mu :: chain.held)
            pure ⟨scene.calling moved, UniqueLock.destroy ⟨.mu, true⟩ held⟩ : Outcome) =
      if leaderOf n moved.view = none then .error .crashed
      else if scene.answered then .ok ⟨scene.calling moved, chain.held⟩
      else .error (.relocked .mu) := by
    cases leaderOf n moved.view with
    | none => rfl
    | some leader =>
        rw [passMutex_of_mem (List.mem_cons_self ..)]
        cases scene.answered
        · rfl
        · simp [UniqueLock.destroy, unlockMutex, pure, Except.pure]
  cases action with
  | newSlot view => rfl
  | forward => exact calls
  | stop => exact calls

/-- The block hands the slot over in order exactly when its one call returns, or ends the process when
the view has been raised before it. -/
theorem forwardAgain_disciplined {call : Call → CallChain → Outcome} {highestNa : Int}
    (free : Mutex.mu ∉ chain.held) :
    Disciplined (forwardAgain call ⟨.mu, false⟩ highestNa chain) ↔
      if highestNa > chain.server.view then
        call .startOnForward ⟨chain.server.adoptView highestNa, chain.held⟩ = .error .crashed
      else Disciplined (call .startOnForward chain) := by
  have given : UniqueLock.lock ⟨.mu, false⟩ chain.held = .ok (⟨.mu, true⟩, .mu :: chain.held) :=
    acquire_of_notMem free
  have back : UniqueLock.unlock ⟨.mu, true⟩ (.mu :: chain.held) = .ok (⟨.mu, false⟩, chain.held) := by
    simp [UniqueLock.unlock, unlockMutex]
  unfold forwardAgain
  rw [given]
  by_cases larger : highestNa > chain.server.view
  · rw [if_pos larger, ← disciplined_notOwned]
    simp only [bind, Except.bind, if_pos larger, back]
    cases call .startOnForward ⟨chain.server.adoptView highestNa, chain.held⟩ <;> rfl
  · rw [if_neg larger]
    simp only [bind, Except.bind, if_neg larger, pure, Except.pure, back]

/-- The threads and the sleeps of a phase take only free mutexes. -/
theorem learnPhase_disciplined (free : Mutex.mu ∉ chain.held) :
    Disciplined (learnPhase (n := n) chain) := by
  unfold learnPhase
  rw [passMutex_each _ free]
  trivial

theorem pause_eq {missing : Bool} (free : Mutex.slotMu_ ∉ chain.held) :
    pause missing chain = .ok chain := by
  unfold pause
  rw [passMutex_of_notMem free]
  cases missing <;> rfl

/-- The accept phase breaks a rule only through the block behind it. -/
theorem acceptPhase_disciplined {call : Call → CallChain → Outcome} {highestNa : Int}
    {prepared : Option (List (Option PrepareResponse))} {value : String}
    (mu : Mutex.mu ∉ chain.held) (slotMu_ : Mutex.slotMu_ ∉ chain.held) :
    Disciplined (acceptPhase seq scene call ⟨.mu, false⟩ myView highestNa chain) ↔
      match (Paxos.acceptPhase prepared seq myView highestNa value scene.acceptReplies).forwards with
      | none => True
      | some highestNa =>
          Disciplined (forwardAgain call ⟨.mu, false⟩ highestNa ⟨scene.calling chain.server, chain.held⟩) := by
  unfold acceptPhase Paxos.acceptPhase afterAccept
  dsimp only
  rw [passMutex_each _ mu]
  by_cases decided : isDecidedAcc seq (List.ofFn scene.acceptReplies) = true
  · simp [bind, Except.bind, pure, Except.pure, decided, Disciplined]
  · by_cases larger : highestNa > myView
    · simp [bind, Except.bind, decided, larger]
    · have learns := @learnPhase_disciplined n chain mu
      simp only [bind, Except.bind, decided, larger, if_false, pause_eq slotMu_]
      exact iff_of_true learns trivial

/-- A round that is not called under `mu` breaks a rule only through the block behind its phases. -/
theorem startOnNewSlot_disciplined {call : Call → CallChain → Outcome} {server : PaxosImpl} :
    Disciplined (startOnNewSlot seq v scene call myView ⟨server, []⟩) ↔
      match roundForwards seq v scene myView (scene.entering server) with
      | none => True
      | some highestNa => Disciplined (forwardAgain call ⟨.mu, false⟩ highestNa
          ⟨called seq v scene (scene.entering server), [.slotMu]⟩) := by
  generalize entered : scene.entering server = found
  unfold startOnNewSlot roundForwards Paxos.startOnNewSlot
  rw [acquire_of_notMem List.not_mem_nil]
  simp only [bind, Except.bind, entered]
  by_cases closed : (found.slotAt seq).status = .decided ∨ found.isDead = true
  · rw [if_pos closed, if_pos closed]
    trivial
  · rw [if_neg closed, if_neg closed, acquire_of_notMem (by simp)]
    refine (disciplined_map fun chain : CallChain =>
      { chain with held := UniqueLock.destroy ⟨.slotMu, true⟩ chain.held }).trans ?_
    unfold phases called
    simp only [bind, Except.bind, UniqueLock.unlock, unlockMutex, if_true, List.erase_cons_head]
    by_cases prepares : seq ≤ found.highestAcceptedSeq
    · simp only [if_pos prepares]
      unfold prepared
      cases left : afterPrepare v myView (prepareLoop asInt n (.initial v (found.slotAt seq).highestN)
          (processed asInt n (.initial v (found.slotAt seq).highestN) (List.ofFn scene.prepareReplies))) with
      | forward highestNa => exact Iff.rfl
      | accept value =>
          have free : Mutex.slotMu_ ∉ (CallChain.mk (raised seq v scene found) [.slotMu]).held := by simp
          simp only [pause_eq free]
          exact acceptPhase_disciplined (by simp) (by simp)
      | learn value => exact iff_of_true (learnPhase_disciplined (by simp)) trivial
    · simp only [if_neg prepares]
      exact acceptPhase_disciplined (by simp) (by simp)

/-- A call of `StartOnForward` behind a round never proposes. -/
theorem call_underSlotMu {fuel : Nat} {scenes : Nat → Scene n} {server : PaxosImpl} :
    call me seq v (fuel + 2) scenes .startOnForward ⟨server, [.slotMu]⟩ =
      match ((scenes 0).entering server).startOnForward me seq with
      | (_, .newSlot _) => .error (.relocked .slotMu)
      | (moved, _) =>
          if leaderOf n moved.view = none then .error .crashed
          else if (scenes 0).answered then .ok ⟨(scenes 0).calling moved, [.slotMu]⟩
          else .error (.relocked .mu) := by
  refine (startOnForward_eq (by simp)).trans ?_
  generalize ((scenes 0).entering server).startOnForward me seq = looked
  obtain ⟨moved, action⟩ := looked
  cases action with
  | newSlot view =>
      show (startOnNewSlot seq v _ _ view _ >>= _) = _
      rw [startOnNewSlot_relocks (by simp)]
      rfl
  | forward => rfl
  | stop => rfl

/-- A call to the leader is in order when it has an answer; without a leader the process ends. -/
theorem answer_disciplined {leader : Option (Fin n)} {answered : Bool} {mutex : Mutex} :
    Disciplined (if leader = none then .error .crashed else if answered then .ok chain
      else .error (.relocked mutex) : Outcome) ↔ leader = none ∨ answered = true := by
  cases leader <;> cases answered <;> simp [Disciplined]

theorem answer_crashes {leader : Option (Fin n)} {answered : Bool} {mutex : Mutex} :
    (if leader = none then .error .crashed else if answered then .ok chain
      else .error (.relocked mutex) : Outcome) = .error .crashed ↔ leader = none := by
  cases leader <;> cases answered <;> simp

/-- A round behind `Start` is in order exactly when the call of `StartOnForward` behind it is. -/
theorem roundInOrder_iff {fuel : Nat} {scenes : Nat → Scene n} {server : PaxosImpl} :
    Disciplined (call me seq v (fuel + 3) scenes (.startOnNewSlot myView) ⟨server, []⟩) ↔
      RoundInOrder me seq v scenes myView server := by
  refine startOnNewSlot_disciplined.trans ?_
  unfold RoundInOrder
  dsimp only
  cases roundForwards seq v (scenes 0) myView ((scenes 0).entering server) with
  | none => exact Iff.rfl
  | some highestNa =>
      dsimp only
      rw [forwardAgain_disciplined (by simp)]
      generalize called seq v (scenes 0) ((scenes 0).entering server) = before
      unfold PaxosImpl.raiseView
      by_cases larger : highestNa > before.view
      · rw [if_pos larger, if_pos larger, call_underSlotMu]
        generalize ((scenes 1).entering (before.adoptView highestNa)).startOnForward me seq = looked
        obtain ⟨moved, action⟩ := looked
        have raises : ¬ (highestNa ≤ before.view ∧ (scenes 1).answered = true) := fun both => by omega
        cases action with
        | newSlot view => simp
        | forward => exact answer_crashes.trans (or_iff_left raises).symm
        | stop => exact answer_crashes.trans (or_iff_left raises).symm
      · rw [if_neg larger, if_neg larger, call_underSlotMu]
        generalize ((scenes 1).entering before).startOnForward me seq = looked
        obtain ⟨moved, action⟩ := looked
        rw [and_iff_right (show highestNa ≤ before.view by omega)]
        cases action with
        | newSlot view => exact Iff.rfl
        | forward => exact answer_disciplined
        | stop => exact answer_disciplined

/-- A call of `StartOnForward` behind `Start` is in order exactly when its own call is. -/
theorem forwardsInOrder_iff {fuel : Nat} {scenes : Nat → Scene n} {server : PaxosImpl} :
    Disciplined (call me seq v (fuel + 2) scenes .startOnForward ⟨server, []⟩) ↔
      ForwardsInOrder me seq scenes server := by
  have eq := @startOnForward_eq n me seq (scenes 0) ⟨server, []⟩
    (call me seq v (fuel + 1) fun depth => scenes (depth + 1)) (by simp)
  show Disciplined (startOnForward me seq (scenes 0) _ ⟨server, []⟩) ↔ _
  rw [eq]
  unfold ForwardsInOrder
  generalize ((scenes 0).entering server).startOnForward me seq = looked
  obtain ⟨moved, action⟩ := looked
  cases action with
  | newSlot view =>
      refine (disciplined_map fun chain : CallChain =>
        { chain with held := unlockMutex .mu chain.held }).trans ?_
      exact startOnNewSlot_underMu (by simp) (by simp)
  | forward => exact answer_disciplined
  | stop => exact answer_disciplined

/-- The calls behind one `Start` keep the rules of their mutexes exactly when they meet no unanswered
leader, no larger view and no own leadership on the way. -/
theorem start_disciplined_iff (me : Fin n) (seq : Int) (v : String) (fuel : Nat)
    (copying : PaxosImpl → PaxosImpl) (scenes : Nat → Scene n) (server : PaxosImpl) :
    Disciplined (start me seq v (fuel + 3) copying scenes server) ↔
      InOrder me seq v copying scenes server := by
  unfold start InOrder
  rw [acquire_of_notMem List.not_mem_nil]
  generalize server.start me seq = looked
  obtain ⟨added, action⟩ := looked
  cases action with
  | stop => exact iff_of_true trivial trivial
  | newSlot view =>
      refine (disciplined_map fun chain : CallChain =>
        { chain with held := UniqueLock.destroy ⟨.mu, false⟩ chain.held }).trans ?_
      exact roundInOrder_iff
  | forward =>
      refine (disciplined_map fun chain : CallChain =>
        { chain with held := UniqueLock.destroy ⟨.mu, false⟩ chain.held }).trans ?_
      exact forwardsInOrder_iff

/-- Nothing else happens around a call. -/
def quietScene (prepareReplies : Fin n → Option PrepareResponse) (answered : Bool) : Scene n where
  entering := id
  calling := id
  prepareReplies := prepareReplies
  acceptReplies := fun _ => none
  answered := answered

/-- Every server promises, with its index as the accepted number. -/
def higherViews (peer : Fin n) : Option PrepareResponse := some ⟨.ok, peer.val, "", 2, -1, ""⟩

/-- A server that becomes the leader while it waits for `mu`. -/
def leaderOnTheWay (depth : Nat) : Scene n where
  entering := fun server => if depth = 0 then server.adoptView 1 else server
  calling := id
  prepareReplies := fun _ => none
  acceptReplies := fun _ => none
  answered := true

/-- A follower whose leader does not answer waits for itself, a leader that meets a larger view unlocks
a mutex that it no longer owns, and a follower that becomes the leader on the way waits for itself. -/
theorem start_undisciplined :
    start (1 : Fin 2) 0 "x#SHARED" 3 id (fun _ => quietScene (fun _ => none) false) (.initial 2) =
      .error (.relocked .mu) ∧
    start (0 : Fin 2) 0 "x#SHARED" 3 id (fun _ => quietScene higherViews true) (.initial 2) =
      .error (.notOwned .mu) ∧
    start (1 : Fin 2) 0 "x#SHARED" 3 id leaderOnTheWay (.initial 2) = .error (.relocked .mu) ∧
    ¬ ∀ (n : Nat) (me : Fin n) (seq : Int) (v : String) (copying : PaxosImpl → PaxosImpl)
        (scenes : Nat → Scene n) (server : PaxosImpl),
      Disciplined (start me seq v 3 copying scenes server) := by
  have unanswered : start (1 : Fin 2) 0 "x#SHARED" 3 id
      (fun _ => quietScene (fun _ => none) false) (.initial 2) = .error (.relocked .mu) := rfl
  refine ⟨unanswered, rfl, rfl, fun every => ?_⟩
  have disciplined := every 2 1 0 "x#SHARED" id (fun _ => quietScene (fun _ => none) false) (.initial 2)
  rw [unanswered] at disciplined
  exact disciplined

end CallChain

end Chubby.Paxos
