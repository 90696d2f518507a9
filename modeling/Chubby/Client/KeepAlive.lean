/-
This file models `send_keep_alive` for any configured cells and proves when it uses its grace period in
full.
-/

import Chubby.Library.Runs
import Chubby.Library.Samples

namespace Chubby.Client

open Chubby.Library

/-- `chubby_init` collects the lines that are not empty and fails when there is none. -/
structure ChubbyCells where
  names : List String
  distinct : names.Nodup
  configured : names ≠ []
  filled : "" ∉ names

/-- The fields of `ClientLib` that the calls of a client change, with the widths of the source. -/
structure ClientFields where
  currentLeader : String
  clientLeaseTimeout : UInt64
  acceptRequests : Bool
  latestEpochNumber : Int32
  deriving DecidableEq, Repr

def gracePeriod : UInt64 := 45

def connectionTryLimit : Nat := 5

structure KeepAliveReply where
  success : Bool
  leaseTimeout : UInt64
  epochNumber : UInt32
  deriving DecidableEq, Repr

/-- What `sample` and `shuffle` leave in `server_ports`. -/
abbrev ServerPorts (cells : ChubbyCells) := Sample cells.names connectionTryLimit ""

/-- Between two steps `send_keep_alive` is about to read the clock for one of its loops, to test the
condition of that loop against the time it has read, or to get the outcome of its call. -/
inductive Position where
  | reading (grace : Bool)
  | looping (grace : Bool) (currentTime : UInt64)
  | calling (grace : Bool) (currentTime : UInt64) (cell : String)
  | returned (code : Int)
  deriving DecidableEq, Repr

/-- The last reading and the contacted cells are history variables. -/
structure SendKeepAlive where
  client : ClientFields
  position : Position
  lastReading : UInt64
  contacted : List String
  deriving DecidableEq, Repr

/-- The outcome of a call is `none` for every status but OK. -/
inductive KeepAliveStep (cells : ChubbyCells) where
  | read (now : UInt64)
  | test
  | draw (ports : ServerPorts cells)
  | outcome (reply : Option KeepAliveReply)

namespace SendKeepAlive

/-- The first action of `send_keep_alive` is to read the clock. -/
def start (client : ClientFields) : SendKeepAlive := ⟨client, .reading false, 0, []⟩

def read (s : SendKeepAlive) (now : UInt64) : Option SendKeepAlive :=
  match s.position with
  | .reading grace => some { s with position := .looping grace now, lastReading := now }
  | _ => none

def call (s : SendKeepAlive) (grace : Bool) (currentTime : UInt64) (cell : String) : SendKeepAlive :=
  { s with position := .calling grace currentTime cell, contacted := s.contacted ++ [cell] }

/-- A pass of the second loop needs its random choice and is a step of its own. -/
def test (s : SendKeepAlive) : Option SendKeepAlive :=
  match s.position with
  | .looping false currentTime =>
      if currentTime < s.client.clientLeaseTimeout then
        some (s.call false currentTime s.client.currentLeader)
      else some { s with position := .reading true }
  | .looping true currentTime =>
      if currentTime < s.client.clientLeaseTimeout + gracePeriod then none
      else some { s with position := .returned (-1) }
  | _ => none

variable {cells : ChubbyCells}

/-- Every pass of the second loop starts the jeopardy phase. -/
def draw (s : SendKeepAlive) (ports : ServerPorts cells) : Option SendKeepAlive :=
  match s.position with
  | .looping true currentTime =>
      if currentTime < s.client.clientLeaseTimeout + gracePeriod then
        let jeopardy := { s with client := { s.client with acceptRequests := false } }
        if ports.first = "" then some { jeopardy with position := .returned (-2) }
        else some (jeopardy.call true currentTime ports.first)
      else none
  | _ => none

/-- A newer epoch makes the loop go on with the time that it has read before. -/
def answered (s : SendKeepAlive) (grace : Bool) (currentTime : UInt64) (cell : String)
    (reply : KeepAliveReply) : SendKeepAlive :=
  if reply.success then
    if s.client.latestEpochNumber.toUInt32 < reply.epochNumber then
      { s with
        client := { s.client with latestEpochNumber := reply.epochNumber.toInt32 }
        position := .looping grace currentTime }
    else
      { s with
        client := { s.client with
          clientLeaseTimeout := reply.leaseTimeout
          currentLeader := if grace then cell else s.client.currentLeader
          acceptRequests := true }
        position := .returned 0 }
  else { s with position := .reading grace }

/-- A call of a cell that is not configured goes through a null stub and has no outcome. -/
def outcome (cells : ChubbyCells) (s : SendKeepAlive) (reply : Option KeepAliveReply) :
    Option SendKeepAlive :=
  match s.position with
  | .calling grace currentTime cell =>
      if cell ∈ cells.names then
        match reply with
        | none => some { s with position := .reading grace }
        | some reply => some (s.answered grace currentTime cell reply)
      else none
  | _ => none

def step (cells : ChubbyCells) (s : SendKeepAlive) : KeepAliveStep cells → Option SendKeepAlive
  | .read now => s.read now
  | .test => s.test
  | .draw ports => s.draw ports
  | .outcome reply => s.outcome cells reply

/-- Only configured cells have been contacted, and a failure is returned only after the grace period. -/
def UsesGrace (cells : ChubbyCells) (s : SendKeepAlive) : Prop :=
  (∀ cell ∈ s.contacted, cell ∈ cells.names) ∧ ∀ code, s.position = .returned code → code ≠ 0 →
    s.client.clientLeaseTimeout.toNat + gracePeriod.toNat ≤ s.lastReading.toNat

/-- The leader that the first loop calls is configured, and the end of the grace period fits in 64 bits
when the second loop is left. -/
def FairTest (cells : ChubbyCells) (client : ClientFields) : Position → Prop
  | .looping false currentTime =>
      currentTime < client.clientLeaseTimeout → client.currentLeader ∈ cells.names
  | .looping true _ => client.clientLeaseTimeout.toNat + gracePeriod.toNat < UInt64.size
  | _ => True

instance (cells : ChubbyCells) (client : ClientFields) : DecidablePred (FairTest cells client)
  | .looping false _ => inferInstanceAs (Decidable (_ → _))
  | .looping true _ => inferInstanceAs (Decidable (_ < _))
  | .reading _ | .calling .. | .returned _ => .isTrue trivial

/-- The tests are fair, and the random choice does not put an empty port in front. -/
def Fair (cells : ChubbyCells) (s : SendKeepAlive) : KeepAliveStep cells → Prop
  | .test => FairTest cells s.client s.position
  | .draw ports => ports.first ≠ ""
  | _ => True

instance (cells : ChubbyCells) (s : SendKeepAlive) : DecidablePred (s.Fair cells)
  | .test => inferInstanceAs (Decidable (FairTest cells s.client s.position))
  | .draw ports => inferInstanceAs (Decidable (ports.first ≠ ""))
  | .read _ | .outcome _ => .isTrue trivial

/-- The time that a loop tests is the last reading, also when the loop goes on without a new one. -/
def Timed (s : SendKeepAlive) : Prop :=
  (∀ grace currentTime, s.position = .looping grace currentTime → currentTime = s.lastReading) ∧
    ∀ grace currentTime cell, s.position = .calling grace currentTime cell → currentTime = s.lastReading

/-- An answer ends the call with a success or keeps it going; it contacts no cell and reads no clock. -/
theorem answered_cases (s : SendKeepAlive) (grace : Bool) (currentTime : UInt64) (cell : String)
    (reply : KeepAliveReply) : ∃ client position,
      s.answered grace currentTime cell reply = { s with client, position } ∧
      (position = .reading grace ∨ position = .looping grace currentTime ∨ position = .returned 0) := by
  unfold answered
  split
  · split
    · exact ⟨_, _, rfl, .inr (.inl rfl)⟩
    · exact ⟨_, _, rfl, .inr (.inr rfl)⟩
  · exact ⟨_, _, rfl, .inl rfl⟩

/-- What a step does to the position, with the cell that it contacts. -/
inductive Moves (cells : ChubbyCells) (s : SendKeepAlive) : KeepAliveStep cells → SendKeepAlive → Prop where
  | reads {now : UInt64} {grace : Bool} (reading : s.position = .reading grace) :
      Moves cells s (.read now) { s with position := .looping grace now, lastReading := now }
  | calls {currentTime : UInt64} (loops : s.position = .looping false currentTime)
      (leased : currentTime < s.client.clientLeaseTimeout) :
      Moves cells s .test (s.call false currentTime s.client.currentLeader)
  | leaves {currentTime : UInt64} (loops : s.position = .looping false currentTime)
      (expired : ¬ currentTime < s.client.clientLeaseTimeout) :
      Moves cells s .test { s with position := .reading true }
  | expires {currentTime : UInt64} (loops : s.position = .looping true currentTime)
      (used : ¬ currentTime < s.client.clientLeaseTimeout + gracePeriod) :
      Moves cells s .test { s with position := .returned (-1) }
  | givesUp {ports : ServerPorts cells} {currentTime : UInt64} {client : ClientFields}
      (loops : s.position = .looping true currentTime)
      (remains : currentTime < s.client.clientLeaseTimeout + gracePeriod) (empty : ports.first = "")
      (lease : client.clientLeaseTimeout = s.client.clientLeaseTimeout) :
      Moves cells s (.draw ports) { s with client, position := .returned (-2) }
  | tries {ports : ServerPorts cells} {currentTime : UInt64} {client : ClientFields}
      (loops : s.position = .looping true currentTime)
      (remains : currentTime < s.client.clientLeaseTimeout + gracePeriod) (filled : ports.first ≠ "") :
      Moves cells s (.draw ports) ({ s with client }.call true currentTime ports.first)
  | ends {reply : Option KeepAliveReply} {grace : Bool} {currentTime : UInt64} {cell : String}
      {client : ClientFields} {position : Position}
      (calling : s.position = .calling grace currentTime cell)
      (continues : position = .reading grace ∨ position = .looping grace currentTime ∨
        position = .returned 0) : Moves cells s (.outcome reply) { s with client, position }

theorem test_moves {s next : SendKeepAlive} (taken : s.test = some next) : Moves cells s .test next := by
  unfold test at taken
  split at taken
  next currentTime loops =>
    split at taken
    next leased => cases taken; exact .calls loops leased
    next expired => cases taken; exact .leaves loops expired
  next currentTime loops =>
    split at taken
    · cases taken
    next used => cases taken; exact .expires loops used
  · cases taken

theorem draw_moves {s next : SendKeepAlive} {ports : ServerPorts cells} (taken : s.draw ports = some next) :
    Moves cells s (.draw ports) next := by
  unfold draw at taken
  split at taken
  next currentTime loops =>
    split at taken
    next remains =>
      dsimp only at taken
      split at taken
      next empty => cases taken; exact .givesUp loops remains empty rfl
      next filled => cases taken; exact .tries loops remains filled
    · cases taken
  · cases taken

theorem outcome_moves {s next : SendKeepAlive} {reply : Option KeepAliveReply}
    (taken : s.outcome cells reply = some next) : Moves cells s (.outcome reply) next := by
  unfold outcome at taken
  split at taken
  next grace currentTime cell calling =>
    split at taken
    next configured =>
      split at taken
      · cases taken
        exact .ends calling (.inl rfl)
      next reply =>
        cases taken
        obtain ⟨client, position, same, continues⟩ := s.answered_cases grace currentTime cell reply
        rw [same]
        exact .ends calling continues
    · cases taken
  · cases taken

theorem step_moves {s next : SendKeepAlive} {label : KeepAliveStep cells}
    (taken : s.step cells label = some next) : Moves cells s label next := by
  cases label with
  | read now =>
      change s.read now = some next at taken
      unfold read at taken
      split at taken
      next grace reading => cases taken; exact .reads reading
      · cases taken
  | test => exact test_moves taken
  | draw ports => exact draw_moves taken
  | outcome reply => exact outcome_moves taken

theorem Timed.step {s next : SendKeepAlive} {label : KeepAliveStep cells} (timed : s.Timed)
    (taken : s.step cells label = some next) : next.Timed := by
  cases step_moves taken with
  | reads reading =>
      refine ⟨fun grace currentTime loops => ?_, fun grace currentTime cell calling => ?_⟩
      · cases loops
        rfl
      · cases calling
  | calls loops leased =>
      refine ⟨fun grace currentTime again => ?_, fun grace currentTime cell calling => ?_⟩
      · cases again
      · cases calling
        exact timed.1 _ _ loops
  | tries loops remains filled =>
      refine ⟨fun grace currentTime again => ?_, fun grace currentTime cell calling => ?_⟩
      · cases again
      · cases calling
        exact timed.1 _ _ loops
  | leaves | expires | givesUp => exact ⟨nofun, nofun⟩
  | ends calling continues =>
      refine ⟨fun grace currentTime loops => ?_, fun grace currentTime cell again => ?_⟩
      · rcases continues with same | same | same
        · cases same.symm.trans loops
        · cases same.symm.trans loops
          exact timed.2 _ _ _ calling
        · cases same.symm.trans loops
      · rcases continues with same | same | same <;> cases same.symm.trans again

/-- A lease whose grace period fits in 64 bits is passed as soon as the loop's test says so. -/
theorem passed_iff {lease now : UInt64} (passed : ¬ now < lease + gracePeriod) :
    lease.toNat + gracePeriod.toNat ≤ now.toNat ↔
      lease.toNat + gracePeriod.toNat < UInt64.size := by
  rw [UInt64.lt_iff_toNat_lt, UInt64.toNat_add] at passed
  have small : now.toNat < UInt64.size := now.toNat_lt
  constructor
  · intro used
    omega
  · intro fits
    rw [Nat.mod_eq_of_lt fits] at passed
    omega

/-- Before the end of the sum of 64 bits the grace period is not used. -/
theorem unused_of_remains {lease now : UInt64} (remains : now < lease + gracePeriod) :
    ¬ lease.toNat + gracePeriod.toNat ≤ now.toNat := by
  rw [UInt64.lt_iff_toNat_lt, UInt64.toNat_add] at remains
  exact Nat.not_le.mpr (Nat.lt_of_lt_of_le remains (Nat.mod_le _ _))

/-- A state that has not returned a failure only has to name configured cells. -/
theorem usesGrace_of_running {s : SendKeepAlive} (running : ∀ code, s.position = .returned code → code = 0) :
    s.UsesGrace cells ↔ ∀ cell ∈ s.contacted, cell ∈ cells.names :=
  ⟨fun uses => uses.1, fun configured => ⟨configured, fun code returned failed =>
    absurd (running code returned) failed⟩⟩

theorem call_configured {s : SendKeepAlive} (configured : ∀ cell ∈ s.contacted, cell ∈ cells.names)
    (grace : Bool) (currentTime : UInt64) (cell : String) :
    (s.call grace currentTime cell).UsesGrace cells ↔ cell ∈ cells.names := by
  rw [usesGrace_of_running fun _ returned => by cases returned]
  constructor
  · intro all
    exact all cell (List.mem_append_right _ (List.mem_singleton_self cell))
  · intro member other contacted
    rcases List.mem_append.mp contacted with before | new
    · exact configured other before
    · cases List.mem_singleton.mp new
      exact member

/-- One step keeps the grace period exactly when it is fair. -/
theorem usesGrace_iff {s next : SendKeepAlive} {label : KeepAliveStep cells} (timed : s.Timed)
    (uses : s.UsesGrace cells) (taken : s.step cells label = some next) :
    next.UsesGrace cells ↔ s.Fair cells label := by
  cases step_moves taken with
  | reads reading =>
      exact iff_of_true ((usesGrace_of_running fun _ returned => by cases returned).mpr uses.1) trivial
  | calls loops leased =>
      rw [call_configured uses.1]
      unfold Fair
      dsimp only
      rw [loops]
      exact ⟨fun member _ => member, fun fair => fair leased⟩
  | leaves loops expired =>
      refine iff_of_true ((usesGrace_of_running fun _ returned => by cases returned).mpr uses.1) ?_
      unfold Fair
      dsimp only
      rw [loops]
      exact fun leased => absurd leased expired
  | expires loops used =>
      cases timed.1 _ _ loops
      unfold Fair
      dsimp only
      rw [loops]
      refine Iff.trans ?_ (passed_iff used)
      exact ⟨fun after => after.2 (-1) rfl (by decide), fun passed => ⟨uses.1, fun _ _ _ => passed⟩⟩
  | givesUp loops remains empty lease =>
      cases timed.1 _ _ loops
      refine iff_of_false (fun after => ?_) fun fair => fair empty
      have used := after.2 (-2) rfl (by decide)
      dsimp only at used
      rw [lease] at used
      exact unused_of_remains remains used
  | @tries ports currentTime client loops remains filled =>
      refine iff_of_true ?_ filled
      exact (@call_configured cells { s with client } uses.1 _ _ _).mpr (Sample.first_mem_population filled)
  | ends calling continues =>
      refine iff_of_true ((usesGrace_of_running fun code returned => ?_).mpr uses.1) trivial
      rcases continues with same | same | same <;> cases same.symm.trans returned
      rfl

/-- With enough configured cells the random choice is always fair. -/
theorem fair_draw_of_enough (s : SendKeepAlive) (enough : connectionTryLimit ≤ cells.names.length)
    (ports : ServerPorts cells) : s.Fair cells (.draw ports) :=
  Sample.first_of_enough (by decide) enough cells.filled

/-- With fewer cells some random choice ends the first pass of the second loop. -/
theorem exists_unfair_draw (s : SendKeepAlive) (few : cells.names.length < connectionTryLimit) :
    ∃ ports : ServerPorts cells, ¬ s.Fair cells (.draw ports) := by
  obtain ⟨ports, empty⟩ := Sample.exists_blank_first few
  exact ⟨ports, fun fair => fair empty⟩

end SendKeepAlive

/-- Along every run of `send_keep_alive` it contacts only configured cells and returns a failure only
after its grace period exactly when every step is fair. -/
theorem usesGrace_iff_fair {cells : ChubbyCells} {client : ClientFields} {labels : List (KeepAliveStep cells)}
    {final : SendKeepAlive}
    (ran : run (SendKeepAlive.step cells) (SendKeepAlive.start client) labels = some final) :
    EveryStep (SendKeepAlive.step cells) (fun _ _ next => next.UsesGrace cells) (SendKeepAlive.start client)
        labels ↔
      Guarded (SendKeepAlive.step cells) (SendKeepAlive.Fair cells) (SendKeepAlive.start client) labels := by
  refine everyStep_iff_guarded_of_invariant (fun s => s.Timed ∧ s.UsesGrace cells) ?_ ?_
    ⟨⟨nofun, nofun⟩, nofun, nofun⟩ ran
  · rintro s label next ⟨timed, uses⟩ taken
    exact SendKeepAlive.usesGrace_iff timed uses taken
  · rintro s label next ⟨timed, uses⟩ fair taken
    exact ⟨timed.step taken, (SendKeepAlive.usesGrace_iff timed uses taken).mpr fair⟩

/-- Five configured cells, and a random choice that keeps their order. -/
def fiveCells : ChubbyCells :=
  ⟨["127.0.0.1:50051", "127.0.0.1:50052", "127.0.0.1:50053", "127.0.0.1:50054", "127.0.0.1:50055"],
    by decide, by decide, by decide⟩

def fiveInOrder : ServerPorts fiveCells := ⟨fiveCells.names, fiveCells.names, .refl _, rfl, .refl _⟩

/-- The lease and then its grace period run out while every call fails. -/
def allCallsFail : List (KeepAliveStep fiveCells) :=
  [.read 5, .test, .outcome none, .read 10, .test, .read 10, .draw fiveInOrder, .outcome none, .read 60, .test]

theorem usesGrace_iff_fair_expired : ∃ final : SendKeepAlive, final.position = .returned (-1) ∧
    run (SendKeepAlive.step fiveCells) (SendKeepAlive.start ⟨"127.0.0.1:50051", 10, true, 0⟩)
      allCallsFail = some final ∧
    EveryStep (SendKeepAlive.step fiveCells) (fun _ _ next => next.UsesGrace fiveCells)
      (SendKeepAlive.start ⟨"127.0.0.1:50051", 10, true, 0⟩) allCallsFail := by
  obtain ⟨final, ran, expired⟩ := (Option.any_eq_true _ _).mp (by decide +kernel :
    (run (SendKeepAlive.step fiveCells) (SendKeepAlive.start ⟨"127.0.0.1:50051", 10, true, 0⟩)
      allCallsFail).any (fun final => decide (final.position = .returned (-1))) = true)
  exact ⟨final, of_decide_eq_true expired, ran, (usesGrace_iff_fair ran).mpr (by decide +kernel)⟩

def oneCell : ChubbyCells := ⟨["127.0.0.1:50051"], by decide, by decide, by decide⟩

/-- The only cell is shuffled behind an empty port. -/
def emptyInFront : ServerPorts oneCell :=
  ⟨["127.0.0.1:50051"], ["", "127.0.0.1:50051", "", "", ""], .refl _, rfl, by decide⟩

/-- The client returns -2 in the first second of its grace period, without any call. -/
theorem grace_unused : ¬ ∀ (cells : ChubbyCells) (client : ClientFields) (labels : List (KeepAliveStep cells))
    (final : SendKeepAlive),
    run (SendKeepAlive.step cells) (SendKeepAlive.start client) labels = some final →
      final.UsesGrace cells := by
  intro uses
  obtain ⟨final, ran, gaveUp⟩ := (Option.any_eq_true _ _).mp (by decide +kernel :
    (run (SendKeepAlive.step oneCell) (SendKeepAlive.start ⟨"127.0.0.1:50051", 100, true, 0⟩)
      [.read 100, .test, .read 100, .draw emptyInFront]).any (fun final => decide
        (final.position = .returned (-2) ∧ final.client.clientLeaseTimeout = 100 ∧
          final.lastReading = 100)) = true)
  obtain ⟨returned, lease, lastReading⟩ := of_decide_eq_true gaveUp
  have used := (uses oneCell _ _ final ran).2 (-2) returned (by decide)
  rw [lease, lastReading] at used
  exact absurd used (by decide)

end Chubby.Client
