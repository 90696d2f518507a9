/-
This file proves when two clients exclude each other from a path across the whole cluster.
-/

import Chubby.Library.Claims
import Chubby.Library.Runs
import Chubby.Lock.CellEvent

namespace Chubby.Lock

open Chubby.Library

variable {n : Nat}

/-- No two clients hold one path while one of them holds it exclusively. -/
def MutualExclusion (c : Cell n) : Prop :=
  ∀ first ∈ c.holds, ∀ second ∈ c.holds, first.path = second.path → first.client ≠ second.client →
    first.mode = .shared ∧ second.mode = .shared

namespace Handler

/-- The thread is not over and has decided to put `FREE` for the path. -/
def Releasing (handler : Handler n) (path : String) : Prop :=
  handler.phase ≠ .finished ∧ path ∈ handler.freed

/-- The thread has granted the path in the mode and has not answered. -/
def Granting (handler : Handler n) (path : String) (mode : LockingMode) : Prop :=
  handler.task = .acquire mode ∧ handler.keys.head? = some path ∧ handler.phase.granted = true

instance (handler : Handler n) (path : String) : Decidable (handler.Releasing path) :=
  inferInstanceAs (Decidable (_ ∧ _))

instance (handler : Handler n) (path : String) (mode : LockingMode) :
    Decidable (handler.Granting path mode) :=
  inferInstanceAs (Decidable (_ ∧ _))

end Handler

/-- The branch that the thread takes for the path when it decides in this state. -/
def Cell.upcoming (c : Cell n) (handler : Handler n) (path : String) : Decision :=
  match handler.phase with
  | .checked session => handler.decision session (c.found handler.server path)
  | _ => .unanswered

def Decision.refuses : Decision → Bool
  | .refuse _ => true
  | .put | .join | .unanswered => false

/-- The value that a server finds is the one that was last put, or both leave the path free. -/
def Fresh (found put : Option String) : Prop := found = put ∨ (Vacant found ∧ Vacant put)

instance (found put : Option String) : Decidable (Fresh found put) := inferInstanceAs (Decidable (_ ∨ _))

/-- An acquire that is not refused reads a fresh value, while nobody releases a path that it still
holds. -/
def Cell.Current (c : Cell n) (handler : Handler n) (path : String) : Prop :=
  (c.upcoming handler path).refuses = false →
    Fresh (c.found handler.server path) (c.lastPut path) ∧
    ∀ other ∈ c.handlers, other.Releasing path →
      ∀ hold ∈ c.holds, hold.client = other.client → hold.path ≠ path

/-- A release or an expiry that puts `FREE` finds no other client that holds or is granted the
path. -/
def Cell.Unshared (c : Cell n) (handler : Handler n) (path : String) : Prop :=
  c.upcoming handler path = .put →
    (∀ hold ∈ c.holds, hold.path = path → hold.client = handler.client) ∧
    ∀ other ∈ c.handlers, ¬ (other.Granting path .shared ∨ other.Granting path .exclusive)

/-- The condition on the decisions of the lock servers. -/
def Orderly (c : Cell n) : CellLabel n → Prop
  | .decide h => ∀ handler ∈ c.handlers[h]?, ∀ path ∈ handler.keys.head?,
      match handler.task with
      | .acquire _ => c.Current handler path
      | .release | .expire => c.Unshared handler path
  | _ => True

instance (c : Cell n) (handler : Handler n) (path : String) : Decidable (c.Current handler path) :=
  inferInstanceAs (Decidable (_ → _))

instance (c : Cell n) (handler : Handler n) (path : String) : Decidable (c.Unshared handler path) :=
  inferInstanceAs (Decidable (_ → _))

instance (c : Cell n) (handler : Handler n) (path : String) : Decidable (match handler.task with
    | .acquire _ => c.Current handler path
    | .release | .expire => c.Unshared handler path) := by
  cases handler.task <;> dsimp only <;> infer_instance

instance (c : Cell n) : (label : CellLabel n) → Decidable (Orderly c label)
  | .decide h => inferInstanceAs (Decidable (∀ handler ∈ c.handlers[h]?, ∀ path ∈ handler.keys.head?,
      match handler.task with
      | .acquire _ => c.Current handler path
      | .release | .expire => c.Unshared handler path))
  | .paxos _ | .keepAlive _ _ _ | .acquireLock _ _ _ _ | .releaseLock _ _ _ | .callLeader _
  | .leaderReturns _ _ | .lock _ | .checkSession _ | .readSlot _ | .start _ | .finish _
  | .checkLeases _ _ _ | .expireNext _ => isTrue trivial

/-- The mode that a value of the database shows; `FREE` shows none. -/
def modeOf (value : String) : Option LockingMode :=
  if value = "SHARED" then some .shared else if value = "EXCLUSIVE" then some .exclusive else none

theorem vacant_mode {found : Option String} (free : Vacant found) : found.bind modeOf = none := by
  rcases free with rfl | rfl <;> rfl

/-- A fresh value shows the mode that was last put. -/
theorem Fresh.mode {found put : Option String} (fresh : Fresh found put) :
    put.bind modeOf = found.bind modeOf := by
  rcases fresh with rfl | ⟨free, freed⟩
  · rfl
  · rw [vacant_mode free, vacant_mode freed]

theorem Fresh.known {found put : Option String} (fresh : Fresh found put) (known : Vacant put ∨ Locked put) :
    Vacant found ∨ Locked found := by
  rcases fresh with rfl | ⟨free, _⟩
  · exact known
  · exact .inl free

theorem modeOf_text (mode : LockingMode) : modeOf mode.text = some mode := by
  cases mode <;> rfl

def GrantsIn (handlers : List (Handler n)) (client path : String) (mode : LockingMode) : Prop :=
  ∃ handler ∈ handlers, handler.client = client ∧ handler.Granting path mode

def ReleasesIn (handlers : List (Handler n)) (client path : String) : Prop :=
  ∃ handler ∈ handlers, handler.client = client ∧ handler.Releasing path

/-- The protocol state that the threads and the history of the cell stand for. -/
def Cell.claims (c : Cell n) : Claims String String LockingMode where
  holds client path mode := ⟨client, path, mode⟩ ∈ c.holds
  grants := GrantsIn c.handlers
  releases := ReleasesIn c.handlers
  register path := (c.lastPut path).bind modeOf

/-- A thread frees only the key of its release, in the phases of its put. -/
structure Handler.Neat (handler : Handler n) : Prop where
  acquires : ∀ mode, handler.task = .acquire mode →
    handler.freed = [] ∧ handler.phase ≠ .decided .unanswered
  releases : handler.task = .release → ∀ path ∈ handler.freed,
    handler.keys.head? = some path ∧ (handler.phase.puts = true ∨ handler.phase = .finished)

/-- All threads are neat, and the last puts are modes or `FREE`. -/
structure Cell.Tidy (c : Cell n) : Prop where
  threads : ∀ handler ∈ c.handlers, handler.Neat
  values : ∀ path, Vacant (c.lastPut path) ∨ Locked (c.lastPut path)

section Threads

variable {handlers : List (Handler n)} {h : Nat} {old new : Handler n} {client path : String}
  {mode : LockingMode}

theorem mem_of_set {Item : Type} {items : List Item} {index : Nat} {old new item : Item}
    (at_ : items[index]? = some old) (member : item ∈ items) : item = old ∨ item ∈ items.set index new := by
  obtain ⟨place, found⟩ := List.mem_iff_getElem?.mp member
  by_cases same : place = index
  · subst same
    rw [at_] at found
    exact .inl (Option.some.inj found).symm
  · refine .inr (List.mem_iff_getElem?.mpr ⟨place, ?_⟩)
    rw [List.getElem?_set_ne (Ne.symm same), found]

theorem mem_set_self {Item : Type} {items : List Item} {index : Nat} {old new : Item}
    (at_ : items[index]? = some old) : new ∈ items.set index new :=
  List.mem_set (List.getElem?_eq_some_iff.mp at_).1 new

theorem grantsIn_set (grants : GrantsIn (handlers.set h new) client path mode) :
    GrantsIn handlers client path mode ∨ (client = new.client ∧ new.Granting path mode) := by
  obtain ⟨handler, member, rfl, granting⟩ := grants
  rcases List.mem_or_eq_of_mem_set member with member | rfl
  · exact .inl ⟨handler, member, rfl, granting⟩
  · exact .inr ⟨rfl, granting⟩

theorem releasesIn_set (at_ : handlers[h]? = some old) (releases : ReleasesIn handlers client path) :
    ReleasesIn (handlers.set h new) client path ∨ (client = old.client ∧ old.Releasing path) := by
  obtain ⟨handler, member, rfl, releasing⟩ := releases
  rcases mem_of_set at_ member with rfl | kept
  · exact .inr ⟨rfl, releasing⟩
  · exact .inl ⟨handler, kept, rfl, releasing⟩

/-- A thread that moves on without a decision keeps its claims. -/
theorem releasesIn_moved (at_ : handlers[h]? = some old) (same : new.client = old.client)
    (kept : old.Releasing path → new.Releasing path) (releases : ReleasesIn handlers client path) :
    ReleasesIn (handlers.set h new) client path := by
  rcases releasesIn_set at_ releases with releases | ⟨rfl, releasing⟩
  · exact releases
  · exact ⟨new, mem_set_self at_, same, kept releasing⟩

theorem grantsIn_moved (at_ : handlers[h]? = some old) (same : new.client = old.client)
    (kept : new.Granting path mode → old.Granting path mode)
    (grants : GrantsIn (handlers.set h new) client path mode) : GrantsIn handlers client path mode := by
  rcases grantsIn_set grants with grants | ⟨rfl, granting⟩
  · exact grants
  · exact ⟨old, List.mem_of_getElem? at_, same.symm, kept granting⟩

theorem grantsIn_append (fresh : new.phase = .calling ∨ new.phase = .waiting)
    (grants : GrantsIn (handlers ++ [new]) client path mode) : GrantsIn handlers client path mode := by
  obtain ⟨handler, member, same, granting⟩ := grants
  rcases List.mem_append.mp member with member | member
  · exact ⟨handler, member, same, granting⟩
  · cases List.mem_singleton.mp member
    rcases fresh with fresh | fresh <;> simp [Handler.Granting, fresh, HandlerPhase.granted,
      HandlerPhase.puts] at granting

theorem releasesIn_append (releases : ReleasesIn handlers client path) :
    ReleasesIn (handlers ++ [new]) client path := by
  obtain ⟨handler, member, same, releasing⟩ := releases
  exact ⟨handler, List.mem_append_left _ member, same, releasing⟩

end Threads

theorem advances_granting {handler : Handler n} {answer : Bool} {phase : HandlerPhase}
    (advances : Advances handler.phase phase) {path : String} {mode : LockingMode}
    (granting : ({ handler with answer, phase } : Handler n).Granting path mode) :
    handler.Granting path mode := by
  obtain ⟨task, keys, granted⟩ := granting
  exact ⟨task, keys, advances.granted ▸ granted⟩

theorem advances_releasing {handler : Handler n} {answer : Bool} {phase : HandlerPhase}
    (advances : Advances handler.phase phase) {path : String} (releasing : handler.Releasing path) :
    ({ handler with answer, phase } : Handler n).Releasing path :=
  ⟨advances.running.2, releasing.2⟩

def Sharable (mode : LockingMode) : Prop := mode = .shared

variable {c c' : Cell n}

/-- Steps that change no history and decide nothing are answers without a new hold. -/
theorem claims_answer (holds : c'.holds = c.holds) (lastPut : c'.lastPut = c.lastPut)
    (grants : ∀ client path mode, GrantsIn c'.handlers client path mode →
      GrantsIn c.handlers client path mode)
    (releases : ∀ client path, ReleasesIn c.handlers client path → ReleasesIn c'.handlers client path) :
    Claims.Step Sharable c.claims c'.claims := by
  refine .answer ⟨fun client path mode held => .inl ?_, grants, releases, ?_⟩
  · change _ ∈ c'.holds at held
    rwa [holds] at held
  · funext path
    exact congrArg (fun put => Option.bind (put path) modeOf) lastPut

theorem claims_holds (holds : c'.holds = c.holds) : c'.claims.holds = c.claims.holds := by
  funext client path mode
  exact congrArg (fun holds => (⟨client, path, mode⟩ : Hold) ∈ holds) holds

/-- A put changes the register of its path. -/
theorem claims_register {path value : String}
    (lastPut : c'.lastPut = Function.update c.lastPut path (some value)) :
    c'.claims.register = Function.update c.claims.register path (modeOf value) := by
  funext query
  show (c'.lastPut query).bind modeOf = _
  rw [lastPut]
  by_cases same : query = path
  · rw [same, Function.update_self, Function.update_self]
    rfl
  · rw [Function.update_of_ne same, Function.update_of_ne same]
    rfl

/-- A decision may add a path to the ones that its thread frees. -/
theorem releasesIn_choose {h : Nat} {handler : Handler n} (at_ : c.handlers[h]? = some handler)
    {path : String} {decision : Decision} {client query : String}
    (releases : ReleasesIn c.handlers client query) :
    ReleasesIn (c.handlers.set h (handler.choose path decision)) client query := by
  refine releasesIn_moved at_ rfl (fun releasing => ⟨HandlerPhase.noConfusion, ?_⟩) releases
  unfold Handler.choose
  dsimp only
  split
  · exact List.mem_cons_of_mem _ releasing.2
  · exact releasing.2

theorem upcoming_acquire {handler : Handler n} {session : Bool} {path : String} {mode : LockingMode}
    (checked : handler.phase = .checked session) (task : handler.task = .acquire mode) :
    c.upcoming handler path = acquireDecision session (c.found handler.server path) mode.text := by
  rw [Cell.upcoming, checked]
  dsimp only
  rw [Handler.decision, task]

/-- An acquire that reads a fresh value always takes a branch that sets its response. -/
theorem acquire_answered (tidy : c.Tidy) {handler : Handler n} {session : Bool} {path : String}
    {mode : LockingMode} (checked : handler.phase = .checked session)
    (task : handler.task = .acquire mode) (current : c.Current handler path) :
    acquireDecision session (c.found handler.server path) mode.text ≠ .unanswered := by
  intro unanswered
  obtain ⟨fresh, _⟩ := current (by rw [upcoming_acquire checked task, unanswered]; rfl)
  exact acquireDecision_known (fresh.known (tidy.values path)) unanswered

/-- An acquire that decides grants at most its own path in its own mode. -/
theorem grantsIn_choose {h : Nat} {handler : Handler n} {path : String} {mode : LockingMode}
    {decision : Decision} (keys : handler.keys.head? = some path) (task : handler.task = .acquire mode)
    {client query : String} {held : LockingMode}
    (grants : GrantsIn (c.handlers.set h (handler.choose path decision)) client query held) :
    GrantsIn c.handlers client query held ∨
      ((client = handler.client ∧ query = path ∧ held = mode) ∧ decision.refuses = false) := by
  apply (grantsIn_set grants).imp_right
  rintro ⟨same, acquires, first, granted⟩
  have first : handler.keys.head? = some query := first
  have acquires : handler.task = .acquire held := acquires
  rw [keys] at first
  rw [task] at acquires
  refine ⟨⟨same, (Option.some.inj first).symm, (Task.acquire.inj acquires).symm⟩, ?_⟩
  cases decision with
  | refuse message => cases granted
  | put | join | unanswered => rfl

/-- An orderly decision of an acquire takes the path or changes no claim. -/
theorem claims_acquire (tidy : c.Tidy) {h : Nat} {handler : Handler n} {session : Bool} {path : String}
    {mode : LockingMode} (at_ : c.handlers[h]? = some handler) (keys : handler.keys.head? = some path)
    (checked : handler.phase = .checked session) (task : handler.task = .acquire mode)
    (current : c.Current handler path) {decision : Decision}
    (chosen : acquireDecision session (c.found handler.server path) mode.text = decision)
    (handlers : c'.handlers = c.handlers.set h (handler.choose path decision))
    (holds : c'.holds = c.holds)
    (lastPut : c'.lastPut = if decision = .put then Function.update c.lastPut path (some mode.text)
      else c.lastPut) :
    Claims.Step Sharable c.claims c'.claims := by
  have upcoming : c.upcoming handler path = decision := (upcoming_acquire checked task).trans chosen
  have releases : ∀ other query, ReleasesIn c.handlers other query → ReleasesIn c'.handlers other query := by
    rw [handlers]
    exact fun _ _ => releasesIn_choose at_
  have grants : ∀ other query held, GrantsIn c'.handlers other query held →
      GrantsIn c.handlers other query held ∨
        ((other = handler.client ∧ query = path ∧ held = mode) ∧ decision.refuses = false) := by
    rw [handlers]
    exact fun _ _ _ => grantsIn_choose keys task
  by_cases refused : decision.refuses = true
  · refine claims_answer holds ?_ (fun other query held granting => ?_) releases
    · rw [lastPut, if_neg]
      rintro rfl
      cases refused
    · refine (grants other query held granting).resolve_right fun new => ?_
      rw [refused] at new
      cases new.2
  · obtain ⟨fresh, settled⟩ := current (by rw [upcoming]; simpa using refused)
    have taken (vacant : c.claims.register path = none ∨
        (c.claims.register path = some mode ∧ Sharable mode))
        (register : c'.claims.register = Function.update c.claims.register path (some mode)) :
        Claims.Take Sharable c.claims c'.claims handler.client path mode := by
      refine ⟨vacant, ?_, ?_, fun other query held granting => (grants _ _ _ granting).imp_right And.left,
        releases, register⟩
      · rintro _ held ⟨other, member, rfl, releasing⟩ holding
        exact settled other member releasing _ holding rfl rfl
      · intro other query held holding
        rwa [claims_holds holds] at holding
    cases decision with
    | put =>
        obtain ⟨_, free⟩ := acquireDecision_put chosen
        refine .take (taken (.inl ?_) ?_)
        · show (c.lastPut path).bind modeOf = none
          rw [fresh.mode, vacant_mode free]
        · rw [if_pos rfl] at lastPut
          rw [claims_register lastPut, modeOf_text]
    | join =>
        obtain ⟨_, asks, shared⟩ := acquireDecision_join chosen
        cases LockingMode.text_eq_shared.mp asks
        have shown : c.claims.register path = some .shared := by
          show (c.lastPut path).bind modeOf = _
          rw [fresh.mode, shared]
          rfl
        refine .take (taken (.inr ⟨shown, rfl⟩) ?_)
        rw [← shown, Function.update_eq_self]
        funext query
        show (c'.lastPut query).bind modeOf = _
        rw [lastPut]
        rfl
    | refuse message => exact absurd rfl refused
    | unanswered => exact absurd chosen (acquire_answered tidy checked task current)

/-- An orderly decision of a release or an expiry frees the path or changes no claim. -/
theorem claims_release {h : Nat} {handler : Handler n} {session : Bool} {path : String}
    (at_ : c.handlers[h]? = some handler) (checked : handler.phase = .checked session)
    (task : handler.task = .release ∨ handler.task = .expire) (unshared : c.Unshared handler path)
    {decision : Decision} (chosen : handler.decision session (c.found handler.server path) = decision)
    (handlers : c'.handlers = c.handlers.set h (handler.choose path decision))
    (holds : c'.holds = c.holds)
    (lastPut : c'.lastPut = if decision = .put then
      Function.update c.lastPut path (some handler.putValue) else c.lastPut) :
    Claims.Step Sharable c.claims c'.claims := by
  have value : handler.putValue = "FREE" := by
    rcases task with task | task <;> rw [Handler.putValue, task]
  have upcoming : c.upcoming handler path = decision := by
    rw [Cell.upcoming, checked]
    exact chosen
  have grants : ∀ other query held, GrantsIn c'.handlers other query held →
      GrantsIn c.handlers other query held := by
    intro other query held grants
    rw [handlers] at grants
    apply (grantsIn_set grants).resolve_right
    rintro ⟨_, acquires, _⟩
    have acquires : handler.task = .acquire held := acquires
    rcases task with task | task <;> rw [task] at acquires <;> cases acquires
  have releases : ∀ other query, ReleasesIn c.handlers other query → ReleasesIn c'.handlers other query := by
    rw [handlers]
    exact fun _ _ => releasesIn_choose at_
  by_cases puts : decision = .put
  · subst puts
    obtain ⟨only, settled⟩ := unshared upcoming
    rw [if_pos rfl, value] at lastPut
    have freed : Claims.Free c.claims c'.claims handler.client path := by
      refine ⟨?_, ?_, ?_, grants, ?_, claims_register lastPut⟩
      · intro other held holding
        exact only _ holding rfl
      · rintro other held ⟨thread, member, _, granting⟩
        apply settled thread member
        cases held with
        | shared => exact .inl granting
        | exclusive => exact .inr granting
      · intro other query held holding
        rwa [claims_holds holds] at holding
      · rintro other query (early | ⟨rfl, rfl⟩)
        · exact releases other query early
        · refine ⟨handler.choose query .put, ?_, rfl, HandlerPhase.noConfusion, ?_⟩
          · rw [handlers]
            exact mem_set_self at_
          · unfold Handler.choose
            rw [if_pos ⟨rfl, value⟩]
            exact List.mem_cons_self ..
    exact .free freed
  · exact claims_answer holds (by rw [lastPut, if_neg puts]) grants releases

theorem grantsIn_finished {handlers : List (Handler n)} {h : Nat} {handler : Handler n} {client path : String}
    {mode : LockingMode}
    (grants : GrantsIn (handlers.set h { handler with phase := .finished }) client path mode) :
    GrantsIn handlers client path mode := by
  apply (grantsIn_set grants).resolve_right
  rintro ⟨_, _, _, granted⟩
  cases granted

section Conclude

variable {h : Nat} {handler : Handler n} {path : String} {rest : List String} {decision : Decision}

/-- The end of an acquire turns its grant into a hold or changes no claim. -/
theorem conclude_acquire (tidy : c.Tidy) (at_ : c.handlers[h]? = some handler)
    (keys : handler.keys = path :: rest) (ends : Ends handler decision) {mode : LockingMode}
    (task : handler.task = .acquire mode) :
    Claims.Step Sharable c.claims (c.conclude h handler path rest decision).claims := by
  have member := List.mem_of_getElem? at_
  obtain ⟨freed, answered⟩ := (tidy.threads handler member).acquires mode task
  have releases (other query : String) (releases : ReleasesIn c.handlers other query) :
      ReleasesIn (c.handlers.set h { handler with phase := .finished }) other query := by
    apply (releasesIn_set at_ releases).resolve_right
    rintro ⟨_, releasing⟩
    rw [Handler.Releasing, freed] at releasing
    cases releasing.2
  unfold Cell.conclude
  rw [task]
  dsimp only
  split
  next success =>
    have granting : handler.Granting path mode := by
      refine ⟨task, by rw [keys]; rfl, ?_⟩
      rcases ends with ⟨other, decided⟩ | ⟨rfl, thread, putting⟩
      · cases decision with
        | put => exact absurd rfl other
        | join => rw [decided]; rfl
        | refuse message => cases success
        | unanswered => exact absurd decided answered
      · rw [putting]
        rfl
    refine .answer ⟨fun other query held holding => ?_, fun _ _ _ => grantsIn_finished, releases, rfl⟩
    rcases List.mem_cons.mp holding with new | early
    · cases new
      exact .inr ⟨handler, member, rfl, granting⟩
    · exact .inl early
  · exact claims_answer rfl rfl (fun _ _ _ => grantsIn_finished) releases

/-- The end of a release takes away the holds of its client or changes no claim. -/
theorem conclude_release (tidy : c.Tidy) (at_ : c.handlers[h]? = some handler)
    (keys : handler.keys = path :: rest) (ends : Ends handler decision) (task : handler.task = .release) :
    Claims.Step Sharable c.claims (c.conclude h handler path rest decision).claims := by
  have member := List.mem_of_getElem? at_
  unfold Cell.conclude
  rw [task]
  dsimp only
  split
  next success =>
    refine .finish (fun other query => other = handler.client ∧ query = path)
      ⟨fun other query held holding => ?_, fun _ _ _ => grantsIn_finished,
        fun other query releases => ?_, rfl⟩
    · obtain ⟨early, kept⟩ := List.mem_filter.mp holding
      exact ⟨early, of_decide_eq_true kept⟩
    · apply (releasesIn_set at_ releases).imp_right
      rintro ⟨same, releasing⟩
      have first := ((tidy.threads handler member).releases task query releasing.2).1
      rw [keys] at first
      exact ⟨same, (Option.some.inj first).symm⟩
  next failure =>
    refine claims_answer rfl rfl (fun _ _ _ => grantsIn_finished) fun other query releases => ?_
    apply (releasesIn_set at_ releases).resolve_right
    rintro ⟨_, running, freed⟩
    rcases ends with ⟨other, decided⟩ | ⟨rfl, _⟩
    · rcases ((tidy.threads handler member).releases task query freed).2 with puts | ended
      · rw [decided] at puts
        cases decision with
        | put => exact other rfl
        | join | refuse _ | unanswered => cases puts
      · exact running ended
    · exact failure rfl

/-- An expiry goes on with its next key. -/
theorem conclude_expire (at_ : c.handlers[h]? = some handler) (task : handler.task = .expire) :
    Claims.Step Sharable c.claims (c.conclude h handler path rest decision).claims := by
  unfold Cell.conclude
  rw [task]
  refine claims_answer rfl rfl (fun other query held grants => ?_) fun other query releases => ?_
  · apply (grantsIn_set grants).resolve_right
    rintro ⟨_, acquires, _⟩
    cases acquires
  · exact releasesIn_moved at_ rfl (fun releasing => ⟨HandlerPhase.noConfusion, releasing.2⟩) releases

/-- The end of a section answers a grant, ends a release or goes on with an expiry. -/
theorem claims_conclude (tidy : c.Tidy) (at_ : c.handlers[h]? = some handler)
    (keys : handler.keys = path :: rest) (ends : Ends handler decision) :
    Claims.Step Sharable c.claims (c.conclude h handler path rest decision).claims := by
  cases task : handler.task with
  | acquire mode => exact conclude_acquire tidy at_ keys ends task
  | release => exact conclude_release tidy at_ keys ends task
  | expire => exact conclude_expire at_ task

end Conclude

theorem claims_endExpiry {h : Nat} {handler : Handler n} (at_ : c.handlers[h]? = some handler) :
    Claims.Step Sharable c.claims (c.endExpiry h handler).claims := by
  refine .finish (fun other _ => other = handler.client) ⟨fun other query held holding => ?_,
    fun other query held grants => ?_, fun other query releases => ?_, rfl⟩
  · obtain ⟨early, kept⟩ := List.mem_filter.mp holding
    exact ⟨early, of_decide_eq_true kept⟩
  · exact grantsIn_finished grants
  · exact (releasesIn_set at_ releases).imp_right And.left

/-- Every orderly step of the cell is a step of the protocol. -/
theorem claims_step (tidy : c.Tidy) {label : CellLabel n} (orderly : Orderly c label)
    (event : CellEvent c label c') : Claims.Step Sharable c.claims c'.claims := by
  cases event with
  | quiet handlers holds lastPut =>
      refine claims_answer holds lastPut ?_ ?_ <;> rw [handlers]
      · exact fun _ _ _ => id
      · exact fun _ _ => id
  | spawned handlers holds lastPut freed fresh =>
      refine claims_answer holds lastPut ?_ ?_ <;> rw [handlers]
      · exact fun _ _ _ => grantsIn_append fresh
      · exact fun _ _ => releasesIn_append
  | advanced handlers holds lastPut at_ moves free starts =>
      refine claims_answer holds lastPut ?_ ?_ <;> rw [handlers]
      · exact fun _ _ _ => grantsIn_moved at_ rfl (advances_granting moves.advances)
      · exact fun _ _ => releasesIn_moved at_ rfl (advances_releasing moves.advances)
  | called handlers holds lastPut at_ calls freed fresh =>
      refine claims_answer holds lastPut ?_ ?_ <;> rw [handlers]
      · intro client path mode grants
        apply (grantsIn_set (grantsIn_append fresh grants)).resolve_right
        rintro ⟨_, _, _, granted⟩
        cases granted
      · intro client path releases
        exact releasesIn_append (releasesIn_moved at_ rfl
          (fun releasing => ⟨HandlerPhase.noConfusion, releasing.2⟩) releases)
  | @decided h handler session path rest decision _ at_ checked keys chosen handlers holds lastPut =>
      have allowed := orderly handler at_ path (by rw [keys]; rfl)
      cases task : handler.task with
      | acquire mode =>
          rw [task] at allowed
          rw [Handler.putValue, task] at lastPut
          rw [Handler.decision, task] at chosen
          exact claims_acquire tidy at_ (by rw [keys]; rfl) checked task allowed chosen handlers holds lastPut
      | release =>
          rw [task] at allowed
          exact claims_release at_ checked (.inl task) allowed chosen handlers holds lastPut
      | expire =>
          rw [task] at allowed
          exact claims_release at_ checked (.inr task) allowed chosen handlers holds lastPut
  | concluded at_ keys ends => exact claims_conclude tidy at_ keys ends
  | expiryEnds at_ waits keys => exact claims_endExpiry at_

theorem neat_advanced {handler : Handler n} {answer : Bool} {phase : HandlerPhase} (neat : handler.Neat)
    (advances : Advances handler.phase phase) : ({ handler with answer, phase } : Handler n).Neat where
  acquires mode task := ⟨(neat.acquires mode task).1, advances.decided .unanswered⟩
  releases task path freed := by
    obtain ⟨first, puts⟩ := neat.releases task path freed
    refine ⟨first, .inl ?_⟩
    dsimp only
    rw [advances.puts]
    exact puts.resolve_right advances.running.1

theorem neat_finished {handler : Handler n} (neat : handler.Neat) :
    ({ handler with phase := .finished } : Handler n).Neat where
  acquires mode task := ⟨(neat.acquires mode task).1, HandlerPhase.noConfusion⟩
  releases task path freed := ⟨(neat.releases task path freed).1, .inr rfl⟩

theorem neat_fresh {handler : Handler n} (freed : handler.freed = [])
    (fresh : handler.phase = .calling ∨ handler.phase = .waiting) : handler.Neat where
  acquires _ _ := by
    refine ⟨freed, fun decided => ?_⟩
    rcases fresh with fresh | fresh <;> rw [fresh] at decided <;> cases decided
  releases _ path member := by
    rw [freed] at member
    cases member

/-- A thread that has not decided yet has freed nothing unless it is an expiry. -/
theorem neat_choose {handler : Handler n} {session : Bool} {path : String} {decision : Decision}
    (neat : handler.Neat) (keys : handler.keys.head? = some path) (checked : handler.phase = .checked session)
    (answered : ∀ mode, handler.task = .acquire mode → decision ≠ .unanswered) :
    (handler.choose path decision).Neat where
  acquires mode task := by
    have acquires : handler.task = .acquire mode := task
    refine ⟨?_, fun decided => answered mode acquires (HandlerPhase.decided.inj decided)⟩
    unfold Handler.choose
    dsimp only
    rw [if_neg]
    · exact (neat.acquires mode acquires).1
    · rintro ⟨_, value⟩
      rw [Handler.putValue, acquires] at value
      cases mode <;> simp [LockingMode.text] at value
  releases task query member := by
    have none_ : ∀ freed, freed ∉ handler.freed := by
      intro freed early
      rcases (neat.releases task freed early).2 with puts | ended
      · rw [checked] at puts
        cases puts
      · rw [checked] at ended
        cases ended
    unfold Handler.choose at member ⊢
    dsimp only at member ⊢
    split at member
    next frees =>
      rcases List.mem_cons.mp member with rfl | early
      · refine ⟨keys, .inl ?_⟩
        rw [frees.1]
        rfl
      · exact absurd early (none_ query)
    · exact absurd member (none_ query)

theorem tidy_append {new : Handler n} {handlers : List (Handler n)}
    (threads : ∀ handler ∈ handlers, handler.Neat) (neat : new.Neat) :
    ∀ handler ∈ handlers ++ [new], handler.Neat := by
  intro handler member
  rcases List.mem_append.mp member with member | member
  · exact threads handler member
  · cases List.mem_singleton.mp member
    exact neat

theorem tidy_threads {h : Nat} {new : Handler n} (tidy : c.Tidy) (neat : new.Neat) :
    ∀ handler ∈ c.handlers.set h new, handler.Neat := by
  intro handler member
  rcases List.mem_or_eq_of_mem_set member with member | rfl
  · exact tidy.threads handler member
  · exact neat

theorem tidy_set {h : Nat} {new : Handler n} (tidy : c.Tidy) (handlers : c'.handlers = c.handlers.set h new)
    (lastPut : c'.lastPut = c.lastPut) (neat : new.Neat) : c'.Tidy where
  threads := by
    rw [handlers]
    exact tidy_threads tidy neat
  values := by
    rw [lastPut]
    exact tidy.values

theorem putValue_known (handler : Handler n) :
    Vacant (some handler.putValue) ∨ Locked (some handler.putValue) := by
  unfold Handler.putValue
  cases handler.task with
  | acquire mode => exact .inr (locked_text mode)
  | release => exact .inl (.inr rfl)
  | expire => exact .inl (.inr rfl)

/-- Every orderly step keeps the threads tidy. -/
theorem Cell.Tidy.step (tidy : c.Tidy) {label : CellLabel n} (orderly : Orderly c label)
    (event : CellEvent c label c') : c'.Tidy := by
  have neat {h : Nat} {handler : Handler n} (at_ : c.handlers[h]? = some handler) : handler.Neat :=
    tidy.threads handler (List.mem_of_getElem? at_)
  cases event with
  | quiet handlers holds lastPut =>
      exact ⟨by rw [handlers]; exact tidy.threads, by rw [lastPut]; exact tidy.values⟩
  | spawned handlers holds lastPut freed fresh =>
      refine ⟨?_, by rw [lastPut]; exact tidy.values⟩
      rw [handlers]
      exact tidy_append tidy.threads (neat_fresh freed fresh)
  | advanced handlers holds lastPut at_ moves free starts =>
      exact tidy_set tidy handlers lastPut (neat_advanced (neat at_) moves.advances)
  | @called h handler new _ handlers holds lastPut at_ calls freed fresh =>
      refine ⟨?_, by rw [lastPut]; exact tidy.values⟩
      have moves : Moves handler.phase .called := calls ▸ .calls
      have moved := @neat_advanced n handler handler.answer .called (neat at_) moves.advances
      rw [handlers]
      exact tidy_append (tidy_threads tidy moved) (neat_fresh freed fresh)
  | @decided h handler session path rest decision _ at_ checked keys chosen handlers holds lastPut =>
      have first : handler.keys.head? = some path := by rw [keys]; rfl
      have allowed := orderly handler at_ path first
      have answered : ∀ mode, handler.task = .acquire mode → decision ≠ .unanswered := by
        intro mode task
        rw [task] at allowed
        rw [Handler.decision, task] at chosen
        exact chosen ▸ acquire_answered tidy checked task allowed
      have chosen_ := @neat_choose n handler session path decision (neat at_) first checked answered
      refine ⟨?_, fun query => ?_⟩
      · rw [handlers]
        exact tidy_threads tidy chosen_
      · rw [lastPut]
        split
        · by_cases same : query = path
          · rw [same, Function.update_self]
            exact putValue_known handler
          · rw [Function.update_of_ne same]
            exact tidy.values query
        · exact tidy.values query
  | @concluded h handler path rest decision at_ keys ends =>
      unfold Cell.conclude
      cases task : handler.task with
      | acquire mode => dsimp only; split <;> exact tidy_set tidy rfl rfl (neat_finished (neat at_))
      | release => dsimp only; split <;> exact tidy_set tidy rfl rfl (neat_finished (neat at_))
      | expire =>
          refine tidy_set tidy rfl rfl ⟨fun mode acquires => ?_, fun releases => ?_⟩
          · cases acquires
          · cases releases
  | expiryEnds at_ waits keys => exact tidy_set tidy rfl rfl (neat_finished (neat at_))

/-- Along every run of orderly steps, the clients exclude each other. -/
theorem mutual_exclusion {slotNumbers : Fin n → Int} {labels : List (CellLabel n)}
    (orderly : Guarded Cell.step Orderly (Cell.initial n slotNumbers) labels)
    (ran : run Cell.step (Cell.initial n slotNumbers) labels = some c) : MutualExclusion c := by
  have holds : c.Tidy ∧ c.claims.Consistent Sharable := by
    refine @run_invariant _ _ _ _ (fun c : Cell n => c.Tidy ∧ c.claims.Consistent Sharable)
      ?_ _ _ _ ?_ orderly ran
    · rintro state label next ⟨tidy, consistent⟩ allowed taken
      have event := Cell.step_event taken
      exact ⟨tidy.step allowed event, consistent.step (claims_step tidy allowed event)⟩
    · refine ⟨⟨fun handler member => absurd member List.not_mem_nil, fun path => .inl (.inl rfl)⟩,
        ?_, ?_, ?_, ?_⟩
      · rintro client path mode ⟨handler, member, _⟩
        cases member
      · intro client path mode member
        cases member
      · intro client path mode member
        cases member
      · intro path mode shown
        cases shown
  intro first one second two path different
  have other : (⟨second.client, first.path, second.mode⟩ : Hold) ∈ c.holds := by
    rw [path]
    exact two
  have one : c.claims.holds first.client first.path first.mode := one
  have two : c.claims.holds second.client first.path second.mode := other
  exact ⟨holds.2.excludes one two different, holds.2.excludes two one different.symm⟩

/-- A put for the handler, with the round and the first message that it gets. -/
def putLabels (h r message : Nat) : List (CellLabel 1) :=
  [.readSlot h, .start h, .paxos (.begin r), .paxos (.deliver message), .paxos (.receive (message + 1)),
    .paxos (.conclude r), .paxos (.deliver (message + 2)), .paxos (.finishLearn r), .finish h]

/-- A client takes a path, another one is refused, and takes it after the release. -/
def handedOver : List (CellLabel 1) :=
  [.keepAlive 0 "1" 0, .keepAlive 0 "2" 0,
    .acquireLock 0 "1" "x" .exclusive, .lock 0, .checkSession 0, .decide 0] ++ putLabels 0 0 0 ++
  [.acquireLock 0 "2" "x" .exclusive, .lock 1, .checkSession 1, .decide 1, .finish 1,
    .releaseLock 0 "1" "x", .lock 2, .checkSession 2, .decide 2] ++ putLabels 2 1 3 ++
  [.acquireLock 0 "2" "x" .exclusive, .lock 3, .checkSession 3, .decide 3] ++ putLabels 3 2 6

theorem mutual_exclusion_handedOver : ∃ c : Cell 1,
    run Cell.step (Cell.initial 1 fun _ => 0) handedOver = some c ∧ c.holds = [⟨"2", "x", .exclusive⟩] ∧
      MutualExclusion c := by
  obtain ⟨c, ran, checked⟩ := (Option.any_eq_true _ _).mp (by decide +kernel :
    (run Cell.step (Cell.initial 1 fun _ => 0) handedOver).any (fun c =>
      decide (c.holds = [⟨"2", "x", .exclusive⟩])) = true)
  have orderly : Guarded Cell.step Orderly (Cell.initial 1 fun _ => 0) handedOver := by decide +kernel
  exact ⟨c, ran, of_decide_eq_true checked, mutual_exclusion orderly ran⟩

/-- Two clients share a path, the first one releases it and then takes it exclusively. -/
def releasedShared : List (CellLabel 1) :=
  [.keepAlive 0 "1" 0, .keepAlive 0 "2" 0,
    .acquireLock 0 "1" "x" .shared, .lock 0, .checkSession 0, .decide 0] ++ putLabels 0 0 0 ++
  [.acquireLock 0 "2" "x" .shared, .lock 1, .checkSession 1, .decide 1, .finish 1,
    .releaseLock 0 "1" "x", .lock 2, .checkSession 2, .decide 2] ++ putLabels 2 1 3 ++
  [.acquireLock 0 "1" "x" .exclusive, .lock 3, .checkSession 3, .decide 3] ++ putLabels 3 2 6

theorem held_exclusively_and_shared : ∃ c : Cell 1,
    run Cell.step (Cell.initial 1 fun _ => 0) releasedShared = some c ∧
      ⟨"1", "x", .exclusive⟩ ∈ c.holds ∧ ⟨"2", "x", .shared⟩ ∈ c.holds ∧ ¬ MutualExclusion c := by
  obtain ⟨c, ran, checked⟩ := (Option.any_eq_true _ _).mp (by decide +kernel :
    (run Cell.step (Cell.initial 1 fun _ => 0) releasedShared).any (fun c =>
      decide (⟨"1", "x", .exclusive⟩ ∈ c.holds ∧ ⟨"2", "x", .shared⟩ ∈ c.holds)) = true)
  obtain ⟨exclusive, shared⟩ := of_decide_eq_true checked
  refine ⟨c, ran, exclusive, shared, fun excludes => ?_⟩
  cases (excludes _ exclusive _ shared rfl (by decide)).1

end Chubby.Lock
