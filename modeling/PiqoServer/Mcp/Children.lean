import PiqoServer.Library.Custody
import PiqoServer.Library.Schedule
import PiqoServer.Mcp.Manager

/-!
# The process behind an entry

`ensure_entry` and `stop_entry` of `McpManager` in `piqo-tools/src/lib.rs`, called by any number
of tasks on one entry. A task can be interrupted wherever the source awaits; a stage is what a
task has before it between two such points. The mutexes of the entry are `connection`, which the
`if let` of either function holds to its end, and `restart_attempts`, which a start holds
throughout.

## Main definitions

* `McpStage`: how far a call has come
* `McpProcess`: an entry with its processes and the tasks that use it
* `McpProcess.step`: a task's next step
* `StartsAlone`: a process is started while the entry has no other

## Main results

* `custody_step`: what a step does to the processes
* `oneChild_iff`: at most one process lives, and a stop without a start beside it leaves none,
  exactly when every process is started alone
-/

namespace Piqo

inductive McpServerState where
  | starting
  | healthy
  | failed
  | stopped
  deriving DecidableEq, Repr

/-- How far a call of a task has come; processes are numbered. -/
inductive McpStage where
  /-- No call, or a call of `stop_entry` that has returned. -/
  | idle
  /-- A call of `ensure_entry` that has returned. -/
  | returned (result : Except McpFailure Nat)
  /-- `ensure_entry` before it looks at the connection. -/
  | checking
  /-- With the lock of the connection, listing the tools again. -/
  | refreshing (child : Nat)
  /-- Without a connection, before the lock of the restart attempts. -/
  | waiting
  /-- With that lock, before the process is started. -/
  | starting
  | handshaking (child : Nat)
  | discovering (child : Nat)
  /-- After the discovery failed, before the process is killed. -/
  | abandoning (child : Nat)
  /-- The process is killed and waited for. -/
  | reaping
  /-- In `fail`. -/
  | failing
  /-- The tools are known, the entry is not healthy yet. -/
  | announcing (child : Nat)
  /-- Before the connection is stored. -/
  | connecting (child : Nat)
  /-- The connection is stored, the restart attempts are not reset yet. -/
  | finishing (child : Nat)
  /-- `stop_entry` before it looks at the connection. -/
  | stopping
  /-- With the lock of the connection, before the process is killed. -/
  | killing (child : Nat)
  /-- The process is killed and waited for. -/
  | burying
  /-- Before the state of the entry is set. -/
  | marking

namespace McpStage

/-- The task can make another call. -/
def free : McpStage → Bool
  | idle | returned _ => true
  | _ => false

/-- The process that the task has the only reference to. -/
def child : McpStage → Option Nat
  | handshaking c | discovering c | abandoning c | announcing c | connecting c | killing c => some c
  | _ => none

/-- The task holds the lock of the restart attempts. -/
def holdsAttempts : McpStage → Bool
  | starting | handshaking _ | discovering _ | abandoning _ | reaping | failing
  | announcing _ | connecting _ | finishing _ => true
  | _ => false

/-- The task holds the lock of the connection. -/
def holdsConnection : McpStage → Bool
  | refreshing _ | killing _ | burying => true
  | _ => false

/-- The task is in `ensure_entry`. -/
def ensuring : McpStage → Bool
  | checking | refreshing _ | waiting => true
  | stage => stage.holdsAttempts

end McpStage

variable {validatorFor : Json → Option (Json → Bool)}

/-- An entry with its processes and the tasks that use it. -/
structure McpProcess (validatorFor : Json → Option (Json → Bool)) where
  entry : McpEntry validatorFor
  state : McpServerState := .stopped
  lastError : Option String := none
  catalogDirty : Bool := false
  restartAttempts : Nat := 0
  /-- The task with the lock of the restart attempts. -/
  attemptsLock : Option Nat := none
  connection : Option Nat := none
  /-- The task with the lock of the connection. -/
  connectionLock : Option Nat := none
  /-- The processes that were started and not stopped. -/
  running : List Nat := []
  /-- How many were started. -/
  started : Nat := 0
  stage : Nat → McpStage := fun _ => .idle

inductive McpAction where
  | ensureEntry (task : Nat)
  | stopEntry (task : Nat)
  /-- The next step of a task: what it tries fails, or succeeds, with a listing where it lists. -/
  | proceed (task : Nat) (reply : Option (List DiscoveredTool))
  /-- The server says that its tools have changed. -/
  | toolListChanged

namespace McpProcess

def setStage (s : McpProcess validatorFor) (task : Nat) (stage : McpStage) :
    McpProcess validatorFor :=
  { s with stage := Function.update s.stage task stage }

/-- A call of `ensure_entry` returns. -/
def giveBack (s : McpProcess validatorFor) (task : Nat) (result : Except McpFailure Nat) :
    McpProcess validatorFor :=
  s.setStage task (.returned result)

/-- What a task does from its stage on until it can be interrupted; nothing where it waits. -/
def proceed (s : McpProcess validatorFor) (task : Nat) (reply : Option (List DiscoveredTool)) :
    McpProcess validatorFor :=
  match s.stage task with
  | .idle | .returned _ => s
  | .checking =>
    if s.connectionLock.isSome then s
    else match s.connection with
      | some c =>
        if s.catalogDirty then
          { s with catalogDirty := false, connectionLock := some task }.setStage task
            (.refreshing c)
        else s.giveBack task (.ok c)
      | none => s.setStage task .waiting
  | .refreshing c => match reply with
    | some discovered =>
      { s with entry := s.entry.refreshCatalog discovered, connectionLock := none }.giveBack task
        (.ok c)
    | none => { s with connectionLock := none }.giveBack task (.error .unavailable)
  | .waiting =>
    if s.attemptsLock.isSome then s
    else if s.entry.config.maxRestartAttempts ≤ s.restartAttempts ∧ s.restartAttempts ≠ 0 then
      s.giveBack task (.error .unavailable)
    else { s with attemptsLock := some task }.setStage task .starting
  | .starting => match reply with
    | some _ =>
      { s with
        state := .starting, running := s.running ++ [s.started]
        started := s.started + 1 }.setStage task (.handshaking s.started)
    | none => { s with state := .starting }.setStage task .failing
  | .handshaking c => match reply with
    | some _ => s.setStage task (.discovering c)
    | none => { s with running := s.running.erase c }.setStage task .failing
  | .discovering c => match reply with
    | some discovered =>
      { s with entry := s.entry.refreshCatalog discovered }.setStage task (.announcing c)
    | none => s.setStage task (.abandoning c)
  | .abandoning c => { s with running := s.running.erase c }.setStage task .reaping
  | .reaping => s.setStage task .failing
  | .failing =>
    { s with
      restartAttempts := min (s.restartAttempts + 1) 255, state := .failed
      lastError := some "MCP server startup, handshake, or discovery failed"
      attemptsLock := none }.giveBack task (.error .unavailable)
  | .announcing c =>
    { s with lastError := none, state := .healthy }.setStage task (.connecting c)
  | .connecting c =>
    if s.connectionLock.isSome then s
    else { s with connection := some c }.setStage task (.finishing c)
  | .finishing c => { s with restartAttempts := 0, attemptsLock := none }.giveBack task (.ok c)
  | .stopping =>
    if s.connectionLock.isSome then s
    else match s.connection with
      | some c =>
        { s with connection := none, connectionLock := some task }.setStage task (.killing c)
      | none => s.setStage task .marking
  | .killing c => { s with running := s.running.erase c }.setStage task .burying
  | .burying => { s with connectionLock := none }.setStage task .marking
  | .marking => { s with state := .stopped }.setStage task .idle

def step (s : McpProcess validatorFor) : McpAction → McpProcess validatorFor
  | .ensureEntry task =>
    if (s.stage task).free then
      if s.entry.config.enabled then s.setStage task .checking
      else s.giveBack task (.error .unavailable)
    else s
  | .stopEntry task => if (s.stage task).free then s.setStage task .stopping else s
  | .proceed task reply => s.proceed task reply
  | .toolListChanged => { s with catalogDirty := true }

/-! ## Custody of the processes -/

/-- A process is kept by the entry as its connection, or by a task. -/
def custody (s : McpProcess validatorFor) : Custody (Option Nat) where
  keeps
    | none => s.connection
    | some task => (s.stage task).child
  alive := s.running
  fresh := s.started

/-- What a task's next step does to the processes. -/
def custodyAct (s : McpProcess validatorFor) : McpAction → Custody.Act (Option Nat)
  | .proceed task reply => match s.stage task, reply with
    | .starting, some _ => .make (some task)
    | .handshaking _, none | .abandoning _, _ | .killing _, _ => .destroy (some task)
    | .connecting _, _ => if s.connectionLock.isSome then .rest else .pass (some task) none
    | .stopping, _ => if s.connectionLock.isSome then .rest else .pass none (some task)
    | _, _ => .rest
  | _ => .rest

@[simp] theorem keeps_none (s : McpProcess validatorFor) : s.custody.keeps none = s.connection :=
  rfl

@[simp] theorem keeps_some (s : McpProcess validatorFor) (task : Nat) :
    s.custody.keeps (some task) = (s.stage task).child := rfl

theorem custody_setStage (s : McpProcess validatorFor) (task : Nat) (stage : McpStage) :
    (s.setStage task stage).custody =
      { s.custody with keeps := Function.update s.custody.keeps (some task) stage.child } := by
  have hkeeps : (s.setStage task stage).custody.keeps =
      Function.update s.custody.keeps (some task) stage.child := by
    funext place
    cases place with
    | none => simp [setStage]
    | some other =>
      by_cases hother : other = task
      · subst hother
        simp [setStage]
      · simp [setStage, hother]
  rw [← hkeeps]
  rfl

theorem custody_connection (s : McpProcess validatorFor) (connection : Option Nat) :
    { s with connection := connection }.custody =
      { s.custody with keeps := Function.update s.custody.keeps none connection } := by
  have hkeeps : { s with connection := connection }.custody.keeps =
      Function.update s.custody.keeps none connection := by
    funext place
    cases place <;> simp
  rw [← hkeeps]
  rfl

/-- A task that keeps what it kept moves no process. -/
theorem custody_setStage_same {s s' : McpProcess validatorFor} (hs : s'.custody = s.custody)
    {task : Nat} {stage stage' : McpStage} (hstage : s.stage task = stage)
    (hchild : stage'.child = stage.child) : (s'.setStage task stage').custody = s.custody := by
  rw [custody_setStage, hs, hchild, ← hstage, ← keeps_some, Function.update_eq_self]

/-- A task that kills its process destroys it. -/
theorem custody_kill {s : McpProcess validatorFor} {task c : Nat} {stage stage' : McpStage}
    (hstage : s.stage task = stage) (hchild : stage.child = some c) (hchild' : stage'.child = none) :
    ({ s with running := s.running.erase c }.setStage task stage').custody =
      s.custody.act (.destroy (some task)) := by
  have hkept : s.custody.keeps (some task) = some c := by rw [keeps_some, hstage, hchild]
  rw [custody_setStage, hchild']
  simp only [Custody.act, hkept]
  rfl

/-- **What a step does to the processes.** -/
theorem custody_step (s : McpProcess validatorFor) (a : McpAction) :
    (s.step a).custody = s.custody.act (s.custodyAct a) := by
  cases a with
  | toolListChanged => rfl
  | ensureEntry task =>
    have hfree : ∀ stage : McpStage, stage.free = true → stage.child = none := by
      intro stage; cases stage <;> simp [McpStage.free, McpStage.child]
    simp only [step, custodyAct, Custody.act]
    split
    · next h =>
      split <;> exact custody_setStage_same rfl rfl (hfree _ h).symm
    · rfl
  | stopEntry task =>
    have hfree : ∀ stage : McpStage, stage.free = true → stage.child = none := by
      intro stage; cases stage <;> simp [McpStage.free, McpStage.child]
    simp only [step, custodyAct, Custody.act]
    split
    · next h => exact custody_setStage_same rfl rfl (hfree _ h).symm
    · rfl
  | proceed task reply =>
    show (s.proceed task reply).custody = _
    cases hstage : s.stage task <;> simp only [proceed, custodyAct, hstage]
    case starting =>
      cases reply with
      | some _ => rw [custody_setStage]; rfl
      | none => exact custody_setStage_same rfl hstage rfl
    case handshaking =>
      cases reply with
      | some _ => exact custody_setStage_same rfl hstage rfl
      | none => exact custody_kill hstage rfl rfl
    case abandoning => exact custody_kill hstage rfl rfl
    case killing => exact custody_kill hstage rfl rfl
    case connecting c =>
      split
      · rfl
      · have hkept : s.custody.keeps (some task) = some c := by rw [keeps_some, hstage]; rfl
        rw [custody_setStage, custody_connection]
        simp only [Custody.act, hkept]
        rw [Function.update_comm (by simp)]
        rfl
    case stopping =>
      split
      · rfl
      · cases hconnection : s.connection with
        | none =>
          have hkept : s.custody.keeps none = none := hconnection
          simp only [Custody.act, hkept]
          exact custody_setStage_same rfl hstage rfl
        | some c =>
          have hkept : s.custody.keeps none = some c := hconnection
          have htaken : { s with connection := none, connectionLock := some task }.custody =
              { s with connection := none }.custody := rfl
          rw [custody_setStage]
          simp only [Custody.act, hkept]
          rw [htaken, custody_connection]
          rfl
    case checking =>
      split
      · rfl
      · split
        · split <;> exact custody_setStage_same rfl hstage rfl
        · exact custody_setStage_same rfl hstage rfl
    case waiting =>
      split
      · rfl
      · split <;> exact custody_setStage_same rfl hstage rfl
    case refreshing => cases reply <;> exact custody_setStage_same rfl hstage rfl
    case discovering => cases reply <;> exact custody_setStage_same rfl hstage rfl
    -- the other stages keep no process and go on to one that keeps none, or pass theirs on
    all_goals first | rfl | exact custody_setStage_same rfl hstage rfl

/-! ## Locks -/

/-- Whoever is at a stage that holds the lock has it. -/
def Holders (holds : McpStage → Bool) (lock : Option Nat) (stage : Nat → McpStage) : Prop :=
  ∀ task, holds (stage task) = true → lock = some task

namespace Holders

variable {holds : McpStage → Bool} {lock : Option Nat} {stage : Nat → McpStage} {task : Nat}
  {next : McpStage}

theorem keep (h : Holders holds lock stage) (hnext : holds next = true → holds (stage task) = true) :
    Holders holds lock (Function.update stage task next) := by
  intro other hother
  by_cases heq : other = task
  · subst heq
    rw [Function.update_self] at hother
    exact h other (hnext hother)
  · rw [Function.update_of_ne heq] at hother
    exact h other hother

theorem take (h : Holders holds none stage) :
    Holders holds (some task) (Function.update stage task next) := by
  intro other hother
  by_cases heq : other = task
  · rw [heq]
  · rw [Function.update_of_ne heq] at hother
    cases h other hother

theorem release (h : Holders holds lock stage) (hheld : holds (stage task) = true)
    (hnext : holds next = false) : Holders holds none (Function.update stage task next) := by
  intro other hother
  by_cases heq : other = task
  · subst heq
    rw [Function.update_self, hnext] at hother
    cases hother
  · -- nobody else holds the lock that the task has
    rw [Function.update_of_ne heq] at hother
    have hsame := (h task hheld).symm.trans (h other hother)
    exact absurd (Option.some.inj hsame).symm heq

end Holders

/-- The locks are with those that hold them. -/
structure Locked (s : McpProcess validatorFor) : Prop where
  attempts : Holders McpStage.holdsAttempts s.attemptsLock s.stage
  connection : Holders McpStage.holdsConnection s.connectionLock s.stage

theorem Locked.step {s : McpProcess validatorFor} (h : s.Locked) (a : McpAction) :
    (s.step a).Locked := by
  cases a with
  | toolListChanged => exact ⟨h.attempts, h.connection⟩
  | ensureEntry task =>
    simp only [McpProcess.step]
    split
    · split <;> exact ⟨h.attempts.keep (by simp [McpStage.holdsAttempts]),
        h.connection.keep (by simp [McpStage.holdsConnection])⟩
    · exact h
  | stopEntry task =>
    simp only [McpProcess.step]
    split
    · exact ⟨h.attempts.keep (by simp [McpStage.holdsAttempts]),
        h.connection.keep (by simp [McpStage.holdsConnection])⟩
    · exact h
  | proceed task reply =>
    show (s.proceed task reply).Locked
    have hattempts := fun next => @Holders.keep _ _ _ task next h.attempts
    have hconnection := fun next => @Holders.keep _ _ _ task next h.connection
    cases hstage : s.stage task <;> rw [hstage] at hattempts hconnection <;>
      simp only [proceed, hstage]
    case checking =>
      split
      · exact h
      · next hfree =>
        split
        · split
          · refine ⟨hattempts _ (by simp [McpStage.holdsAttempts]), Holders.take ?_⟩
            rw [← Option.not_isSome_iff_eq_none.mp hfree]
            exact h.connection
          · exact ⟨hattempts _ (by simp [McpStage.holdsAttempts]),
              hconnection _ (by simp [McpStage.holdsConnection])⟩
        · exact ⟨hattempts _ (by simp [McpStage.holdsAttempts]),
            hconnection _ (by simp [McpStage.holdsConnection])⟩
    case refreshing =>
      cases reply <;> exact ⟨hattempts _ (by simp [McpStage.holdsAttempts]),
        h.connection.release (by simp [hstage, McpStage.holdsConnection]) rfl⟩
    case waiting =>
      split
      · exact h
      · next hfree =>
        split
        · exact ⟨hattempts _ (by simp [McpStage.holdsAttempts]),
            hconnection _ (by simp [McpStage.holdsConnection])⟩
        · refine ⟨Holders.take ?_, hconnection _ (by simp [McpStage.holdsConnection])⟩
          rw [← Option.not_isSome_iff_eq_none.mp hfree]
          exact h.attempts
    case failing | finishing =>
      exact ⟨h.attempts.release (by simp [hstage, McpStage.holdsAttempts]) rfl,
        hconnection _ (by simp [McpStage.holdsConnection])⟩
    case stopping =>
      split
      · exact h
      · next hfree =>
        split
        · refine ⟨hattempts _ (by simp [McpStage.holdsAttempts]), Holders.take ?_⟩
          rw [← Option.not_isSome_iff_eq_none.mp hfree]
          exact h.connection
        · exact ⟨hattempts _ (by simp [McpStage.holdsAttempts]),
            hconnection _ (by simp [McpStage.holdsConnection])⟩
    case burying =>
      exact ⟨hattempts _ (by simp [McpStage.holdsAttempts]),
        h.connection.release (by simp [hstage, McpStage.holdsConnection]) rfl⟩
    -- the other stages neither take a lock nor give one up
    all_goals
      repeat' split
      all_goals first
        | exact h
        | exact ⟨hattempts _ (by simp [McpStage.holdsAttempts]),
            hconnection _ (by simp [McpStage.holdsConnection])⟩

/-! ## One process -/

/-- A process is started while the entry has no connection and none is being taken down. -/
def StartsAlone (s : McpProcess validatorFor) (a : McpAction) : Prop :=
  ∀ task discovered, a = .proceed task (some discovered) → s.stage task = .starting →
    s.connection = none ∧ ∀ other c, s.stage other ≠ .killing c

theorem keeps_cases {stage : McpStage} {c : Nat} (h : stage.child = some c) :
    stage = .killing c ∨ stage.holdsAttempts = true ∧ stage ≠ .starting := by
  cases stage <;> simp_all [McpStage.child, McpStage.holdsAttempts]

theorem make_of_custodyAct {s : McpProcess validatorFor} {a : McpAction} {place : Option Nat}
    (h : s.custodyAct a = .make place) : ∃ task discovered,
      a = .proceed task (some discovered) ∧ s.stage task = .starting ∧ place = some task := by
  cases a with
  | proceed task reply =>
    simp only [custodyAct] at h
    split at h
    case h_1 hstage => cases h; exact ⟨task, _, rfl, hstage, rfl⟩
    all_goals first | cases h | (split at h <;> cases h)
  | toolListChanged => cases h
  | ensureEntry _ => cases h
  | stopEntry _ => cases h

/-- The locks are with their holders, and one process lives at most, in one hand. -/
structure Tidy (s : McpProcess validatorFor) : Prop where
  locked : s.Locked
  alone : s.custody.Alone

/-- A process that is started alone finds none. -/
theorem Tidy.empty_of_startsAlone {s : McpProcess validatorFor} (h : s.Tidy) {a : McpAction}
    (ha : s.StartsAlone a) {place : Option Nat} (hmake : s.custodyAct a = .make place) :
    s.custody.Empty := by
  obtain ⟨task, discovered, rfl, hstage, -⟩ := make_of_custodyAct hmake
  obtain ⟨hconnection, hkilling⟩ := ha task discovered rfl hstage
  intro kept
  cases kept with
  | none => exact hconnection
  | some other =>
    rw [keeps_some, Option.eq_none_iff_forall_ne_some]
    intro c hc
    rcases keeps_cases hc with hkill | ⟨hholds, hnot⟩
    · exact hkilling other c hkill
    · -- the other task would be in a start as well
      have hlock := h.locked.attempts task (by rw [hstage]; rfl)
      have hsame := hlock.symm.trans (h.locked.attempts other hholds)
      rw [← Option.some.inj hsame] at hnot
      exact hnot hstage

theorem Tidy.step {s : McpProcess validatorFor} (h : s.Tidy) {a : McpAction}
    (ha : s.StartsAlone a) : (s.step a).Tidy where
  locked := h.locked.step a
  alone := by
    rw [custody_step]
    exact h.alone.act _ fun place hmake => h.empty_of_startsAlone ha hmake

/-- A process that is not started alone makes two. -/
theorem Tidy.one_lt_of_not_startsAlone {s : McpProcess validatorFor} (h : s.Tidy) {a : McpAction}
    (ha : ¬ s.StartsAlone a) : 1 < (s.step a).running.length := by
  obtain ⟨task, discovered, rfl, hstage, hother⟩ : ∃ task discovered,
      a = .proceed task (some discovered) ∧ s.stage task = .starting ∧
        ¬ (s.connection = none ∧ ∀ other c, s.stage other ≠ .killing c) := by
    simpa only [StartsAlone, not_forall, exists_prop] using ha
  have hkept : ∃ place c, s.custody.keeps place = some c := by
    by_cases hconnection : s.connection = none
    · obtain ⟨other, hother⟩ := not_forall.mp fun hall => hother ⟨hconnection, hall⟩
      obtain ⟨c, hc⟩ := not_forall.mp hother
      exact ⟨some other, c, by rw [keeps_some, not_not.mp hc]; rfl⟩
    · obtain ⟨c, hc⟩ := Option.ne_none_iff_exists'.mp hconnection
      exact ⟨none, c, hc⟩
  obtain ⟨place, c, hplace⟩ := hkept
  have hmake : s.custodyAct (.proceed task (some discovered)) = .make (some task) := by
    simp only [custodyAct, hstage]
  have htwo := h.alone.one_lt_of_make (p := some task) hplace
  rw [← hmake, ← custody_step] at htwo
  exact htwo

/-! ## Stopping -/

/-- No task is in `ensure_entry`. -/
def Quiet (s : McpProcess validatorFor) : Prop := ∀ task, (s.stage task).ensuring = false

/-- The task's call of `stop_entry` has yet to kill the process, or none lives. -/
def Stops (s : McpProcess validatorFor) (task : Nat) : Prop :=
  s.stage task = .stopping ∨ (∃ c, s.stage task = .killing c) ∨ s.running = []

/-- Only its own steps change the stage of a task in a call. -/
theorem stage_step {s : McpProcess validatorFor} {task : Nat} {a : McpAction}
    (hfree : (s.stage task).free = false) (ha : ∀ reply, a ≠ .proceed task reply) :
    (s.step a).stage task = s.stage task := by
  cases a with
  | toolListChanged => rfl
  | ensureEntry other =>
    simp only [step]
    by_cases heq : other = task
    · rw [heq, hfree]
      rfl
    · have hne : task ≠ other := fun h => heq h.symm
      split
      · split <;> simp [setStage, giveBack, hne]
      · rfl
  | stopEntry other =>
    simp only [step]
    by_cases heq : other = task
    · rw [heq, hfree]
      rfl
    · have hne : task ≠ other := fun h => heq h.symm
      split
      · simp [setStage, hne]
      · rfl
  | proceed other reply =>
    have hne : task ≠ other := by
      rintro rfl
      exact ha reply rfl
    show (s.proceed other reply).stage task = _
    cases hstage : s.stage other <;> simp only [proceed, hstage] <;> repeat' split
    all_goals simp [setStage, giveBack, hne]

theorem running_step_eq_nil {s : McpProcess validatorFor} (hquiet : s.Quiet)
    (h : s.running = []) (a : McpAction) : (s.step a).running = [] := by
  show (s.step a).custody.alive = []
  rw [custody_step]
  refine Custody.alive_act_eq_nil h fun place hmake => ?_
  obtain ⟨task, -, -, hstage, -⟩ := make_of_custodyAct hmake
  have hnot := hquiet task
  rw [hstage] at hnot
  cases hnot

/-- Without a start beside it, a call of `stop_entry` that finds no connection finds no process. -/
theorem Tidy.running_eq_nil {s : McpProcess validatorFor} (h : s.Tidy) (hquiet : s.Quiet)
    (hlock : s.connectionLock = none) (hconnection : s.connection = none) : s.running = [] := by
  refine h.alone.empty fun place => ?_
  cases place with
  | none => exact hconnection
  | some task =>
    rw [keeps_some, Option.eq_none_iff_forall_ne_some]
    intro c hc
    rcases keeps_cases hc with hkill | ⟨hholds, -⟩
    · have hheld := h.locked.connection task (by rw [hkill]; rfl)
      rw [hlock] at hheld
      cases hheld
    · have hnot := hquiet task
      cases hstage : s.stage task <;> rw [hstage] at hnot hholds <;> cases hholds <;> cases hnot

theorem Stops.step {s : McpProcess validatorFor} (h : s.Tidy) (hquiet : s.Quiet) {task : Nat}
    (hstops : s.Stops task) (a : McpAction) : (s.step a).Stops task := by
  rcases hstops with hstage | ⟨c, hstage⟩ | hnone
  · by_cases ha : ∃ reply, a = .proceed task reply
    · obtain ⟨reply, rfl⟩ := ha
      show (s.proceed task reply).Stops task
      simp only [proceed, hstage]
      split
      · exact .inl hstage
      · next hlock =>
        cases hconnection : s.connection with
        | some c => exact .inr (.inl ⟨c, Function.update_self ..⟩)
        | none =>
          refine .inr (.inr (h.running_eq_nil hquiet ?_ hconnection))
          exact Option.not_isSome_iff_eq_none.mp hlock
    · refine .inl ?_
      rw [stage_step (by rw [hstage]; rfl) fun reply hreply => ha ⟨reply, hreply⟩]
      exact hstage
  · by_cases ha : ∃ reply, a = .proceed task reply
    · obtain ⟨reply, rfl⟩ := ha
      refine .inr (.inr ?_)
      have hkept : s.custody.keeps (some task) = some c := by rw [keeps_some, hstage]; rfl
      have hrunning : s.running = [c] := (h.alone.onlyAt hkept).2
      show (s.proceed task reply).running = []
      simp [proceed, hstage, setStage, hrunning]
    · refine .inr (.inl ⟨c, ?_⟩)
      rw [stage_step (by rw [hstage]; rfl) fun reply hreply => ha ⟨reply, hreply⟩]
      exact hstage
  · exact .inr (.inr (running_step_eq_nil hquiet hnone a))

/-! ## Runs -/

/-- An entry that nobody has used. -/
def start (entry : McpEntry validatorFor) : McpProcess validatorFor where
  entry := entry

/-- The entry after the first actions of a schedule. -/
def after (entry : McpEntry validatorFor) (actions : List McpAction) (n : Nat) :
    McpProcess validatorFor :=
  Schedule.run step (start entry) (actions.take n)

theorem start_tidy (entry : McpEntry validatorFor) : (start entry).Tidy where
  locked := {
    attempts := fun _ h => Bool.noConfusion h
    connection := fun _ h => Bool.noConfusion h }
  alone := .inl ⟨fun place => by cases place <;> rfl, rfl⟩

theorem after_tidy {entry : McpEntry validatorFor} {actions : List McpAction}
    (h : Schedule.Along step StartsAlone (start entry) actions) (n : Nat) :
    (after entry actions n).Tidy := by
  rw [after]
  exact Schedule.Along.invariant (I := Tidy) (fun hs ha => Tidy.step hs ha) (start_tidy entry) (h.take n)

theorem after_stops {entry : McpEntry validatorFor} {actions : List McpAction}
    (h : Schedule.Along step StartsAlone (start entry) actions) {task first : Nat}
    (hstops : (after entry actions first).Stops task) (more : Nat)
    (hquiet : ∀ n, first ≤ n → n ≤ first + more → (after entry actions n).Quiet) :
    (after entry actions (first + more)).Stops task := by
  induction more with
  | zero => exact hstops
  | succ more ih =>
    have hbefore := ih fun n hn hle => hquiet n hn (by omega)
    rw [← Nat.add_assoc, after, Schedule.run_take_succ]
    split
    · exact hbefore.step (after_tidy h _) (hquiet _ (by omega) (by omega)) _
    · exact hbefore

/-- **One process at a time**: throughout a schedule at most one process lives, and a call of
`stop_entry` that runs without an `ensure_entry` beside it leaves none, exactly when every process
is started while the entry has no connection and none is being taken down. -/
theorem oneChild_iff (entry : McpEntry validatorFor) (actions : List McpAction) :
    ((∀ n, (after entry actions n).running.length ≤ 1) ∧
      ∀ task first last, first ≤ last →
        (∀ n, first ≤ n → n ≤ last → (after entry actions n).Quiet) →
        (after entry actions first).stage task = .stopping →
        (after entry actions last).stage task = .idle →
        (after entry actions last).running = []) ↔
      Schedule.Along step StartsAlone (start entry) actions := by
  constructor
  · rintro ⟨hone, -⟩
    refine Schedule.Along.of_unseen (I := Tidy) (V := fun s => 1 < s.running.length)
      (fun hs ha => hs.step ha) (fun hs ha => hs.one_lt_of_not_startsAlone ha) (start_tidy entry)
      fun n => Nat.not_lt.mpr (hone n)
  · intro halong
    refine ⟨fun n => (after_tidy halong n).alone.length_le_one, ?_⟩
    intro task first last hle hquiet hstopping hidle
    obtain ⟨more, rfl⟩ := Nat.exists_eq_add_of_le hle
    rcases after_stops halong (.inl hstopping) more hquiet with hstage | ⟨c, hstage⟩ | hnone
    · rw [hidle] at hstage
      cases hstage
    · rw [hidle] at hstage
      cases hstage
    · exact hnone

/-! ## Two starts -/

def notesEntry : McpEntry McpManager.anyInstance where
  id := "notes"
  config := { command := "notes-mcp" }
  tools := []
  compiled := ⟨[], rfl⟩

/-- Two tasks find no connection; one starts a process and stores its connection, and then so does
the other. At the end a third task stops the entry. -/
def twoStarts : List McpAction :=
  [.ensureEntry 0, .ensureEntry 1, .proceed 0 none, .proceed 1 none] ++
    List.replicate 7 (.proceed 0 (some [])) ++ List.replicate 7 (.proceed 1 (some [])) ++
    .stopEntry 2 :: List.replicate 4 (.proceed 2 none)

/-- Two processes live, and the stop leaves one of them behind. -/
theorem two_children :
    (after notesEntry twoStarts 13).running = [0, 1] ∧
    (∀ n, 19 ≤ n → n ≤ 23 → (after notesEntry twoStarts n).Quiet) ∧
    (after notesEntry twoStarts 19).stage 2 = .stopping ∧
    (after notesEntry twoStarts 23).stage 2 = .idle ∧
    (after notesEntry twoStarts 23).running = [0] := by
  refine ⟨by decide +kernel, ?_, rfl, rfl, by decide +kernel⟩
  intro n hfirst hlast task
  have hn : n = 19 ∨ n = 20 ∨ n = 21 ∨ n = 22 ∨ n = 23 := by omega
  -- three tasks have made calls, and no other is anywhere
  rcases hn with rfl | rfl | rfl | rfl | rfl <;>
    rcases task with _ | _ | _ | task <;> rfl

end McpProcess

end Piqo
