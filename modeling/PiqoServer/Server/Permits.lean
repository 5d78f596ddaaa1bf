import PiqoServer.Library.Schedule
import PiqoServer.Server.Delegation
import PiqoServer.Server.Iterations

/-!
# Permits for active runs

`process_session` (`piqo-server/src/supervisor.rs`) takes a permit of the semaphore of
`AdmissionController` for every run it executes, and gives it back at the end of the iteration. At
the end of an iteration lies also the delivery of a child's result, which processes the parent
session on the spot. A task is therefore a stack of calls, and every call of it may hold a permit.

The lock of a session is taken where no other call is inside the session; what happens outside the
calls is arbitrary.

## Main definitions

* `WorkerCall`, `CallStack`: a call of `process_session`, and the calls of a task
* `Pool`, `Pool.step`: tasks that share the permits, in any order
* `Pool.StartsAlone`: no task starts a run while it holds a permit
* `Permit`: how far an iteration is on the way to its permit

## Main results

* `iteration_permit`: an iteration asks for one permit, after it has started a run
* `waiting_holds_none`: no task waits for a permit while it holds one, as long as none starts a run
  while it holds one
-/

namespace Piqo

/-! ## Tasks -/

/-- Where a call of `process_session` is. -/
inductive CallStage where
  /-- It waits for the lock of its session. -/
  | locking
  /-- The rest of an iteration. -/
  | inside (rest : ServerProgram Next)
  /-- The parent is processed first. -/
  | delivering

/-- A call of `process_session`. -/
structure WorkerCall where
  sessionId : String
  /-- `_active_permit`, which is kept to the end of an iteration. -/
  permit : Bool := false
  stage : CallStage := .locking

/-- The calls of a task, the innermost one first. -/
abbrev CallStack := List WorkerCall

/-- Whether the operation asks for a permit. -/
def ServerOp.acquires : ServerOp → Bool
  | .external .acquireActive => true
  | _ => false

/-- Whether the operation commits the start of a run. -/
def ServerOp.startsRun : ServerOp → Bool
  | .store (.append _ events) => events.any fun
    | .runStarted _ _ _ => true
    | _ => false
  | _ => false

namespace CallStack

/-- The permits a task holds. -/
def held (t : CallStack) : Nat := t.countP (·.permit)

/-- The next operation of a task, once it has the lock. -/
def nextOp? : CallStack → Option ServerOp
  | ⟨_, _, .inside (.call op _)⟩ :: _ => some op
  | _ => none

/-- The task is in `acquire_active`. -/
def waits (t : CallStack) : Bool := t.nextOp?.any (·.acquires)

/-- The task is about to commit the start of a run. -/
def startsRun (t : CallStack) : Bool := t.nextOp?.any (·.startsRun)

/-- The caller goes on where a call has returned: its iteration is over, and with it the permit. -/
def resume (fuel : Nat) : CallStack → CallStack
  | [] => []
  | ⟨sessionId, _, _⟩ :: below => ⟨sessionId, false, .inside (iteration fuel sessionId)⟩ :: below

end CallStack

/-- The tasks, and the permits that are free. -/
structure Pool where
  world : World
  available : Nat
  tasks : List CallStack := []

inductive PoolAction where
  /-- A worker is started, or a request processes a session. -/
  | arrive (sessionId : String)
  | advance (i : Nat)
  /-- A task is dropped. -/
  | abort (i : Nat)
  /-- Everything else the server does. -/
  | others (w : World)

namespace Pool

/-- Whether a call is inside the session. -/
def locked (m : Pool) (sessionId : String) : Bool :=
  m.tasks.any fun t => t.any fun
    | ⟨_, _, .locking⟩ => false
    | ⟨id, _, _⟩ => id = sessionId

/-- A task goes on; the permits it has given back are free, those it has taken are not. -/
def put (m : Pool) (i : Nat) (before after : CallStack) : Pool :=
  { m with
    available := m.available + before.held - after.held
    tasks := m.tasks.set i after }

/-- A new task. -/
def spawn (m : Pool) (sessionId : String) : Pool := { m with tasks := m.tasks ++ [[{ sessionId }]] }

/-- The reply to an operation, unless it has to wait. -/
def perform (env : Surroundings) (m : Pool) : (op : ServerOp) → Option (op.Reply × World)
  | .external .acquireActive => if m.available = 0 then none else some (true, m.world.tick)
  | op => some (World.handle env op m.world)

/-- The worker an operation starts. -/
def started (m : Pool) : ServerOp → Pool
  | .startWorker sessionId => m.spawn sessionId
  | _ => m

/-- The next step of a task. -/
def advance (env : Surroundings) (fuel : Nat) (m : Pool) (i : Nat) (t : CallStack) : Pool :=
  match t with
  | [] | ⟨_, _, .delivering⟩ :: _ => m
  | ⟨sessionId, permit, .locking⟩ :: below =>
    if m.locked sessionId then m
    else m.put i t (⟨sessionId, permit, .inside (iteration fuel sessionId)⟩ :: below)
  | ⟨_, _, .inside (.ret .done)⟩ :: below => m.put i t (CallStack.resume fuel below)
  | ⟨sessionId, _, .inside (.ret .again)⟩ :: below =>
    m.put i t (⟨sessionId, false, .inside (iteration fuel sessionId)⟩ :: below)
  | ⟨sessionId, permit, .inside (.ret (.parentFirst parentSessionId))⟩ :: below =>
    m.put i t ({ sessionId := parentSessionId } :: ⟨sessionId, permit, .delivering⟩ :: below)
  -- an error goes through all calls of the task
  | ⟨_, _, .inside (.fail _)⟩ :: _ => m.put i t []
  | ⟨sessionId, permit, .inside (.call op k)⟩ :: below => match m.perform env op with
    | none => m
    | some (reply, world) =>
      ({ m with world }.put i t
        (⟨sessionId, permit || op.acquires, .inside (k reply)⟩ :: below)).started op

def step (env : Surroundings) (fuel : Nat) (m : Pool) : PoolAction → Pool
  | .arrive sessionId => m.spawn sessionId
  | .advance i => match m.tasks[i]? with
    | some t => m.advance env fuel i t
    | none => m
  | .abort i => match m.tasks[i]? with
    | some t => m.put i t []
    | none => m
  | .others world => { m with world }

/-- A server with `max_active_runs` permits. -/
def start (maxActiveRuns : Nat) (w : World) : Pool where
  world := w
  available := maxActiveRuns

/-- The permits that are held. -/
def held (m : Pool) : Nat := CallStack.held m.tasks.flatten

/-- No task starts a run while it holds a permit. -/
def StartsAlone (m : Pool) : PoolAction → Prop
  | .advance i => ∀ t ∈ m.tasks[i]?, t.startsRun = true → t.held = 0
  | _ => True

instance StartsAlone.decidable (m : Pool) : (action : PoolAction) → Decidable (m.StartsAlone action)
  | .advance i => inferInstanceAs (Decidable (∀ t ∈ m.tasks[i]?, t.startsRun = true → t.held = 0))
  | .arrive _ | .abort _ | .others _ => inferInstanceAs (Decidable True)

end Pool

/-! ## The permit of an iteration -/

/-- How far an iteration is on the way to its permit. -/
inductive Permit where
  | idle
  /-- It has started a run. -/
  | due
  | held

namespace Permit

/-- The permit is asked for once, when a run has been started. -/
def allows (a : Permit) (op : ServerOp) : Prop := op.acquires = true → a = .due

def next (a : Permit) (op : ServerOp) (_ : op.Reply) : Permit :=
  if op.acquires then .held
  else match a with
    | .idle => if op.startsRun then .due else .idle
    | a => a

theorem next_held (op : ServerOp) (r : op.Reply) : next .held op r = .held := by
  unfold next
  split <;> rfl

theorem next_eq_due {a : Permit} {op : ServerOp} {r : op.Reply} (h : next a op r = .due) :
    op.acquires = false ∧ (a = .due ∨ op.startsRun = true) := by
  unfold next at h
  split at h
  · cases h
  · next hop =>
    refine ⟨by simpa using hop, ?_⟩
    cases a with
    | idle =>
      by_cases hstarts : op.startsRun = true
      · exact .inr hstarts
      · simp [hstarts] at h
    | due => exact .inl rfl
    | held => cases h

end Permit

section Protocol

variable {sessionId : String} {ε α β : Type} {a : Permit}

theorem permit_quiet : Quiet Permit.allows Permit.next where
  publish a _ := ⟨nofun, by cases a <;> rfl⟩
  worker a _ := ⟨nofun, by cases a <;> rfl⟩
  release a _ := ⟨nofun, by cases a <;> rfl⟩
  shutdown a _ := ⟨nofun, by cases a <;> rfl⟩

/-- A program that asks for no permit, once the iteration has one. -/
theorem follows_held {p : Program serverSignature ε α} {A : Type} {allows : A → ServerOp → Prop}
    {next : A → (op : ServerOp) → op.Reply → A} {Q : A → Except ε α → Prop} {b : A}
    (h : p.Follows allows next Q b) (hop : ∀ b op, allows b op → op.acquires = false)
    {R : Permit → Except ε α → Prop} (hQR : ∀ b x, Q b x → R .held x) :
    p.Follows Permit.allows Permit.next R .held := by
  refine h.map (fun _ => Permit.held) ?_ ?_ hQR
  · intro b op hallowed hacquires
    rw [hop b op hallowed] at hacquires
    cases hacquires
  · intro b op r _
    exact Permit.next_held op r

/-- A program that leaves the permit alone, once the iteration has one. -/
def Holding (p : Program serverSignature ε α) : Prop :=
  p.Follows Permit.allows Permit.next (fun b _ => b = .held) .held

theorem Holding.bind {p : Program serverSignature ε α} {f : α → Program serverSignature ε β}
    (hp : Holding p) (hf : ∀ v, Holding (f v)) : Holding (p >>= f) := by
  refine Program.Follows.bind hp ?_ fun _ _ h => h
  rintro b v rfl
  exact hf v

theorem Holding.append (sessionId : String) (e : SemanticEvent) :
    Holding (Piqo.append sessionId e) :=
  permit_quiet.append nofun (fun _ _ => Permit.next_held _ _) fun _ _ => Permit.next_held _ _

theorem Holding.onStore {op : StoreOp} {f : op.Result → ServerProgram β}
    (hf : ∀ v, Holding (f v)) : Holding (Piqo.onStore op >>= f) := by
  refine follows_onStore nofun (fun v => ?_) fun e => Permit.next_held _ _
  rw [Permit.next_held]
  exact hf v

theorem interruptMessage_holding : Holding (interruptMessage sessionId) := by
  refine Holding.onStore fun p => ?_
  cases p.openAssistant with
  | none => exact rfl
  | some message => exact (Holding.append _ _).bind fun _ => rfl

theorem completeMessage_holding (find : SessionProjection → Option MessageProjection) :
    Holding (completeMessage sessionId find) := by
  refine Holding.onStore fun p => ?_
  cases find p with
  | none => exact rfl
  | some message => exact (Holding.append _ _).bind fun _ => rfl

theorem closeRun_holding (run : RunProjection) (result : ExecutionResult) :
    Holding (closeRun sessionId run result) := by
  have hstop : ∀ e e' : SemanticEvent, Holding (interruptMessage sessionId >>= fun _ =>
      append sessionId e >>= fun _ => append sessionId e' >>= fun _ => return ()) :=
    fun e e' => interruptMessage_holding.bind fun _ => (Holding.append _ e).bind fun _ =>
      (Holding.append _ e').bind fun _ => rfl
  have hcomplete : ∀ find (e : SemanticEvent), Holding (completeMessage sessionId find >>= fun _ =>
      append sessionId e >>= fun _ => return ()) :=
    fun find e => (completeMessage_holding find).bind fun _ => (Holding.append _ e).bind fun _ => rfl
  cases result with
  | completed => exact rfl
  | completedWithUsage usage => exact hcomplete _ _
  | failed error retryable => exact hstop _ _
  | cancelled => exact hstop _ _
  | interrupted => exact hstop _ _
  | requiresAction => exact hcomplete _ _

theorem tells_acquires {op : ServerOp} (h : op.tells) : op.acquires = false := by
  rcases op with op | _ | _ | op
  · rfl
  · rfl
  · rfl
  · cases op <;> first | rfl | exact h.elim

theorem turnAllows_acquires {t : Turn} {op : ServerOp} (h : turnAllows sessionId t op) :
    op.acquires = false := by
  rcases op with op | _ | _ | op
  · rfl
  · rfl
  · rfl
  · cases op <;> first | rfl | exact h.elim

/-- Finishing a run whose execution has ended. -/
theorem finishRun_holding (fuel : Nat) (run : RunProjection) {result : ExecutionResult}
    (hresult : result ≠ .completed) : Holding (finishRun fuel sessionId run result) := by
  have hpause : pauseRun fuel sessionId run result = .ret result := by
    cases result <;> first | rfl | exact absurd rfl hresult
  unfold finishRun
  rw [hpause]
  refine (closeRun_holding run result).bind fun _ => ?_
  exact follows_held (deliverChildResult_tells sessionId run.runId) (fun _ _ h => tells_acquires h)
    fun _ _ _ => rfl

/-- Executing a run that has been started takes one permit. -/
theorem executeAndFinish_permit (fuel : Nat) (run : RunProjection) :
    (executeAndFinish fuel sessionId run).Follows Permit.allows Permit.next (fun _ _ => True)
      .due := by
  refine follows_ask (fun _ => rfl) fun active => ?_
  change Program.Follows _ _ _ Permit.held _
  cases active with
  | false => trivial
  | true =>
    refine (follows_held (R := fun b x => b = .held ∧ ∀ result, x = .ok result →
      result ≠ .completed) (executeRunWithChildTimeout_follows run)
      (fun _ _ h => turnAllows_acquires h) ?_).bind ?_ fun _ _ _ => trivial
    · rintro t _ hover
      refine ⟨rfl, ?_⟩
      rintro result rfl
      exact hover.2.paused
    · rintro _ result ⟨rfl, hresult⟩
      refine follows_ask nofun fun _ => ?_
      rw [Permit.next_held]
      refine Program.Follows.bind (finishRun_holding fuel run (hresult result rfl)) ?_
        fun _ _ _ => trivial
      intro b parent _
      cases parent <;> trivial

/-- An append that starts no run, and what follows it. -/
theorem follows_append_permit {e : SemanticEvent}
    (he : (ServerOp.store (.append sessionId [e])).startsRun = false)
    {f : RecordedEvent → ServerProgram β}
    (hf : ∀ record, (f record).Follows Permit.allows Permit.next (fun _ _ => True) a) :
    (append sessionId e >>= f).Follows Permit.allows Permit.next (fun _ _ => True) a := by
  have hnext : ∀ r, Permit.next a (.store (.append sessionId [e])) r = a := by
    intro r
    cases a <;> simp [Permit.next, ServerOp.acquires, he]
  refine (permit_quiet.append (Q := fun b _ => b = a) nofun ?_ ?_).bind ?_ fun _ _ _ => trivial
  · intro records record
    exact hnext _
  · intro r e
    exact hnext _
  · rintro b record rfl
    exact hf record

/-- The start of a run makes its permit due. -/
theorem runStarted_permit (runId attemptId : String) (attempt : Nat) :
    (append sessionId (.runStarted runId attemptId attempt)).Follows Permit.allows Permit.next
      (fun b _ => b = .due) .idle :=
  permit_quiet.append nofun (fun _ _ => rfl) fun _ _ => rfl

theorem silent_acquires {op : ServerOp} (h : op.silent = true) :
    op.acquires = false ∧ op.startsRun = false := by
  rcases op with op | _ | _ | op
  · cases op <;> first | exact ⟨rfl, rfl⟩ | cases h
  · exact ⟨rfl, rfl⟩
  · exact ⟨rfl, rfl⟩
  · cases op <;> first | exact ⟨rfl, rfl⟩ | cases h

theorem Silent.follows_permit {p : ServerProgram α} (hp : Silent p) :
    p.Follows Permit.allows Permit.next (fun b _ => b = a) a := by
  refine (Program.Follows.invariant (J := (· = a)) (P := fun _ => True) ?_ hp rfl).mono
    fun b x h => h.1
  rintro b op rfl hop
  obtain ⟨hacquires, hstarts⟩ := silent_acquires hop
  refine ⟨fun h => ?_, fun r => ?_⟩
  · rw [hacquires] at h
    cases h
  · cases b <;> simp [Permit.next, hacquires, hstarts]

theorem continueRun_permit (fuel : Nat) (run : RunProjection) :
    (continueRun fuel sessionId run).Follows Permit.allows Permit.next (fun _ _ => True) .idle := by
  refine (maxModelTurns_silent sessionId).follows_permit.bind ?_ fun _ _ _ => trivial
  rintro b maxTurns rfl
  refine iteInduction (fun _ => ?_) fun _ => ?_
  · exact follows_append_permit rfl fun _ => trivial
  · refine follows_append_permit rfl fun _ => ?_
    refine follows_ask nofun fun attemptId => ?_
    refine (runStarted_permit _ _ _).bind ?_ fun _ _ _ => trivial
    rintro b record rfl
    exact follows_ask nofun fun _ => executeAndFinish_permit fuel run

/-- A queued run is started and executed. -/
theorem takeUp_permit (fuel : Nat) (run : RunProjection) :
    (ask .newUuid >>= fun attemptId => ask (.registerToken run.runId) >>= fun _ =>
      (append sessionId (.runStarted run.runId attemptId (run.attempts + 1))).attempt >>= fun
        | .error e => ask (.removeToken run.runId) >>= fun _ => Program.fail e
        | .ok _ => executeAndFinish fuel sessionId
            { run with attemptId := some attemptId, attempts := run.attempts + 1 }).Follows
      Permit.allows Permit.next (fun _ _ => True) .idle := by
  refine follows_ask nofun fun attemptId => ?_
  refine follows_ask nofun fun _ => ?_
  refine ((runStarted_permit _ _ _).mono fun b x h => ⟨x, rfl, h⟩).attempt.bind_total ?_
  rintro b x rfl
  cases x with
  | error e => exact follows_ask nofun fun _ => trivial
  | ok record => exact executeAndFinish_permit fuel _

theorem startRun_permit (fuel : Nat) (phase : SessionPhase) (run : RunProjection) :
    (startRun fuel sessionId phase run).Follows Permit.allows Permit.next (fun _ _ => True)
      .idle := by
  unfold startRun enterRunning
  split
  · exact takeUp_permit fuel run
  · rw [Program.bind_assoc]
    exact follows_append_permit rfl fun _ => takeUp_permit fuel run

/-- **An iteration asks for one permit, after it has started a run.** -/
theorem iteration_permit (fuel : Nat) (sessionId : String) :
    (iteration fuel sessionId).Follows Permit.allows Permit.next (fun _ _ => True) .idle := by
  refine follows_ask nofun fun shutdown => ?_
  cases shutdown with
  | true => trivial
  | false =>
    refine follows_onStore nofun (fun p => ?_) fun _ => trivial
    refine iteInduction (fun _ => trivial) fun _ => ?_
    split
    · exact continueRun_permit fuel _
    · refine iteInduction (fun _ => trivial) fun _ => ?_
      split
      · unfold finishQueue
        refine iteInduction (fun _ => ?_) fun _ => trivial
        exact follows_append_permit rfl fun _ => trivial
      · exact startRun_permit fuel _ _

end Protocol

/-! ## The invariant of a task -/

namespace CallStack

variable {t below : CallStack} {call : WorkerCall}

@[simp] theorem held_nil : held [] = 0 := rfl

@[simp] theorem held_cons (call : WorkerCall) (below : CallStack) :
    held (call :: below) = held below + if call.permit then 1 else 0 := by
  simp [held, List.countP_cons]

/-- A task whose innermost call is on the way to its permit: where that is due the task holds
none. -/
def Orderly : CallStack → Prop
  | [] | ⟨_, _, .delivering⟩ :: _ => True
  | ⟨_, permit, .locking⟩ :: _ => permit = false
  | ⟨sessionId, permit, .inside p⟩ :: below => ∃ a : Permit,
      p.Follows Permit.allows Permit.next (fun _ _ => True) a ∧ (permit = true → a = .held) ∧
        (a = .due → held (⟨sessionId, permit, .inside p⟩ :: below) = 0)

theorem Orderly.iteration (fuel : Nat) (sessionId : String) (below : CallStack) :
    Orderly (⟨sessionId, false, .inside (iteration fuel sessionId)⟩ :: below) :=
  ⟨.idle, iteration_permit fuel sessionId, nofun, nofun⟩

/-- A task that waits for a permit holds none. -/
theorem Orderly.waits (h : t.Orderly) (hwaits : t.waits = true) : t.held = 0 := by
  unfold CallStack.waits nextOp? at hwaits
  split at hwaits
  · next sessionId permit op k below =>
    obtain ⟨a, hfollows, -, hdue⟩ := h
    exact hdue (hfollows.1 (by simpa using hwaits))
  · cases hwaits

/-- An operation keeps a task orderly, unless it starts a run while the task holds a permit. -/
theorem Orderly.operate {sessionId : String} {permit : Bool} {op : ServerOp}
    {k : op.Reply → ServerProgram Next} (h : Orderly (⟨sessionId, permit, .inside (.call op k)⟩ :: below))
    (hstarts : op.startsRun = true → held (⟨sessionId, permit, .inside (.call op k)⟩ :: below) = 0)
    (r : op.Reply) :
    Orderly (⟨sessionId, permit || op.acquires, .inside (k r)⟩ :: below) := by
  obtain ⟨a, hfollows, hheld, hdue⟩ := h
  refine ⟨Permit.next a op r, hfollows.2 r, ?_, ?_⟩
  · intro hpermit
    rcases Bool.or_eq_true_iff.mp hpermit with hpermit | hacquires
    · rw [hheld hpermit]
      exact Permit.next_held op r
    · exact if_pos hacquires
  · intro hnext
    obtain ⟨hacquires, hbefore⟩ := Permit.next_eq_due hnext
    have hnone : held (⟨sessionId, permit, .inside (.call op k)⟩ :: below) = 0 := by
      rcases hbefore with hbefore | hop
      · exact hdue hbefore
      · exact hstarts hop
    rw [hacquires, Bool.or_false]
    simpa using hnone

/-- An operation takes at most the permit it asks for. -/
theorem held_operate (sessionId : String) (permit : Bool) (op : ServerOp)
    (p q : ServerProgram Next) (below : CallStack) :
    held (⟨sessionId, permit || op.acquires, .inside q⟩ :: below) ≤
      held (⟨sessionId, permit, .inside p⟩ :: below) + if op.acquires then 1 else 0 := by
  simp only [held_cons]
  cases permit <;> cases op.acquires <;> simp

theorem orderly_resume (fuel : Nat) (below : CallStack) : Orderly (resume fuel below) := by
  cases below with
  | nil => trivial
  | cons call below => exact .iteration fuel call.sessionId below

theorem held_resume (fuel : Nat) (below : CallStack) : held (resume fuel below) ≤ held below := by
  cases below <;> simp [resume]

theorem held_append (s t : CallStack) : held (s ++ t) = held s + held t := List.countP_append

/-- What all tasks hold when one of them has changed. -/
theorem held_flatten_set {tasks : List CallStack} {i : Nat} (h : tasks[i]? = some t)
    (t' : CallStack) :
    held (tasks.set i t').flatten + held t = held tasks.flatten + held t' := by
  induction tasks generalizing i with
  | nil => simp at h
  | cons s tasks ih =>
    cases i with
    | zero =>
      obtain rfl : s = t := by simpa using h
      simp only [List.set_cons_zero, List.flatten_cons, held_append]
      omega
    | succ i =>
      have hrest := ih (by simpa using h)
      simp only [List.set_cons_succ, List.flatten_cons, held_append]
      omega

end CallStack

/-! ## The invariant of the tasks -/

namespace Pool

variable {env : Surroundings} {fuel limit : Nat} {m : Pool} {i : Nat} {t t' : CallStack}

/-- Every permit is free or held, and every task is orderly. -/
structure Invariant (limit : Nat) (m : Pool) : Prop where
  permits : m.available + m.held = limit
  orderly : ∀ t ∈ m.tasks, t.Orderly

theorem Invariant.put (h : m.Invariant limit) (ht : m.tasks[i]? = some t)
    (hheld : t'.held ≤ m.available + t.held) (hnext : t'.Orderly) :
    (m.put i t t').Invariant limit where
  permits := by
    have hheld' := CallStack.held_flatten_set ht t'
    have hpermits := h.permits
    simp only [Pool.put, Pool.held] at hpermits ⊢
    omega
  orderly t₁ ht₁ := by
    rcases List.mem_or_eq_of_mem_set ht₁ with hmem | rfl
    · exact h.orderly t₁ hmem
    · exact hnext

theorem Invariant.spawn (h : m.Invariant limit) (sessionId : String) :
    (m.spawn sessionId).Invariant limit where
  permits := by
    have hpermits := h.permits
    simpa [Pool.spawn, Pool.held, CallStack.held_append] using hpermits
  orderly t ht := by
    rcases List.mem_append.mp ht with hmem | hnew
    · exact h.orderly t hmem
    · rw [List.mem_singleton.mp hnew]
      rfl

theorem Invariant.started (h : m.Invariant limit) (op : ServerOp) :
    (m.started op).Invariant limit := by
  cases op with
  | startWorker sessionId => exact h.spawn sessionId
  | _ => exact h

theorem Invariant.world (h : m.Invariant limit) (world : World) :
    Invariant limit { m with world } :=
  ⟨h.permits, h.orderly⟩

/-- A permit is given only where one is free. -/
theorem available_of_perform {op : ServerOp} {r : op.Reply × World}
    (h : m.perform env op = some r) : (if op.acquires then 1 else 0) ≤ m.available := by
  unfold perform at h
  split at h
  · obtain ⟨hsome, -⟩ := Option.ite_none_left_eq_some.mp h
    simp only [ServerOp.acquires, if_true]
    omega
  · next hop =>
    have hacquires : op.acquires = false := by
      unfold ServerOp.acquires
      split
      · exact absurd rfl hop
      · rfl
    simp [hacquires]

theorem Invariant.advance (h : m.Invariant limit) (ht : m.tasks[i]? = some t)
    (hstarts : t.startsRun = true → t.held = 0) : (m.advance env fuel i t).Invariant limit := by
  have horderly := h.orderly t (List.mem_of_getElem? ht)
  unfold Pool.advance
  split
  · exact h
  · exact h
  · next sessionId permit below =>
    split
    · exact h
    · obtain rfl : permit = false := horderly
      exact h.put ht (by simp) (.iteration fuel sessionId below)
  · next below =>
    refine h.put ht ?_ (CallStack.orderly_resume fuel below)
    have hresume := CallStack.held_resume fuel below
    simp only [CallStack.held_cons]
    omega
  · next sessionId permit below =>
    exact h.put ht (by simp; omega) (.iteration fuel sessionId below)
  · exact h.put ht (by simp) rfl
  · exact h.put ht (by simp) trivial
  · next sessionId permit op k below =>
    split
    · exact h
    · next reply world hperform =>
      have havailable := available_of_perform hperform
      have hheld := CallStack.held_operate sessionId permit op (.call op k) (k reply) below
      refine ((h.world world).put ht ?_ (horderly.operate hstarts reply)).started op
      change _ ≤ m.available + _
      omega

/-- **Every step keeps the invariant in which no task starts a run while it holds a permit.** -/
theorem Invariant.step (h : m.Invariant limit) {action : PoolAction} (haction : m.StartsAlone action) :
    (m.step env fuel action).Invariant limit := by
  cases action with
  | arrive sessionId => exact h.spawn sessionId
  | others world => exact h.world world
  | advance i =>
    simp only [Pool.step]
    split
    · next t ht => exact h.advance ht (haction t ht)
    · exact h
  | abort i =>
    simp only [Pool.step]
    split
    · next t ht => exact h.put ht (by simp) trivial
    · exact h

theorem Invariant.start (limit : Nat) (w : World) : (Pool.start limit w).Invariant limit :=
  ⟨rfl, nofun⟩

/-- Some permit is free, or some task that holds one does not wait. -/
theorem Invariant.progress (h : m.Invariant limit) (hlimit : 1 ≤ limit) (hnone : m.available = 0) :
    ∃ t ∈ m.tasks, 0 < t.held ∧ t.waits = false := by
  have hheld : m.held ≠ 0 := by
    have hpermits := h.permits
    omega
  obtain ⟨call, hcall, hpermit⟩ := List.countP_pos_iff.mp (Nat.pos_of_ne_zero hheld)
  obtain ⟨t, ht, hmem⟩ := List.mem_flatten.mp hcall
  have hpos : CallStack.held t ≠ 0 := (List.countP_pos_iff.mpr ⟨call, hmem, hpermit⟩).ne'
  refine ⟨t, ht, Nat.pos_of_ne_zero hpos, ?_⟩
  refine Bool.eq_false_iff.mpr ?_
  intro hwaits
  exact hpos ((h.orderly t ht).waits hwaits)

end Pool

/-! ## Waiting and holding -/

/-- **No task waits for a permit while it holds one, and never are all permits held by tasks that
wait for one**, along every schedule in which no task starts a run while it holds a permit. -/
theorem waiting_holds_none (env : Surroundings) (fuel maxActiveRuns : Nat) (w : World)
    (actions : List PoolAction)
    (h : Schedule.Along (Pool.step env fuel) Pool.StartsAlone (.start maxActiveRuns w) actions) :
    let m := Schedule.run (Pool.step env fuel) (.start maxActiveRuns w) actions
    (∀ t ∈ m.tasks, t.waits = true → t.held = 0) ∧
      (1 ≤ maxActiveRuns →
        ¬ (m.available = 0 ∧ ∀ t ∈ m.tasks, 0 < t.held → t.waits = true)) := by
  intro m
  have hinvariant : m.Invariant maxActiveRuns :=
    h.invariant (fun hm haction => hm.step haction) (.start maxActiveRuns w)
  refine ⟨?_, ?_⟩
  · intro t ht hwaits
    exact (hinvariant.orderly t ht).waits hwaits
  · rintro hlimit ⟨hnone, hall⟩
    obtain ⟨t, ht, hheld, hwaits⟩ := hinvariant.progress hlimit hnone
    rw [hall t ht hheld] at hwaits
    cases hwaits

/-- Two sessions, each with a queued run. -/
def twoQueued : World where
  store := (Store.ofDatabase (.empty ∅)).executeAll
    [.createSessionWithRetention "s" "t0" none none .forever,
      .appendEvents "s" (fun _ => "t1") [.runQueued "r" none "p" "m" leadRequest.toJson],
      .createSessionWithRetention "u" "t0" none none .forever,
      .appendEvents "u" (fun _ => "t1") [.runQueued "r" none "p" "m" leadRequest.toJson]]
  published := []
  workers := []
  clock := 0

/-- The first worker is let run until it has a permit, then the second one. -/
def oneAfterTheOther : List PoolAction :=
  [.arrive "s", .arrive "u"] ++ List.replicate 12 (.advance 0) ++ List.replicate 12 (.advance 1)

/-- With one permit the second worker waits, and the first one holds the permit and goes on. -/
theorem waiting_holds_none_two :
    let m := Schedule.run (Pool.step (.plain (leadConfig none)) 1) (.start 1 twoQueued)
      oneAfterTheOther
    m.available = 0 ∧ m.tasks.map (fun t => (t.waits, t.held)) = [(false, 1), (true, 0)] ∧
    ((∀ t ∈ m.tasks, t.waits = true → t.held = 0) ∧
      (1 ≤ 1 → ¬ (m.available = 0 ∧ ∀ t ∈ m.tasks, 0 < t.held → t.waits = true))) := by
  intro m
  refine ⟨?_, ?_, ?_⟩
  · decide +kernel
  · decide +kernel
  · exact waiting_holds_none (.plain (leadConfig none)) 1 1 twoQueued oneAfterTheOther
      (by decide +kernel)

/-! ## A child and its parent with one permit -/

/-- What the lead asks of the worker. -/
def delegateArguments : Json :=
  .object [("agent", .str "worker"), ("task", .str "t"), ("context_message_ids", .arr [])]

/-- A session whose run waits for the result of a delegation. -/
def delegatingStart : World where
  store := (Store.ofDatabase (.empty ∅)).executeAll
    [.createSessionWithRetention "s" "t0" none none .forever,
      .appendEvents "s" (fun _ => "t1") [
        .runQueued "r" none "p" "m" leadRequest.toJson,
        .sessionPhaseChanged .created .running (some "run_started"),
        .runStarted "r" "a" 1,
        .messageStarted "m1" "assistant" .assistant (.agent "assistant"),
        .toolCallEmitted "r" "m1" "c" "assistant" "delegate" delegateArguments "" true,
        .runRequiresAction "r" [],
        .messageCompleted "m1",
        .sessionPhaseChanged .running .interrupted (some "requires_action"),
        .toolExecutionStarted "r" "c" "x"]]
  published := []
  workers := []
  clock := 0

/-- The child is there, with its run queued. -/
def delegatingWorld : World :=
  ((spawnDelegatedChild "s" "r" "c" "assistant" delegateArguments).run
    (World.handle (.plain (leadConfig none))) delegatingStart).2

/-- The worker of the child, alone. -/
def childAlone (steps : Nat) : List PoolAction :=
  .arrive "id-5" :: List.replicate steps (.advance 0)

/-- The server with one permit, when the worker of the child has told the parent. -/
def stuckPool : Pool :=
  Schedule.run (Pool.step (.plain (leadConfig none)) 1) (.start 1 delegatingWorld) (childAlone 80)

theorem Pool.step_of_waits {env : Surroundings} {fuel : Nat} {m : Pool} (hnone : m.available = 0)
    (hwaits : ∀ t ∈ m.tasks, t.waits = true) (i : Nat) : m.step env fuel (.advance i) = m := by
  simp only [Pool.step]
  split
  · next t ht =>
    have hwaits := hwaits t (List.mem_of_getElem? ht)
    unfold CallStack.waits CallStack.nextOp? at hwaits
    split at hwaits
    · next sessionId permit op k below =>
      have hperform : m.perform env op = none := by
        unfold ServerOp.acquires at hwaits
        simp only [Option.any_some] at hwaits
        split at hwaits
        · exact if_pos hnone
        · cases hwaits
      simp only [Pool.advance, hperform]
    · cases hwaits
  · rfl

/-- The worker of a child that holds the only permit waits for another one, for its parent. -/
theorem waiting_holds_permit :
    stuckPool.available = 0 ∧
    (∃ t ∈ stuckPool.tasks, t.waits = true ∧ t.held = 1 ∧ t.map (·.sessionId) = ["s", "id-5"]) ∧
    (∀ t ∈ stuckPool.tasks, 0 < t.held → t.waits = true) ∧
    ∀ i, stuckPool.step (.plain (leadConfig none)) 1 (.advance i) = stuckPool := by
  have hfacts : stuckPool.available = 0 ∧ stuckPool.tasks.map
      (fun t => (t.waits, t.held, t.map (·.sessionId))) = [(true, 1, ["s", "id-5"])] := by
    decide +kernel
  obtain ⟨hnone, htasks⟩ := hfacts
  obtain ⟨t, htask, hfields⟩ := List.map_eq_singleton_iff.mp htasks
  simp only [Prod.mk.injEq] at hfields
  obtain ⟨hwaits, hheld, hids⟩ := hfields
  have hall : ∀ t ∈ stuckPool.tasks, t.waits = true := by
    rw [htask]
    intro t' ht'
    rw [List.mem_singleton.mp ht']
    exact hwaits
  refine ⟨hnone, ⟨t, ?_, hwaits, hheld, hids⟩, fun t' ht' _ => hall t' ht', ?_⟩
  · rw [htask]
    exact List.mem_singleton_self t
  · exact Pool.step_of_waits hnone hall

end Piqo
