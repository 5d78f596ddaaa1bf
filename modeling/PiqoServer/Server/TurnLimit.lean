import Mathlib.Data.List.Perm.Subperm
import PiqoServer.Server.RunNumbers

/-!
# The limit of model turns

`max_model_turns` (`piqo-server/src/supervisor.rs`) bounds how often a worker starts a run again
after its tool calls have results. The worker compares the limit with the number of attempts at the
run, as its copy of the run has it.

## Main definitions

* `Starting`, `startingAllows`, `startingNext`: when a worker starts a run
* `ServerOp.starts?`, `numbersOf`: the numbers with which a run is started
* `Numbered`: what holds of the session and of these numbers

## Main results

* `iteration_starts`: an iteration starts the runs it has seen to wait for it
* `Numbering.step_shown`: an operation of a worker keeps what holds of the numbers
* `starts_bounded`: a run is started with growing numbers, none of them above the limit
-/

namespace Piqo

/-! ## Starting a run -/

/-- What a worker has read of the session, and the runs it has started there. -/
structure Starting where
  /-- The projection read last, as long as no number has been set since. -/
  seen : Option SessionProjection
  /-- The largest limit that was read. -/
  limit : Nat
  /-- The run started last, and the attempts before. -/
  started : Option (String × Nat)

def Starting.none : Starting := ⟨.none, 0, .none⟩

/-- The projection of the session that an operation reads. -/
def ServerOp.reads? (sessionId : String) : (op : ServerOp) → op.Reply → Option SessionProjection
  | .store (.projection id), .ok p => if id = sessionId then some p else none
  | _, _ => none

/-- The limit that an operation reads. -/
def ServerOp.limit? (sessionId : String) : (op : ServerOp) → op.Reply → Option Nat
  | .store (.agentLinks id), .ok links =>
    if id = sessionId then (childLink sessionId links).map (·.budget.maxModelTurns) else none
  | .external .configSnapshot, .ok config => some config.maxModelTurns
  | _, _ => none

/-- The run of the session that an operation starts, and its number. -/
def ServerOp.starts? (sessionId : String) : (op : ServerOp) → op.Reply → Option (String × Nat)
  | .store (.append id [.runStarted runId _ attempt]), .ok _ =>
    if id = sessionId then some (runId, attempt) else none
  | _, _ => none

/-- An operation that may set a number in the session. -/
def ServerOp.numbers (sessionId : String) : ServerOp → Bool
  | .store (.append id events) => id = sessionId && events.any (·.attempt?.isSome)
  | _ => false

/-- A run is started that was seen to wait for it, with the next number; after its calls have
results only below the limit. -/
def Starting.Starts (sessionId : String) (g : Starting) (op : ServerOp) : Prop :=
  ∃ p run attemptId, g.seen = some p ∧
    op = .store (.append sessionId [.runStarted run.runId attemptId (run.attempts + 1)]) ∧
      (p.readyActionRun = some run ∧ run.attempts < g.limit ∨ p.queuedRuns.head? = some run)

/-- Another attempt is made at the run that was started last. -/
def Starting.Continues (sessionId : String) (g : Starting) (op : ServerOp) : Prop :=
  ∃ runId attempts attemptId k, g.started = some (runId, attempts) ∧ attempts < k ∧
    op = .store (.append sessionId [.runAttemptStarted runId attemptId k])

/-- The operations of an iteration. -/
def ServerOp.iterates : ServerOp → Bool
  | .store (.append _ _) | .store (.projection _) | .store (.getSession _)
  | .store (.agentLinks _) => true
  | .store _ => false
  | _ => true

def startingAllows (sessionId : String) (g : Starting) (op : ServerOp) : Prop :=
  op.iterates = true ∧
    (op.numbers sessionId = true → g.Starts sessionId op ∨ g.Continues sessionId op)

def startingNext (sessionId : String) (g : Starting) (op : ServerOp) (r : op.Reply) : Starting where
  seen := if op.numbers sessionId then none else (op.reads? sessionId r).or g.seen
  limit := max g.limit ((op.limit? sessionId r).getD 0)
  started := ((op.starts? sessionId r).map fun s => (s.1, s.2 - 1)).or g.started

section Starting

variable {ε α β : Type} {id sessionId : String} {run : RunProjection} {g : Starting}

/-- The programs of workers as the session sees them. -/
abbrev StartsRuns (sessionId : String) (g : Starting) (p : Program serverSignature ε α)
    (Q : Starting → Except ε α → Prop) : Prop :=
  p.Follows (startingAllows sessionId) (startingNext sessionId) Q g

theorem ServerOp.starts?_of_numbers {op : ServerOp} (h : op.numbers sessionId = false)
    (r : op.Reply) : op.starts? sessionId r = none := by
  unfold ServerOp.starts?
  split
  · refine if_neg fun hid => ?_
    simp [ServerOp.numbers, hid, SemanticEvent.attempt?] at h
  · rfl

theorem ServerOp.attempts_iterates {op : ServerOp} (h : op.attempts sessionId run) :
    op.iterates = true := by
  rcases op with op | _ | _ | op
  · cases op <;> first | rfl | exact h.elim
  all_goals rfl

/-- Executing a run that has been started. -/
theorem Attempts.starts {p : Program serverSignature ε α} {k : Nat}
    (h : Attempts sessionId run p) (hstarted : g.started = some (run.runId, k))
    (hk : k ≤ run.attempts) : StartsRuns sessionId g p fun _ _ => True := by
  -- No run is started in between, so the run started last stays the same.
  refine (Program.Follows.invariant (J := fun g' => g'.started = some (run.runId, k))
    (P := fun _ => True) ?_ h hstarted).mono fun _ _ _ => trivial
  intro g' op hg' hop
  have hcontinues : op.numbers sessionId = true → ∃ attemptId k',
      op = .store (.append sessionId [.runAttemptStarted run.runId attemptId k']) ∧ k < k' := by
    intro hnumbers
    unfold ServerOp.numbers at hnumbers
    split at hnumbers
    · obtain ⟨hid, hany⟩ := by simpa using hnumbers
      rcases hop with hnone | ⟨-, attemptId, k', rfl, hlt⟩
      · obtain ⟨e, he, hsome⟩ := hany
        rw [hnone e he] at hsome
        cases hsome
      · exact ⟨attemptId, k', by rw [hid], hk.trans_lt hlt⟩
    · cases hnumbers
  refine ⟨⟨ServerOp.attempts_iterates hop, fun hnumbers => ?_⟩, fun r => ?_⟩
  · obtain ⟨attemptId, k', rfl, hlt⟩ := hcontinues hnumbers
    exact .inr ⟨run.runId, k, attemptId, k', hg', hlt, rfl⟩
  · have hnone : op.starts? sessionId r = none := by
      cases hnumbers : op.numbers sessionId with
      | false => exact ServerOp.starts?_of_numbers hnumbers r
      | true =>
        obtain ⟨attemptId, k', rfl, -⟩ := hcontinues hnumbers
        rfl
    change ((op.starts? sessionId r).map _).or g'.started = _
    rw [hnone]
    exact hg'

/-- The operations between the look at a session and the start of a run. -/
def ServerOp.waits (sessionId : String) : ServerOp → Prop
  | .store (.append id events) => id = sessionId → ∀ e ∈ events, e.attempt? = none
  | .store _ => False
  | _ => True

/-- What they leave. -/
def Starting.Kept (g g' : Starting) : Prop := g'.seen = g.seen ∧ g.limit ≤ g'.limit

theorem ServerOp.waits.iterates {op : ServerOp} (h : op.waits sessionId) : op.iterates = true := by
  rcases op with op | _ | _ | op
  · cases op <;> first | rfl | exact h.elim
  all_goals rfl

theorem ServerOp.waits.numbers {op : ServerOp} (h : op.waits sessionId) :
    op.numbers sessionId = false := by
  unfold ServerOp.numbers
  split
  · rw [Bool.and_eq_false_imp]
    intro hid
    rw [List.any_eq_false]
    intro e he
    rw [h (by simpa using hid) e he]
    nofun
  · rfl

/-- An operation that is of no interest to the session. -/
theorem startingNext_of_none {op : ServerOp} {r : op.Reply}
    (hnumbers : op.numbers sessionId = false)
    (hreads : op.reads? sessionId r = none) (hlimit : op.limit? sessionId r = none) :
    startingNext sessionId g op r = g := by
  rw [startingNext, hnumbers, hreads, hlimit, ServerOp.starts?_of_numbers hnumbers]
  exact congrArg (Starting.mk g.seen · g.started) (Nat.max_zero g.limit)

theorem startingAllows_of_numbers {op : ServerOp} (hiterates : op.iterates = true)
    (h : op.numbers sessionId = false) : startingAllows sessionId g op :=
  ⟨hiterates, fun hsome => absurd (h.symm.trans hsome) nofun⟩

theorem ServerOp.waits.kept {op : ServerOp} (h : op.waits sessionId) (r : op.Reply) :
    g.Kept (startingNext sessionId g op r) := by
  have hreads : op.reads? sessionId r = none := by
    unfold ServerOp.reads?
    split
    · exact h.elim
    · rfl
  refine ⟨?_, le_max_left _ _⟩
  change (if op.numbers sessionId then none else (op.reads? sessionId r).or g.seen) = g.seen
  rw [h.numbers, hreads]
  rfl

/-- Programs of these operations. -/
theorem waiting_follows {p : Program serverSignature ε α} (h : p.Only (ServerOp.waits sessionId)) :
    StartsRuns sessionId g p fun g' _ => g.Kept g' := by
  refine (Program.Follows.invariant (J := g.Kept) (P := fun _ => True) ?_ h ⟨rfl, le_rfl⟩).mono
    fun _ _ hkept => hkept.1
  intro g' op hg' hop
  refine ⟨startingAllows_of_numbers hop.iterates hop.numbers, fun r => ?_⟩
  have hkept := hop.kept (g := g') r
  exact ⟨hkept.1.trans hg'.1, hg'.2.trans hkept.2⟩

theorem ServerOp.waits_of_routine {op : ServerOp} (h : op.routine = true) : op.waits sessionId := by
  unfold ServerOp.waits
  split <;> trivial

theorem waiting_append {e : SemanticEvent} (he : e.attempt? = none) :
    (append sessionId e).Only (ServerOp.waits sessionId) := by
  refine only_append (fun _ => ServerOp.waits_of_routine) fun _ e' he' => ?_
  rw [List.mem_singleton.mp he']
  exact he

theorem starting_quiet : Quiet (startingAllows sessionId) (startingNext sessionId) where
  publish _ _ := ⟨startingAllows_of_numbers rfl rfl, startingNext_of_none rfl rfl rfl⟩
  worker _ _ := ⟨startingAllows_of_numbers rfl rfl, startingNext_of_none rfl rfl rfl⟩
  release _ _ := ⟨startingAllows_of_numbers rfl rfl, startingNext_of_none rfl rfl rfl⟩
  shutdown _ _ := ⟨startingAllows_of_numbers rfl rfl, startingNext_of_none rfl rfl rfl⟩

/-- The limit that is compared is one that was read. -/
theorem maxModelTurns_starts : StartsRuns sessionId g (maxModelTurns sessionId) fun g' x =>
    g'.seen = g.seen ∧ ∀ m, x = .ok m → m ≤ g'.limit := by
  have hlinks : ∀ links, startingNext sessionId g (.store (.agentLinks sessionId)) (.ok links) =
      ⟨g.seen, max g.limit (((childLink sessionId links).map (·.budget.maxModelTurns)).getD 0),
        g.started⟩ := by
    intro links
    simp [startingNext, ServerOp.numbers, ServerOp.reads?, ServerOp.limit?, ServerOp.starts?]
  have hallowed : startingAllows sessionId g (.store (.agentLinks sessionId)) :=
    startingAllows_of_numbers rfl rfl
  unfold maxModelTurns childBudget
  rw [Program.bind_assoc]
  refine follows_onStore hallowed (fun links => ?_) fun e => ⟨rfl, nofun⟩
  rw [hlinks]
  -- The budget of a child comes before the configuration.
  cases hlink : childLink sessionId links with
  | some link => exact ⟨rfl, fun m hm => by cases hm; exact le_max_right _ _⟩
  | none =>
    refine ⟨startingAllows_of_numbers rfl rfl, fun reply => ?_⟩
    cases reply with
    | error message => exact ⟨rfl, nofun⟩
    | ok config => exact ⟨rfl, fun m hm => by cases hm; exact le_max_right _ _⟩

/-- The start of a run. -/
theorem runStarted_starts {p : SessionProjection} (hseen : g.seen = some p)
    (hwaits : p.readyActionRun = some run ∧ run.attempts < g.limit ∨ p.queuedRuns.head? = some run)
    (attemptId : String) :
    StartsRuns sessionId g
      (append sessionId (.runStarted run.runId attemptId (run.attempts + 1))) fun g' x =>
        ∀ record, x = .ok record → g'.started = some (run.runId, run.attempts) := by
  have hallowed : startingAllows sessionId g
      (.store (.append sessionId [.runStarted run.runId attemptId (run.attempts + 1)])) :=
    ⟨rfl, fun _ => .inl ⟨p, run, attemptId, hseen, rfl, hwaits⟩⟩
  refine starting_quiet.append hallowed (fun records record _ _ => ?_) fun _ _ _ => nofun
  simp [startingNext, ServerOp.starts?]

theorem continueRun_starts (fuel : Nat) {p : SessionProjection} (hseen : g.seen = some p)
    (hready : p.readyActionRun = some run) :
    StartsRuns sessionId g (continueRun fuel sessionId run) fun _ _ => True := by
  refine maxModelTurns_starts.bind (fun g₁ maxTurns h₁ => ?_) fun _ _ _ => trivial
  obtain ⟨hseen₁, hlimit⟩ := h₁
  refine iteInduction (fun _ => ?_) fun hlt => ?_
  · exact (waiting_follows (waiting_append rfl)).bind (fun _ _ _ => trivial) fun _ _ _ => trivial
  refine (waiting_follows (waiting_append rfl)).bind (fun g₂ _ h₂ => ?_) fun _ _ _ => trivial
  refine (waiting_follows (p := ask .newUuid) ⟨trivial, fun _ => trivial⟩).bind
    (fun g₃ attemptId h₃ => ?_) fun _ _ _ => trivial
  -- The copy is still the one that was read, and the limit is one that was read.
  have hseen₃ : g₃.seen = some p := h₃.1.trans (h₂.1.trans (hseen₁.trans hseen))
  have hbelow : run.attempts < g₃.limit :=
    (not_le.mp hlt).trans_le ((hlimit _ rfl).trans (h₂.2.trans h₃.2))
  refine (runStarted_starts hseen₃ (.inl ⟨hready, hbelow⟩) attemptId).bind
    (fun g₄ record h₄ => ?_) fun _ _ _ => trivial
  refine ⟨startingAllows_of_numbers rfl rfl, fun _ => ?_⟩
  exact (executeAndFinish_attempts fuel).starts (h₄ record rfl) le_rfl

theorem startRun_starts (fuel : Nat) {p : SessionProjection} (hseen : g.seen = some p)
    (hqueued : p.queuedRuns.head? = some run) (phase : SessionPhase) :
    StartsRuns sessionId g (startRun fuel sessionId phase run) fun _ _ => True := by
  have henter : (enterRunning sessionId phase).Only (ServerOp.waits sessionId) :=
    iteInduction (fun _ => .ret _) fun _ => (waiting_append rfl).bind fun _ => .ret _
  refine (waiting_follows henter).bind (fun g₁ _ h₁ => ?_) fun _ _ _ => trivial
  refine (waiting_follows (p := ask .newUuid) ⟨trivial, fun _ => trivial⟩).bind
    (fun g₂ attemptId h₂ => ?_) fun _ _ _ => trivial
  refine (waiting_follows (p := ask (.registerToken run.runId)) ⟨trivial, fun _ => trivial⟩).bind
    (fun g₃ _ h₃ => ?_) fun _ _ _ => trivial
  have hseen₃ : g₃.seen = some p := h₃.1.trans (h₂.1.trans (h₁.1.trans hseen))
  refine (Program.Follows.attempt (Q := fun g' x => ∀ record, x = .ok (.ok record) →
    g'.started = some (run.runId, run.attempts))
    ((runStarted_starts hseen₃ (.inr hqueued) attemptId).mono ?_)).bind (fun g₄ x h₄ => ?_)
      fun _ _ _ => trivial
  · intro g' x hx record hrecord
    exact hx record (by simpa using hrecord)
  cases x with
  | error e => exact ⟨startingAllows_of_numbers rfl rfl, fun _ => trivial⟩
  | ok record =>
    -- here the worker goes on with a copy that has the new number
    exact (@executeAndFinish_attempts sessionId { run with
      attemptId := some attemptId, attempts := run.attempts + 1 } fuel).starts
        (h₄ record rfl) (Nat.le_succ _)

/-- A worker of another session appends only what it tells a parent. -/
theorem iteration_elsewhere (hid : id ≠ sessionId) (fuel : Nat) :
    (iteration fuel id).Only fun op =>
      ServerOp.iterates op = true ∧ ServerOp.numbers sessionId op = false := by
  refine (iteration_follows fuel).map (fun _ => ()) (fun a op hop => ?_) (fun _ _ _ _ => rfl)
    fun _ _ _ => trivial
  rcases op with op | _ | _ | op
  · cases op with
    | append target events =>
      refine ⟨rfl, ?_⟩
      change (decide (target = sessionId) && events.any (·.attempt?.isSome)) = false
      rcases hop with ⟨rfl, -⟩ | ⟨-, hdelivers⟩
      · simp [hid]
      · rw [Bool.and_eq_false_imp]
        intro _
        rw [List.any_eq_false]
        intro e he
        have hdelivers := hdelivers e he
        cases e <;> first | exact Bool.false_ne_true | cases hdelivers
    | projection | getSession | agentLinks => exact ⟨rfl, rfl⟩
    | _ => exact hop.elim
  all_goals exact ⟨rfl, rfl⟩

/-- **An iteration starts the runs it has seen to wait for it.** -/
theorem iteration_starts (fuel : Nat) (id : String) :
    StartsRuns sessionId g (iteration fuel id) fun _ _ => True := by
  by_cases hid : id = sessionId
  · subst hid
    refine ⟨startingAllows_of_numbers rfl rfl, fun shutdown => ?_⟩
    refine iteInduction (fun _ => trivial) fun _ => ?_
    refine follows_onStore (startingAllows_of_numbers rfl rfl) (fun p => ?_) fun e => trivial
    have hseen : (startingNext id (startingNext id g (.external .isShutdown) shutdown)
        (.store (.projection id)) (.ok p)).seen = some p := by
      simp [startingNext, ServerOp.numbers, ServerOp.reads?]
    refine iteInduction (fun _ => trivial) fun _ => ?_
    -- a run that goes on comes before the queued ones
    split
    · next run hready => exact continueRun_starts fuel hseen hready
    · refine iteInduction (fun _ => trivial) fun _ => ?_
      split
      · refine iteInduction (fun _ => ?_) fun _ => trivial
        exact (waiting_follows (waiting_append rfl)).bind (fun _ _ _ => trivial)
          fun _ _ _ => trivial
      · next run hqueued => exact startRun_starts fuel hseen hqueued _
  · -- elsewhere a worker appends what it tells the parent
    refine (Program.Follows.invariant (J := fun _ => True) (P := fun _ => True) ?_
      (iteration_elsewhere hid fuel) trivial).mono fun _ _ _ => trivial
    exact fun _ op _ hop => ⟨startingAllows_of_numbers hop.1 hop.2, fun _ => trivial⟩

/-- So does a worker, and so do workers one after the other. -/
theorem processSession_starts (fuel : Nat) (id : String) :
    StartsRuns sessionId g (processSession fuel id) fun _ _ => True := by
  -- Induction on the iterations left.
  induction fuel generalizing g id with
  | zero => trivial
  | succ fuel ih =>
    refine (iteration_starts fuel id).bind (fun g' next _ => ?_) fun _ _ _ => trivial
    cases next with
    | done => trivial
    | again => exact ih id
    | parentFirst parent => exact (ih parent).bind (fun _ _ _ => ih id) fun _ _ _ => trivial

theorem processSessions_starts (workers : List (Nat × String)) :
    StartsRuns sessionId g (processSessions workers) fun _ _ => True := by
  induction workers generalizing g with
  | nil => trivial
  | cons worker workers ih =>
    have hworker : StartsRuns sessionId g (processSession worker.1 worker.2).attempt
        fun _ _ => True :=
      Program.Follows.attempt (processSession_starts worker.1 worker.2)
    exact hworker.bind (fun _ _ _ => ih) fun _ _ _ => trivial

end Starting

/-! ## The numbers of the runs -/

/-- The numbers of a run. -/
def numbersOf (runId : String) (starts : List (String × Nat)) : List Nat :=
  (starts.filter (·.1 = runId)).map (·.2)

theorem mem_numbersOf {runId : String} {starts : List (String × Nat)} {k : Nat} :
    k ∈ numbersOf runId starts ↔ (runId, k) ∈ starts := by
  simp [numbersOf]

theorem numbersOf_append (runId : String) (starts more : List (String × Nat)) :
    numbersOf runId (starts ++ more) = numbersOf runId starts ++ numbersOf runId more := by
  rw [numbersOf, List.filter_append, List.map_append, numbersOf, numbersOf]

/-- What holds of the session and of the numbers with which its runs were started. -/
structure Numbered (m : Nat) (base : String → Nat) (g : Starting) (starts : List (String × Nat))
    (p : SessionProjection) : Prop where
  fresh : p.QueueFresh
  limit : g.limit ≤ m
  grown : ∀ runId, base runId ≤ p.attempts runId
  increasing : ∀ runId, (numbersOf runId starts).Pairwise (· < ·)
  bounded : ∀ {runId k}, (runId, k) ∈ starts →
    base runId < k ∧ k ≤ max 1 m ∧ k ≤ p.attempts runId
  seen : ∀ {p₀}, g.seen = some p₀ → p₀.QueueFresh ∧ ∀ runId, p.attempts runId = p₀.attempts runId
  started : ∀ {runId k}, g.started = some (runId, k) →
    base runId ≤ k ∧ k < p.attempts runId ∧ ∀ {k'}, (runId, k') ∈ starts → k' ≤ k + 1

section Numbered

variable {m : Nat} {base : String → Nat} {g : Starting} {starts : List (String × Nat)}
  {p q : SessionProjection} {eventId : Nat} {e : SemanticEvent} {runId : String} {k : Nat}

theorem Numbered.none (hp : p.QueueFresh) : Numbered m p.attempts .none [] p where
  fresh := hp
  limit := Nat.zero_le m
  grown _ := le_rfl
  increasing _ := .nil
  bounded h := absurd h List.not_mem_nil
  seen := nofun
  started := nofun

/-- An event that sets no number. -/
theorem Numbered.apply (h : Numbered m base g starts p) (hq : p.apply eventId e = .ok q)
    (he : e.attempt? = Option.none) : Numbered m base g starts q where
  fresh := h.fresh.apply hq
  limit := h.limit
  grown runId := by
    rw [SessionProjection.attempts_kept hq he]
    exact h.grown runId
  increasing := h.increasing
  bounded hmem := by
    rw [SessionProjection.attempts_kept hq he]
    exact h.bounded hmem
  seen hseen := by
    refine ⟨(h.seen hseen).1, fun runId => ?_⟩
    rw [SessionProjection.attempts_kept hq he]
    exact (h.seen hseen).2 runId
  started hstarted := by
    rw [SessionProjection.attempts_kept hq he]
    exact h.started hstarted

theorem Numbered.applyAll {events : List SemanticEvent} (h : Numbered m base g starts p)
    (hq : p.applyAll events = .ok q) (hevents : ∀ e ∈ events, e.attempt? = Option.none) :
    Numbered m base g starts q :=
  SessionProjection.applyAll_keeps (fun e he _ _ hone hp => hp.apply hone (hevents e he)) hq h

/-- A run is started with the next number. -/
theorem Numbered.start (h : Numbered m base g starts p) {p₀ : SessionProjection}
    {run : RunProjection} {attemptId : String} (hseen : g.seen = some p₀)
    (hwaits : p₀.readyActionRun = some run ∧ run.attempts < g.limit ∨
      p₀.queuedRuns.head? = some run)
    (hq : p.apply eventId (.runStarted run.runId attemptId (run.attempts + 1)) = .ok q) :
    Numbered m base ⟨Option.none, g.limit, some (run.runId, run.attempts)⟩
      (starts ++ [(run.runId, run.attempts + 1)]) q := by
  obtain ⟨hfresh, hsame⟩ := h.seen hseen
  -- a queued run has no attempts yet, and one that goes on is below the limit
  have hrun : p₀.runs.get? run.runId = some run ∧ run.attempts + 1 ≤ max 1 m := by
    rcases hwaits with ⟨hready, hlt⟩ | hqueued
    · exact ⟨hfresh.ready hready, (Nat.le_max_right 1 m).trans' (hlt.trans_le h.limit)⟩
    · obtain ⟨hrun, hzero⟩ := hfresh.queued hqueued
      exact ⟨hrun, by rw [hzero]; exact Nat.le_max_left 1 m⟩
  have hattempts : p.attempts run.runId = run.attempts :=
    (hsame _).trans (SessionProjection.attempts_of_get? hrun.1)
  have hset : ∀ id, q.attempts id = if id = run.runId then run.attempts + 1 else p.attempts id :=
    fun id => SessionProjection.attempts_set hq rfl
  -- The earlier numbers of the run are below the new one, as the copy shows the present number.
  have hold : ∀ {k}, (run.runId, k) ∈ starts → k ≤ run.attempts :=
    fun hmem => hattempts ▸ (h.bounded hmem).2.2
  have hmem : ∀ {id k}, (id, k) ∈ starts ++ [(run.runId, run.attempts + 1)] →
      (id, k) ∈ starts ∨ id = run.runId ∧ k = run.attempts + 1 := by
    intro id k h
    rcases List.mem_append.mp h with h | h
    · exact .inl h
    · exact .inr (by simpa using h)
  have hbase : base run.runId ≤ run.attempts := hattempts ▸ h.grown run.runId
  refine ⟨h.fresh.apply hq, h.limit, fun id => ?_, fun id => ?_, fun {id k} hk => ?_, nofun,
    fun {id k} hk => ?_⟩
  · rw [hset]
    split
    · next hid =>
      subst hid
      exact hbase.trans (Nat.le_succ _)
    · exact h.grown id
  · rw [numbersOf_append, List.pairwise_append]
    refine ⟨h.increasing id, ?_, fun k hk k' hk' => ?_⟩
    · by_cases hid : run.runId = id <;> simp [numbersOf, hid]
    · have hnew : run.runId = id ∧ run.attempts + 1 = k' := by
        simpa [eq_comm] using mem_numbersOf.mp hk'
      obtain ⟨rfl, rfl⟩ := hnew
      exact Nat.lt_succ_of_le (hold (mem_numbersOf.mp hk))
  · rw [hset]
    rcases hmem hk with hk | ⟨rfl, rfl⟩
    · obtain ⟨hpos, hle, hbelow⟩ := h.bounded hk
      refine ⟨hpos, hle, ?_⟩
      split
      · next hid =>
        subst hid
        exact (hold hk).trans (Nat.le_succ _)
      · exact hbelow
    · exact ⟨Nat.lt_succ_of_le hbase, hrun.2, by rw [if_pos rfl]⟩
  · obtain ⟨rfl, rfl⟩ := Prod.mk.inj (Option.some.inj hk)
    rw [hset, if_pos rfl]
    refine ⟨hbase, Nat.lt_succ_self _, fun {k'} hk' => ?_⟩
    rcases hmem hk' with hk' | ⟨-, rfl⟩
    · exact (hold hk').trans (Nat.le_succ _)
    · exact le_rfl

/-- Another attempt is made at the run that was started last. -/
theorem Numbered.again (h : Numbered m base g starts p) {attemptId : String} {attempts : Nat}
    (hstarted : g.started = some (runId, attempts)) (hlt : attempts < k)
    (hq : p.apply eventId (.runAttemptStarted runId attemptId k) = .ok q) :
    Numbered m base ⟨Option.none, g.limit, g.started⟩ starts q := by
  have hset : ∀ id, q.attempts id = if id = runId then k else p.attempts id :=
    fun id => SessionProjection.attempts_set hq rfl
  -- The number may fall here, yet not below one with which the run was started.
  obtain ⟨hbase, -, hbelow⟩ := h.started hstarted
  refine ⟨h.fresh.apply hq, h.limit, fun id => ?_, h.increasing, fun {id k'} hk' => ?_, nofun,
    fun {id k'} hk' => ?_⟩
  · rw [hset]
    split
    · next hid =>
      subst hid
      exact hbase.trans hlt.le
    · exact h.grown id
  · obtain ⟨hpos, hle, hkept⟩ := h.bounded hk'
    refine ⟨hpos, hle, ?_⟩
    rw [hset]
    split
    · next hid =>
      subst hid
      exact (hbelow hk').trans hlt
    · exact hkept
  · rw [hstarted] at hk'
    obtain ⟨rfl, rfl⟩ := Prod.mk.inj (Option.some.inj hk')
    rw [hset, if_pos rfl]
    exact ⟨hbase, hlt, hbelow⟩

/-- Less is known of the session. -/
theorem Numbered.forget (h : Numbered m base g starts p) :
    Numbered m base ⟨Option.none, g.limit, g.started⟩ starts p :=
  ⟨h.fresh, h.limit, h.grown, h.increasing, h.bounded, nofun, h.started⟩

end Numbered

/-! ## Workers -/

/-- Other tasks that set no number in a session. -/
structure SetsNone (sessionId : String) (others : Nat → World → World) : Prop where
  sound : ∀ n {w : World}, w.Sound → (others n w).Sound
  appends : ∀ n {w : World}, w.Sound → ∃ events : List SemanticEvent,
    (∀ e ∈ events, e.attempt? = Option.none) ∧
      ((w.view sessionId).getD (.new sessionId)).applyAll events =
        .ok (((others n w).view sessionId).getD (.new sessionId))

theorem Bystanders.setsNone {others : Nat → World → World}
    (h : Bystanders (fun e => e.attempt? = Option.none) others) (sessionId : String) :
    SetsNone sessionId others where
  sound := h.sound
  appends n w hw := by
    cases hview : (others n w).view sessionId with
    | none =>
      refine ⟨[], nofun, ?_⟩
      cases hview' : w.view sessionId with
      | none => rfl
      | some p =>
        have hsome := @Bystanders.kept _ _ h n w sessionId (by rw [hview']; rfl)
        rw [hview] at hsome
        cases hsome
    | some p' =>
      obtain ⟨events, happly, hevents⟩ := h.appends n hw hview
      exact ⟨events, hevents, happly⟩

/-- What holds between the operations of workers. -/
structure Numbering (sessionId : String) (m : Nat) (base : String → Nat) (g : Starting)
    (starts : List (String × Nat)) (w : World) : Prop where
  sound : w.Sound
  shown : Numbered m base g starts ((w.view sessionId).getD (.new sessionId))

section Numbering

variable {env : Surroundings} {others : Nat → World → World} {sessionId : String} {m : Nat}
  {base : String → Nat} {g : Starting} {starts : List (String × Nat)} {w : World} {op : ServerOp}

theorem startingNext_of_numbers (hnumbers : op.numbers sessionId = false) (r : op.Reply) :
    startingNext sessionId g op r =
      ⟨(op.reads? sessionId r).or g.seen, max g.limit ((op.limit? sessionId r).getD 0),
        g.started⟩ := by
  rw [startingNext, hnumbers, ServerOp.starts?_of_numbers hnumbers]
  rfl

/-- The session and a limit are read. -/
theorem Numbered.learn {p : SessionProjection} (h : Numbered m base g starts p)
    {read : Option SessionProjection} {limit : Option Nat} (hread : ∀ p₀, read = some p₀ → p₀ = p)
    (hlimit : ∀ k, limit = some k → k ≤ m) :
    Numbered m base ⟨read.or g.seen, max g.limit (limit.getD 0), g.started⟩ starts p := by
  refine ⟨h.fresh, max_le h.limit ?_, h.grown, h.increasing, h.bounded, fun {p₀} hp₀ => ?_,
    h.started⟩
  · cases limit with
    | none => exact Nat.zero_le m
    | some k => exact hlimit k rfl
  · cases read with
    | none => exact h.seen hp₀
    | some p₁ =>
      obtain rfl : p₁ = p₀ := Option.some.inj hp₀
      obtain rfl := hread p₁ rfl
      exact ⟨h.fresh, fun _ => rfl⟩

/-- What is shown of a session after an operation that sets no number in it. -/
theorem Numbering.shown_of_numbers (h : Numbering sessionId m base g starts w)
    (hiterates : op.iterates = true) (hnumbers : op.numbers sessionId = false) :
    Numbered m base g starts
      (((World.handle env op w).2.view sessionId).getD (.new sessionId)) := by
  rcases op with op | record | started | op
  · cases op with
    | append id events =>
      rcases World.handle_append_view env h.sound id events with
        hsame | ⟨p, q, hview, happly, hview', hothers⟩
      · rw [hsame]
        exact h.shown
      · by_cases hid : sessionId = id
        · subst hid
          rw [hview']
          have hshown := h.shown
          rw [hview] at hshown
          refine hshown.applyAll happly fun e he => ?_
          have hnone : ∀ e ∈ events, e.attempt? = Option.none := by
            simpa [ServerOp.numbers] using hnumbers
          exact hnone e he
        · rw [hothers sessionId hid]
          exact h.shown
    | projection id =>
      have hview : (World.handle env (.store (.projection id)) w).2.view sessionId =
          w.view sessionId := Store.Sound.view_projection h.sound id sessionId
      rw [hview]
      exact h.shown
    | getSession id => exact h.shown
    | agentLinks id => exact h.shown
    | _ => cases hiterates
  · exact h.shown
  · exact h.shown
  · exact h.shown

/-- The projection that is read is the one that is shown. -/
theorem reads?_handle (hw : w.Sound) {p₀ : SessionProjection}
    (h : op.reads? sessionId (World.handle env op w).1 = some p₀) :
    (World.handle env op w).2.view sessionId = some p₀ := by
  rcases op with op | record | started | op
  · cases op with
    | projection id =>
      have hview : (World.handle env (.store (.projection id)) w).2.view sessionId =
          w.view sessionId := Store.Sound.view_projection hw id sessionId
      cases hview' : w.view id with
      | none =>
        have hreply : (World.handle env (.store (.projection id)) w).1 =
            .error (.sessionNotFound id) :=
          congrArg Prod.fst (Store.Sound.projection_missing hw hview')
        rw [hreply] at h
        cases h
      | some p =>
        have hreply : (World.handle env (.store (.projection id)) w).1 = .ok p :=
          congrArg Prod.fst (Store.Sound.projection_view hw hview')
        rw [hreply] at h
        obtain ⟨hid, hp⟩ := Option.ite_none_right_eq_some.mp h
        subst hid
        rw [hview, hview', hp]
    | _ => cases h
  · cases h
  · cases h
  · cases h

/-- An event that sets a number. -/
theorem Numbering.append (h : Numbering sessionId m base g starts w) {e : SemanticEvent}
    (he : e.attempt?.isSome = true)
    (hop : g.Starts sessionId (.store (.append sessionId [e])) ∨
      g.Continues sessionId (.store (.append sessionId [e]))) :
    let r := (World.handle env (.store (.append sessionId [e])) w).1
    Numbered m base (startingNext sessionId g (.store (.append sessionId [e])) r)
      (starts ++ (ServerOp.starts? sessionId (.store (.append sessionId [e])) r).toList)
      (((World.handle env (.store (.append sessionId [e])) w).2.view sessionId).getD
        (.new sessionId)) := by
  intro r
  have hnumbers : ServerOp.numbers sessionId (.store (.append sessionId [e])) = true := by
    simp [ServerOp.numbers, he]
  have hnext : startingNext sessionId g (.store (.append sessionId [e])) r =
      ⟨Option.none, g.limit, ((ServerOp.starts? sessionId (.store (.append sessionId [e])) r).map
        fun s => (s.1, s.2 - 1)).or g.started⟩ := by
    rw [startingNext, hnumbers]
    exact congrArg (Starting.mk Option.none · _) (Nat.max_zero g.limit)
  have hrefused : ∀ x, r = .error x →
      ServerOp.starts? sessionId (.store (.append sessionId [e])) r = Option.none := by
    intro x hx
    rw [hx]
    cases e <;> rfl
  have hshown := h.shown
  have hreply : AppendReply w sessionId [e] r
      (World.handle env (.store (.append sessionId [e])) w).2 :=
    handle_append env h.sound (List.cons_ne_nil e [])
  rw [hnext]
  -- What was started follows from the reply, and the session shows what was accepted.
  cases hreply with
  | missing hview hview' hr =>
    obtain ⟨x, hx⟩ := hr
    rw [hrefused x hx, hview', Option.toList_none, List.append_nil]
    rw [hview] at hshown
    exact hshown.forget
  | refused hview happly hview' hr =>
    rw [hrefused _ hr, hview', Option.toList_none, List.append_nil]
    rw [hview] at hshown
    exact hshown.forget
  | @accepted p q records hview happly hview' hr hlength =>
    rw [hview', hr]
    rw [hview] at hshown
    have hone := applyAll_one.mp happly
    rcases hop with ⟨p₀, run, attemptId, hseen, heq, hwaits⟩ |
      ⟨runId, attempts, attemptId, k, hstarted, hlt, heq⟩
    · cases heq
      have hstarts : ServerOp.starts? sessionId (.store (.append sessionId
          [.runStarted run.runId attemptId (run.attempts + 1)])) (.ok records) =
            some (run.runId, run.attempts + 1) := if_pos rfl
      rw [hstarts]
      exact hshown.start hseen hwaits hone
    · cases heq
      exact (List.append_nil starts).symm ▸ hshown.again hstarted hlt hone

/-- **An operation of a worker keeps what holds of the numbers**, before other tasks act. -/
theorem Numbering.step_shown (h : Numbering sessionId m base g starts w)
    (hop : startingAllows sessionId g op)
    (hlimit : ∀ k, op.limit? sessionId (World.handle env op w).1 = some k → k ≤ m) :
    let r := (World.handle env op w).1
    Numbered m base (startingNext sessionId g op r) (starts ++ (op.starts? sessionId r).toList)
      (((World.handle env op w).2.view sessionId).getD (.new sessionId)) := by
  intro r
  cases hnumbers : op.numbers sessionId with
  | false =>
    rw [startingNext_of_numbers hnumbers, ServerOp.starts?_of_numbers hnumbers]
    rw [Option.toList_none, List.append_nil]
    refine (h.shown_of_numbers hop.1 hnumbers).learn (fun p₀ hp₀ => ?_) hlimit
    rw [reads?_handle h.sound hp₀]
    rfl
  | true =>
    have hsets := hop.2 hnumbers
    have hone : ∃ e, e.attempt?.isSome = true ∧ op = .store (.append sessionId [e]) := by
      rcases hsets with ⟨_, run, attemptId, _, heq, _⟩ | ⟨runId, _, attemptId, k, _, _, heq⟩
      · exact ⟨_, rfl, heq⟩
      · exact ⟨_, rfl, heq⟩
    obtain ⟨e, he, rfl⟩ := hone
    exact h.append he hsets

/-- Other tasks act. -/
theorem Numbering.amid (hothers : SetsNone sessionId others) (hw : w.Sound)
    (h : Numbered m base g starts ((w.view sessionId).getD (.new sessionId))) (n : Nat) :
    Numbering sessionId m base g starts (others n w) := by
  obtain ⟨events, hevents, happly⟩ := hothers.appends n hw
  exact ⟨hothers.sound n hw, h.applyAll happly hevents⟩

/-- The limits that are read are at most `m`. -/
def LimitsWithin (env : Surroundings) (sessionId : String) (m : Nat) (w : World) (op : ServerOp) :
    Prop :=
  ∀ k, op.limit? sessionId (World.handle env op w).1 = some k → k ≤ m

/-- **A run is started with growing numbers, none of them above the limit**, and so at most as
often, by all workers that come one after the other, whatever the provider sends, and whatever the
other tasks do that act between their operations and set no number. -/
theorem starts_bounded (env : Surroundings) {others : Nat → World → World} {sessionId : String}
    (hothers : SetsNone sessionId others) (workers : List (Nat × String)) {m : Nat} {w : World}
    (hw : w.Sound)
    (hlimits : ∀ c ∈ (processSessions workers).calls (World.handleAmid env others) w,
      LimitsWithin env sessionId m c.1 c.2) (runId : String) :
    let starts := ((processSessions workers).calls (World.handleAmid env others) w).filterMap
      fun c => c.2.starts? sessionId (World.handleAmid env others c.2 c.1).1
    (numbersOf runId starts).Pairwise (· < ·) ∧
      (∀ k ∈ numbersOf runId starts,
        ((w.view sessionId).getD (.new sessionId)).attempts runId < k ∧ k ≤ max 1 m) ∧
      (numbersOf runId starts).length ≤ max 1 m := by
  intro starts
  let p₀ := (w.view sessionId).getD (.new sessionId)
  have hstart : Numbering sessionId m p₀.attempts .none [] w := by
    refine ⟨hw, .none ?_⟩
    show ((w.view sessionId).getD (.new sessionId)).QueueFresh
    cases hview : w.view sessionId with
    | none => exact .new sessionId
    | some p => exact Store.Sound.queueFresh_view hw hview
  have hstep : ∀ g starts op w, Numbering sessionId m p₀.attempts g starts w →
      startingAllows sessionId g op → LimitsWithin env sessionId m w op →
        let r := (World.handleAmid env others op w).1
        Numbering sessionId m p₀.attempts (startingNext sessionId g op r)
          (starts ++ (op.starts? sessionId r).toList) (World.handleAmid env others op w).2 :=
    fun g starts op w h hop hlimit =>
      Numbering.amid hothers (World.handle_sound env h.sound op) (h.step_shown hop hlimit) _
  obtain ⟨g, hend⟩ :=
    Program.Follows.run_noting hstep (processSessions_starts workers) hstart hlimits
  have hincreasing := hend.shown.increasing runId
  have hbounded : ∀ k ∈ numbersOf runId starts, p₀.attempts runId < k ∧ k ≤ max 1 m := fun k hk =>
    have h := hend.shown.bounded (mem_numbersOf.mp hk)
    ⟨h.1, h.2.1⟩
  refine ⟨hincreasing, hbounded, ?_⟩
  -- Growing numbers between 1 and the limit are different ones of these.
  have hnodup : (numbersOf runId starts).Nodup := hincreasing.imp fun h => h.ne
  have hsubset : numbersOf runId starts ⊆ List.range' 1 (max 1 m) := by
    intro k hk
    obtain ⟨hlt, hle⟩ := hbounded k hk
    exact List.mem_range'_1.mpr ⟨Nat.one_le_of_lt hlt, by omega⟩
  have hlength := (hnodup.subperm hsubset).length_le
  rwa [List.length_range'] at hlength

end Numbering

/-! ## A run that goes on -/

/-- A run has been started once, and its call has a result. -/
def answeredEvents : List SemanticEvent :=
  [.runQueued "r" none "p" "m" (RunRequest.toJson {
      provider := "p", model := "m", input := .str "hello", agent := none, variant := none
      body := .obj [] }),
    .sessionPhaseChanged .created .running none, .runStarted "r" "a" 1,
    .toolCallEmitted "r" "m" "c" "agent" "lookup" (.obj []) "" false, .runRequiresAction "r" ["c"],
    .sessionPhaseChanged .running .interrupted none,
    .toolResult "r" "c" "agent" "lookup" (.str "v")]

/-- A provider that asks for a call with every response, and a limit of two turns. -/
def askingProvider : Surroundings where
  answer n
    | .send _ _ => .response ⟨"200 OK", true,
        [.chunk [.ok [.toolCall none (some "lookup") "", .requiresAction]]], .text (.ok [])⟩
    | op => (Surroundings.plain { oneProvider with maxModelTurns := 2 }).answer n op
  stamp _ _ _ := "t1"

/-- The operations of a worker. -/
def answeredCalls : List (World × ServerOp) :=
  (processSessions [(3, "s")]).calls (World.handleAmid askingProvider fun _ w => w)
    (World.holding answeredEvents)

theorem answeredCalls_limits (c : World × ServerOp) (hc : c ∈ answeredCalls) :
    LimitsWithin askingProvider "s" 2 c.1 c.2 := by
  have hall : answeredCalls.all (fun c =>
      (c.2.limit? "s" (World.handle askingProvider c.2 c.1).1).all (· ≤ 2)) = true := by
    decide +kernel
  intro k hk
  have h := List.all_eq_true.mp hall c hc
  rw [hk] at h
  simpa using h

/-- The run is started for its second turn, and not for a third one. -/
theorem starts_bounded_twice :
    let starts := answeredCalls.filterMap fun c =>
      c.2.starts? "s" (World.handleAmid askingProvider (fun _ w => w) c.2 c.1).1
    numbersOf "r" starts = [2] ∧ (numbersOf "r" starts).length ≤ 2 := by
  intro starts
  refine ⟨by decide +kernel, ?_⟩
  exact (starts_bounded askingProvider ((Bystanders.none _).setsNone "s") [(3, "s")]
    (World.holding_sound _) answeredCalls_limits "r").2.2

end Piqo
