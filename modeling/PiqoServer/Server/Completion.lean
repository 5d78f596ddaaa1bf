import PiqoServer.Core.History
import PiqoServer.Server.Invariants
import PiqoServer.Server.Startup

/-!
# Completed runs and their tool calls

A worker completes a run when a response has been read to its end (`finish_run`,
`piqo-server/src/supervisor.rs`). The branch that would let the run wait for its open calls looks
for `Completed`, and an execution never returns it; a run waits only where the provider says so.

## Main definitions

* `SessionProjection.Answered`: runs that are queued or completed have no open call
* `ProviderResponse.abandonsCall`: a response with a call that is read to its end
* `Activity.Awaits`: what a worker knows of the open calls of its run

## Main results

* `completed_answered`: a completed run has no open call in any state, as long as no response with
  a call is read to its end
-/

namespace Piqo

/-! ## Open calls -/

namespace SessionProjection

variable {p q : SessionProjection} {eventId : Nat} {e : SemanticEvent} {runId : String}

/-- All calls of a run have results. -/
def AllAnswered (p : SessionProjection) (runId : String) : Prop :=
  ∀ callId call, p.call? runId callId = some call → call.result.isSome = true

/-- The run is there, and neither queued nor completed. -/
def Underway (p : SessionProjection) (runId : String) : Prop :=
  ∃ run, p.runs.get? runId = some run ∧ run.status ≠ .queued ∧ run.status ≠ .completed

/-- Runs that are queued or completed have no open call. -/
structure Answered (p : SessionProjection) : Prop where
  keyed : p.WellKeyed
  runs : ∀ {runId run}, p.runs.get? runId = some run →
    run.status = .queued ∨ run.status = .completed → p.AllAnswered runId

theorem Answered.new (sessionId : String) : (new sessionId).Answered where
  keyed := .new sessionId
  runs h := by simp [SessionProjection.new] at h

/-- An event opens a call of a run only as it records one. -/
theorem AllAnswered.apply (hp : p.AllAnswered runId) (h : p.apply eventId e = .ok q)
    (he : ∀ messageId callId agentId toolName arguments rawArguments native,
      e ≠ .toolCallEmitted runId messageId callId agentId toolName arguments rawArguments native) :
    q.AllAnswered runId := by
  intro callId call hcall
  have hchange := apply_call h runId callId
  rw [hcall] at hchange
  generalize hbefore : p.call? runId callId = before at hchange
  cases hchange with
  | same => exact hp callId call hbefore
  | emitted heq => exact absurd heq (he _ _ _ _ _ _ _)
  | claimed call' => exact hp callId call' hbefore
  | answered => rfl

/-- What is recorded of a run that is queued or completed: it was so before, or it is new, or it
has been completed. -/
theorem resting_of_apply (h : p.apply eventId e = .ok q) {run : RunProjection}
    (hrun : q.runs.get? runId = some run)
    (hresting : run.status = .queued ∨ run.status = .completed) :
    (∃ run', p.runs.get? runId = some run' ∧ (run'.status = .queued ∨ run'.status = .completed)) ∨
      (p.runs.get? runId = none ∧ run.toolCalls = ∅) ∨ ∃ usage, e = .runCompleted runId usage := by
  rcases apply_runs h with hruns | ⟨id, run', hruns, hchange⟩
  · exact .inl ⟨run, hruns ▸ hrun, hresting⟩
  · rw [hruns, SortedMap.get?_insert] at hrun
    split at hrun
    swap
    · exact .inl ⟨run, hrun, hresting⟩
    next hid =>
    subst hid
    obtain rfl := Option.some.inj hrun
    generalize hbefore : p.runs.get? runId = before at hchange
    cases hchange with
    | queued he => exact .inr (.inl ⟨rfl, rfl⟩)
    | completed run he hlive => exact .inr (.inr ⟨_, he⟩)
    | started run he hstatus => simp at hresting
    | paused run he hstatus => simp at hresting
    | failed run he hlive => simp at hresting
    | cancelled run he hlive => simp at hresting
    | interrupted run he hlive => simp at hresting
    | attempted run he hstatus => exact .inl ⟨run, rfl, hresting⟩
    | attemptFailed run he => exact .inl ⟨run, rfl, hresting⟩
    | emitted run he hnew => exact .inl ⟨run, rfl, hresting⟩
    | claimed run call he hcall hnative hfree => exact .inl ⟨run, rfl, hresting⟩
    | answered run call he hcall hopen => exact .inl ⟨run, rfl, hresting⟩

/-- A run that is underway stays so, unless it is completed. -/
theorem Underway.apply (hp : p.Underway runId) (h : p.apply eventId e = .ok q)
    (he : ∀ usage, e ≠ .runCompleted runId usage) : q.Underway runId := by
  obtain ⟨run, hrun, hqueued, hcompleted⟩ := hp
  obtain ⟨run', hrun', -⟩ := apply_run_keeps h hrun
  have hresting : ¬ (run'.status = .queued ∨ run'.status = .completed) := by
    intro hresting
    rcases resting_of_apply h hrun' hresting with ⟨run₀, hrun₀, hresting₀⟩ | ⟨hnone, -⟩ | ⟨usage, heq⟩
    · cases hrun.symm.trans hrun₀
      rcases hresting₀ with h₀ | h₀
      · exact hqueued h₀
      · exact hcompleted h₀
    · rw [hrun] at hnone
      cases hnone
    · exact he usage heq
  exact ⟨run', hrun', fun h => hresting (.inl h), fun h => hresting (.inr h)⟩

/-- Runs that rest stay answered, where calls are recorded for runs that are underway and runs are
completed without open calls. -/
theorem Answered.apply (hp : p.Answered) (h : p.apply eventId e = .ok q)
    (hemitted : ∀ {id messageId callId agentId toolName arguments rawArguments native},
      e = .toolCallEmitted id messageId callId agentId toolName arguments rawArguments native →
        p.Underway id)
    (hcompleted : ∀ {id usage}, e = .runCompleted id usage → p.AllAnswered id) : q.Answered where
  keyed := hp.keyed.apply h
  runs := by
    intro runId run hrun hresting
    -- the run has no open call before the event, and the event opens none
    have hbefore : p.AllAnswered runId := by
      rcases resting_of_apply h hrun hresting with ⟨run', hrun', hresting'⟩ | ⟨hnone, -⟩ | ⟨_, heq⟩
      · exact hp.runs hrun' hresting'
      · intro callId call hcall
        simp [call?, hnone] at hcall
      · exact hcompleted heq
    refine hbefore.apply h ?_
    rintro messageId callId agentId toolName arguments rawArguments native rfl
    obtain ⟨run', hrun', hqueued, hdone⟩ := (hemitted rfl).apply h (by simp)
    cases hrun.symm.trans hrun'
    rcases hresting with hstatus | hstatus
    · exact hqueued hstatus
    · exact hdone hstatus

theorem allAnswered_of_all {run : RunProjection} (hrun : p.runs.get? runId = some run)
    (hall : run.toolCalls.values.all (·.result.isSome) = true) : p.AllAnswered runId := by
  intro callId call hcall
  rw [call?, hrun, Option.bind_some] at hcall
  exact List.all_eq_true.mp hall call ((SortedMap.mem_values_iff _).mpr ⟨callId, hcall⟩)

/-- The run that goes on has no open call. -/
theorem Answered.ready (hp : p.Answered) {run : RunProjection} (h : p.readyActionRun = some run) :
    p.AllAnswered run.runId := by
  have hrun := (mem_values_runs hp.keyed).mp (List.mem_of_find?_eq_some h)
  have hready := List.find?_some h
  simp only [Bool.and_eq_true] at hready
  exact allAnswered_of_all hrun hready.2

/-- The run that is started next has none either. -/
theorem Answered.queued (hp : p.Answered) {run : RunProjection}
    (h : p.queuedRuns.head? = some run) : p.AllAnswered run.runId := by
  have hmem : run ∈ p.queuedRuns := List.mem_of_head? h
  rw [queuedRuns, List.mem_mergeSort, List.mem_filter] at hmem
  refine hp.runs ((mem_values_runs hp.keyed).mp hmem.1) (.inl ?_)
  simpa using hmem.2

end SessionProjection

/-! ## What a worker knows -/

/-- A response with a call that is read to its end and leaves the run going. -/
def ProviderResponse.abandonsCall (response : ProviderResponse) (body : Json) : Bool :=
  response.carriesCall body && response.clean body

/-- No response with a call is read to its end. -/
def NoCallAbandoned (env : Surroundings) (w : World) : ServerOp → Prop
  | .external (.send runId body) => ∀ response,
      env.answer w.clock (.send runId body) = .response response →
        response.abandonsCall body = false
  | _ => True

/-- What a turn leaves of the calls of its run. -/
structure Turn.Owes (p : SessionProjection) (t : Turn) : Prop where
  underway : p.Underway t.runId
  silent : t.emitted = false → p.AllAnswered t.runId
  carries : t.emitted = true → t.carries = true
  clean : t.carries = true → t.clean = false

/-- What a worker knows of the open calls of its run. -/
def Activity.Awaits (p : SessionProjection) : Activity → Prop
  | .loaded seen => ∀ run, seen.readyActionRun = some run ∨ seen.queuedRuns.head? = some run →
      p.AllAnswered run.runId
  | .entered run | .resumed run => p.AllAnswered run.runId
  | .turn t => t.Owes p
  | .finishing t _ _ => p.Underway t.runId ∧ (t.clean = true → p.AllAnswered t.runId)
  | .idle | .ended | .over => True

/-- Events that only the worker of a session appends. -/
def SemanticEvent.byWorker : SemanticEvent → Bool
  | .toolCallEmitted _ _ _ _ _ _ _ _ | .runCompleted _ _ => true
  | _ => false

section Awaits

variable {a b : Activity} {p q : SessionProjection} {e : SemanticEvent} {t t' : Turn}

theorem Turn.Owes.of_same (h : t.Owes p) (hid : t'.runId = t.runId) (hemitted : t'.emitted = t.emitted)
    (hcarries : t'.carries = t.carries) (hclean : t'.clean = t.clean) : t'.Owes p where
  underway := hid ▸ h.underway
  silent hsilent := hid ▸ h.silent (hemitted ▸ hsilent)
  carries hemits := hcarries ▸ h.carries (hemitted ▸ hemits)
  clean hcarry := hclean ▸ h.clean (hcarries ▸ hcarry)

/-- An event that neither records a call nor completes a run. -/
theorem Activity.Awaits.apply (h : a.Awaits p) (hq : p.Accepts e q) (he : e.byWorker = false) :
    a.Awaits q := by
  have hanswered : ∀ {runId}, p.AllAnswered runId → q.AllAnswered runId := by
    intro runId hp
    refine hp.apply hq ?_
    rintro _ _ _ _ _ _ _ rfl
    cases he
  have hunderway : ∀ {runId}, p.Underway runId → q.Underway runId := by
    intro runId hp
    refine hp.apply hq ?_
    rintro _ rfl
    cases he
  cases a with
  | loaded seen => exact fun run hrun => hanswered (h run hrun)
  | entered run => exact hanswered h
  | resumed run => exact hanswered h
  | turn t => exact ⟨hunderway h.underway, fun hs => hanswered (h.silent hs), h.carries, h.clean⟩
  | finishing t seen closed => exact ⟨hunderway h.1, fun hclean => hanswered (h.2 hclean)⟩
  | _ => trivial

theorem Answered.apply_other (h : p.Answered) (hq : p.Accepts e q) (he : e.byWorker = false) :
    q.Answered := by
  refine SessionProjection.Answered.apply h hq ?_ ?_
  · rintro _ _ _ _ _ _ _ _ rfl
    cases he
  · rintro _ _ rfl
    cases he

/-- A run that has been started is underway. -/
theorem underway_of_runStarted {runId attemptId : String} {attempt : Nat}
    (hq : p.Accepts (.runStarted runId attemptId attempt) q) : q.Underway runId := by
  obtain ⟨state, -, heq⟩ := SessionProjection.apply_eq_ok.mp hq
  simp only [SessionProjection.applyEvent, SessionProjection.updateRun_eq_ok, Except.map_eq_ok,
    Except.ite_ok_eq_ok, Except.ok.injEq, SessionProjection.setQueuePaused] at heq
  obtain ⟨_, ⟨run, _, hrun, ⟨hstatus, rfl⟩, rfl⟩, rfl⟩ := heq
  exact ⟨_, SortedMap.get?_insert_self .., by simp, by simp⟩

/-- An event of a turn. -/
theorem Turn.Owes.record (hp : p.Answered) (h : t.Owes p) (hrecord : t.Records e t')
    (hq : p.Accepts e q) : q.Answered ∧ t'.Owes q := by
  have hother : e.byWorker = false → q.Answered ∧ t.Owes q := fun he =>
    ⟨Answered.apply_other hp hq he, Activity.Awaits.apply (a := .turn t) h hq he⟩
  cases hrecord with
  | attempt he => exact hother (by cases e <;> simp_all [SemanticEvent.attemptOf?,
      SemanticEvent.byWorker])
  | context he => exact hother (by cases e <;> simp_all [SemanticEvent.contextOf?,
      SemanticEvent.byWorker])
  | userStarted => exact ⟨(hother rfl).1, (hother rfl).2.of_same rfl rfl rfl rfl⟩
  | userFilled => exact ⟨(hother rfl).1, (hother rfl).2.of_same rfl rfl rfl rfl⟩
  | userCompleted => exact ⟨(hother rfl).1, (hother rfl).2.of_same rfl rfl rfl rfl⟩
  | assistantStarted => exact ⟨(hother rfl).1, (hother rfl).2.of_same rfl rfl rfl rfl⟩
  | content => exact hother rfl
  | waiting => exact ⟨(hother rfl).1, (hother rfl).2.of_same rfl rfl rfl rfl⟩
  | emitted messageId callId agentId toolName arguments rawArguments native hwriting hcarries =>
    constructor
    · refine SessionProjection.Answered.apply hp hq ?_ (by simp)
      intro id _ _ _ _ _ _ _ heq
      cases heq
      exact h.underway
    · exact ⟨h.underway.apply hq (by simp), by simp, fun _ => hcarries, h.clean⟩

/-- **An event of a worker keeps what it knows of the open calls.** -/
theorem Activity.Awaits.record (hp : p.Answered) (h : a.Awaits p) (hrecord : a.Records e b)
    (hq : p.Accepts e q) : q.Answered ∧ b.Awaits q := by
  -- an event that records no call and completes no run, where the next stage knows as much
  have hother : e.byWorker = false → b.Awaits p → q.Answered ∧ b.Awaits q := fun he hb =>
    ⟨Answered.apply_other hp hq he, hb.apply hq he⟩
  have hstart : ∀ {run : RunProjection} {attemptId attempt},
      e = .runStarted run.runId attemptId attempt → p.AllAnswered run.runId →
        q.Answered ∧ Activity.Awaits q (.turn (.start run)) := by
    rintro run attemptId attempt rfl hanswered
    refine ⟨Answered.apply_other hp hq rfl, underway_of_runStarted hq, fun _ => ?_, nofun, nofun⟩
    exact hanswered.apply hq (by simp)
  cases hrecord with
  | exhausted => exact hother rfl trivial
  | resume hactive hready => exact hother rfl (h _ (.inl hready))
  | finish => exact hother rfl trivial
  | enter reason hactive hqueued => exact hother rfl (h _ (.inr hqueued))
  | start attemptId attempt hactive hqueued => exact hstart rfl (h _ (.inr hqueued))
  | startEntered => exact hstart rfl h
  | startResumed => exact hstart rfl h
  | turn hturn => exact Turn.Owes.record hp h hturn hq
  | completeMessage => exact hother rfl h
  | interruptMessage => exact hother rfl h
  | completed usage hsettled hclean =>
    refine ⟨SessionProjection.Answered.apply hp hq (by simp) ?_, trivial⟩
    intro id usage heq
    cases heq
    exact h.2 hclean
  | stopped he => exact hother (by cases e <;> simp_all [SemanticEvent.stops?,
      SemanticEvent.byWorker]) trivial
  | paused => exact hother rfl trivial
  | left => exact hother rfl trivial

end Awaits

/-! ## Workers -/

/-- What holds of a session and of the worker at it. -/
def AnswersDue (a : Activity) (p : SessionProjection) : Prop := p.Answered ∧ a.Awaits p

theorem AnswersDue.refuse {a : Activity} {p : SessionProjection} (h : AnswersDue a p)
    (e : SemanticEvent) (x : StoreError) : AnswersDue (a.afterAppend e (.error x)) p := by
  refine ⟨h.1, ?_⟩
  cases a with
  | turn t => exact Turn.Owes.of_same h.2 rfl rfl rfl rfl
  | finishing t seen closed => exact h.2
  | _ => trivial

theorem AnswersDue.look {a : Activity} {p : SessionProjection} (h : AnswersDue a p) :
    AnswersDue (a.look (.ok p)) p := by
  refine ⟨h.1, ?_⟩
  cases a with
  | idle =>
    rintro run (hready | hqueued)
    · exact h.1.ready hready
    · exact h.1.queued hqueued
  | finishing t seen closed => exact h.2
  | _ => exact h.2

theorem AnswersDue.hear {t : Turn} {p : SessionProjection} {body : Json} {reply : SendReply}
    (h : AnswersDue (.turn t) p) (hemitted : t.emitted = false)
    (hreply : ∀ response, reply = .response response → response.abandonsCall body = false) :
    AnswersDue (.turn (t.hear body reply)) p := by
  refine ⟨h.1, ?_⟩
  cases reply with
  | response response =>
    refine ⟨h.2.underway, fun _ => h.2.silent hemitted, ?_, ?_⟩
    · intro hemits
      exact absurd (hemitted.symm.trans hemits) (by simp)
    · intro hcarries
      have habandons := hreply response rfl
      rw [ProviderResponse.abandonsCall, Bool.and_eq_false_iff] at habandons
      exact habandons.resolve_left (by simpa [Turn.hear] using hcarries)
  | _ => exact h.2

theorem answersDue_work (env : Surroundings) {others : Nat → World → World}
    (hothers : Bystanders (fun e => e.byWorker = false) others) :
    WorkInvariant env others (NoCallAbandoned env) AnswersDue where
  session sessionId := {
    record := fun _ _ hI hrecord hq => Activity.Awaits.record hI.1 hI.2 hrecord hq
    refuse := fun hI _ _ => hI.refuse _ _
    look := fun hI => hI.look
    hear := fun _ hC hsend hI => hI.hear hsend.2.2.1 hC
    late := fun _ _ hI => ⟨hI.1, Turn.Owes.of_same hI.2 rfl rfl rfl rfl⟩
    leave := by
      rintro t p - ⟨hanswered, howes⟩
      refine ⟨hanswered, howes.underway, fun hclean => howes.silent ?_⟩
      refine Bool.eq_false_iff.mpr fun hemitted => ?_
      rw [howes.clean (howes.carries hemitted)] at hclean
      cases hclean
    ended := fun hI => hI
    deliver := by
      intro a e p q _ he hI hq
      have hother : e.byWorker = false := by cases e <;> first | rfl | cases he
      exact ⟨Answered.apply_other hI.1 hq hother, hI.2.apply hq hother⟩
    others := by
      refine hothers.stands ⟨.new sessionId, trivial⟩ ?_
      intro a e p q he hI hq
      exact ⟨Answered.apply_other hI.1 hq he, hI.2.apply hq he⟩ }
  rest _ hI := ⟨hI.1, trivial⟩
  told := by
    intro e p q he hI hq
    have hother : e.byWorker = false := by cases e <;> first | rfl | cases he
    exact ⟨Answered.apply_other hI.1 hq hother, trivial⟩

/-- Completed runs have no open call. -/
def SessionProjection.CompletedAnswered (p : SessionProjection) : Prop :=
  ∀ {runId run callId call}, p.runs.get? runId = some run → run.status = .completed →
    p.call? runId callId = some call → call.result ≠ none

theorem SessionProjection.Answered.completed {p : SessionProjection} (h : p.Answered) :
    p.CompletedAnswered := by
  intro runId run callId call hrun hstatus hcall hnone
  have hsome := h.runs hrun (.inr hstatus) callId call hcall
  rw [hnone] at hsome
  cases hsome

def helloRequest : RunRequest where
  provider := "p"
  model := "m"
  input := .str "hi"
  agent := none
  variant := none
  body := .obj []

/-- A session with a queued run. -/
def queuedWorld : World := World.holding [.runQueued "r" none "p" "m" helloRequest.toJson]

/-- A provider whose stream brings a call and then `last`. -/
def callingProvider (last : ProviderDelta) : Surroundings where
  answer n
    | .send _ _ => .response ⟨"200 OK", true,
        [.chunk [.ok [.toolCall (some "c") (some "lookup") "", last]]], .text (.ok [])⟩
    | op => (Surroundings.plain oneProvider).answer n op
  stamp _ _ _ := "t1"

/-- The session after its worker is done. -/
def callingSession (last : ProviderDelta) : Option SessionProjection :=
  ((processSessions [(3, "s")]).run (World.handleAmid (callingProvider last) fun _ w => w)
    queuedWorld).2.view "s"

/-- What is left of the run. -/
def callingOutcome (last : ProviderDelta) : Option (RunStatus × Option (Option Json)) :=
  (callingSession last).bind fun p => (p.runs.get? "r").map fun run =>
    (run.status, (p.call? "r" "c").map (·.result))

theorem queuedWorld_answered (id : String) (p : SessionProjection)
    (h : queuedWorld.view id = some p) : p.Answered := by
  obtain ⟨rfl, accepted, haccepted, happly⟩ := World.holding_view h
  refine SessionProjection.applyAll_keeps (I := SessionProjection.Answered) ?_ happly (.new "s")
  intro e he p q hq hp
  refine Answered.apply_other hp hq ?_
  rcases List.mem_cons.mp he with rfl | he
  · rfl
  · rw [List.mem_singleton.mp (haccepted he)]
    rfl

end Piqo
