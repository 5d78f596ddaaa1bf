import PiqoServer.Core.Messages
import PiqoServer.Server.Execution

/-!
# What an iteration of a worker records

An iteration looks at the session, starts or continues a run, takes a turn at it, closes the
message of the assistant, records how the run ended, leaves the phase and tells the parent. This is
said once, as a protocol; what holds in all states a worker goes through is then shown event by
event.

## Main definitions

* `Activity`: how far an iteration has come
* `Activity.record`, `Activity.Records`: the events it may append to its own session
* `Activity.allows`, `Activity.next`: the protocol of an iteration
* `Activity.Rests`: no message is left open

## Main results

* `iteration_follows`: an iteration follows the protocol, and rests where it ends
-/

namespace Piqo

/-! ## Stages -/

/-- How far an iteration has come. -/
inductive Activity where
  | idle
  | loaded (p : SessionProjection)
  /-- The session has entered the running phase for a queued run. -/
  | entered (run : RunProjection)
  /-- The queue has been resumed for a run whose calls have results. -/
  | resumed (run : RunProjection)
  | turn (t : Turn)
  /-- The turn is over: the projection read last, and whether the message of the assistant is
  closed. -/
  | finishing (t : Turn) (seen : Option SessionProjection) (closed : Bool)
  /-- The end of the run is recorded. -/
  | ended
  | over

/-- The message of the assistant is closed, or was seen to be. -/
def settled (seen : Option SessionProjection) (closed : Bool) : Bool :=
  closed || seen.any fun p => p.openAssistant.isNone

namespace Activity

/-- The event with which an iteration may start, by the projection it has read. -/
def opening (p : SessionProjection) (e : SemanticEvent) : Option Activity :=
  if p.activeRun.isSome then none
  else match p.readyActionRun with
    | some run => match e with
      | .runFailed runId _ => if runId = run.runId then some .over else none
      | .queueResumed => some (.resumed run)
      | _ => none
    | none =>
      if p.queuePaused then none
      else match p.queuedRuns.head?, e with
        | none, .sessionPhaseChanged .running .finished _ =>
          if p.state.phase = .running then some .over else none
        | some run, .sessionPhaseChanged from_ .running _ =>
          if from_ = p.state.phase ∧ from_ ≠ .running then some (.entered run) else none
        | some run, .runStarted runId _ _ =>
          if runId = run.runId ∧ p.state.phase = .running then some (.turn (.start run)) else none
        | _, _ => none

/-- The event with which it may end, once its turn is over. -/
def closing (t : Turn) (seen : Option SessionProjection) (closed : Bool) :
    SemanticEvent → Option Activity
  | .messageCompleted messageId =>
    if (seen.bind (·.openAssistant)).map (·.messageId) = some messageId ∨
        (seen.bind (·.incompleteAssistant)).map (·.messageId) = some messageId then
      some (.finishing t none true)
    else none
  | .messageInterrupted messageId =>
    if (seen.bind (·.openAssistant)).map (·.messageId) = some messageId then
      some (.finishing t none true)
    else none
  | .runCompleted runId _ =>
    if runId = t.runId ∧ settled seen closed = true ∧ t.clean = true then some .ended else none
  | .runFailed runId _ | .runCancelled runId _ | .runInterrupted runId _ =>
    if runId = t.runId ∧ settled seen closed = true then some .ended else none
  | .sessionPhaseChanged .running .interrupted _ =>
    if settled seen closed = true ∧ t.waiting = true then some .over else none
  | _ => none

/-- The activity after an event is recorded in its own session, if it may append it. -/
def record : Activity → SemanticEvent → Option Activity
  | .loaded p, e => opening p e
  | .turn t, e => (t.record e).map .turn
  | .finishing t seen closed, e => closing t seen closed e
  | .entered run, .runStarted runId _ _ | .resumed run, .runStarted runId _ _ =>
    if runId = run.runId then some (.turn (.start run)) else none
  | .ended, .sessionPhaseChanged .running .interrupted _
  | .ended, .sessionPhaseChanged .running .failed _ => some .over
  | _, _ => none

end Activity

/-- The phase a run that has ended leaves the session in. -/
def SessionPhase.afterRun : SessionPhase → Bool
  | .interrupted | .failed => true
  | _ => false

/-- The events with which a run ends, completion apart. -/
def SemanticEvent.stops? : SemanticEvent → Option String
  | .runFailed runId _ | .runCancelled runId _ | .runInterrupted runId _ => some runId
  | _ => none

/-- The events an iteration may append to its own session, and the activity after them. -/
inductive Activity.Records : Activity → SemanticEvent → Activity → Prop
  | exhausted {p run} (error : String) (hactive : p.activeRun = none)
      (hready : p.readyActionRun = some run) :
    Records (.loaded p) (.runFailed run.runId error) .over
  | resume {p run} (hactive : p.activeRun = none) (hready : p.readyActionRun = some run) :
    Records (.loaded p) .queueResumed (.resumed run)
  | finish {p} (reason : Option String) (hactive : p.activeRun = none)
      (hphase : p.state.phase = .running) :
    Records (.loaded p) (.sessionPhaseChanged .running .finished reason) .over
  | enter {p run} (reason : Option String) (hactive : p.activeRun = none)
      (hqueued : p.queuedRuns.head? = some run) (hphase : p.state.phase ≠ .running) :
    Records (.loaded p) (.sessionPhaseChanged p.state.phase .running reason) (.entered run)
  | start {p run} (attemptId : String) (attempt : Nat) (hactive : p.activeRun = none)
      (hqueued : p.queuedRuns.head? = some run) (hphase : p.state.phase = .running) :
    Records (.loaded p) (.runStarted run.runId attemptId attempt) (.turn (.start run))
  | startEntered {run} (attemptId : String) (attempt : Nat) :
    Records (.entered run) (.runStarted run.runId attemptId attempt) (.turn (.start run))
  | startResumed {run} (attemptId : String) (attempt : Nat) :
    Records (.resumed run) (.runStarted run.runId attemptId attempt) (.turn (.start run))
  | turn {t t' e} (h : t.Records e t') : Records (.turn t) e (.turn t')
  | completeMessage {t p m closed} (hm : p.openAssistant = some m ∨ p.incompleteAssistant = some m) :
    Records (.finishing t (some p) closed) (.messageCompleted m.messageId) (.finishing t none true)
  | interruptMessage {t p m closed} (hm : p.openAssistant = some m) :
    Records (.finishing t (some p) closed) (.messageInterrupted m.messageId)
      (.finishing t none true)
  | completed {t seen closed} (usage : Option Json) (hsettled : settled seen closed = true)
      (hclean : t.clean = true) :
    Records (.finishing t seen closed) (.runCompleted t.runId usage) .ended
  | stopped {t seen closed e} (he : e.stops? = some t.runId) (hsettled : settled seen closed = true) :
    Records (.finishing t seen closed) e .ended
  | paused {t seen closed} (reason : Option String) (hsettled : settled seen closed = true)
      (hwaiting : t.waiting = true) :
    Records (.finishing t seen closed) (.sessionPhaseChanged .running .interrupted reason) .over
  | left {to_} (reason : Option String) (hto : to_.afterRun = true) :
    Records .ended (.sessionPhaseChanged .running to_ reason) .over

namespace Activity

theorem records_of_opening {p : SessionProjection} {e : SemanticEvent} {b : Activity}
    (h : opening p e = some b) : Records (.loaded p) e b := by
  unfold opening at h
  split at h
  · cases h
  next hactive =>
  have hactive : p.activeRun = none := by simpa using hactive
  split at h
  · next run hready =>
    split at h
    · obtain ⟨rfl, heq⟩ := Option.ite_none_right_eq_some.mp h
      cases heq
      exact .exhausted _ hactive hready
    · cases h
      exact .resume hactive hready
    · cases h
  · replace h := (Option.ite_none_left_eq_some.mp h).2
    split at h
    · obtain ⟨hphase, heq⟩ := Option.ite_none_right_eq_some.mp h
      cases heq
      exact .finish _ hactive hphase
    · next hqueued =>
      obtain ⟨⟨rfl, hphase⟩, heq⟩ := Option.ite_none_right_eq_some.mp h
      cases heq
      exact .enter _ hactive hqueued hphase
    · next hqueued =>
      obtain ⟨⟨rfl, hphase⟩, heq⟩ := Option.ite_none_right_eq_some.mp h
      cases heq
      exact .start _ _ hactive hqueued hphase
    · cases h

theorem seen_eq_some {seen : Option SessionProjection}
    {find : SessionProjection → Option MessageProjection} {messageId : String}
    (h : (seen.bind find).map (·.messageId) = some messageId) :
    ∃ p m, seen = some p ∧ find p = some m ∧ m.messageId = messageId := by
  obtain ⟨m, hm, hid⟩ := Option.map_eq_some_iff.mp h
  obtain ⟨p, hp, hfind⟩ := Option.bind_eq_some_iff.mp hm
  exact ⟨p, m, hp, hfind, hid⟩

theorem records_of_closing {t : Turn} {seen : Option SessionProjection} {closed : Bool}
    {e : SemanticEvent} {b : Activity} (h : closing t seen closed e = some b) :
    Records (.finishing t seen closed) e b := by
  unfold closing at h
  split at h
  · obtain ⟨hfound, heq⟩ := Option.ite_none_right_eq_some.mp h
    cases heq
    rcases hfound with hfound | hfound
    · obtain ⟨p, m, rfl, hm, rfl⟩ := seen_eq_some hfound
      exact .completeMessage (.inl hm)
    · obtain ⟨p, m, rfl, hm, rfl⟩ := seen_eq_some hfound
      exact .completeMessage (.inr hm)
  · obtain ⟨hfound, heq⟩ := Option.ite_none_right_eq_some.mp h
    cases heq
    obtain ⟨p, m, rfl, hm, rfl⟩ := seen_eq_some hfound
    exact .interruptMessage hm
  · obtain ⟨⟨rfl, hsettled, hclean⟩, heq⟩ := Option.ite_none_right_eq_some.mp h
    cases heq
    exact .completed _ hsettled hclean
  · obtain ⟨⟨rfl, hsettled⟩, heq⟩ := Option.ite_none_right_eq_some.mp h
    cases heq
    exact .stopped rfl hsettled
  · obtain ⟨⟨rfl, hsettled⟩, heq⟩ := Option.ite_none_right_eq_some.mp h
    cases heq
    exact .stopped rfl hsettled
  · obtain ⟨⟨rfl, hsettled⟩, heq⟩ := Option.ite_none_right_eq_some.mp h
    cases heq
    exact .stopped rfl hsettled
  · obtain ⟨⟨hsettled, hwaiting⟩, heq⟩ := Option.ite_none_right_eq_some.mp h
    cases heq
    exact .paused _ hsettled hwaiting
  · cases h

/-- The cases of `record`. -/
theorem records_of_record {a b : Activity} {e : SemanticEvent} (h : a.record e = some b) :
    a.Records e b := by
  unfold record at h
  split at h
  · exact records_of_opening h
  · obtain ⟨t', ht', rfl⟩ := Option.map_eq_some_iff.mp h
    exact .turn (Turn.records_of_record ht')
  · exact records_of_closing h
  · obtain ⟨rfl, heq⟩ := Option.ite_none_right_eq_some.mp h
    cases heq
    exact .startEntered _ _
  · obtain ⟨rfl, heq⟩ := Option.ite_none_right_eq_some.mp h
    cases heq
    exact .startResumed _ _
  · cases h
    exact .left _ rfl
  · cases h
    exact .left _ rfl
  · cases h

/-! ## The protocol -/

/-- The activity after the reply to an append. -/
def afterAppend (e : SemanticEvent) : Activity → Except StoreError (List RecordedEvent) → Activity
  | .turn t, r => .turn (t.afterAppend e r)
  | a, .ok (_ :: _) => (a.record e).getD a
  | .finishing t seen closed, _ =>
    .finishing { t with faulted := t.faulted || e.aboutMessage } seen closed
  | _, _ => .over

/-- The activity after its session is read. -/
def look : Activity → Except StoreError SessionProjection → Activity
  | .idle, .ok p => .loaded p
  | .finishing t _ closed, .ok p => .finishing t (some p) closed
  | .finishing t seen closed, .error _ => .finishing { t with faulted := true } seen closed
  | a, _ => a

/-- Telling the parent. -/
def delivering : Activity → Bool
  | .ended | .over => true
  | _ => false

end Activity

/-- The events that tell a parent of its child. -/
def SemanticEvent.delivers : SemanticEvent → Bool
  | .agentFinished _ _ | .agentResultDelivered _ _ _ _ | .toolResult _ _ _ _ _ | .queueResumed => true
  | _ => false

namespace Activity

/-- The operations of an iteration. -/
def allows (sessionId : String) (a : Activity) : ServerOp → Prop
  | .store (.append id events) =>
    (id = sessionId ∧ ∃ e b, events = [e] ∧ a.record e = some b) ∨
      a.delivering = true ∧ ∀ e ∈ events, e.delivers = true
  | .store (.projection _) | .store (.getSession _) | .store (.agentLinks _) => True
  | .store _ => False
  | .publish _ | .startWorker _ => True
  | .external op => match op with
    | .beginEffect _ _ => False
    | .send runId body => ∃ t, a = .turn t ∧ turnAllows sessionId t (.external (.send runId body))
    | .removeToken _ => ∀ t, a = .turn t → t.writing.userOpen = true →
        t.faulted = true ∨ t.late = true
    | _ => True

/-- What the replies say about the iteration. -/
def next (sessionId : String) (a : Activity) : (op : ServerOp) → op.Reply → Activity
  | .store (.append id [e]), r => if id = sessionId then a.afterAppend e r else a
  | .store (.projection id), r => if id = sessionId then a.look r else a
  | .external (.removeToken _), _ => match a with
    | .turn t => .finishing t none false
    | a => a
  | op, r => match a with
    | .turn t => .turn (turnNext t op r)
    | a => a

/-- No message is left open. -/
def Rests : Activity → Prop
  | .turn t => t.faulted = true ∨ t.writing.open? = none
  | .finishing t seen closed => t.faulted = true ∨ settled seen closed = true
  | _ => True

end Activity

/-! ## The rules of the protocol -/

section Rules

variable {sessionId : String} {α β : Type} {a b : Activity}

theorem activity_quiet (sessionId : String) :
    Quiet (Activity.allows sessionId) (Activity.next sessionId) where
  publish a _ := ⟨trivial, by cases a <;> rfl⟩
  worker a _ := ⟨trivial, by cases a <;> rfl⟩
  release a _ := ⟨trivial, by cases a <;> rfl⟩
  shutdown a _ := ⟨trivial, by cases a <;> rfl⟩

/-- A turn is part of an iteration. -/
theorem follows_ofTurn {ε : Type} {p : Program serverSignature ε α} {t : Turn}
    {Q : Turn → Except ε α → Prop} {R : Activity → Except ε α → Prop}
    (h : p.Follows (turnAllows sessionId) turnNext Q t) (hQR : ∀ t' x, Q t' x → R (.turn t') x) :
    p.Follows (Activity.allows sessionId) (Activity.next sessionId) R (.turn t) := by
  refine h.map Activity.turn ?_ ?_ hQR
  · intro t op hop
    rcases op with op | _ | _ | op
    · cases op with
      | append id events =>
        obtain ⟨hid, e, t', hevents, hrecord⟩ := hop
        exact .inl ⟨hid, e, .turn t', hevents, by rw [Activity.record, hrecord]; rfl⟩
      | _ => exact hop
    · trivial
    · trivial
    · cases op with
      | send runId body => exact ⟨t, rfl, hop⟩
      | removeToken runId => exact hop.elim
      | _ => trivial
  · intro t op r hop
    rcases op with op | _ | _ | op
    · cases op with
      | append id events =>
        obtain ⟨rfl, e, t', rfl, hrecord⟩ := hop
        exact if_pos rfl
      | projection id =>
        refine ite_eq_iff.mpr ?_
        by_cases hid : id = sessionId
        · exact .inl ⟨hid, by cases r <;> rfl⟩
        · exact .inr ⟨hid, rfl⟩
      | _ => rfl
    · rfl
    · rfl
    · cases op with
      | removeToken runId => exact hop.elim
      | _ => rfl

/-- A reply that says that an event was not recorded. -/
def Refusal (r : Except StoreError (List RecordedEvent)) : Prop :=
  ∀ record records, r ≠ .ok (record :: records)

theorem Refusal.nil : Refusal (.ok []) := fun _ _ h => by cases h

theorem Refusal.error (e : StoreError) : Refusal (.error e) := fun _ _ h => by cases h

/-- What an append to the own session leaves. -/
def Recorded (a : Activity) (e : SemanticEvent) (b b' : Activity) :
    Except StoreError RecordedEvent → Prop
  | .ok _ => b' = b
  | .error _ => ∃ r, Refusal r ∧ b' = a.afterAppend e r

theorem append_records {e : SemanticEvent} (hrecord : a.record e = some b)
    (hturn : ∀ t, a ≠ .turn t) :
    (append sessionId e).Follows (Activity.allows sessionId) (Activity.next sessionId)
      (Recorded a e b) a := by
  have hnext : ∀ r, Activity.next sessionId a (.store (.append sessionId [e])) r =
      a.afterAppend e r := fun r => if_pos rfl
  refine follows_onStore (.inl ⟨rfl, e, b, rfl, hrecord⟩) ?_ ?_
  · intro records
    rw [hnext]
    cases records with
    | nil => exact ⟨_, .nil, rfl⟩
    | cons record records =>
      refine (activity_quiet sessionId).publishAll_then [record] ?_
      change a.afterAppend e (.ok (record :: records)) = b
      cases a with
      | turn t => exact absurd rfl (hturn t)
      | _ =>
        rw [Activity.afterAppend, hrecord]
        · rfl
        · simp
  · intro x
    rw [hnext]
    exact ⟨_, .error x, rfl⟩

/-- An append to the own session, and what follows it. -/
theorem follows_record {e : SemanticEvent} (hrecord : a.record e = some b)
    (hturn : ∀ t, a ≠ .turn t) {f : RecordedEvent → ServerProgram β}
    {Q : Activity → Except StoreError β → Prop}
    (hok : ∀ record, (f record).Follows (Activity.allows sessionId) (Activity.next sessionId) Q b)
    (herror : ∀ x r, Refusal r → Q (a.afterAppend e r) (.error x)) :
    (append sessionId e >>= f).Follows (Activity.allows sessionId) (Activity.next sessionId) Q a := by
  refine (append_records hrecord hturn).bind ?_ ?_
  · rintro b' record rfl
    exact hok record
  · rintro b' x ⟨r, hr, rfl⟩
    exact herror x r hr

/-- A silent program leaves an iteration as it is; it may look at its session in passing. -/
theorem Silent.follows_activity {p : ServerProgram α} (hp : Silent p)
    (hlook : ∀ r, a.look r = a) {Q : Activity → Except StoreError α → Prop} (hQ : ∀ x, Q a x) :
    p.Follows (Activity.allows sessionId) (Activity.next sessionId) Q a := by
  refine (Program.Follows.invariant (J := (· = a)) (P := fun _ => True) ?_ hp rfl).mono ?_
  · rintro a op rfl hop
    rcases op with op | _ | _ | op
    · cases op with
      | projection id =>
        refine ⟨trivial, fun r => ?_⟩
        change (if id = sessionId then _ else _) = _
        split
        · exact hlook r
        · rfl
      | getSession id => exact ⟨trivial, fun r => by cases a <;> rfl⟩
      | agentLinks id => exact ⟨trivial, fun r => by cases a <;> rfl⟩
      | _ => cases hop
    · cases hop
    · cases hop
    · cases op <;> first | (refine ⟨trivial, fun r => ?_⟩; cases a <;> rfl) | cases hop
  · rintro b x ⟨rfl, -⟩
    exact hQ x

end Rules

/-! ## Finishing -/

section Finishing

variable {sessionId : String} {t : Turn} {seen : Option SessionProjection} {closed : Bool}

/-- What closing the message of the assistant leaves. -/
def Closed (t : Turn) (b : Activity) : Except StoreError Unit → Prop
  | .ok _ => ∃ seen closed, b = .finishing t seen closed ∧ settled seen closed = true
  | .error _ => b.Rests

/-- Reading the session once the turn is over. -/
theorem follows_see {β : Type} {f : SessionProjection → ServerProgram β}
    {Q : Activity → Except StoreError β → Prop}
    (hok : ∀ p, (f p).Follows (Activity.allows sessionId) (Activity.next sessionId) Q
      (.finishing t (some p) closed))
    (herror : ∀ e b, b.Rests → Q b (.error e)) :
    (onStore (.projection sessionId) >>= f).Follows (Activity.allows sessionId)
      (Activity.next sessionId) Q (.finishing t seen closed) := by
  refine follows_onStore trivial (fun p => ?_) fun e => herror e _ ?_
  · have hnext : Activity.next sessionId (.finishing t seen closed)
        (.store (.projection sessionId)) (.ok p) = .finishing t (some p) closed := if_pos rfl
    rw [hnext]
    exact hok p
  · have hnext : Activity.next sessionId (.finishing t seen closed)
        (.store (.projection sessionId)) (.error e) =
          .finishing { t with faulted := true } seen closed := if_pos rfl
    rw [hnext]
    exact .inl rfl

/-- A message that was found is closed. -/
theorem follows_close {e : SemanticEvent}
    (hrecord : (Activity.finishing t seen closed).record e = some (.finishing t none true))
    (he : e.aboutMessage = true) :
    (append sessionId e >>= fun _ => return ()).Follows (Activity.allows sessionId)
      (Activity.next sessionId) (Closed t) (.finishing t seen closed) := by
  refine follows_record hrecord (by simp) (fun _ => ⟨none, true, rfl, rfl⟩) fun x r hr => ?_
  have hfaulted : (t.faulted || e.aboutMessage) = true := by rw [he, Bool.or_true]
  rcases r with _ | (_ | ⟨record, records⟩)
  · exact .inl hfaulted
  · exact .inl hfaulted
  · exact absurd rfl (hr record records)

theorem interruptMessage_follows :
    (interruptMessage sessionId).Follows (Activity.allows sessionId) (Activity.next sessionId)
      (Closed t) (.finishing t seen closed) := by
  refine follows_see (fun p => ?_) fun e b hb => hb
  cases hfound : p.openAssistant with
  | none =>
    refine ⟨some p, closed, rfl, ?_⟩
    simp [settled, hfound]
  | some m =>
    refine follows_close ?_ rfl
    simp [Activity.record, Activity.closing, hfound]

/-- Completing the message that a look at the session finds. -/
theorem completeMessage_follows {find : SessionProjection → Option MessageProjection}
    (hnone : ∀ p, find p = none → p.openAssistant = none)
    (hsome : ∀ p m, find p = some m → p.openAssistant = some m ∨ p.incompleteAssistant = some m) :
    (completeMessage sessionId find).Follows (Activity.allows sessionId) (Activity.next sessionId)
      (Closed t) (.finishing t seen closed) := by
  refine follows_see (fun p => ?_) fun e b hb => hb
  cases hfound : find p with
  | none =>
    refine ⟨some p, closed, rfl, ?_⟩
    simp [settled, hnone p hfound]
  | some m =>
    refine follows_close ?_ rfl
    rcases hsome p m hfound with hm | hm <;> simp [Activity.record, Activity.closing, hm]

/-- Nothing that is open is complete. -/
theorem openAssistant_eq_none {p : SessionProjection} (h : p.incompleteAssistant = none) :
    p.openAssistant = none := by
  simp only [SessionProjection.incompleteAssistant, SessionProjection.openAssistant,
    List.find?_eq_none, Bool.and_eq_true, Bool.not_eq_true'] at h ⊢
  exact fun m hm hopen => h m hm hopen.1

/-- The end of a run is recorded. -/
theorem follows_end {β : Type} {e : SemanticEvent} {b : Activity}
    (hrecord : (Activity.finishing t seen closed).record e = some b)
    (hsettled : settled seen closed = true) {f : RecordedEvent → ServerProgram β}
    {Q : Activity → Except StoreError β → Prop}
    (hok : ∀ record, (f record).Follows (Activity.allows sessionId) (Activity.next sessionId) Q b)
    (herror : ∀ x b, b.Rests → Q b (.error x)) :
    (append sessionId e >>= f).Follows (Activity.allows sessionId) (Activity.next sessionId) Q
      (.finishing t seen closed) := by
  refine follows_record hrecord (by simp) hok fun x r hr => herror x _ ?_
  rcases r with _ | (_ | ⟨record, records⟩)
  · exact .inr hsettled
  · exact .inr hsettled
  · exact absurd rfl (hr record records)

/-- What closing a run leaves. -/
theorem closeRun_follows {run : RunProjection} {result : ExecutionResult} (hof : t.Of run)
    (hreaches : t.Reaches result) :
    (closeRun sessionId run result).Follows (Activity.allows sessionId) (Activity.next sessionId)
      (fun b x => b.Rests ∧ (x = .ok () → b.delivering = true)) (.finishing t none false) := by
  -- The message is closed first; what is recorded next depends on the result.
  have hclosed : ∀ {seen closed e to_ reason}, settled seen closed = true →
      e.stops? = some run.runId → to_.afterRun = true →
      (append sessionId e >>= fun _ => append sessionId (.sessionPhaseChanged .running to_ reason) >>=
        fun _ => return ()).Follows (Activity.allows sessionId) (Activity.next sessionId)
          (fun b x => b.Rests ∧ (x = .ok () → b.delivering = true)) (.finishing t seen closed) := by
    intro seen closed e to_ reason hsettled he hto
    have hend : (Activity.finishing t seen closed).record e = some .ended := by
      cases e <;> simp_all [Activity.record, Activity.closing, SemanticEvent.stops?, hof.runId]
    have hleft : Activity.ended.record (.sessionPhaseChanged .running to_ reason) = some .over := by
      cases to_ <;> first | rfl | cases hto
    refine follows_end hend hsettled (fun _ => ?_) fun x b hb => ⟨hb, nofun⟩
    refine follows_record hleft (by simp) (fun _ => ⟨trivial, fun _ => rfl⟩) fun x r hr => ?_
    rcases r with _ | (_ | ⟨record, records⟩)
    · exact ⟨trivial, nofun⟩
    · exact ⟨trivial, nofun⟩
    · exact absurd rfl (hr record records)
  have hstop : ∀ {e to_ reason}, e.stops? = some run.runId → to_.afterRun = true →
      (interruptMessage sessionId >>= fun _ => append sessionId e >>= fun _ =>
        append sessionId (.sessionPhaseChanged .running to_ reason) >>= fun _ => return ()).Follows
          (Activity.allows sessionId) (Activity.next sessionId)
          (fun b x => b.Rests ∧ (x = .ok () → b.delivering = true)) (.finishing t none false) := by
    intro e to_ reason he hto
    refine interruptMessage_follows.bind ?_ fun b e hb => ⟨hb, nofun⟩
    rintro b _ ⟨seen, closed, rfl, hsettled⟩
    exact hclosed hsettled he hto
  cases result with
  | completed => exact absurd rfl hreaches.paused
  | completedWithUsage usage =>
    refine (completeMessage_follows (fun p => openAssistant_eq_none) fun p m => .inr).bind ?_
      fun b e hb => ⟨hb, nofun⟩
    rintro b _ ⟨seen, closed, rfl, hsettled⟩
    have hend : (Activity.finishing t seen closed).record (.runCompleted run.runId usage) =
        some .ended := by
      simp [Activity.record, Activity.closing, hof.runId, hsettled, (hreaches.completed _ rfl).1]
    exact follows_end hend hsettled (fun _ => ⟨trivial, fun _ => rfl⟩) fun x b hb => ⟨hb, nofun⟩
  | failed error retryable => exact hstop rfl rfl
  | cancelled => exact hstop rfl rfl
  | interrupted => exact hstop rfl rfl
  | requiresAction =>
    refine (completeMessage_follows (fun p h => h) fun p m => .inl).bind ?_
      fun b e hb => ⟨hb, nofun⟩
    rintro b _ ⟨seen, closed, rfl, hsettled⟩
    have hend : (Activity.finishing t seen closed).record (.sessionPhaseChanged .running .interrupted
        (some "requires_action")) = some .over := by
      simp [Activity.record, Activity.closing, hsettled, hreaches.waiting rfl]
    exact follows_end hend hsettled (fun _ => ⟨trivial, fun _ => rfl⟩) fun x b hb => ⟨hb, nofun⟩

end Finishing

/-! ## Telling the parent -/

/-- The operations with which a parent is told. -/
def ServerOp.tells : ServerOp → Prop
  | .store (.append _ events) => ∀ e ∈ events, e.delivers = true
  | .store (.projection _) | .store (.agentLinks _) | .publish _
  | .external (.releaseAdmission _) => True
  | _ => False

theorem delivering_iff {a : Activity} : a.delivering = true ↔ a = .ended ∨ a = .over := by
  cases a <;> simp [Activity.delivering]

theorem afterAppend_deliver {a : Activity} {e : SemanticEvent} (ha : a.delivering = true)
    (he : e.delivers = true) (r : Except StoreError (List RecordedEvent)) :
    a.afterAppend e r = a ∨ a.afterAppend e r = .over := by
  have hrecord : a.record e = none := by
    rcases delivering_iff.mp ha with rfl | rfl <;> cases e <;> first | rfl | cases he
  rcases delivering_iff.mp ha with rfl | rfl
  all_goals
    rcases r with _ | (_ | ⟨record, records⟩)
    · exact .inr rfl
    · exact .inr rfl
    · refine .inl ?_
      rw [Activity.afterAppend, hrecord]
      · rfl
      · simp

theorem tells_delivering (sessionId : String) (a : Activity) (op : ServerOp)
    (ha : a.delivering = true) (hop : op.tells) :
    a.allows sessionId op ∧ ∀ r, (a.next sessionId op r).delivering = true := by
  have hsame := delivering_iff.mp ha
  rcases op with op | _ | _ | op
  · cases op with
    | append id events =>
      refine ⟨.inr ⟨ha, hop⟩, fun r => ?_⟩
      rcases events with _ | ⟨e, _ | ⟨e', events⟩⟩
      · rcases hsame with rfl | rfl <;> rfl
      · change (if id = sessionId then _ else _ : Activity).delivering = true
        split
        · rcases afterAppend_deliver ha (hop e List.mem_cons_self) r with hsame | hover
          · rw [hsame]
            exact ha
          · rw [hover]
            rfl
        · exact ha
      · rcases hsame with rfl | rfl <;> rfl
    | projection id =>
      refine ⟨trivial, fun r => ?_⟩
      change (if id = sessionId then _ else _ : Activity).delivering = true
      rcases hsame with rfl | rfl <;> split <;> cases r <;> rfl
    | agentLinks id => exact ⟨trivial, fun r => by rcases hsame with rfl | rfl <;> rfl⟩
    | _ => exact hop.elim
  · exact ⟨trivial, fun r => by rcases hsame with rfl | rfl <;> rfl⟩
  · exact hop.elim
  · cases op with
    | releaseAdmission runId => exact ⟨trivial, fun r => by rcases hsame with rfl | rfl <;> rfl⟩
    | _ => exact hop.elim

/-- A program that tells the parent. -/
def Tells {α : Type} (p : ServerProgram α) : Prop :=
  p.Follows (fun (_ : Unit) op => ServerOp.tells op) (fun u _ _ => u) (fun _ _ => True) ()

theorem tells_quiet : ∀ records : List RecordedEvent, Tells (publishAll records) := by
  intro records
  induction records with
  | nil => trivial
  | cons record records ih =>
    refine ⟨trivial, fun _ => ?_⟩
    change Tells (releaseTerminalAdmission record.event >>= fun _ => publishAll records)
    unfold releaseTerminalAdmission
    cases terminalRun record.event with
    | none => exact ih
    | some runId => exact ⟨trivial, fun _ => ih⟩

theorem Tells.bind {α β : Type} {p : ServerProgram α} {f : α → ServerProgram β} (hp : Tells p)
    (hf : ∀ a, Tells (f a)) : Tells (p >>= f) :=
  Program.Follows.bind hp (fun _ a _ => hf a) fun _ _ _ => trivial

theorem tells_append {sessionId : String} {e : SemanticEvent} (he : e.delivers = true) :
    Tells (append sessionId e) := by
  refine follows_onStore ?_ (fun records => ?_) fun _ => trivial
  · intro e' he'
    rw [List.mem_singleton.mp he']
    exact he
  · cases records with
    | nil => trivial
    | cons record records => exact (tells_quiet [record]).bind fun _ => trivial

theorem tells_appendMany {sessionId : String} {events : List SemanticEvent}
    (hevents : ∀ e ∈ events, e.delivers = true) : Tells (appendMany sessionId events) :=
  follows_onStore hevents (fun records => (tells_quiet records).bind fun _ => .intro)
    fun _ => trivial

theorem loadRun_tells (sessionId runId : String) : Tells (loadRun sessionId runId) := by
  refine follows_onStore trivial (fun p => ?_) fun _ => trivial
  cases p.runs.get? runId <;> trivial

theorem recordChildResult_tells (link : AgentLinkRecord) (child : SessionProjection)
    (result : AgentResult) : Tells (recordChildResult link child result) := by
  unfold recordChildResult
  exact iteInduction (fun _ => trivial) fun _ => (tells_append rfl).bind fun _ => trivial

theorem tellParent_tells (link : AgentLinkRecord) (result : AgentResult) :
    Tells (tellParent link result) := by
  refine follows_onStore trivial (fun parent => ?_) fun _ => trivial
  refine iteInduction (fun _ => trivial) fun _ => ?_
  cases parent.runs.get? link.parentRunId with
  | none => trivial
  | some parentRun =>
    change Tells (appendMany _ _ >>= fun _ => _)
    refine (tells_appendMany ?_).bind fun _ => .intro
    intro e he
    split at he
    · simp only [List.cons_append, List.nil_append, List.mem_cons, List.not_mem_nil,
        or_false] at he
      rcases he with rfl | rfl | rfl | rfl <;> rfl
    · simp only [List.append_nil, List.mem_cons, List.not_mem_nil, or_false] at he
      rcases he with rfl | rfl | rfl <;> rfl

theorem deliverChildResult_tells (childSessionId childRunId : String) :
    Tells (deliverChildResult childSessionId childRunId) := by
  refine follows_onStore trivial (fun links => ?_) fun _ => trivial
  dsimp only
  split
  · trivial
  · next link _ =>
    refine (loadRun_tells childSessionId childRunId).bind ?_
    rintro ⟨child, run⟩
    dsimp only
    split
    · trivial
    · exact (recordChildResult_tells _ _ _).bind fun _ => tellParent_tells _ _

theorem deliverChildResult_follows {sessionId : String} {a : Activity} (childSessionId childRunId : String)
    (ha : a.delivering = true) :
    (deliverChildResult childSessionId childRunId).Follows (Activity.allows sessionId)
      (Activity.next sessionId) (fun b _ => b.Rests) a := by
  refine (Program.Follows.invariant (P := fun _ => True) (J := fun a => a.delivering = true)
    (tells_delivering sessionId)
    (deliverChildResult_tells childSessionId childRunId) ha).mono ?_
  rintro b x ⟨hb, -⟩
  rcases delivering_iff.mp hb with rfl | rfl <;> trivial

/-! ## An iteration -/

section Iteration

variable {sessionId : String} (fuel : Nat)

theorem finishRun_follows {run : RunProjection} {result : ExecutionResult} {t : Turn}
    (hof : t.Of run) (hreaches : t.Reaches result) :
    (finishRun fuel sessionId run result).Follows (Activity.allows sessionId)
      (Activity.next sessionId) (fun b _ => b.Rests) (.finishing t none false) := by
  have hpause : pauseRun fuel sessionId run result = .ret result := by
    cases result <;> first | rfl | exact absurd rfl hreaches.paused
  unfold finishRun
  rw [hpause]
  refine (closeRun_follows hof hreaches).bind ?_ fun b e hb => hb.1
  rintro b _ ⟨-, hdelivering⟩
  exact deliverChildResult_follows _ _ (hdelivering rfl)

/-- A run that has been started. -/
theorem executeAndFinish_follows (run : RunProjection) :
    (executeAndFinish fuel sessionId run).Follows (Activity.allows sessionId)
      (Activity.next sessionId) (fun b _ => b.Rests) (.turn (.start run)) := by
  have hrests : Activity.Rests (.turn (.start run)) := by
    refine .inr ?_
    change Writing.open? (if _ then _ else _) = none
    split <;> rfl
  refine follows_ask trivial fun active => ?_
  cases active with
  | false => exact hrests
  | true =>
    refine (follows_ofTurn (R := fun b x => ∃ t, b = .turn t ∧ TurnOver run t x)
      (executeRunWithChildTimeout_follows run) fun t x h => ⟨t, rfl, h⟩).bind ?_ ?_
    · rintro _ result ⟨t, rfl, hof, hreaches⟩
      refine follows_ask ?_ fun _ => ?_
      · rintro _ ⟨⟩
        exact hreaches.user
      · refine (finishRun_follows fuel hof hreaches).bind ?_ fun b e hb => hb
        intro b parent hb
        cases parent <;> exact hb
    · rintro _ e ⟨t, rfl, -, h⟩
      exact h

theorem maxModelTurns_silent (sessionId : String) : Silent (maxModelTurns sessionId) := by
  refine (childBudget_silent sessionId).bind fun budget => ?_
  cases budget with
  | some budget => trivial
  | none => exact snapshot_silent.bind fun _ => .ret _

/-- The stages before a turn. -/
def Activity.early : Activity → Bool
  | .loaded _ | .entered _ | .resumed _ => true
  | _ => false

theorem early_refused {a : Activity} {e : SemanticEvent} {r : Except StoreError (List RecordedEvent)}
    (ha : a.early = true) (hr : Refusal r) : a.afterAppend e r = .over := by
  rcases r with _ | (_ | ⟨record, records⟩)
  · cases a <;> first | rfl | cases ha
  · cases a <;> first | rfl | cases ha
  · exact absurd rfl (hr record records)

/-- An event before a turn; where it is refused the iteration is over. -/
theorem follows_early {α : Type} {a b : Activity} {e : SemanticEvent} (ha : a.early = true)
    (hrecord : a.record e = some b) {f : RecordedEvent → ServerProgram α}
    (hok : ∀ record, (f record).Follows (Activity.allows sessionId) (Activity.next sessionId)
      (fun b _ => b.Rests) b) :
    (append sessionId e >>= f).Follows (Activity.allows sessionId) (Activity.next sessionId)
      (fun b _ => b.Rests) a := by
  refine follows_record hrecord ?_ hok fun x r hr => ?_
  · rintro t rfl
    cases ha
  · rw [early_refused ha hr]
    trivial

theorem continueRun_follows {p : SessionProjection} {run : RunProjection}
    (hactive : p.activeRun = none) (hready : p.readyActionRun = some run) :
    (continueRun fuel sessionId run).Follows (Activity.allows sessionId) (Activity.next sessionId)
      (fun b _ => b.Rests) (.loaded p) := by
  refine ((maxModelTurns_silent sessionId).follows_activity (Q := fun b _ => b = .loaded p)
    (fun _ => rfl) fun _ => rfl).bind ?_ ?_
  · rintro _ maxTurns rfl
    refine iteInduction (fun _ => ?_) fun _ => ?_
    · have hrecord : ∀ error, (Activity.loaded p).record (.runFailed run.runId error) =
          some .over := by
        intro error
        simp [Activity.record, Activity.opening, hactive, hready]
      exact follows_early rfl (hrecord _) fun _ => trivial
    · have hresumed : (Activity.loaded p).record .queueResumed = some (.resumed run) := by
        simp [Activity.record, Activity.opening, hactive, hready]
      refine follows_early rfl hresumed fun _ => ?_
      refine follows_ask trivial fun attemptId => ?_
      have hstarted : (Activity.resumed run).record
          (.runStarted run.runId attemptId (run.attempts + 1)) = some (.turn (.start run)) :=
        if_pos rfl
      refine follows_early rfl hstarted fun _ => ?_
      exact follows_ask trivial fun _ => executeAndFinish_follows fuel run
  · rintro _ e rfl
    trivial

theorem finishQueue_follows {p : SessionProjection} (hactive : p.activeRun = none)
    (hready : p.readyActionRun = none) (hpaused : p.queuePaused = false)
    (hqueued : p.queuedRuns.head? = none) :
    (finishQueue sessionId p.state.phase).Follows (Activity.allows sessionId)
      (Activity.next sessionId) (fun b _ => b.Rests) (.loaded p) := by
  unfold finishQueue
  refine iteInduction (fun hphase => ?_) fun _ => trivial
  have hrecord : (Activity.loaded p).record (.sessionPhaseChanged .running .finished
      (some "queue_empty")) = some .over := by
    simp [Activity.record, Activity.opening, hactive, hready, hpaused, hqueued, hphase]
  exact follows_early rfl hrecord fun _ => trivial

/-- The run is started from where the session stands. -/
theorem runStarted_follows {a : Activity} {run : RunProjection} (ha : a.early = true)
    (hrecord : ∀ attemptId, a.record (.runStarted run.runId attemptId (run.attempts + 1)) =
      some (.turn (.start run))) :
    (ask .newUuid >>= fun attemptId => ask (.registerToken run.runId) >>= fun _ =>
      (append sessionId (.runStarted run.runId attemptId (run.attempts + 1))).attempt >>= fun
        | .error e => ask (.removeToken run.runId) >>= fun _ => Program.fail e
        | .ok _ => executeAndFinish fuel sessionId
            { run with attemptId := some attemptId, attempts := run.attempts + 1 }).Follows
      (Activity.allows sessionId) (Activity.next sessionId) (fun b _ => b.Rests) a := by
  have hsame : ∀ op r, a.next sessionId (.external op) r = a := by
    intro op r
    cases a <;> first | (cases op <;> rfl) | cases ha
  have hturn : ∀ t, a ≠ .turn t := by
    rintro t rfl
    cases ha
  refine follows_ask trivial fun attemptId => ?_
  rw [hsame]
  refine follows_ask trivial fun _ => ?_
  rw [hsame]
  refine ((append_records (hrecord attemptId) hturn).mono fun b x h => ⟨x, rfl, h⟩).attempt.bind_total
    ?_
  intro b x hx
  cases x with
  | ok record =>
    cases hx
    exact executeAndFinish_follows fuel
      { run with attemptId := some attemptId, attempts := run.attempts + 1 }
  | error e =>
    obtain ⟨r, hr, rfl⟩ := hx
    rw [early_refused ha hr]
    exact follows_ask (fun t ht => by cases ht) fun _ => trivial

theorem startRun_follows {p : SessionProjection} {run : RunProjection} (hactive : p.activeRun = none)
    (hready : p.readyActionRun = none) (hpaused : p.queuePaused = false)
    (hqueued : p.queuedRuns.head? = some run) :
    (startRun fuel sessionId p.state.phase run).Follows (Activity.allows sessionId)
      (Activity.next sessionId) (fun b _ => b.Rests) (.loaded p) := by
  unfold startRun enterRunning
  by_cases hphase : p.state.phase = .running
  · rw [if_pos hphase]
    refine runStarted_follows fuel rfl fun attemptId => ?_
    simp [Activity.record, Activity.opening, hactive, hready, hpaused, hqueued, hphase]
  · rw [if_neg hphase, Program.bind_assoc]
    have hrecord : (Activity.loaded p).record (.sessionPhaseChanged p.state.phase .running
        (some "run_started")) = some (.entered run) := by
      simp [Activity.record, Activity.opening, hactive, hready, hpaused, hqueued, hphase]
    refine follows_early rfl hrecord fun _ => ?_
    exact runStarted_follows fuel rfl fun attemptId => if_pos rfl

/-- **An iteration follows the protocol, and rests where it ends.** -/
theorem iteration_follows :
    (iteration fuel sessionId).Follows (Activity.allows sessionId) (Activity.next sessionId)
      (fun b _ => b.Rests) .idle := by
  refine follows_ask trivial fun shutdown => ?_
  cases shutdown with
  | true => trivial
  | false =>
    refine follows_onStore trivial (fun p => ?_) fun e => ?_
    · have hnext : Activity.next sessionId .idle (.store (.projection sessionId)) (.ok p) =
          .loaded p := if_pos rfl
      change Program.Follows _ _ _ (Activity.next sessionId .idle _ _) _
      rw [hnext]
      refine iteInduction (fun _ => trivial) fun hactive => ?_
      have hactive : p.activeRun = none := by simpa using hactive
      split
      · next run hready => exact continueRun_follows fuel hactive hready
      · next hready =>
        refine iteInduction (fun _ => trivial) fun hpaused => ?_
        have hpaused : p.queuePaused = false := Bool.eq_false_iff.mpr hpaused
        split
        · next hqueued => exact finishQueue_follows hactive hready hpaused hqueued
        · next run hqueued => exact startRun_follows fuel hactive hready hpaused hqueued
    · have hnext : Activity.next sessionId .idle (.store (.projection sessionId)) (.error e) =
          .idle := if_pos rfl
      change Activity.Rests (Activity.next sessionId .idle _ _)
      rw [hnext]
      trivial

end Iteration

end Piqo
