import PiqoServer.Library.Schedule
import PiqoServer.Server.ConfigFile

/-!
# Admission

`AdmissionController` (`piqo-server/src/supervisor.rs`) limits how many runs are pending, in all
and in each session. A run takes a slot before it is queued, and gives it back when its end is
recorded. Three counters are kept in step by hand.

## Main definitions

* `AdmissionState`, `AdmissionState.reserve`, `AdmissionState.release`: the slots
* `AdmissionState.Consistent`: the counters agree, and are within the limits

## Main results

* `AdmissionState.Consistent.reserve`, `AdmissionState.Consistent.release`: one call
* `admission_consistent`: any sequence of calls
-/

namespace Piqo

structure AdmissionState where
  pending : Nat := 0
  sessions : SortedMap String Nat := ∅
  /-- The session of each run that has a slot. -/
  runSessions : SortedMap String String := ∅

namespace AdmissionState

/-- The slots of a session. -/
def sessionPending (s : AdmissionState) (sessionId : String) : Nat :=
  (s.sessions.get? sessionId).getD 0

def reserve (limits : ResourceLimits) (sessionId runId : String) (s : AdmissionState) :
    Except StoreError Unit × AdmissionState :=
  if s.pending ≥ limits.maxPendingRuns ∨
      s.sessionPending sessionId ≥ limits.maxPendingRunsPerSession then
    (.error .runCapacityExceeded, s)
  else (.ok (), {
    pending := s.pending + 1
    sessions := s.sessions.insert sessionId (s.sessionPending sessionId + 1)
    runSessions := s.runSessions.insert runId sessionId })

/-- The counters of the sessions with one slot less for one of them. -/
def leave (sessionId : String) (sessions : SortedMap String Nat) : SortedMap String Nat :=
  match sessions.get? sessionId with
  | none => sessions
  | some value =>
    if value - 1 = 0 then sessions.erase sessionId else sessions.insert sessionId (value - 1)

def release (runId : String) (s : AdmissionState) : AdmissionState :=
  match s.runSessions.get? runId with
  | none => s
  | some sessionId => {
    pending := s.pending - 1
    sessions := leave sessionId s.sessions
    runSessions := s.runSessions.erase runId }

/-- The sum of counters. -/
def total (sessions : SortedMap String Nat) : Nat := sessions.values.foldr (· + ·) 0

/-- The counters agree with the runs that have slots, and are within the limits. -/
structure Consistent (limits : ResourceLimits) (s : AdmissionState) : Prop where
  pending : s.pending = s.runSessions.values.length
  total : s.pending = total s.sessions
  counts : ∀ sessionId, s.sessionPending sessionId = s.runSessions.values.count sessionId
  positive : ∀ sessionId, s.sessions.get? sessionId ≠ some 0
  bounded : s.pending ≤ limits.maxPendingRuns
  sessionBounded : ∀ sessionId, s.sessionPending sessionId ≤ limits.maxPendingRunsPerSession

variable {s : AdmissionState} {limits : ResourceLimits} {sessionId runId : String}

theorem consistent_empty (limits : ResourceLimits) : Consistent limits {} where
  pending := rfl
  total := rfl
  counts _ := rfl
  positive _ h := by cases h
  bounded := Nat.zero_le _
  sessionBounded _ := Nat.zero_le _

/-! ## The maps -/

theorem values_insert_perm {V : Type} {m : SortedMap String V} {k : String} (v : V)
    (h : m.get? k = none) : (m.insert k v).values.Perm (v :: m.values) :=
  (SortedMap.entries_insert_perm v h).map Prod.snd

theorem values_erase_perm {V : Type} {m : SortedMap String V} {k : String} {v : V}
    (h : m.get? k = some v) : m.values.Perm (v :: (m.erase k).values) :=
  (SortedMap.entries_erase_perm h).map Prod.snd

theorem count_values {l l' : List String} (h : l.Perm (sessionId :: l')) (id : String) :
    l.count id = l'.count id + if id = sessionId then 1 else 0 := by
  rw [h.count_eq]
  by_cases hid : id = sessionId
  · rw [hid, List.count_cons_self, if_pos rfl]
  · rw [List.count_cons_of_ne (Ne.symm hid), if_neg hid, Nat.add_zero]

theorem foldr_add_perm {l l' : List Nat} (h : l.Perm l') :
    l.foldr (· + ·) 0 = l'.foldr (· + ·) 0 := by
  induction h with
  | nil => rfl
  | cons x _ ih => exact congrArg (x + ·) ih
  | swap x y l => exact Nat.add_left_comm y x _
  | trans _ _ ih ih' => exact ih.trans ih'

theorem total_insert {sessions : SortedMap String Nat} (value : Nat)
    (h : sessions.get? sessionId = none) :
    total (sessions.insert sessionId value) = value + total sessions :=
  foldr_add_perm (values_insert_perm value h)

theorem total_erase {sessions : SortedMap String Nat} {value : Nat}
    (h : sessions.get? sessionId = some value) :
    total sessions = value + total (sessions.erase sessionId) :=
  foldr_add_perm (values_erase_perm h)

theorem insert_erase {V : Type} (m : SortedMap String V) (k : String) (v : V) :
    (m.erase k).insert k v = m.insert k v := by
  refine SortedMap.ext_get? fun k' => ?_
  rw [SortedMap.get?_insert, SortedMap.get?_insert, SortedMap.get?_erase]
  split <;> rfl

/-- A counter that is set counts for what it was before. -/
theorem total_set (sessions : SortedMap String Nat) (sessionId : String) (value : Nat) :
    total (sessions.insert sessionId value) + (sessions.get? sessionId).getD 0 =
      value + total sessions := by
  rcases hbefore : sessions.get? sessionId with _ | before
  · rw [total_insert value hbefore, Option.getD_none, Nat.add_zero]
  · have herased : (sessions.erase sessionId).get? sessionId = none := by
      rw [SortedMap.get?_erase, if_pos rfl]
    rw [← insert_erase, total_insert value herased, total_erase hbefore, Option.getD_some]
    omega

/-! ## Reserving -/

/-- A reservation fails where a limit is reached, and then changes nothing. -/
theorem reserve_cases (limits : ResourceLimits) (sessionId runId : String) (s : AdmissionState) :
    (s.pending ≥ limits.maxPendingRuns ∨
        s.sessionPending sessionId ≥ limits.maxPendingRunsPerSession) ∧
      s.reserve limits sessionId runId = (.error .runCapacityExceeded, s) ∨
    (s.pending < limits.maxPendingRuns ∧
        s.sessionPending sessionId < limits.maxPendingRunsPerSession) ∧
      s.reserve limits sessionId runId = (.ok (), {
        pending := s.pending + 1
        sessions := s.sessions.insert sessionId (s.sessionPending sessionId + 1)
        runSessions := s.runSessions.insert runId sessionId }) := by
  unfold reserve
  split
  · next hfull => exact .inl ⟨hfull, rfl⟩
  · next hfree => exact .inr ⟨by omega, rfl⟩

/-- A run that has no slot may take one. -/
theorem Consistent.reserve (h : s.Consistent limits) (hnew : s.runSessions.get? runId = none)
    (sessionId : String) : (s.reserve limits sessionId runId).2.Consistent limits := by
  rcases reserve_cases limits sessionId runId s with ⟨-, heq⟩ | ⟨⟨hpending, hsession⟩, heq⟩
  · rwa [heq]
  rw [heq]
  have hperm := values_insert_perm sessionId hnew
  have hset := total_set s.sessions sessionId (s.sessionPending sessionId + 1)
  have hget : ∀ id, AdmissionState.sessionPending { s with
      sessions := s.sessions.insert sessionId (s.sessionPending sessionId + 1) } id =
        s.sessionPending id + if id = sessionId then 1 else 0 := by
    intro id
    simp only [sessionPending, SortedMap.get?_insert]
    split
    · next hid => rw [hid, Option.getD_some]
    · rw [Nat.add_zero]
  constructor
  · rw [hperm.length_eq, List.length_cons, h.pending]
  · change _ + (s.sessionPending sessionId) = _ at hset
    have htotal := h.total
    dsimp only
    omega
  · intro id
    refine (hget id).trans ?_
    rw [count_values hperm, h.counts]
  · intro id
    dsimp only
    rw [SortedMap.get?_insert]
    split
    · simp
    · exact h.positive id
  · exact hpending
  · intro id
    refine (hget id).trans_le ?_
    split
    · next hid => exact hid ▸ hsession
    · exact h.sessionBounded id

/-! ## Releasing -/

theorem release_none (h : s.runSessions.get? runId = none) : s.release runId = s := by
  rw [release, h]

theorem get?_release (s : AdmissionState) (runId id : String) :
    (s.release runId).runSessions.get? id = if id = runId then none else s.runSessions.get? id := by
  rcases hrun : s.runSessions.get? runId with _ | sessionId
  · rw [release_none hrun]
    split
    · next h => rwa [h]
    · rfl
  · rw [release, hrun]
    exact SortedMap.get?_erase _ _ _

/-- Where a run has a slot its session has a counter, and neither that counter nor the number of
pending runs is zero. -/
theorem Consistent.held (h : s.Consistent limits) (hrun : s.runSessions.get? runId = some sessionId) :
    0 < s.pending ∧ ∃ value, s.sessions.get? sessionId = some value ∧ 0 < value := by
  have hperm := values_erase_perm hrun
  have hcount : 0 < s.sessionPending sessionId := by
    rw [h.counts, hperm.count_eq, List.count_cons_self]
    exact Nat.succ_pos _
  refine ⟨?_, ?_⟩
  · rw [h.pending, hperm.length_eq]
    exact Nat.succ_pos _
  · rw [sessionPending] at hcount
    rcases hvalue : s.sessions.get? sessionId with _ | value
    · rw [hvalue] at hcount
      cases hcount
    · rw [hvalue] at hcount
      exact ⟨value, rfl, hcount⟩

theorem leave_eq {sessions : SortedMap String Nat} {value : Nat}
    (h : sessions.get? sessionId = some value) : leave sessionId sessions =
      if value - 1 = 0 then sessions.erase sessionId else sessions.insert sessionId (value - 1) := by
  rw [leave, h]

/-- The counter of a session that gives a slot back. -/
theorem get?_leave {sessions : SortedMap String Nat} {value : Nat}
    (h : sessions.get? sessionId = some value) (id : String) :
    (leave sessionId sessions).get? id =
      if id = sessionId then if value - 1 = 0 then none else some (value - 1)
      else sessions.get? id := by
  rw [leave_eq h]
  split
  · exact SortedMap.get?_erase _ _ _
  · exact SortedMap.get?_insert _ _ _ _

theorem total_leave {sessions : SortedMap String Nat} {value : Nat}
    (h : sessions.get? sessionId = some value) (hpositive : 0 < value) :
    total (leave sessionId sessions) + 1 = total sessions := by
  have herase := total_erase h
  have hset := total_set sessions sessionId (value - 1)
  rw [h, Option.getD_some] at hset
  rw [leave_eq h]
  split
  · omega
  · omega

/-- A slot is given back. -/
theorem Consistent.release (h : s.Consistent limits) (runId : String) :
    (s.release runId).Consistent limits := by
  rcases hrun : s.runSessions.get? runId with _ | sessionId
  · rwa [release_none hrun]
  obtain ⟨hpending, value, hvalue, hpositive⟩ := h.held hrun
  have hperm := values_erase_perm hrun
  have hlength := h.pending
  have htotal := h.total
  have hleave := total_leave hvalue hpositive
  rw [hperm.length_eq, List.length_cons] at hlength
  have hget : ∀ id, ((leave sessionId s.sessions).get? id).getD 0 +
      (if id = sessionId then 1 else 0) = s.sessionPending id := by
    intro id
    rw [get?_leave hvalue, sessionPending]
    by_cases hid : id = sessionId
    · rw [if_pos hid, if_pos hid, hid, hvalue, Option.getD_some]
      split <;> simp <;> omega
    · rw [if_neg hid, if_neg hid, Nat.add_zero]
  rw [AdmissionState.release, hrun]
  constructor
  · dsimp only
    omega
  · dsimp only
    omega
  · intro id
    have hcount := h.counts id
    rw [count_values hperm, ← hget id] at hcount
    exact Nat.add_right_cancel hcount
  · intro id
    dsimp only
    rw [get?_leave hvalue]
    split
    · split <;> simp
      omega
    · exact h.positive id
  · have hbounded := h.bounded
    dsimp only
    omega
  · intro id
    have hbounded := h.sessionBounded id
    rw [← hget id] at hbounded
    exact (Nat.le_add_right _ _).trans hbounded

end AdmissionState

/-! ## Sequences of calls -/

inductive AdmissionCall where
  | reserve (sessionId runId : String)
  | release (runId : String)

namespace AdmissionCall

def perform (limits : ResourceLimits) (s : AdmissionState) : AdmissionCall → AdmissionState
  | .reserve sessionId runId => (s.reserve limits sessionId runId).2
  | .release runId => s.release runId

/-- The run of a reservation has no slot. -/
def Fits (s : AdmissionState) : AdmissionCall → Prop
  | .reserve _ runId => s.runSessions.get? runId = none
  | .release _ => True

instance (s : AdmissionState) : (call : AdmissionCall) → Decidable (call.Fits s)
  | .reserve _ runId => inferInstanceAs (Decidable (s.runSessions.get? runId = none))
  | .release _ => inferInstanceAs (Decidable True)

end AdmissionCall

theorem AdmissionState.Consistent.perform {limits : ResourceLimits} {s : AdmissionState}
    {call : AdmissionCall} (h : s.Consistent limits) (hfits : call.Fits s) :
    (call.perform limits s).Consistent limits := by
  cases call with
  | reserve sessionId runId => exact h.reserve hfits sessionId
  | release runId => exact h.release runId

/-- **The counters are consistent** after any sequence of calls that reserve for runs without a slot
and release any runs. A reservation then fails exactly when a limit is reached, and changes nothing;
and what a release subtracts from is positive. -/
theorem admission_consistent (limits : ResourceLimits) (calls : List AdmissionCall)
    (hfits : Schedule.Along (AdmissionCall.perform limits) (fun s call => call.Fits s) {} calls) :
    let s := Schedule.run (AdmissionCall.perform limits) {} calls
    s.Consistent limits ∧
    (∀ sessionId runId, ((s.reserve limits sessionId runId).1 ≠ .ok () ↔
        s.pending = limits.maxPendingRuns ∨
          s.sessionPending sessionId = limits.maxPendingRunsPerSession) ∧
      ((s.reserve limits sessionId runId).1 ≠ .ok () →
        s.reserve limits sessionId runId = (.error .runCapacityExceeded, s))) ∧
    ∀ runId sessionId, s.runSessions.get? runId = some sessionId →
      0 < s.pending ∧ ∃ value, s.sessions.get? sessionId = some value ∧ 0 < value := by
  intro s
  have hs : s.Consistent limits :=
    hfits.invariant (I := AdmissionState.Consistent limits) (fun h hfits => h.perform hfits)
      (AdmissionState.consistent_empty limits)
  refine ⟨hs, fun sessionId runId => ?_, fun runId sessionId => hs.held⟩
  have hbounded := hs.bounded
  have hsession := hs.sessionBounded sessionId
  rcases AdmissionState.reserve_cases limits sessionId runId s with ⟨hfull, heq⟩ | ⟨hfree, heq⟩
  · rw [heq]
    exact ⟨iff_of_true (by simp) (by omega), fun _ => rfl⟩
  · rw [heq]
    exact ⟨iff_of_false (fun h => h rfl) (by omega), fun h => absurd rfl h⟩

/-- A reservation that is refused, a slot given back twice, and one taken again. -/
def someCalls : List AdmissionCall :=
  [.reserve "s" "r", .reserve "s" "q", .release "r", .release "r", .reserve "t" "q"]

theorem admission_consistent_some :
    (Schedule.run (AdmissionCall.perform { maxPendingRunsPerSession := 1 }) {} someCalls).Consistent
      { maxPendingRunsPerSession := 1 } :=
  (admission_consistent { maxPendingRunsPerSession := 1 } someCalls (by decide +kernel)).1

end Piqo
