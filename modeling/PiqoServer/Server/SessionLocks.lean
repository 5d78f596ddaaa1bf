import PiqoServer.Library.LockTable

/-!
# Session locks

A session is worked on under a lock of its own (`piqo-server/src/supervisor.rs`). Three calls take
it: `process_session` around its loop, `submit_tool_result` around the recording of a result, and
`wait_for_session_idle` around nothing at all. Each clones the lock out of the table `locks`,
waits for it, gives it up and ends with `release_session_lock`, which removes the entry when the
strong count is 2, the table's reference and its own. The reference is dropped when the call
returns. A worker can be aborted and a request can be dropped at any await point.

A call that runs inside another one, as `process_session` of a parent does inside that of a child,
is a call of its own here.

## Main definitions

* `LockUse`, `SessionCall`: the calls that take the lock of a session
* `SessionLocks`, `SessionLocks.run`: the table and the calls over any schedule

## Main results

* `sessionLocks_exclusive`: at most one call is inside its critical section of a session, and
  every call that waits for the lock or holds it refers to the one in the table
-/

namespace Piqo

/-- The calls that take the lock of a session. -/
inductive LockUse where
  | processSession
  | submitToolResult
  | waitForSessionIdle
  deriving DecidableEq, Repr

structure SessionCall where
  use : LockUse
  sessionId : String
  deriving DecidableEq, Repr

/-- The table of locks with the calls on it. -/
abbrev SessionLocks := LockTable String

namespace SessionLocks

/-- The table over any schedule of some calls. -/
def run (calls : List SessionCall) (schedule : List LockAction) : SessionLocks :=
  (LockTable.start (calls.map (·.sessionId))).run schedule

/-- The stage of call `i`. -/
def stage? (locks : SessionLocks) (i : Nat) : Option LockStage := (locks.users[i]?).map (·.2)

end SessionLocks

theorem SessionLocks.run_sessionIds (calls : List SessionCall) (schedule : List LockAction) :
    (run calls schedule).users.map Prod.fst = calls.map (·.sessionId) := by
  refine (LockTable.run_keys _ schedule).trans ?_
  simp [LockTable.start]

/-- The user of a call is filed under the session of the call. -/
theorem SessionLocks.user_eq {calls : List SessionCall} {schedule : List LockAction} {i : Nat}
    {call : SessionCall} {s : LockStage} (hcall : calls[i]? = some call)
    (hstage : (run calls schedule).stage? i = some s) :
    (run calls schedule).users[i]? = some (call.sessionId, s) := by
  obtain ⟨⟨key, s'⟩, huser, rfl⟩ := Option.map_eq_some_iff.mp hstage
  have hkey := congrArg (·[i]?) (run_sessionIds calls schedule)
  rw [List.getElem?_map, List.getElem?_map, huser, hcall] at hkey
  cases hkey
  exact huser

/-- **Session locks exclude each other although they are evicted.** Over any schedule of any calls,
at most one call is inside its critical section of a session at any time, and the lock that a call
waits for or holds is the one the table holds for its session. -/
theorem sessionLocks_exclusive (calls : List SessionCall) (schedule : List LockAction) :
    let locks := SessionLocks.run calls schedule
    (∀ i j call call' l l', calls[i]? = some call → calls[j]? = some call' →
      call.sessionId = call'.sessionId → locks.stage? i = some (.inside l) →
        locks.stage? j = some (.inside l') → i = j) ∧
    ∀ i call s l, calls[i]? = some call → locks.stage? i = some s →
      s = .waiting l ∨ s = .inside l → locks.entries.get? call.sessionId = some l := by
  have hcounted := (LockTable.Counted.start (calls.map (·.sessionId))).run schedule
  constructor
  · intro i j call call' l l' hcall hcall' hsame hi hj
    have hui := SessionLocks.user_eq hcall hi
    have huj := SessionLocks.user_eq hcall' hj
    rw [← hsame] at huj
    exact hcounted.inside_unique hui huj
  · intro i call s l hcall hstage hneeds
    have hu := SessionLocks.user_eq hcall hstage
    refine hcounted.current hu ?_
    rcases hneeds with rfl | rfl <;> rfl

/-- The lock handed over: the second worker has taken it after the first one gave it up, and a
tool result still waits for it. -/
def handover : List LockAction :=
  [.fetch 0, .acquire 0, .fetch 1, .fetch 2, .unlock 0, .release 0, .acquire 1]

def handoverCalls : List SessionCall :=
  [⟨.processSession, "s"⟩, ⟨.processSession, "s"⟩, ⟨.submitToolResult, "s"⟩]

theorem sessionLocks_exclusive_handover :
    (SessionLocks.run handoverCalls handover).stage? 1 = some (.inside 0) ∧
    (SessionLocks.run handoverCalls handover).stage? 2 = some (.waiting 0) ∧
    (SessionLocks.run handoverCalls handover).entries.get? "s" = some 0 ∧
    ∀ l, (SessionLocks.run handoverCalls handover).stage? 0 ≠ some (.inside l) := by
  obtain ⟨hunique, hcurrent⟩ := sessionLocks_exclusive handoverCalls handover
  have hinside : (SessionLocks.run handoverCalls handover).stage? 1 = some (.inside 0) := by
    decide +kernel
  have hwaiting : (SessionLocks.run handoverCalls handover).stage? 2 = some (.waiting 0) := by
    decide +kernel
  refine ⟨hinside, hwaiting, ?_, ?_⟩
  · exact hcurrent 2 ⟨.submitToolResult, "s"⟩ _ 0 rfl hwaiting (.inl rfl)
  · intro l hother
    exact absurd (hunique 1 0 _ _ _ _ rfl rfl rfl hinside hother) (by decide)

/-- Two calls that find the table empty get the same lock, and the second one waits. -/
example : (SessionLocks.run [⟨.processSession, "s"⟩, ⟨.submitToolResult, "s"⟩]
    [.fetch 0, .fetch 1, .acquire 0, .acquire 1]).users =
      [("s", .inside 0), ("s", .waiting 0)] := rfl

/-- A call that comes after the eviction gets a new lock. -/
example : (SessionLocks.run [⟨.processSession, "s"⟩, ⟨.waitForSessionIdle, "s"⟩]
    [.fetch 0, .acquire 0, .unlock 0, .release 0, .fetch 1, .acquire 1]).users =
      [("s", .left 0), ("s", .inside 1)] := rfl

end Piqo
