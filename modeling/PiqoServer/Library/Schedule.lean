import Mathlib.Init

/-!
# Schedules

A machine takes one step per action of a schedule. A condition on the steps is a relation between
a state and the action taken in it.

## Main definitions

* `Schedule.run`: the state after a schedule
* `Schedule.Along`: every action meets a condition in the state it is taken in

## Main results

* `Schedule.Along.invariant`: what every step keeps that meets the condition holds at the end
* `Schedule.Along.of_unseen`: the converse, where missing the condition can be seen afterwards
-/

namespace Schedule

variable {σ α : Type} (step : σ → α → σ)

/-- The state after a schedule. -/
def run : σ → List α → σ
  | s, [] => s
  | s, a :: actions => run (step s a) actions

/-- Every action of the schedule meets the condition in the state it is taken in. -/
def Along (C : σ → α → Prop) : σ → List α → Prop
  | _, [] => True
  | s, a :: actions => C s a ∧ Along C (step s a) actions

variable {step}

theorem run_append (s : σ) (actions more : List α) :
    run step s (actions ++ more) = run step (run step s actions) more := by
  induction actions generalizing s with
  | nil => rfl
  | cons a actions ih => exact ih (step s a)

/-- An invariant of the steps that meet the condition holds after the schedule. -/
theorem Along.invariant {C : σ → α → Prop} {I : σ → Prop}
    (hstep : ∀ {s a}, I s → C s a → I (step s a)) {s : σ} {actions : List α} (hs : I s)
    (h : Along step C s actions) : I (run step s actions) := by
  induction actions generalizing s with
  | nil => exact hs
  | cons a actions ih => exact ih (hstep hs h.1) h.2

theorem Along.of_forall {C : σ → α → Prop} (h : ∀ s a, C s a) {s : σ} {actions : List α} :
    Along step C s actions := by
  induction actions generalizing s with
  | nil => trivial
  | cons a actions ih => exact ⟨h s a, ih⟩

theorem Along.mono {C D : σ → α → Prop} {s : σ} {actions : List α} (h : Along step C s actions)
    (hCD : ∀ {s a}, C s a → D s a) : Along step D s actions := by
  induction actions generalizing s with
  | nil => trivial
  | cons a actions ih => exact ⟨hCD h.1, ih h.2⟩

theorem run_take_succ (s : σ) (actions : List α) (n : Nat) :
    run step s (actions.take (n + 1)) = match actions[n]? with
      | some a => step (run step s (actions.take n)) a
      | none => run step s (actions.take n) := by
  rw [List.take_add_one, run_append]
  cases actions[n]? <;> rfl

theorem Along.take {C : σ → α → Prop} {s : σ} {actions : List α} (h : Along step C s actions)
    (n : Nat) : Along step C s (actions.take n) := by
  induction actions generalizing s n with
  | nil => rw [List.take_nil]; trivial
  | cons a actions ih => cases n with
    | zero => trivial
    | succ n => exact ⟨h.1, ih h.2 n⟩

/-- Where a step that misses the condition is seen in the state it leads to, a schedule in which
nothing is seen meets the condition. -/
theorem Along.of_unseen {C : σ → α → Prop} {I V : σ → Prop}
    (hstep : ∀ {s a}, I s → C s a → I (step s a))
    (hmiss : ∀ {s a}, I s → ¬ C s a → V (step s a)) {s : σ} {actions : List α} (hs : I s)
    (h : ∀ n, ¬ V (run step s (actions.take n))) : Along step C s actions := by
  induction actions generalizing s with
  | nil => trivial
  | cons a actions ih =>
    have hc : C s a := Classical.byContradiction fun hnot => h 1 (hmiss hs hnot)
    exact ⟨hc, ih (hstep hs hc) fun n => h (n + 1)⟩

instance Along.decidable {C : σ → α → Prop} [∀ s a, Decidable (C s a)] :
    (s : σ) → (actions : List α) → Decidable (Along step C s actions)
  | _, [] => inferInstanceAs (Decidable True)
  | s, a :: actions =>
    have : Decidable (Along step C (step s a) actions) := Along.decidable (step s a) actions
    inferInstanceAs (Decidable (C s a ∧ Along step C (step s a) actions))

end Schedule
