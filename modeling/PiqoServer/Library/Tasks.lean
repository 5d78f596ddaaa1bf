import PiqoServer.Library.Program
import PiqoServer.Library.Schedule
import Mathlib.Logic.Function.Basic
import Mathlib.Data.List.Basic

/-!
# Tasks that interleave

Any number of programs share a state and take turns, one operation at a time. An operation that
cannot be performed in a state makes its task wait there.

A discipline says what always holds of the shared state and what a task knows about it at each of
its stages. What a task knows has to survive the operations of the others; that is all the others
need to be known for.

## Main definitions

* `Tasks`, `Tasks.advance`: the programs over the shared state, and one operation of one of them
* `Discipline`: what holds of the state, what a task knows, and where it need not wait
* `Program.Secure`: a program keeps to a discipline from a stage on

## Main results

* `Program.Secure.bind`, `Program.Secure.attempt`, `Program.Secure.mono`,
  `Program.Secure.weaken`: the rules
* `Tasks.Secured.along`: tasks that keep to a discipline keep to it over every schedule
* `Tasks.Secured.finish`: from every state they can all be brought to their ends
-/

variable {S : Signature} {ε α β σ L : Type}

/-- Programs over a shared state. -/
structure Tasks (S : Signature) (ε α σ : Type) where
  state : σ
  programs : List (Program S ε α)

/-- What a task that performs an operation gets, and what it leaves; nothing where it waits. -/
abbrev TaskHandler (S : Signature) (σ : Type) := Nat → (op : S.Op) → σ → Option (S.Reply op × σ)

/-- One operation of task `i`. -/
def Tasks.advance (handle : TaskHandler S σ) (m : Tasks S ε α σ) (i : Nat) : Tasks S ε α σ :=
  match m.programs[i]? with
  | some (.call op k) => match handle i op m.state with
    | some (r, s) => { state := s, programs := m.programs.set i (k r) }
    | none => m
  | _ => m

/-- How a task has ended. -/
def Program.outcome? : Program S ε α → Option (Except ε α)
  | .ret a => some (.ok a)
  | .fail e => some (.error e)
  | .call _ _ => none

/-- What holds of the shared state, and what a task knows about it at a stage. -/
structure Discipline (S : Signature) (σ L : Type) where
  inv : σ → Prop
  knows : Nat → L → σ → Prop
  /-- The task need not wait. -/
  free : Nat → σ → Prop := fun _ _ => True
  /-- The condition under which a task performs an operation. -/
  admits : Nat → S.Op → σ → Prop := fun _ _ _ => True

/-- Task `i` leaves what the others know. -/
def Discipline.Frames (D : Discipline S σ L) (i : Nat) (s s' : σ) : Prop :=
  ∀ j ≠ i, ∀ l, D.knows j l s → D.knows j l s'

namespace Program

variable (handle : TaskHandler S σ) (D : Discipline S σ L)

/-- From the stage `l` on, task `i` keeps to the discipline, and ends at a stage and with an
outcome that satisfy `Q`. -/
def Secure (i : Nat) (Q : L → Except ε α → Prop) : L → Program S ε α → Prop
  | l, ret x => Q l (.ok x)
  | l, fail e => Q l (.error e)
  | l, call op k => ∀ s, D.inv s → D.knows i l s → D.admits i op s →
    (D.free i s → ∃ r s', handle i op s = some (r, s')) ∧
      ∀ r s', handle i op s = some (r, s') → ∃ l', D.inv s' ∧ D.knows i l' s' ∧
        (D.free i s → D.free i s') ∧ D.Frames i s s' ∧ Secure i Q l' (k r)

variable {handle D} {i : Nat}

theorem Secure.mono {Q R : L → Except ε α → Prop} {l : L} {p : Program S ε α}
    (h : p.Secure handle D i Q l) (hQR : ∀ l x, Q l x → R l x) : p.Secure handle D i R l := by
  induction p generalizing l with
  | ret x => exact hQR _ _ h
  | fail e => exact hQR _ _ h
  | call op k ih =>
    intro s hs hknows hadmits
    obtain ⟨hfree, hnext⟩ := h s hs hknows hadmits
    refine ⟨hfree, fun r s' hr => ?_⟩
    obtain ⟨l', hs', hknows', hfree', hframes, hrest⟩ := hnext r s' hr
    exact ⟨l', hs', hknows', hfree', hframes, ih r hrest⟩

theorem Secure.bind {Q : L → Except ε α → Prop} {R : L → Except ε β → Prop} {l : L}
    {p : Program S ε α} {f : α → Program S ε β} (h : p.Secure handle D i Q l)
    (hok : ∀ l x, Q l (.ok x) → (f x).Secure handle D i R l)
    (herror : ∀ l e, Q l (.error e) → R l (.error e)) : (p >>= f).Secure handle D i R l := by
  induction p generalizing l with
  | ret x => exact hok _ _ h
  | fail e => exact herror _ _ h
  | call op k ih =>
    intro s hs hknows hadmits
    obtain ⟨hfree, hnext⟩ := h s hs hknows hadmits
    refine ⟨hfree, fun r s' hr => ?_⟩
    obtain ⟨l', hs', hknows', hfree', hframes, hrest⟩ := hnext r s' hr
    exact ⟨l', hs', hknows', hfree', hframes, ih r hrest⟩

/-- A task may forget what it knows. -/
theorem Secure.weaken {Q : L → Except ε α → Prop} {l l' : L} {p : Program S ε α}
    (h : p.Secure handle D i Q l') (hknows : ∀ s, D.knows i l s → D.knows i l' s)
    (hQ : ∀ x, Q l' x → Q l x) : p.Secure handle D i Q l := by
  cases p with
  | ret x => exact hQ _ h
  | fail e => exact hQ _ h
  | call op k => exact fun s hs hl hadmits => h s hs (hknows s hl) hadmits

theorem Secure.attempt {Q : L → Except ε (Except ε α) → Prop} {l : L} {p : Program S ε α}
    (h : p.Secure handle D i (fun l x => Q l (.ok x)) l) : p.attempt.Secure handle D i Q l := by
  induction p generalizing l with
  | ret x => exact h
  | fail e => exact h
  | call op k ih =>
    intro s hs hknows hadmits
    obtain ⟨hfree, hnext⟩ := h s hs hknows hadmits
    refine ⟨hfree, fun r s' hr => ?_⟩
    obtain ⟨l', hs', hknows', hfree', hframes, hrest⟩ := hnext r s' hr
    exact ⟨l', hs', hknows', hfree', hframes, ih r hrest⟩

end Program

namespace Tasks

variable {handle : TaskHandler S σ} {D : Discipline S σ L} {Q : Nat → L → Except ε α → Prop}
  {m : Tasks S ε α σ}

/-- Every task is at a stage from which it keeps to the discipline. -/
def Secured (handle : TaskHandler S σ) (D : Discipline S σ L) (Q : Nat → L → Except ε α → Prop)
    (m : Tasks S ε α σ) (stage : Nat → L) : Prop :=
  D.inv m.state ∧ ∀ i p, m.programs[i]? = some p →
    D.knows i (stage i) m.state ∧ p.Secure handle D i (Q i) (stage i)

/-- The next operation of a task is admitted. -/
def Admitted (D : Discipline S σ L) (m : Tasks S ε α σ) (i : Nat) : Prop :=
  ∀ op k, m.programs[i]? = some (.call op k) → D.admits i op m.state

theorem length_advance (m : Tasks S ε α σ) (i : Nat) :
    (m.advance handle i).programs.length = m.programs.length := by
  unfold Tasks.advance
  split
  · split <;> simp
  · rfl

theorem length_run (m : Tasks S ε α σ) (schedule : List Nat) :
    (Schedule.run (Tasks.advance handle) m schedule).programs.length = m.programs.length := by
  induction schedule generalizing m with
  | nil => rfl
  | cons i schedule ih => exact (ih _).trans (length_advance m i)

theorem advance_performed {i : Nat} {op : S.Op} {k : S.Reply op → Program S ε α}
    {r : S.Reply op} {s : σ} (hp : m.programs[i]? = some (.call op k))
    (hr : handle i op m.state = some (r, s)) :
    m.advance handle i = { state := s, programs := m.programs.set i (k r) } := by
  rw [advance, hp]
  dsimp only
  rw [hr]

/-- An operation that is performed keeps the tasks secured. -/
theorem Secured.perform {stage : Nat → L} (h : m.Secured handle D Q stage) {i : Nat} {op : S.Op}
    {k : S.Reply op → Program S ε α} {r : S.Reply op} {s : σ}
    (hp : m.programs[i]? = some (.call op k)) (hadmits : D.admits i op m.state)
    (hr : handle i op m.state = some (r, s)) :
    ∃ stage', (m.advance handle i).Secured handle D Q stage' ∧
      (D.free i m.state → D.free i s) := by
  obtain ⟨hinv, htasks⟩ := h
  obtain ⟨hknows, hsecure⟩ := htasks i _ hp
  obtain ⟨l', hinv', hknows', hfree, hframes, hrest⟩ := (hsecure m.state hinv hknows hadmits).2 r s hr
  rw [advance_performed hp hr]
  refine ⟨Function.update stage i l', ⟨hinv', fun j p hj => ?_⟩, hfree⟩
  by_cases hij : j = i
  · subst hij
    obtain ⟨hlt, -⟩ := List.getElem?_eq_some_iff.mp hp
    rw [List.getElem?_set_self hlt] at hj
    cases hj
    rw [Function.update_self]
    exact ⟨hknows', hrest⟩
  · rw [List.getElem?_set_ne (Ne.symm hij)] at hj
    obtain ⟨hknowsj, hsecurej⟩ := htasks j p hj
    rw [Function.update_of_ne hij]
    exact ⟨hframes j hij _ hknowsj, hsecurej⟩

theorem Secured.advance {stage : Nat → L} (h : m.Secured handle D Q stage) {i : Nat}
    (hadmitted : m.Admitted D i) : ∃ stage', (m.advance handle i).Secured handle D Q stage' := by
  -- a task that has ended, or waits, stays where it is
  rcases hp : m.programs[i]? with _ | p
  · exact ⟨stage, by rwa [Tasks.advance, hp]⟩
  cases p with
  | ret x => exact ⟨stage, by rwa [Tasks.advance, hp]⟩
  | fail e => exact ⟨stage, by rwa [Tasks.advance, hp]⟩
  | call op k =>
    rcases hr : handle i op m.state with _ | ⟨r, s⟩
    · refine ⟨stage, ?_⟩
      rw [Tasks.advance, hp]
      dsimp only
      rwa [hr]
    · obtain ⟨stage', hsecured, -⟩ := h.perform hp (hadmitted op k hp) hr
      exact ⟨stage', hsecured⟩

/-- **Tasks that keep to a discipline** keep to it over every schedule whose operations are
admitted. -/
theorem Secured.along {stage : Nat → L} (h : m.Secured handle D Q stage) {schedule : List Nat}
    (hadmitted : Schedule.Along (Tasks.advance handle) (Admitted D) m schedule) :
    ∃ stage', (Schedule.run (Tasks.advance handle) m schedule).Secured handle D Q stage' :=
  Schedule.Along.invariant (I := fun m => ∃ stage, m.Secured handle D Q stage)
    (fun ⟨_, h⟩ hadmitted => h.advance hadmitted) ⟨stage, h⟩ hadmitted

/-! ## Coming to an end -/

/-- The task has ended. -/
def Ended (m : Tasks S ε α σ) (i : Nat) : Prop := ∀ op k, m.programs[i]? ≠ some (.call op k)

theorem ended_iff_outcome {i : Nat} {p : Program S ε α} (hp : m.programs[i]? = some p) :
    m.Ended i ↔ p.outcome?.isSome := by
  rw [Ended, hp]
  cases p <;> simp [Program.outcome?]

theorem ended_iff_all :
    (∀ i, m.Ended i) ↔ m.programs.all (fun p => p.outcome?.isSome) = true := by
  rw [List.all_eq_true]
  constructor
  · intro h p hp
    obtain ⟨i, hi⟩ := List.mem_iff_getElem?.mp hp
    exact (ended_iff_outcome hi).mp (h i)
  · intro h i op k hi
    have hsome := h _ (List.mem_of_getElem? hi)
    cases hsome

/-- A task that has ended is at a stage, and has an outcome, as it should. -/
theorem Secured.outcome {stage : Nat → L} (h : m.Secured handle D Q stage) {i : Nat}
    {p : Program S ε α} {x : Except ε α} (hp : m.programs[i]? = some p) (hx : p.outcome? = some x) :
    D.knows i (stage i) m.state ∧ Q i (stage i) x := by
  obtain ⟨hknows, hsecure⟩ := h.2 i p hp
  refine ⟨hknows, ?_⟩
  cases p with
  | ret a =>
    cases hx
    exact hsecure
  | fail e =>
    cases hx
    exact hsecure
  | call op k => cases hx

theorem Ended.advance_of_ne {i j : Nat} (h : m.Ended j) (hij : j ≠ i) :
    (m.advance handle i).Ended j := by
  unfold Tasks.advance
  split
  · split
    · intro op k
      rw [List.getElem?_set_ne (Ne.symm hij)]
      exact h op k
    · exact h
  · exact h

/-- A task that need not wait can be brought to its end alone. -/
theorem Secured.finish_one {stage : Nat → L} (hadmits : ∀ i op s, D.admits i op s) {i : Nat}
    {p : Program S ε α} (h : m.Secured handle D Q stage) (hp : m.programs[i]? = some p)
    (hfree : D.free i m.state) :
    ∃ n stage', let m' := Schedule.run (Tasks.advance handle) m (List.replicate n i)
      m'.Secured handle D Q stage' ∧ m'.Ended i ∧ ∀ j ≠ i, m.Ended j → m'.Ended j := by
  induction p generalizing m stage with
  | ret x => exact ⟨0, stage, h, fun op k => by simp [Schedule.run, hp], fun j _ hj => hj⟩
  | fail e => exact ⟨0, stage, h, fun op k => by simp [Schedule.run, hp], fun j _ hj => hj⟩
  | call op k ih =>
    obtain ⟨hknows, hsecure⟩ := h.2 i _ hp
    obtain ⟨r, s, hr⟩ := (hsecure m.state h.1 hknows (hadmits i op _)).1 hfree
    obtain ⟨stage₁, h₁, hfree₁⟩ := h.perform hp (hadmits i op _) hr
    have hstate : (m.advance handle i).state = s := by rw [advance_performed hp hr]
    have hprogram : (m.advance handle i).programs[i]? = some (k r) := by
      rw [advance_performed hp hr]
      exact List.getElem?_set_self (List.getElem?_eq_some_iff.mp hp).1
    obtain ⟨n, stage', hsecured, hended, hothers⟩ :=
      ih r h₁ hprogram (hstate.symm ▸ hfree₁ hfree)
    exact ⟨n + 1, stage', hsecured, hended, fun j hj hj' => hothers j hj (hj'.advance_of_ne hj)⟩

theorem ended_or_call (m : Tasks S ε α σ) (i : Nat) :
    m.Ended i ∨ ∃ op k, m.programs[i]? = some (.call op k) := by
  by_cases h : ∃ op k, m.programs[i]? = some (.call op k)
  · exact .inr h
  · exact .inl fun op k hop => h ⟨op, k, hop⟩

section Finish

variable {count : Nat} (hadmits : ∀ i op s, D.admits i op s)
  (hfree : ∀ (m : Tasks S ε α σ) stage, m.programs.length = count → m.Secured handle D Q stage →
    ∀ i, ¬ m.Ended i → ∃ i, ¬ m.Ended i ∧ D.free i m.state)

include hadmits hfree

/-- One more task is finished, and leaves the list of those that may not have ended. -/
theorem Secured.finish_waiting (n : Nat) (waiting : List Nat) (hlength : waiting.length = n)
    {m : Tasks S ε α σ} {stage : Nat → L} (hcount : m.programs.length = count)
    (h : m.Secured handle D Q stage) (hwaiting : ∀ i, ¬ m.Ended i → i ∈ waiting) :
    ∃ schedule, ∀ i, (Schedule.run (Tasks.advance handle) m schedule).Ended i := by
  induction n generalizing waiting m stage with
  | zero =>
    obtain rfl := List.length_eq_zero_iff.mp hlength
    exact ⟨[], fun i => by_contra fun hi => absurd (hwaiting i hi) List.not_mem_nil⟩
  | succ n ih =>
    by_cases hall : ∀ i, m.Ended i
    · exact ⟨[], hall⟩
    obtain ⟨j, hj⟩ := not_forall.mp hall
    obtain ⟨i, hi, hfreei⟩ := hfree m stage hcount h j hj
    obtain ⟨op, k, hp⟩ := (m.ended_or_call i).resolve_left hi
    obtain ⟨turns, stage', h', hended, hothers⟩ := h.finish_one hadmits hp hfreei
    have hlength' : (waiting.erase i).length = n := by
      rw [List.length_erase_of_mem (hwaiting i hi), hlength]
      rfl
    have hwaiting' : ∀ j, ¬ (Schedule.run (Tasks.advance handle) m
        (List.replicate turns i)).Ended j → j ∈ waiting.erase i := by
      intro j hj
      have hne : j ≠ i := fun hji => hj (hji ▸ hended)
      exact (List.mem_erase_of_ne hne).mpr (hwaiting j fun hj' => hj (hothers j hne hj'))
    obtain ⟨schedule, hschedule⟩ := ih (waiting.erase i) hlength'
      ((length_run m _).trans hcount) h' hwaiting'
    refine ⟨List.replicate turns i ++ schedule, ?_⟩
    rwa [Schedule.run_append]

/-- Tasks of which one that has not ended need not wait can all be brought to their ends. -/
theorem Secured.finish {stage : Nat → L} (hcount : m.programs.length = count)
    (h : m.Secured handle D Q stage) :
    ∃ schedule, ∀ i, (Schedule.run (Tasks.advance handle) m schedule).Ended i := by
  refine h.finish_waiting hadmits hfree _ (List.range m.programs.length) rfl hcount fun i hi => ?_
  obtain ⟨op, k, hp⟩ := (m.ended_or_call i).resolve_left hi
  exact List.mem_range.mpr (List.getElem?_eq_some_iff.mp hp).1

end Finish

end Tasks
