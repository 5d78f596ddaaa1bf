import PiqoServer.Library.Outcome

/-!
# Programs over a signature of operations

A program either ends, or calls an operation and continues with the reply. The operations are
not interpreted: one program can be run alone against a handler, cut after any of its operations,
or interleaved with other programs one operation at a time.

## Main definitions

* `Signature`: operations with the type of their replies
* `Program S ε α`: programs that return an `α` or fail with an `ε`
* `Program.run`: a run against a handler
* `Program.cuts`: the states right after each counted operation of a run
* `Program.calls`: the operations of a run, each with the state it is called in
* `Program.Follows`: on every path the operations respect a protocol with a ghost state
* `Program.Obeys`: what holds at every operation of a run, and at its end
* `Program.track`: the ghost state at the end of a run
* `Program.Only`: on every path the operations are allowed ones
* `Program.AbortsOn`: an operation that fails ends the program

## Main results

* `run_bind`, `run_attempt`: runs of composites
* `run_preserves`: an invariant of every operation is one of every run
* `Follows.bind`, `Follows.attempt`, `Follows.mono`, `Follows.map`: the rules of protocols
* `Follows.run`, `Follows.run_along`, `Follows.run_noting`, `Follows.track`: what a protocol says
  about runs
* `Obeys.bind`, `Obeys.attempt`, `Obeys.mono`: the rules of runs
* `run_congr`: the run depends on the replies to its own operations only
* `AbortsOn.run`: a run with an operation that fails fails
-/

/-- Operations, each with the type of its reply. -/
structure Signature where
  Op : Type
  Reply : Op → Type

/-- A program that calls operations of `S`, and returns an `α` or fails with an `ε`. -/
inductive Program (S : Signature) (ε α : Type) where
  | ret (a : α)
  | fail (e : ε)
  | call (op : S.Op) (k : S.Reply op → Program S ε α)

namespace Program

variable {S : Signature} {ε α β γ : Type}

def bind : Program S ε α → (α → Program S ε β) → Program S ε β
  | ret a, f => f a
  | fail e, _ => fail e
  | call op k, f => call op fun r => (k r).bind f

instance : Monad (Program S ε) where
  pure := ret
  bind := bind

@[simp] theorem pure_eq (a : α) : (pure a : Program S ε α) = ret a := rfl

@[simp] theorem ret_bind (a : α) (f : α → Program S ε β) : ret a >>= f = f a := rfl

@[simp] theorem fail_bind (e : ε) (f : α → Program S ε β) : fail e >>= f = fail e := rfl

@[simp] theorem call_bind (op : S.Op) (k : S.Reply op → Program S ε α) (f : α → Program S ε β) :
    call op k >>= f = call op fun r => k r >>= f := rfl

theorem bind_ret (p : Program S ε α) : p >>= ret = p := by
  induction p with
  | ret a => rfl
  | fail e => rfl
  | call op k ih => exact congrArg (call op) (funext ih)

theorem bind_assoc (p : Program S ε α) (f : α → Program S ε β) (g : β → Program S ε γ) :
    p >>= f >>= g = p >>= fun a => f a >>= g := by
  induction p with
  | ret a => rfl
  | fail e => rfl
  | call op k ih => exact congrArg (call op) (funext ih)

/-- The reply of an operation. -/
def perform (op : S.Op) : Program S ε (S.Reply op) := call op ret

/-- A fallible value as a program. -/
def ofExcept : Except ε α → Program S ε α
  | .ok a => ret a
  | .error e => fail e

/-- The outcome of a program as a value. -/
def attempt : Program S ε α → Program S ε (Except ε α)
  | ret a => ret (.ok a)
  | fail e => ret (.error e)
  | call op k => call op fun r => (k r).attempt

/-- A program whose errors are handled. -/
def recover {ε' : Type} (f : ε → Except ε' α) : Program S ε α → Program S ε' α
  | ret a => ret a
  | fail e => ofExcept (f e)
  | call op k => call op fun r => (k r).recover f

@[simp] theorem ofExcept_ok (a : α) : (ofExcept (.ok a) : Program S ε α) = ret a := rfl

@[simp] theorem ofExcept_error (e : ε) : (ofExcept (.error e) : Program S ε α) = fail e := rfl

/-! ## Runs -/

section Run

variable {σ : Type} (handle : (op : S.Op) → σ → S.Reply op × σ)

/-- The outcome of a program and the state it leaves. -/
def run : Program S ε α → σ → Except ε α × σ
  | ret a, s => (.ok a, s)
  | fail e, s => (.error e, s)
  | call op k, s => (k (handle op s).1).run (handle op s).2

/-- The states of a run right after each operation that `counts`. -/
def cuts (counts : S.Op → Bool) : Program S ε α → σ → List σ
  | ret _, _ => []
  | fail _, _ => []
  | call op k, s =>
    let s' := (handle op s).2
    let rest := (k (handle op s).1).cuts counts s'
    if counts op then s' :: rest else rest

/-- The operations of a run, each with the state it is called in. -/
def calls : Program S ε α → σ → List (σ × S.Op)
  | ret _, _ => []
  | fail _, _ => []
  | call op k, s => (s, op) :: (k (handle op s).1).calls (handle op s).2

@[simp] theorem run_ret (a : α) (s : σ) : (ret a : Program S ε α).run handle s = (.ok a, s) := rfl

@[simp] theorem run_fail (e : ε) (s : σ) :
    (fail e : Program S ε α).run handle s = (.error e, s) := rfl

@[simp] theorem run_call (op : S.Op) (k : S.Reply op → Program S ε α) (s : σ) :
    (call op k).run handle s = (k (handle op s).1).run handle (handle op s).2 := rfl

@[simp] theorem run_perform (op : S.Op) (s : σ) :
    (perform op : Program S ε _).run handle s = (.ok (handle op s).1, (handle op s).2) := rfl

@[simp] theorem run_ofExcept (x : Except ε α) (s : σ) :
    (ofExcept x : Program S ε α).run handle s = (x, s) := by
  cases x <;> rfl

theorem run_bind (p : Program S ε α) (f : α → Program S ε β) (s : σ) :
    (p >>= f).run handle s = match p.run handle s with
      | (.ok a, s') => (f a).run handle s'
      | (.error e, s') => (.error e, s') := by
  induction p generalizing s with
  | ret a => rfl
  | fail e => rfl
  | call op k ih => exact ih _ _

theorem run_bind_ok {p : Program S ε α} {f : α → Program S ε β} {s s' : σ} {a : α}
    (h : p.run handle s = (.ok a, s')) : (p >>= f).run handle s = (f a).run handle s' := by
  rw [run_bind, h]

theorem run_bind_error {p : Program S ε α} {f : α → Program S ε β} {s s' : σ} {e : ε}
    (h : p.run handle s = (.error e, s')) : (p >>= f).run handle s = (.error e, s') := by
  rw [run_bind, h]

theorem run_bind_eq_ok {p : Program S ε α} {f : α → Program S ε β} {s s' : σ} {b : β} :
    (p >>= f).run handle s = (.ok b, s') ↔
      ∃ a s₁, p.run handle s = (.ok a, s₁) ∧ (f a).run handle s₁ = (.ok b, s') := by
  rw [run_bind]
  rcases p.run handle s with ⟨e | a, s₁⟩
  · simp
  · refine ⟨fun h => ⟨a, s₁, rfl, h⟩, ?_⟩
    rintro ⟨_, _, heq, h⟩
    cases heq
    exact h

theorem run_attempt (p : Program S ε α) (s : σ) :
    p.attempt.run handle s = (.ok (p.run handle s).1, (p.run handle s).2) := by
  induction p generalizing s with
  | ret a => rfl
  | fail e => rfl
  | call op k ih => exact ih _ _

theorem cuts_bind (counts : S.Op → Bool) (p : Program S ε α) (f : α → Program S ε β) (s : σ) :
    (p >>= f).cuts handle counts s = p.cuts handle counts s ++
      match p.run handle s with
      | (.ok a, s') => (f a).cuts handle counts s'
      | (.error _, _) => [] := by
  induction p generalizing s with
  | ret a => rfl
  | fail e => rfl
  | call op k ih =>
    have hrest := ih (handle op s).1 (handle op s).2
    rw [call_bind]
    simp only [cuts, run_call, hrest]
    split
    · rfl
    · rfl

theorem mem_cuts_bind_left {counts : S.Op → Bool} {p : Program S ε α} (f : α → Program S ε β)
    {s c : σ} (h : c ∈ p.cuts handle counts s) : c ∈ (p >>= f).cuts handle counts s := by
  rw [cuts_bind, List.mem_append]
  exact .inl h

theorem mem_cuts_bind_right {counts : S.Op → Bool} {p : Program S ε α} {f : α → Program S ε β}
    {s s' c : σ} {a : α} (hp : p.run handle s = (.ok a, s')) (h : c ∈ (f a).cuts handle counts s') :
    c ∈ (p >>= f).cuts handle counts s := by
  rw [cuts_bind, hp, List.mem_append]
  exact .inr h

theorem calls_bind (p : Program S ε α) (f : α → Program S ε β) (s : σ) :
    (p >>= f).calls handle s = p.calls handle s ++
      match p.run handle s with
      | (.ok a, s') => (f a).calls handle s'
      | (.error _, _) => [] := by
  induction p generalizing s with
  | ret a => rfl
  | fail e => rfl
  | call op k ih =>
    rw [call_bind, calls, calls, run_call, ih, List.cons_append]

theorem calls_attempt (p : Program S ε α) (s : σ) :
    p.attempt.calls handle s = p.calls handle s := by
  induction p generalizing s with
  | ret a => rfl
  | fail e => rfl
  | call op k ih => exact congrArg (List.cons _) (ih _ _)

/-- What every operation preserves, every run preserves. -/
theorem run_preserves {I : σ → Prop} (hI : ∀ op s, I s → I (handle op s).2) (p : Program S ε α)
    {s : σ} (hs : I s) : I (p.run handle s).2 := by
  induction p generalizing s with
  | ret a => exact hs
  | fail e => exact hs
  | call op k ih => exact ih _ (hI op s hs)

/-- Handlers that agree at every operation of a run run the program alike. -/
theorem run_congr {handle' : (op : S.Op) → σ → S.Reply op × σ} {p : Program S ε α} {s : σ}
    (h : ∀ c ∈ p.calls handle s, handle' c.2 c.1 = handle c.2 c.1) :
    p.run handle' s = p.run handle s := by
  induction p generalizing s with
  | ret a => rfl
  | fail e => rfl
  | call op k ih =>
    have hhere : handle' op s = handle op s := h _ List.mem_cons_self
    rw [run_call, run_call, hhere]
    exact ih _ fun c hc => h c (List.mem_cons_of_mem _ hc)

theorem mem_calls_bind {p : Program S ε α} {f : α → Program S ε β} {s s' : σ} {a : α}
    {c : σ × S.Op} (hp : p.run handle s = (.ok a, s')) (h : c ∈ (f a).calls handle s') :
    c ∈ (p >>= f).calls handle s := by
  rw [calls_bind, hp, List.mem_append]
  exact .inr h

/-- Every operation of the run from `s` meets `H` where it is called, and the run ends with an
outcome and a state that satisfy `Q`. -/
def Obeys (H : σ × S.Op → Prop) (Q : Except ε α → σ → Prop) (p : Program S ε α) (s : σ) : Prop :=
  (∀ c ∈ p.calls handle s, H c) ∧ Q (p.run handle s).1 (p.run handle s).2

variable {handle} {H : σ × S.Op → Prop}

theorem Obeys.call {op : S.Op} {k : S.Reply op → Program S ε α} {s : σ}
    {Q : Except ε α → σ → Prop} (hop : H (s, op))
    (hk : (k (handle op s).1).Obeys handle H Q (handle op s).2) : (call op k).Obeys handle H Q s := by
  refine ⟨fun c hc => ?_, hk.2⟩
  rcases List.mem_cons.mp hc with rfl | hc
  · exact hop
  · exact hk.1 c hc

theorem Obeys.mono {Q R : Except ε α → σ → Prop} {p : Program S ε α} {s : σ}
    (h : p.Obeys handle H Q s) (hQR : ∀ x s', Q x s' → R x s') : p.Obeys handle H R s :=
  ⟨h.1, hQR _ _ h.2⟩

theorem Obeys.bind {Q : Except ε α → σ → Prop} {R : Except ε β → σ → Prop} {p : Program S ε α}
    {f : α → Program S ε β} {s : σ} (h : p.Obeys handle H Q s)
    (hok : ∀ a s', Q (.ok a) s' → (f a).Obeys handle H R s')
    (herror : ∀ e s', Q (.error e) s' → R (.error e) s') : (p >>= f).Obeys handle H R s := by
  obtain ⟨hcalls, hend⟩ := h
  rw [Obeys, calls_bind, run_bind]
  rcases hrun : p.run handle s with ⟨e | a, s'⟩
  · rw [hrun] at hend
    refine ⟨?_, herror e s' hend⟩
    simpa using hcalls
  · rw [hrun] at hend
    obtain ⟨hcalls', hend'⟩ := hok a s' hend
    refine ⟨fun c hc => ?_, hend'⟩
    rcases List.mem_append.mp hc with hc | hc
    · exact hcalls c hc
    · exact hcalls' c hc

/-- A program whose run is known, and what follows it. -/
theorem Obeys.bind_of_run {Q : Except ε β → σ → Prop} {p : Program S ε α} {f : α → Program S ε β}
    {s s' : σ} {a : α} (hrun : p.run handle s = (.ok a, s')) (hcalls : ∀ c ∈ p.calls handle s, H c)
    (h : (f a).Obeys handle H Q s') : (p >>= f).Obeys handle H Q s := by
  have hp : p.Obeys handle H (fun x t => x = .ok a ∧ t = s') s := by
    refine ⟨hcalls, ?_⟩
    rw [hrun]
    exact ⟨rfl, rfl⟩
  refine hp.bind ?_ ?_
  · rintro b t ⟨hb, rfl⟩
    cases hb
    exact h
  · rintro e t ⟨he, -⟩
    cases he

theorem Obeys.attempt {Q : Except ε (Except ε α) → σ → Prop} {p : Program S ε α} {s : σ}
    (h : p.Obeys handle H (fun x => Q (.ok x)) s) : p.attempt.Obeys handle H Q s := by
  rw [Obeys, calls_attempt, run_attempt]
  exact h

end Run

/-! ## Protocols -/

section Protocol

variable {A : Type} (allows : A → S.Op → Prop) (next : A → (op : S.Op) → S.Reply op → A)

/-- From the ghost state `a`, on every path each operation is allowed where it is called, and the
outcome satisfies `Q` in the ghost state reached. -/
def Follows (Q : A → Except ε α → Prop) : A → Program S ε α → Prop
  | a, ret x => Q a (.ok x)
  | a, fail e => Q a (.error e)
  | a, call op k => allows a op ∧ ∀ r, Follows Q (next a op r) (k r)

variable {allows next}

theorem Follows.mono {Q R : A → Except ε α → Prop} {a : A} {p : Program S ε α}
    (h : p.Follows allows next Q a) (hQR : ∀ b x, Q b x → R b x) : p.Follows allows next R a := by
  induction p generalizing a with
  | ret x => exact hQR _ _ h
  | fail e => exact hQR _ _ h
  | call op k ih => exact ⟨h.1, fun r => ih r (h.2 r)⟩

theorem Follows.bind {Q : A → Except ε α → Prop} {R : A → Except ε β → Prop} {a : A}
    {p : Program S ε α} {f : α → Program S ε β} (h : p.Follows allows next Q a)
    (hok : ∀ b x, Q b (.ok x) → (f x).Follows allows next R b)
    (herror : ∀ b e, Q b (.error e) → R b (.error e)) :
    (p >>= f).Follows allows next R a := by
  induction p generalizing a with
  | ret x => exact hok _ _ h
  | fail e => exact herror _ _ h
  | call op k ih => exact ⟨h.1, fun r => ih r (h.2 r)⟩

/-- A program that does not fail, and what follows it. -/
theorem Follows.bind_total {P : A → α → Prop} {R : A → Except ε β → Prop} {a : A}
    {p : Program S ε α} {f : α → Program S ε β}
    (h : p.Follows allows next (fun b x => ∃ v, x = .ok v ∧ P b v) a)
    (hok : ∀ b v, P b v → (f v).Follows allows next R b) : (p >>= f).Follows allows next R a := by
  refine h.bind ?_ ?_
  · rintro b x ⟨v, heq, hv⟩
    cases heq
    exact hok b x hv
  · rintro b e ⟨v, heq, -⟩
    cases heq

theorem Follows.attempt {Q : A → Except ε (Except ε α) → Prop} {a : A} {p : Program S ε α}
    (h : p.Follows allows next (fun b x => Q b (.ok x)) a) :
    p.attempt.Follows allows next Q a := by
  induction p generalizing a with
  | ret x => exact h
  | fail e => exact h
  | call op k ih => exact ⟨h.1, fun r => ih r (h.2 r)⟩

theorem Follows.recover {ε' : Type} {f : ε → Except ε' α} {Q : A → Except ε α → Prop}
    {R : A → Except ε' α → Prop} {a : A} {p : Program S ε α} (h : p.Follows allows next Q a)
    (hok : ∀ b v, Q b (.ok v) → R b (.ok v)) (herror : ∀ b e, Q b (.error e) → R b (f e)) :
    (p.recover f).Follows allows next R a := by
  induction p generalizing a with
  | ret x => exact hok _ _ h
  | fail e =>
    have hR := herror _ _ h
    rw [Program.recover]
    cases hf : f e <;> rw [hf] at hR <;> exact hR
  | call op k ih => exact ⟨h.1, fun r => ih r (h.2 r)⟩

/-- The ghost state at the end of a run. -/
def track {σ : Type} (next : A → (op : S.Op) → S.Reply op → A)
    (handle : (op : S.Op) → σ → S.Reply op × σ) : Program S ε α → A → σ → A
  | ret _, a, _ => a
  | fail _, a, _ => a
  | call op k, a, s =>
    (k (handle op s).1).track next handle (next a op (handle op s).1) (handle op s).2

/-- The outcome of a run satisfies what the protocol says in the ghost state reached. -/
theorem Follows.track {σ : Type} {Q : A → Except ε α → Prop} {p : Program S ε α} {a : A}
    (h : p.Follows allows next Q a) (handle : (op : S.Op) → σ → S.Reply op × σ) (s : σ) :
    Q (p.track next handle a s) (p.run handle s).1 := by
  induction p generalizing a s with
  | ret x => exact h
  | fail e => exact h
  | call op k ih => exact ih _ (h.2 _) _

/-- Along a run of a program that follows a protocol, a relation between ghost state and state
that every allowed operation preserves is preserved. -/
theorem Follows.run {σ : Type} {handle : (op : S.Op) → σ → S.Reply op × σ} {R : A → σ → Prop}
    (hstep : ∀ a op s, R a s → allows a op → R (next a op (handle op s).1) (handle op s).2)
    {Q : A → Except ε α → Prop} {p : Program S ε α} {a : A} {s : σ}
    (h : p.Follows allows next Q a) (hR : R a s) :
    ∃ b, R b (p.run handle s).2 ∧ Q b (p.run handle s).1 := by
  induction p generalizing a s with
  | ret x => exact ⟨a, hR, h⟩
  | fail e => exact ⟨a, hR, h⟩
  | call op k ih => exact ih _ (h.2 _) (hstep a op s hR h.1)

/-- The same holds wherever the run is cut. -/
theorem Follows.cuts {σ : Type} {handle : (op : S.Op) → σ → S.Reply op × σ} {R : A → σ → Prop}
    (hstep : ∀ a op s, R a s → allows a op → R (next a op (handle op s).1) (handle op s).2)
    {counts : S.Op → Bool} {Q : A → Except ε α → Prop} {p : Program S ε α} {a : A} {s : σ}
    (h : p.Follows allows next Q a) (hR : R a s) :
    ∀ c ∈ p.cuts handle counts s, ∃ b, R b c := by
  induction p generalizing a s with
  | ret x => exact fun c hc => absurd hc List.not_mem_nil
  | fail e => exact fun c hc => absurd hc List.not_mem_nil
  | call op k ih =>
    intro c hc
    have hnext := hstep a op s hR h.1
    have hrest := ih _ (h.2 _) hnext
    rw [Program.cuts] at hc
    split at hc
    · rcases List.mem_cons.mp hc with rfl | hc
      · exact ⟨_, hnext⟩
      · exact hrest c hc
    · exact hrest c hc

/-- The same holds where the operations of a run are known to meet a condition, and at each of its
operations. -/
theorem Follows.run_along {σ : Type} {handle : (op : S.Op) → σ → S.Reply op × σ} {R : A → σ → Prop}
    {C : σ → S.Op → Prop}
    (hstep : ∀ a op s, R a s → allows a op → C s op →
      R (next a op (handle op s).1) (handle op s).2)
    {Q : A → Except ε α → Prop} {p : Program S ε α} {a : A} {s : σ}
    (h : p.Follows allows next Q a) (hR : R a s) (hC : ∀ c ∈ p.calls handle s, C c.1 c.2) :
    (∃ b, R b (p.run handle s).2 ∧ Q b (p.run handle s).1) ∧
      ∀ c ∈ p.calls handle s, ∃ b, R b c.1 ∧ allows b c.2 := by
  induction p generalizing a s with
  | ret x => exact ⟨⟨a, hR, h⟩, fun c hc => absurd hc List.not_mem_nil⟩
  | fail e => exact ⟨⟨a, hR, h⟩, fun c hc => absurd hc List.not_mem_nil⟩
  | call op k ih =>
    have hhere : C s op := hC _ List.mem_cons_self
    obtain ⟨hend, hcalls⟩ := ih _ (h.2 _) (hstep a op s hR h.1 hhere)
      fun c hc => hC c (List.mem_cons_of_mem _ hc)
    refine ⟨hend, ?_⟩
    intro c hc
    rcases List.mem_cons.mp hc with rfl | hc
    · exact ⟨a, hR, h.1⟩
    · exact hcalls c hc

/-- What is noted of the operations of a run, beside the protocol they follow. -/
theorem Follows.run_noting {B σ : Type} {handle : (op : S.Op) → σ → S.Reply op × σ}
    {C : σ → S.Op → Prop} {note : (op : S.Op) → S.Reply op → Option B} {R : A → List B → σ → Prop}
    (hstep : ∀ a notes op s, R a notes s → allows a op → C s op →
      R (next a op (handle op s).1) (notes ++ (note op (handle op s).1).toList) (handle op s).2)
    {Q : A → Except ε α → Prop} {p : Program S ε α} {a : A} {notes : List B} {s : σ}
    (h : p.Follows allows next Q a) (hR : R a notes s) (hC : ∀ c ∈ p.calls handle s, C c.1 c.2) :
    ∃ b, R b (notes ++ (p.calls handle s).filterMap fun c => note c.2 (handle c.2 c.1).1)
      (p.run handle s).2 := by
  induction p generalizing a notes s with
  | ret x => exact ⟨a, (List.append_nil notes).symm ▸ hR⟩
  | fail e => exact ⟨a, (List.append_nil notes).symm ▸ hR⟩
  | call op k ih =>
    have hhere : C s op := hC _ List.mem_cons_self
    obtain ⟨b, hb⟩ := ih _ (h.2 _) (hstep a notes op s hR h.1 hhere)
      fun c hc => hC c (List.mem_cons_of_mem _ hc)
    refine ⟨b, ?_⟩
    have hnotes : ((Program.call op k).calls handle s).filterMap
        (fun c => note c.2 (handle c.2 c.1).1) = (note op (handle op s).1).toList ++
          ((k (handle op s).1).calls handle (handle op s).2).filterMap
            fun c => note c.2 (handle c.2 c.1).1 := by
      change List.filterMap _ ((s, op) :: _) = _
      rw [List.filterMap_cons]
      cases note op (handle op s).1 <;> rfl
    rw [hnotes, ← List.append_assoc]
    exact hb

/-- A program that follows a protocol follows another one into which the first one maps. -/
theorem Follows.map {B : Type} {allows' : B → S.Op → Prop}
    {next' : B → (op : S.Op) → S.Reply op → B} (f : A → B)
    (hallows : ∀ a op, allows a op → allows' (f a) op)
    (hnext : ∀ a op r, allows a op → next' (f a) op r = f (next a op r))
    {Q : A → Except ε α → Prop} {R : B → Except ε α → Prop} (hQR : ∀ a x, Q a x → R (f a) x)
    {p : Program S ε α} {a : A} (h : p.Follows allows next Q a) :
    p.Follows allows' next' R (f a) := by
  induction p generalizing a with
  | ret x => exact hQR _ _ h
  | fail e => exact hQR _ _ h
  | call op k ih =>
    refine ⟨hallows _ _ h.1, fun r => ?_⟩
    rw [hnext _ _ _ h.1]
    exact ih r (h.2 r)

/-- A program whose operations all keep an invariant of the ghost state follows the protocol. -/
theorem Follows.invariant {J : A → Prop} {allowed : S.Op → Prop} {P : Except ε α → Prop}
    (hJ : ∀ a op, J a → allowed op → allows a op ∧ ∀ r, J (next a op r)) {p : Program S ε α}
    (h : p.Follows (fun (_ : Unit) op => allowed op) (fun u _ _ => u) (fun _ x => P x) ()) {a : A}
    (ha : J a) : p.Follows allows next (fun b x => J b ∧ P x) a := by
  induction p generalizing a with
  | ret x => exact ⟨ha, h⟩
  | fail e => exact ⟨ha, h⟩
  | call op k ih =>
    have hop := hJ a op ha h.1
    exact ⟨hop.1, fun r => ih r (h.2 r) (hop.2 r)⟩

theorem follows_ofExcept {Q : A → Except ε α → Prop} {a : A} {x : Except ε α} (h : Q a x) :
    (ofExcept x : Program S ε α).Follows allows next Q a := by
  cases x <;> exact h

end Protocol

/-! ## Allowed operations -/

section Only

variable {allowed : S.Op → Prop}

/-- Every operation on every path is an allowed one. -/
def Only (allowed : S.Op → Prop) (p : Program S ε α) : Prop :=
  p.Follows (fun (_ : Unit) op => allowed op) (fun u _ _ => u) (fun _ _ => True) ()

theorem Only.ret (a : α) : (ret a : Program S ε α).Only allowed := trivial

theorem Only.fail (e : ε) : (fail e : Program S ε α).Only allowed := trivial

theorem Only.call {op : S.Op} {k : S.Reply op → Program S ε α} (hop : allowed op)
    (hk : ∀ r, (k r).Only allowed) : (call op k).Only allowed :=
  ⟨hop, hk⟩

theorem Only.ofExcept (x : Except ε α) : (ofExcept x : Program S ε α).Only allowed :=
  follows_ofExcept trivial

theorem Only.bind {p : Program S ε α} {f : α → Program S ε β} (hp : p.Only allowed)
    (hf : ∀ a, (f a).Only allowed) : (p >>= f).Only allowed :=
  Follows.bind hp (fun _ a _ => hf a) fun _ _ _ => trivial

theorem Only.mono {allowed' : S.Op → Prop} {p : Program S ε α} (hp : p.Only allowed)
    (h : ∀ op, allowed op → allowed' op) : p.Only allowed' := by
  induction p with
  | ret a => trivial
  | fail e => trivial
  | call op k ih => exact ⟨h op hp.1, fun r => ih r (hp.2 r)⟩

theorem Only.attempt {p : Program S ε α} (hp : p.Only allowed) : p.attempt.Only allowed :=
  Follows.attempt hp

/-- What is known of the outcomes besides. -/
theorem Only.returns {A : Type} {allows : A → S.Op → Prop} {next : A → (op : S.Op) → S.Reply op → A}
    {Q : A → Except ε α → Prop} {P : Except ε α → Prop} {a : A} {p : Program S ε α}
    (hp : p.Only allowed) (h : p.Follows allows next Q a) (hP : ∀ b x, Q b x → P x) :
    p.Follows (fun (_ : Unit) op => allowed op) (fun u _ _ => u) (fun _ x => P x) () := by
  induction p generalizing a with
  | ret a => exact hP _ _ h
  | fail e => exact hP _ _ h
  | call op k ih => exact ⟨hp.1, fun r => ih r (hp.2 r) (h.2 r)⟩

theorem Only.mem_calls {σ : Type} {handle : (op : S.Op) → σ → S.Reply op × σ} {p : Program S ε α}
    (hp : p.Only allowed) {s : σ} {c : σ × S.Op} (hc : c ∈ p.calls handle s) : allowed c.2 := by
  induction p generalizing s with
  | ret a => exact absurd hc List.not_mem_nil
  | fail e => exact absurd hc List.not_mem_nil
  | call op k ih =>
    rcases List.mem_cons.mp hc with rfl | hc
    · exact hp.1
    · exact ih _ (hp.2 _) hc

end Only

/-! ## Failing operations -/

section AbortsOn

variable {failed : (op : S.Op) → S.Reply op → Bool} {own : ε → Prop}

/-- The program fails as soon as an operation of it fails, and otherwise with errors of its own. -/
def AbortsOn (failed : (op : S.Op) → S.Reply op → Bool) (own : ε → Prop) : Program S ε α → Prop
  | ret _ => True
  | fail e => own e
  | call op k => ∀ r, if failed op r then ∃ e, k r = fail e else (k r).AbortsOn failed own

theorem AbortsOn.bind {p : Program S ε α} {f : α → Program S ε β} (hp : p.AbortsOn failed own)
    (hf : ∀ a, (f a).AbortsOn failed own) : (p >>= f).AbortsOn failed own := by
  induction p with
  | ret a => exact hf a
  | fail e => exact hp
  | call op k ih =>
    intro r
    have hr := hp r
    split at hr
    · next hfailed =>
      obtain ⟨e, he⟩ := hr
      rw [if_pos hfailed]
      exact ⟨e, by rw [← fail_bind e f, ← he]; rfl⟩
    · next hfailed =>
      rw [if_neg hfailed]
      exact ih r hr

theorem abortsOn_ofExcept {x : Except ε α} (h : ∀ e, x = .error e → own e) :
    (ofExcept x : Program S ε α).AbortsOn failed own := by
  cases x with
  | ok a => trivial
  | error e => exact h e rfl

/-- A run with an operation that fails fails; without one it fails with an error of its own. -/
theorem AbortsOn.run {σ : Type} {handle : (op : S.Op) → σ → S.Reply op × σ} {p : Program S ε α}
    (hp : p.AbortsOn failed own) (s : σ) :
    (∀ c ∈ p.calls handle s, failed c.2 (handle c.2 c.1).1 = true →
      ∃ e, (p.run handle s).1 = .error e) ∧
    ((∀ c ∈ p.calls handle s, failed c.2 (handle c.2 c.1).1 = false) →
      ∀ e, (p.run handle s).1 = .error e → own e) := by
  induction p generalizing s with
  | ret a => exact ⟨fun c hc => absurd hc List.not_mem_nil, fun _ e he => by cases he⟩
  | fail e =>
    refine ⟨fun c hc => absurd hc List.not_mem_nil, fun _ e' he => ?_⟩
    cases he
    exact hp
  | call op k ih =>
    have hr := hp (handle op s).1
    rw [run_call, calls, List.forall_mem_cons, List.forall_mem_cons]
    split at hr
    · next hfailed =>
      obtain ⟨e, he⟩ := hr
      rw [he]
      refine ⟨⟨fun _ => ⟨e, rfl⟩, fun c hc => absurd hc List.not_mem_nil⟩, fun hno => ?_⟩
      rw [hfailed] at hno
      cases hno.1
    · next hfailed =>
      obtain ⟨hfails, hown⟩ := ih _ hr (handle op s).2
      exact ⟨⟨fun h => absurd h hfailed, hfails⟩, fun hno => hown hno.2⟩

end AbortsOn

end Program
