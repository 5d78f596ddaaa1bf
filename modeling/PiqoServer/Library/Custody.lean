import Mathlib.Logic.Function.Basic

/-!
# Custody

Things are made one after another and kept at places, each place keeping at most one. A thing is
made at a place, passed on to another place, or destroyed at its place; what a place kept when
another thing arrives there is kept nowhere any more, and lives on.

## Main definitions

* `Custody`: what each place keeps, and the things that live
* `Custody.Act`, `Custody.act`: making, passing and destroying
* `Custody.Alone`: nothing lives, or one thing does and is kept at one place

## Main results

* `Custody.Alone.act`: custody stays alone when things are made only while nothing is kept
* `Custody.Alone.length_le_one`: then at most one thing lives
* `Custody.Alone.one_lt_of_make`: a thing made while another is kept makes two
-/

/-- What each place keeps, the things that live, and the number of the next thing. -/
structure Custody (P : Type) where
  keeps : P → Option Nat
  alive : List Nat
  fresh : Nat

namespace Custody

inductive Act (P : Type) where
  | rest
  | make (p : P)
  | pass (p q : P)
  | destroy (p : P)

/-- Nothing is kept anywhere. -/
def Empty {P : Type} (s : Custody P) : Prop := ∀ p, s.keeps p = none

/-- One thing is kept, at one place. -/
def OnlyAt {P : Type} (s : Custody P) (p : P) (c : Nat) : Prop :=
  ∀ q d, s.keeps q = some d ↔ q = p ∧ d = c

/-- Nothing lives, or one thing does and is kept at one place. -/
def Alone {P : Type} (s : Custody P) : Prop :=
  (s.Empty ∧ s.alive = []) ∨ ∃ p c, s.OnlyAt p c ∧ s.alive = [c]

variable {P : Type} [DecidableEq P]

def act (s : Custody P) : Act P → Custody P
  | .rest => s
  | .make p =>
    { keeps := Function.update s.keeps p (some s.fresh)
      alive := s.alive ++ [s.fresh], fresh := s.fresh + 1 }
  | .pass p q => match s.keeps p with
    | some c => { s with keeps := Function.update (Function.update s.keeps p none) q (some c) }
    | none => s
  | .destroy p => match s.keeps p with
    | some c => { s with keeps := Function.update s.keeps p none, alive := s.alive.erase c }
    | none => s

/-- Only making brings something to life. -/
theorem alive_act_eq_nil {s : Custody P} (h : s.alive = []) {a : Act P}
    (hmake : ∀ p, a ≠ .make p) : (s.act a).alive = [] := by
  cases a with
  | rest => exact h
  | make p => exact absurd rfl (hmake p)
  | pass p q => cases hp : s.keeps p <;> simpa [act, hp] using h
  | destroy p => cases hp : s.keeps p <;> simp [act, hp, h]

namespace Alone

variable {s : Custody P}

section Living

omit [DecidableEq P]

theorem empty (h : s.Alone) (hempty : s.Empty) : s.alive = [] := by
  rcases h with ⟨-, halive⟩ | ⟨p, c, honly, -⟩
  · exact halive
  · have hkept := (honly p c).mpr ⟨rfl, rfl⟩
    rw [hempty p] at hkept
    cases hkept

theorem onlyAt (h : s.Alone) {p : P} {c : Nat} (hp : s.keeps p = some c) :
    s.OnlyAt p c ∧ s.alive = [c] := by
  rcases h with ⟨hempty, -⟩ | ⟨q, d, honly, halive⟩
  · rw [hempty p] at hp
    cases hp
  · obtain ⟨rfl, rfl⟩ := (honly p c).mp hp
    exact ⟨honly, halive⟩

/-- At most one thing lives. -/
theorem length_le_one (h : s.Alone) : s.alive.length ≤ 1 := by
  rcases h with ⟨-, halive⟩ | ⟨p, c, -, halive⟩ <;> simp [halive]

end Living

/-- A thing made while another is kept makes two. -/
theorem one_lt_of_make (h : s.Alone) {p q : P} {c : Nat} (hq : s.keeps q = some c) :
    1 < (s.act (.make p)).alive.length := by
  simp [act, (h.onlyAt hq).2]

theorem make (h : s.Alone) (hempty : s.Empty) (p : P) : (s.act (.make p)).Alone := by
  refine .inr ⟨p, s.fresh, fun q d => ?_, by simp [act, h.empty hempty]⟩
  by_cases hq : q = p
  · subst hq
    simp [act, eq_comm]
  · simp [act, hq, hempty q]

theorem pass (h : s.Alone) (p q : P) : (s.act (.pass p q)).Alone := by
  cases hp : s.keeps p with
  | none => simpa [act, hp] using h
  | some c =>
    obtain ⟨honly, halive⟩ := h.onlyAt hp
    refine .inr ⟨q, c, fun r d => ?_, by simp [act, hp, halive]⟩
    by_cases hr : r = q
    · subst hr
      simp [act, hp, eq_comm]
    · -- no other place kept anything, and `p` has passed it on
      by_cases hrp : r = p
      · subst hrp
        simp [act, hp, hr]
      · simp [act, hp, hr, hrp, honly r d]

theorem destroy (h : s.Alone) (p : P) : (s.act (.destroy p)).Alone := by
  cases hp : s.keeps p with
  | none => simpa [act, hp] using h
  | some c =>
    obtain ⟨honly, halive⟩ := h.onlyAt hp
    refine .inl ⟨fun q => ?_, by simp [act, hp, halive]⟩
    by_cases hq : q = p
    · subst hq
      simp [act, hp]
    · rw [Option.eq_none_iff_forall_ne_some]
      intro d
      simp [act, hp, hq, honly q d]

/-- **Custody stays alone** when things are made only while nothing is kept. -/
theorem act (h : s.Alone) (a : Act P) (hmake : ∀ p, a = .make p → s.Empty) : (s.act a).Alone := by
  cases a with
  | rest => exact h
  | make p => exact h.make (hmake p rfl) p
  | pass p q => exact h.pass p q
  | destroy p => exact h.destroy p

end Alone

end Custody
