import Mathlib.Data.List.Basic

/-!
# Broadcast channels

A channel keeps the last `capacity` values sent to it; each receiver reads every value sent after
it subscribed, unless it falls more than `capacity` behind. Then its next read reports the lag and
moves it to the oldest value the channel still keeps.

## Main definitions

* `Channel α`: the values sent so far and the number of receivers
* `Channel.recv`: the next read of a receiver
* `Channel.pending`: the values a receiver has not read

## Main results

* `Channel.recv_spec`: a read takes the first pending value, skips some, or finds none
-/

/-- A channel with everything that was sent to it. -/
structure Channel (α : Type) where
  sent : List α
  receivers : Nat
  deriving DecidableEq

/-- What a read returns, and the position it leaves the receiver at. -/
inductive Recv (α : Type) where
  | value (a : α) (next : Nat)
  | lagged (next : Nat)
  | closed
  | empty

namespace Channel

variable {α : Type}

/-- A channel with one receiver. -/
def fresh : Channel α := ⟨[], 1⟩

/-- Send to every receiver. -/
def send (c : Channel α) (a : α) : Channel α := { c with sent := c.sent ++ [a] }

/-- The next read at position `next`; `live` says that the sending side still exists. -/
def recv (c : Channel α) (capacity : Nat) (live : Bool) (next : Nat) : Recv α :=
  match c.sent[next]? with
  | none => if live then .empty else .closed
  | some a =>
    if capacity < c.sent.length - next then .lagged (c.sent.length - capacity)
    else .value a (next + 1)

/-- The values a receiver at position `next` has not read. -/
def pending (c : Channel α) (next : Nat) : List α := c.sent.drop next

theorem pending_send {c : Channel α} {next : Nat} (a : α) (h : next ≤ c.sent.length) :
    (c.send a).pending next = c.pending next ++ [a] := by
  simp [pending, send, List.drop_append_of_le_length h]

/-- A read takes the first pending value, skips some pending values, or finds none. -/
theorem recv_spec (c : Channel α) (capacity : Nat) (live : Bool) (next : Nat) :
    match c.recv capacity live next with
    | .value a next' => next' ≤ c.sent.length ∧ c.pending next = a :: c.pending next'
    | .lagged next' => next' ≤ c.sent.length ∧ ∃ k, c.pending next' = (c.pending next).drop k
    | .closed => live = false ∧ c.pending next = []
    | .empty => live = true ∧ c.pending next = [] := by
  unfold recv
  cases hget : c.sent[next]? with
  | none =>
    have hnil : c.pending next = [] := List.drop_eq_nil_of_le (List.getElem?_eq_none_iff.mp hget)
    cases live <;> simp [hnil]
  | some a =>
    obtain ⟨hlt, ha⟩ := List.getElem?_eq_some_iff.mp hget
    by_cases hlag : capacity < c.sent.length - next
    · simp only [hlag, if_true]
      refine ⟨Nat.sub_le _ _, c.sent.length - capacity - next, ?_⟩
      rw [pending, pending, List.drop_drop]
      congr 1
      omega
    · simp only [hlag, if_false]
      exact ⟨hlt, by rw [pending, pending, List.drop_eq_getElem_cons hlt, ha]⟩

end Channel
