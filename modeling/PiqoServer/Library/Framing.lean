import Mathlib.Data.List.Basic
import Mathlib.Tactic.Linarith

/-!
# Cutting a stream into frames

A reader keeps what it has received in a buffer. After every chunk it takes one frame after the
other off the front of the buffer, as long as it finds the end of one, and hands each to a decoder;
an error of the decoder ends the reading.

What is read does not depend on how the stream is cut into chunks, provided that what comes later
cannot move the end of a frame once it has been found.

## Main definitions

* `Delimiter`: where the first frame of a buffer ends
* `Delimiter.drain`: the frames of a buffer, and what is left of it
* `Delimiter.drainAll`: the frames of a stream of chunks

## Main results

* `drain_eq`: one frame, then those behind it
* `drain_append`: what was drained stays drained when more comes
* `drainAll_eq`: chunks are read as their concatenation
-/

/-- Finds the end of the first frame of a buffer: the length of the frame, and the length of the
delimiter behind it. -/
structure Delimiter (α : Type) where
  find : List α → Option (Nat × Nat)
  fits : ∀ {buffer index length}, find buffer = some (index, length) →
    0 < length ∧ index + length ≤ buffer.length
  stable : ∀ {buffer place}, find buffer = some place → ∀ more, find (buffer ++ more) = some place

namespace Delimiter

variable {α β ε : Type} (d : Delimiter α) (decode : List α → Except ε β)

/-- At most `fuel` frames of a buffer, and the error that ends the reading or what is left. -/
def drainFuel : Nat → List α → List β × Except ε (List α)
  | 0, buffer => ([], .ok buffer)
  | fuel + 1, buffer => match d.find buffer with
    | none => ([], .ok buffer)
    | some (index, length) => match decode (buffer.take index) with
      | .error e => ([], .error e)
      | .ok frame =>
        let r := drainFuel fuel (buffer.drop (index + length))
        (frame :: r.1, r.2)

/-- The frames of a buffer; every one of them takes at least one element with it. -/
def drain (buffer : List α) : List β × Except ε (List α) := d.drainFuel decode buffer.length buffer

/-- Chunks are received one after the other, until an error. -/
def drainAll : List α → List (List α) → List β × Except ε (List α)
  | buffer, [] => ([], .ok buffer)
  | buffer, chunk :: chunks => match d.drain decode (buffer ++ chunk) with
    | (frames, .error e) => (frames, .error e)
    | (frames, .ok rest) =>
      let r := drainAll rest chunks
      (frames ++ r.1, r.2)

variable {d decode}

theorem find_nil : d.find [] = none := by
  cases h : d.find [] with
  | none => rfl
  | some place =>
    obtain ⟨hpos, hle⟩ := d.fits h
    rw [List.length_nil] at hle
    omega

/-- What is left behind a frame is shorter. -/
theorem length_drop_lt {buffer : List α} {index length : Nat}
    (h : d.find buffer = some (index, length)) :
    (buffer.drop (index + length)).length < buffer.length := by
  obtain ⟨hpos, hle⟩ := d.fits h
  rw [List.length_drop]
  omega

/-- Any fuel will do that covers the buffer. -/
theorem drainFuel_congr {fuel fuel' : Nat} {buffer : List α} (hfuel : buffer.length ≤ fuel)
    (hfuel' : buffer.length ≤ fuel') :
    d.drainFuel decode fuel buffer = d.drainFuel decode fuel' buffer := by
  induction fuel generalizing fuel' buffer with
  | zero =>
    rw [List.length_eq_zero_iff.mp (Nat.le_zero.mp hfuel)]
    cases fuel' <;> simp only [drainFuel, find_nil]
  | succ fuel ih =>
    cases fuel' with
    | zero =>
      rw [List.length_eq_zero_iff.mp (Nat.le_zero.mp hfuel')]
      simp only [drainFuel, find_nil]
    | succ fuel' =>
      rw [drainFuel, drainFuel]
      cases hfind : d.find buffer with
      | none => rfl
      | some place =>
        obtain ⟨index, length⟩ := place
        have hlt := length_drop_lt hfind
        have hleft := @ih fuel' (buffer.drop (index + length)) (by omega) (by omega)
        simp only [hleft]

/-- **One frame, then those behind it**: the reading ends by itself. -/
theorem drain_eq (buffer : List α) : d.drain decode buffer = match d.find buffer with
    | none => ([], .ok buffer)
    | some (index, length) => match decode (buffer.take index) with
      | .error e => ([], .error e)
      | .ok frame => (frame :: (d.drain decode (buffer.drop (index + length))).1,
          (d.drain decode (buffer.drop (index + length))).2) := by
  have hmore : d.drain decode buffer = d.drainFuel decode (buffer.length + 1) buffer :=
    drainFuel_congr le_rfl (Nat.le_succ _)
  rw [hmore, drainFuel]
  cases hfind : d.find buffer with
  | none => rfl
  | some place =>
    obtain ⟨index, length⟩ := place
    have hlt := length_drop_lt hfind
    have hleft : d.drainFuel decode buffer.length (buffer.drop (index + length)) =
        d.drain decode (buffer.drop (index + length)) := drainFuel_congr hlt.le le_rfl
    simp only [hleft]

theorem drain_of_find_eq_none {buffer : List α} (h : d.find buffer = none) :
    d.drain decode buffer = ([], .ok buffer) := by
  rw [drain_eq, h]

/-- Nothing that could be taken is left. -/
theorem find_left {buffer rest : List α} {frames : List β}
    (h : d.drain decode buffer = (frames, .ok rest)) : d.find rest = none := by
  induction hn : buffer.length using Nat.strong_induction_on generalizing buffer frames with
  | _ n ih =>
    rw [drain_eq] at h
    split at h
    · next hnone =>
      cases h
      exact hnone
    · next hfind =>
      split at h
      · cases h
      · exact ih _ (hn ▸ length_drop_lt hfind) (Prod.ext rfl (Prod.ext_iff.mp h).2) rfl

/-- What has been drained stays drained when more is received. -/
theorem drain_append (buffer more : List α) : d.drain decode (buffer ++ more) =
    match d.drain decode buffer with
    | (frames, .error e) => (frames, .error e)
    | (frames, .ok rest) => (frames ++ (d.drain decode (rest ++ more)).1,
        (d.drain decode (rest ++ more)).2) := by
  induction hn : buffer.length using Nat.strong_induction_on generalizing buffer with
  | _ n ih =>
    rw [drain_eq buffer]
    cases hfind : d.find buffer with
    | none => rfl
    | some place =>
      obtain ⟨index, length⟩ := place
      obtain ⟨hpos, hle⟩ := d.fits hfind
      rw [drain_eq (buffer ++ more), d.stable hfind more]
      -- the frame and what is left behind it lie in the buffer
      have htake : (buffer ++ more).take index = buffer.take index :=
        List.take_append_of_le_length (by omega)
      have hdrop : (buffer ++ more).drop (index + length) = buffer.drop (index + length) ++ more :=
        List.drop_append_of_le_length hle
      simp only [htake, hdrop]
      cases decode (buffer.take index) with
      | error e => rfl
      | ok frame =>
        simp only
        rw [ih _ (hn ▸ length_drop_lt hfind) _ rfl]
        rcases d.drain decode (buffer.drop (index + length)) with ⟨frames, _ | rest⟩ <;> rfl

/-- **Chunks are read as their concatenation.** -/
theorem drainAll_eq {buffer : List α} (hbuffer : d.find buffer = none) (chunks : List (List α)) :
    d.drainAll decode buffer chunks = d.drain decode (buffer ++ chunks.flatten) := by
  induction chunks generalizing buffer with
  | nil =>
    rw [List.flatten_nil, List.append_nil, drain_of_find_eq_none hbuffer]
    rfl
  | cons chunk chunks ih =>
    rw [drainAll, List.flatten_cons, ← List.append_assoc, drain_append (buffer ++ chunk)]
    rcases hdrain : d.drain decode (buffer ++ chunk) with ⟨frames, e | rest⟩
    · rfl
    · simp only [ih (find_left hdrain)]

end Delimiter
