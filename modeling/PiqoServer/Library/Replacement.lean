import Mathlib.Data.List.Basic

/-!
# Replacing parts of a list

The places of a pattern are found from the left and do not overlap: behind one, the search goes on
where it ends. A list is cut into the elements that are kept and the places of the pattern; counting
and replacing both read this cut. Patterns are not empty.

## Main definitions

* `Replacement.Piece`: an element that is kept, or a place of the pattern
* `Replacement.cut`: a list as pieces, with at most so many places
* `Replacement.count`, `Replacement.replace`: the number of places, and the list with other parts
  there

## Main results

* `flatMap_source_cut`: the pieces are the list
* `swapped_of_mem_cut`: every place is the pattern
* `replace_cons`, `count_cons`: replacing and counting go from place to place
* `count_pos_iff`: a pattern has a place where it is a part
* `replaceUpTo_eq_self`: replacing something by something else changes the list
-/

namespace Replacement

variable {α : Type} [DecidableEq α]

inductive Piece (α : Type) where
  | kept (a : α)
  | swapped (part : List α)
  deriving DecidableEq

namespace Piece

def source : Piece α → List α
  | kept a => [a]
  | swapped part => part

/-- What stands there afterwards. -/
def target (new : List α) : Piece α → List α
  | kept a => [a]
  | swapped _ => new

end Piece

/-- At most `limit` places; the first `skip` elements belong to the last one. -/
@[grind =] def cutFrom (pattern : List α) : (limit skip : Nat) → List α → List (Piece α)
  | _, _, [] => []
  | limit, skip + 1, _ :: text => cutFrom pattern limit skip text
  | 0, 0, a :: text => .kept a :: cutFrom pattern 0 0 text
  | limit + 1, 0, a :: text =>
    if pattern <+: a :: text then
      .swapped pattern :: cutFrom pattern limit (pattern.length - 1) text
    else .kept a :: cutFrom pattern (limit + 1) 0 text

/-- A list as pieces, with at most `limit` places. -/
def cut (pattern : List α) (limit : Nat) (text : List α) : List (Piece α) :=
  cutFrom pattern limit 0 text

/-- The number of places among pieces. -/
@[simp] def swaps : List (Piece α) → Nat
  | [] => 0
  | .kept _ :: pieces => swaps pieces
  | .swapped _ :: pieces => swaps pieces + 1

/-- `match_indices(pattern).count()`. -/
def count (pattern text : List α) : Nat := swaps (cut pattern text.length text)

/-- `replacen`. -/
def replaceUpTo (pattern new : List α) (limit : Nat) (text : List α) : List α :=
  (cut pattern limit text).flatMap (Piece.target new)

/-- `replace`. -/
def replace (pattern new text : List α) : List α := replaceUpTo pattern new text.length text

/-! ## The pieces of a list -/

section Cut

variable {pattern : List α}

theorem flatMap_source_cutFrom (hpattern : pattern ≠ []) (limit skip : Nat) (text : List α) :
    (cutFrom pattern limit skip text).flatMap Piece.source = text.drop skip := by
  induction text generalizing limit skip with
  | nil => cases limit <;> cases skip <;> rfl
  | cons a text ih =>
    cases skip with
    | succ skip => rw [cutFrom, ih, List.drop_succ_cons]
    | zero =>
      cases limit with
      | zero => rw [cutFrom, List.flatMap_cons, ih]; rfl
      | succ limit =>
        rw [cutFrom]
        split
        · next hprefix =>
          obtain ⟨rest, hrest⟩ := hprefix
          obtain ⟨p, ps, rfl⟩ := List.exists_cons_of_ne_nil hpattern
          rw [List.cons_append, List.cons.injEq] at hrest
          rw [List.flatMap_cons, ih, ← hrest.2, List.length_cons, Nat.add_sub_cancel, List.drop_left,
            List.drop_zero, hrest.1]
          rfl
        · rw [List.flatMap_cons, ih]
          rfl

/-- **The pieces are the list.** -/
theorem flatMap_source_cut (hpattern : pattern ≠ []) (limit : Nat) (text : List α) :
    (cut pattern limit text).flatMap Piece.source = text :=
  flatMap_source_cutFrom hpattern limit 0 text

/-- Every place is the pattern. -/
theorem swapped_of_mem_cutFrom {limit skip : Nat} {text part : List α}
    (h : .swapped part ∈ cutFrom pattern limit skip text) : part = pattern := by
  induction text generalizing limit skip with
  | nil => cases limit <;> cases skip <;> cases h
  | cons a text ih =>
    cases skip with
    | succ skip => exact ih (by rwa [cutFrom] at h)
    | zero =>
      cases limit with
      | zero =>
        rw [cutFrom, List.mem_cons] at h
        exact ih (h.resolve_left (by simp))
      | succ limit =>
        rw [cutFrom] at h
        split at h
        · rcases List.mem_cons.mp h with h | h
          · simpa using h
          · exact ih h
        · rw [List.mem_cons] at h
          exact ih (h.resolve_left (by simp))

theorem swapped_of_mem_cut {limit : Nat} {text part : List α}
    (h : .swapped part ∈ cut pattern limit text) : part = pattern :=
  swapped_of_mem_cutFrom h

theorem swaps_cutFrom_le (pattern : List α) (limit skip : Nat) (text : List α) :
    swaps (cutFrom pattern limit skip text) ≤ limit := by
  induction text generalizing limit skip with
  | nil => cases limit <;> cases skip <;> simp [cutFrom]
  | cons a text ih =>
    cases skip with
    | succ skip => exact ih limit skip
    | zero =>
      cases limit with
      | zero => exact ih 0 0
      | succ limit =>
        rw [cutFrom]
        split
        · exact Nat.succ_le_succ (ih limit _)
        · exact ih (limit + 1) 0

/-- A limit that the list cannot reach does not matter. -/
theorem cutFrom_congr {limit limit' skip : Nat} {text : List α} (h : text.length ≤ limit)
    (h' : text.length ≤ limit') :
    cutFrom pattern limit skip text = cutFrom pattern limit' skip text := by
  induction text generalizing limit limit' skip with
  | nil => cases limit <;> cases limit' <;> cases skip <;> rfl
  | cons a text ih =>
    rw [List.length_cons] at h h'
    cases skip with
    | succ skip =>
      rw [cutFrom, cutFrom]
      exact ih (by omega) (by omega)
    | zero =>
      obtain ⟨limit, rfl⟩ : ∃ n, limit = n + 1 := ⟨limit - 1, by omega⟩
      obtain ⟨limit', rfl⟩ : ∃ n, limit' = n + 1 := ⟨limit' - 1, by omega⟩
      rw [cutFrom, cutFrom, @ih limit limit' _ (by omega) (by omega),
        @ih (limit + 1) (limit' + 1) _ (by omega) (by omega)]

/-- With a limit of one there is a place exactly when the pattern occurs at all. -/
theorem swaps_cut_one (pattern text : List α) :
    swaps (cut pattern 1 text) = min 1 (count pattern text) := by
  unfold count cut
  have hgeneral : ∀ limit, text.length ≤ limit →
      swaps (cutFrom pattern 1 0 text) = min 1 (swaps (cutFrom pattern limit 0 text)) := by
    induction text with
    | nil => intro limit _; cases limit <;> rfl
    | cons a text ih =>
      intro limit hlimit
      rw [List.length_cons] at hlimit
      obtain ⟨limit, rfl⟩ : ∃ n, limit = n + 1 := ⟨limit - 1, by omega⟩
      rw [cutFrom, cutFrom]
      split
      · have hnone := swaps_cutFrom_le pattern 0 (pattern.length - 1) text
        rw [swaps, swaps]
        omega
      · exact ih (limit + 1) (by omega)
  exact hgeneral _ (Nat.le_refl _)

end Cut

/-- Elements that belong to the last place are passed over. -/
theorem cutFrom_skip (pattern : List α) (limit skip : Nat) (text : List α) :
    cutFrom pattern limit skip text = cutFrom pattern limit 0 (text.drop skip) := by
  induction text generalizing skip with
  | nil => cases limit <;> cases skip <;> rfl
  | cons a text ih =>
    cases skip with
    | zero => rfl
    | succ skip => rw [List.drop_succ_cons, ← ih, cutFrom]

/-- **Replacing goes from place to place.** -/
theorem replace_cons {pattern : List α} (hpattern : pattern ≠ []) (new : List α) (a : α)
    (text : List α) : replace pattern new (a :: text) =
      if pattern <+: a :: text then new ++ replace pattern new ((a :: text).drop pattern.length)
      else a :: replace pattern new text := by
  obtain ⟨p, ps, rfl⟩ := List.exists_cons_of_ne_nil hpattern
  have hdrop := @List.length_drop _ ps.length text
  rw [replace, replaceUpTo, cut, List.length_cons, cutFrom]
  split
  · rw [cutFrom_skip, List.length_cons, Nat.add_sub_cancel, List.drop_succ_cons, List.flatMap_cons,
      @cutFrom_congr _ _ (p :: ps) text.length (text.drop ps.length).length 0
        (text.drop ps.length) (by omega) (Nat.le_refl _)]
    rfl
  · rw [List.flatMap_cons, @cutFrom_congr _ _ (p :: ps) (text.length + 1) text.length 0 text
      (by omega) (Nat.le_refl _)]
    rfl

/-- Counting does, too. -/
theorem count_cons {pattern : List α} (hpattern : pattern ≠ []) (a : α) (text : List α) :
    count pattern (a :: text) =
      if pattern <+: a :: text then count pattern ((a :: text).drop pattern.length) + 1
      else count pattern text := by
  obtain ⟨p, ps, rfl⟩ := List.exists_cons_of_ne_nil hpattern
  have hdrop := @List.length_drop _ ps.length text
  rw [count, cut, List.length_cons, cutFrom]
  split
  · rw [cutFrom_skip, List.length_cons, Nat.add_sub_cancel, List.drop_succ_cons, swaps,
      @cutFrom_congr _ _ (p :: ps) text.length (text.drop ps.length).length 0
        (text.drop ps.length) (by omega) (Nat.le_refl _)]
    rfl
  · rw [swaps, @cutFrom_congr _ _ (p :: ps) (text.length + 1) text.length 0 text
      (by omega) (Nat.le_refl _)]
    rfl

/-- **A pattern has a place where it is a part.** -/
theorem count_pos_iff {pattern text : List α} (hpattern : pattern ≠ []) :
    0 < count pattern text ↔ pattern <:+: text := by
  induction text with
  | nil =>
    refine iff_of_false (by simp [count, cut, cutFrom]) fun h => ?_
    exact hpattern (List.infix_nil.mp h)
  | cons a text ih =>
    rw [count_cons hpattern, List.infix_cons_iff]
    split
    · next hprefix => exact iff_of_true (Nat.succ_pos _) (.inl hprefix)
    · next hprefix => rw [ih, or_iff_right hprefix]

/-- Without a place nothing is replaced. -/
theorem replace_of_count_eq_zero {pattern text : List α} (hpattern : pattern ≠ []) (new : List α)
    (h : count pattern text = 0) : replace pattern new text = text := by
  induction text with
  | nil => rfl
  | cons a text ih =>
    rw [count_cons hpattern] at h
    rw [replace_cons hpattern]
    split at h
    · cases h
    · next hprefix => rw [if_neg hprefix, ih h]

/-- Replacing one element. -/
theorem replace_singleton (a : α) (new text : List α) :
    replace [a] new text = text.flatMap fun b => if a = b then new else [b] := by
  induction text with
  | nil => rfl
  | cons b text ih =>
    rw [replace_cons (List.cons_ne_nil _ _), List.flatMap_cons]
    by_cases hb : a = b
    · rw [if_pos (by rw [hb]; exact ⟨text, rfl⟩), if_pos hb, List.length_singleton,
        List.drop_succ_cons, List.drop_zero, ih]
    · have hprefix : ¬[a] <+: b :: text := by
        rw [List.cons_prefix_cons]
        exact fun h => hb h.1
      rw [if_neg hprefix, if_neg hb, ih]
      rfl

/-! ## Changed lists -/

omit [DecidableEq α] in
/-- Pieces read the same before and after only where the places read the same. -/
theorem target_eq_source {pattern new : List α} {pieces : List (Piece α)}
    (hpieces : ∀ part, .swapped part ∈ pieces → part = pattern)
    (hswaps : 0 < swaps pieces)
    (h : pieces.flatMap (Piece.target new) = pieces.flatMap Piece.source) : new = pattern := by
  -- all places change the length by the same amount
  have hlength : ∀ ps : List (Piece α), (∀ part, .swapped part ∈ ps → part = pattern) →
      (ps.flatMap (Piece.target new)).length + swaps ps * pattern.length =
        (ps.flatMap Piece.source).length + swaps ps * new.length := by
    intro ps
    induction ps with
    | nil => simp [swaps]
    | cons p ps ih =>
      intro hps
      have hrest := ih fun part hpart => hps part (List.mem_cons_of_mem _ hpart)
      cases p with
      | kept a =>
        simp only [swaps, List.flatMap_cons, Piece.target, Piece.source, List.length_append,
          List.length_singleton]
        omega
      | swapped part =>
        obtain rfl := hps part List.mem_cons_self
        simp only [swaps, List.flatMap_cons, Piece.target, Piece.source, List.length_append,
          Nat.add_mul, Nat.one_mul]
        omega
  have heq : new.length = pattern.length := by
    have hall := hlength pieces hpieces
    rw [h] at hall
    exact Nat.eq_of_mul_eq_mul_left hswaps (by omega)
  clear hlength
  induction pieces with
  | nil => cases hswaps
  | cons p ps ih =>
    cases p with
    | kept a =>
      simp only [List.flatMap_cons, Piece.target, Piece.source, List.singleton_append,
        List.cons.injEq, true_and] at h
      refine ih (fun part hpart => hpieces part (List.mem_cons_of_mem _ hpart)) ?_ h
      exact hswaps
    | swapped part =>
      obtain rfl := hpieces part List.mem_cons_self
      rw [List.flatMap_cons, List.flatMap_cons] at h
      exact (List.append_inj h heq).1

/-- **Replacing a pattern that occurs changes the list** unless it is replaced by itself. -/
theorem replaceUpTo_eq_self {pattern new text : List α} {limit : Nat} (hpattern : pattern ≠ [])
    (hswaps : 0 < swaps (cut pattern limit text)) :
    replaceUpTo pattern new limit text = text ↔ new = pattern := by
  constructor
  · intro h
    refine target_eq_source (fun part => swapped_of_mem_cut) hswaps ?_
    rw [flatMap_source_cut hpattern]
    exact h
  · rintro rfl
    have hsource : ∀ ps : List (Piece α), (∀ part, .swapped part ∈ ps → part = new) →
        ps.flatMap (Piece.target new) = ps.flatMap Piece.source := by
      intro ps hps
      induction ps with
      | nil => rfl
      | cons p ps ih =>
        rw [List.flatMap_cons, List.flatMap_cons,
          ih fun part hpart => hps part (List.mem_cons_of_mem _ hpart)]
        cases p with
        | kept a => rfl
        | swapped part => rw [hps part List.mem_cons_self]; rfl
    rw [replaceUpTo, hsource _ fun part => swapped_of_mem_cut, flatMap_source_cut hpattern]

end Replacement
