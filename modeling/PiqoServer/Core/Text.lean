import Mathlib.Data.List.Basic

/-!
# Texts

Operations of `str` that the source uses, on the characters of a text.

## Main definitions

* `isWhitespace`, `trim`, `trimStart`: `char::is_whitespace`, `str::trim` and `str::trim_start`
* `lines`, `joinLines`: the lines of a text, and lines as one text
* `stripPrefix`: what follows a prefix

## Main results

* `lines_append_newline`: a line that is ended, and the lines behind it
* `length_lines_joinLines`: joined lines are no more lines
-/

namespace Piqo

/-- `char::is_whitespace`. -/
def isWhitespace (c : Char) : Bool :=
  let n := c.toNat
  (0x9 ≤ n && n ≤ 0xD) || n == 0x20 || n == 0x85 || n == 0xA0 || n == 0x1680 ||
    (0x2000 ≤ n && n ≤ 0x200A) || n == 0x2028 || n == 0x2029 || n == 0x202F || n == 0x205F ||
    n == 0x3000

/-- Remove the characters that satisfy `p` from the end. -/
def trimEndMatches (p : Char → Bool) (text : List Char) : List Char :=
  (text.reverse.dropWhile p).reverse

/-- `str::trim`. -/
def trim (text : String) : String :=
  String.ofList (trimEndMatches isWhitespace (text.toList.dropWhile isWhitespace))

/-- `str::trim_start`. -/
def trimStart (text : List Char) : List Char := text.dropWhile isWhitespace

/-- `str::strip_prefix`. -/
def stripPrefix (start text : List Char) : Option (List Char) := start.isPrefixOf? text

/-- A character in front of the first line. -/
def consFirst (c : Char) : List (List Char) → List (List Char)
  | [] => [[c]]
  | line :: lines => (c :: line) :: lines

/-- `str::lines`: a line ends at `\n` or `\r\n`, the last one may also end with the text. -/
@[grind =] def lines : List Char → List (List Char)
  | [] => []
  | c :: cs =>
    if c = '\n' then [] :: lines cs
    else if c = '\r' ∧ cs.head? = some '\n' then lines cs
    else consFirst c (lines cs)

/-- Lines as one text. -/
def joinLines : List (List Char) → List Char
  | [] => []
  | [line] => line
  | line :: lines => line ++ '\n' :: joinLines lines

theorem joinLines_cons_cons (line next : List Char) (ls : List (List Char)) :
    joinLines (line :: next :: ls) = line ++ '\n' :: joinLines (next :: ls) := rfl

/-! ## Lines -/

theorem consFirst_ne_nil (c : Char) (ls : List (List Char)) : consFirst c ls ≠ [] := by
  cases ls <;> simp [consFirst]

theorem length_consFirst (c : Char) (ls : List (List Char)) :
    (consFirst c ls).length = max 1 ls.length := by
  cases ls with
  | nil => rfl
  | cons l ls =>
    simp only [consFirst, List.length_cons]
    omega

/-- The last line ending of a line is taken off. -/
def stripReturn (line : List Char) : List Char :=
  if line.getLast? = some '\r' then line.dropLast else line

/-- **A line that is ended**, and the lines behind it. -/
theorem lines_append_newline {line : List Char} (hline : '\n' ∉ line) (rest : List Char) :
    lines (line ++ '\n' :: rest) = stripReturn line :: lines rest := by
  induction line with
  | nil => simp [lines, stripReturn]
  | cons c line ih =>
    rw [List.mem_cons, not_or] at hline
    rw [List.cons_append, lines, if_neg (Ne.symm hline.1), ih hline.2]
    cases line with
    | nil =>
      by_cases hreturn : c = '\r'
      · simp [hreturn, stripReturn]
      · simp [hreturn, stripReturn, consFirst]
    | cons d line =>
      have hhead : (d :: line ++ '\n' :: rest).head? ≠ some '\n' := by
        intro h
        rw [List.cons_append, List.head?_cons, Option.some.injEq] at h
        exact hline.2 (h ▸ List.mem_cons_self)
      rw [if_neg (fun h => hhead h.2), consFirst]
      congr 1
      simp only [stripReturn, List.getLast?_cons_cons]
      split <;> simp

/-- A line that is not ended. -/
theorem lines_of_not_mem {line : List Char} (hline : '\n' ∉ line) (hne : line ≠ []) :
    lines line = [line] := by
  induction line with
  | nil => exact absurd rfl hne
  | cons c line ih =>
    rw [List.mem_cons, not_or] at hline
    have hhead : line.head? ≠ some '\n' := by
      intro h
      exact hline.2 (List.mem_of_head? h)
    rw [lines, if_neg (Ne.symm hline.1), if_neg (fun h => hhead h.2)]
    by_cases hempty : line = []
    · rw [hempty]
      rfl
    · rw [ih hline.2 hempty]
      rfl

theorem length_lines_of_not_mem {line : List Char} (hline : '\n' ∉ line) :
    (lines line).length ≤ 1 := by
  by_cases hne : line = []
  · rw [hne]
    exact Nat.zero_le _
  · rw [lines_of_not_mem hline hne]
    exact Nat.le_refl _

theorem not_mem_of_mem_lines {text line : List Char} (h : line ∈ lines text) : '\n' ∉ line := by
  induction text generalizing line with
  | nil => cases h
  | cons c text ih =>
    rw [lines] at h
    split at h
    · rcases List.mem_cons.mp h with rfl | h
      · exact List.not_mem_nil
      · exact ih h
    · next hc =>
      split at h
      · exact ih h
      · cases hlines : lines text with
        | nil =>
          rw [hlines, consFirst, List.mem_singleton] at h
          rw [h, List.mem_singleton]
          exact Ne.symm hc
        | cons first rest =>
          rw [hlines, consFirst, List.mem_cons] at h
          rw [hlines] at ih
          rcases h with rfl | h
          · rw [List.mem_cons, not_or]
            exact ⟨Ne.symm hc, ih List.mem_cons_self⟩
          · exact ih (List.mem_cons_of_mem _ h)

/-- Joined lines are no more lines than these. -/
theorem length_lines_joinLines {ls : List (List Char)} (h : ∀ line ∈ ls, '\n' ∉ line) :
    (lines (joinLines ls)).length ≤ ls.length := by
  induction ls with
  | nil => exact Nat.le_refl _
  | cons line ls ih =>
    rw [List.forall_mem_cons] at h
    cases ls with
    | nil => exact length_lines_of_not_mem h.1
    | cons next ls =>
      rw [joinLines_cons_cons, lines_append_newline h.1, List.length_cons, List.length_cons]
      exact Nat.succ_le_succ (ih h.2)

theorem lines_eq_nil {text : List Char} : lines text = [] ↔ text = [] := by
  induction text with
  | nil => simp [lines]
  | cons c text ih =>
    rw [lines]
    split
    · simp
    · split
      · next hc =>
        simp only [ih, reduceCtorEq, iff_false]
        rintro rfl
        cases hc.2
      · simp [consFirst_ne_nil]

/-- Lines that are ended, and what is behind them. -/
theorem lines_append_ended (head tail : List Char) :
    lines (head ++ '\n' :: tail) = lines (head ++ ['\n']) ++ lines tail := by
  induction head with
  | nil => simp [lines]
  | cons c head ih =>
    have hhead : (head ++ '\n' :: tail).head? = (head ++ ['\n']).head? := by
      cases head <;> rfl
    rw [List.cons_append, List.cons_append, lines, lines, ih, hhead]
    split
    · rfl
    · split
      · rfl
      · cases hlines : lines (head ++ ['\n']) with
        | nil =>
          rw [lines_eq_nil] at hlines
          simp at hlines
        | cons first rest => rfl

/-- A line that goes on. -/
theorem lines_append_open {line tail first : List Char} {rest : List (List Char)}
    (hline : '\n' ∉ line) (htail : tail.head? ≠ some '\n') (h : lines tail = first :: rest) :
    lines (line ++ tail) = (line ++ first) :: rest := by
  induction line with
  | nil => exact h
  | cons c line ih =>
    rw [List.mem_cons, not_or] at hline
    have hhead : (line ++ tail).head? ≠ some '\n' := by
      cases line with
      | nil => exact htail
      | cons d line =>
        intro hd
        rw [List.cons_append, List.head?_cons, Option.some.injEq] at hd
        exact hline.2 (hd ▸ List.mem_cons_self)
    rw [List.cons_append, lines, if_neg (Ne.symm hline.1), if_neg (fun h => hhead h.2), ih hline.2]
    rfl

end Piqo
