import Mathlib.Data.List.TakeWhile
import PiqoServer.Library.Utf8
import PiqoServer.Server.ConfigFile

/-!
# Front matter

`split_front_matter` (`piqo-server/src/config.rs`) works on byte offsets: it adds up the lengths of
lines and slices the text where they end. A slice panics where it does not fall on the end of a
character. It never does, and what is sliced off are the parts of `splitFrontMatter`.

## Main definitions

* `splitAtByte`, `sliceFrontMatter`: slicing, and the code as it slices
* `Dashes`, `DelimiterLine`: the lines that a front matter stands between
* `Frames`: a text with a front matter

## Main results

* `sliceFrontMatter_eq`: the slices are the parts
* `frontMatter_lossless`: when a text is split, what into, and back again
-/

namespace Piqo

open Utf8

/-! ## Slicing -/

/-- A text in front of and behind a byte offset; nothing where the offset is beyond the text or
within a character. -/
def splitAtByte : Nat → List Char → Option (List Char × List Char)
  | 0, text => some ([], text)
  | _ + 1, [] => none
  | n + 1, c :: text =>
    if c.utf8Size ≤ n + 1 then
      (splitAtByte (n + 1 - c.utf8Size) text).map fun parts => (c :: parts.1, parts.2)
    else none

/-- Look for the line that ends the front matter, `offset` bytes on. -/
def sliceClosed (remaining : List Char) :
    Nat → List (List Char) → Option (Except String (List Char × List Char))
  | _, [] => some (.error "front matter must end with a --- delimiter")
  | offset, line :: lines =>
    if trimEndMatches (fun c => c == '\r' || c == '\n') line = ['-', '-', '-'] then
      (splitAtByte offset remaining).bind fun before =>
        (splitAtByte (offset + width line) remaining).map fun behind => .ok (before.1, behind.2)
    else sliceClosed remaining (offset + width line) lines

/-- The front matter and the text after it, as they are sliced; nothing where a slice panics. -/
def sliceFrontMatter (text : String) : Option (Except String (String × String)) :=
  let text := text.toList
  if '\n' ∈ text then
    let openingEnd := width (text.takeWhile (· ≠ '\n'))
    (splitAtByte openingEnd text).bind fun opening =>
      if trimEndMatches (· == '\r') opening.1 = ['-', '-', '-'] then
        (splitAtByte (openingEnd + 1) text).bind fun remaining =>
          (sliceClosed remaining.2 0 (splitInclusive remaining.2)).map fun parts =>
            parts.map fun parts => (String.ofList parts.1, String.ofList parts.2)
      else some (.error "front matter must start with a --- delimiter")
  else some (.error "front matter must start with a --- delimiter")

/-- A text is sliced where a part of it ends. -/
theorem splitAtByte_append (text more : List Char) :
    splitAtByte (width text) (text ++ more) = some (text, more) := by
  induction text with
  | nil => rw [width_nil, List.nil_append, splitAtByte]
  | cons c text ih =>
    have hpos := c.utf8Size_pos
    obtain ⟨n, hn⟩ : ∃ n, width (c :: text) = n + 1 := ⟨width (c :: text) - 1, by
      rw [width_cons]
      omega⟩
    have hrest : n + 1 - c.utf8Size = width text := by
      rw [← hn, width_cons]
      omega
    have hle : c.utf8Size ≤ n + 1 := by
      rw [← hn, width_cons]
      omega
    rw [hn, List.cons_append, splitAtByte, if_pos hle, hrest, ih]
    rfl

theorem flatten_splitInclusive (text : List Char) : (splitInclusive text).flatten = text := by
  induction text with
  | nil => rfl
  | cons c text ih =>
    rw [splitInclusive]
    split
    · rw [List.flatten_cons, ih]
      rfl
    · split
      · next hnil =>
        rw [hnil] at ih
        rw [← ih]
        rfl
      · next line lines hlines =>
        rw [hlines, List.flatten_cons] at ih
        rw [List.flatten_cons, List.cons_append, ih]

/-- The offset is that of the line at hand. -/
theorem sliceClosed_eq (before : List Char) (lines : List (List Char)) :
    sliceClosed (before ++ lines.flatten) (width before) lines =
      some (closeFrontMatter before lines) := by
  induction lines generalizing before with
  | nil => rfl
  | cons line lines ih =>
    have hassoc : before ++ (line :: lines).flatten = (before ++ line) ++ lines.flatten := by
      rw [List.flatten_cons, List.append_assoc]
    have hoffset : width before + width line = width (before ++ line) := (width_append _ _).symm
    rw [sliceClosed, closeFrontMatter]
    split
    · rw [splitAtByte_append, hoffset, hassoc, splitAtByte_append]
      rfl
    · rw [hoffset, hassoc]
      exact ih (before ++ line)

/-- A text up to its first line feed. -/
theorem opening_eq {opening : List Char} (h : '\n' ∉ opening) (remaining : List Char) :
    (opening ++ '\n' :: remaining).takeWhile (· ≠ '\n') = opening ∧
      (opening ++ '\n' :: remaining).dropWhile (· ≠ '\n') = '\n' :: remaining := by
  have hall : ∀ c ∈ opening, decide (c ≠ '\n') = true :=
    fun c hc => decide_eq_true fun heq => h (heq ▸ hc)
  rw [List.takeWhile_append_of_pos hall, List.dropWhile_append_of_pos hall]
  simp

/-- What is split off a text with an opening line. -/
theorem splitFrontMatter_eq {text : String} {opening remaining : List Char}
    (htext : text.toList = opening ++ '\n' :: remaining) (h : '\n' ∉ opening) :
    splitFrontMatter text = if trimEndMatches (· == '\r') opening = ['-', '-', '-'] then
        (closeFrontMatter [] (splitInclusive remaining)).map fun parts =>
          (String.ofList parts.1, String.ofList parts.2)
      else .error "front matter must start with a --- delimiter" := by
  obtain ⟨hopening, hremaining⟩ := opening_eq h remaining
  rw [splitFrontMatter, htext, hopening, hremaining]

theorem splitFrontMatter_error {text : String} (h : '\n' ∉ text.toList) :
    splitFrontMatter text = .error "front matter must start with a --- delimiter" := by
  have hnil : text.toList.dropWhile (· ≠ '\n') = [] := by
    have hall : ∀ c ∈ text.toList, decide (c ≠ '\n') = true :=
      fun c hc => decide_eq_true fun heq => h (heq ▸ hc)
    exact List.dropWhile_eq_nil_iff.mpr hall
  rw [splitFrontMatter, hnil]

/-- **No slice panics**, and they are the parts of the text. -/
theorem sliceFrontMatter_eq (text : String) :
    sliceFrontMatter text = some (splitFrontMatter text) := by
  unfold sliceFrontMatter
  dsimp only
  by_cases hmem : '\n' ∈ text.toList
  swap
  · rw [if_neg hmem, splitFrontMatter_error hmem]
  obtain ⟨opening, remaining, htext, hnot⟩ := List.eq_append_cons_of_mem hmem
  have hclosed := sliceClosed_eq [] (splitInclusive remaining)
  rw [flatten_splitInclusive, List.nil_append, width_nil] at hclosed
  have hremaining : splitAtByte (width opening + 1) (opening ++ '\n' :: remaining) =
      some (opening ++ ['\n'], remaining) := by
    have hsplit := splitAtByte_append (opening ++ ['\n']) remaining
    rwa [List.append_assoc, List.singleton_append, width_append] at hsplit
  rw [if_pos hmem, splitFrontMatter_eq htext hnot, htext, (opening_eq hnot remaining).1,
    splitAtByte_append, Option.bind_some]
  dsimp only
  split
  · rw [hremaining, Option.bind_some, hclosed]
    rfl
  · rfl

/-! ## Lines -/

/-- `---`, and carriage returns. -/
def Dashes (line : List Char) : Prop := ∃ n, line = ['-', '-', '-'] ++ List.replicate n '\r'

/-- A line that ends a front matter, with its line feed or as the last one. -/
def DelimiterLine (line : List Char) : Prop :=
  ∃ content, Dashes content ∧ (line = content ∨ line = content ++ ['\n'])

theorem not_mem_of_dashes {line : List Char} (h : Dashes line) : '\n' ∉ line := by
  obtain ⟨n, rfl⟩ := h
  simp

theorem trimEndMatches_eq_dashes {p : Char → Bool} (hp : p '-' = false) {line : List Char} :
    trimEndMatches p line = ['-', '-', '-'] ↔
      ∃ tail, line = ['-', '-', '-'] ++ tail ∧ ∀ c ∈ tail, p c = true := by
  unfold trimEndMatches
  constructor
  · intro h
    have happend := List.takeWhile_append_dropWhile (p := p) (l := line.reverse)
    refine ⟨(line.reverse.takeWhile p).reverse, ?_, ?_⟩
    · rw [← h, ← List.reverse_append, happend, List.reverse_reverse]
    · intro c hc
      exact List.all_eq_true.mp List.all_takeWhile c (List.mem_reverse.mp hc)
  · rintro ⟨tail, rfl, htail⟩
    rw [List.reverse_append,
      List.dropWhile_append_of_pos fun c hc => htail c (List.mem_reverse.mp hc)]
    simp [hp]

theorem trimReturns_eq_dashes {line : List Char} :
    trimEndMatches (· == '\r') line = ['-', '-', '-'] ↔ Dashes line := by
  rw [trimEndMatches_eq_dashes (by decide)]
  constructor
  · rintro ⟨tail, rfl, htail⟩
    refine ⟨tail.length, congrArg _ (List.eq_replicate_iff.mpr ⟨rfl, fun c hc => ?_⟩)⟩
    exact eq_of_beq (htail c hc)
  · rintro ⟨n, rfl⟩
    refine ⟨_, rfl, fun c hc => ?_⟩
    rw [List.eq_of_mem_replicate hc]
    rfl

/-- A line of a text, which has no line feed but at its end. -/
def IsLine (line : List Char) : Prop :=
  ∃ content, '\n' ∉ content ∧ (line = content ∨ line = content ++ ['\n'])

theorem isLine_of_mem {text line : List Char} (h : line ∈ splitInclusive text) : IsLine line := by
  induction text generalizing line with
  | nil => cases h
  | cons c text ih =>
    rw [splitInclusive] at h
    split at h
    · next hc =>
      rcases List.mem_cons.mp h with rfl | h
      · exact ⟨[], List.not_mem_nil, .inr (by rw [hc]; rfl)⟩
      · exact ih h
    · next hc =>
      split at h
      · rw [List.mem_singleton.mp h]
        exact ⟨[c], by simpa using Ne.symm hc, .inl rfl⟩
      · next first lines hlines =>
        rw [hlines] at ih
        rcases List.mem_cons.mp h with rfl | h
        · obtain ⟨content, hcontent, hfirst⟩ := ih List.mem_cons_self
          refine ⟨c :: content, ?_, ?_⟩
          · rw [List.mem_cons, not_or]
            exact ⟨Ne.symm hc, hcontent⟩
          · exact hfirst.imp (congrArg _) (congrArg _)
        · exact ih (List.mem_cons_of_mem _ h)

/-- The test of the code for the line that ends the front matter. -/
theorem trimLine_eq_dashes {line : List Char} (h : IsLine line) :
    trimEndMatches (fun c => c == '\r' || c == '\n') line = ['-', '-', '-'] ↔
      DelimiterLine line := by
  rw [trimEndMatches_eq_dashes (by decide)]
  constructor
  · rintro ⟨tail, rfl, htail⟩
    obtain ⟨content, hcontent, hline⟩ := h
    refine ⟨content, ?_, hline⟩
    rw [← trimReturns_eq_dashes, trimEndMatches_eq_dashes (by decide)]
    -- the content is the dashes and the rest of the tail, without its line feed
    have hprefix : ∃ rest, content = ['-', '-', '-'] ++ rest ∧ ∀ c ∈ rest, c ∈ tail := by
      rcases hline with hline | hline
      · exact ⟨tail, hline.symm, fun c hc => hc⟩
      · rcases List.eq_nil_or_concat tail with rfl | ⟨rest, last, rfl⟩
        · have hlast := congrArg List.getLast? hline
          simp at hlast
        · rw [List.concat_eq_append, ← List.append_assoc] at hline
          obtain ⟨hsame, -⟩ := List.append_inj' hline rfl
          refine ⟨rest, hsame.symm, fun c hc => ?_⟩
          rw [List.concat_eq_append]
          exact List.mem_append_left _ hc
    obtain ⟨rest, rfl, hrest⟩ := hprefix
    refine ⟨rest, rfl, fun c hc => ?_⟩
    rcases (Bool.or_eq_true _ _).mp (htail c (hrest c hc)) with hreturn | hfeed
    · exact hreturn
    · rw [eq_of_beq hfeed] at hc
      exact absurd (List.mem_append_right _ hc) hcontent
  · rintro ⟨content, ⟨n, rfl⟩, rfl | rfl⟩
    · refine ⟨_, rfl, fun c hc => ?_⟩
      rw [List.eq_of_mem_replicate hc]
      rfl
    · refine ⟨_, List.append_assoc _ _ _, fun c hc => ?_⟩
      rcases List.mem_append.mp hc with hc | hc
      · rw [List.eq_of_mem_replicate hc]
        rfl
      · rw [List.mem_singleton.mp hc]
        rfl

/-- Nothing, or lines that all end. -/
def Ended (text : List Char) : Prop := text = [] ∨ ∃ content, text = content ++ ['\n']

theorem splitInclusive_line {content : List Char} (h : '\n' ∉ content) (text : List Char) :
    splitInclusive (content ++ '\n' :: text) = (content ++ ['\n']) :: splitInclusive text := by
  induction content with
  | nil => rw [List.nil_append, splitInclusive, if_pos rfl, List.nil_append]
  | cons c content ih =>
    rw [List.mem_cons, not_or] at h
    rw [List.cons_append, splitInclusive, if_neg (Ne.symm h.1), ih h.2]
    rfl

theorem splitInclusive_open {text : List Char} (h : '\n' ∉ text) (hne : text ≠ []) :
    splitInclusive text = [text] := by
  induction text with
  | nil => exact absurd rfl hne
  | cons c text ih =>
    rw [List.mem_cons, not_or] at h
    rw [splitInclusive, if_neg (Ne.symm h.1)]
    cases text with
    | nil => rfl
    | cons d text => rw [ih h.2 (List.cons_ne_nil _ _)]

/-- The lines of a text that ends with a line feed do not depend on what is behind it. -/
theorem splitInclusive_append {text : List Char} (h : Ended text) (more : List Char) :
    splitInclusive (text ++ more) = splitInclusive text ++ splitInclusive more := by
  rcases h with rfl | ⟨content, rfl⟩
  · rfl
  -- by length: behind its first line the text still ends with a line feed, or is over
  induction hlength : content.length using Nat.strong_induction_on generalizing content with
  | _ n ih =>
    by_cases hmem : '\n' ∈ content
    · obtain ⟨line, rest, rfl, hline⟩ := List.eq_append_cons_of_mem hmem
      have hrest := ih rest.length (by rw [← hlength]; simp; omega) rest rfl
      have hwhole : line ++ '\n' :: rest ++ ['\n'] = line ++ '\n' :: (rest ++ ['\n']) := by simp
      rw [hwhole, List.append_assoc, List.cons_append, splitInclusive_line hline,
        splitInclusive_line hline, List.cons_append, hrest]
    · rw [List.append_assoc, List.singleton_append, splitInclusive_line hmem,
        splitInclusive_line hmem, splitInclusive, List.singleton_append]

/-- Some of the first lines of a text are the lines of a text. -/
theorem splitInclusive_flatten {text : List Char} {front back : List (List Char)}
    (h : splitInclusive text = front ++ back) : splitInclusive front.flatten = front := by
  induction text generalizing front with
  | nil =>
    obtain ⟨rfl, -⟩ := List.append_eq_nil_iff.mp h.symm
    rfl
  | cons c text ih =>
    cases front with
    | nil => rfl
    | cons line front =>
      rw [splitInclusive] at h
      split at h
      · next hc =>
        obtain ⟨rfl, hfront⟩ := List.cons.inj h
        rw [List.flatten_cons, List.singleton_append, splitInclusive, if_pos hc, ih hfront]
      · next hc =>
        split at h
        · obtain ⟨rfl, hfront⟩ := List.cons.inj h
          obtain ⟨rfl, -⟩ := List.append_eq_nil_iff.mp hfront.symm
          exact splitInclusive_open (by simpa using Ne.symm hc) (List.cons_ne_nil _ _)
        · next first lines hlines =>
          obtain ⟨rfl, rfl⟩ := List.cons.inj h
          have hfirst : splitInclusive (first :: front).flatten = first :: front := ih hlines
          rw [List.flatten_cons] at hfirst
          rw [List.flatten_cons, List.cons_append, splitInclusive, if_neg hc, hfirst]

/-- Every line but the last ends. -/
theorem line_ends {text line next : List Char} {front back : List (List Char)}
    (h : splitInclusive text = front ++ line :: next :: back) :
    ∃ content, line = content ++ ['\n'] := by
  induction text generalizing front line with
  | nil => exact absurd h (by simp [splitInclusive])
  | cons c text ih =>
    rw [splitInclusive] at h
    split at h
    · next hc =>
      cases front with
      | nil =>
        obtain ⟨rfl, -⟩ := List.cons.inj h
        exact ⟨[], by rw [hc]; rfl⟩
      | cons _ front => exact ih (List.cons.inj h).2
    · split at h
      · have hlength := congrArg List.length h
        simp at hlength
        omega
      · next first lines hlines =>
        cases front with
        | nil =>
          obtain ⟨rfl, rfl⟩ := List.cons.inj h
          rw [← List.nil_append (first :: _)] at hlines
          obtain ⟨content, rfl⟩ := ih hlines
          exact ⟨c :: content, rfl⟩
        | cons _ front =>
          obtain ⟨-, rfl⟩ := List.cons.inj h
          have hfirst : splitInclusive text = (first :: front) ++ line :: next :: back := hlines
          exact ih hfirst

theorem ended_of_lines {text line : List Char} {front back : List (List Char)}
    (h : splitInclusive text = front ++ line :: back) : Ended front.flatten := by
  rcases List.eq_nil_or_concat front with rfl | ⟨front, last, rfl⟩
  · exact .inl rfl
  rw [List.concat_eq_append] at h ⊢
  rw [List.append_assoc, List.singleton_append] at h
  obtain ⟨content, rfl⟩ := line_ends h
  refine .inr ⟨front.flatten ++ content, ?_⟩
  simp

/-! ## What is split -/

/-- Where the front matter ends: at the first delimiter line. -/
theorem closeFrontMatter_eq_ok {before : List Char} {lines : List (List Char)}
    (hlines : ∀ line ∈ lines, IsLine line) {parts : List Char × List Char} :
    closeFrontMatter before lines = .ok parts ↔
      ∃ skipped closing rest, lines = skipped ++ closing :: rest ∧ DelimiterLine closing ∧
        (∀ line ∈ skipped, ¬DelimiterLine line) ∧
        parts = (before ++ skipped.flatten, rest.flatten) := by
  induction lines generalizing before with
  | nil =>
    rw [closeFrontMatter]
    simp
  | cons line lines ih =>
    have htrim := trimLine_eq_dashes (hlines line List.mem_cons_self)
    rw [closeFrontMatter]
    split
    · next hdashes =>
      rw [Except.ok.injEq]
      constructor
      · rintro rfl
        exact ⟨[], line, lines, rfl, htrim.mp hdashes, by simp, by simp⟩
      · rintro ⟨skipped, closing, rest, heq, -, hskipped, rfl⟩
        cases skipped with
        | nil =>
          obtain ⟨-, rfl⟩ := List.cons.inj heq
          simp
        | cons first skipped =>
          obtain ⟨rfl, -⟩ := List.cons.inj heq
          exact absurd (htrim.mp hdashes) (hskipped _ List.mem_cons_self)
    · next hdashes =>
      have hline : ¬DelimiterLine line := fun h => hdashes (htrim.mpr h)
      rw [ih fun line h => hlines line (List.mem_cons_of_mem _ h)]
      constructor
      · rintro ⟨skipped, closing, rest, rfl, hclosing, hskipped, rfl⟩
        refine ⟨line :: skipped, closing, rest, rfl, hclosing, ?_, by simp⟩
        intro other hother
        rcases List.mem_cons.mp hother with rfl | hother
        · exact hline
        · exact hskipped other hother
      · rintro ⟨skipped, closing, rest, heq, hclosing, hskipped, rfl⟩
        cases skipped with
        | nil =>
          obtain ⟨rfl, -⟩ := List.cons.inj heq
          exact absurd hclosing hline
        | cons first skipped =>
          obtain ⟨rfl, rfl⟩ := List.cons.inj heq
          exact ⟨skipped, closing, rest, rfl, hclosing,
            fun other h => hskipped other (List.mem_cons_of_mem _ h), by simp⟩

/-- The line that ends a front matter. It ends itself, unless it is the last of the text. -/
def Closing (closing body : List Char) : Prop :=
  DelimiterLine closing ∧ (Dashes closing → body = [])

/-- **A text with a front matter**: an opening line, lines that are no delimiter, a delimiter line
and the body. -/
structure Frames (text opening frontMatter closing body : List Char) : Prop where
  whole : text = opening ++ '\n' :: (frontMatter ++ closing ++ body)
  opens : Dashes opening
  ended : Ended frontMatter
  undelimited : ∀ line ∈ splitInclusive frontMatter, ¬DelimiterLine line
  closes : Closing closing body

theorem closing_cases {closing body : List Char} (h : Closing closing body) :
    body = [] ∧ Dashes closing ∨ ∃ content, Dashes content ∧ closing = content ++ ['\n'] := by
  obtain ⟨⟨content, hcontent, rfl | rfl⟩, hwhole⟩ := h
  · exact .inl ⟨hwhole hcontent, hcontent⟩
  · exact .inr ⟨content, hcontent, rfl⟩

/-- The lines behind the opening of a text with a front matter. -/
theorem Frames.lines {text opening frontMatter closing body : List Char}
    (h : Frames text opening frontMatter closing body) :
    splitInclusive (frontMatter ++ closing ++ body) =
      splitInclusive frontMatter ++ closing :: splitInclusive body := by
  rw [List.append_assoc, splitInclusive_append h.ended]
  refine congrArg _ ?_
  rcases closing_cases h.closes with ⟨rfl, n, rfl⟩ | ⟨content, hcontent, rfl⟩
  · -- the last line, which no line feed ends
    have hnot : '\n' ∉ ['-', '-', '-'] ++ List.replicate n '\r' := not_mem_of_dashes ⟨n, rfl⟩
    rw [List.append_nil, splitInclusive_open hnot (by simp)]
    rfl
  · rw [List.append_assoc, List.singleton_append,
      splitInclusive_line (not_mem_of_dashes hcontent)]

/-- The text behind an opening line, cut at its first delimiter line. -/
theorem frames_of_lines {opening remaining closing : List Char} (hopening : Dashes opening)
    {skipped rest : List (List Char)}
    (hlines : splitInclusive remaining = skipped ++ closing :: rest)
    (hclosing : DelimiterLine closing) (hskipped : ∀ line ∈ skipped, ¬DelimiterLine line) :
    Frames (opening ++ '\n' :: remaining) opening skipped.flatten closing rest.flatten := by
  refine ⟨?_, hopening, ended_of_lines hlines, ?_, hclosing, ?_⟩
  · rw [← flatten_splitInclusive remaining, hlines]
    simp
  · rw [splitInclusive_flatten hlines]
    exact hskipped
  · intro hdashes
    cases rest with
    | nil => rfl
    | cons line rest =>
      -- behind the closing line there is another one, so it ends
      obtain ⟨content, rfl⟩ := line_ends hlines
      exact absurd (List.mem_append_right _ List.mem_cons_self) (not_mem_of_dashes hdashes)

/-- A text is split where it has a front matter. -/
theorem splitFrontMatter_eq_ok {text frontMatter body : String} :
    splitFrontMatter text = .ok (frontMatter, body) ↔
      ∃ opening closing, Frames text.toList opening frontMatter.toList closing body.toList := by
  constructor
  · intro h
    by_cases hmem : '\n' ∈ text.toList
    · obtain ⟨opening, remaining, htext, hnot⟩ := List.eq_append_cons_of_mem hmem
      rw [splitFrontMatter_eq htext hnot] at h
      split at h
      · next hdashes =>
        obtain ⟨parts, hparts, heq⟩ := Except.map_eq_ok.mp h
        obtain ⟨skipped, closing, rest, hlines, hclosing, hskipped, rfl⟩ :=
          (closeFrontMatter_eq_ok fun line hline => isLine_of_mem hline).mp hparts
        obtain ⟨rfl, rfl⟩ := Prod.mk.inj heq
        refine ⟨opening, closing, ?_⟩
        rw [htext, String.toList_ofList, String.toList_ofList, List.nil_append]
        exact frames_of_lines (trimReturns_eq_dashes.mp hdashes) hlines hclosing hskipped
      · exact absurd h (by simp)
    · rw [splitFrontMatter_error hmem] at h
      exact absurd h (by simp)
  · rintro ⟨opening, closing, h⟩
    rw [splitFrontMatter_eq h.whole (not_mem_of_dashes h.opens),
      if_pos (trimReturns_eq_dashes.mpr h.opens), h.lines, Except.map_eq_ok]
    refine ⟨(frontMatter.toList, body.toList), ?_, by simp⟩
    refine (closeFrontMatter_eq_ok fun line hline => ?_).mpr
      ⟨_, closing, _, rfl, h.closes.1, h.undelimited, ?_⟩
    · rw [← h.lines] at hline
      exact isLine_of_mem hline
    · rw [flatten_splitInclusive, flatten_splitInclusive]
      rfl

theorem exists_first {lines : List (List Char)} (h : ∃ line ∈ lines, DelimiterLine line) :
    ∃ skipped closing rest, lines = skipped ++ closing :: rest ∧ DelimiterLine closing ∧
      ∀ line ∈ skipped, ¬DelimiterLine line := by
  induction lines with
  | nil => exact absurd h (by simp)
  | cons first lines ih =>
    by_cases hfirst : DelimiterLine first
    · exact ⟨[], first, lines, rfl, hfirst, by simp⟩
    · obtain ⟨line, hline, hdelimiter⟩ := h
      have hlater : line ∈ lines :=
        (List.mem_cons.mp hline).resolve_left fun heq => hfirst (heq ▸ hdelimiter)
      obtain ⟨skipped, closing, rest, rfl, hclosing, hskipped⟩ := ih ⟨line, hlater, hdelimiter⟩
      refine ⟨first :: skipped, closing, rest, rfl, hclosing, ?_⟩
      intro other hother
      rcases List.mem_cons.mp hother with rfl | hother
      · exact hfirst
      · exact hskipped other hother

/-- When a text is split: its first line and a later one are delimiters. -/
theorem splitFrontMatter_isOk {text : String} :
    (∃ parts, splitFrontMatter text = .ok parts) ↔
      ∃ opening remaining, text.toList = opening ++ '\n' :: remaining ∧ Dashes opening ∧
        ∃ line ∈ splitInclusive remaining, DelimiterLine line := by
  constructor
  · rintro ⟨⟨frontMatter, body⟩, hparts⟩
    obtain ⟨opening, closing, h⟩ := splitFrontMatter_eq_ok.mp hparts
    refine ⟨opening, _, h.whole, h.opens, closing, ?_, h.closes.1⟩
    rw [h.lines]
    exact List.mem_append_right _ List.mem_cons_self
  · rintro ⟨opening, remaining, htext, hopening, hline⟩
    obtain ⟨skipped, closing, rest, hlines, hclosing, hskipped⟩ := exists_first hline
    have hframes := frames_of_lines hopening hlines hclosing hskipped
    refine ⟨(String.ofList skipped.flatten, String.ofList rest.flatten),
      splitFrontMatter_eq_ok.mpr ⟨opening, closing, ?_⟩⟩
    rw [htext, String.toList_ofList, String.toList_ofList]
    exact hframes

/-- **A front matter is split losslessly**, and no slice panics. -/
theorem frontMatter_lossless (text : String) :
    (∃ result, sliceFrontMatter text = some result) ∧
    ((∃ parts, sliceFrontMatter text = some (.ok parts)) ↔
      ∃ opening remaining, text.toList = opening ++ '\n' :: remaining ∧ Dashes opening ∧
        ∃ line ∈ splitInclusive remaining, DelimiterLine line) ∧
    (∀ frontMatter body, sliceFrontMatter text = some (.ok (frontMatter, body)) ↔
      ∃ opening closing, Frames text.toList opening frontMatter.toList closing body.toList) ∧
    ∀ frontMatter body : String, Ended frontMatter.toList →
      (∀ line ∈ splitInclusive frontMatter.toList, ¬DelimiterLine line) →
      sliceFrontMatter ("---\n" ++ frontMatter ++ "---\n" ++ body) =
        some (.ok (frontMatter, body)) := by
  simp only [sliceFrontMatter_eq, Option.some.injEq]
  refine ⟨⟨_, rfl⟩, splitFrontMatter_isOk, fun _ _ => splitFrontMatter_eq_ok, ?_⟩
  intro frontMatter body hended hundelimited
  refine splitFrontMatter_eq_ok.mpr ⟨['-', '-', '-'], ['-', '-', '-', '\n'], ?_⟩
  have hdashes : Dashes ['-', '-', '-'] := ⟨0, rfl⟩
  refine ⟨?_, hdashes, hended, hundelimited, ⟨_, hdashes, .inr rfl⟩, ?_⟩
  · rw [String.toList_append, String.toList_append, String.toList_append]
    simp
  · rintro ⟨n, hn⟩
    have hmem : '\n' ∈ ['-', '-', '-'] ++ List.replicate n '\r' := hn ▸ by simp
    exact absurd hmem (not_mem_of_dashes ⟨n, rfl⟩)

end Piqo
