import Mathlib.Data.List.Forall2
import PiqoServer.Library.Framing
import PiqoServer.Library.TornText

/-!
# Frames of lines

A text of frames, each of which is some lines and ends with an empty one, as streams of server-sent
events are. A reader that decodes it chunk by chunk, and cuts frames off at two line feeds, reads the
frames that have arrived as a whole: their lines are those that were written, up to the characters
that a chunk ended within.

## Main definitions

* `blankLine`: the end of a frame
* `unlines`, `joined`: lines that are ended, and lines as one text
* `frameText`: the text of a frame
* `TornLine`: what is read in the place of a line

## Main results

* `drain_frames`: the frames of a text
* `torn_frames`: a text of frames is torn line by line
* `frames_of_chunks`: the frames read of a prefix of a text
-/

namespace TextFrames

open Utf8

/-! ## The end of a frame -/

/-- Where two line feeds stand first. -/
def findBlank : List Char → Option Nat
  | [] => none
  | c :: cs => if c = '\n' ∧ cs.head? = some '\n' then some 0 else (findBlank cs).map (· + 1)

theorem findBlank_fits {text : List Char} {index : Nat} (h : findBlank text = some index) :
    index + 2 ≤ text.length := by
  induction text generalizing index with
  | nil => cases h
  | cons c cs ih =>
    rw [findBlank] at h
    split at h
    · next hblank =>
      cases h
      cases cs with
      | nil => cases hblank.2
      | cons d cs => exact Nat.le_add_left _ _
    · obtain ⟨i, hi, rfl⟩ := Option.map_eq_some_iff.mp h
      have hle := ih hi
      rw [List.length_cons]
      omega

theorem findBlank_append {text : List Char} {index : Nat} (h : findBlank text = some index)
    (more : List Char) : findBlank (text ++ more) = some index := by
  induction text generalizing index with
  | nil => cases h
  | cons c cs ih =>
    rw [findBlank] at h
    rw [List.cons_append, findBlank]
    cases cs with
    | nil => simp [findBlank] at h
    | cons d cs =>
      split at h
      · next hblank =>
        cases h
        exact if_pos hblank
      · next hblank =>
        obtain ⟨i, hi, rfl⟩ := Option.map_eq_some_iff.mp h
        have hblank' : ¬(c = '\n' ∧ (d :: cs ++ more).head? = some '\n') := hblank
        rw [if_neg hblank', ih hi]
        rfl

/-- A frame ends with two line feeds. -/
def blankLine : Delimiter Char where
  find text := (findBlank text).map (·, 2)
  fits h := by
    obtain ⟨i, hi, heq⟩ := Option.map_eq_some_iff.mp h
    cases heq
    exact ⟨by decide, findBlank_fits hi⟩
  stable h more := by
    obtain ⟨i, hi, heq⟩ := Option.map_eq_some_iff.mp h
    rw [findBlank_append hi more]
    exact congrArg some heq

/-! ## Lines -/

/-- Lines, each of which is ended. -/
def unlines (lines : List (List Char)) : List Char := lines.flatMap (· ++ ['\n'])

/-- Lines as one text. -/
def joined : List (List Char) → List Char
  | [] => []
  | [line] => line
  | line :: next :: lines => line ++ '\n' :: joined (next :: lines)

/-- The lines of a frame, and the empty one behind them. -/
def frameText (lines : List (List Char)) : List Char := unlines (lines ++ [[]])

/-- A line that can be told from the end of a frame. -/
def Solid (line : List Char) : Prop := line ≠ [] ∧ '\n' ∉ line

/-- Lines that make a frame. -/
def FrameOf (lines : List (List Char)) : Prop := lines ≠ [] ∧ ∀ line ∈ lines, Solid line

theorem unlines_cons (line : List Char) (lines : List (List Char)) :
    unlines (line :: lines) = line ++ '\n' :: unlines lines := by
  simp [unlines]

theorem unlines_append (lines lines' : List (List Char)) :
    unlines (lines ++ lines') = unlines lines ++ unlines lines' :=
  List.flatMap_append

/-- The last line feed of a frame is the one that ends the empty line. -/
theorem frameText_eq {lines : List (List Char)} (hne : lines ≠ []) :
    frameText lines = joined lines ++ ['\n', '\n'] := by
  rw [frameText, unlines_append]
  induction lines with
  | nil => exact absurd rfl hne
  | cons line lines ih =>
    cases lines with
    | nil => simp [unlines, joined]
    | cons next lines =>
      rw [unlines_cons, joined, List.append_assoc, List.cons_append, ih (by simp),
        List.append_assoc, List.cons_append]

theorem findBlank_line {line : List Char} (hline : '\n' ∉ line) (rest : List Char) :
    findBlank (line ++ rest) = (findBlank rest).map (· + line.length) := by
  induction line with
  | nil => cases h : findBlank rest <;> simp [h]
  | cons c line ih =>
    rw [List.mem_cons, not_or] at hline
    rw [List.cons_append, findBlank, if_neg fun h => hline.1 h.1.symm, ih hline.2, Option.map_map]
    congr 1

theorem head?_joined {line : List Char} (hline : Solid line) (lines : List (List Char))
    (rest : List Char) : (joined (line :: lines) ++ rest).head? ≠ some '\n' := by
  obtain ⟨c, cs, rfl⟩ := List.exists_cons_of_ne_nil hline.1
  have hc : c ≠ '\n' := fun h => hline.2 (h ▸ List.mem_cons_self)
  cases lines <;> simp [joined, hc]

/-- **A frame ends where its lines do.** -/
theorem findBlank_frame {lines : List (List Char)} (h : FrameOf lines) (rest : List Char) :
    findBlank (frameText lines ++ rest) = some (joined lines).length := by
  rw [frameText_eq h.1]
  obtain ⟨hne, hsolid⟩ := h
  induction lines with
  | nil => exact absurd rfl hne
  | cons line lines ih =>
    rw [List.forall_mem_cons] at hsolid
    cases lines with
    | nil =>
      rw [joined, List.append_assoc, findBlank_line hsolid.1.2]
      simp [findBlank]
    | cons next lines =>
      have hhead := head?_joined (hsolid.2 next List.mem_cons_self) lines
        (['\n', '\n'] ++ rest)
      rw [List.append_assoc] at ih
      rw [joined, List.append_assoc, List.append_assoc, findBlank_line hsolid.1.2, List.cons_append,
        findBlank, if_neg fun h => hhead h.2, ih (by simp) hsolid.2, Option.map_some,
        Option.map_some, List.length_append, List.length_cons]
      congr 1
      omega

/-! ## Reading frames -/

section Drain

variable {α ε : Type} {d : Delimiter α}

/-- Reading that accepts every frame does not fail. -/
theorem drain_accepts (buffer : List α) :
    ∃ frames rest, d.drain (Except.ok : List α → Except ε (List α)) buffer = (frames, .ok rest) := by
  induction hn : buffer.length using Nat.strong_induction_on generalizing buffer with
  | _ n ih =>
    rw [Delimiter.drain_eq]
    cases hfind : d.find buffer with
    | none => exact ⟨[], buffer, rfl⟩
    | some place =>
      obtain ⟨frames, rest, hdrain⟩ := ih _ (hn ▸ Delimiter.length_drop_lt hfind) _ rfl
      exact ⟨buffer.take place.1 :: frames, rest, by simp only [hdrain]⟩

/-- What has arrived first is read first. -/
theorem drain_prefix (buffer more : List α) :
    (d.drain (Except.ok : List α → Except ε (List α)) buffer).1 <+:
      (d.drain (Except.ok : List α → Except ε (List α)) (buffer ++ more)).1 := by
  obtain ⟨frames, rest, hdrain⟩ := @drain_accepts α ε d buffer
  rw [Delimiter.drain_append, hdrain]
  exact List.prefix_append _ _

end Drain

/-- **The frames of a text.** -/
theorem drain_frames {ε : Type} {frames : List (List (List Char))}
    (h : ∀ lines ∈ frames, FrameOf lines) :
    blankLine.drain (Except.ok : List Char → Except ε (List Char)) (frames.flatMap frameText) =
      (frames.map joined, .ok []) := by
  induction frames with
  | nil => exact Delimiter.drain_of_find_eq_none Delimiter.find_nil
  | cons lines frames ih =>
    rw [List.forall_mem_cons] at h
    have hfind : blankLine.find (frameText lines ++ frames.flatMap frameText) =
        some ((joined lines).length, 2) :=
      congrArg (Option.map (·, 2)) (findBlank_frame h.1 _)
    have htext : frameText lines ++ frames.flatMap frameText =
        joined lines ++ (['\n', '\n'] ++ frames.flatMap frameText) := by
      rw [frameText_eq h.1.1, List.append_assoc]
    rw [List.flatMap_cons, Delimiter.drain_eq, hfind]
    simp only
    rw [htext, List.take_left, ← List.drop_drop, List.drop_left]
    change (joined lines :: (blankLine.drain Except.ok (frames.flatMap frameText)).1, _) = _
    rw [List.drop_left' (show ['\n', '\n'].length = 2 from rfl), ih h.2]
    rfl

/-! ## Torn lines -/

/-- What is read in the place of a line. -/
def TornLine (line read : List Char) : Prop := ∃ cuts start, Torn cuts start line read

/-- Each character is a single byte. -/
def Ascii (text : List Char) : Prop := ∀ c ∈ text, c.utf8Size = 1

instance (text : List Char) : Decidable (Ascii text) :=
  List.decidableBAll (fun c : Char => c.utf8Size = 1) text

section Torn

variable {cuts : List Nat} {start : Nat} {text read : List Char} {c : Char}

/-- A character of a single byte is not cut. -/
theorem torn_cons (hc : c.utf8Size = 1) (h : Torn cuts start (c :: text) read) :
    ∃ read', read = c :: read' ∧ Torn cuts (start + c.utf8Size) text read' := by
  cases h with
  | whole hcut h => exact ⟨_, rfl, h⟩
  | lost count hcut hcount hsize h => omega

/-- Text of single bytes is read as it is. -/
theorem torn_append {plain : List Char} (hplain : Ascii plain)
    (h : Torn cuts start (plain ++ text) read) :
    ∃ read', read = plain ++ read' ∧ TornLine text read' := by
  induction plain generalizing start read with
  | nil => exact ⟨read, rfl, cuts, start, h⟩
  | cons c plain ih =>
    rw [Ascii, List.forall_mem_cons] at hplain
    obtain ⟨read', rfl, h'⟩ := torn_cons hplain.1 h
    obtain ⟨read'', rfl, h''⟩ := ih hplain.2 h'
    exact ⟨read'', rfl, h''⟩

theorem TornLine.eq_of_plain (htext : Ascii text) (h : TornLine text read) :
    read = text := by
  obtain ⟨cuts, start, h⟩ := h
  rw [← List.append_nil text] at h
  obtain ⟨read', rfl, _, _, hnil⟩ := torn_append htext h
  cases hnil
  exact List.append_nil text

theorem mem_of_torn (h : Torn cuts start text read) (hc : c ∈ read) : c = replacement ∨ c ∈ text := by
  induction h with
  | nil => cases hc
  | whole _ _ ih =>
    rcases List.mem_cons.mp hc with rfl | hc
    · exact .inr List.mem_cons_self
    · exact (ih hc).imp id (List.mem_cons_of_mem _)
  | lost count _ _ _ _ ih =>
    rcases List.mem_append.mp hc with hc | hc
    · exact .inl (List.eq_of_mem_replicate hc)
    · exact (ih hc).imp id (List.mem_cons_of_mem _)

theorem TornLine.not_mem (h : TornLine text read) (hc : c ≠ replacement) (htext : c ∉ text) :
    c ∉ read := by
  obtain ⟨cuts, start, h⟩ := h
  exact fun hmem => (mem_of_torn h hmem).elim hc htext

theorem TornLine.solid (h : TornLine text read) (hsolid : Solid text) : Solid read := by
  refine ⟨?_, h.not_mem (by decide) hsolid.2⟩
  rintro rfl
  obtain ⟨cuts, start, h⟩ := h
  have hle := h.length_le
  rw [List.length_nil, Nat.le_zero, List.length_eq_zero_iff] at hle
  exact hsolid.1 hle

theorem torn_unlines {lines : List (List Char)} (h : Torn cuts start (unlines lines) read) :
    ∃ lines', read = unlines lines' ∧ List.Forall₂ TornLine lines lines' := by
  induction lines generalizing start read with
  | nil =>
    cases h
    exact ⟨[], rfl, .nil⟩
  | cons line lines ih =>
    rw [unlines_cons] at h
    obtain ⟨line', rest, rfl, hline, hrest⟩ := h.append_left
    obtain ⟨rest', rfl, h'⟩ := torn_cons (by decide) hrest
    obtain ⟨lines', rfl, hlines⟩ := ih h'
    exact ⟨line' :: lines', (unlines_cons _ _).symm, .cons ⟨cuts, start, hline⟩ hlines⟩

/-- The empty line behind a frame stays empty. -/
theorem torn_frameText {lines : List (List Char)} (h : Torn cuts start (frameText lines) read) :
    ∃ lines', read = frameText lines' ∧ List.Forall₂ TornLine lines lines' := by
  rw [frameText, unlines_append] at h
  obtain ⟨read₁, read₂, rfl, h₁, h₂⟩ := h.append_left
  obtain ⟨lines', rfl, hlines⟩ := torn_unlines h₁
  obtain ⟨rest, rfl, hrest⟩ := torn_cons (by decide) h₂
  cases hrest
  exact ⟨lines', (unlines_append lines' [[]]).symm, hlines⟩

/-- **A text of frames is torn line by line.** -/
theorem torn_frames {frames : List (List (List Char))}
    (h : Torn cuts start (frames.flatMap frameText) read) :
    ∃ frames', read = frames'.flatMap frameText ∧
      List.Forall₂ (List.Forall₂ TornLine) frames frames' := by
  induction frames generalizing start read with
  | nil =>
    cases h
    exact ⟨[], rfl, .nil⟩
  | cons lines frames ih =>
    rw [List.flatMap_cons] at h
    obtain ⟨read₁, read₂, rfl, h₁, h₂⟩ := h.append_left
    obtain ⟨lines', rfl, hlines⟩ := torn_frameText h₁
    obtain ⟨frames', rfl, hframes⟩ := ih h₂
    exact ⟨lines' :: frames', rfl, .cons hlines hframes⟩

end Torn

/-! ## Chunks -/

theorem frameOf_torn {lines lines' : List (List Char)} (h : List.Forall₂ TornLine lines lines')
    (hframe : FrameOf lines) : FrameOf lines' := by
  obtain ⟨hne, hsolid⟩ := hframe
  refine ⟨?_, ?_⟩
  · rintro rfl
    cases h
    exact hne rfl
  · clear hne
    induction h with
    | nil => exact hsolid
    | cons hline _ ih =>
      rw [List.forall_mem_cons] at hsolid ⊢
      exact ⟨hline.solid hsolid.1, ih hsolid.2⟩

/-- **The frames read of a prefix of a text**, however it is cut into chunks: the first ones, torn
line by line. -/
theorem frames_of_chunks {ε : Type} {frames : List (List (List Char))}
    (hframes : ∀ lines ∈ frames, FrameOf lines) {chunks : List (List UInt8)}
    (h : chunks.flatten <+: encode (frames.flatMap frameText)) :
    ∃ read, List.Forall₂ (List.Forall₂ TornLine) (frames.take read.length) read ∧
      (blankLine.drain (Except.ok : List Char → Except ε (List Char)) (decodeChunks chunks)).1 =
        read.map joined := by
  obtain ⟨rest, hrest⟩ := h
  -- what has not arrived is one more chunk
  have htorn := @torn_of_chunks 0 (frames.flatMap frameText) (chunks ++ [rest])
    (by rw [List.flatten_append, List.flatten_singleton, hrest])
  have hchunks : decodeChunks (chunks ++ [rest]) = decodeChunks chunks ++ decodeLossy rest := by
    simp [decodeChunks]
  obtain ⟨frames', heq, htorn'⟩ := torn_frames htorn
  have hframes' : ∀ lines ∈ frames', FrameOf lines := by
    clear heq htorn hrest
    induction htorn' with
    | nil => exact hframes
    | cons hlines _ ih =>
      rw [List.forall_mem_cons] at hframes ⊢
      exact ⟨frameOf_torn hlines hframes.1, ih hframes.2⟩
  have hprefix := drain_prefix (d := blankLine) (ε := ε) (decodeChunks chunks) (decodeLossy rest)
  rw [← hchunks, heq, drain_frames hframes'] at hprefix
  obtain ⟨n, hn⟩ : ∃ n, (blankLine.drain (Except.ok : List Char → Except ε (List Char))
      (decodeChunks chunks)).1 = (frames'.map joined).take n :=
    ⟨_, List.prefix_iff_eq_take.mp hprefix⟩
  refine ⟨frames'.take n, ?_, by rw [hn, List.map_take]⟩
  have htake := List.forall₂_take n htorn'
  have hlength := htake.length_eq
  rwa [← hlength, List.length_take, ← List.take_take, List.take_length]

end TextFrames
