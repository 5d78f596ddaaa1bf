import PiqoServer.Library.Framing
import PiqoServer.Library.Utf8
import PiqoServer.Core.Text
import PiqoServer.Server.Operations

/-!
# The frames of a provider's stream

The stream loop of `execute_run` (`piqo-server/src/supervisor.rs`) collects the bytes it receives,
cuts frames off at the earlier of two delimiters, reads each frame as UTF-8 and takes its event
type and its data from its lines.

## Main definitions

* `findSseFrameEnd`, `parseSseFrame`: the end of a frame, and what a frame says
* `sseDelimiter`, `readFrame`: the loop as an instance of framing
* `ByteItem`, `decodeItems`: a stream of bytes as what the run comes upon

## Main results

* `findSseFrameEnd_append`: an end that has been found stays, whatever is received later
* `sse_chunking`: the frames and the first error do not depend on how the bytes are cut into chunks
* `decodeItems_frames`: the run gets these frames
-/

namespace Piqo

/-! ## The end of a frame -/

/-- `buffer.windows(pattern.len()).position(|window| window == pattern)`, for a pattern that is not
empty. -/
def position (pattern : List UInt8) : List UInt8 → Option Nat
  | [] => none
  | b :: bs =>
    if pattern.isPrefixOf (b :: bs) then some 0 else (position pattern bs).map (· + 1)

def lfLf : List UInt8 := [10, 10]

def crlfCrlf : List UInt8 := [13, 10, 13, 10]

/-- The length of the first frame, and that of the delimiter behind it. -/
def findSseFrameEnd (buffer : List UInt8) : Option (Nat × Nat) :=
  match position lfLf buffer, position crlfCrlf buffer with
  | some lf, some crlf => if crlf < lf then some (crlf, 4) else some (lf, 2)
  | some lf, none => some (lf, 2)
  | none, some crlf => some (crlf, 4)
  | none, none => none

section Position

variable {pattern buffer : List UInt8} {index : Nat}

theorem position_holds (h : position pattern buffer = some index) :
    pattern <+: buffer.drop index := by
  induction buffer generalizing index with
  | nil => cases h
  | cons b bs ih =>
    rw [position] at h
    split at h
    · next hprefix =>
      cases h
      exact List.isPrefixOf_iff_prefix.mp hprefix
    · obtain ⟨i, hi, rfl⟩ := Option.map_eq_some_iff.mp h
      exact ih hi

theorem position_fits (h : position pattern buffer = some index) :
    pattern.length ≤ buffer.length - index := by
  have hlength := (position_holds h).length_le
  rwa [List.length_drop] at hlength

/-- A pattern that fits into the buffer is found there or not at all. -/
theorem prefix_of_append {more : List UInt8} (hlength : pattern.length ≤ buffer.length)
    (h : pattern <+: buffer ++ more) : pattern <+: buffer :=
  List.prefix_of_prefix_length_le h (List.prefix_append buffer more) hlength

/-- What is found in a buffer is found when more comes behind it. -/
theorem position_append (h : position pattern buffer = some index) (more : List UInt8) :
    position pattern (buffer ++ more) = some index := by
  induction buffer generalizing index with
  | nil => cases h
  | cons b bs ih =>
    rw [position] at h
    rw [List.cons_append, position]
    split at h
    · next hprefix =>
      cases h
      have hmore : pattern <+: b :: (bs ++ more) :=
        (List.isPrefixOf_iff_prefix.mp hprefix).trans (List.prefix_append (b :: bs) more)
      rw [if_pos (List.isPrefixOf_iff_prefix.mpr hmore)]
    · next hprefix =>
      obtain ⟨i, hi, rfl⟩ := Option.map_eq_some_iff.mp h
      have hfits := position_fits hi
      have hmore : ¬pattern <+: b :: (bs ++ more) := by
        intro hmore
        refine hprefix (List.isPrefixOf_iff_prefix.mpr (@prefix_of_append _ _ more ?_ hmore))
        rw [List.length_cons]
        omega
      rw [if_neg fun hmore' => hmore (List.isPrefixOf_iff_prefix.mp hmore'), ih hi]
      rfl

/-- What is not found in a buffer reaches over its end when it is found later. -/
theorem position_of_append {more : List UInt8} (hpattern : 0 < pattern.length)
    (hnone : position pattern buffer = none)
    (h : position pattern (buffer ++ more) = some index) : buffer.length < index + pattern.length := by
  induction buffer generalizing index with
  | nil =>
    rw [List.length_nil]
    omega
  | cons b bs ih =>
    rw [position] at hnone
    split at hnone
    · cases hnone
    · next hprefix =>
      rw [List.cons_append, position] at h
      split at h
      · next hmore =>
        cases h
        by_contra hle
        refine hprefix (List.isPrefixOf_iff_prefix.mpr (@prefix_of_append _ _ more ?_ ?_))
        · omega
        · exact List.isPrefixOf_iff_prefix.mp hmore
      · obtain ⟨i, hi, rfl⟩ := Option.map_eq_some_iff.mp h
        have hlt := ih (Option.map_eq_none_iff.mp hnone) hi
        rw [List.length_cons]
        omega

end Position

/-! ## The earlier delimiter -/

/-- A found end lies in the buffer, behind the frame. -/
theorem findSseFrameEnd_fits {buffer : List UInt8} {index length : Nat}
    (h : findSseFrameEnd buffer = some (index, length)) :
    0 < length ∧ index + length ≤ buffer.length := by
  have hlf : ∀ lf, position lfLf buffer = some lf → lf + 2 ≤ buffer.length := by
    intro lf hposition
    have hfits : 2 ≤ buffer.length - lf := position_fits hposition
    omega
  have hcrlf : ∀ crlf, position crlfCrlf buffer = some crlf → crlf + 4 ≤ buffer.length := by
    intro crlf hposition
    have hfits : 4 ≤ buffer.length - crlf := position_fits hposition
    omega
  unfold findSseFrameEnd at h
  split at h
  · next lf crlf hlfLf hcrlfCrlf =>
    split at h
    · cases h
      exact ⟨by decide, hcrlf _ hcrlfCrlf⟩
    · cases h
      exact ⟨by decide, hlf _ hlfLf⟩
  · next lf hlfLf _ =>
    cases h
    exact ⟨by decide, hlf _ hlfLf⟩
  · next crlf _ hcrlfCrlf =>
    cases h
    exact ⟨by decide, hcrlf _ hcrlfCrlf⟩
  · cases h

/-- Two line feeds do not stand one byte behind the start of `\r\n\r\n`. -/
theorem not_overlap {bytes : List UInt8} (hcrlf : crlfCrlf <+: bytes) :
    ¬lfLf <+: bytes.drop 1 := by
  obtain ⟨rest, rfl⟩ := hcrlf
  rintro ⟨rest', h⟩
  simp [crlfCrlf, lfLf] at h

/-- **An end that has been found stays.** The other delimiter cannot come up before it. -/
theorem findSseFrameEnd_append {buffer : List UInt8} {place : Nat × Nat}
    (h : findSseFrameEnd buffer = some place) (more : List UInt8) :
    findSseFrameEnd (buffer ++ more) = some place := by
  unfold findSseFrameEnd at h ⊢
  split at h
  · next lf crlf hlf hcrlf =>
    simp only [position_append hlf more, position_append hcrlf more]
    exact h
  · next lf hlf hcrlf =>
    cases h
    rw [position_append hlf more]
    cases hlater : position crlfCrlf (buffer ++ more) with
    | none => rfl
    | some crlf =>
      -- the later delimiter reaches over the end of the buffer, so it starts at `lf - 1` or later
      have hover : buffer.length < crlf + 4 := position_of_append (by decide) hcrlf hlater
      have hfits : 2 ≤ buffer.length - lf := position_fits hlf
      have hnot : ¬crlf < lf := by
        intro hlt
        have hnext : lf = crlf + 1 := by omega
        have hlfLf := position_holds (position_append hlf more)
        refine not_overlap (position_holds hlater) ?_
        rwa [List.drop_drop, ← hnext]
      simp only [if_neg hnot]
  · next crlf hlf hcrlf =>
    cases h
    rw [position_append hcrlf more]
    cases hlater : position lfLf (buffer ++ more) with
    | none => rfl
    | some lf =>
      have hover : buffer.length < lf + 2 := position_of_append (by decide) hlf hlater
      have hfits : 4 ≤ buffer.length - crlf := position_fits hcrlf
      simp only [if_pos (show crlf < lf by omega)]
  · cases h

/-! ## Reading frames -/

/-- One line of a frame. -/
def sseField (fields : Option String × List Char) (line : List Char) :
    Option String × List Char :=
  match stripPrefix "event:".toList line with
  | some value => (some (trim (String.ofList value)), fields.2)
  | none => match stripPrefix "data:".toList line with
    | some value =>
      (fields.1, (if fields.2 = [] then [] else fields.2 ++ ['\n']) ++ trimStart value)
    | none => fields

/-- The event type and the data of a frame. -/
def parseSseFrame (frame : List Char) : Option String × String :=
  let fields := (lines frame).foldl sseField (none, [])
  (fields.1, String.ofList fields.2)

def sseDelimiter : Delimiter UInt8 where
  find := findSseFrameEnd
  fits := findSseFrameEnd_fits
  stable := findSseFrameEnd_append

/-- A frame must be UTF-8. -/
def readFrame (frame : List UInt8) : Except Utf8.Error (Option String × String) :=
  (Utf8.decode frame).map parseSseFrame

/-- The frames of a stream, and the error that ends the reading or the bytes left over. -/
def sseFrames (chunks : List (List UInt8)) :
    List (Option String × String) × Except Utf8.Error (List UInt8) :=
  sseDelimiter.drainAll readFrame [] chunks

theorem sseFrames_eq (chunks : List (List UInt8)) :
    sseFrames chunks = sseDelimiter.drain readFrame chunks.flatten :=
  Delimiter.drainAll_eq Delimiter.find_nil chunks

/-- **Framing does not depend on chunking.** Two ways to cut a stream into chunks give the same
frames and the same first error, and every frame is shorter than the bytes that are consumed with
it, so that the loop ends. -/
theorem sse_chunking (chunks chunks' : List (List UInt8)) (h : chunks.flatten = chunks'.flatten) :
    sseFrames chunks = sseFrames chunks' ∧
      ∀ buffer index length, findSseFrameEnd buffer = some (index, length) →
        (buffer.take index).length < index + length ∧ index + length ≤ buffer.length := by
  refine ⟨by rw [sseFrames_eq, sseFrames_eq, h], ?_⟩
  intro buffer index length hfind
  obtain ⟨hpos, hle⟩ := findSseFrameEnd_fits hfind
  refine ⟨?_, hle⟩
  rw [List.length_take]
  omega

/-- A stream in two chunks, cut within a delimiter and within a character. -/
theorem sse_chunking_cut :
    sseFrames [Utf8.encode "data: é\r\n\r".toList, [10]] =
        sseFrames [(Utf8.encode "data: é\r\n\r".toList).take 7,
          (Utf8.encode "data: é\r\n\r".toList).drop 7 ++ [10]] ∧
      sseFrames [Utf8.encode "data: é\r\n\r".toList, [10]] = ([(none, "é")], .ok []) :=
  ⟨(sse_chunking _ _ (by decide)).1, by decide +kernel⟩

/-! ## The stream of a run -/

/-- What a run that reads a stream comes upon next, before the bytes are read. -/
inductive ByteItem where
  | cancelled | shutdown | tick
  | chunk (bytes : List UInt8)
  | broken (error : String)

/-- The text of an error of `str::from_utf8`. -/
def utf8ErrorText (e : Utf8.Error) : String :=
  match e.errorLength with
  | some length => s!"invalid utf-8 sequence of {length} bytes from index {e.validUpTo}"
  | none => s!"incomplete utf-8 byte sequence from index {e.validUpTo}"

section Items

-- `piqo_provider::parse_sse_event`, at the provider's protocol
variable (parse : Option String → String → Except String (List ProviderDelta))

/-- A frame without data is skipped. -/
def parseFrames (frames : List (Option String × String)) :
    List (Except String (List ProviderDelta)) :=
  (frames.filter fun frame => !(trim frame.2).isEmpty).map fun frame => parse frame.1 frame.2

/-- Every chunk completes the frames that the loop takes off the buffer then. -/
def decodeItems : List UInt8 → List ByteItem → List StreamItem
  | _, [] => []
  | buffer, .cancelled :: items => .cancelled :: decodeItems buffer items
  | buffer, .shutdown :: items => .shutdown :: decodeItems buffer items
  | buffer, .tick :: items => .tick :: decodeItems buffer items
  | buffer, .broken error :: items => .broken error :: decodeItems buffer items
  | buffer, .chunk bytes :: items =>
    match sseDelimiter.drain readFrame (buffer ++ bytes) with
    | (frames, .ok rest) => .chunk (parseFrames parse frames) :: decodeItems rest items
    | (frames, .error e) => [.chunk (parseFrames parse frames ++
        [.error s!"provider returned invalid UTF-8 SSE data: {utf8ErrorText e}"])]

def ByteItem.bytes : ByteItem → List UInt8
  | .chunk bytes => bytes
  | _ => []

def StreamItem.frames : StreamItem → List (Except String (List ProviderDelta))
  | .chunk frames => frames
  | _ => []

theorem parseFrames_append (frames more : List (Option String × String)) :
    parseFrames parse (frames ++ more) = parseFrames parse frames ++ parseFrames parse more := by
  simp [parseFrames]

/-- What a run reads of a stream without an error. -/
theorem decodeItems_drain {buffer : List UInt8} (hbuffer : sseDelimiter.find buffer = none)
    {items : List ByteItem} {frames : List (Option String × String)} {rest : List UInt8}
    (h : sseDelimiter.drain readFrame (buffer ++ items.flatMap ByteItem.bytes) =
      (frames, .ok rest)) :
    (decodeItems parse buffer items).flatMap StreamItem.frames = parseFrames parse frames := by
  induction items generalizing buffer frames with
  | nil =>
    rw [List.flatMap_nil, List.append_nil, Delimiter.drain_of_find_eq_none hbuffer] at h
    cases h
    rfl
  | cons item items ih =>
    cases item with
    | chunk bytes =>
      rw [List.flatMap_cons, ByteItem.bytes, ← List.append_assoc, Delimiter.drain_append] at h
      rw [decodeItems]
      rcases hdrain : sseDelimiter.drain readFrame (buffer ++ bytes) with ⟨taken, e | left⟩
      · rw [hdrain] at h
        cases h
      · rw [hdrain] at h
        obtain ⟨rfl, hleft⟩ := Prod.mk.inj h
        rw [List.flatMap_cons, ih (Delimiter.find_left hdrain) (Prod.ext rfl hleft),
          parseFrames_append]
        rfl
    | cancelled | shutdown | tick | broken error =>
      exact ih hbuffer h

/-- **The run gets the frames of the stream**, wherever the chunks and ticks fall. -/
theorem decodeItems_frames {items : List ByteItem} {frames : List (Option String × String)}
    {rest : List UInt8} (h : sseFrames (items.map ByteItem.bytes) = (frames, .ok rest)) :
    (decodeItems parse [] items).flatMap StreamItem.frames = parseFrames parse frames := by
  refine @decodeItems_drain parse _ Delimiter.find_nil _ _ rest ?_
  rw [sseFrames_eq] at h
  rwa [List.nil_append, List.flatMap_def]

end Items

end Piqo
