import PiqoServer.Library.Utf8
import PiqoServer.Core.Text
import PiqoServer.Tools.Workspace

/-!
# The output of a shell

`read_limited` (`piqo-tools/src/lib.rs`) reads what a process writes to the end, keeps the first
bytes of it, and returns the first lines of the text they are read as.

## Main definitions

* `readLoop`, `readLimited`: the loop and what it returns
* `PipeReads`: the reads that deliver a stream
* `byteLines`, `firstLines`: lines on the side of the bytes

## Main results

* `readLimited_delivery`: the output depends on the bytes only, and on these explicitly
* `readLimited_bounded_iff`: when the output stays within its limits
* `readLimited_truncated_iff`: when the flag tells whether something was dropped
-/

namespace Piqo

open Utf8

structure LimitedOutput where
  text : List Char
  truncated : Bool
  deriving DecidableEq

/-! ## The loop -/

/-- The bytes kept and the flag after one more read. -/
def readStep (maxBytes : Nat) (bytes : List UInt8) (truncated : Bool) (read : List UInt8) :
    List UInt8 × Bool :=
  let remaining := maxBytes - bytes.length
  let kept := if read.length > remaining then bytes ++ read.take remaining else bytes ++ read
  (kept, truncated || read.length > remaining || kept.length ≥ maxBytes)

/-- The reads of a stream, which ends with a read of nothing. -/
def readLoop (maxBytes : Nat) : List UInt8 → Bool → List (Except IoErrorKind (List UInt8)) →
    Except IoErrorKind (List UInt8 × Bool)
  | bytes, truncated, [] => .ok (bytes, truncated)
  | _, _, .error e :: _ => .error e
  | bytes, truncated, .ok read :: reads =>
    if read.isEmpty then .ok (bytes, truncated)
    else
      let next := readStep maxBytes bytes truncated read
      readLoop maxBytes next.1 next.2 reads

def readLimited (maxBytes maxLines : Nat) (reads : List (Except IoErrorKind (List UInt8))) :
    Except IoErrorKind LimitedOutput := do
  let (bytes, truncated) ← readLoop maxBytes [] false reads
  let text := decodeLossy bytes
  let kept := (lines text).take maxLines
  .ok { text := joinLines kept, truncated := truncated || (lines text).length > kept.length }

/-- How a stream is delivered: reads into a buffer, none of which is empty. -/
structure PipeReads (bytes : List UInt8) where
  chunks : List (List UInt8)
  flatten : chunks.flatten = bytes
  fits : ∀ chunk ∈ chunks, chunk ≠ [] ∧ chunk.length ≤ 4096

namespace PipeReads

variable {bytes : List UInt8}

def reads (delivery : PipeReads bytes) : List (Except IoErrorKind (List UInt8)) :=
  delivery.chunks.map .ok

/-- Every stream can be delivered, byte by byte. -/
def single (bytes : List UInt8) : PipeReads bytes where
  chunks := bytes.map fun byte => [byte]
  flatten := by induction bytes with
    | nil => rfl
    | cons byte bytes ih => rw [List.map_cons, List.flatten_cons, ih]; rfl
  fits := by simp

end PipeReads

theorem readStep_bytes {maxBytes : Nat} {bytes read : List UInt8} {truncated : Bool}
    (hbytes : bytes.length ≤ maxBytes) :
    (readStep maxBytes bytes truncated read).1 = (bytes ++ read).take maxBytes := by
  simp only [readStep]
  split
  · rw [List.take_append, List.take_of_length_le hbytes]
  · rw [List.take_of_length_le]
    rw [List.length_append]
    omega

/-- The limit is reached, by this read or by an earlier one. -/
theorem readStep_truncated {maxBytes : Nat} {bytes read : List UInt8} {truncated : Bool}
    (hbytes : bytes.length ≤ maxBytes) :
    (readStep maxBytes bytes truncated read).2 =
      (truncated || decide (maxBytes ≤ (bytes ++ read).length)) := by
  have hkept := @readStep_bytes maxBytes bytes read truncated hbytes
  simp only [readStep] at hkept ⊢
  rw [hkept, List.length_take, List.length_append, Bool.or_assoc, ← Bool.decide_or]
  congr 2
  rw [eq_iff_iff]
  omega

theorem take_take_append (n : Nat) (bytes more : List UInt8) :
    (bytes.take n ++ more).take n = (bytes ++ more).take n := by
  have hmin : n - min n bytes.length = n - bytes.length := by omega
  rw [List.take_append, List.take_append, List.take_take, List.length_take, Nat.min_self, hmin]

/-- The loop keeps the first bytes; the flag is set once the limit is reached. -/
theorem readLoop_ok {maxBytes : Nat} {bytes : List UInt8} {truncated : Bool}
    {chunks : List (List UInt8)} (hchunks : ∀ chunk ∈ chunks, chunk ≠ [])
    (hbytes : bytes.length ≤ maxBytes) :
    ∃ flag, readLoop maxBytes bytes truncated (chunks.map .ok) =
        .ok ((bytes ++ chunks.flatten).take maxBytes, flag) ∧
      (flag = true ↔ truncated = true ∨
        chunks ≠ [] ∧ maxBytes ≤ (bytes ++ chunks.flatten).length) := by
  induction chunks generalizing bytes truncated with
  | nil => exact ⟨truncated, by simp [readLoop, List.take_of_length_le hbytes], by simp⟩
  | cons chunk chunks ih =>
    rw [List.forall_mem_cons] at hchunks
    have hempty : chunk.isEmpty = false := by simpa using hchunks.1
    have hkept := @readStep_bytes maxBytes bytes chunk truncated hbytes
    have hset := @readStep_truncated maxBytes bytes chunk truncated hbytes
    obtain ⟨flag, hread, hiff⟩ := @ih (readStep maxBytes bytes truncated chunk).1
      (readStep maxBytes bytes truncated chunk).2 hchunks.2
      (by rw [hkept]; exact List.length_take_le _ _)
    refine ⟨flag, ?_, ?_⟩
    · rw [List.map_cons, readLoop, if_neg (by simp [hempty]), List.flatten_cons,
        ← List.append_assoc, ← take_take_append, ← hkept]
      exact hread
    · rw [hiff, hset, hkept, Bool.or_eq_true, decide_eq_true_eq, List.flatten_cons,
        ← List.append_assoc]
      by_cases hlast : chunks = []
      · simp [hlast]
      · simp only [List.length_append, List.length_take, ne_eq, hlast, not_false_eq_true, true_and,
          reduceCtorEq, or_assoc]
        refine or_congr_right ?_
        omega

/-! ## Lines of bytes -/

/-- A byte in front of the first line. -/
def consFirstByte (byte : UInt8) : List (List UInt8) → List (List UInt8)
  | [] => [[byte]]
  | line :: lines => (byte :: line) :: lines

/-- The lines of a text on the side of its bytes. -/
def byteLines : List UInt8 → List (List UInt8)
  | [] => []
  | b :: bs =>
    if b = 10 then [] :: byteLines bs
    else if b = 13 ∧ bs.head? = some 10 then byteLines bs
    else consFirstByte b (byteLines bs)

/-- Lines of bytes as one part. -/
def joinByteLines : List (List UInt8) → List UInt8
  | [] => []
  | [line] => line
  | line :: lines => line ++ 10 :: joinByteLines lines

/-- The first lines of bytes as one part, without the ending of the last one. -/
def firstLines (maxLines : Nat) (bytes : List UInt8) : List UInt8 :=
  joinByteLines ((byteLines bytes).take maxLines)

/-- Bytes before the end of a line are in front of the first line. -/
theorem byteLines_append {front rest : List UInt8} (hfront : front ≠ [])
    (hline : ∀ byte ∈ front, byte ≠ 10 ∧ byte ≠ 13) :
    byteLines (front ++ rest) = match byteLines rest with
      | [] => [front]
      | line :: lines => (front ++ line) :: lines := by
  induction front with
  | nil => exact absurd rfl hfront
  | cons byte front ih =>
    rw [List.forall_mem_cons] at hline
    rw [List.cons_append, byteLines, if_neg hline.1.1, if_neg (fun h => hline.1.2 h.1)]
    by_cases hempty : front = []
    · rw [hempty, List.nil_append]
      cases byteLines rest <;> rfl
    · rw [ih hempty hline.2]
      cases byteLines rest <;> rfl

theorem byteLines_eq_nil {bytes : List UInt8} : byteLines bytes = [] ↔ bytes = [] := by
  induction bytes with
  | nil => simp [byteLines]
  | cons b bs ih =>
    rw [byteLines]
    split
    · simp
    · split
      · next hb =>
        -- a line feed follows, so this is not the end
        simp only [ih, reduceCtorEq, iff_false]
        rintro rfl
        cases hb.2
      · cases byteLines bs <;> simp [consFirstByte]

/-- Behind the first line stands its ending, if anything. -/
theorem byteLines_first {bytes line : List UInt8} {more : List (List UInt8)}
    (h : byteLines bytes = line :: more) :
    ∃ rest, bytes = line ++ rest ∧ ∀ byte, rest.head? = some byte → isAscii byte = true := by
  induction bytes generalizing line more with
  | nil => cases h
  | cons b bs ih =>
    rw [byteLines] at h
    split at h
    · next hb =>
      cases h
      refine ⟨b :: bs, rfl, fun byte hbyte => ?_⟩
      obtain rfl : b = byte := by simpa using hbyte
      rw [hb]
      decide
    · split at h
      · next hb =>
        -- the first line is empty, as a line feed follows
        obtain ⟨cs, rfl⟩ : ∃ cs, bs = 10 :: cs := by
          cases bs with
          | nil => cases hb.2
          | cons c cs => exact ⟨cs, by simpa using hb.2⟩
        rw [byteLines, if_pos rfl] at h
        cases h
        refine ⟨b :: 10 :: cs, rfl, fun byte hbyte => ?_⟩
        obtain rfl : b = byte := by simpa using hbyte
        rw [hb.1]
        decide
      · cases hbs : byteLines bs with
        | nil =>
          rw [hbs] at h
          cases h
          rw [byteLines_eq_nil.mp hbs]
          exact ⟨[], rfl, by simp⟩
        | cons first others =>
          rw [hbs] at h
          cases h
          obtain ⟨rest, hrest, hhead⟩ := ih hbs
          exact ⟨rest, by rw [hrest]; rfl, hhead⟩

theorem charOfNat_injective {byte byte' : UInt8} (h : isAscii byte = true)
    (h' : isAscii byte' = true) (heq : Char.ofNat byte.toNat = Char.ofNat byte'.toNat) :
    byte = byte' := by
  have hbytes := congrArg String.utf8EncodeChar heq
  rw [encodeChar_ofNat h, encodeChar_ofNat h'] at hbytes
  exact List.singleton_injective hbytes

/-- A line feed is read where its byte stands. -/
theorem head?_decodeLossy {bytes : List UInt8} :
    (decodeLossy bytes).head? = some '\n' ↔ bytes.head? = some 10 := by
  by_cases hbytes : bytes = []
  · simp [hbytes]
  · obtain ⟨c, front, rest, rfl, hfront, hread, hchar⟩ := decodeLossy_eq_cons hbytes
    rw [hread, List.head?_append_of_ne_nil _ hfront, List.head?_cons, Option.some.injEq]
    rcases hchar with ⟨byte, hascii, rfl, rfl⟩ | ⟨hlarge, hnone⟩
    · rw [List.head?_cons, Option.some.injEq]
      exact ⟨fun h => charOfNat_injective hascii (by decide) h, fun h => by rw [h]; decide⟩
    · refine iff_of_false ?_ fun h => ?_
      · rintro rfl
        exact absurd hlarge (by decide)
      · have hfeed := hnone 10 (List.mem_of_head? h)
        exact absurd hfeed (by decide)

/-- **Lines are read line by line.** -/
theorem lines_decodeLossy (bytes : List UInt8) :
    lines (decodeLossy bytes) = (byteLines bytes).map decodeLossy := by
  induction hn : bytes.length using Nat.strongRecOn generalizing bytes with
  | _ n ih =>
    by_cases hbytes : bytes = []
    · rw [hbytes]
      rfl
    · obtain ⟨c, front, rest, rfl, hfront, hread, hchar⟩ := decodeLossy_eq_cons hbytes
      have hlength : rest.length < n := by
        have hpos := List.length_pos_iff.mpr hfront
        rw [← hn, List.length_append]
        omega
      have hrest := ih _ hlength rest rfl
      -- what is in front of a line is read in front of it
      have hfirst : ∀ line more, byteLines rest = line :: more →
          decodeLossy (front ++ line) = c :: decodeLossy line := by
        intro line more hlines
        obtain ⟨behind, rfl, hhead⟩ := byteLines_first hlines
        rw [← List.append_assoc, decodeLossy_append hhead, decodeLossy_append hhead,
          ← List.cons_append] at hread
        exact List.append_cancel_right hread
      have hother : c ≠ '\n' → ¬(c = '\r' ∧ rest.head? = some 10) →
          (byteLines (front ++ rest) = match byteLines rest with
            | [] => [front]
            | line :: lines => (front ++ line) :: lines) →
          lines (c :: decodeLossy rest) = (byteLines (front ++ rest)).map decodeLossy := by
        intro hfeed hreturn hfront'
        rw [lines, if_neg hfeed, if_neg (by rwa [head?_decodeLossy]), hrest, hfront']
        cases hlines : byteLines rest with
        | nil =>
          rw [byteLines_eq_nil.mp hlines, List.append_nil] at hread
          rw [List.map_singleton, hread]
          rfl
        | cons line more =>
          rw [List.map_cons, List.map_cons, hfirst line more hlines]
          rfl
      rw [hread]
      rcases hchar with ⟨byte, hascii, rfl, rfl⟩ | ⟨hlarge, hnone⟩
      · by_cases hfeed : byte = 10
        · subst hfeed
          rw [lines, if_pos (by decide), hrest, List.singleton_append, byteLines, if_pos rfl]
          rfl
        · have hfeed' : Char.ofNat byte.toNat ≠ '\n' :=
            fun h => hfeed (charOfNat_injective hascii (by decide) h)
          by_cases hreturn : byte = 13 ∧ rest.head? = some 10
          · rw [lines, if_neg hfeed', if_pos ⟨by rw [hreturn.1]; decide,
              head?_decodeLossy.mpr hreturn.2⟩, hrest, List.singleton_append, byteLines,
              if_neg hfeed, if_pos hreturn]
          · refine hother hfeed' (fun h => hreturn ⟨?_, h.2⟩) ?_
            · exact charOfNat_injective hascii (by decide) h.1
            · rw [List.singleton_append, byteLines, if_neg hfeed, if_neg hreturn]
              cases byteLines rest <;> rfl
      · refine hother ?_ ?_ ?_
        · rintro rfl
          exact absurd hlarge (by decide)
        · rintro ⟨rfl, -⟩
          exact absurd hlarge (by decide)
        refine byteLines_append hfront fun byte hbyte => ?_
        have hbyte' := hnone byte hbyte
        exact ⟨by rintro rfl; exact absurd hbyte' (by decide),
          by rintro rfl; exact absurd hbyte' (by decide)⟩

theorem decodeLossy_joinByteLines (ls : List (List UInt8)) :
    decodeLossy (joinByteLines ls) = joinLines (ls.map decodeLossy) := by
  induction ls with
  | nil => rfl
  | cons line ls ih =>
    cases ls with
    | nil => rfl
    | cons next ls =>
      have hfeed : decodeLossy (10 :: joinByteLines (next :: ls)) =
          '\n' :: decodeLossy (joinByteLines (next :: ls)) :=
        decodeLossy_encodeChar_append '\n' _
      rw [joinByteLines, decodeLossy_append, hfeed, ih]
      · rfl
      · intro byte hbyte
        obtain rfl : 10 = byte := by simpa using hbyte
        decide
      · simp

theorem length_joinByteLines_consFirstByte (byte : UInt8) (n : Nat) (ls : List (List UInt8)) :
    (joinByteLines ((consFirstByte byte ls).take n)).length ≤
      (joinByteLines (ls.take n)).length + 1 := by
  cases n with
  | zero => simp [joinByteLines]
  | succ n =>
    cases ls with
    | nil => simp [consFirstByte, joinByteLines]
    | cons line ls =>
      rw [consFirstByte, List.take_succ_cons, List.take_succ_cons]
      cases ls.take n <;> simp [joinByteLines]

/-- The first lines are no longer than all. -/
theorem length_firstLines_le (n : Nat) (bytes : List UInt8) :
    (firstLines n bytes).length ≤ bytes.length := by
  unfold firstLines
  induction bytes generalizing n with
  | nil => simp [byteLines, joinByteLines]
  | cons b bs ih =>
    rw [byteLines, List.length_cons]
    split
    · cases n with
      | zero => simp [joinByteLines]
      | succ n =>
        have hrest := ih n
        rw [List.take_succ_cons]
        cases htake : (byteLines bs).take n with
        | nil => simp [joinByteLines]
        | cons line ls =>
          rw [htake] at hrest
          rw [joinByteLines]
          · simpa using hrest
          · simp
    · split
      · exact Nat.le_succ_of_le (ih n)
      · have hcons := length_joinByteLines_consFirstByte b n (byteLines bs)
        have hrest := ih n
        omega

/-! ## The output -/

section Limits

variable (maxBytes maxLines : Nat) {bytes : List UInt8}

/-- **The output depends on the bytes only**: the first lines of the first bytes, and whether the
limit of the bytes is reached or there are more lines. -/
theorem readLimited_delivery (delivery : PipeReads bytes) :
    ∃ out, readLimited maxBytes maxLines delivery.reads = .ok out ∧
      out.text = decodeLossy (firstLines maxLines (bytes.take maxBytes)) ∧
      (out.truncated = true ↔ bytes ≠ [] ∧ maxBytes ≤ bytes.length ∨
        maxLines < (byteLines (bytes.take maxBytes)).length) := by
  have hchunks : ∀ chunk ∈ delivery.chunks, chunk ≠ [] :=
    fun chunk hchunk => (delivery.fits chunk hchunk).1
  obtain ⟨flag, hloop, hflag⟩ := @readLoop_ok maxBytes [] false delivery.chunks hchunks
    (Nat.zero_le _)
  have hempty : delivery.chunks ≠ [] ↔ bytes ≠ [] := by
    have hnil := @List.flatten_eq_nil_iff _ delivery.chunks
    rw [delivery.flatten] at hnil
    rw [not_iff_not, hnil]
    refine ⟨fun h => by simp [h], fun h => ?_⟩
    cases hcs : delivery.chunks with
    | nil => rfl
    | cons chunk chunks =>
      rw [hcs] at h hchunks
      exact absurd (h chunk List.mem_cons_self) (hchunks chunk List.mem_cons_self)
  rw [List.nil_append, delivery.flatten] at hloop hflag
  refine ⟨_, by rw [readLimited, PipeReads.reads, hloop]; rfl, ?_, ?_⟩
  · rw [firstLines, decodeLossy_joinByteLines, List.map_take, lines_decodeLossy]
  · simp only [Bool.or_eq_true, hflag, Bool.false_eq_true, false_or, hempty, decide_eq_true_eq,
      List.length_take, lines_decodeLossy, List.length_map]
    refine or_congr_right ?_
    omega

/-- **Shell output is bounded, or not.** The text is the same for every delivery and has no more
lines than allowed; it has no more bytes than allowed exactly when what the malformed parts of the
first lines are short of a replacement character is no more than these lines leave over. -/
theorem readLimited_bounded_iff (bytes : List UInt8) :
    ((∀ delivery : PipeReads bytes, ∃ out,
        readLimited maxBytes maxLines delivery.reads = .ok out ∧
        width out.text ≤ maxBytes ∧ (lines out.text).length ≤ maxLines) ∧
      ∀ delivery delivery' : PipeReads bytes, ∃ out out',
        readLimited maxBytes maxLines delivery.reads = .ok out ∧
        readLimited maxBytes maxLines delivery'.reads = .ok out' ∧ out.text = out'.text) ↔
    lacking (scan (firstLines maxLines (bytes.take maxBytes))) ≤
      maxBytes - (firstLines maxLines (bytes.take maxBytes)).length := by
  have hle := length_firstLines_le maxLines (bytes.take maxBytes)
  have htake := List.length_take_le maxBytes bytes
  refine ⟨fun ⟨hbounded, _⟩ => ?_, fun h => ⟨fun delivery => ?_, fun delivery delivery' => ?_⟩⟩
  · obtain ⟨out, hout, hwidth, -⟩ := hbounded (.single bytes)
    obtain ⟨out', hout', htext, -⟩ := readLimited_delivery maxBytes maxLines (.single bytes)
    cases hout.symm.trans hout'
    rw [htext, width_decodeLossy] at hwidth
    omega
  · obtain ⟨out, hout, htext, -⟩ := readLimited_delivery maxBytes maxLines delivery
    refine ⟨out, hout, ?_, ?_⟩
    · rw [htext, width_decodeLossy]
      omega
    · rw [htext, firstLines, decodeLossy_joinByteLines, List.map_take, ← lines_decodeLossy]
      refine Nat.le_trans (length_lines_joinLines fun line hline => ?_) (List.length_take_le _ _)
      exact not_mem_of_mem_lines (List.mem_of_mem_take hline)
  · obtain ⟨out, hout, htext, -⟩ := readLimited_delivery maxBytes maxLines delivery
    obtain ⟨out', hout', htext', -⟩ := readLimited_delivery maxBytes maxLines delivery'
    exact ⟨out, out', hout, hout', htext.trans htext'.symm⟩

/-- One byte that is no text is returned as three. -/
theorem readLimited_unbounded :
    ∃ (bytes : List UInt8) (delivery : PipeReads bytes) (out : LimitedOutput),
      readLimited 1 1 delivery.reads = .ok out ∧ ¬width out.text ≤ 1 :=
  ⟨[0xFF], .single _, ⟨[replacement], true⟩, by decide +kernel, by decide⟩

/-- **The flag is exact but at the limit.** It is set exactly when bytes or lines were dropped,
unless the stream is as long as the limit allows and no line is dropped. -/
theorem readLimited_truncated_iff (hbytes : 0 < maxBytes) (bytes : List UInt8) :
    (∀ delivery : PipeReads bytes, ∃ out, readLimited maxBytes maxLines delivery.reads = .ok out ∧
      (out.truncated = true ↔ maxBytes < bytes.length ∨
        maxLines < (byteLines (bytes.take maxBytes)).length)) ↔
    (bytes.length = maxBytes → maxLines < (byteLines bytes).length) := by
  have hflag : ∀ delivery : PipeReads bytes, ∃ out,
      readLimited maxBytes maxLines delivery.reads = .ok out ∧
      (out.truncated = true ↔ maxBytes ≤ bytes.length ∨
        maxLines < (byteLines (bytes.take maxBytes)).length) := by
    intro delivery
    obtain ⟨out, hout, -, hflag⟩ := readLimited_delivery maxBytes maxLines delivery
    refine ⟨out, hout, hflag.trans (or_congr_left ⟨And.right, fun hle => ⟨?_, hle⟩⟩)⟩
    rintro rfl
    exact absurd hle (Nat.not_le.mpr hbytes)
  refine ⟨fun h heq => ?_, fun h delivery => ?_⟩
  · obtain ⟨out, hout, hexact⟩ := h (.single bytes)
    obtain ⟨out', hout', hset⟩ := hflag (.single bytes)
    cases hout.symm.trans hout'
    have hdropped := hexact.mp (hset.mpr (.inl (Nat.le_of_eq heq.symm)))
    rw [List.take_of_length_le (Nat.le_of_eq heq)] at hdropped
    exact hdropped.resolve_left (by omega)
  · obtain ⟨out, hout, hset⟩ := hflag delivery
    refine ⟨out, hout, hset.trans ⟨?_, ?_⟩⟩
    · rintro (hle | hlines)
      · rcases Nat.lt_or_eq_of_le hle with hlt | heq
        · exact .inl hlt
        · rw [List.take_of_length_le (Nat.le_of_eq heq.symm)]
          exact .inr (h heq.symm)
      · exact .inr hlines
    · exact Or.imp_left Nat.le_of_lt

theorem readLimited_truncated_short :
    ∃ out, readLimited 4 2 (PipeReads.single [97, 10, 98]).reads = .ok out ∧
      (out.truncated = true ↔ 4 < 3 ∨ 2 < (byteLines [97, 10, 98]).length) :=
  (readLimited_truncated_iff 4 2 (by decide) [97, 10, 98]).mpr (by decide) (.single _)

/-- A stream that just fits is reported as truncated. -/
theorem readLimited_truncated_full :
    ∃ (delivery : PipeReads [97]) (out : LimitedOutput),
      readLimited 1 1 delivery.reads = .ok out ∧ out.truncated = true ∧
      ¬(1 < [97].length ∨ 1 < (byteLines [97]).length) :=
  ⟨.single _, ⟨['a'], true⟩, by decide +kernel, rfl, by decide⟩

end Limits

end Piqo
