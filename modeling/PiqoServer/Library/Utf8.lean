import Mathlib.Data.List.Basic

/-!
# UTF-8

Reading bytes as text the way Rust's standard library does: strictly, with the place of the first
error, or with a replacement character for every malformed part. Single characters are encoded and
decoded by Lean's own functions.

## Main definitions

* `Utf8.encode`: the bytes of a text
* `Utf8.scan`: bytes as characters and malformed parts
* `Utf8.decode`: `str::from_utf8`
* `Utf8.decodeLossy`: `String::from_utf8_lossy`
* `Utf8.width`, `Utf8.lacking`: the bytes of a text, and those that malformed parts lack

## Main results

* `scan_encode_append`: the bytes of a text are read as its characters, whatever follows
* `scan_append`: bytes are read part by part where they are split before an ASCII character
* `width_decodeLossy`: how long the text is that bytes are read as
-/

namespace Utf8

/-- The bytes of a text. -/
def encode (text : List Char) : List UInt8 := text.flatMap String.utf8EncodeChar

@[simp] theorem encode_nil : encode [] = [] := rfl

@[simp] theorem encode_cons (c : Char) (text : List Char) :
    encode (c :: text) = String.utf8EncodeChar c ++ encode text := rfl

theorem encode_append (text more : List Char) : encode (text ++ more) = encode text ++ encode more :=
  List.flatMap_append

/-! ## One character -/

/-- The character whose bytes come first. -/
def first? (bytes : List UInt8) : Option Char := bytes.toByteArray.utf8DecodeChar? 0

def isContinuation (byte : UInt8) : Bool := 0x80 ≤ byte && byte < 0xC0

/-- The least and the greatest second byte after a first one, and the number of bytes in all. -/
def secondBytes (lead : UInt8) : Option (UInt8 × UInt8 × Nat) :=
  if 0xC2 ≤ lead ∧ lead ≤ 0xDF then some (0x80, 0xBF, 2)
  else if lead = 0xE0 then some (0xA0, 0xBF, 3)
  else if lead = 0xED then some (0x80, 0x9F, 3)
  else if 0xE1 ≤ lead ∧ lead ≤ 0xEF then some (0x80, 0xBF, 3)
  else if lead = 0xF0 then some (0x90, 0xBF, 4)
  else if 0xF1 ≤ lead ∧ lead ≤ 0xF3 then some (0x80, 0xBF, 4)
  else if lead = 0xF4 then some (0x80, 0x8F, 4)
  else none

/-- How many bytes a malformed part has: as many as could still begin a character, and at least
one. -/
def malformedLength : List UInt8 → Nat
  | lead :: second :: rest => match secondBytes lead with
    | none => 1
    | some (low, high, width) =>
      if low ≤ second ∧ second ≤ high then
        2 + ((rest.take (width - 3)).takeWhile isContinuation).length
      else 1
  | _ => 1

/-! ## Whole texts -/

/-- At most `fuel` characters and malformed parts. -/
def scanFuel : Nat → List UInt8 → List (Except (List UInt8) Char)
  | 0, _ => []
  | _ + 1, [] => []
  | fuel + 1, byte :: bytes => match first? (byte :: bytes) with
    | some c => .ok c :: scanFuel fuel ((byte :: bytes).drop c.utf8Size)
    | none =>
      let length := malformedLength (byte :: bytes)
      .error ((byte :: bytes).take length) :: scanFuel fuel ((byte :: bytes).drop length)

/-- Bytes as characters and malformed parts. -/
def scan (bytes : List UInt8) : List (Except (List UInt8) Char) := scanFuel bytes.length bytes

/-- Where the bytes that are text end, and how many are malformed; nothing where the bytes end
within a character. -/
structure Error where
  validUpTo : Nat
  errorLength : Option Nat
  deriving DecidableEq, Repr

/-- The characters up to the first malformed part. -/
def decodeScan : Nat → List (Except (List UInt8) Char) → Except Error (List Char)
  | _, [] => .ok []
  | offset, .ok c :: rest => (decodeScan (offset + c.utf8Size) rest).map (c :: ·)
  | offset, .error part :: rest => .error {
      validUpTo := offset
      errorLength :=
        if rest.isEmpty && ((part.head?).bind secondBytes).isSome then none else some part.length }

/-- `str::from_utf8`. -/
def decode (bytes : List UInt8) : Except Error (List Char) := decodeScan 0 (scan bytes)

/-- A malformed part is replaced by one character. -/
def replacement : Char := Char.ofNat 0xFFFD

/-- `String::from_utf8_lossy`. -/
def decodeLossy (bytes : List UInt8) : List Char :=
  (scan bytes).map fun
    | .ok c => c
    | .error _ => replacement

@[simp] theorem decodeLossy_nil : decodeLossy [] = [] := rfl

/-! ## The bytes of a text -/

theorem first?_encode_append (c : Char) (rest : List UInt8) :
    first? (String.utf8EncodeChar c ++ rest) = some c := by
  rw [first?, List.toByteArray_append]
  exact ByteArray.utf8DecodeChar?_utf8EncodeChar_append

theorem encodeChar_pos (c : Char) : 0 < (String.utf8EncodeChar c).length := by
  rw [String.length_utf8EncodeChar]
  exact c.utf8Size_pos

/-- Bytes that are short of a character do not begin with one. -/
theorem first?_of_proper {c : Char} {bytes rest : List UInt8}
    (h : bytes ++ rest = String.utf8EncodeChar c) (hrest : rest ≠ []) : first? bytes = none := by
  cases hfirst : first? bytes with
  | none => rfl
  | some c' =>
    have hmore : first? (bytes ++ rest) = some c' := by
      rw [first?, List.toByteArray_append]
      exact ByteArray.utf8DecodeChar?_append_eq_some hfirst _
    have hc : first? (String.utf8EncodeChar c) = some c := by
      simpa using first?_encode_append c []
    rw [h, hc] at hmore
    cases hmore
    have hsize := ByteArray.le_size_of_utf8DecodeChar?_eq_some hfirst
    have hlength := congrArg List.length h
    rw [List.length_append, String.length_utf8EncodeChar] at hlength
    have hpos := List.length_pos_iff.mpr hrest
    simp only [List.size_toByteArray] at hsize
    omega

theorem isContinuation_ofNat {n : Nat} (h : n < 256) :
    isContinuation (UInt8.ofNat n) = true ↔ 128 ≤ n ∧ n < 192 := by
  have hn : (UInt8.ofNat n).toNat = n := by simpa using h
  rw [isContinuation, Bool.and_eq_true, decide_eq_true_eq, decide_eq_true_eq,
    UInt8.le_iff_toNat_le, UInt8.lt_iff_toNat_lt, hn]
  exact Iff.rfl

/-- The bytes behind the first one of a character. -/
theorem isContinuation_of_mem {c : Char} {byte : UInt8}
    (h : byte ∈ (String.utf8EncodeChar c).tail) : isContinuation byte = true := by
  unfold String.utf8EncodeChar at h
  simp only at h
  split_ifs at h <;>
    simp only [List.tail_cons, List.not_mem_nil, List.mem_cons, or_false] at h
  · rw [h, isContinuation_ofNat] <;> omega
  · rcases h with rfl | rfl <;> rw [isContinuation_ofNat] <;> omega
  · rcases h with rfl | rfl | rfl <;> rw [isContinuation_ofNat] <;> omega

theorem not_isContinuation_head {c : Char} {byte : UInt8}
    (h : (String.utf8EncodeChar c).head? = some byte) : isContinuation byte = false := by
  rw [← Bool.not_eq_true]
  unfold String.utf8EncodeChar at h
  simp only at h
  split_ifs at h <;> rw [List.head?_cons, Option.some.injEq] at h <;>
    rw [← h, isContinuation_ofNat] <;> omega

theorem first?_eq_some {bytes : List UInt8} {c : Char} (h : first? bytes = some c) :
    ∃ more, bytes = String.utf8EncodeChar c ++ more := by
  obtain ⟨more, hmore⟩ := ByteArray.exists_of_utf8DecodeChar?_eq_some h
  refine ⟨more.data.toList, ?_⟩
  have hdata := congrArg (fun b : ByteArray => b.data.toList) hmore
  simpa using hdata

/-- A byte that continues a character does not begin one. -/
theorem first?_continuation {byte : UInt8} (h : isContinuation byte = true) (rest : List UInt8) :
    first? (byte :: rest) = none := by
  cases hfirst : first? (byte :: rest) with
  | none => rfl
  | some c =>
    obtain ⟨more, hmore⟩ := first?_eq_some hfirst
    have hhead := congrArg List.head? hmore
    rw [List.head?_cons, List.head?_append_of_ne_nil _ (List.length_pos_iff.mp (encodeChar_pos c))]
      at hhead
    rw [not_isContinuation_head hhead.symm] at h
    cases h

/-! ## Reading whole texts -/

theorem malformedLength_pos (bytes : List UInt8) : 0 < malformedLength bytes := by
  unfold malformedLength
  split
  · split
    · exact Nat.one_pos
    · split <;> omega
  · exact Nat.one_pos

theorem malformedLength_continuation {byte : UInt8} (h : isContinuation byte = true)
    (rest : List UInt8) : malformedLength (byte :: rest) = 1 := by
  cases rest with
  | nil => rfl
  | cons second rest =>
    -- a byte below `0xC2` begins no character of several bytes
    have hnone : secondBytes byte = none := by
      simp only [isContinuation, Bool.and_eq_true, decide_eq_true_eq, UInt8.lt_iff_toNat_lt] at h
      have hlt : byte.toNat < 192 := h.2
      have hlow : ∀ low : UInt8, 192 ≤ low.toNat → ¬low ≤ byte ∧ byte ≠ low := by
        intro low hle
        refine ⟨?_, ?_⟩
        · rw [UInt8.le_iff_toNat_le]
          omega
        · rintro rfl
          omega
      simp [secondBytes, hlow]
    rw [malformedLength, hnone]

/-- Any fuel will do that covers the bytes. -/
theorem scanFuel_congr {fuel fuel' : Nat} {bytes : List UInt8} (hfuel : bytes.length ≤ fuel)
    (hfuel' : bytes.length ≤ fuel') : scanFuel fuel bytes = scanFuel fuel' bytes := by
  induction fuel generalizing fuel' bytes with
  | zero =>
    rw [List.length_eq_zero_iff.mp (Nat.le_zero.mp hfuel)]
    cases fuel' <;> rfl
  | succ fuel ih =>
    cases bytes with
    | nil => cases fuel' <;> rfl
    | cons byte bytes =>
      obtain ⟨fuel', rfl⟩ : ∃ n, fuel' = n + 1 := ⟨fuel' - 1, by simp at hfuel'; omega⟩
      rw [List.length_cons] at hfuel hfuel'
      have hdrop : ∀ n, 0 < n → ((byte :: bytes).drop n).length ≤ fuel ∧
          ((byte :: bytes).drop n).length ≤ fuel' := by
        intro n hn
        rw [List.length_drop, List.length_cons]
        omega
      rw [scanFuel, scanFuel]
      cases first? (byte :: bytes) with
      | some c =>
        obtain ⟨h, h'⟩ := hdrop _ c.utf8Size_pos
        simp only [ih h h']
      | none =>
        obtain ⟨h, h'⟩ := hdrop _ (malformedLength_pos (byte :: bytes))
        simp only [ih h h']

theorem scan_cons (byte : UInt8) (bytes : List UInt8) :
    scan (byte :: bytes) = match first? (byte :: bytes) with
      | some c => .ok c :: scan ((byte :: bytes).drop c.utf8Size)
      | none => .error ((byte :: bytes).take (malformedLength (byte :: bytes))) ::
          scan ((byte :: bytes).drop (malformedLength (byte :: bytes))) := by
  have hdrop : ∀ n, 0 < n → ((byte :: bytes).drop n).length ≤ bytes.length := by
    intro n hn
    rw [List.length_drop, List.length_cons]
    omega
  rw [scan, List.length_cons, scanFuel]
  cases first? (byte :: bytes) with
  | some c => simp only [scan, scanFuel_congr (hdrop _ c.utf8Size_pos) (Nat.le_refl _)]
  | none =>
    simp only [scan, scanFuel_congr (hdrop _ (malformedLength_pos (byte :: bytes))) (Nat.le_refl _)]

/-- A character is read as itself, whatever follows. -/
theorem scan_encodeChar_append (c : Char) (rest : List UInt8) :
    scan (String.utf8EncodeChar c ++ rest) = .ok c :: scan rest := by
  have hfirst := first?_encode_append c rest
  have hdrop : (String.utf8EncodeChar c ++ rest).drop c.utf8Size = rest := by
    rw [← String.length_utf8EncodeChar, List.drop_left]
  cases hbytes : String.utf8EncodeChar c ++ rest with
  | nil =>
    have hpos := encodeChar_pos c
    rw [(List.append_eq_nil_iff.mp hbytes).1] at hpos
    cases hpos
  | cons byte bytes =>
    rw [hbytes] at hfirst hdrop
    rw [scan_cons, hfirst]
    simp only [hdrop]

theorem decodeLossy_encodeChar_append (c : Char) (rest : List UInt8) :
    decodeLossy (String.utf8EncodeChar c ++ rest) = c :: decodeLossy rest := by
  rw [decodeLossy, scan_encodeChar_append]
  rfl

/-- **The bytes of a text are read as its characters**, whatever follows. -/
theorem scan_encode_append (text : List Char) (rest : List UInt8) :
    scan (encode text ++ rest) = text.map .ok ++ scan rest := by
  induction text with
  | nil => rfl
  | cons c text ih =>
    rw [encode_cons, List.append_assoc, scan_encodeChar_append, ih]
    rfl

/-! ## Where a text can be split -/

/-- A byte of a character that is a character by itself. -/
def isAscii (byte : UInt8) : Bool := byte < 0x80

theorem not_isContinuation_of_isAscii {byte : UInt8} (h : isAscii byte = true) :
    isContinuation byte = false := by
  rw [isAscii, decide_eq_true_eq, UInt8.lt_iff_toNat_lt] at h
  rw [← Bool.not_eq_true, isContinuation, Bool.and_eq_true, decide_eq_true_eq,
    UInt8.le_iff_toNat_le]
  exact fun hle => absurd hle.1 (Nat.not_le.mpr h)

/-- The second byte of a character is none that is a character by itself. -/
theorem secondBytes_le {lead low high : UInt8} {width : Nat}
    (h : secondBytes lead = some (low, high, width)) : 0x80 ≤ low ∧ width ≤ 4 := by
  unfold secondBytes at h
  split_ifs at h <;> simp only [Option.some.injEq, Prod.mk.injEq] at h <;>
    obtain ⟨rfl, rfl, rfl⟩ := h <;> exact ⟨by decide, by decide⟩

theorem malformedLength_le (bytes : List UInt8) : malformedLength bytes ≤ 3 := by
  unfold malformedLength
  split
  · split
    · omega
    · next rest _ low high width hsecond =>
      have hwidth := (secondBytes_le hsecond).2
      have htake : (rest.take (width - 3)).takeWhile isContinuation <+: rest.take (width - 3) :=
        List.takeWhile_prefix isContinuation
      have hle := htake.length_le
      rw [List.length_take] at hle
      split <;> omega
  · omega

/-- A malformed part ends before a byte that is a character by itself. -/
theorem malformedLength_append {bytes rest : List UInt8} (hbytes : bytes ≠ [])
    (hrest : ∀ byte, rest.head? = some byte → isAscii byte = true) :
    malformedLength (bytes ++ rest) = malformedLength bytes ∧
      malformedLength bytes ≤ bytes.length := by
  obtain ⟨lead, bytes, rfl⟩ := List.exists_cons_of_ne_nil hbytes
  cases bytes with
  | nil =>
    refine ⟨?_, Nat.le_refl _⟩
    cases rest with
    | nil => rfl
    | cons byte rest =>
      have hascii := hrest byte rfl
      rw [isAscii, decide_eq_true_eq, UInt8.lt_iff_toNat_lt] at hascii
      rw [List.singleton_append]
      unfold malformedLength
      simp only
      split
      · rfl
      · next low high width hsecond =>
        have hlow := (secondBytes_le hsecond).1
        rw [UInt8.le_iff_toNat_le] at hlow
        refine if_neg fun hle => ?_
        rw [UInt8.le_iff_toNat_le] at hle
        exact absurd (Nat.le_trans hlow hle.1) (Nat.not_le.mpr hascii)
  | cons second bytes =>
    rw [List.cons_append, List.cons_append]
    unfold malformedLength
    simp only
    split
    · exact ⟨rfl, by simp⟩
    · next low high width hsecond =>
      have hfront : (bytes.take (width - 3)).takeWhile isContinuation <+: bytes.take (width - 3) :=
        List.takeWhile_prefix isContinuation
      have htake : ((bytes ++ rest).take (width - 3)).takeWhile isContinuation =
          (bytes.take (width - 3)).takeWhile isContinuation := by
        rw [List.take_append, List.takeWhile_append]
        split
        · next hall =>
          -- all bytes up to the end continue the character, and the next one does not
          have hnone : (rest.take (width - 3 - bytes.length)).takeWhile isContinuation = [] := by
            cases rest with
            | nil => simp
            | cons byte rest =>
              cases width - 3 - bytes.length with
              | zero => rfl
              | succ n =>
                rw [List.take_succ_cons, List.takeWhile_cons,
                  not_isContinuation_of_isAscii (hrest byte rfl)]
                rfl
          have hwhole := List.IsPrefix.eq_of_length hfront hall
          rw [hnone, List.append_nil, hwhole]
        · rfl
      have hle := hfront.length_le
      rw [List.length_take] at hle
      rw [htake]
      refine ⟨rfl, ?_⟩
      simp only [List.length_cons]
      split <;> omega

/-- Bytes that begin with a character still do when fewer bytes follow, as long as those missing
begin with one that is a character by itself. -/
theorem first?_append {bytes rest : List UInt8} (hbytes : bytes ≠ [])
    (hrest : ∀ byte, rest.head? = some byte → isAscii byte = true) :
    first? (bytes ++ rest) = first? bytes := by
  cases hfirst : first? bytes with
  | some c =>
    rw [first?, List.toByteArray_append]
    exact ByteArray.utf8DecodeChar?_append_eq_some hfirst _
  | none =>
    rw [Option.eq_none_iff_forall_ne_some]
    intro c hc
    obtain ⟨more, hmore⟩ := first?_eq_some hc
    rcases List.append_eq_append_iff.mp hmore with ⟨front, hchar, hfront⟩ | ⟨back, hback, -⟩
    · -- the character goes on with the first byte of `rest`
      cases front with
      | nil =>
        have hself := first?_encode_append c []
        rw [List.append_nil, hchar, List.append_nil, hfirst] at hself
        cases hself
      | cons byte front =>
        obtain ⟨lead, bytes, rfl⟩ := List.exists_cons_of_ne_nil hbytes
        have htail : isContinuation byte = true := by
          refine @isContinuation_of_mem c byte ?_
          rw [hchar, List.cons_append, List.tail_cons]
          exact List.mem_append_right _ List.mem_cons_self
        have hhead := not_isContinuation_of_isAscii (hrest byte (by rw [hfront]; rfl))
        rw [htail] at hhead
        cases hhead
    · rw [hback, first?_encode_append] at hfirst
      cases hfirst

/-- **A text is read part by part** where it is split before a byte that is a character by
itself. -/
theorem scan_append {bytes rest : List UInt8}
    (hrest : ∀ byte, rest.head? = some byte → isAscii byte = true) :
    scan (bytes ++ rest) = scan bytes ++ scan rest := by
  induction hn : bytes.length using Nat.strongRecOn generalizing bytes with
  | _ n ih =>
    cases bytes with
    | nil => rfl
    | cons byte bytes =>
      have hdrop : ∀ m, 0 < m → ((byte :: bytes).drop m).length < n := by
        intro m hm
        rw [List.length_drop, ← hn, List.length_cons]
        omega
      rw [List.cons_append, scan_cons, scan_cons, ← List.cons_append,
        first?_append (List.cons_ne_nil _ _) hrest]
      cases hfirst : first? (byte :: bytes) with
      | some c =>
        have hle : c.utf8Size ≤ (byte :: bytes).length := by
          obtain ⟨more, hmore⟩ := first?_eq_some hfirst
          rw [hmore, List.length_append, String.length_utf8EncodeChar]
          omega
        simp only [List.drop_append_of_le_length hle]
        rw [ih _ (hdrop _ c.utf8Size_pos) rfl]
        rfl
      | none =>
        obtain ⟨hlength, hle⟩ := malformedLength_append (List.cons_ne_nil byte bytes) hrest
        simp only [hlength, List.drop_append_of_le_length hle,
          List.take_append_of_le_length hle]
        rw [ih _ (hdrop _ (malformedLength_pos _)) rfl]
        rfl

theorem isAscii_ofNat {n : Nat} (h : n < 256) : isAscii (UInt8.ofNat n) = true ↔ n < 128 := by
  have hn : (UInt8.ofNat n).toNat = n := by simpa using h
  rw [isAscii, decide_eq_true_eq, UInt8.lt_iff_toNat_lt, hn]
  exact Iff.rfl

/-- A byte that is a character by itself is the only one of its character. -/
theorem encodeChar_of_isAscii {c : Char} {byte : UInt8} (h : byte ∈ String.utf8EncodeChar c)
    (hascii : isAscii byte = true) : String.utf8EncodeChar c = [byte] ∧ c.toNat = byte.toNat := by
  have hval : c.toNat = c.val.toNat := rfl
  unfold String.utf8EncodeChar at h ⊢
  simp only at h ⊢
  split_ifs at h ⊢ with h1 h2 h3
  · rw [List.mem_singleton] at h
    refine ⟨by rw [h], ?_⟩
    rw [h, hval, UInt8.toNat_ofNat']
    omega
  all_goals
    exfalso
    simp only [List.mem_cons, List.not_mem_nil, or_false] at h
  · rcases h with rfl | rfl <;> rw [isAscii_ofNat] at hascii <;> omega
  · rcases h with rfl | rfl | rfl <;> rw [isAscii_ofNat] at hascii <;> omega
  · rcases h with rfl | rfl | rfl | rfl <;> rw [isAscii_ofNat] at hascii <;> omega

theorem encodeChar_ofNat {byte : UInt8} (h : isAscii byte = true) :
    String.utf8EncodeChar (Char.ofNat byte.toNat) = [byte] := by
  rw [isAscii, decide_eq_true_eq, UInt8.lt_iff_toNat_lt] at h
  have hlt : byte.toNat < 128 := h
  have hval : (Char.ofNat byte.toNat).val.toNat = byte.toNat := by
    rw [Char.ofNat, dif_pos (.inl (by omega))]
    rfl
  unfold String.utf8EncodeChar
  simp only [hval]
  rw [if_pos (by omega)]
  simp

/-- A malformed part has no byte that is a character by itself. -/
theorem not_isAscii_of_malformed {bytes : List UInt8} (h : first? bytes = none) {byte : UInt8}
    (hbyte : byte ∈ bytes.take (malformedLength bytes)) : isAscii byte = false := by
  cases bytes with
  | nil => simp at hbyte
  | cons lead bytes =>
    have hlead : isAscii lead = false := by
      rw [← Bool.not_eq_true]
      intro hascii
      have hfirst := first?_encode_append (Char.ofNat lead.toNat) bytes
      rw [encodeChar_ofNat hascii, List.singleton_append, h] at hfirst
      cases hfirst
    cases bytes with
    | nil =>
      obtain rfl : byte = lead := by simpa [malformedLength] using hbyte
      exact hlead
    | cons second rest =>
      rw [malformedLength] at hbyte
      split at hbyte
      · obtain rfl : byte = lead := by simpa using hbyte
        exact hlead
      · next low high width hsecond =>
        split at hbyte
        · next hrange =>
          have htake : (rest.take (width - 3)).takeWhile isContinuation =
              rest.take ((rest.take (width - 3)).takeWhile isContinuation).length :=
            List.prefix_iff_eq_take.mp (( List.takeWhile_prefix _).trans (List.take_prefix _ _))
          rw [Nat.add_comm, List.take_succ_cons, List.take_succ_cons, ← htake,
            List.mem_cons, List.mem_cons] at hbyte
          rcases hbyte with rfl | rfl | hbyte
          · exact hlead
          · have hlow := (secondBytes_le hsecond).1
            rw [UInt8.le_iff_toNat_le] at hlow hrange
            rw [isAscii, decide_eq_false_iff_not, UInt8.lt_iff_toNat_lt]
            exact Nat.not_lt.mpr (Nat.le_trans hlow hrange.1)
          · rw [← Bool.not_eq_true]
            intro hascii
            have hcontinue := List.all_eq_true.mp List.all_takeWhile _ hbyte
            rw [not_isContinuation_of_isAscii hascii] at hcontinue
            cases hcontinue
        · obtain rfl : byte = lead := by simpa using hbyte
          exact hlead

theorem decodeLossy_append {bytes rest : List UInt8}
    (hrest : ∀ byte, rest.head? = some byte → isAscii byte = true) :
    decodeLossy (bytes ++ rest) = decodeLossy bytes ++ decodeLossy rest := by
  rw [decodeLossy, scan_append hrest, List.map_append]
  rfl

/-- The bytes of a character are one that is a character by itself, or none of them is. -/
theorem encodeChar_cases (c : Char) :
    (∃ byte, isAscii byte = true ∧ String.utf8EncodeChar c = [byte] ∧
      c = Char.ofNat byte.toNat) ∨
    128 ≤ c.toNat ∧ ∀ byte ∈ String.utf8EncodeChar c, isAscii byte = false := by
  by_cases h : ∃ byte ∈ String.utf8EncodeChar c, isAscii byte = true
  · obtain ⟨byte, hbyte, hascii⟩ := h
    obtain ⟨hbytes, hchar⟩ := encodeChar_of_isAscii hbyte hascii
    exact .inl ⟨byte, hascii, hbytes, by rw [← hchar, Char.ofNat_toNat]⟩
  · right
    refine ⟨?_, fun byte hbyte => ?_⟩
    · by_contra hlt
      have hbyte : (UInt8.ofNat c.toNat).toNat = c.toNat := by
        rw [UInt8.toNat_ofNat']
        omega
      have hascii := (isAscii_ofNat (n := c.toNat) (by omega)).mpr (by omega)
      have hbytes := encodeChar_ofNat hascii
      rw [hbyte, Char.ofNat_toNat] at hbytes
      exact h ⟨_, hbytes ▸ List.mem_singleton_self _, hascii⟩
    · rw [← Bool.not_eq_true]
      exact fun hascii => h ⟨byte, hbyte, hascii⟩

/-- What the first bytes are read as: the character that is one byte by itself, or another one. -/
theorem decodeLossy_eq_cons {bytes : List UInt8} (hbytes : bytes ≠ []) :
    ∃ (c : Char) (front rest : List UInt8), bytes = front ++ rest ∧ front ≠ [] ∧
      decodeLossy bytes = c :: decodeLossy rest ∧
      ((∃ byte, isAscii byte = true ∧ front = [byte] ∧ c = Char.ofNat byte.toNat) ∨
        128 ≤ c.toNat ∧ ∀ byte ∈ front, isAscii byte = false) := by
  obtain ⟨byte, bytes, rfl⟩ := List.exists_cons_of_ne_nil hbytes
  cases hfirst : first? (byte :: bytes) with
  | some c =>
    obtain ⟨more, hmore⟩ := first?_eq_some hfirst
    have hne : String.utf8EncodeChar c ≠ [] := List.length_pos_iff.mp (encodeChar_pos c)
    refine ⟨c, String.utf8EncodeChar c, more, hmore, hne, ?_, encodeChar_cases c⟩
    rw [hmore, decodeLossy, scan_encodeChar_append]
    rfl
  | none =>
    have hpos := malformedLength_pos (byte :: bytes)
    refine ⟨replacement, (byte :: bytes).take (malformedLength (byte :: bytes)),
      (byte :: bytes).drop (malformedLength (byte :: bytes)), (List.take_append_drop _ _).symm,
      ?_, ?_, .inr ⟨by decide, fun b hb => not_isAscii_of_malformed hfirst hb⟩⟩
    · rw [ne_eq, List.take_eq_nil_iff, not_or]
      exact ⟨by omega, List.cons_ne_nil _ _⟩
    · rw [decodeLossy, scan_cons, hfirst]
      rfl

/-! ## The length of what is read -/

/-- The number of bytes of a text. -/
def width (text : List Char) : Nat := (encode text).length

@[simp] theorem width_nil : width [] = 0 := rfl

@[simp] theorem width_cons (c : Char) (text : List Char) :
    width (c :: text) = c.utf8Size + width text := by
  simp [width]

@[simp] theorem width_append (text more : List Char) :
    width (text ++ more) = width text + width more := by
  simp [width, encode_append]

/-- How many bytes malformed parts are short of the character that replaces each. -/
def lacking : List (Except (List UInt8) Char) → Nat
  | [] => 0
  | .ok _ :: rest => lacking rest
  | .error part :: rest => (3 - part.length) + lacking rest

/-- **What is read is longer than the bytes** by what the malformed parts lack. -/
theorem width_decodeLossy (bytes : List UInt8) :
    width (decodeLossy bytes) = bytes.length + lacking (scan bytes) := by
  induction hn : bytes.length using Nat.strongRecOn generalizing bytes with
  | _ n ih =>
    cases bytes with
    | nil => rw [← hn]; rfl
    | cons byte bytes =>
      have hdrop : ∀ m, 0 < m → ((byte :: bytes).drop m).length < n := by
        intro m hm
        rw [List.length_drop, ← hn, List.length_cons]
        omega
      rw [decodeLossy, scan_cons]
      cases hfirst : first? (byte :: bytes) with
      | some c =>
        have hle : c.utf8Size ≤ (byte :: bytes).length := by
          obtain ⟨more, hmore⟩ := first?_eq_some hfirst
          rw [hmore, List.length_append, String.length_utf8EncodeChar]
          omega
        have hrest := ih _ (hdrop _ c.utf8Size_pos) _ rfl
        rw [List.length_drop] at hrest
        simp only [List.map_cons, width_cons, lacking]
        rw [decodeLossy] at hrest
        omega
      | none =>
        have hle := malformedLength_le (byte :: bytes)
        have hfits := (@malformedLength_append _ [] (List.cons_ne_nil byte bytes) (by simp)).2
        have hrest := ih _ (hdrop _ (malformedLength_pos (byte :: bytes))) _ rfl
        rw [List.length_drop] at hrest
        have hreplacement : replacement.utf8Size = 3 := by decide
        simp only [List.map_cons, width_cons, lacking, List.length_take, hreplacement]
        rw [decodeLossy] at hrest
        omega

/-! ## Strict reading -/

theorem scan_encode (text : List Char) : scan (encode text) = text.map .ok := by
  have h := scan_encode_append text []
  rwa [List.append_nil, show scan [] = [] from rfl, List.append_nil] at h

/-- **The bytes of a text are text.** -/
theorem decode_encode (text : List Char) : decode (encode text) = .ok text := by
  have hgeneral : ∀ offset, decodeScan offset (text.map .ok) = .ok text := by
    induction text with
    | nil => exact fun _ => rfl
    | cons c text ih =>
      intro offset
      rw [List.map_cons, decodeScan, ih]
      rfl
  rw [decode, scan_encode, hgeneral]

/-- A text without a character that is one byte by itself does not have this byte. -/
theorem not_mem_encode {byte : UInt8} (hascii : isAscii byte = true) {text : List Char}
    (h : Char.ofNat byte.toNat ∉ text) : byte ∉ encode text := by
  intro hbyte
  obtain ⟨c, hc, hbyte⟩ := List.mem_flatMap.mp hbyte
  obtain ⟨-, hchar⟩ := encodeChar_of_isAscii hbyte hascii
  rw [← hchar, Char.ofNat_toNat] at h
  exact h hc

theorem decodeScan_ok {offset : Nat} {items : List (Except (List UInt8) Char)} {text : List Char}
    (h : decodeScan offset items = .ok text) : items = text.map .ok := by
  induction items generalizing offset text with
  | nil =>
    cases h
    rfl
  | cons item items ih =>
    cases item with
    | error part => cases h
    | ok c =>
      rw [decodeScan] at h
      cases hrest : decodeScan (offset + c.utf8Size) items with
      | error e =>
        rw [hrest] at h
        cases h
      | ok rest =>
        rw [hrest] at h
        cases h
        rw [ih hrest]
        rfl

/-- **What is read as text is the bytes of it.** -/
theorem encode_of_decode {bytes : List UInt8} {text : List Char} (h : decode bytes = .ok text) :
    encode text = bytes := by
  have hscan := decodeScan_ok h
  clear h
  induction text generalizing bytes with
  | nil =>
    cases bytes with
    | nil => rfl
    | cons byte bytes =>
      rw [scan_cons] at hscan
      cases hfirst : first? (byte :: bytes) <;> rw [hfirst] at hscan <;> cases hscan
  | cons c text ih =>
    cases bytes with
    | nil => cases hscan
    | cons byte bytes =>
      rw [scan_cons] at hscan
      cases hfirst : first? (byte :: bytes) with
      | none =>
        rw [hfirst] at hscan
        cases hscan
      | some c' =>
        rw [hfirst] at hscan
        simp only [List.map_cons, List.cons.injEq, Except.ok.injEq] at hscan
        obtain ⟨rfl, hrest⟩ := hscan
        obtain ⟨more, hmore⟩ := first?_eq_some hfirst
        rw [hmore, ← String.length_utf8EncodeChar, List.drop_left] at hrest
        rw [hmore, encode_cons, ih hrest]

/-- The bytes of a text begin with those of another one only if the text does. -/
theorem prefix_of_encode {text text' : List Char} (h : encode text <+: encode text') :
    text <+: text' := by
  obtain ⟨rest, hrest⟩ := h
  have hscan := scan_encode_append text rest
  rw [hrest, scan_encode] at hscan
  obtain ⟨front, back, rfl, hfront, -⟩ := List.map_eq_append_iff.mp hscan
  have hinjective : Function.Injective (Except.ok : Char → Except (List UInt8) Char) := by
    intro c c' heq
    cases heq
    rfl
  rw [hinjective.list_map hfront]
  exact List.prefix_append text back

end Utf8
