import PiqoServer.Library.Utf8

/-!
# Text that is decoded chunk by chunk

A reader that turns every chunk of a stream into text by itself tears the characters that a chunk
ends within: their bytes are malformed on both sides of the cut, and every malformed part is
replaced. All other characters are read as they are.

## Main definitions

* `ends`: where the chunks of a stream end
* `CutWithin`: whether a character is cut
* `Torn`: a text and what is read in its place

## Main results

* `torn_of_chunks`: what is read of the chunks of a text
* `Torn.append_left`: a text is torn part by part
* `Torn.eq_iff`: a text is read as it is when none of its characters is cut
-/

namespace Utf8

/-- Where the chunks of a stream end that begins at `start`. -/
def ends : Nat → List (List UInt8) → List Nat
  | _, [] => []
  | start, chunk :: chunks => (start + chunk.length) :: ends (start + chunk.length) chunks

/-- The character at `start` has bytes on both sides of a cut. -/
def CutWithin (cuts : List Nat) (start : Nat) (c : Char) : Prop :=
  ∃ cut ∈ cuts, start < cut ∧ cut < start + c.utf8Size

instance (cuts : List Nat) (start : Nat) (c : Char) : Decidable (CutWithin cuts start c) :=
  inferInstanceAs (Decidable (∃ cut ∈ cuts, _))

/-- A text at `start`, and what is read in its place: a character that is cut becomes two
replacement characters or more. -/
inductive Torn (cuts : List Nat) : Nat → List Char → List Char → Prop
  | nil (start : Nat) : Torn cuts start [] []
  | whole {start : Nat} {c : Char} {text read : List Char} (hcut : ¬CutWithin cuts start c)
      (h : Torn cuts (start + c.utf8Size) text read) : Torn cuts start (c :: text) (c :: read)
  | lost {start : Nat} {c : Char} {text read : List Char} (count : Nat)
      (hcut : CutWithin cuts start c) (hcount : 2 ≤ count) (hsize : count ≤ c.utf8Size)
      (h : Torn cuts (start + c.utf8Size) text read) :
      Torn cuts start (c :: text) (List.replicate count replacement ++ read)

/-- None of the characters of a text at `start` is cut. -/
def Whole (cuts : List Nat) : Nat → List Char → Prop
  | _, [] => True
  | start, c :: text => ¬CutWithin cuts start c ∧ Whole cuts (start + c.utf8Size) text

/-! ## Torn texts -/

namespace Torn

variable {cuts cuts' : List Nat} {start : Nat} {text more read : List Char}

/-- Only the cuts behind the beginning matter. -/
theorem congr (h : Torn cuts start text read)
    (hcuts : ∀ cut, start < cut → (cut ∈ cuts ↔ cut ∈ cuts')) : Torn cuts' start text read := by
  have hwithin : ∀ (start' : Nat) (c : Char), start ≤ start' →
      (CutWithin cuts start' c ↔ CutWithin cuts' start' c) := by
    intro start' c hle
    refine exists_congr fun cut => ?_
    by_cases hlt : start' < cut
    · rw [hcuts cut (by omega)]
    · simp [hlt]
  induction h with
  | nil => exact .nil _
  | whole hcut _ ih =>
    exact .whole (fun h => hcut ((hwithin _ _ (Nat.le_refl _)).mpr h))
      (ih (fun cut hlt => hcuts cut (by omega)) fun _ _ hle => hwithin _ _ (by omega))
  | lost count hcut hcount hsize _ ih =>
    exact .lost count ((hwithin _ _ (Nat.le_refl _)).mp hcut) hcount hsize
      (ih (fun cut hlt => hcuts cut (by omega)) fun _ _ hle => hwithin _ _ (by omega))

/-- **A text is torn part by part.** -/
theorem append_left (h : Torn cuts start (text ++ more) read) :
    ∃ read₁ read₂, read = read₁ ++ read₂ ∧ Torn cuts start text read₁ ∧
      Torn cuts (start + width text) more read₂ := by
  induction text generalizing start read with
  | nil => exact ⟨[], read, rfl, .nil _, h⟩
  | cons c text ih =>
    rw [List.cons_append] at h
    rw [width_cons, ← Nat.add_assoc]
    cases h with
    | whole hcut h =>
      obtain ⟨read₁, read₂, rfl, h₁, h₂⟩ := ih h
      exact ⟨c :: read₁, read₂, rfl, .whole hcut h₁, h₂⟩
    | lost count hcut hcount hsize h =>
      obtain ⟨read₁, read₂, rfl, h₁, h₂⟩ := ih h
      exact ⟨_, read₂, (List.append_assoc ..).symm, .lost count hcut hcount hsize h₁, h₂⟩

theorem length_le (h : Torn cuts start text read) : text.length ≤ read.length := by
  induction h with
  | nil => exact Nat.le_refl _
  | whole _ _ ih =>
    simp only [List.length_cons]
    omega
  | lost count _ hcount _ _ ih =>
    simp only [List.length_cons, List.length_append, List.length_replicate]
    omega

/-- What is read has as many characters as the text only if none is cut. -/
theorem length_lt_of_cut (h : Torn cuts start text read) (hcut : ¬Whole cuts start text) :
    text.length < read.length := by
  induction h with
  | nil => exact absurd trivial hcut
  | whole hc _ ih =>
    have hlt := ih fun hwhole => hcut ⟨hc, hwhole⟩
    simp only [List.length_cons]
    omega
  | lost count _ hcount _ h ih =>
    have hle := h.length_le
    simp only [List.length_cons, List.length_append, List.length_replicate]
    omega

theorem eq_of_whole (h : Torn cuts start text read) (hwhole : Whole cuts start text) :
    read = text := by
  induction h with
  | nil => rfl
  | whole _ _ ih => rw [ih hwhole.2]
  | lost _ hcut => exact absurd hcut hwhole.1

/-- **A text is read as it is exactly when none of its characters is cut.** -/
theorem eq_iff (h : Torn cuts start text read) : read = text ↔ Whole cuts start text := by
  refine ⟨fun heq => ?_, h.eq_of_whole⟩
  by_contra hcut
  have hlt := h.length_lt_of_cut hcut
  rw [heq] at hlt
  omega

end Torn

/-! ## Chunks -/

theorem le_of_mem_ends {start cut : Nat} {chunks : List (List UInt8)}
    (h : cut ∈ ends start chunks) : start ≤ cut := by
  induction chunks generalizing start with
  | nil => cases h
  | cons chunk chunks ih =>
    rw [ends, List.mem_cons] at h
    rcases h with rfl | h
    · omega
    · have hle := ih h
      omega

/-- What each chunk is read as, one behind the other. -/
def decodeChunks (chunks : List (List UInt8)) : List Char := chunks.flatMap decodeLossy

/-- The bytes of a text are read as the text. -/
theorem decodeLossy_encode (text : List Char) : decodeLossy (encode text) = text := by
  induction text with
  | nil => rfl
  | cons c text ih => rw [encode_cons, decodeLossy_encodeChar_append, ih]

/-- A byte that continues a character is replaced where it stands first. -/
theorem decodeLossy_continuation {byte : UInt8} (h : isContinuation byte = true)
    (rest : List UInt8) : decodeLossy (byte :: rest) = replacement :: decodeLossy rest := by
  rw [decodeLossy, scan_cons, first?_continuation h, malformedLength_continuation h]
  rfl

/-- Bytes that only continue a character are replaced one by one. -/
theorem decodeLossy_continuations {bytes : List UInt8}
    (h : ∀ byte ∈ bytes, isContinuation byte = true) :
    decodeLossy bytes = List.replicate bytes.length replacement := by
  induction bytes with
  | nil => rfl
  | cons byte bytes ih =>
    rw [decodeLossy_continuation (h byte List.mem_cons_self),
      ih fun b hb => h b (List.mem_cons_of_mem _ hb)]
    rfl

/-- Bytes that are short of a character are replaced by one character or more. -/
theorem decodeLossy_proper {c : Char} {bytes rest : List UInt8}
    (h : bytes ++ rest = String.utf8EncodeChar c) (hbytes : bytes ≠ []) (hrest : rest ≠ []) :
    ∃ count, decodeLossy bytes = List.replicate count replacement ∧ 1 ≤ count ∧
      count ≤ bytes.length := by
  obtain ⟨byte, bytes, rfl⟩ := List.exists_cons_of_ne_nil hbytes
  -- the bytes behind the first one continue the character
  have htail : ∀ b ∈ (byte :: bytes).drop (malformedLength (byte :: bytes)),
      isContinuation b = true := by
    intro b hb
    refine @isContinuation_of_mem c b ?_
    rw [← h, List.cons_append, List.tail_cons]
    have hpos := malformedLength_pos (byte :: bytes)
    obtain ⟨n, hn⟩ : ∃ n, malformedLength (byte :: bytes) = n + 1 := ⟨_, (Nat.sub_add_cancel hpos).symm⟩
    rw [hn, List.drop_succ_cons] at hb
    exact List.mem_append_left _ (List.mem_of_mem_drop hb)
  have hpos := malformedLength_pos (byte :: bytes)
  refine ⟨1 + ((byte :: bytes).drop (malformedLength (byte :: bytes))).length, ?_, by omega, ?_⟩
  · have hread := decodeLossy_continuations htail
    rw [decodeLossy] at hread
    rw [decodeLossy, scan_cons, first?_of_proper h hrest, Nat.add_comm, List.replicate_succ,
      ← hread]
    rfl
  · rw [List.length_drop, List.length_cons]
    omega

/-- A byte that continues a character can be taken off the chunks. -/
theorem decodeChunks_continuation {start : Nat} {byte : UInt8} {more : List UInt8}
    {chunks : List (List UInt8)} (h : isContinuation byte = true)
    (hchunks : chunks.flatten = byte :: more) :
    ∃ chunks', chunks'.flatten = more ∧
      decodeChunks chunks = replacement :: decodeChunks chunks' ∧
      ∀ cut, start < cut → (cut ∈ ends start chunks ↔ cut ∈ ends (start + 1) chunks') := by
  induction chunks generalizing start with
  | nil => cases hchunks
  | cons chunk chunks ih =>
    cases chunk with
    | nil =>
      obtain ⟨chunks', hflat, hread, hends⟩ := @ih start hchunks
      refine ⟨chunks', hflat, hread, fun cut hlt => ?_⟩
      rw [ends, List.length_nil, Nat.add_zero, List.mem_cons, ← hends cut hlt]
      exact or_iff_right (by omega)
    | cons b chunk =>
      rw [List.flatten_cons, List.cons_append, List.cons.injEq] at hchunks
      obtain ⟨rfl, hmore⟩ := hchunks
      refine ⟨chunk :: chunks, hmore, ?_, fun cut hlt => ?_⟩
      · simp [decodeChunks, decodeLossy_continuation h]
      · rw [ends, ends, List.length_cons, ← Nat.add_assoc, Nat.add_right_comm]

theorem decodeChunks_continuations {start : Nat} {bytes more : List UInt8}
    {chunks : List (List UInt8)} (h : ∀ byte ∈ bytes, isContinuation byte = true)
    (hchunks : chunks.flatten = bytes ++ more) :
    ∃ chunks', chunks'.flatten = more ∧
      decodeChunks chunks = List.replicate bytes.length replacement ++ decodeChunks chunks' ∧
      ∀ cut, start + bytes.length < cut →
        (cut ∈ ends start chunks ↔ cut ∈ ends (start + bytes.length) chunks') := by
  induction bytes generalizing start chunks with
  | nil => exact ⟨chunks, hchunks, rfl, fun cut _ => Iff.rfl⟩
  | cons byte bytes ih =>
    obtain ⟨chunks₁, hflat₁, hread₁, hends₁⟩ :=
      @decodeChunks_continuation start _ _ _ (h byte List.mem_cons_self) hchunks
    obtain ⟨chunks₂, hflat₂, hread₂, hends₂⟩ :=
      @ih (start + 1) chunks₁ (fun b hb => h b (List.mem_cons_of_mem _ hb)) hflat₁
    refine ⟨chunks₂, hflat₂, ?_, fun cut hlt => ?_⟩
    · rw [hread₁, hread₂]
      rfl
    · rw [List.length_cons] at hlt ⊢
      rw [hends₁ cut (by omega), hends₂ cut (by omega), Nat.add_assoc, Nat.add_comm 1]

/-- The first character of a text is read as it is, or it is cut. -/
theorem decodeChunks_encodeChar {start : Nat} {c : Char} {more : List UInt8}
    {chunks : List (List UInt8)} (hchunks : chunks.flatten = String.utf8EncodeChar c ++ more) :
    ∃ chunks' count, chunks'.flatten = more ∧
      (∀ cut, start + c.utf8Size < cut →
        (cut ∈ ends start chunks ↔ cut ∈ ends (start + c.utf8Size) chunks')) ∧
      (¬CutWithin (ends start chunks) start c ∧ decodeChunks chunks = c :: decodeChunks chunks' ∨
        CutWithin (ends start chunks) start c ∧ 2 ≤ count ∧ count ≤ c.utf8Size ∧
          decodeChunks chunks = List.replicate count replacement ++ decodeChunks chunks') := by
  induction chunks generalizing start with
  | nil =>
    have hpos := encodeChar_pos c
    rw [(List.append_eq_nil_iff.mp hchunks.symm).1] at hpos
    cases hpos
  | cons chunk chunks ih =>
    rw [List.flatten_cons, List.append_eq_append_iff] at hchunks
    have hsize := String.length_utf8EncodeChar c
    rcases hchunks with ⟨rest, hchar, hmore⟩ | ⟨rest, rfl, hmore⟩
    · by_cases hchunk : chunk = []
      -- a chunk without bytes changes nothing
      · subst hchunk
        rw [List.nil_append] at hchar
        subst hchar
        obtain ⟨chunks', count, hflat, hends, h⟩ := @ih start hmore
        have hmem : ∀ cut, start < cut →
            (cut ∈ ends start ([] :: chunks) ↔ cut ∈ ends start chunks) := by
          intro cut hlt
          rw [ends, List.length_nil, Nat.add_zero, List.mem_cons]
          exact or_iff_right (by omega)
        have hcut : CutWithin (ends start ([] :: chunks)) start c ↔
            CutWithin (ends start chunks) start c := by
          refine exists_congr fun cut => ?_
          by_cases hlt : start < cut
          · rw [hmem cut hlt]
          · simp [hlt]
        refine ⟨chunks', count, hflat, fun cut hlt => ?_, ?_⟩
        · rw [hmem cut (by omega), hends cut hlt]
        · rw [hcut]
          exact h
      · by_cases hrest : rest = []
        -- the chunk ends with the character
        · subst hrest
          rw [List.append_nil] at hchar
          refine ⟨[] :: chunks, 0, hmore, fun cut hlt => ?_, .inl ⟨?_, ?_⟩⟩
          · rw [ends, ends, ← hchar, hsize, List.length_nil, Nat.add_zero]
          · rintro ⟨cut, hcut, hlt, hlt'⟩
            rw [ends, ← hchar, hsize, List.mem_cons] at hcut
            rcases hcut with rfl | hcut
            · omega
            · have hle := le_of_mem_ends hcut
              omega
          · have hread := decodeLossy_encodeChar_append c []
            rw [List.append_nil, hchar] at hread
            simp [decodeChunks, hread]
        -- the chunk ends within the character
        · obtain ⟨count, hread, hcount, hle⟩ := decodeLossy_proper hchar.symm hchunk hrest
          have hcontinue : ∀ byte ∈ rest, isContinuation byte = true := by
            intro byte hbyte
            refine @isContinuation_of_mem c byte ?_
            obtain ⟨b, bs, rfl⟩ := List.exists_cons_of_ne_nil hchunk
            rw [hchar, List.cons_append, List.tail_cons]
            exact List.mem_append_right _ hbyte
          obtain ⟨chunks', hflat, hreads, hends⟩ :=
            @decodeChunks_continuations (start + chunk.length) _ _ _ hcontinue hmore
          have hlength : chunk.length + rest.length = c.utf8Size := by
            rw [← hsize, hchar, List.length_append]
          have hpos := List.length_pos_iff.mpr hrest
          have hpos' := List.length_pos_iff.mpr hchunk
          refine ⟨chunks', count + rest.length, hflat, fun cut hlt => ?_, .inr ⟨?_, ?_, ?_, ?_⟩⟩
          · rw [ends, List.mem_cons, ← hlength, ← Nat.add_assoc, ← hends cut (by omega)]
            exact or_iff_right (by omega)
          · exact ⟨start + chunk.length, List.mem_cons_self, by omega, by omega⟩
          · omega
          · omega
          · rw [List.replicate_add, List.append_assoc, ← hreads, ← hread]
            rfl
    -- the chunk goes beyond the character
    · refine ⟨rest :: chunks, 0, hmore.symm, fun cut hlt => ?_, .inl ⟨?_, ?_⟩⟩
      · rw [ends, ends, List.length_append, hsize, ← Nat.add_assoc]
      · rintro ⟨cut, hcut, hlt, hlt'⟩
        rw [ends, List.length_append, hsize, List.mem_cons] at hcut
        rcases hcut with rfl | hcut
        · omega
        · have hle := le_of_mem_ends hcut
          omega
      · simp [decodeChunks, decodeLossy_encodeChar_append]

/-- **What is read of the chunks of a text** is the text with the characters torn that a chunk ends
within. -/
theorem torn_of_chunks {start : Nat} {text : List Char} {chunks : List (List UInt8)}
    (h : chunks.flatten = encode text) :
    Torn (ends start chunks) start text (decodeChunks chunks) := by
  induction text generalizing start chunks with
  | nil =>
    have hread : decodeChunks chunks = [] := by
      refine List.flatMap_eq_nil_iff.mpr fun chunk hchunk => ?_
      rw [List.flatten_eq_nil_iff.mp h chunk hchunk]
      rfl
    rw [hread]
    exact .nil _
  | cons c text ih =>
    obtain ⟨chunks', count, hflat, hends, hread⟩ := @decodeChunks_encodeChar start c _ _ h
    have htorn := (@ih (start + c.utf8Size) chunks' hflat).congr
      fun cut hlt => (hends cut hlt).symm
    rcases hread with ⟨hcut, hread⟩ | ⟨hcut, hcount, hle, hread⟩
    · rw [hread]
      exact .whole hcut htorn
    · rw [hread]
      exact .lost count hcut hcount hle htorn

end Utf8
