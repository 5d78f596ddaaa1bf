import PiqoServer.Core.Text
import PiqoServer.Tools.Occurrences

/-!
# Reading files

`NativeExecutor::read` (`piqo-tools/src/lib.rs`) reads the first bytes of a file and returns a page
of the lines in them.

## Main definitions

* `NativeExecutor.read`: the function
* `PageOf`: what a page must say about a text
* `CutBetweenLines`: where the limit of the bytes may cut a text

## Main results

* `NativeExecutor.read_page_iff`: when a page says what it must
-/

namespace Piqo

open PathBytes Utf8

/-- The result of `read`. -/
structure ReadResult where
  path : String
  text : List Char
  lineStart : Nat
  lineEnd : Nat
  totalLines : Nat
  truncated : Bool
  deriving DecidableEq

/-- `fs::metadata` and the test for a regular file; a link is followed. -/
def Disk.regularFile (disk : Disk) (faults : Faults) (path : PathBytes) :
    Except NativeToolError Unit :=
  if faults.metadata then .error .io
  else match disk.entry path with
    | none => .error .notFound
    | some (.file _) => .ok ()
    | some (.symlink (.error .notFound)) => .error .notFound
    | some (.symlink (.error _)) => .error .io
    | some .directory | some (.symlink (.ok _)) | some .special => .error .notRegularFile

/-- A page of a text whose rest may have been cut off. -/
def page (filePath : String) (text : List Char) (offset limit : Nat) (capped : Bool) :
    ReadResult :=
  let allLines := lines text
  let start := offset - 1
  let selected := (allLines.drop start).take limit
  let moreLines := allLines.length > start + selected.length
  { path := filePath
    text := joinLines selected
    lineStart := offset
    lineEnd := offset + selected.length - 1
    totalLines := allLines.length
    truncated := capped || moreLines }

def NativeExecutor.read (executor : NativeExecutor) (limits : NativeToolLimits) (faults : Faults)
    (filePath : String) (offset limit : Nat) (disk : Disk) : Except NativeToolError ReadResult := do
  let path ← executor.resolve (disk.filesystem faults) (encode filePath.toList) false
  disk.regularFile faults path
  let content ← disk.read faults path
  let bytes := content.take (limits.maxReadBytes + 1)
  let capped := decide (bytes.length > limits.maxReadBytes)
  let text ← textOf (bytes.take limits.maxReadBytes)
  .ok (page filePath text offset limit capped)

/-! ## Pages -/

/-- Lines, the last of which may be incomplete. -/
def FrontOf (page target : List (List Char)) : Prop :=
  page <+: target ∨ ∃ front part line,
    page = front ++ [part] ∧ part <+: line ∧ front ++ [line] <+: target

/-- **A page says what it must.** It has lines from `offset` on, at most `limit` of them, the last
one perhaps incomplete, and it is marked exactly when something behind them is left out. -/
def PageOf (source : List Char) (offset limit : Nat) (result : ReadResult) : Prop :=
  ∃ page : List (List Char), result.text = joinLines page ∧
    result.lineEnd + 1 = offset + page.length ∧
    FrontOf page (((lines source).drop (offset - 1)).take limit) ∧
    (result.truncated = true ↔ page ≠ (lines source).drop (offset - 1))

/-- What is cut off behind `head` is the ending of its last line, the whole of it at the end of the
text or the line feed of it. -/
def CutAtEnding (head tail : List Char) : Prop :=
  head.getLast? ≠ some '\n' ∧
    (tail = ['\n'] ∨ tail = ['\r', '\n'] ∨ head.getLast? = some '\r' ∧ tail.head? = some '\n')

/-- The text fits, or it is cut between two characters, not at the ending of the last line of the
page, and the page does not begin behind the text. -/
def CutBetweenLines (source : List Char) (offset limit maxBytes : Nat) : Prop :=
  width source ≤ maxBytes ∨ ∃ head tail, source = head ++ tail ∧ width head = maxBytes ∧ tail ≠ [] ∧
    offset ≤ (lines source).length ∧
    (offset ≤ (lines head).length → (lines head).length < offset + limit → ¬CutAtEnding head tail)

/-! ## Joined lines -/

theorem append_newline_inj {line line' rest rest' : List Char} (hline : '\n' ∉ line)
    (hline' : '\n' ∉ line') (h : line ++ '\n' :: rest = line' ++ '\n' :: rest') :
    line = line' ∧ rest = rest' := by
  induction line generalizing line' with
  | nil =>
    cases line' with
    | nil => exact ⟨rfl, (List.cons.inj h).2⟩
    | cons c line' =>
      rw [List.nil_append, List.cons_append, List.cons.injEq] at h
      exact absurd (h.1 ▸ List.mem_cons_self) hline'
  | cons c line ih =>
    rw [List.mem_cons, not_or] at hline
    cases line' with
    | nil =>
      rw [List.nil_append, List.cons_append, List.cons.injEq] at h
      exact absurd h.1.symm hline.1
    | cons c' line' =>
      rw [List.mem_cons, not_or] at hline'
      rw [List.cons_append, List.cons_append, List.cons.injEq] at h
      obtain ⟨rfl, h⟩ := h
      obtain ⟨rfl, rfl⟩ := ih hline.2 hline'.2 h
      exact ⟨rfl, rfl⟩

/-- As many lines with the same text are the same lines. -/
theorem joinLines_injective {ls ls' : List (List Char)} (hls : ∀ line ∈ ls, '\n' ∉ line)
    (hls' : ∀ line ∈ ls', '\n' ∉ line) (hlength : ls.length = ls'.length)
    (h : joinLines ls = joinLines ls') : ls = ls' := by
  induction ls generalizing ls' with
  | nil => exact (List.length_eq_zero_iff.mp hlength.symm).symm
  | cons line ls ih =>
    obtain ⟨line', ls', rfl⟩ := List.exists_cons_of_length_eq_add_one hlength.symm
    rw [List.forall_mem_cons] at hls hls'
    rw [List.length_cons, List.length_cons, Nat.add_right_cancel_iff] at hlength
    cases ls with
    | nil =>
      obtain rfl := List.length_eq_zero_iff.mp hlength.symm
      rw [joinLines, joinLines] at h
      rw [h]
    | cons next ls =>
      obtain ⟨next', ls', rfl⟩ := List.exists_cons_of_length_eq_add_one hlength.symm
      rw [joinLines_cons_cons, joinLines_cons_cons] at h
      obtain ⟨rfl, hrest⟩ := append_newline_inj hls.1 hls'.1 h
      rw [ih hls.2 hls'.2 hlength hrest]

/-- Lines that are incomplete have no line feed either. -/
theorem FrontOf.noNewline {page target : List (List Char)} (h : FrontOf page target)
    (htarget : ∀ line ∈ target, '\n' ∉ line) : ∀ line ∈ page, '\n' ∉ line := by
  rcases h with h | ⟨front, part, line, rfl, hpart, h⟩
  · exact fun line hline => htarget line (h.subset hline)
  · intro l hl
    rw [List.mem_append, List.mem_singleton] at hl
    rcases hl with hl | rfl
    · exact htarget l (h.subset (List.mem_append_left _ hl))
    · exact fun hmem => htarget line (h.subset (by simp)) (hpart.subset hmem)

/-- The page of a result is the one that was selected. -/
theorem pageOf_iff {source text : List Char} {filePath : String} {offset limit : Nat}
    {capped : Bool} (hoffset : 0 < offset) :
    PageOf source offset limit (page filePath text offset limit capped) ↔
      FrontOf (((lines text).drop (offset - 1)).take limit)
        (((lines source).drop (offset - 1)).take limit) ∧
      ((page filePath text offset limit capped).truncated = true ↔
        ((lines text).drop (offset - 1)).take limit ≠ (lines source).drop (offset - 1)) := by
  constructor
  · rintro ⟨selected, htext, hend, hfront, htruncated⟩
    have hsame : selected = ((lines text).drop (offset - 1)).take limit := by
      refine joinLines_injective (hfront.noNewline fun line hline => ?_) (fun line hline => ?_) ?_
        htext.symm
      · exact not_mem_of_mem_lines (List.mem_of_mem_drop (List.mem_of_mem_take hline))
      · exact not_mem_of_mem_lines (List.mem_of_mem_drop (List.mem_of_mem_take hline))
      · have hend' : offset + (((lines text).drop (offset - 1)).take limit).length - 1 + 1 =
            offset + selected.length := hend
        omega
    rw [← hsame]
    exact ⟨hfront, htruncated⟩
  · rintro ⟨hfront, htruncated⟩
    refine ⟨_, rfl, ?_, hfront, htruncated⟩
    simp only [page]
    omega

/-! ## Cut texts -/

/-- The lines of a text that does not end a line: the last one is not empty, and what is behind the
text goes on there. -/
theorem lines_open {head : List Char} (hne : head ≠ []) (hopen : head.getLast? ≠ some '\n') :
    ∃ (front : List (List Char)) (last : List Char), last ≠ [] ∧ '\n' ∉ last ∧
      last.getLast? = head.getLast? ∧ ∀ tail, lines (head ++ tail) = front ++ lines (last ++ tail) := by
  induction hn : head.length using Nat.strongRecOn generalizing head with
  | _ n ih =>
    by_cases hmem : '\n' ∈ head
    · obtain ⟨before, behind, rfl⟩ := List.append_of_mem hmem
      have hbehind : behind ≠ [] := by
        rintro rfl
        simp at hopen
      have hlast : (before ++ '\n' :: behind).getLast? = behind.getLast? := by
        obtain ⟨c, cs, rfl⟩ := List.exists_cons_of_ne_nil hbehind
        rw [List.getLast?_append_of_ne_nil _ (List.cons_ne_nil _ _), List.getLast?_cons_cons]
      obtain ⟨front, last, hlast', hnew, hsame, hlines⟩ := ih behind.length
        (by rw [← hn]; simp; omega) hbehind (hlast ▸ hopen) rfl
      refine ⟨lines (before ++ ['\n']) ++ front, last, hlast', hnew, hsame.trans hlast.symm,
        fun tail => ?_⟩
      rw [List.append_assoc, List.cons_append, lines_append_ended, hlines, List.append_assoc]
    · exact ⟨[], head, hne, hmem, rfl, fun tail => rfl⟩

/-- How the lines of a text continue those of its beginning. -/
inductive CutLines (head tail : List Char) : Prop
  /-- The lines of the beginning are complete, and others follow. -/
  | between (hcut : ¬CutAtEnding head tail) (rest : List (List Char)) (hrest : rest ≠ [])
      (h : lines (head ++ tail) = lines head ++ rest)
  /-- Only the ending of the last line is missing. -/
  | ending (hcut : CutAtEnding head tail) (h : lines (head ++ tail) = lines head)
  /-- The last line has a carriage return that belongs to its ending. -/
  | within (hcut : CutAtEnding head tail) (front : List (List Char)) (last line : List Char)
      (rest : List (List Char)) (hlast : ¬last <+: line) (hhead : lines head = front ++ [last])
      (h : lines (head ++ tail) = front ++ line :: rest)
  /-- The last line goes on. -/
  | part (hcut : ¬CutAtEnding head tail) (front : List (List Char)) (last more : List Char)
      (rest : List (List Char)) (hmore : more ≠ []) (hhead : lines head = front ++ [last])
      (h : lines (head ++ tail) = front ++ (last ++ more) :: rest)

theorem stripReturn_of_ne {line : List Char} (h : line.getLast? ≠ some '\r') :
    stripReturn line = line := if_neg h

theorem stripReturn_concat (line : List Char) : stripReturn (line ++ ['\r']) = line := by
  rw [stripReturn, if_pos (by simp), List.dropLast_concat]

theorem cutLines (head tail : List Char) (hhead : head ≠ []) (htail : tail ≠ []) :
    CutLines head tail := by
  by_cases hended : head.getLast? = some '\n'
  · obtain ⟨before, rfl⟩ := List.getLast?_eq_some_iff.mp hended
    refine .between (fun hcut => hcut.1 hended) (lines tail) (by rwa [ne_eq, lines_eq_nil]) ?_
    rw [List.append_assoc, List.singleton_append, lines_append_ended]
  · obtain ⟨front, last, hlast, hnew, hsame, hlines⟩ := lines_open hhead hended
    have hself : lines head = front ++ [last] := by
      have h := hlines []
      rwa [List.append_nil, List.append_nil, lines_of_not_mem hnew hlast] at h
    obtain ⟨c, rest, rfl⟩ := List.exists_cons_of_ne_nil htail
    by_cases hfeed : c = '\n'
    · subst hfeed
      have hall := hlines ('\n' :: rest)
      rw [lines_append_newline hnew] at hall
      by_cases hreturn : head.getLast? = some '\r'
      · -- the carriage return is taken off the line
        refine .within ⟨hended, .inr (.inr ⟨hreturn, rfl⟩)⟩ front last _ _ (fun hprefix => ?_)
          hself hall
        rw [← hsame] at hreturn
        have hle := hprefix.length_le
        rw [stripReturn, if_pos hreturn, List.length_dropLast] at hle
        have hpos := List.length_pos_iff.mpr hlast
        omega
      · rw [stripReturn_of_ne (by rwa [hsame])] at hall
        by_cases hrest : rest = []
        · subst hrest
          exact .ending ⟨hended, .inl rfl⟩ (by rw [hall, hself]; rfl)
        · refine .between ?_ (lines rest) (by rwa [ne_eq, lines_eq_nil]) ?_
          · rintro ⟨-, h | h | h⟩
            · exact hrest (List.cons.inj h).2
            · cases h
            · exact hreturn h.1
          · rw [hall, hself, List.append_assoc]
            rfl
    · by_cases hcrlf : c = '\r' ∧ rest.head? = some '\n'
      · obtain ⟨rfl, hhead'⟩ := hcrlf
        obtain ⟨more, rfl⟩ : ∃ more, rest = '\n' :: more := by
          cases rest with
          | nil => cases hhead'
          | cons d more => exact ⟨more, by simpa using hhead'⟩
        have hnew' : '\n' ∉ last ++ ['\r'] := by simp [hnew]
        have hline := lines_append_newline hnew' more
        rw [List.append_assoc, List.singleton_append, stripReturn_concat] at hline
        have hall := hlines ('\r' :: '\n' :: more)
        rw [hline] at hall
        by_cases hmore : more = []
        · subst hmore
          exact .ending ⟨hended, .inr (.inl rfl)⟩ (by rw [hall, hself]; rfl)
        · refine .between ?_ (lines more) (by rwa [ne_eq, lines_eq_nil]) ?_
          · rintro ⟨-, h | h | h⟩
            · cases h
            · simp only [List.cons.injEq, true_and] at h
              exact hmore h
            · exact absurd h.2 (by simp)
          · rw [hall, hself, List.append_assoc]
            rfl
      · -- the line goes on with another character
        obtain ⟨first, others, hfirst⟩ :
            ∃ first others, lines (c :: rest) = (c :: first) :: others := by
          rw [lines, if_neg hfeed, if_neg hcrlf]
          cases lines rest with
          | nil => exact ⟨[], [], rfl⟩
          | cons first others => exact ⟨first, others, rfl⟩
        refine .part ?_ front last (c :: first) others (List.cons_ne_nil _ _) hself ?_
        · rintro ⟨-, h | h | h⟩
          · exact hfeed (List.cons.inj h).1
          · cases h
            exact hcrlf ⟨rfl, rfl⟩
          · exact hfeed (by simpa using h.2)
        · rw [hlines, lines_append_open hnew (by simpa using hfeed) hfirst]

/-! ## Pages of cut texts -/

section Selected

variable {α : Type} {front rest : List α} {a b : α} {start limit : Nat}

/-- The page behind an index of the front. -/
theorem drop_front (hstart : start ≤ front.length) (l : List α) :
    (front ++ l).drop start = front.drop start ++ l := List.drop_append_of_le_length hstart

theorem take_eq_self {l : List α} : l.take limit = l ↔ l.length ≤ limit := by
  refine ⟨fun h => ?_, List.take_of_length_le⟩
  have hlength := congrArg List.length h
  rw [List.length_take] at hlength
  omega

theorem take_all {l : List α} (h : l.length ≤ limit) : l.take limit = l := List.take_of_length_le h

/-- A page that ends before the last line, or begins behind it, is the same in the whole text, and
more is left there if it begins within. -/
theorem page_elsewhere (hpage : front.length < start ∨ start + limit ≤ front.length) :
    ((front ++ [a]).drop start).take limit <+: ((front ++ b :: rest).drop start).take limit ∧
      (((front ++ [a]).drop start).take limit ≠ (front ++ b :: rest).drop start ↔
        start < (front ++ b :: rest).length) := by
  rcases hpage with hpage | hpage
  · have hnone : (front ++ [a]).drop start = [] :=
      List.drop_eq_nil_of_le (by simp; omega)
    rw [hnone, List.take_nil, ne_eq, eq_comm, List.drop_eq_nil_iff, Nat.not_le]
    exact ⟨List.nil_prefix, Iff.rfl⟩
  · have hsame : ∀ l : List α, ((front ++ l).drop start).take limit = (front.drop start).take limit := by
      intro l
      rw [drop_front (by omega), List.take_append_of_le_length]
      rw [List.length_drop]
      omega
    rw [hsame, hsame]
    refine ⟨List.prefix_refl _, iff_of_true (fun heq => ?_) (by simp; omega)⟩
    have hlength := congrArg List.length heq
    rw [List.length_take, List.length_drop, List.length_drop, List.length_append,
      List.length_cons] at hlength
    omega

end Selected

/-- Lines at the same place of two pages. -/
theorem FrontOf.last_prefix {front rest : List (List Char)} {last line : List Char}
    (h : FrontOf (front ++ [last]) (front ++ line :: rest)) : last <+: line := by
  rcases h with h | ⟨front', part, line', heq, hpart, h⟩
  · rw [List.prefix_append_right_inj, List.cons_prefix_cons] at h
    exact h.1 ▸ List.prefix_refl last
  · obtain ⟨rfl, hlast⟩ := List.append_inj' heq rfl
    rw [List.prefix_append_right_inj, List.cons_prefix_cons] at h
    obtain rfl : last = part := by simpa using hlast
    rw [← h.1]
    exact hpart

/-- **A page of a text that is cut** is marked as truncated; that is right, and the page has the
lines of the whole text, unless the cut is at the ending of its last line. -/
theorem page_cut_iff {head tail : List Char} {offset limit : Nat} (hoffset : 0 < offset)
    (hlimit : 0 < limit) (hhead : head ≠ []) (htail : tail ≠ []) :
    FrontOf (((lines head).drop (offset - 1)).take limit)
        (((lines (head ++ tail)).drop (offset - 1)).take limit) ∧
      ((lines head).drop (offset - 1)).take limit ≠ (lines (head ++ tail)).drop (offset - 1) ↔
    offset ≤ (lines (head ++ tail)).length ∧
      (offset ≤ (lines head).length → (lines head).length < offset + limit →
        ¬CutAtEnding head tail) := by
  obtain ⟨start, rfl⟩ : ∃ start, offset = start + 1 := ⟨offset - 1, by omega⟩
  rw [Nat.add_sub_cancel]
  cases cutLines head tail hhead htail with
  | between hcut rest hrest h =>
    have hpos := List.length_pos_iff.mpr hrest
    rw [h]
    have hfront : ((lines head).drop start).take limit <+:
        ((lines head ++ rest).drop start).take limit := by
      rw [List.drop_append, List.take_append]
      exact List.prefix_append _ _
    simp only [hcut, not_false_eq_true, implies_true, and_true]
    refine ⟨fun ⟨_, hmore⟩ => ?_, fun hle => ⟨.inl hfront, fun heq => ?_⟩⟩
    · by_contra hle
      rw [List.length_append] at hle
      refine hmore ?_
      rw [List.drop_eq_nil_of_le (by omega), List.drop_eq_nil_of_le (by simp; omega), List.take_nil]
    · have hlength := congrArg List.length heq
      rw [List.length_take, List.length_drop, List.length_drop, List.length_append] at hlength
      rw [List.length_append] at hle
      omega
  | ending hcut h =>
    rw [h]
    have hwhole : ((lines head).drop start).take limit = (lines head).drop start ↔
        (lines head).length ≤ start + limit := by
      rw [take_eq_self, List.length_drop]
      omega
    simp only [hcut, not_true_eq_false, imp_false]
    rw [ne_eq, hwhole]
    refine ⟨fun ⟨_, hmore⟩ => ?_, fun ⟨hle, hselected⟩ => ⟨.inl (List.prefix_refl _), ?_⟩⟩
    · omega
    · omega
  | within hcut front last line rest hlast hself h =>
    rw [h, hself]
    simp only [hcut, not_true_eq_false, imp_false]
    by_cases hselected : start ≤ front.length ∧ front.length < start + limit
    · -- the line with the carriage return is on the page
      refine iff_of_false (fun ⟨hfront, _⟩ => ?_) (fun ⟨_, hnot⟩ => ?_)
      · rw [drop_front hselected.1, drop_front hselected.1, take_all] at hfront
        · obtain ⟨n, hn⟩ : ∃ n, limit = (front.drop start).length + (n + 1) := by
            refine ⟨limit - (front.length - start) - 1, ?_⟩
            rw [List.length_drop]
            omega
          rw [hn, List.take_length_add_append, List.take_succ_cons] at hfront
          exact hlast hfront.last_prefix
        · simp
          omega
      · simp at hnot
        omega
    · have hpage : front.length < start ∨ start + limit ≤ front.length := by omega
      obtain ⟨hfront, hmore⟩ := @page_elsewhere _ front rest last line start limit hpage
      rw [hmore]
      refine ⟨fun hm => ⟨hm.2, fun h₁ h₂ => ?_⟩, fun hle => ⟨.inl hfront, hle.1⟩⟩
      simp at h₁ h₂
      omega
  | part hcut front last more rest hmore hself h =>
    rw [h, hself]
    simp only [hcut, not_false_eq_true, implies_true, and_true]
    by_cases hselected : start ≤ front.length ∧ front.length < start + limit
    · -- the line that goes on is on the page
      have hsome : (front.drop start).length + 1 ≤ limit := by
        rw [List.length_drop]
        omega
      rw [drop_front hselected.1, drop_front hselected.1, take_all (by simpa using hsome)]
      refine iff_of_true ⟨.inr ⟨front.drop start, last, last ++ more, rfl,
        List.prefix_append _ _, ?_⟩, fun heq => ?_⟩ (by simp; omega)
      · obtain ⟨n, hn⟩ : ∃ n, limit = (front.drop start).length + (n + 1) :=
          ⟨limit - (front.drop start).length - 1, by omega⟩
        rw [hn, List.take_length_add_append, List.take_succ_cons, List.prefix_append_right_inj,
          List.cons_prefix_cons]
        exact ⟨rfl, List.nil_prefix⟩
      · rw [List.append_cancel_left_eq, List.cons.injEq] at heq
        exact hmore (by simpa using heq.1)
    · have hpage : front.length < start ∨ start + limit ≤ front.length := by omega
      obtain ⟨hfront, hleft⟩ := @page_elsewhere _ front rest last (last ++ more) start limit hpage
      rw [hleft]
      exact ⟨fun hm => hm.2, fun hle => ⟨.inl hfront, hle⟩⟩

/-- A page of a whole text is right. -/
theorem page_whole {source : List Char} {filePath : String} {offset limit : Nat}
    (hoffset : 0 < offset) :
    PageOf source offset limit (page filePath source offset limit false) := by
  rw [pageOf_iff hoffset]
  refine ⟨.inl (List.prefix_refl _), ?_⟩
  simp only [page, Bool.false_or, decide_eq_true_eq]
  rw [ne_eq, take_eq_self, List.length_take, List.length_drop]
  omega

/-! ## The tool -/

/-- The first bytes of a text are text where they end between two characters. -/
theorem textOf_take {source text : List Char} {n : Nat} (hnul : Char.ofNat 0 ∉ source)
    (hn : n < width source) :
    textOf ((encode source).take n) = .ok text ↔
      ∃ tail, source = text ++ tail ∧ width text = n ∧ tail ≠ [] := by
  have hzero : (0 : UInt8) ∉ (encode source).take n :=
    fun hmem => not_mem_encode (by decide) hnul (List.mem_of_mem_take hmem)
  rw [textOf, if_neg hzero]
  constructor
  · intro h
    cases hdecode : decode ((encode source).take n) with
    | error e =>
      rw [hdecode] at h
      cases h
    | ok text' =>
      rw [hdecode] at h
      cases h
      have hbytes := encode_of_decode hdecode
      obtain ⟨tail, rfl⟩ := prefix_of_encode (hbytes ▸ List.take_prefix n (encode source))
      have hwidth : width text = n := by
        rw [width, hbytes, List.length_take]
        exact Nat.min_eq_left (Nat.le_of_lt hn)
      refine ⟨tail, rfl, hwidth, ?_⟩
      rintro rfl
      rw [List.append_nil, hwidth] at hn
      exact absurd hn (Nat.lt_irrefl n)
  · rintro ⟨tail, rfl, hwidth, -⟩
    rw [encode_append, ← hwidth, width, List.take_left, decode_encode]

namespace NativeExecutor

variable {executor : NativeExecutor} {limits : NativeToolLimits} {disk : Disk} {filePath : String}
  {path : PathBytes} {source : List Char} {offset limit : Nat}

/-- What `read` does with a text file. -/
theorem read_eq
    (hresolve : executor.resolve (disk.filesystem {}) (encode filePath.toList) false = .ok path)
    (hfile : disk.entry path = some (.file (encode source))) :
    executor.read limits {} filePath offset limit disk =
      (textOf ((encode source).take limits.maxReadBytes)).map fun text =>
        page filePath text offset limit (limits.maxReadBytes < width source) := by
  have hregular : disk.regularFile {} path = .ok () := by
    rw [Disk.regularFile, hfile]
    rfl
  have hread : disk.read {} path = .ok (encode source) := by
    rw [Disk.read, hfile]
    rfl
  have hcapped : decide (((encode source).take (limits.maxReadBytes + 1)).length >
      limits.maxReadBytes) = decide (limits.maxReadBytes < width source) := by
    rw [List.length_take, width, decide_eq_decide]
    omega
  simp only [NativeExecutor.read, hresolve, hregular, hread, bind, Except.bind, hcapped,
    List.take_take, Nat.min_eq_left (Nat.le_succ limits.maxReadBytes)]
  cases textOf ((encode source).take limits.maxReadBytes) <;> rfl

/-- **Read does not misreport a text file** exactly when the limit of the bytes does not cut it, or
cuts it between two characters, not at the ending of the last line of the page, and the page does
not begin behind the text. -/
theorem read_page_iff (executor : NativeExecutor) (limits : NativeToolLimits) (disk : Disk)
    (filePath : String) (offset limit : Nat) (hoffset : 0 < offset) (hlimit : 0 < limit)
    (hmax : 0 < limits.maxReadBytes) (path : PathBytes) (source : List Char)
    (hnul : Char.ofNat 0 ∉ source)
    (hresolve : executor.resolve (disk.filesystem {}) (encode filePath.toList) false = .ok path)
    (hfile : disk.entry path = some (.file (encode source))) :
    (∃ result, executor.read limits {} filePath offset limit disk = .ok result ∧
      PageOf source offset limit result) ↔
    CutBetweenLines source offset limit limits.maxReadBytes := by
  rw [read_eq hresolve hfile]
  by_cases hfits : width source ≤ limits.maxReadBytes
  · refine iff_of_true ?_ (.inl hfits)
    rw [List.take_of_length_le hfits, textOf_encode hnul, decide_eq_false (Nat.not_lt.mpr hfits)]
    exact ⟨_, rfl, page_whole hoffset⟩
  · have hlt : limits.maxReadBytes < width source := Nat.lt_of_not_le hfits
    have hhead : ∀ head : List Char, width head = limits.maxReadBytes → head ≠ [] := by
      rintro head hwidth rfl
      rw [width_nil] at hwidth
      omega
    have htruncated : ∀ head, (page filePath head offset limit true).truncated = true :=
      fun _ => rfl
    rw [decide_eq_true hlt]
    constructor
    · rintro ⟨result, hresult, hpage⟩
      obtain ⟨head, htext, rfl⟩ := Except.map_eq_ok.mp hresult
      obtain ⟨tail, rfl, hwidth, htail⟩ := (textOf_take hnul hlt).mp htext
      rw [pageOf_iff hoffset, htruncated] at hpage
      exact .inr ⟨head, tail, rfl, hwidth, htail,
        (page_cut_iff hoffset hlimit (hhead head hwidth) htail).mp ⟨hpage.1, hpage.2.mp rfl⟩⟩
    · rintro (hle | ⟨head, tail, rfl, hwidth, htail, hcut⟩)
      · exact absurd hle hfits
      · have htext := (textOf_take hnul hlt).mpr ⟨tail, rfl, hwidth, htail⟩
        refine ⟨page filePath head offset limit true, by rw [htext]; rfl, ?_⟩
        rw [pageOf_iff hoffset, htruncated]
        have hpage := (page_cut_iff hoffset hlimit (hhead head hwidth) htail).mpr hcut
        exact ⟨hpage.1, iff_of_true rfl hpage.2⟩

/-- The file `a` has two lines. -/
theorem read_page_small :
    ∃ result, smallExecutor.read {} {} "a" 2 1 smallDisk = .ok result ∧
      PageOf ['x', '\n', 'y'] 2 1 result :=
  (read_page_iff smallExecutor {} smallDisk "a" 2 1 (by decide) (by decide) (by decide)
    [slash, 119, slash, 97] ['x', '\n', 'y'] (by decide) (by decide +kernel) (by decide)).mpr
      (.inl (by decide))

/-- A file of text is called binary when the limit cuts a character. -/
theorem read_misreported :
    Char.ofNat 0 ∉ ['é'] ∧
      smallExecutor.read { maxReadBytes := 1 } {} "a" 1 1 (diskWith (encode ['é'])) =
        .error .binaryContent := by
  decide +kernel

end NativeExecutor

end Piqo
