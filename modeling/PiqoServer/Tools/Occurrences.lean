import PiqoServer.Tools.Editing

/-!
# What an edit reports

An edit reports how often the text to be replaced was found as it was given. It replaces that text
as it reads with the line endings of the file. Both numbers, and that of the places where the text
stands up to line endings, are the same in a file with one kind of line ending only.

## Main definitions

* `countModulo`: the places of a text up to line endings
* `EditExact`: an edit does what it reports
* `EditAgrees`: the numbers agree

## Main results

* `editText_exact_iff`: an edit that succeeds does what it reports exactly when the numbers agree
* `NativeExecutor.edit_exact_iff`: the same of the tool
-/

namespace Piqo

open PathBytes Utf8 Replacement

/-! ## Places up to line endings -/

/-- How long the place at the beginning of a text is that reads as `target` up to line endings. -/
def occurrence? (target text : List Char) : Option Nat :=
  (List.range (text.length + 1)).find? fun n =>
    decide (0 < n) && decide (normalized (text.take n) = target)

/-- The places of a text up to line endings, from the left and without overlaps; the first `skip`
characters belong to the last one. -/
def countModuloFrom (target : List Char) : Nat → List Char → Nat
  | _, [] => 0
  | skip + 1, _ :: text => countModuloFrom target skip text
  | 0, c :: text => match occurrence? target (c :: text) with
    | some n => countModuloFrom target (n - 1) text + 1
    | none => countModuloFrom target 0 text

def countModulo (pattern text : List Char) : Nat := countModuloFrom (normalized pattern) 0 text

/-! ## Exact edits -/

/-- The text that is looked for, with the line endings of the source. -/
def fileForm (source text : List Char) : List Char := withEnding (lineEnding source) text

/-- **An edit does what it reports.** Its pieces are the source; each place replaced reads as the
old text up to line endings and is replaced by the new one with the line ending of the file; there
are as many as reported, and no more places in all; and the text is another one afterwards. -/
structure EditExact (source old new : List Char) (replaceAll : Bool) (edited : Edited) : Prop where
  source_eq : edited.pieces.flatMap Piece.source = source
  next_eq : edited.next = edited.pieces.flatMap (Piece.target (fileForm source new))
  occurrence : ∀ part, .swapped part ∈ edited.pieces → normalized part = normalized old
  reported : edited.replacements = swaps edited.pieces
  all : edited.replacements = countModulo old source
  single : replaceAll = false → edited.replacements = 1
  changed : edited.next ≠ source

/-- The old text is found equally often as given, up to line endings and, if all places are
replaced, with the line endings of the file, where it is found once at least; and the new text is
another one with these line endings. -/
structure EditAgrees (source old new : List Char) (replaceAll : Bool) : Prop where
  modulo : countModulo old source = count old source
  inFile : 0 < count (fileForm source old) source
  allInFile : replaceAll = true → count (fileForm source old) source = count old source
  other : fileForm source new ≠ fileForm source old

/-! ## Line endings -/

theorem normalized_nil : normalized [] = [] := rfl

theorem normalized_crlf (text : List Char) :
    normalized ('\r' :: '\n' :: text) = '\n' :: normalized text := by
  rw [normalized, replace_cons (List.cons_ne_nil _ _), if_pos ⟨text, rfl⟩]
  rfl

theorem normalized_cons {c : Char} {text : List Char} (h : ¬(c = '\r' ∧ text.head? = some '\n')) :
    normalized (c :: text) = c :: normalized text := by
  have hprefix : ¬['\r', '\n'] <+: c :: text := by
    intro hprefix
    rw [List.cons_prefix_cons] at hprefix
    obtain ⟨rfl, rest, rfl⟩ := hprefix
    exact h ⟨rfl, rfl⟩
  rw [normalized, replace_cons (List.cons_ne_nil _ _), if_neg hprefix]
  rfl

/-- Line endings of the file are the same up to line endings. -/
theorem normalized_replace_crlf (text : List Char) :
    normalized (replace ['\n'] ['\r', '\n'] text) = text := by
  rw [replace_singleton]
  induction text with
  | nil => rfl
  | cons c text ih =>
    rw [List.flatMap_cons]
    by_cases hc : '\n' = c
    · subst hc
      rw [if_pos rfl, List.cons_append, List.singleton_append, normalized_crlf, ih]
    · rw [if_neg hc, List.singleton_append, normalized_cons, ih]
      -- what follows begins with a carriage return, or with another character
      rintro ⟨-, hhead⟩
      cases text with
      | nil => cases hhead
      | cons d text =>
        rw [List.flatMap_cons] at hhead
        split at hhead
        · cases hhead
        · next hd =>
          rw [List.singleton_append, List.head?_cons, Option.some.injEq] at hhead
          exact hd hhead.symm

theorem replace_newline_self (text : List Char) : replace ['\n'] ['\n'] text = text := by
  rw [replace_singleton]
  induction text with
  | nil => rfl
  | cons c text ih =>
    rw [List.flatMap_cons, ih]
    split
    · next hc => rw [hc]; rfl
    · rfl

/-- A text that is found in one without `\r\n` has none. -/
theorem normalized_of_found {old source : List Char} (hne : old ≠ [])
    (hsource : count ['\r', '\n'] source = 0) (hold : 0 < count old source) :
    normalized old = old := by
  refine replace_of_count_eq_zero (List.cons_ne_nil _ _) _ (Nat.eq_zero_of_not_pos fun hpos => ?_)
  rw [count_pos_iff (List.cons_ne_nil _ _)] at hpos
  rw [count_pos_iff hne] at hold
  have hinfix := (count_pos_iff (List.cons_ne_nil _ _)).mpr (hpos.trans hold)
  omega

/-- The old text with the line endings of the file is the same up to line endings. -/
theorem normalized_fileForm {source old : List Char} (hne : old ≠ []) (hold : 0 < count old source) :
    normalized (fileForm source old) = normalized old := by
  unfold fileForm withEnding lineEnding
  split
  · rw [normalized_replace_crlf]
  · next hnone =>
    rw [replace_newline_self]
    have hsame := normalized_of_found hne (Nat.eq_zero_of_not_pos hnone) hold
    rw [hsame, hsame]

theorem replace_ne_nil {pattern new text : List Char} (hpattern : pattern ≠ []) (hnew : new ≠ [])
    (htext : text ≠ []) : replace pattern new text ≠ [] := by
  obtain ⟨c, text, rfl⟩ := List.exists_cons_of_ne_nil htext
  rw [replace_cons hpattern]
  split
  · exact fun h => hnew (List.append_eq_nil_iff.mp h).1
  · exact List.cons_ne_nil _ _

theorem fileForm_ne_nil {source text : List Char} (htext : text ≠ []) :
    fileForm source text ≠ [] := by
  refine replace_ne_nil (List.cons_ne_nil _ _) ?_ ?_
  · unfold lineEnding
    split <;> exact List.cons_ne_nil _ _
  · exact replace_ne_nil (List.cons_ne_nil _ _) (List.cons_ne_nil _ _) htext

/-! ## Edits of texts -/

section Edit

variable {source old new : List Char} {replaceAll : Bool} {maxWriteBytes : Nat} {edited : Edited}

/-- What an edit that succeeds has found and made. -/
theorem editText_ok (h : editText source old new replaceAll maxWriteBytes = .ok edited) :
    0 < count old source ∧ (replaceAll = false → count old source = 1) ∧
      edited.replacements = count old source ∧
      edited.pieces =
        cut (fileForm source old) (if replaceAll then source.length else 1) source ∧
      edited.next = edited.pieces.flatMap (Piece.target (fileForm source new)) := by
  obtain ⟨hcount, h⟩ := Except.ite_error_eq_ok.mp h
  obtain ⟨-, h⟩ := Except.ite_error_eq_ok.mp h
  rw [not_or, not_and_not_right] at hcount
  cases h
  refine ⟨Nat.pos_of_ne_zero hcount.1, hcount.2, ?_, rfl, rfl⟩
  cases replaceAll with
  | true => rfl
  | false => exact (hcount.2 rfl).symm

/-- How many places an edit replaces. -/
theorem swaps_pieces : swaps (cut (fileForm source old)
    (if replaceAll then source.length else 1) source) =
      if replaceAll then count (fileForm source old) source
      else min 1 (count (fileForm source old) source) := by
  cases replaceAll with
  | true => rfl
  | false => exact swaps_cut_one _ _

/-- **An edit that succeeds does what it reports exactly when the numbers agree.** -/
theorem editText_exact_iff (hold : old ≠ [])
    (h : editText source old new replaceAll maxWriteBytes = .ok edited) :
    EditExact source old new replaceAll edited ↔ EditAgrees source old new replaceAll := by
  obtain ⟨hcount, hsingle, hreplacements, hpieces, hnext⟩ := editText_ok h
  have hswaps := @swaps_pieces source old replaceAll
  rw [← hpieces] at hswaps
  -- the text changes when something is replaced, by something else
  have hchanged : 0 < swaps edited.pieces →
      (edited.next ≠ source ↔ fileForm source new ≠ fileForm source old) := by
    intro hpos
    rw [hpieces] at hpos
    have heq := @replaceUpTo_eq_self _ _ _ (fileForm source new) source _ (fileForm_ne_nil hold) hpos
    rw [replaceUpTo, ← hpieces, ← hnext] at heq
    exact not_congr heq
  constructor
  · intro hexact
    have hnumber := hexact.reported
    rw [hreplacements, hswaps] at hnumber
    have hmade : 0 < count (fileForm source old) source := by
      split at hnumber <;> omega
    refine ⟨?_, hmade, fun hall => ?_, ?_⟩
    · rw [← hexact.all, hreplacements]
    · rw [hnumber, if_pos hall]
    · refine (hchanged ?_).mp hexact.changed
      rw [← hexact.reported, hreplacements]
      exact hcount
  · intro hagrees
    have hnumber : edited.replacements = swaps edited.pieces := by
      have hpos := hagrees.inFile
      rw [hreplacements, hswaps]
      cases hall : replaceAll with
      | true => rw [if_pos rfl, hagrees.allInFile hall]
      | false =>
        rw [hsingle hall, if_neg (by simp)]
        omega
    refine ⟨?_, hnext, fun part hpart => ?_, hnumber, ?_, fun hnot => ?_, ?_⟩
    · rw [hpieces, flatMap_source_cut (fileForm_ne_nil hold)]
    · rw [hpieces] at hpart
      rw [swapped_of_mem_cut hpart, normalized_fileForm hold hcount]
    · rw [hreplacements, hagrees.modulo]
    · rw [hreplacements, hsingle hnot]
    · refine (hchanged ?_).mpr hagrees.other
      rw [← hnumber, hreplacements]
      exact hcount

end Edit

/-! ## The tool -/

theorem textOf_encode {source : List Char} (hnul : Char.ofNat 0 ∉ source) :
    textOf (encode source) = .ok source := by
  have hzero : (0 : UInt8) ∉ encode source := not_mem_encode (by decide) hnul
  rw [textOf, if_neg hzero, decode_encode]

/-- The text after an edit. -/
def replaced (source old new : List Char) (replaceAll : Bool) : List Char :=
  replaceUpTo (fileForm source old) (fileForm source new) (if replaceAll then source.length else 1)
    source

namespace NativeExecutor

/-- What a call of `edit` says and does about a file with the text `source`: when it succeeds, the
file has the text of an exact edit with the number reported; else the file is unchanged. -/
structure EditReports (limits : NativeToolLimits) (source : List Char)
    (oldString newString : String) (replaceAll : Bool) (path : PathBytes) (before after : Disk)
    (result : Except NativeToolError EditResult) : Prop where
  succeeded : ∀ r, result = .ok r → ∃ edited,
    editText source oldString.toList newString.toList replaceAll limits.maxWriteBytes =
      .ok edited ∧
    after.entry path = some (.file (encode edited.next)) ∧ r.replacements = edited.replacements ∧
    EditExact source oldString.toList newString.toList replaceAll edited
  failed : ∀ e, result = .error e → after.entry path = before.entry path

variable {executor : NativeExecutor} {limits : NativeToolLimits} {faults : Faults}
  {uuid : UuidText} {disk : Disk} {filePath oldString newString : String} {replaceAll : Bool}
  {source : List Char} {path : PathBytes}

/-- An edit of the file, in whatever way operations fail. -/
theorem editReports_of_agrees (hold : oldString.toList ≠ [])
    (hworkspace : disk.entry executor.workspace.bytes = some .directory)
    (hfresh : Fresh uuid disk filePath)
    (hresolve : executor.resolve (disk.filesystem {}) (encode filePath.toList) false = .ok path)
    (hfile : disk.entry path = some (.file (encode source))) (hnul : Char.ofNat 0 ∉ source)
    (hexists : faults.temporaryExists = false) (hcleanup : faults.cleanup = false)
    (hagrees : ∀ edited,
      editText source oldString.toList newString.toList replaceAll limits.maxWriteBytes =
        .ok edited → EditAgrees source oldString.toList newString.toList replaceAll) :
    EditReports limits source oldString newString replaceAll path disk
      (executor.edit limits faults uuid filePath oldString newString replaceAll disk).1
      (executor.edit limits faults uuid filePath oldString newString replaceAll disk).2 := by
  rcases @edit_prepared executor faults uuid disk filePath limits oldString newString replaceAll
    with ⟨e, hedit⟩ | ⟨path', bytes, source', edited, hresolve', hfile', hsource, hedited, hedit⟩
  · rw [hedit]
    exact ⟨fun r hr => (by cases hr), fun _ _ => rfl⟩
  · obtain rfl := resolve_unique hresolve hresolve'
    cases hfile.symm.trans hfile'
    rw [textOf_encode hnul] at hsource
    cases hsource
    have hpath : path ≠ executor.workspace.bytes := by
      rintro rfl
      rw [hworkspace] at hfile
      cases hfile
    obtain ⟨parent, hparent, -⟩ := target_below hfresh hresolve hpath
    have houtcome := @outcome_of_resolve executor faults uuid disk filePath path false false
      (encode edited.next) hworkspace hfresh hexists hcleanup hresolve' parent hparent
    rw [hedit]
    generalize atomicWrite faults uuid path (encode edited.next) false disk = written at houtcome
    obtain ⟨after, result⟩ := written
    simp only at houtcome ⊢
    cases houtcome with
    | refused e _ hafter => exact ⟨fun r hr => (by cases hr), fun _ _ => by rw [hafter]⟩
    | undone e _ _ hentry => exact ⟨fun r hr => (by cases hr), fun _ _ => by rw [hentry]⟩
    | left e _ hcreate => cases hcreate
    | written _ _ hentry =>
      refine ⟨fun r hr => ?_, fun e he => by cases he⟩
      cases hr
      exact ⟨edited, hedited, hentry, rfl, (editText_exact_iff hold hedited).mpr
        (hagrees edited hedited)⟩

/-- Where nothing fails, an edit of the text is an edit of the file. -/
theorem edit_ok {edited : Edited}
    (hworkspace : disk.entry executor.workspace.bytes = some .directory)
    (hfresh : Fresh uuid disk filePath)
    (hresolve : executor.resolve (disk.filesystem {}) (encode filePath.toList) false = .ok path)
    (hfile : disk.entry path = some (.file (encode source))) (hnul : Char.ofNat 0 ∉ source)
    (hedited : editText source oldString.toList newString.toList replaceAll limits.maxWriteBytes =
      .ok edited) :
    ∃ r, (executor.edit limits {} uuid filePath oldString newString replaceAll disk).2 = .ok r := by
  have hpath : path ≠ executor.workspace.bytes := by
    rintro rfl
    rw [hworkspace] at hfile
    cases hfile
  obtain ⟨parent, hparent, hne, -⟩ := target_below hfresh hresolve hpath
  have hwritten := @atomicWrite_ok uuid path parent (encode edited.next) disk hparent
    (parent_isDirectory hworkspace hresolve hparent hpath) (hfresh.disk parent) hne
    (by rw [hfile]; simp)
  have hread : disk.read {} path = .ok (encode source) := by
    rw [Disk.read, hfile]
    rfl
  simp only [NativeExecutor.edit, hresolve, hread, textOf_encode hnul, hedited, bind, Except.bind]
  rw [hwritten]
  exact ⟨_, rfl⟩

/-- **Edit does what it reports**, in whatever way operations fail, exactly when the numbers agree:
the places of the old text as given, up to line endings and with the line endings of the file; or
when it refuses the edit, because the text is not found, not unique, or gets too long. -/
theorem edit_exact_iff (executor : NativeExecutor) (limits : NativeToolLimits) (uuid : UuidText)
    (disk : Disk) (value : Json) (filePath oldString newString : String) (replaceAll : Bool)
    (hparse : NativeArguments.parse .edit value limits =
      .ok (.edit filePath oldString newString replaceAll))
    (path : PathBytes) (source : List Char) (hnul : Char.ofNat 0 ∉ source)
    (hworkspace : disk.entry executor.workspace.bytes = some .directory)
    (hfresh : Fresh uuid disk filePath)
    (hresolve : executor.resolve (disk.filesystem {}) (encode filePath.toList) false = .ok path)
    (hfile : disk.entry path = some (.file (encode source))) :
    (∀ faults : Faults, faults.temporaryExists = false → faults.cleanup = false →
      EditReports limits source oldString newString replaceAll path disk
        (executor.edit limits faults uuid filePath oldString newString replaceAll disk).1
        (executor.edit limits faults uuid filePath oldString newString replaceAll disk).2) ↔
    (0 < count oldString.toList source →
      (replaceAll = false → count oldString.toList source = 1) →
      width (replaced source oldString.toList newString.toList replaceAll) ≤
        limits.maxWriteBytes →
      EditAgrees source oldString.toList newString.toList replaceAll) := by
  have hold : oldString.toList ≠ [] := by
    have hchecked := (NativeArguments.parse_edit hparse).1
    intro hnil
    rw [String.toList_eq_nil_iff] at hnil
    rw [hnil] at hchecked
    cases hchecked
  constructor
  · intro hreports hcount hsingle hfits
    obtain ⟨edited, hedited⟩ : ∃ edited, editText source oldString.toList newString.toList
        replaceAll limits.maxWriteBytes = .ok edited := by
      have haccepted : ¬(count oldString.toList source = 0 ∨
          replaceAll = false ∧ count oldString.toList source ≠ 1) := by
        rw [not_or, not_and_not_right]
        exact ⟨by omega, hsingle⟩
      exact ⟨_, (if_neg haccepted).trans (if_neg (Nat.not_lt.mpr hfits))⟩
    obtain ⟨r, hr⟩ := edit_ok hworkspace hfresh hresolve hfile hnul hedited
    obtain ⟨edited', hedited', -, -, hexact⟩ := (hreports {} rfl rfl).succeeded r hr
    exact (editText_exact_iff hold hedited').mp hexact
  · intro hagrees faults hexists hcleanup
    refine editReports_of_agrees hold hworkspace hfresh hresolve hfile hnul hexists hcleanup
      fun edited hedited => ?_
    obtain ⟨hcount, hsingle, -⟩ := editText_ok hedited
    refine hagrees hcount hsingle ?_
    obtain ⟨-, hedited⟩ := Except.ite_error_eq_ok.mp hedited
    exact Nat.not_lt.mp (Except.ite_error_eq_ok.mp hedited).1

/-- An edit of the file `a`. -/
def smallEdit (oldString newString : String) : Json := Json.object
  [("filePath", .str "a"), ("oldString", .str oldString), ("newString", .str newString)]

theorem edit_exact_small :
    EditReports {} ['x', '\n', 'y'] "x\n" "z\n" false [slash, 119, slash, 97] smallDisk
      (smallExecutor.edit {} {} smallUuid "a" "x\n" "z\n" false smallDisk).1
      (smallExecutor.edit {} {} smallUuid "a" "x\n" "z\n" false smallDisk).2 :=
  (edit_exact_iff smallExecutor {} smallUuid smallDisk (smallEdit "x\n" "z\n") "a" "x\n" "z\n"
    false (by decide +kernel) [slash, 119, slash, 97] ['x', '\n', 'y'] (by decide) (by decide)
    (fresh_small (by decide)) (by decide +kernel) (by decide)).mpr (fun _ _ _ =>
      ⟨by decide +kernel, by decide +kernel, by decide, by decide +kernel⟩) {} rfl rfl

/-- In a file with both line endings a text is found as it was given and not replaced. -/
theorem edit_inexact :
    NativeArguments.parse .edit (smallEdit "x\n" "z\n") {} =
        .ok (.edit "a" "x\n" "z\n" false) ∧
      ¬EditReports {} ['q', '\r', '\n', 'x', '\n'] "x\n" "z\n" false [slash, 119, slash, 97]
        (diskWith [113, 13, 10, 120, 10])
        (smallExecutor.edit {} {} smallUuid "a" "x\n" "z\n" false
          (diskWith [113, 13, 10, 120, 10])).1
        (smallExecutor.edit {} {} smallUuid "a" "x\n" "z\n" false
          (diskWith [113, 13, 10, 120, 10])).2 := by
  refine ⟨by decide +kernel, fun hreports => ?_⟩
  have hok : (smallExecutor.edit {} {} smallUuid "a" "x\n" "z\n" false
      (diskWith [113, 13, 10, 120, 10])).2 = .ok ⟨"a", 1, 5⟩ := by decide +kernel
  obtain ⟨edited, hedited, -, -, hexact⟩ := hreports.succeeded _ hok
  have hsame : editText ['q', '\r', '\n', 'x', '\n'] ['x', '\n'] ['z', '\n'] false (1024 * 1024) =
      .ok ⟨['q', '\r', '\n', 'x', '\n'], 1,
        [.kept 'q', .kept '\r', .kept '\n', .kept 'x', .kept '\n']⟩ := by decide +kernel
  cases hsame.symm.trans hedited
  exact hexact.changed rfl

end NativeExecutor

end Piqo
