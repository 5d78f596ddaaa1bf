import PiqoServer.Library.Replacement
import PiqoServer.Tools.Disk

/-!
# Editing files

`NativeExecutor::edit` (`piqo-tools/src/lib.rs`): the places of a text are counted as it was given
and replaced as it reads with the line endings of the file.

## Main definitions

* `lineEnding`, `withEnding`: the line ending of a file, and a text with it
* `editText`, `NativeExecutor.edit`: the functions

## Main results

* `write_edit_clean_iff`: when `write` and `edit` stay in the workspace and fail cleanly
-/

namespace Piqo

open PathBytes Utf8 Replacement

/-! ## Texts -/

/-- `\r\n` where the source has it, else `\n`. -/
def lineEnding (source : List Char) : List Char :=
  if 0 < count ['\r', '\n'] source then ['\r', '\n'] else ['\n']

/-- Line endings of either kind as `\n`. -/
def normalized (text : List Char) : List Char := replace ['\r', '\n'] ['\n'] text

/-- A text with one kind of line ending. -/
def withEnding (ending text : List Char) : List Char := replace ['\n'] ending (normalized text)

/-- What an edit comes to. The pieces say which places were replaced. -/
structure Edited where
  next : List Char
  replacements : Nat
  pieces : List (Piece Char)
  deriving DecidableEq

def editText (source oldString newString : List Char) (replaceAll : Bool) (maxWriteBytes : Nat) :
    Except NativeToolError Edited :=
  let matches' := count oldString source
  if matches' = 0 ∨ replaceAll = false ∧ matches' ≠ 1 then .error .conflict
  else
    let ending := lineEnding source
    let old := withEnding ending oldString
    let new := withEnding ending newString
    -- `replace` or `replacen(.., 1)`
    let pieces := cut old (if replaceAll then source.length else 1) source
    let next := pieces.flatMap (Piece.target new)
    if width next > maxWriteBytes then .error .tooLarge
    else .ok { next, replacements := if replaceAll then matches' else 1, pieces }

/-! ## The tool -/

/-- The result of `edit`. -/
structure EditResult where
  path : String
  replacements : Nat
  bytesWritten : Nat
  deriving DecidableEq, Repr

/-- `fs::read`; a link is followed, and only files have a content. -/
def Disk.read (disk : Disk) (faults : Faults) (path : PathBytes) :
    Except NativeToolError (List UInt8) :=
  if faults.read then .error .io
  else match disk.entry path with
    | none => .error .notFound
    | some (.file content) => .ok content
    | some .directory | some (.symlink _) | some .special => .error .io

/-- The bytes of a text file as text. -/
def textOf (bytes : List UInt8) : Except NativeToolError (List Char) :=
  if 0 ∈ bytes then .error .binaryContent
  else match decode bytes with
    | .error _ => .error .binaryContent
    | .ok text => .ok text

def NativeExecutor.edit (executor : NativeExecutor) (limits : NativeToolLimits) (faults : Faults)
    (uuid : UuidText) (filePath oldString newString : String) (replaceAll : Bool) (disk : Disk) :
    Disk × Except NativeToolError EditResult :=
  let prepared := do
    let path ← executor.resolve (disk.filesystem faults) (encode filePath.toList) false
    let bytes ← disk.read faults path
    let source ← textOf bytes
    let edited ← editText source oldString.toList newString.toList replaceAll limits.maxWriteBytes
    .ok (path, edited)
  match prepared with
  | .error e => (disk, .error e)
  | .ok (path, edited) =>
    let written := atomicWrite faults uuid path (encode edited.next) false disk
    (written.1, written.2.map fun _ => {
      path := filePath, replacements := edited.replacements, bytesWritten := width edited.next })

/-! ## Clean calls -/

namespace NativeExecutor

variable {executor : NativeExecutor} {faults : Faults} {uuid : UuidText} {disk : Disk}
  {filePath : String} {path : PathBytes}

theorem map_error {α β ε : Type} {x : Except ε α} {f : α → β} :
    (∃ e, x.map f = .error e) ↔ ∃ e, x = .error e := by
  cases x <;> simp [Except.map]

/-- What an edit writes to is a file of the disk. -/
theorem edit_prepared {limits : NativeToolLimits} {oldString newString : String}
    {replaceAll : Bool} :
    (∃ e, executor.edit limits faults uuid filePath oldString newString replaceAll disk =
      (disk, .error e)) ∨
    ∃ path bytes source edited,
      executor.resolve (disk.filesystem faults) (encode filePath.toList) false = .ok path ∧
      disk.entry path = some (.file bytes) ∧ textOf bytes = .ok source ∧
      editText source oldString.toList newString.toList replaceAll limits.maxWriteBytes =
        .ok edited ∧
      executor.edit limits faults uuid filePath oldString newString replaceAll disk =
        ((atomicWrite faults uuid path (encode edited.next) false disk).1,
          (atomicWrite faults uuid path (encode edited.next) false disk).2.map fun _ => {
            path := filePath, replacements := edited.replacements
            bytesWritten := width edited.next }) := by
  unfold NativeExecutor.edit
  simp only
  split
  · next e _ => exact .inl ⟨e, rfl⟩
  · next path edited hprepared =>
    obtain ⟨path', hresolve, hprepared⟩ := Except.bind_eq_ok.mp hprepared
    obtain ⟨bytes, hread, hprepared⟩ := Except.bind_eq_ok.mp hprepared
    obtain ⟨source, hsource, hprepared⟩ := Except.bind_eq_ok.mp hprepared
    obtain ⟨edited', hedited, hprepared⟩ := Except.bind_eq_ok.mp hprepared
    cases hprepared
    refine .inr ⟨path, bytes, source, edited, hresolve, ?_, hsource, hedited, rfl⟩
    rw [Disk.read] at hread
    split at hread
    · cases hread
    · split at hread <;> cases hread
      assumption

/-- The temporary file of a write is created, and the call does not touch anything outside or
leave the target behind. -/
def WriteContained (executor : NativeExecutor) (faults : Faults) (filePath : String)
    (mode : WriteMode) (disk : Disk) : Prop :=
  ∀ path, executor.resolve (disk.filesystem faults) (encode filePath.toList) true = .ok path →
    (!faults.pathExists && disk.present path) = decide (mode = .overwrite) →
    Creates faults path disk →
    path ≠ executor.workspace.bytes ∧ (mode = .create → ¬StaysLinked faults path disk)

/-- The call gets as far as the atomic write, or changes nothing. -/
theorem write_cases {content : String} {mode : WriteMode} :
    (∃ e, executor.write faults uuid filePath content mode disk = (disk, .error e)) ∧
      (∀ path,
        executor.resolve (disk.filesystem faults) (encode filePath.toList) true = .ok path →
        (!faults.pathExists && disk.present path) ≠ decide (mode = .overwrite)) ∨
    ∃ path,
      executor.resolve (disk.filesystem faults) (encode filePath.toList) true = .ok path ∧
      (!faults.pathExists && disk.present path) = decide (mode = .overwrite) ∧
      executor.write faults uuid filePath content mode disk =
        ((atomicWrite faults uuid path (encode content.toList) (mode = .create) disk).1,
          (atomicWrite faults uuid path (encode content.toList) (mode = .create) disk).2.map
            fun _ => { path := filePath, mode, bytesWritten := byteLength content }) := by
  unfold NativeExecutor.write
  cases hresolve : executor.resolve (disk.filesystem faults) (encode filePath.toList) true with
  | error e => exact .inl ⟨⟨e, rfl⟩, fun path hpath => by cases hpath⟩
  | ok path =>
    simp only
    cases hfound : !faults.pathExists && disk.present path with
    | true =>
      cases mode with
      | create =>
        refine .inl ⟨⟨_, rfl⟩, fun path' hpath' => ?_⟩
        cases hpath'
        rw [hfound]
        decide
      | overwrite => exact .inr ⟨path, rfl, hfound, rfl⟩
    | false =>
      cases mode with
      | create => exact .inr ⟨path, rfl, hfound, rfl⟩
      | overwrite =>
        refine .inl ⟨⟨_, rfl⟩, fun path' hpath' => ?_⟩
        cases hpath'
        rw [hfound]
        decide

/-- What an atomic write does to a path that was resolved. -/
theorem outcome_of_resolve {allowMissingLeaf createOnly : Bool} {content : List UInt8}
    (hworkspace : disk.entry executor.workspace.bytes = some .directory)
    (hfresh : Fresh uuid disk filePath) (hexists : faults.temporaryExists = false)
    (hcleanup : faults.cleanup = false)
    (hresolve : executor.resolve (disk.filesystem faults) (encode filePath.toList)
      allowMissingLeaf = .ok path) {parent : PathBytes} (hparent : path.parent = some parent) :
    WriteOutcome faults path (parent.push (temporaryName uuid)) content createOnly disk
      (atomicWrite faults uuid path content createOnly disk).1
      (atomicWrite faults uuid path content createOnly disk).2 := by
  refine atomicWrite_cases hparent (hfresh.disk parent) ?_ hexists hcleanup
  by_cases hpath : path = executor.workspace.bytes
  · intro heq
    have hnone := hfresh.disk parent
    rw [← heq, hpath, hworkspace] at hnone
    cases hnone
  · obtain ⟨parent', hparent', hne, -⟩ := target_below hfresh hresolve hpath
    cases hparent.symm.trans hparent'
    exact hne

/-- Without the temporary file nothing changes. -/
theorem unchanged_of_not_creates {temporary : PathBytes} {content : List UInt8}
    {createOnly : Bool} {after : Disk} {result : Except NativeToolError Unit}
    (houtcome : WriteOutcome faults path temporary content createOnly disk after result)
    (hcreates : ¬Creates faults path disk) : after = disk := by
  cases houtcome with
  | refused _ _ hafter => exact hafter
  | undone _ h => exact absurd h hcreates
  | left _ h => exact absurd h hcreates
  | written h => exact absurd h hcreates

/-- With it, the temporary name is touched. -/
theorem touched_of_creates {temporary : PathBytes} {content : List UInt8} {createOnly : Bool}
    {after : Disk} {result : Except NativeToolError Unit}
    (houtcome : WriteOutcome faults path temporary content createOnly disk after result)
    (hcreates : Creates faults path disk) :
    ∃ new, after.touched = disk.touched ++ new ∧ temporary ∈ new := by
  cases houtcome with
  | refused _ h => exact absurd hcreates h
  | undone _ _ _ _ htouched => exact ⟨_, htouched, by simp⟩
  | left _ _ _ _ _ htouched => exact ⟨_, htouched, by simp⟩
  | written _ _ _ _ htouched => exact ⟨_, htouched, by simp⟩

/-- An atomic write is clean exactly when it creates no temporary file, or does so below the
workspace and does not leave the target behind. -/
theorem clean_iff {createOnly : Bool} {content : List UInt8} {allowMissingLeaf : Bool}
    (hworkspace : disk.entry executor.workspace.bytes = some .directory)
    (hfresh : Fresh uuid disk filePath) (hexists : faults.temporaryExists = false)
    (hcleanup : faults.cleanup = false)
    (hresolve : executor.resolve (disk.filesystem faults) (encode filePath.toList)
      allowMissingLeaf = .ok path) :
    CleanCall executor.workspace.bytes disk
        (atomicWrite faults uuid path content createOnly disk).1
        (∃ e, (atomicWrite faults uuid path content createOnly disk).2 = .error e) ↔
      (Creates faults path disk → path ≠ executor.workspace.bytes ∧
        (createOnly = true → ¬StaysLinked faults path disk)) := by
  cases hparent : path.parent with
  | none =>
    refine iff_of_true ?_ ?_
    · rw [atomicWrite, hparent]
      exact .unchanged
    · rintro ⟨parent, hparent', -⟩
      rw [hparent] at hparent'
      cases hparent'
  | some parent =>
    have houtcome := @outcome_of_resolve executor faults uuid disk filePath path allowMissingLeaf
      createOnly content hworkspace hfresh hexists hcleanup hresolve parent hparent
    by_cases hcreates : Creates faults path disk
    · simp only [hcreates, true_implies]
      by_cases hpath : path = executor.workspace.bytes
      -- the temporary file is beside the workspace
      · refine iff_of_false (fun hclean => ?_) fun h => h.1 hpath
        obtain ⟨new, htouched, htemporary⟩ := touched_of_creates houtcome hcreates
        obtain ⟨new', htouched', hbelow⟩ := hclean.inside
        rw [htouched, List.append_cancel_left_eq] at htouched'
        rw [htouched'] at htemporary
        rw [hpath] at hparent
        exact beside_workspace hparent (temporaryName_isName uuid) (hbelow _ htemporary)
      · obtain ⟨parent', hparent', -, hbelow, htemporary⟩ := target_below hfresh hresolve hpath
        cases hparent.symm.trans hparent'
        by_cases hleft : createOnly = true → ¬StaysLinked faults path disk
        · exact iff_of_true (clean_of_outcome houtcome hbelow htemporary hleft) ⟨hpath, hleft⟩
        · -- the target is new, and it is still there
          refine iff_of_false (fun hclean => ?_) fun h => hleft h.2
          rw [Classical.not_imp, not_not] at hleft
          obtain ⟨hcreateOnly, hlinked⟩ := hleft
          generalize (atomicWrite faults uuid path content createOnly disk).1 = after,
            (atomicWrite faults uuid path content createOnly disk).2 = result
            at houtcome hclean
          cases houtcome with
          | refused _ h => exact h hcreates
          | undone _ _ h => exact h hcreateOnly hlinked
          | left e _ _ _ hentry =>
            have hnone := hclean.nothingNew ⟨e, rfl⟩ path hlinked.2.2.2.1
            rw [hentry] at hnone
            cases hnone
          | written _ h => exact h hcreateOnly hlinked
    · simp only [hcreates, false_implies, iff_true]
      rw [unchanged_of_not_creates houtcome hcreates]
      exact .unchanged

/-- **Writing stays in the workspace and fails cleanly**, unless the path given is the workspace
itself or the temporary name of a new file cannot be removed. Editing always does. -/
theorem write_edit_clean_iff (executor : NativeExecutor) (faults : Faults) (uuid : UuidText)
    (disk : Disk) (filePath : String)
    (hworkspace : disk.entry executor.workspace.bytes = some .directory)
    (hfresh : Fresh uuid disk filePath) (hexists : faults.temporaryExists = false)
    (hcleanup : faults.cleanup = false) :
    (∀ content mode,
      (CleanCall executor.workspace.bytes disk
        (executor.write faults uuid filePath content mode disk).1
        (∃ e, (executor.write faults uuid filePath content mode disk).2 = .error e) ↔
      WriteContained executor faults filePath mode disk)) ∧
    ∀ limits oldString newString replaceAll,
      CleanCall executor.workspace.bytes disk
        (executor.edit limits faults uuid filePath oldString newString replaceAll disk).1
        (∃ e, (executor.edit limits faults uuid filePath oldString newString replaceAll disk).2 =
          .error e) := by
  refine ⟨fun content mode => ?_, fun limits oldString newString replaceAll => ?_⟩
  · rcases @write_cases executor faults uuid disk filePath content mode with
      ⟨⟨e, hwrite⟩, hnone⟩ | ⟨path, hresolve, hmode, hwrite⟩
    · rw [hwrite]
      exact iff_of_true .unchanged fun path hpath hmode => absurd hmode (hnone path hpath)
    · rw [hwrite, map_error, clean_iff hworkspace hfresh hexists hcleanup hresolve]
      refine ⟨fun h path' hpath' _ hcreates => ?_, fun h hcreates => ?_⟩
      · cases hresolve.symm.trans hpath'
        simpa using h hcreates
      · simpa using h path hresolve hmode hcreates
  · rcases @edit_prepared executor faults uuid disk filePath limits oldString newString replaceAll
      with ⟨e, hedit⟩ | ⟨path, bytes, source, edited, hresolve, hfile, -, -, hedit⟩
    · rw [hedit]
      exact .unchanged
    · have hpath : path ≠ executor.workspace.bytes := by
        rintro rfl
        rw [hworkspace] at hfile
        cases hfile
      obtain ⟨parent, hparent, -, hbelow, htemporary⟩ := target_below hfresh hresolve hpath
      rw [hedit, map_error]
      exact clean_of_outcome
        (outcome_of_resolve hworkspace hfresh hexists hcleanup hresolve hparent) hbelow htemporary
        (by simp)

/-! ## A disk -/

/-- The directory `/w` with a file `a`. -/
def diskWith (content : List UInt8) : Disk where
  entry path :=
    if path = [slash] then some .directory
    else if path = [slash, 119] then some .directory
    else if path = [slash, 119, slash, 97] then some (.file content)
    else none
  touched := []

/-- The file has a text of two lines. -/
def smallDisk : Disk := diskWith [120, 10, 121]

def smallUuid : UuidText := ⟨[48], by decide⟩

theorem fresh_small {filePath : String} {content : List UInt8}
    (h : .normal (temporaryName smallUuid) ∉ components (encode filePath.toList)) :
    Fresh smallUuid (diskWith content) filePath where
  disk parent := by
    -- no path on the disk ends as the temporary name does
    have hlast : (parent.push (temporaryName smallUuid)).getLast? = some 112 := by
      have hname : temporaryName smallUuid = [46, 112, 105, 113, 111, 45, 48, 46, 116, 109] ++ [112] :=
        rfl
      rw [push, hname]
      split
      · rfl
      · split
        · rw [← List.append_assoc, List.getLast?_concat]
        · rw [← List.cons_append, ← List.append_assoc, List.getLast?_concat]
    have hne : ∀ path : PathBytes, path.getLast? ≠ some 112 →
        parent.push (temporaryName smallUuid) ≠ path := by
      rintro path hpath rfl
      exact hpath hlast
    simp only [diskWith]
    rw [if_neg (hne _ (by decide)), if_neg (hne _ (by decide)), if_neg (hne _ (by decide))]
  input := h

theorem write_edit_clean_small :
    CleanCall smallExecutor.workspace.bytes smallDisk
      (smallExecutor.write {} smallUuid "b" "z" .create smallDisk).1
      (∃ e, (smallExecutor.write {} smallUuid "b" "z" .create smallDisk).2 = .error e) := by
  refine ((write_edit_clean_iff smallExecutor {} smallUuid smallDisk "b" (by decide)
    (fresh_small (by decide)) rfl rfl).1 "z" .create).mpr fun path hpath _ _ => ⟨?_, ?_⟩
  · have hresolve : smallExecutor.resolve (smallDisk.filesystem {}) (encode "b".toList) true =
        .ok [slash, 119, slash, 98] := by decide +kernel
    cases hresolve.symm.trans hpath
    decide
  · exact fun _ hstays => absurd hstays.2.2.2.2 (by decide)

/-- Overwriting the workspace puts a file beside it; a new file whose temporary name cannot be
removed stays although the call fails. -/
theorem write_unclean :
    (∃ e, (smallExecutor.write {} smallUuid "." "z" .overwrite smallDisk).2 = .error e ∧
      ¬CleanCall smallExecutor.workspace.bytes smallDisk
        (smallExecutor.write {} smallUuid "." "z" .overwrite smallDisk).1 True) ∧
    ∃ e, (smallExecutor.write { removeFile := true } smallUuid "b" "z" .create smallDisk).2 =
        .error e ∧
      ¬CleanCall smallExecutor.workspace.bytes smallDisk
        (smallExecutor.write { removeFile := true } smallUuid "b" "z" .create smallDisk).1 True := by
  refine ⟨⟨.io, by decide +kernel, fun hclean => ?_⟩, .io, by decide +kernel, fun hclean => ?_⟩
  · obtain ⟨new, htouched, hbelow⟩ := hclean.inside
    have hnew : new = [slash :: temporaryName smallUuid, slash :: temporaryName smallUuid] := by
      rw [← List.nil_append new, ← show smallDisk.touched = [] from rfl, ← htouched]
      decide +kernel
    have hlt := (hbelow (slash :: temporaryName smallUuid) (by rw [hnew]; simp)).length_lt
      smallExecutor.workspace.isAbsolute
    exact absurd hlt (by decide)
  · have hnone := hclean.nothingNew trivial [slash, 119, slash, 98] (by decide)
    have hentry : (smallExecutor.write { removeFile := true } smallUuid "b" "z" .create
        smallDisk).1.entry [slash, 119, slash, 98] = some (.file [122]) := by decide +kernel
    rw [hnone] at hentry
    cases hentry

end NativeExecutor

end Piqo
