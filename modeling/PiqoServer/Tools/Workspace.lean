import PiqoServer.Tools.Paths
import PiqoServer.Library.Outcome
import Mathlib.Data.List.Basic

/-!
# The workspace of the native tools

`NativeExecutor` (`piqo-tools/src/lib.rs`) works under one directory. A path that a model gives is
resolved component by component, and the file system is asked about every prefix: a link is refused
wherever it stands, a parent directory is never entered.

A state of the file system is what it answers about each path.

## Main definitions

* `Filesystem`: what is found at each path, and canonical paths
* `NativeExecutor`: a canonical workspace
* `NativeExecutor.resolve`: the path that a tool works on
* `Filesystem.Contained`: what makes a path stay inside a workspace

## Main results

* `resolveFrom_contained`: walking down from a directory stays below it
* `NativeExecutor.resolve_contained`: resolved paths stay in the workspace, and every input that
  leads out of it is refused
-/

namespace Piqo

open PathBytes

/-! ## The file system -/

inductive FileType where
  | symlink | directory | other
  deriving DecidableEq, Repr

/-- `std::io::ErrorKind`, as far as it is looked at. -/
inductive IoErrorKind where
  | notFound | alreadyExists | other
  deriving DecidableEq, Repr

/-- An absolute path of normal components. -/
structure CanonicalPath where
  bytes : PathBytes
  canonical : ∃ names : List PathBytes, (∀ name ∈ names, name.IsName) ∧
    bytes = pushAll [slash] names

theorem CanonicalPath.isAbsolute (path : CanonicalPath) : path.bytes.isAbsolute = true := by
  obtain ⟨names, hnames, hbytes⟩ := path.canonical
  rw [hbytes]
  exact isAbsolute_pushAll rfl hnames

theorem CanonicalPath.components (path : CanonicalPath) :
    ∃ names : List PathBytes, path.bytes.components = .rootDir :: names.map .normal := by
  obtain ⟨names, hnames, hbytes⟩ := path.canonical
  refine ⟨names, ?_⟩
  rw [hbytes, components_pushAll rfl hnames]
  rfl

/-- A state of the file system. -/
structure Filesystem where
  /-- What is at a path; a link is not followed. -/
  symlinkMetadata : PathBytes → Except IoErrorKind FileType
  /-- The path without links of what is at a path. -/
  canonicalize : PathBytes → Except IoErrorKind CanonicalPath

/-! ## The executor -/

inductive NativeToolError where
  | invalidArguments | outsideWorkspace | symlinkNotAllowed | notFound | notRegularFile
  | notDirectory | binaryContent | alreadyExists | conflict | tooLarge | io
  deriving DecidableEq, Repr

structure NativeExecutor where
  workspace : CanonicalPath

/-- An executor for a directory. Its canonical path is no link, so following links makes no
difference there. -/
def NativeExecutor.new (fs : Filesystem) (workspace : PathBytes) :
    Except NativeToolError NativeExecutor :=
  match fs.canonicalize workspace with
  | .error _ => .error .notFound
  | .ok workspace => match fs.symlinkMetadata workspace.bytes with
    | .ok .directory => .ok ⟨workspace⟩
    | _ => .error .notDirectory

/-- What is at a prefix of a path must let the walk go on; the last one may be a file, or missing
where that is allowed. -/
def checkEntry (fs : Filesystem) (allowMissingLeaf : Bool) (path : PathBytes) (last : Bool) :
    Except NativeToolError Unit :=
  match fs.symlinkMetadata path with
  | .ok .symlink => .error .symlinkNotAllowed
  | .ok .directory => .ok ()
  | .ok .other => if last then .ok () else .error .notDirectory
  | .error .notFound => if allowMissingLeaf && last then .ok () else .error .notFound
  | .error _ => .error .io

/-- Walk down along the components. -/
def resolveFrom (fs : Filesystem) (allowMissingLeaf : Bool) :
    PathBytes → List Component → Except NativeToolError PathBytes
  | resolved, [] => .ok resolved
  | resolved, .normal part :: rest => do
    checkEntry fs allowMissingLeaf (resolved.push part) rest.isEmpty
    resolveFrom fs allowMissingLeaf (resolved.push part) rest
  | resolved, .curDir :: rest => resolveFrom fs allowMissingLeaf resolved rest
  | _, .parentDir :: _ | _, .rootDir :: _ => .error .outsideWorkspace

/-- The components of an input below the workspace; those of a relative input are below it. -/
def NativeExecutor.relative (executor : NativeExecutor) (input : PathBytes) :
    Except NativeToolError (List Component) :=
  if input.isAbsolute then
    match input.stripPrefix executor.workspace.bytes with
    | none => .error .outsideWorkspace
    | some relative => .ok relative
  else .ok input.components

def NativeExecutor.resolve (executor : NativeExecutor) (fs : Filesystem) (input : PathBytes)
    (allowMissingLeaf : Bool) : Except NativeToolError PathBytes := do
  let relative ← executor.relative input
  if relative.isEmpty then .error .invalidArguments
  else resolveFrom fs allowMissingLeaf executor.workspace.bytes relative

/-! ## Staying inside -/

/-- The path `base` followed by `names` stays below `base`: no link stands on the way or at its
end, the way leads through directories, and the end is there where it must be. -/
structure Filesystem.Contained (fs : Filesystem) (allowMissingLeaf : Bool) (base : PathBytes)
    (names : List PathBytes) : Prop where
  isName : ∀ name ∈ names, name.IsName
  noLink : ∀ front, front <+: names → front ≠ [] →
    fs.symlinkMetadata (base.pushAll front) ≠ .ok .symlink
  directory : ∀ front, front <+: names → front ≠ [] → front ≠ names →
    fs.symlinkMetadata (base.pushAll front) = .ok .directory
  present : allowMissingLeaf = false → names ≠ [] →
    ∃ type, fs.symlinkMetadata (base.pushAll names) = .ok type

variable {fs : Filesystem} {allowMissingLeaf : Bool} {base p : PathBytes}

theorem Filesystem.Contained.nil : fs.Contained allowMissingLeaf base [] where
  isName := by simp
  noLink front hfront hne := absurd (List.prefix_nil.mp hfront) hne
  directory front hfront hne := absurd (List.prefix_nil.mp hfront) hne
  present _ hne := absurd rfl hne

theorem checkEntry_noLink {last : Bool} (h : checkEntry fs allowMissingLeaf p last = .ok ()) :
    fs.symlinkMetadata p ≠ .ok .symlink := by
  intro hlink
  rw [checkEntry, hlink] at h
  cases h

theorem checkEntry_directory (h : checkEntry fs allowMissingLeaf p false = .ok ()) :
    fs.symlinkMetadata p = .ok .directory := by
  unfold checkEntry at h
  split at h <;> simp_all

theorem checkEntry_present {last : Bool} (h : checkEntry fs false p last = .ok ()) :
    ∃ type, fs.symlinkMetadata p = .ok type := by
  unfold checkEntry at h
  split at h <;> simp_all

/-- One name further down; an entry with names behind it is not the last one. -/
theorem Filesystem.Contained.cons {part : PathBytes} {names : List PathBytes} {last : Bool}
    (hpart : part.IsName) (hlast : names ≠ [] → last = false)
    (hentry : checkEntry fs allowMissingLeaf (base.push part) last = .ok ())
    (h : fs.Contained allowMissingLeaf (base.push part) names) :
    fs.Contained allowMissingLeaf base (part :: names) where
  isName := List.forall_mem_cons.mpr ⟨hpart, h.isName⟩
  noLink front hfront hne := by
    obtain ⟨first, rest, rfl⟩ := List.exists_cons_of_ne_nil hne
    obtain ⟨rfl, hrest⟩ := List.cons_prefix_cons.mp hfront
    by_cases hempty : rest = []
    · rw [hempty]
      exact checkEntry_noLink hentry
    · exact h.noLink rest hrest hempty
  directory front hfront hne hproper := by
    obtain ⟨first, rest, rfl⟩ := List.exists_cons_of_ne_nil hne
    obtain ⟨rfl, hrest⟩ := List.cons_prefix_cons.mp hfront
    have hrest' : rest ≠ names := fun heq => hproper (by rw [heq])
    by_cases hempty : rest = []
    · rw [hempty] at hrest' ⊢
      rw [hlast hrest'.symm] at hentry
      exact checkEntry_directory hentry
    · exact h.directory rest hrest hempty hrest'
  present hleaf _ := by
    by_cases hnames : names = []
    · subst hnames
      rw [hleaf] at hentry
      exact checkEntry_present hentry
    · exact h.present hleaf hnames

/-- The names among the components. -/
def namesOf (relative : List Component) : List PathBytes :=
  relative.filterMap fun
    | .normal name => some name
    | _ => none

/-- **Walking down stays below.** The path reached is that of the names on the way. -/
theorem resolveFrom_contained {relative : List Component}
    (hrelative : ∀ name, .normal name ∈ relative → name.IsName)
    (h : resolveFrom fs allowMissingLeaf base relative = .ok p) :
    p = base.pushAll (namesOf relative) ∧ fs.Contained allowMissingLeaf base (namesOf relative) := by
  induction relative generalizing base with
  | nil =>
    cases h
    exact ⟨rfl, .nil⟩
  | cons component rest ih =>
    have hrest : ∀ name, .normal name ∈ rest → name.IsName :=
      fun name hname => hrelative name (List.mem_cons_of_mem _ hname)
    cases component with
    | normal part =>
      obtain ⟨⟨⟩, hentry, h⟩ := Except.bind_eq_ok.mp h
      obtain ⟨rfl, hcontained⟩ := ih hrest h
      refine ⟨rfl, hcontained.cons (hrelative part List.mem_cons_self) ?_ hentry⟩
      rintro hne
      cases rest with
      | nil => exact absurd rfl hne
      | cons _ _ => rfl
    | curDir => exact ih hrest h
    | parentDir => cases h
    | rootDir => cases h

/-- A parent directory is never entered. -/
theorem resolveFrom_parentDir {relative : List Component} (hrelative : .parentDir ∈ relative) :
    ∃ e, resolveFrom fs allowMissingLeaf base relative = .error e := by
  cases h : resolveFrom fs allowMissingLeaf base relative with
  | error e => exact ⟨e, rfl⟩
  | ok p =>
    exfalso
    induction relative generalizing base with
    | nil => cases hrelative
    | cons component rest ih =>
      cases component with
      | normal part =>
        obtain ⟨-, -, h⟩ := Except.bind_eq_ok.mp h
        exact ih (by simpa using hrelative) h
      | curDir => exact ih (by simpa using hrelative) h
      | parentDir => cases h
      | rootDir => cases h

namespace NativeExecutor

variable {executor : NativeExecutor} {input : PathBytes} {relative : List Component}

theorem relative_eq_ok (h : executor.relative input = .ok relative) :
    (input.isAbsolute = true ∧ executor.workspace.bytes.components ++ relative = input.components) ∨
      (input.isAbsolute = false ∧ relative = input.components) := by
  unfold NativeExecutor.relative at h
  split at h
  · next habsolute =>
    split at h
    · cases h
    · next hstrip =>
      cases h
      exact .inl ⟨habsolute, List.isPrefixOf?_eq_some_iff_append_eq.mp hstrip⟩
  · next habsolute =>
    cases h
    exact .inr ⟨by simpa using habsolute, rfl⟩

/-- What comes behind the workspace comes from the input. -/
theorem mem_of_relative (h : executor.relative input = .ok relative) {component : Component}
    (hmem : component ∈ relative) : component ∈ input.components := by
  rcases relative_eq_ok h with ⟨-, hcomponents⟩ | ⟨-, rfl⟩
  · rw [← hcomponents]
    exact List.mem_append_right _ hmem
  · exact hmem

/-- The workspace has no parent directories, so those of the input come behind it. -/
theorem parentDir_mem_relative (h : executor.relative input = .ok relative)
    (hmem : .parentDir ∈ input.components) : .parentDir ∈ relative := by
  rcases relative_eq_ok h with ⟨-, hcomponents⟩ | ⟨-, rfl⟩
  · rw [← hcomponents, List.mem_append] at hmem
    obtain ⟨names, hworkspace⟩ := executor.workspace.components
    rw [hworkspace] at hmem
    simpa using hmem
  · exact hmem

theorem resolve_eq_ok {p : PathBytes} (h : executor.resolve fs input allowMissingLeaf = .ok p) :
    ∃ relative, executor.relative input = .ok relative ∧
      resolveFrom fs allowMissingLeaf executor.workspace.bytes relative = .ok p := by
  obtain ⟨relative, hrelative, h⟩ := Except.bind_eq_ok.mp h
  exact ⟨relative, hrelative, (Except.ite_error_eq_ok.mp h).2⟩

theorem resolve_error {e : NativeToolError} (h : executor.relative input = .error e) :
    executor.resolve fs input allowMissingLeaf = .error e := by
  rw [NativeExecutor.resolve, h]
  rfl

/-- What an input is resolved to does not depend on the state of the file system. -/
theorem resolve_unique {fs' : Filesystem} {allowMissingLeaf' : Bool} {p p' : PathBytes}
    (h : executor.resolve fs input allowMissingLeaf = .ok p)
    (h' : executor.resolve fs' input allowMissingLeaf' = .ok p') : p = p' := by
  obtain ⟨relative, hrelative, hp⟩ := resolve_eq_ok h
  obtain ⟨relative', hrelative', hp'⟩ := resolve_eq_ok h'
  cases hrelative.symm.trans hrelative'
  have hnames : ∀ name, .normal name ∈ relative → name.IsName :=
    fun name hname => isName_of_mem (mem_of_relative hrelative hname)
  rw [(resolveFrom_contained hnames hp).1, (resolveFrom_contained hnames hp').1]

/-- A path that is resolved is the workspace followed by names of the input. -/
theorem resolve_names {p : PathBytes} (h : executor.resolve fs input allowMissingLeaf = .ok p) :
    ∃ names : List PathBytes, p = executor.workspace.bytes.pushAll names ∧
      fs.Contained allowMissingLeaf executor.workspace.bytes names ∧
      ∀ name ∈ names, .normal name ∈ input.components := by
  obtain ⟨relative, hrelative, hp⟩ := resolve_eq_ok h
  have hnames : ∀ name, .normal name ∈ relative → name.IsName :=
    fun name hname => isName_of_mem (mem_of_relative hrelative hname)
  obtain ⟨rfl, hcontained⟩ := resolveFrom_contained hnames hp
  refine ⟨namesOf relative, rfl, hcontained, fun name hname => ?_⟩
  obtain ⟨component, hcomponent, hname⟩ := List.mem_filterMap.mp hname
  cases component with
  | normal name' =>
    cases hname
    exact mem_of_relative hrelative hcomponent
  | curDir => cases hname
  | parentDir => cases hname
  | rootDir => cases hname

/-- **Path resolution stays in the workspace.** A path that is resolved is the workspace followed
by names only; no prefix below the workspace is a link, every proper one is a directory, and the
path is there unless it may be missing. An input with a parent directory, or an absolute one that
is not under the workspace, is refused. -/
theorem resolve_contained (executor : NativeExecutor) (fs : Filesystem)
    (hworkspace : fs.symlinkMetadata executor.workspace.bytes = .ok .directory)
    (input : PathBytes) (allowMissingLeaf : Bool) :
    (∀ p, executor.resolve fs input allowMissingLeaf = .ok p → ∃ names : List PathBytes,
      p = executor.workspace.bytes.pushAll names ∧
      p.components = executor.workspace.bytes.components ++ names.map .normal ∧
      (∀ front, front <+: names → front ≠ [] →
        fs.symlinkMetadata (executor.workspace.bytes.pushAll front) ≠ .ok .symlink) ∧
      (∀ front, front <+: names → front ≠ [] → front ≠ names →
        fs.symlinkMetadata (executor.workspace.bytes.pushAll front) = .ok .directory) ∧
      (allowMissingLeaf = false → ∃ type, fs.symlinkMetadata p = .ok type)) ∧
    (.parentDir ∈ input.components → ∃ e, executor.resolve fs input allowMissingLeaf = .error e) ∧
    (input.isAbsolute = true → ¬executor.workspace.bytes.components <+: input.components →
      ∃ e, executor.resolve fs input allowMissingLeaf = .error e) := by
  refine ⟨fun p h => ?_, fun hparent => ?_, fun habsolute houtside => ?_⟩
  · obtain ⟨relative, hrelative, hp⟩ := resolve_eq_ok h
    have hnames : ∀ name, .normal name ∈ relative → name.IsName :=
      fun name hname => isName_of_mem (mem_of_relative hrelative hname)
    obtain ⟨rfl, hcontained⟩ := resolveFrom_contained hnames hp
    refine ⟨namesOf relative, rfl, ?_, hcontained.noLink, hcontained.directory, fun hleaf => ?_⟩
    · exact components_pushAll executor.workspace.isAbsolute hcontained.isName
    · -- without names the path is the workspace itself
      by_cases hempty : namesOf relative = []
      · rw [hempty]
        exact ⟨_, hworkspace⟩
      · exact hcontained.present hleaf hempty
  · cases hrelative : executor.relative input with
    | error e => exact ⟨e, resolve_error hrelative⟩
    | ok relative =>
      cases h : executor.resolve fs input allowMissingLeaf with
      | error e => exact ⟨e, rfl⟩
      | ok p =>
        obtain ⟨relative', hrelative', hp⟩ := resolve_eq_ok h
        cases hrelative.symm.trans hrelative'
        obtain ⟨e, he⟩ := @resolveFrom_parentDir fs allowMissingLeaf executor.workspace.bytes
          _ (parentDir_mem_relative hrelative hparent)
        cases hp.symm.trans he
  · cases hrelative : executor.relative input with
    | error e => exact ⟨e, resolve_error hrelative⟩
    | ok relative =>
      exfalso
      rcases relative_eq_ok hrelative with ⟨-, hcomponents⟩ | ⟨hnot, -⟩
      · exact houtside ⟨relative, hcomponents⟩
      · rw [habsolute] at hnot
        cases hnot

end NativeExecutor

/-! ## A workspace -/

/-- The directory `/w` with a file `a` and a link `l`. -/
def smallFilesystem : Filesystem where
  symlinkMetadata path :=
    if path = [slash, 119] then .ok .directory
    else if path = [slash, 119, slash, 97] then .ok .other
    else if path = [slash, 119, slash, 108] then .ok .symlink
    else .error .notFound
  canonicalize _ := .error .notFound

def smallExecutor : NativeExecutor where
  workspace := ⟨[slash, 119], [[119]], by simpa using ⟨by decide, by decide⟩, by decide⟩

theorem NativeExecutor.resolve_contained_small :
    smallExecutor.resolve smallFilesystem [dot, slash, 97] false = .ok [slash, 119, slash, 97] ∧
      (∃ type, smallFilesystem.symlinkMetadata [slash, 119, slash, 97] = .ok type) ∧
      ∃ e, smallExecutor.resolve smallFilesystem [dot, dot, slash, 97] false = .error e := by
  have hinside : smallExecutor.resolve smallFilesystem [dot, slash, 97] false =
      .ok [slash, 119, slash, 97] := by decide
  refine ⟨hinside, ?_, ?_⟩
  · obtain ⟨names, -, -, -, -, hpresent⟩ :=
      (NativeExecutor.resolve_contained smallExecutor smallFilesystem rfl _ false).1 _ hinside
    exact hpresent rfl
  · exact (NativeExecutor.resolve_contained smallExecutor smallFilesystem rfl _ false).2.1 (by decide)

end Piqo
