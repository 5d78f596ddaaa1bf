import PiqoServer.Library.Utf8
import PiqoServer.Server.Body
import PiqoServer.Tools.Workspace

/-!
# The arguments of the native tools

What a model may pass to a native tool (`NativeArguments::parse` in `piqo-tools/src/lib.rs`).

## Main definitions

* `NativeToolLimits`: the limits of the server
* `NativeArguments`, `NativeArguments.parse`: checked arguments, and how they are read

## Main results

* `parse_edit`, `parse_read`: what the checks guarantee
-/

namespace Piqo

open Utf8

/-- The limits that are looked at here; those of processes are left out. -/
structure NativeToolLimits where
  maxReadBytes : Nat := 50 * 1024
  maxReadLines : Nat := 2000
  maxWriteBytes : Nat := 1024 * 1024
  maxResultBytes : Nat := 50 * 1024
  maxResultLines : Nat := 2000
  deriving Repr

inductive WriteMode where
  | create | overwrite
  deriving DecidableEq, Repr

def WriteMode.parse : String → Except NativeToolError WriteMode
  | "create" => .ok .create
  | "overwrite" => .ok .overwrite
  | _ => .error .invalidArguments

inductive NativeArguments where
  | read (filePath : String) (offset limit : Nat)
  | write (filePath content : String) (mode : WriteMode)
  | edit (filePath oldString newString : String) (replaceAll : Bool)
  | bash (command : String) (cwd : Option String)
  deriving DecidableEq, Repr

/-- `str::len`. -/
def byteLength (text : String) : Nat := width text.toList

namespace NativeArguments

/-- A field that is a string. -/
def stringField (value : Json) (name : String) : Except NativeToolError String :=
  match (value.get name).bind Json.asStr? with
  | some text => .ok text
  | none => .error .invalidArguments

/-- A field that is a positive number, or its default. -/
def positiveField (value : Json) (name : String) (default : Nat) : Except NativeToolError Nat :=
  match value.get name with
  | none => .ok default
  | some field => match field.asU64? with
    | some n => if 0 < n then .ok n else .error .invalidArguments
    | none => .error .invalidArguments

def parse (tool : NativeTool) (value : Json) (limits : NativeToolLimits) :
    Except NativeToolError NativeArguments :=
  match value.asObject? with
  | none => .error .invalidArguments
  | some _ => match tool with
    | .read => do
      let filePath ← stringField value "filePath"
      let offset ← positiveField value "offset" 1
      let limit ← positiveField value "limit" limits.maxReadLines
      .ok (.read filePath offset (min limit limits.maxReadLines))
    | .write => do
      let content ← stringField value "content"
      if byteLength content > limits.maxWriteBytes then .error .tooLarge
      else
        let name ← stringField value "mode"
        let mode ← WriteMode.parse name
        let filePath ← stringField value "filePath"
        .ok (.write filePath content mode)
    | .edit => do
      let oldString ← stringField value "oldString"
      let newString ← stringField value "newString"
      if oldString.isEmpty ∨ oldString = newString ∨
          byteLength oldString + byteLength newString > limits.maxWriteBytes then
        .error .invalidArguments
      else
        let filePath ← stringField value "filePath"
        .ok (.edit filePath oldString newString
          (((value.get "replaceAll").bind Json.asBool?).getD false))
    | .bash => do
      let command ← stringField value "command"
      if byteLength command > limits.maxWriteBytes then .error .tooLarge
      else match value.get "cwd" with
        | none => .ok (.bash command none)
        | some cwd => match cwd.asStr? with
          | some cwd => .ok (.bash command (some cwd))
          | none => .error .invalidArguments

/-- The tool that the arguments are for. -/
def tool : NativeArguments → NativeTool
  | read .. => .read
  | write .. => .write
  | edit .. => .edit
  | bash .. => .bash

variable {tool : NativeTool} {value : Json} {limits : NativeToolLimits}

/-- Arguments are read for the tool that is called. -/
theorem tool_of_parse {arguments : NativeArguments} (h : parse tool value limits = .ok arguments) :
    arguments.tool = tool := by
  unfold parse at h
  split at h
  · cases h
  · cases tool with
    | read =>
      obtain ⟨_, -, h⟩ := Except.bind_eq_ok.mp h
      obtain ⟨_, -, h⟩ := Except.bind_eq_ok.mp h
      obtain ⟨_, -, h⟩ := Except.bind_eq_ok.mp h
      cases h
      rfl
    | write =>
      obtain ⟨_, -, h⟩ := Except.bind_eq_ok.mp h
      obtain ⟨-, h⟩ := Except.ite_error_eq_ok.mp h
      obtain ⟨_, -, h⟩ := Except.bind_eq_ok.mp h
      obtain ⟨_, -, h⟩ := Except.bind_eq_ok.mp h
      obtain ⟨_, -, h⟩ := Except.bind_eq_ok.mp h
      cases h
      rfl
    | edit =>
      obtain ⟨_, -, h⟩ := Except.bind_eq_ok.mp h
      obtain ⟨_, -, h⟩ := Except.bind_eq_ok.mp h
      obtain ⟨-, h⟩ := Except.ite_error_eq_ok.mp h
      obtain ⟨_, -, h⟩ := Except.bind_eq_ok.mp h
      cases h
      rfl
    | bash =>
      obtain ⟨_, -, h⟩ := Except.bind_eq_ok.mp h
      obtain ⟨-, h⟩ := Except.ite_error_eq_ok.mp h
      split at h
      · cases h
        rfl
      · split at h <;> cases h
        rfl

/-- The strings of an edit are checked. -/
theorem parse_edit {filePath oldString newString : String} {replaceAll : Bool}
    (h : parse tool value limits = .ok (.edit filePath oldString newString replaceAll)) :
    oldString.isEmpty = false ∧ oldString ≠ newString := by
  obtain rfl : .edit = tool := tool_of_parse h
  unfold parse at h
  split at h
  · cases h
  · obtain ⟨old, -, h⟩ := Except.bind_eq_ok.mp h
    obtain ⟨new, -, h⟩ := Except.bind_eq_ok.mp h
    obtain ⟨hchecks, h⟩ := Except.ite_error_eq_ok.mp h
    obtain ⟨path, -, h⟩ := Except.bind_eq_ok.mp h
    cases h
    rw [not_or, not_or, Bool.not_eq_true] at hchecks
    exact ⟨hchecks.1, hchecks.2.1⟩

theorem positiveField_pos {name : String} {default n : Nat} (hdefault : 0 < default)
    (h : positiveField value name default = .ok n) : 0 < n := by
  unfold positiveField at h
  split at h
  · cases h
    exact hdefault
  · split at h
    · split at h
      · next hpos =>
        cases h
        exact hpos
      · cases h
    · cases h

/-- The lines of a read begin with one, and there is one at least. -/
theorem parse_read {filePath : String} {offset limit : Nat} (hlines : 0 < limits.maxReadLines)
    (h : parse tool value limits = .ok (.read filePath offset limit)) : 0 < offset ∧ 0 < limit := by
  obtain rfl : .read = tool := tool_of_parse h
  unfold parse at h
  split at h
  · cases h
  · obtain ⟨path, -, h⟩ := Except.bind_eq_ok.mp h
    obtain ⟨first, hfirst, h⟩ := Except.bind_eq_ok.mp h
    obtain ⟨most, hmost, h⟩ := Except.bind_eq_ok.mp h
    cases h
    have hpos := positiveField_pos hlines hmost
    exact ⟨positiveField_pos Nat.one_pos hfirst, by omega⟩

end NativeArguments

end Piqo
