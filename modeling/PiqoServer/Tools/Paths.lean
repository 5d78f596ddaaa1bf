import Mathlib.Init

/-!
# Paths

Paths as the standard library of the source reads them on Unix: a text of bytes, cut at the
separators. Repeated separators, a trailing one and `.` are dropped, except for a `.` at the very
beginning of a relative path.

## Main definitions

* `components`: the components of a path
* `push`, `pushAll`: a path extended by names
* `stripPrefix`: what follows a path inside another one
* `IsName`: the bytes that are one normal component

## Main results

* `isName_of_mem`: normal components are names
* `components_push`, `components_pushAll`: pushing names onto an absolute path adds these components
-/

namespace Piqo

/-- The bytes of a path. -/
abbrev PathBytes := List UInt8

namespace PathBytes

def slash : UInt8 := 47

def dot : UInt8 := 46

/-- `std::path::Component`; prefixes occur on Windows only. -/
inductive Component where
  | rootDir | curDir | parentDir
  | normal (name : PathBytes)
  deriving DecidableEq

/-! ## Components -/

/-- The text between the separators. -/
@[grind =] def segments : PathBytes → List PathBytes
  | [] => [[]]
  | b :: bs =>
    if b = slash then [] :: segments bs
    else match segments bs with
      | [] => [[b]]
      | name :: names => (b :: name) :: names

/-- What a text between separators stands for, past the beginning of a path. -/
def component? (segment : PathBytes) : Option Component :=
  if segment = [] ∨ segment = [dot] then none
  else if segment = [dot, dot] then some .parentDir
  else some (.normal segment)

def isAbsolute (path : PathBytes) : Bool := path.head? == some slash

def components (path : PathBytes) : List Component :=
  let inner := (segments path).filterMap component?
  if isAbsolute path then .rootDir :: inner
  else if (segments path).head? = some [dot] then .curDir :: inner
  else inner

/-- The components of `path` after those of `base`. -/
def stripPrefix (path base : PathBytes) : Option (List Component) :=
  (components base).isPrefixOf? (components path)

/-- `PathBuf::push`. -/
def push (base name : PathBytes) : PathBytes :=
  if isAbsolute name then name
  else if base.getLast? = none ∨ base.getLast? = some slash then base ++ name
  else base ++ slash :: name

@[grind =] def pushAll (base : PathBytes) (names : List PathBytes) : PathBytes := names.foldl push base

@[simp] theorem pushAll_nil (base : PathBytes) : base.pushAll [] = base := rfl

@[simp] theorem pushAll_cons (base name : PathBytes) (names : List PathBytes) :
    base.pushAll (name :: names) = (base.push name).pushAll names := rfl

theorem pushAll_append (base : PathBytes) (names more : List PathBytes) :
    base.pushAll (names ++ more) = (base.pushAll names).pushAll more :=
  List.foldl_append

/-! ## Names -/

/-- The bytes of one normal component. -/
structure IsName (name : PathBytes) : Prop where
  noSlash : slash ∉ name
  component : component? name = some (.normal name)

theorem IsName.ne_nil {name : PathBytes} (h : name.IsName) : name ≠ [] := by
  rintro rfl
  cases h.component

theorem IsName.not_isAbsolute {name : PathBytes} (h : name.IsName) : isAbsolute name = false := by
  cases name with
  | nil => rfl
  | cons b bs =>
    have hb : b ≠ slash := fun hb => h.noSlash (hb ▸ List.mem_cons_self)
    simpa [isAbsolute] using hb

theorem segments_ne_nil (path : PathBytes) : segments path ≠ [] := by
  cases path with
  | nil => simp [segments]
  | cons b bs =>
    rw [segments]
    split
    · simp
    · split <;> simp

theorem segments_append (path rest : PathBytes) :
    segments (path ++ slash :: rest) = segments path ++ segments rest := by
  induction path with
  | nil => simp [segments]
  | cons b bs ih =>
    rw [List.cons_append, segments, segments, ih]
    split
    · rfl
    · -- the first segment of `bs` goes on, the others are the same
      obtain ⟨name, names, hbs⟩ := List.exists_cons_of_ne_nil (segments_ne_nil bs)
      rw [hbs]
      rfl

theorem segments_of_noSlash {name : PathBytes} (h : slash ∉ name) : segments name = [name] := by
  induction name with
  | nil => rfl
  | cons b bs ih =>
    rw [List.mem_cons, not_or] at h
    rw [segments, if_neg (Ne.symm h.1), ih h.2]

theorem noSlash_of_mem_segments {path segment : PathBytes} (h : segment ∈ segments path) :
    slash ∉ segment := by
  induction path generalizing segment with
  | nil =>
    obtain rfl := List.mem_singleton.mp h
    exact List.not_mem_nil
  | cons b bs ih =>
    rw [segments] at h
    split at h
    · rcases List.mem_cons.mp h with rfl | h
      · exact List.not_mem_nil
      · exact ih h
    · next hb =>
      obtain ⟨name, names, hbs⟩ := List.exists_cons_of_ne_nil (segments_ne_nil bs)
      rw [hbs] at h ih
      rcases List.mem_cons.mp h with rfl | h
      · simp only [List.mem_cons, not_or]
        exact ⟨Ne.symm hb, ih List.mem_cons_self⟩
      · exact ih (List.mem_cons_of_mem _ h)

theorem component?_eq_normal {segment name : PathBytes}
    (h : component? segment = some (.normal name)) : segment = name := by
  unfold component? at h
  split at h
  · cases h
  · split at h
    · cases h
    · simpa using h

theorem normal_mem_components {path name : PathBytes} (h : .normal name ∈ components path) :
    name ∈ segments path ∧ component? name = some (.normal name) := by
  have hinner : .normal name ∈ (segments path).filterMap component? := by
    unfold components at h
    split at h
    · simpa using h
    · split at h
      · simpa using h
      · exact h
  obtain ⟨segment, hsegment, hname⟩ := List.mem_filterMap.mp hinner
  obtain rfl := component?_eq_normal hname
  exact ⟨hsegment, hname⟩

theorem isName_of_mem {path name : PathBytes} (h : .normal name ∈ components path) :
    name.IsName :=
  ⟨noSlash_of_mem_segments (normal_mem_components h).1, (normal_mem_components h).2⟩

/-! ## Pushing names -/

theorem isAbsolute_append {base rest : PathBytes} (h : isAbsolute base = true) :
    isAbsolute (base ++ rest) = true := by
  cases base with
  | nil => cases h
  | cons b bs => exact h

theorem components_of_isAbsolute {path : PathBytes} (h : isAbsolute path = true) :
    components path = .rootDir :: (segments path).filterMap component? :=
  if_pos h

variable {base name : PathBytes}

/-- A name goes behind a separator, which is there already or is put there. -/
theorem push_eq (hbase : isAbsolute base = true) (hname : name.IsName) :
    ∃ front : PathBytes, base.push name = front ++ slash :: name ∧
      (segments front).filterMap component? = (segments base).filterMap component? := by
  rw [push, if_neg (by simp [hname.not_isAbsolute])]
  split
  · next hend =>
    -- the path ends in a separator, behind which there is nothing
    have hlast : base.getLast? = some slash := by
      rcases hend with hend | hend
      · rw [List.getLast?_eq_none_iff.mp hend] at hbase
        cases hbase
      · exact hend
    obtain ⟨front, rfl⟩ := List.getLast?_eq_some_iff.mp hlast
    refine ⟨front, by simp, ?_⟩
    rw [segments_append, List.filterMap_append]
    simp [segments, component?]
  · exact ⟨base, rfl, rfl⟩

theorem isAbsolute_push (hbase : isAbsolute base = true) (hname : name.IsName) :
    isAbsolute (base.push name) = true := by
  rw [push, if_neg (by simp [hname.not_isAbsolute])]
  split <;> exact isAbsolute_append hbase

theorem components_push (hbase : isAbsolute base = true) (hname : name.IsName) :
    components (base.push name) = components base ++ [.normal name] := by
  obtain ⟨front, hpush, hfront⟩ := push_eq hbase hname
  rw [components_of_isAbsolute (isAbsolute_push hbase hname), components_of_isAbsolute hbase, hpush,
    segments_append, segments_of_noSlash hname.noSlash, List.filterMap_append, hfront]
  simp [hname.component]

theorem isAbsolute_pushAll {names : List PathBytes} (hbase : isAbsolute base = true)
    (hnames : ∀ name ∈ names, name.IsName) : isAbsolute (base.pushAll names) = true := by
  induction names generalizing base with
  | nil => exact hbase
  | cons name names ih =>
    rw [List.forall_mem_cons] at hnames
    exact ih (isAbsolute_push hbase hnames.1) hnames.2

theorem components_pushAll {names : List PathBytes} (hbase : isAbsolute base = true)
    (hnames : ∀ name ∈ names, name.IsName) :
    components (base.pushAll names) = components base ++ names.map .normal := by
  induction names generalizing base with
  | nil => simp
  | cons name names ih =>
    rw [List.forall_mem_cons] at hnames
    rw [pushAll_cons, ih (isAbsolute_push hbase hnames.1) hnames.2, components_push hbase hnames.1]
    simp

end PathBytes

end Piqo
