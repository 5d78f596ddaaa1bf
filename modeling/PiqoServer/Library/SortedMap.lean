import Mathlib.Data.String.Basic
import Mathlib.Data.List.Pairwise
import Mathlib.Tactic.SplitIfs

/-!
# Maps sorted by key

A finite map kept as its list of entries in strictly increasing key order. Iteration order is
key order, two maps with the same lookups are equal, and every operation computes.

## Main definitions

* `SortedMap K V`: the entries, with the proof that their keys increase
* `SortedMap.get?`, `insert`, `erase`, `mapValues`: lookup and update
* `SortedMap.values`, `SortedMap.keys`: the values and the keys in key order

## Main results

* `get?_insert`, `get?_erase`, `get?_mapValues`: lookups after an update
* `ext_get?`: a map is determined by its lookups
* `mem_values_iff`: the values are the results of the lookups
* `entries_insert_perm`, `entries_erase_perm`: the entries before and after an update
-/

/-- A finite map as its entries in strictly increasing key order. -/
structure SortedMap (K V : Type) [LinearOrder K] where
  entries : List (K × V)
  sorted : entries.Pairwise fun a b => a.1 < b.1

namespace SortedMap

variable {K V W : Type} [LinearOrder K]

instance [DecidableEq V] : DecidableEq (SortedMap K V) := fun a b =>
  decidable_of_iff (a.entries = b.entries) (by cases a; cases b; simp)

/-! ## Entry lists -/

/-- The value at `k` in a list of entries. -/
@[grind =] def lookup (k : K) : List (K × V) → Option V
  | [] => none
  | e :: es => if k = e.1 then some e.2 else lookup k es

/-- Put `v` at `k`, before the first larger key. -/
@[grind =] def insertEntry (k : K) (v : V) : List (K × V) → List (K × V)
  | [] => [(k, v)]
  | e :: es =>
    if k < e.1 then (k, v) :: e :: es
    else if k = e.1 then (k, v) :: es
    else e :: insertEntry k v es

theorem lookup_insertEntry (k k' : K) (v : V) (es : List (K × V)) :
    lookup k' (insertEntry k v es) = if k' = k then some v else lookup k' es := by
  induction es with
  | nil => simp [insertEntry, lookup]
  | cons e es ih =>
    simp only [insertEntry]
    by_cases hlt : k < e.1
    · simp [hlt, lookup]
    · by_cases heq : k = e.1
      · subst heq
        by_cases hk : k' = e.1 <;> simp [lookup, hk]
      · by_cases hk : k' = e.1
        · have hne : k' ≠ k := fun h => heq (h ▸ hk)
          simp [hlt, heq, lookup, hk, hk ▸ hne]
        · simp [hlt, heq, lookup, hk, ih]

theorem mem_insertEntry {k : K} {v : V} {es : List (K × V)} {a : K × V}
    (h : a ∈ insertEntry k v es) : a = (k, v) ∨ a ∈ es := by
  induction es with
  | nil => simpa [insertEntry] using h
  | cons e es ih =>
    simp only [insertEntry] at h
    split_ifs at h
    · simpa using h
    · rcases List.mem_cons.mp h with h | h
      · exact .inl h
      · exact .inr (List.mem_cons_of_mem _ h)
    · rcases List.mem_cons.mp h with h | h
      · exact .inr (h ▸ List.mem_cons_self)
      · exact (ih h).imp_right (List.mem_cons_of_mem _)

theorem insertEntry_sorted {k : K} {v : V} {es : List (K × V)}
    (h : es.Pairwise fun a b => a.1 < b.1) :
    (insertEntry k v es).Pairwise fun a b => a.1 < b.1 := by
  induction es with
  | nil => simp [insertEntry]
  | cons e es ih =>
    obtain ⟨hhead, htail⟩ := List.pairwise_cons.mp h
    simp only [insertEntry]
    split_ifs with hlt heq
    · refine List.pairwise_cons.mpr ⟨fun a ha => ?_, h⟩
      rcases List.mem_cons.mp ha with rfl | ha
      · exact hlt
      · exact hlt.trans (hhead a ha)
    · exact List.pairwise_cons.mpr ⟨fun a ha => heq ▸ hhead a ha, htail⟩
    · refine List.pairwise_cons.mpr ⟨fun a ha => ?_, ih htail⟩
      rcases mem_insertEntry ha with rfl | ha
      · exact lt_of_le_of_ne (not_lt.mp hlt) (Ne.symm heq)
      · exact hhead a ha

theorem lookup_eq_none_of_lt {k : K} {es : List (K × V)} (h : ∀ e ∈ es, k < e.1) :
    lookup k es = none := by
  induction es with
  | nil => rfl
  | cons e es ih =>
    have hne : k ≠ e.1 := (h e List.mem_cons_self).ne
    simp [lookup, hne, ih fun a ha => h a (List.mem_cons_of_mem _ ha)]

theorem lookup_eq_some_iff {k : K} {v : V} {es : List (K × V)}
    (h : es.Pairwise fun a b => a.1 < b.1) : lookup k es = some v ↔ (k, v) ∈ es := by
  induction es with
  | nil => simp [lookup]
  | cons e es ih =>
    obtain ⟨hhead, htail⟩ := List.pairwise_cons.mp h
    by_cases hk : k = e.1
    · subst hk
      constructor
      · intro hv
        have hv : e.2 = v := by simpa [lookup] using hv
        subst hv
        exact List.mem_cons_self
      · intro hv
        rcases List.mem_cons.mp hv with hv | hv
        · have hv : v = e.2 := congrArg Prod.snd hv
          simp [lookup, hv]
        · exact absurd (hhead _ hv) (lt_irrefl _)
    · simp only [lookup, if_neg hk, ih htail, List.mem_cons]
      refine ⟨.inr, fun hv => hv.resolve_left ?_⟩
      rintro rfl
      exact hk rfl

/-- Sorted entry lists with the same lookups are equal. -/
theorem eq_of_lookup_eq {es fs : List (K × V)} (he : es.Pairwise fun a b => a.1 < b.1)
    (hf : fs.Pairwise fun a b => a.1 < b.1) (h : ∀ k, lookup k es = lookup k fs) : es = fs := by
  induction es generalizing fs with
  | nil =>
    cases fs with
    | nil => rfl
    | cons f fs => simpa [lookup] using h f.1
  | cons e es ih =>
    obtain ⟨hehead, hetail⟩ := List.pairwise_cons.mp he
    cases fs with
    | nil => simpa [lookup] using h e.1
    | cons f fs =>
      obtain ⟨hfhead, hftail⟩ := List.pairwise_cons.mp hf
      -- the smaller of the two first keys would be missing on the other side
      have hkey : e.1 = f.1 := by
        rcases lt_trichotomy e.1 f.1 with hlt | heq | hlt
        · have hnone : lookup e.1 (f :: fs) = none := by
            refine lookup_eq_none_of_lt fun a ha => ?_
            rcases List.mem_cons.mp ha with rfl | ha
            · exact hlt
            · exact hlt.trans (hfhead a ha)
          rw [← h] at hnone
          simp [lookup] at hnone
        · exact heq
        · have hnone : lookup f.1 (e :: es) = none := by
            refine lookup_eq_none_of_lt fun a ha => ?_
            rcases List.mem_cons.mp ha with rfl | ha
            · exact hlt
            · exact hlt.trans (hehead a ha)
          rw [h] at hnone
          simp [lookup] at hnone
      have hval : e.2 = f.2 := by simpa [lookup, hkey] using h e.1
      have htail : es = fs := by
        refine ih hetail hftail fun k => ?_
        by_cases hk : k = e.1
        · subst hk
          rw [lookup_eq_none_of_lt hehead, lookup_eq_none_of_lt (hkey ▸ hfhead)]
        · have hk' : k ≠ f.1 := hkey ▸ hk
          simpa [lookup, hk, hk'] using h k
      rw [htail, Prod.ext hkey hval]

theorem insertEntry_of_forall_lt {k : K} {v : V} {es : List (K × V)} (h : ∀ e ∈ es, e.1 < k) :
    insertEntry k v es = es ++ [(k, v)] := by
  induction es with
  | nil => rfl
  | cons e es ih =>
    have hlt : e.1 < k := h e List.mem_cons_self
    simp [insertEntry, hlt.not_gt, hlt.ne', ih fun a ha => h a (List.mem_cons_of_mem _ ha)]

/-! ## Maps -/

/-- The map without entries. -/
def empty : SortedMap K V := ⟨[], List.Pairwise.nil⟩

instance : EmptyCollection (SortedMap K V) := ⟨empty⟩

instance : Inhabited (SortedMap K V) := ⟨∅⟩

/-- The value at `k`. -/
def get? (m : SortedMap K V) (k : K) : Option V := lookup k m.entries

/-- Whether `k` has a value. -/
def contains (m : SortedMap K V) (k : K) : Bool := (m.get? k).isSome

/-- Put `v` at `k`, replacing the value there. -/
def insert (m : SortedMap K V) (k : K) (v : V) : SortedMap K V :=
  ⟨insertEntry k v m.entries, insertEntry_sorted m.sorted⟩

/-- Remove the value at `k`. -/
def erase (m : SortedMap K V) (k : K) : SortedMap K V :=
  ⟨m.entries.filter fun e => e.1 ≠ k, m.sorted.filter _⟩

/-- Keep the entries that satisfy `p`. -/
def filter (p : K → V → Bool) (m : SortedMap K V) : SortedMap K V :=
  ⟨m.entries.filter fun e => p e.1 e.2, m.sorted.filter _⟩

/-- The values in key order. -/
def values (m : SortedMap K V) : List V := m.entries.map Prod.snd

/-- The keys in increasing order. -/
def keys (m : SortedMap K V) : List K := m.entries.map Prod.fst

/-- Apply `f` to every value. -/
def mapValues (f : V → W) (m : SortedMap K V) : SortedMap K W :=
  ⟨m.entries.map fun e => (e.1, f e.2), List.pairwise_map.mpr m.sorted⟩

@[simp] theorem get?_empty (k : K) : (∅ : SortedMap K V).get? k = none := rfl

@[simp] theorem values_empty : (∅ : SortedMap K V).values = [] := rfl

theorem get?_insert (m : SortedMap K V) (k k' : K) (v : V) :
    (m.insert k v).get? k' = if k' = k then some v else m.get? k' :=
  lookup_insertEntry k k' v m.entries

@[simp] theorem get?_insert_self (m : SortedMap K V) (k : K) (v : V) :
    (m.insert k v).get? k = some v := by
  simp [get?_insert]

theorem get?_insert_of_ne (m : SortedMap K V) {k k' : K} (v : V) (h : k' ≠ k) :
    (m.insert k v).get? k' = m.get? k' := by
  simp [get?_insert, h]

theorem get?_mapValues (f : V → W) (m : SortedMap K V) (k : K) :
    (m.mapValues f).get? k = (m.get? k).map f := by
  obtain ⟨es, hes⟩ := m
  simp only [get?, mapValues]
  clear hes
  induction es with
  | nil => rfl
  | cons e es ih => by_cases hk : k = e.1 <;> simp [lookup, hk, ih]

theorem get?_eq_some_iff (m : SortedMap K V) {k : K} {v : V} :
    m.get? k = some v ↔ (k, v) ∈ m.entries :=
  lookup_eq_some_iff m.sorted

theorem get?_erase (m : SortedMap K V) (k k' : K) :
    (m.erase k).get? k' = if k' = k then none else m.get? k' := by
  refine Option.ext fun v => ?_
  rw [get?_eq_some_iff]
  by_cases hk : k' = k <;> simp [erase, hk, get?_eq_some_iff]

theorem get?_filter_eq_some (m : SortedMap K V) (p : K → V → Bool) {k : K} {v : V} :
    (m.filter p).get? k = some v ↔ m.get? k = some v ∧ p k v = true := by
  simp [get?_eq_some_iff, filter]

/-- A map is determined by its lookups. -/
theorem ext_get? {m n : SortedMap K V} (h : ∀ k, m.get? k = n.get? k) : m = n := by
  have he : m.entries = n.entries := eq_of_lookup_eq m.sorted n.sorted h
  cases m; cases n; simpa using he

/-- Writing back the value that is there changes nothing. -/
theorem insert_eq_self {m : SortedMap K V} {k : K} {v : V} (h : m.get? k = some v) :
    m.insert k v = m := by
  refine ext_get? fun k' => ?_
  by_cases hk : k' = k <;> simp [get?_insert, hk, h]

theorem insert_insert (m : SortedMap K V) (k : K) (v w : V) :
    (m.insert k v).insert k w = m.insert k w := by
  refine ext_get? fun k' => ?_
  by_cases hk : k' = k <;> simp [get?_insert, hk]

/-- A key above all others goes last. -/
theorem entries_insert_of_forall_lt {m : SortedMap K V} {k : K} {v : V}
    (h : ∀ e ∈ m.entries, e.1 < k) : (m.insert k v).entries = m.entries ++ [(k, v)] :=
  insertEntry_of_forall_lt h

theorem contains_iff (m : SortedMap K V) (k : K) : m.contains k = true ↔ ∃ v, m.get? k = some v := by
  simp [contains, Option.isSome_iff_exists]

theorem contains_eq_false_iff (m : SortedMap K V) (k : K) :
    m.contains k = false ↔ m.get? k = none := by
  simp [contains]

theorem mem_values_iff (m : SortedMap K V) {v : V} : v ∈ m.values ↔ ∃ k, m.get? k = some v := by
  simp [values, get?_eq_some_iff]

theorem mem_keys_iff (m : SortedMap K V) {k : K} : k ∈ m.keys ↔ ∃ v, m.get? k = some v := by
  simp [keys, get?_eq_some_iff]

theorem nodup_keys (m : SortedMap K V) : m.keys.Nodup := by
  rw [keys, List.Nodup, List.pairwise_map]
  exact m.sorted.imp fun h => h.ne

theorem nodup_entries (m : SortedMap K V) : m.entries.Nodup :=
  m.sorted.imp fun h heq => absurd (congrArg Prod.fst heq) h.ne

/-- A new key adds its entry. -/
theorem entries_insert_perm {m : SortedMap K V} {k : K} (v : V) (h : m.get? k = none) :
    (m.insert k v).entries.Perm ((k, v) :: m.entries) := by
  have hnew : (k, v) ∉ m.entries := by
    rw [← get?_eq_some_iff, h]
    simp
  refine (List.perm_ext_iff_of_nodup (nodup_entries _)
    (List.nodup_cons.mpr ⟨hnew, m.nodup_entries⟩)).mpr fun e => ?_
  rw [← get?_eq_some_iff, get?_insert, List.mem_cons, ← get?_eq_some_iff, Prod.ext_iff]
  by_cases hk : e.1 = k
  · simp [hk, h, eq_comm]
  · simp [hk]

/-- The entry of a key, and those that are left when it is removed. -/
theorem entries_erase_perm {m : SortedMap K V} {k : K} {v : V} (h : m.get? k = some v) :
    m.entries.Perm ((k, v) :: (m.erase k).entries) := by
  have hgone : (k, v) ∉ (m.erase k).entries := by
    rw [← get?_eq_some_iff, get?_erase, if_pos rfl]
    simp
  refine (List.perm_ext_iff_of_nodup m.nodup_entries
    (List.nodup_cons.mpr ⟨hgone, nodup_entries _⟩)).mpr fun e => ?_
  rw [← get?_eq_some_iff, List.mem_cons, ← get?_eq_some_iff, get?_erase, Prod.ext_iff]
  by_cases hk : e.1 = k
  · simp [hk, h, eq_comm]
  · simp [hk]

theorem values_mapValues (f : V → W) (m : SortedMap K V) :
    (m.mapValues f).values = m.values.map f := by
  simp [values, mapValues, Function.comp_def]

theorem mapValues_insert (f : V → W) (m : SortedMap K V) (k : K) (v : V) :
    (m.insert k v).mapValues f = (m.mapValues f).insert k (f v) := by
  refine ext_get? fun k' => ?_
  by_cases hk : k' = k <;> simp [get?_mapValues, get?_insert, hk]

end SortedMap
