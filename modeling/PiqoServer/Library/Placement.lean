import Mathlib.Data.List.Sort

/-!
# Placing updates by position

A list of items is rendered, those that are kept, behind some entries in front. Some items then
update the entry that renders them. Where the entry is looked up by the position of the item among
all items, shifted by a fixed offset, the updates arrive at the right entries exactly where that
position is the rendered one.

## Main definitions

* `placeAt`: update the entries at the positions of the items; `none` is a position out of range

## Main results

* `getElem?_placeAt`: what becomes of each entry
* `placeAt_eq_some_iff`: the updates arrive exactly where the positions are the rendered ones
-/

namespace Placement

variable {ι ε : Type} (update : ι → Option (ε → ε))

/-- Update the entries at the positions of the items, starting at `i`. -/
def placeAt : Nat → List ι → List ε → Option (List ε)
  | _, [], entries => some entries
  | i, item :: items, entries =>
    match update item with
    | none => placeAt (i + 1) items entries
    | some f =>
      match entries[i]? with
      | none => none
      | some entry => placeAt (i + 1) items (entries.set i (f entry))

/-- The update that goes to position `j`. -/
def updateAt (i : Nat) (items : List ι) (j : Nat) : Option (ε → ε) :=
  if i ≤ j then (items[j - i]?).bind update else none

variable {update} {i j k : Nat} {item : ι} {items : List ι} {entries out : List ε}

theorem updateAt_cons_of_ne (hj : j ≠ i) :
    updateAt update i (item :: items) j = updateAt update (i + 1) items j := by
  unfold updateAt
  by_cases hlt : i < j
  · obtain ⟨d, rfl⟩ := Nat.exists_eq_add_of_lt hlt
    have hd : i + d + 1 - i = d + 1 := by omega
    have hd' : i + d + 1 - (i + 1) = d := by omega
    rw [if_pos (by omega), if_pos (by omega), hd, hd', List.getElem?_cons_succ]
  · rw [if_neg (by omega), if_neg (by omega)]

theorem updateAt_cons_self : updateAt update i (item :: items) i = update item := by
  simp [updateAt]

theorem updateAt_lt (hj : j < i) : updateAt update i items j = none := if_neg (by omega)

/-- **What becomes of each entry.** -/
theorem getElem?_placeAt (h : placeAt update i items entries = some out) (j : Nat) :
    out[j]? = entries[j]?.map fun entry => ((updateAt update i items j).getD id) entry := by
  induction items generalizing i entries with
  | nil =>
    cases h
    simp [updateAt]
  | cons item items ih =>
    rw [placeAt] at h
    split at h
    · next hnone =>
      rw [ih h]
      by_cases hj : j = i
      · rw [hj, updateAt_cons_self, hnone, updateAt_lt (Nat.lt_succ_self i)]
      · rw [updateAt_cons_of_ne hj]
    · next f hsome =>
      split at h
      · cases h
      · next entry hentry =>
        rw [ih h]
        obtain ⟨hlt, -⟩ := List.getElem?_eq_some_iff.mp hentry
        by_cases hj : j = i
        · rw [hj, updateAt_cons_self, hsome, updateAt_lt (Nat.lt_succ_self i), hentry,
            List.getElem?_set_self hlt]
          rfl
        · rw [updateAt_cons_of_ne hj, List.getElem?_set_ne (Ne.symm hj)]

/-- An update is placed exactly where its position is in range. -/
theorem exists_placeAt_iff : (∃ out, placeAt update i items entries = some out) ↔
    ∀ k item, items[k]? = some item → (update item).isSome = true → i + k < entries.length := by
  induction items generalizing i entries with
  | nil => simp [placeAt]
  | cons item items ih =>
    -- the first item is at position `i`, the others one further
    have hcons : (∀ k item', (item :: items)[k]? = some item' → (update item').isSome = true →
        i + k < entries.length) ↔ ((update item).isSome = true → i < entries.length) ∧
          ∀ k item', items[k]? = some item' → (update item').isSome = true →
            i + 1 + k < entries.length := by
      constructor
      · intro h
        refine ⟨fun hitem => h 0 item rfl hitem, fun k item' hk hitem => ?_⟩
        have := h (k + 1) item' hk hitem
        omega
      · rintro ⟨hfirst, hrest⟩ k item' hk hitem
        cases k with
        | zero =>
          cases hk
          exact hfirst hitem
        | succ k =>
          have := hrest k item' hk hitem
          omega
    rw [placeAt, hcons]
    split
    · next hnone =>
      rw [ih, hnone]
      simp
    · next f hsome =>
      rw [hsome]
      split
      · next hentry =>
        have hle := List.getElem?_eq_none_iff.mp hentry
        simp only [reduceCtorEq, exists_false, Option.isSome_some, forall_const, false_iff, not_and]
        omega
      · next entry hentry =>
        rw [ih, List.length_set]
        have hlt := (List.getElem?_eq_some_iff.mp hentry).1
        simp [hlt]

theorem updateAt_eq_some {f : ε → ε} : updateAt update i items j = some f ↔
    ∃ k item, items[k]? = some item ∧ update item = some f ∧ j = i + k := by
  unfold updateAt
  constructor
  · intro h
    split at h
    · next hle =>
      obtain ⟨item, hitem, hf⟩ := Option.bind_eq_some_iff.mp h
      exact ⟨j - i, item, hitem, hf, by omega⟩
    · cases h
  · rintro ⟨k, item, hitem, hf, rfl⟩
    rw [if_pos (by omega), Nat.add_sub_cancel_left, hitem]
    exact hf

/-! ## Rendered positions -/

variable {keep : ι → Bool}

/-- The position of a kept item among those kept is the number of those kept before it. -/
theorem getElem?_filter_iff {c : Nat} : (items.filter keep)[c]? = some item ↔
    ∃ k, items[k]? = some item ∧ keep item = true ∧ (items.take k).countP keep = c := by
  induction items generalizing c with
  | nil => simp
  | cons first items ih =>
    by_cases hkeep : keep first = true
    · rw [List.filter_cons_of_pos hkeep]
      cases c with
      | zero =>
        constructor
        · intro h
          cases h
          exact ⟨0, rfl, hkeep, rfl⟩
        · rintro ⟨k, hk, -, hcount⟩
          cases k with
          | zero => exact hk
          | succ k => simp [hkeep] at hcount
      | succ c =>
        rw [List.getElem?_cons_succ, ih]
        constructor
        · rintro ⟨k, hk, hitem, rfl⟩
          exact ⟨k + 1, hk, hitem, by simp [hkeep]⟩
        · rintro ⟨k, hk, hitem, hcount⟩
          cases k with
          | zero => simp at hcount
          | succ k => exact ⟨k, hk, hitem, by simpa [List.countP_cons, hkeep] using hcount⟩
    · rw [List.filter_cons_of_neg hkeep, ih]
      constructor
      · rintro ⟨k, hk, hitem, rfl⟩
        exact ⟨k + 1, hk, hitem, by simp [hkeep]⟩
      · rintro ⟨k, hk, hitem, hcount⟩
        cases k with
        | zero =>
          cases hk
          exact absurd hitem hkeep
        | succ k => exact ⟨k, hk, hitem, by simpa [List.countP_cons, hkeep] using hcount⟩

/-- Kept items stand in their order. -/
theorem countP_take_lt {k' : Nat} (hk : items[k]? = some item) (hkeep : keep item = true)
    (hlt : k < k') : (items.take k).countP keep < (items.take k').countP keep := by
  have hsucc : (items.take (k + 1)).countP keep = (items.take k).countP keep + 1 := by
    rw [List.take_add_one, hk, List.countP_append]
    simp [hkeep]
  have hle : (items.take (k + 1)).countP keep ≤ (items.take k').countP keep :=
    ((List.take_prefix_take_left (l := items) hlt).sublist).countP_le
  omega

/-! ## The right entries -/

section Render

variable (render : ι → ε) (front : List ε)

/-- The entries before the updates. -/
def rendered (keep : ι → Bool) (items : List ι) : List ε := front ++ (items.filter keep).map render

/-- The entries with each update at the entry of its own item. -/
def placed (update : ι → Option (ε → ε)) (keep : ι → Bool) (items : List ι) : List ε :=
  front ++ (items.filter keep).map fun item => ((update item).getD id) (render item)

variable {render front} {mark : ε → Bool}

/-- The entry at which the item at `k` is rendered. -/
def slot (front : List ε) (keep : ι → Bool) (items : List ι) (k : Nat) : Nat :=
  front.length + (items.take k).countP keep

theorem getElem?_placed_slot (hk : items[k]? = some item) (hkeep : keep item = true) :
    (placed render front update keep items)[slot front keep items k]? =
      some (((update item).getD id) (render item)) := by
  have hitem : (items.filter keep)[(items.take k).countP keep]? = some item :=
    getElem?_filter_iff.mpr ⟨k, hk, hkeep, rfl⟩
  rw [placed, slot, List.getElem?_append_right (Nat.le_add_right _ _), Nat.add_sub_cancel_left,
    List.getElem?_map, hitem]
  rfl

theorem getElem?_rendered_slot (hk : items[k]? = some item) (hkeep : keep item = true) :
    (rendered render front keep items)[slot front keep items k]? = some (render item) := by
  have hitem : (items.filter keep)[(items.take k).countP keep]? = some item :=
    getElem?_filter_iff.mpr ⟨k, hk, hkeep, rfl⟩
  rw [rendered, slot, List.getElem?_append_right (Nat.le_add_right _ _), Nat.add_sub_cancel_left,
    List.getElem?_map, hitem]
  rfl

/-- An entry is in front, or renders an item. -/
theorem entry_cases (front : List ε) (keep : ι → Bool) (items : List ι) (j : Nat) :
    j < front.length ∨ (∃ k item, items[k]? = some item ∧ keep item = true ∧
      j = slot front keep items k) ∨
        front.length + (items.filter keep).length ≤ j := by
  by_cases hfront : j < front.length
  · exact .inl hfront
  right
  cases hitem : (items.filter keep)[j - front.length]? with
  | none => exact .inr (by have := List.getElem?_eq_none_iff.mp hitem; omega)
  | some item =>
    obtain ⟨k, hk, hkeep, hcount⟩ := getElem?_filter_iff.mp hitem
    exact .inl ⟨k, item, hk, hkeep, by rw [slot, hcount]; omega⟩

theorem length_rendered : (rendered render front keep items).length =
    front.length + (items.filter keep).length := by
  simp [rendered]

theorem length_placed : (placed render front update keep items).length =
    front.length + (items.filter keep).length := by
  simp [placed]

/-- Where the positions are the rendered ones, every update arrives. -/
theorem placeAt_of_slots (hkept : ∀ item ∈ items, (update item).isSome = true → keep item = true)
    (hslots : ∀ k item, items[k]? = some item → (update item).isSome = true →
      i + k = slot front keep items k) :
    placeAt update i items (rendered render front keep items) =
      some (placed render front update keep items) := by
  obtain ⟨out, hout⟩ : ∃ out,
      placeAt update i items (rendered render front keep items) = some out := by
    refine exists_placeAt_iff.mpr fun k item hk hitem => ?_
    rw [hslots k item hk hitem]
    exact (List.getElem?_eq_some_iff.mp
      (getElem?_rendered_slot hk (hkept item (List.mem_of_getElem? hk) hitem))).1
  rw [hout]
  refine congrArg some (List.ext_getElem? fun j => ?_)
  rw [getElem?_placeAt hout]
  -- the update that goes to an entry is that of the item it renders
  have hupdate : ∀ f, updateAt update i items j = some f →
      ∃ k item, items[k]? = some item ∧ update item = some f ∧ keep item = true ∧
        j = slot front keep items k := by
    intro f hf
    obtain ⟨k, item, hk, hitem, hj⟩ := updateAt_eq_some.mp hf
    have hsome : (update item).isSome = true := by rw [hitem]; rfl
    exact ⟨k, item, hk, hitem, hkept item (List.mem_of_getElem? hk) hsome,
      hj.trans (hslots k item hk hsome)⟩
  rcases entry_cases front keep items j with hfront | ⟨k, item, hk, hkeep, rfl⟩ | hend
  · have hnone : updateAt update i items j = none := by
      cases hf : updateAt update i items j with
      | none => rfl
      | some f =>
        obtain ⟨k, item, -, -, -, hj⟩ := hupdate f hf
        rw [slot] at hj
        omega
    rw [hnone, rendered, placed, List.getElem?_append_left hfront,
      List.getElem?_append_left hfront]
    exact Option.map_id_fun ▸ rfl
  · rw [getElem?_rendered_slot hk hkeep, getElem?_placed_slot hk hkeep]
    refine congrArg some (congrArg (fun f : Option (ε → ε) => f.getD id (render item)) ?_)
    cases hf : updateAt update i items (slot front keep items k) with
    | some f =>
      obtain ⟨k', item', hk', hitem', hkeep', hslot⟩ := hupdate f hf
      rw [slot, slot, Nat.add_left_cancel_iff] at hslot
      obtain rfl : k = k' := by
        rcases Nat.lt_trichotomy k k' with hlt | heq | hlt
        · have := countP_take_lt hk hkeep hlt
          omega
        · exact heq
        · have := countP_take_lt hk' hkeep' hlt
          omega
      cases hk.symm.trans hk'
      exact hitem'.symm
    | none =>
      cases hitem : update item with
      | none => rfl
      | some f =>
        have hsome : (update item).isSome = true := by rw [hitem]; rfl
        rw [← hslots k item hk hsome] at hf
        rw [updateAt_eq_some.mpr ⟨k, item, hk, hitem, rfl⟩] at hf
        cases hf
  · rw [List.getElem?_eq_none_iff.mpr (length_rendered.trans_le hend),
      List.getElem?_eq_none_iff.mpr (length_placed.trans_le hend)]
    rfl

/-- The positions of the items with an update. -/
def updated (update : ι → Option (ε → ε)) (items : List ι) : List Nat :=
  (List.range items.length).filter fun k => ((items[k]?).bind update).isSome

theorem mem_updated : k ∈ updated update items ↔
    ∃ item, items[k]? = some item ∧ (update item).isSome = true := by
  rw [updated, List.mem_filter, List.mem_range]
  constructor
  · rintro ⟨-, hsome⟩
    obtain ⟨f, hf⟩ := Option.isSome_iff_exists.mp hsome
    obtain ⟨item, hk, hitem⟩ := Option.bind_eq_some_iff.mp hf
    exact ⟨item, hk, by rw [hitem]; rfl⟩
  · rintro ⟨item, hk, hsome⟩
    refine ⟨(List.getElem?_eq_some_iff.mp hk).1, ?_⟩
    rw [hk]
    exact hsome

theorem updated_increasing : (updated update items).Pairwise (· < ·) :=
  List.pairwise_lt_range.filter _

/-- An entry that an update goes to is marked, and no other one. -/
theorem marked_placeAt (hmark : ∀ item f, update item = some f → ∀ entry, mark (f entry) = true)
    (hplain : ∀ entry ∈ entries, mark entry = false)
    (h : placeAt update i items entries = some out) :
    (∃ entry, out[j]? = some entry ∧ mark entry = true) ↔
      j ∈ (updated update items).map (i + ·) := by
  rw [getElem?_placeAt h, List.mem_map]
  constructor
  · rintro ⟨_, hout, hmarked⟩
    obtain ⟨entry, hentry, rfl⟩ := Option.map_eq_some_iff.mp hout
    cases hf : updateAt update i items j with
    | none =>
      rw [hf, Option.getD_none, id, hplain entry (List.mem_of_getElem? hentry)] at hmarked
      cases hmarked
    | some f =>
      obtain ⟨k, item, hk, hitem, rfl⟩ := updateAt_eq_some.mp hf
      exact ⟨k, mem_updated.mpr ⟨item, hk, by rw [hitem]; rfl⟩, rfl⟩
  · rintro ⟨k, hk, rfl⟩
    obtain ⟨item, hk, hsome⟩ := mem_updated.mp hk
    obtain ⟨f, hf⟩ := Option.isSome_iff_exists.mp hsome
    have hlt := exists_placeAt_iff.mp ⟨out, h⟩ k item hk hsome
    refine ⟨f entries[i + k], ?_, hmark item f hf _⟩
    rw [updateAt_eq_some.mpr ⟨k, item, hk, hf, rfl⟩, List.getElem?_eq_getElem hlt]
    rfl

/-- The entries of the items with an update are marked, and no others. -/
theorem marked_placed (hmark : ∀ item f, update item = some f → ∀ entry, mark (f entry) = true)
    (hplain : ∀ entry ∈ rendered render front keep items, mark entry = false)
    (hkept : ∀ item ∈ items, (update item).isSome = true → keep item = true) :
    (∃ entry, (placed render front update keep items)[j]? = some entry ∧ mark entry = true) ↔
      j ∈ (updated update items).map (slot front keep items) := by
  rw [List.mem_map]
  constructor
  · rintro ⟨entry, hentry, hmarked⟩
    rcases entry_cases front keep items j with hfront | ⟨k, item, hk, hkeep, rfl⟩ | hend
    · rw [placed, List.getElem?_append_left hfront] at hentry
      rw [hplain entry (List.mem_append_left _ (List.mem_of_getElem? hentry))] at hmarked
      cases hmarked
    · refine ⟨k, mem_updated.mpr ⟨item, hk, ?_⟩, rfl⟩
      rw [getElem?_placed_slot hk hkeep] at hentry
      cases hitem : update item with
      | some f => rfl
      | none =>
        rw [hitem] at hentry
        cases hentry
        have hmem : render item ∈ rendered render front keep items :=
          List.mem_of_getElem? (getElem?_rendered_slot hk hkeep)
        rw [Option.getD_none, id, hplain _ hmem] at hmarked
        cases hmarked
    · rw [List.getElem?_eq_none_iff.mpr (length_placed.trans_le hend)] at hentry
      cases hentry
  · rintro ⟨k, hk, rfl⟩
    obtain ⟨item, hk, hsome⟩ := mem_updated.mp hk
    obtain ⟨f, hf⟩ := Option.isSome_iff_exists.mp hsome
    refine ⟨_, getElem?_placed_slot hk (hkept item (List.mem_of_getElem? hk) hsome), ?_⟩
    rw [hf]
    exact hmark item f hf _

/-- **The updates arrive at the right entries exactly where the positions are the rendered ones.**
An update leaves a mark that no entry has before. -/
theorem placeAt_eq_some_iff (mark : ε → Bool)
    (hmark : ∀ item f, update item = some f → ∀ entry, mark (f entry) = true)
    (hplain : ∀ entry ∈ rendered render front keep items, mark entry = false)
    (hkept : ∀ item ∈ items, (update item).isSome = true → keep item = true) :
    placeAt update i items (rendered render front keep items) =
        some (placed render front update keep items) ↔
      ∀ k item, items[k]? = some item → (update item).isSome = true →
        i + k = slot front keep items k := by
  refine ⟨fun h => ?_, placeAt_of_slots hkept⟩
  -- both lists of positions increase, and they have the same members
  have hsame : (updated update items).map (i + ·) =
      (updated update items).map (slot front keep items) := by
    refine List.Pairwise.eq_of_mem_iff (r := (· < ·)) ?_ ?_ fun j => ?_
    · rw [List.pairwise_map]
      exact updated_increasing.imp fun hlt => Nat.add_lt_add_left hlt i
    · rw [List.pairwise_map]
      refine updated_increasing.imp_of_mem fun hk _ hlt => ?_
      obtain ⟨item, hk, hsome⟩ := mem_updated.mp hk
      exact Nat.add_lt_add_left
        (countP_take_lt hk (hkept item (List.mem_of_getElem? hk) hsome) hlt) _
    · rw [← marked_placeAt hmark hplain h, marked_placed hmark hplain hkept]
  intro k item hk hsome
  exact List.map_inj_left.mp hsame k (mem_updated.mpr ⟨item, hk, hsome⟩)

end Render

end Placement
