import Mathlib.Data.Set.Finite.Basic
import Mathlib.Data.Fintype.EquivFin
import Mathlib.Order.Monotone.Basic

/-!
# Paging by keys

A table is read page by page in descending order of its keys. A page has the first rows whose keys
are strictly below a bound; one row more is fetched, which shows whether there is a next page, and
the last key of a page bounds the next. The table may change from page to page.

## Main definitions

* `Paging.fetch`, `Paging.page`: the rows of a page, and the bound of the next
* `Paging.walk`: what has been read after some pages, and the bound to go on from

## Main results

* `Paging.page_complete`: a page has every row between its bound and the next
* `Paging.Walked`: what is read is strictly descending, and has every key that was always there
* `Paging.walk_ends`: a walk over finitely many keys ends
-/

namespace Paging

variable {R K : Type} [LinearOrder K] (key : R → K)

/-! ## Pages -/

/-- The first rows below a bound, in descending order. -/
def fetch (bound : Option K) (limit : Nat) (rows : List R) : List R :=
  ((rows.filter fun row => bound.all (key row < ·)).mergeSort fun a b => key b ≤ key a).take limit

/-- The rows of a page, and the bound of the next page if there is one. -/
def page (bound : Option K) (limit : Nat) (rows : List R) : List R × Option K :=
  let found := fetch key bound (limit + 1) rows
  (found.take limit, if limit < found.length then (found.take limit).getLast?.map key else none)

variable {key}

/-- All rows below a bound, in descending order. -/
theorem exists_descending (bound : Option K) {rows : List R} (hnodup : (rows.map key).Nodup) :
    ∃ all : List R, (∀ limit, fetch key bound limit rows = all.take limit) ∧
      all.Pairwise (fun a b => key b < key a) ∧
      ∀ row, row ∈ all ↔ row ∈ rows ∧ ∀ k ∈ bound, key row < k := by
  refine ⟨_, fun _ => rfl, ?_, fun row => ?_⟩
  · have hsorted := @List.pairwise_mergeSort _ (fun a b => decide (key b ≤ key a))
      (by simpa using fun a b c hab hbc => le_trans hbc hab)
      (by simpa using fun a b => le_total (key b) (key a))
      (rows.filter fun row => bound.all (key row < ·))
    have hdistinct : (((rows.filter fun row => bound.all (key row < ·)).mergeSort
        fun a b => key b ≤ key a).map key).Nodup :=
      ((List.mergeSort_perm _ _).map key).nodup_iff.mpr ((List.filter_sublist.map key).nodup hnodup)
    rw [List.Nodup, List.pairwise_map] at hdistinct
    refine (hsorted.and hdistinct).imp ?_
    rintro a b ⟨hle, hne⟩
    exact lt_of_le_of_ne (by simpa using hle) fun h => hne h.symm
  · rw [List.mem_mergeSort, List.mem_filter]
    cases bound <;> simp

section Page

variable {bound : Option K} {limit : Nat} {rows : List R}

theorem page_descending (hnodup : (rows.map key).Nodup) :
    (page key bound limit rows).1.Pairwise fun a b => key b < key a := by
  obtain ⟨all, hfetch, hall, -⟩ := exists_descending bound hnodup
  rw [page, hfetch]
  exact (hall.sublist (List.take_sublist _ _)).sublist (List.take_sublist _ _)

theorem page_sound (hnodup : (rows.map key).Nodup) {row : R}
    (h : row ∈ (page key bound limit rows).1) : row ∈ rows ∧ ∀ k ∈ bound, key row < k := by
  obtain ⟨all, hfetch, -, hmem⟩ := exists_descending bound hnodup
  rw [page, hfetch] at h
  exact (hmem row).mp (List.mem_of_mem_take (List.mem_of_mem_take h))

/-- The next bound is the last key of the page. -/
theorem page_next (hnodup : (rows.map key).Nodup) {k : K}
    (h : (page key bound limit rows).2 = some k) :
    (∃ row ∈ (page key bound limit rows).1, key row = k) ∧
      ∀ row ∈ (page key bound limit rows).1, k ≤ key row := by
  have hdescending : (page key bound limit rows).1.Pairwise fun a b => key b < key a :=
    page_descending hnodup
  revert h hdescending
  simp only [page]
  generalize (fetch key bound (limit + 1) rows).take limit = shown
  intro h hdescending
  split at h
  · obtain ⟨last, hlast, rfl⟩ := Option.map_eq_some_iff.mp h
    obtain ⟨front, rfl⟩ := List.getLast?_eq_some_iff.mp hlast
    refine ⟨⟨last, by simp, rfl⟩, fun row hrow => ?_⟩
    rcases List.mem_append.mp hrow with hrow | hrow
    · exact ((List.pairwise_append.mp hdescending).2.2 row hrow last (by simp)).le
    · rw [List.mem_singleton.mp hrow]
  · cases h

/-- **A page has every row** below its bound that is not below the next. -/
theorem page_complete (hlimit : 0 < limit) (hnodup : (rows.map key).Nodup) {row : R}
    (hrow : row ∈ rows) (hbound : ∀ k ∈ bound, key row < k)
    (hnext : ∀ k ∈ (page key bound limit rows).2, k ≤ key row) :
    row ∈ (page key bound limit rows).1 := by
  obtain ⟨all, hfetch, hall, hmem⟩ := exists_descending bound hnodup
  have hin : row ∈ all := (hmem row).mpr ⟨hrow, hbound⟩
  have htake : (all.take (limit + 1)).take limit = all.take limit := by
    rw [List.take_take, Nat.min_eq_left (Nat.le_succ limit)]
  simp only [page, hfetch, htake] at hnext ⊢
  rw [← List.take_append_drop limit all] at hin hall
  rcases List.mem_append.mp hin with hin | hin
  · exact hin
  · -- the row is behind the page, so there is a next page, whose bound is above it
    have hlength : limit < all.length := by
      have := List.length_pos_of_mem hin
      rw [List.length_drop] at this
      omega
    have hpos : all.take limit ≠ [] := by
      rw [Ne, List.take_eq_nil_iff, not_or]
      exact ⟨by omega, fun h => by simp [h] at hlength⟩
    have hlast := hnext (key ((all.take limit).getLast hpos)) (by
      rw [if_pos (by rw [List.length_take]; omega), List.getLast?_eq_some_getLast hpos]
      rfl)
    have hbelow := (List.pairwise_append.mp hall).2.2 _ (List.getLast_mem hpos) row hin
    exact absurd hlast (not_le.mpr hbelow)

end Page

/-! ## Walks -/

section Walk

variable (key) (tables : Nat → List R) (limits : Nat → Nat)

/-- What has been read after some pages, and the bound of the next page if there is one. -/
def walk : Nat → List R × Option (Option K)
  | 0 => ([], some none)
  | n + 1 => match walk n with
    | (rows, none) => (rows, none)
    | (rows, some bound) =>
      let found := page key bound (limits n) (tables n)
      (rows ++ found.1, found.2.map some)

/-- The key is in every table that the first pages are read from. -/
def Throughout (n : Nat) (k : K) : Prop := ∀ m < n, ∃ row ∈ tables m, key row = k

/-- What is known of a walk: it read rows of the tables in strictly descending order, down to the
bound of the next page, and among them every key that was always there. -/
structure Walked (n : Nat) (rows : List R) (next : Option (Option K)) : Prop where
  descending : rows.Pairwise fun a b => key b < key a
  sound : ∀ row ∈ rows, ∃ m < n, row ∈ tables m
  first : next = some none → rows = []
  bounded : ∀ k, next = some (some k) → (∀ row ∈ rows, k ≤ key row) ∧
    ∃ m < n, ∃ row ∈ tables m, key row = k
  complete : next ≠ some none → ∀ k, Throughout key tables n k →
    (∀ bound, next = some (some bound) → bound ≤ k) → ∃ row ∈ rows, key row = k

variable {key tables limits}

theorem walked_zero : Walked key tables 0 [] (some none) where
  descending := List.Pairwise.nil
  sound := by simp
  first _ := rfl
  bounded := by simp
  complete h := absurd rfl h

theorem Walked.read {n : Nat} {rows : List R} {bound : Option K}
    (h : Walked key tables n rows (some bound)) (hlimit : 0 < limits n)
    (hnodup : ((tables n).map key).Nodup) :
    Walked key tables (n + 1) (rows ++ (page key bound (limits n) (tables n)).1)
      ((page key bound (limits n) (tables n)).2.map some) := by
  -- what is read now is below what was read before
  have hbelow : ∀ old ∈ rows, ∀ row ∈ (page key bound (limits n) (tables n)).1,
      key row < key old := by
    intro old hold row hrow
    cases bound with
    | none => rw [h.first rfl] at hold; cases hold
    | some k =>
      exact lt_of_lt_of_le ((page_sound hnodup hrow).2 k rfl) ((h.bounded k rfl).1 old hold)
  constructor
  · exact List.pairwise_append.mpr ⟨h.descending, page_descending hnodup, hbelow⟩
  · intro row hrow
    rcases List.mem_append.mp hrow with hrow | hrow
    · obtain ⟨m, hm, hrow⟩ := h.sound row hrow
      exact ⟨m, Nat.lt_succ_of_lt hm, hrow⟩
    · exact ⟨n, Nat.lt_succ_self n, (page_sound hnodup hrow).1⟩
  · intro hnext
    cases hfound : (page key bound (limits n) (tables n)).2 <;> rw [hfound] at hnext <;> cases hnext
  · intro k hk
    have hfound : (page key bound (limits n) (tables n)).2 = some k := by
      cases hfound : (page key bound (limits n) (tables n)).2 <;> rw [hfound] at hk <;> cases hk
      rfl
    obtain ⟨⟨last, hlast, rfl⟩, hle⟩ := page_next hnodup hfound
    refine ⟨fun row hrow => ?_, n, Nat.lt_succ_self n, last, (page_sound hnodup hlast).1, rfl⟩
    rcases List.mem_append.mp hrow with hrow | hrow
    · exact (hbelow row hrow last hlast).le
    · exact hle row hrow
  · intro _ k hk hnext
    obtain ⟨row, hrow, rfl⟩ := hk n (Nat.lt_succ_self n)
    by_cases hread : ∀ b ∈ bound, key row < b
    · refine ⟨row, List.mem_append_right _ (page_complete hlimit hnodup hrow hread ?_), rfl⟩
      intro b hb
      exact hnext b (by rw [Option.mem_def.mp hb]; rfl)
    · -- the key is not below the bound, so it was read before
      obtain ⟨b, hb, hle⟩ : ∃ b ∈ bound, b ≤ key row := by simpa using hread
      obtain ⟨old, hold, hkey⟩ := h.complete (by rw [Option.mem_def.mp hb]; simp) (key row)
        (fun m hm => hk m (Nat.lt_succ_of_lt hm)) (by
          rintro b' hb'
          rw [Option.mem_def.mp hb] at hb'
          cases hb'
          exact hle)
      exact ⟨old, List.mem_append_left _ hold, hkey⟩

theorem Walked.rest {n : Nat} {rows : List R} (h : Walked key tables n rows none) :
    Walked key tables (n + 1) rows none where
  descending := h.descending
  sound row hrow := by
    obtain ⟨m, hm, hrow⟩ := h.sound row hrow
    exact ⟨m, Nat.lt_succ_of_lt hm, hrow⟩
  first h' := by cases h'
  bounded _ h' := by cases h'
  complete _ k hk _ := h.complete (by simp) k (fun m hm => hk m (Nat.lt_succ_of_lt hm)) (by simp)

/-- **What a walk has read** at any time. -/
theorem walked (hlimit : ∀ n, 0 < limits n) (hnodup : ∀ n, ((tables n).map key).Nodup) (n : Nat) :
    Walked key tables n (walk key tables limits n).1 (walk key tables limits n).2 := by
  induction n with
  | zero => exact walked_zero
  | succ n ih =>
    rw [walk]
    split
    · next rows hwalk =>
      rw [hwalk] at ih
      exact ih.rest
    · next rows bound hwalk =>
      rw [hwalk] at ih
      exact ih.read (hlimit n) (hnodup n)

/-- A bound is below the one before it. -/
theorem walk_next_lt (hnodup : ∀ n, ((tables n).map key).Nodup) {n : Nat} {b k : K}
    (hb : (walk key tables limits n).2 = some (some b))
    (hk : (walk key tables limits (n + 1)).2 = some (some k)) : k < b := by
  rw [walk] at hk
  split at hk
  · cases hk
  · next rows bound hwalk =>
    rw [hwalk] at hb
    cases hb
    obtain ⟨k', hfound, hk'⟩ := Option.map_eq_some_iff.mp hk
    cases hk'
    obtain ⟨⟨row, hrow, rfl⟩, -⟩ := page_next (hnodup n) hfound
    exact (page_sound (hnodup n) hrow).2 b rfl

/-- **A walk over finitely many keys ends.** -/
theorem walk_ends (hlimit : ∀ n, 0 < limits n) (hnodup : ∀ n, ((tables n).map key).Nodup)
    (hfinite : {k | ∃ n, ∃ row ∈ tables n, key row = k}.Finite) :
    ∃ n, (walk key tables limits n).2 = none := by
  by_contra hnever
  -- a walk that never ends has a bound after each page
  have hbound : ∀ n, ∃ k, (walk key tables limits (n + 1)).2 = some (some k) := by
    intro n
    have hsome : (walk key tables limits (n + 1)).2 ≠ none := fun h => hnever ⟨n + 1, h⟩
    rw [walk] at hsome ⊢
    split at hsome
    · exact absurd rfl hsome
    · next rows bound hwalk =>
      obtain ⟨k, hk⟩ := Option.ne_none_iff_exists'.mp hsome
      obtain ⟨k', hfound, -⟩ := Option.map_eq_some_iff.mp hk
      exact ⟨k', congrArg (Option.map some) hfound⟩
  choose bounds hbounds using hbound
  have hanti : StrictAnti bounds :=
    strictAnti_nat_of_succ_lt fun n => walk_next_lt hnodup (hbounds n) (hbounds (n + 1))
  refine Set.infinite_of_injective_forall_mem hanti.injective (fun n => ?_) hfinite
  obtain ⟨-, m, -, row, hrow, hkey⟩ :=
    (walked hlimit hnodup (n + 1)).bounded (bounds n) (hbounds n)
  exact ⟨m, row, hrow, hkey⟩

end Walk

end Paging
