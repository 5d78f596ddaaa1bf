import Mathlib.Data.List.Basic
import PiqoServer.Library.SortedMap

/-!
# Entries written one after another

A later entry replaces an earlier one with its key, so that what is written last depends on the
order of the entries, unless those with one key agree.

## Main definitions

* `SortedMap.writeAll`: a map after some entries
* `Agreeing`: entries with one key have one value

## Main results

* `get?_writeAll_of_mem`: entries that agree can be read back
* `writeAll_perm_iff`: the order of the entries does not matter exactly when they agree
-/

namespace SortedMap

variable {K V : Type}

/-- Entries with one key have one value. -/
def Agreeing (es : List (K × V)) : Prop := ∀ e ∈ es, ∀ f ∈ es, e.1 = f.1 → e.2 = f.2

theorem Agreeing.perm {es fs : List (K × V)} (h : Agreeing es) (hperm : fs.Perm es) :
    Agreeing fs :=
  fun e he f hf => h e (hperm.mem_iff.mp he) f (hperm.mem_iff.mp hf)

/-- Any entry may be the last one. -/
theorem exists_perm_concat {α : Type} {es : List α} {e : α} (he : e ∈ es) :
    ∃ front, (front ++ [e]).Perm es := by
  obtain ⟨front, back, rfl⟩ := List.append_of_mem he
  refine ⟨front ++ back, ?_⟩
  rw [List.append_assoc]
  exact (List.perm_append_left_iff front).mpr List.perm_append_comm

variable [LinearOrder K]

/-- Write the entries in their order. -/
def writeAll (m : SortedMap K V) : List (K × V) → SortedMap K V
  | [] => m
  | e :: es => (m.insert e.1 e.2).writeAll es

theorem writeAll_append (m : SortedMap K V) (es fs : List (K × V)) :
    m.writeAll (es ++ fs) = (m.writeAll es).writeAll fs := by
  induction es generalizing m with
  | nil => rfl
  | cons e es ih => exact ih _

/-- Keys that are not written keep their values. -/
theorem get?_writeAll_of_notMem {m : SortedMap K V} {es : List (K × V)} {k : K}
    (h : ∀ e ∈ es, e.1 ≠ k) : (m.writeAll es).get? k = m.get? k := by
  induction es generalizing m with
  | nil => rfl
  | cons e es ih =>
    rw [writeAll, ih fun f hf => h f (List.mem_cons_of_mem _ hf), get?_insert,
      if_neg (Ne.symm (h e List.mem_cons_self))]

/-- What is written last stays. -/
theorem get?_writeAll_concat (m : SortedMap K V) (es : List (K × V)) (e : K × V) :
    (m.writeAll (es ++ [e])).get? e.1 = some e.2 := by
  rw [writeAll_append, writeAll, writeAll, get?_insert, if_pos rfl]

/-- A written key has the value of an entry. -/
theorem exists_of_get?_writeAll {m : SortedMap K V} {es : List (K × V)} {k : K}
    (h : ∃ e ∈ es, e.1 = k) : ∃ e ∈ es, e.1 = k ∧ (m.writeAll es).get? k = some e.2 := by
  induction es generalizing m with
  | nil => exact absurd h (by simp)
  | cons e es ih =>
    by_cases hrest : ∃ f ∈ es, f.1 = k
    · obtain ⟨f, hf, hk, hget⟩ := ih (m := m.insert e.1 e.2) hrest
      exact ⟨f, List.mem_cons_of_mem _ hf, hk, hget⟩
    · -- nothing later has the key, so it is this entry's
      obtain ⟨f, hf, rfl⟩ := h
      have hlast : ∀ g ∈ es, g.1 ≠ f.1 := fun g hg heq => hrest ⟨g, hg, heq⟩
      rcases List.mem_cons.mp hf with rfl | hf
      · refine ⟨f, List.mem_cons_self, rfl, ?_⟩
        rw [writeAll, get?_writeAll_of_notMem hlast, get?_insert, if_pos rfl]
      · exact absurd rfl (hlast f hf)

/-- **Entries that agree can be read back.** -/
theorem get?_writeAll_of_mem {m : SortedMap K V} {es : List (K × V)} (h : Agreeing es)
    {e : K × V} (he : e ∈ es) : (m.writeAll es).get? e.1 = some e.2 := by
  obtain ⟨f, hf, hk, hget⟩ := exists_of_get?_writeAll (m := m) ⟨e, he, rfl⟩
  rw [hget, h f hf e he hk]

theorem writeAll_perm {m : SortedMap K V} {es fs : List (K × V)} (h : Agreeing es)
    (hperm : fs.Perm es) : m.writeAll fs = m.writeAll es := by
  refine ext_get? fun k => ?_
  by_cases hmem : ∃ e ∈ es, e.1 = k
  · obtain ⟨e, he, rfl⟩ := hmem
    rw [get?_writeAll_of_mem h he, get?_writeAll_of_mem (h.perm hperm) (hperm.mem_iff.mpr he)]
  · have hnot : ∀ e ∈ es, e.1 ≠ k := fun e he heq => hmem ⟨e, he, heq⟩
    rw [get?_writeAll_of_notMem hnot,
      get?_writeAll_of_notMem fun e he => hnot e (hperm.mem_iff.mp he)]

/-- **The order of the entries does not matter exactly when they agree.** -/
theorem writeAll_perm_iff {α : Type} {m : SortedMap K V} {entry : α → K × V} {es : List α} :
    (∀ fs gs : List α, fs.Perm es → gs.Perm es →
      m.writeAll (fs.map entry) = m.writeAll (gs.map entry)) ↔ Agreeing (es.map entry) := by
  constructor
  · intro h e he f hf hk
    obtain ⟨a, ha, rfl⟩ := List.mem_map.mp he
    obtain ⟨b, hb, rfl⟩ := List.mem_map.mp hf
    -- either entry may be the one that stays
    obtain ⟨front, hfront⟩ := exists_perm_concat ha
    obtain ⟨front', hfront'⟩ := exists_perm_concat hb
    have hlast := get?_writeAll_concat m (front.map entry) (entry a)
    rw [← List.map_singleton, ← List.map_append, h _ _ hfront hfront', hk, List.map_append,
      List.map_singleton, get?_writeAll_concat] at hlast
    exact (Option.some.inj hlast).symm
  · intro h fs gs hfs hgs
    rw [writeAll_perm h (hfs.map entry), writeAll_perm h (hgs.map entry)]

end SortedMap
