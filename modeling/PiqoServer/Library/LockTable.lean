import PiqoServer.Library.SortedMap
import Mathlib.Data.List.Count

/-!
# A table of counted locks with eviction

Users of a key share a lock, which a table holds by reference count. A user clones the reference
under the table's own mutex, creating the lock when there is none; it waits for the lock, holds
it, gives it up, and then looks at the table again: when the table and itself are the only owners
of the reference, it evicts the entry. A user may be cancelled at any point, which drops what it
holds.

Locks are numbered as they are created. The count of a lock is kept as a number and changed by
clones and drops alone; that it counts the owners is proved, not assumed.

## Main definitions

* `LockStage`: how far a user has come
* `LockTable`: entries, counts, locks and users
* `LockTable.step`, `LockTable.run`: what the scheduler may do with a user

## Main results

* `LockTable.Counted.step`: the count of a lock in the table is one more than its users
* `LockTable.Counted.inside_unique`: a key has at most one user inside its critical section
* `LockTable.Counted.current`: whoever waits for a lock or holds it refers to the one in the table
-/

/-- How far a user of the table has come. -/
inductive LockStage where
  | idle
  /-- With a reference, waiting for the lock. -/
  | waiting (lock : Nat)
  /-- With a reference and the lock. -/
  | inside (lock : Nat)
  /-- With a reference, before looking at the table again. -/
  | leaving (lock : Nat)
  /-- With a reference, about to drop it. -/
  | left (lock : Nat)
  | gone
  deriving DecidableEq, Repr

namespace LockStage

/-- The reference a user owns. -/
def owned : LockStage → Option Nat
  | waiting l | inside l | leaving l | left l => some l
  | idle | gone => none

/-- The lock a user waits for, holds, or has just given up. -/
def needed : LockStage → Option Nat
  | waiting l | inside l | leaving l => some l
  | idle | left _ | gone => none

/-- The lock a user holds. -/
def held : LockStage → Option Nat
  | inside l => some l
  | _ => none

theorem owned_of_needed {s : LockStage} {l : Nat} (h : s.needed = some l) : s.owned = some l := by
  cases s <;> simp_all [needed, owned]

theorem needed_of_held {s : LockStage} {l : Nat} (h : s.held = some l) : s.needed = some l := by
  cases s <;> simp_all [needed, held]

end LockStage

/-- The table with its locks and users. -/
structure LockTable (K : Type) [LinearOrder K] where
  entries : SortedMap K Nat
  /-- The strong count of each lock. -/
  strong : Nat → Nat
  /-- The locks that are taken. -/
  locked : Nat → Bool
  /-- The number of the next lock. -/
  fresh : Nat
  users : List (K × LockStage)

/-- What the scheduler may do with a user. -/
inductive LockAction where
  /-- Clone the reference out of the table, creating the lock when there is none. -/
  | fetch (i : Nat)
  /-- Take the lock, when it is free. -/
  | acquire (i : Nat)
  /-- Give the lock up. -/
  | unlock (i : Nat)
  /-- Look at the table again, and evict the entry when nobody else owns its reference. -/
  | release (i : Nat)
  /-- Drop the reference. -/
  | finish (i : Nat)
  /-- Drop the user with what it holds. -/
  | cancel (i : Nat)

namespace LockTable

variable {K : Type} [LinearOrder K]

/-- A table without entries, before its users do anything. -/
def start (keys : List K) : LockTable K where
  entries := ∅
  strong _ := 0
  locked _ := false
  fresh := 0
  users := keys.map fun k => (k, .idle)

/-- Set the stage of user `i`. -/
def setStage (t : LockTable K) (i : Nat) (k : K) (s : LockStage) : LockTable K :=
  { t with users := t.users.set i (k, s) }

/-- One more owner of a lock. -/
def clone (t : LockTable K) (l : Nat) : LockTable K :=
  { t with strong := Function.update t.strong l (t.strong l + 1) }

/-- One owner of a lock less. -/
def dropRef (t : LockTable K) (l : Nat) : LockTable K :=
  { t with strong := Function.update t.strong l (t.strong l - 1) }

/-- Create a lock under a key, owned by the table. -/
def create (t : LockTable K) (k : K) : LockTable K :=
  { t with
    entries := t.entries.insert k t.fresh
    strong := Function.update t.strong t.fresh 1
    locked := Function.update t.locked t.fresh false
    fresh := t.fresh + 1 }

def setLocked (t : LockTable K) (l : Nat) (b : Bool) : LockTable K :=
  { t with locked := Function.update t.locked l b }

/-- Evict the entry of a key, whose reference the table then drops. -/
def evict (t : LockTable K) (k : K) (l : Nat) : LockTable K :=
  { t with entries := t.entries.erase k }.dropRef l

def step (t : LockTable K) : LockAction → LockTable K
  | .fetch i => match t.users[i]? with
    | some (k, .idle) => match t.entries.get? k with
      | some l => (t.clone l).setStage i k (.waiting l)
      | none => ((t.create k).clone t.fresh).setStage i k (.waiting t.fresh)
    | _ => t
  | .acquire i => match t.users[i]? with
    | some (k, .waiting l) =>
      if t.locked l then t else (t.setLocked l true).setStage i k (.inside l)
    | _ => t
  | .unlock i => match t.users[i]? with
    | some (k, .inside l) => (t.setLocked l false).setStage i k (.leaving l)
    | _ => t
  | .release i => match t.users[i]? with
    | some (k, .leaving l) =>
      if t.strong l = 2 ∧ t.entries.get? k = some l then (t.evict k l).setStage i k (.left l)
      else t.setStage i k (.left l)
    | _ => t
  | .finish i => match t.users[i]? with
    | some (k, .left l) => (t.dropRef l).setStage i k .gone
    | _ => t
  | .cancel i => match t.users[i]? with
    | some (k, .inside l) => ((t.setLocked l false).dropRef l).setStage i k .gone
    | some (k, .waiting l) | some (k, .leaving l) | some (k, .left l) =>
      (t.dropRef l).setStage i k .gone
    | some (k, .idle) => t.setStage i k .gone
    | some (_, .gone) | none => t

def run (t : LockTable K) (actions : List LockAction) : LockTable K := actions.foldl step t

/-! ## Counting -/

theorem countP_set_add {α : Type} (p : α → Bool) {xs : List α} {i : Nat} {x y : α}
    (h : xs[i]? = some x) :
    (xs.set i y).countP p + (p x).toNat = xs.countP p + (p y).toNat := by
  induction xs generalizing i with
  | nil => simp at h
  | cons z zs ih =>
    cases i with
    | zero =>
      cases h
      simp only [List.set_cons_zero, List.countP_cons]
      cases p x <;> cases p y <;> simp
    | succ i =>
      have hrest := ih h
      simp only [List.set_cons_succ, List.countP_cons]
      omega

/-- Two positions of a list in which at most one element satisfies `p`. -/
theorem eq_of_countP_le_one {α : Type} {p : α → Bool} {xs : List α} (h : xs.countP p ≤ 1)
    {i j : Nat} {x y z : α} (hi : xs[i]? = some x) (hj : xs[j]? = some y) (hx : p x = true)
    (hy : p y = true) (hz : p z = false) : i = j := by
  by_contra hne
  -- without the element at `i` none is left, but the one at `j` is
  have hcount := countP_set_add p (y := z) hi
  rw [hx, hz, Bool.toNat_true, Bool.toNat_false] at hcount
  have hmem : y ∈ xs.set i z := by
    refine List.mem_of_getElem? (i := j) ?_
    rw [List.getElem?_set_ne hne]
    exact hj
  have hpos := List.countP_pos_iff.mpr ⟨y, hmem, hy⟩
  omega

/-- The users that own a reference to a lock. -/
def owners (t : LockTable K) (l : Nat) : Nat := t.users.countP fun u => u.2.owned = some l

/-- The users that hold a lock. -/
def holders (t : LockTable K) (l : Nat) : Nat := t.users.countP fun u => u.2.held = some l

/-- The counts are right for every lock in the table. -/
structure Counted (t : LockTable K) : Prop where
  /-- The table owns each of its locks, next to the users of the lock. -/
  strong : ∀ {k l}, t.entries.get? k = some l → t.strong l = t.owners l + 1
  /-- A lock stands under one key. -/
  distinct : ∀ {k k' l}, t.entries.get? k = some l → t.entries.get? k' = some l → k = k'
  /-- Whoever needs a lock needs the one in the table. -/
  needed : ∀ {k s l}, (k, s) ∈ t.users → s.needed = some l → t.entries.get? k = some l
  /-- A lock is taken when someone holds it. -/
  taken : ∀ l, t.holders l = (t.locked l).toNat
  entryOld : ∀ {k l}, t.entries.get? k = some l → l < t.fresh
  ownedOld : ∀ {k s l}, (k, s) ∈ t.users → s.owned = some l → l < t.fresh

theorem Counted.start (keys : List K) : (start keys).Counted where
  strong h := by simp [LockTable.start] at h
  distinct h := by simp [LockTable.start] at h
  needed hu hneeded := by
    obtain ⟨k, -, heq⟩ := List.mem_map.mp hu
    cases heq
    cases hneeded
  taken l := by
    refine List.countP_eq_zero.mpr ?_
    intro u hu
    obtain ⟨k, -, rfl⟩ := List.mem_map.mp hu
    simp [LockStage.held]
  entryOld h := by simp [LockTable.start] at h
  ownedOld hu howned := by
    obtain ⟨k, -, heq⟩ := List.mem_map.mp hu
    cases heq
    cases howned

section Steps

variable {t : LockTable K} {i : Nat} {k : K} {s : LockStage} {l : Nat}

theorem owners_set (hu : t.users[i]? = some (k, s)) (s' : LockStage) (l : Nat) :
    (t.users.set i (k, s')).countP (fun u => u.2.owned = some l) +
        (decide (s.owned = some l)).toNat =
      t.owners l + (decide (s'.owned = some l)).toNat :=
  countP_set_add _ hu

theorem holders_set (hu : t.users[i]? = some (k, s)) (s' : LockStage) (l : Nat) :
    (t.users.set i (k, s')).countP (fun u => u.2.held = some l) +
        (decide (s.held = some l)).toNat =
      t.holders l + (decide (s'.held = some l)).toNat :=
  countP_set_add _ hu

/-- A user that moves on with the reference it owns. -/
theorem Counted.restage (h : t.Counted) (hu : t.users[i]? = some (k, s)) (s' : LockStage)
    (howned : s'.owned = s.owned) (hneeded : ∀ l, s'.needed = some l → s.needed = some l)
    {locked : Nat → Bool}
    (htaken : ∀ l, (t.locked l).toNat + (decide (s'.held = some l)).toNat =
      (locked l).toNat + (decide (s.held = some l)).toNat) :
    Counted { t with locked, users := t.users.set i (k, s') } where
  strong := by
    intro k' l' hget
    have hcount := owners_set hu s' l'
    have hstrong := h.strong hget
    rw [howned] at hcount
    rw [owners]
    dsimp only
    omega
  distinct := h.distinct
  needed hmem hneed := by
    rcases List.mem_or_eq_of_mem_set hmem with hmem | heq
    · exact h.needed hmem hneed
    · cases heq
      exact h.needed (List.mem_of_getElem? hu) (hneeded _ hneed)
  taken l := by
    have hcount := holders_set hu s' l
    have hlocked := h.taken l
    have hafter := htaken l
    rw [holders]
    dsimp only
    omega
  entryOld := h.entryOld
  ownedOld hmem hown := by
    rcases List.mem_or_eq_of_mem_set hmem with hmem | heq
    · exact h.ownedOld hmem hown
    · cases heq
      exact h.ownedOld (List.mem_of_getElem? hu) (howned ▸ hown)

/-- A user that drops its reference, and the lock if it holds it. -/
theorem Counted.drop (h : t.Counted) (hu : t.users[i]? = some (k, s)) (howned : s.owned = some l)
    {locked : Nat → Bool}
    (htaken : ∀ l, (t.locked l).toNat = (locked l).toNat + (decide (s.held = some l)).toNat) :
    Counted { t with
      locked, strong := Function.update t.strong l (t.strong l - 1)
      users := t.users.set i (k, .gone) } where
  strong := by
    intro k' l' hget
    have hcount : _ = t.owners l' + 0 := owners_set hu .gone l'
    have hstrong := h.strong hget
    rw [owners]
    dsimp only
    by_cases hl : l' = l
    · subst hl
      rw [howned, decide_eq_true rfl, Bool.toNat_true] at hcount
      rw [Function.update_self]
      omega
    · have hne : s.owned ≠ some l' := by
        rw [howned]
        simpa using Ne.symm hl
      rw [decide_eq_false hne, Bool.toNat_false] at hcount
      rw [Function.update_of_ne hl]
      omega
  distinct := h.distinct
  needed hmem hneed := by
    rcases List.mem_or_eq_of_mem_set hmem with hmem | heq
    · exact h.needed hmem hneed
    · cases heq
      cases hneed
  taken l' := by
    have hcount : _ = t.holders l' + 0 := holders_set hu .gone l'
    have hlocked := h.taken l'
    have hafter := htaken l'
    rw [holders]
    dsimp only
    omega
  entryOld := h.entryOld
  ownedOld hmem hown := by
    rcases List.mem_or_eq_of_mem_set hmem with hmem | heq
    · exact h.ownedOld hmem hown
    · cases heq
      cases hown

/-- A user that clones the reference of an entry. -/
theorem Counted.cloned (h : t.Counted) (hu : t.users[i]? = some (k, .idle))
    (hentry : t.entries.get? k = some l) :
    Counted ((t.clone l).setStage i k (.waiting l)) where
  strong := by
    intro k' l' hget
    have hcount : _ + 0 = t.owners l' + (decide (some l = some l')).toNat :=
      owners_set hu (.waiting l) l'
    have hstrong := h.strong hget
    rw [owners]
    simp only [clone, setStage]
    by_cases hl : l' = l
    · subst hl
      rw [decide_eq_true rfl, Bool.toNat_true] at hcount
      rw [Function.update_self]
      omega
    · have hne : some l ≠ some l' := by simpa using Ne.symm hl
      rw [decide_eq_false hne, Bool.toNat_false] at hcount
      rw [Function.update_of_ne hl]
      omega
  distinct := h.distinct
  needed hmem hneed := by
    rcases List.mem_or_eq_of_mem_set hmem with hmem | heq
    · exact h.needed hmem hneed
    · cases heq
      cases hneed
      exact hentry
  taken l' := by
    have hcount : _ + 0 = t.holders l' + 0 := holders_set hu (.waiting l) l'
    rw [holders]
    exact hcount.trans (h.taken l')
  entryOld := h.entryOld
  ownedOld hmem hown := by
    rcases List.mem_or_eq_of_mem_set hmem with hmem | heq
    · exact h.ownedOld hmem hown
    · cases heq
      cases hown
      exact h.entryOld hentry

/-- A new lock is nobody's yet. -/
theorem Counted.create (h : t.Counted) (hentry : t.entries.get? k = none) :
    (t.create k).Counted where
  strong := by
    intro k' l' hget
    simp only [LockTable.create, SortedMap.get?_insert] at hget
    simp only [LockTable.create, owners]
    split at hget
    · cases hget
      rw [Function.update_self]
      have hnone : t.users.countP (fun u => u.2.owned = some t.fresh) = 0 := by
        refine List.countP_eq_zero.mpr ?_
        rintro ⟨key, stage⟩ hmem howned
        have hlt := h.ownedOld hmem (of_decide_eq_true howned)
        exact Nat.lt_irrefl _ hlt
      rw [hnone]
    · have hlt := h.entryOld hget
      rw [Function.update_of_ne (by omega)]
      exact h.strong hget
  distinct := by
    intro k₁ k₂ l' h₁ h₂
    simp only [LockTable.create, SortedMap.get?_insert] at h₁ h₂
    split at h₁
    · split at h₂
      · simp_all
      · cases h₁
        have hlt := h.entryOld h₂
        exact absurd hlt (Nat.lt_irrefl _)
    · split at h₂
      · cases h₂
        have hlt := h.entryOld h₁
        exact absurd hlt (Nat.lt_irrefl _)
      · exact h.distinct h₁ h₂
  needed := by
    intro k' s' l' hmem hneed
    have hget := h.needed hmem hneed
    simp only [LockTable.create, SortedMap.get?_insert]
    split
    · next heq =>
      rw [heq, hentry] at hget
      cases hget
    · exact hget
  taken l' := by
    have hlocked := h.taken l'
    simp only [LockTable.create, holders]
    by_cases hl : l' = t.fresh
    · subst hl
      rw [Function.update_self]
      refine List.countP_eq_zero.mpr ?_
      rintro ⟨key, stage⟩ hmem hheld
      have hneed := LockStage.needed_of_held (of_decide_eq_true hheld)
      have hlt := h.ownedOld hmem (LockStage.owned_of_needed hneed)
      exact Nat.lt_irrefl _ hlt
    · rw [Function.update_of_ne hl]
      exact hlocked
  entryOld := by
    intro k' l' hget
    simp only [LockTable.create, SortedMap.get?_insert] at hget ⊢
    split at hget
    · cases hget
      exact Nat.lt_succ_self _
    · exact Nat.lt_succ_of_lt (h.entryOld hget)
  ownedOld hmem hown := Nat.lt_succ_of_lt (h.ownedOld hmem hown)

/-- Eviction by a user that has given the lock up and shares its reference with the table only:
nobody needs the lock any more. -/
theorem Counted.evict (h : t.Counted) (hu : t.users[i]? = some (k, .leaving l))
    (htwo : t.strong l = 2) (hentry : t.entries.get? k = some l) :
    Counted ((t.evict k l).setStage i k (.left l)) where
  strong := by
    intro k' l' hget
    simp only [LockTable.evict, dropRef, setStage, SortedMap.get?_erase] at hget
    split at hget
    · cases hget
    · next hne =>
      have hl : l' ≠ l := by
        rintro rfl
        exact hne (h.distinct hget hentry)
      have hcount : _ + (decide (some l = some l')).toNat =
          t.owners l' + (decide (some l = some l')).toNat := owners_set hu (.left l) l'
      simp only [LockTable.evict, dropRef, setStage, owners]
      rw [Function.update_of_ne hl, h.strong hget]
      omega
  distinct := by
    intro k₁ k₂ l' h₁ h₂
    simp only [LockTable.evict, dropRef, setStage, SortedMap.get?_erase] at h₁ h₂
    split at h₁
    · cases h₁
    · split at h₂
      · cases h₂
      · exact h.distinct h₁ h₂
  needed := by
    intro k' s' l' hmem hneed
    -- the evicting user was the only one to need the lock
    have hcount : _ + (decide (some l = some l)).toNat = _ + 0 :=
      countP_set_add (fun u => decide (u.2.needed = some l)) (y := (k, .left l)) hu
    rw [decide_eq_true rfl, Bool.toNat_true] at hcount
    have howners : t.owners l = 1 := by
      have hstrong := h.strong hentry
      omega
    have hle : t.users.countP (fun u => decide (u.2.needed = some l)) ≤ t.owners l := by
      refine List.countP_mono_left ?_
      intro u _ hneeded
      exact decide_eq_true (LockStage.owned_of_needed (of_decide_eq_true hneeded))
    have hzero : (t.users.set i (k, LockStage.left l)).countP
        (fun u => decide (u.2.needed = some l)) = 0 := by omega
    have hnone := List.countP_eq_zero.mp hzero _ hmem
    have hold : t.entries.get? k' = some l' := by
      rcases List.mem_or_eq_of_mem_set hmem with hmem | heq
      · exact h.needed hmem hneed
      · cases heq
        cases hneed
    simp only [LockTable.evict, dropRef, setStage, SortedMap.get?_erase]
    split
    · next heq =>
      rw [heq, hentry] at hold
      cases hold
      exact absurd (decide_eq_true hneed) hnone
    · exact hold
  taken l' := by
    have hcount : _ + 0 = t.holders l' + 0 := holders_set hu (.left l) l'
    rw [holders]
    exact hcount.trans (h.taken l')
  entryOld := by
    intro k' l' hget
    simp only [LockTable.evict, dropRef, setStage, SortedMap.get?_erase] at hget ⊢
    split at hget
    · cases hget
    · exact h.entryOld hget
  ownedOld hmem hown := by
    rcases List.mem_or_eq_of_mem_set hmem with hmem | heq
    · exact h.ownedOld hmem hown
    · cases heq
      exact h.ownedOld (List.mem_of_getElem? hu) hown

/-- Taking or giving up a lock changes that lock alone. -/
theorem toNat_update (locked : Nat → Bool) (l l' : Nat) (b : Bool) :
    (Function.update locked l b l').toNat + (decide (some l = some l')).toNat * (locked l).toNat =
      (locked l').toNat + (decide (some l = some l')).toNat * b.toNat := by
  by_cases hl : l' = l
  · subst hl
    rw [Function.update_self, decide_eq_true rfl, Bool.toNat_true]
    omega
  · have hne : some l ≠ some l' := by simpa using Ne.symm hl
    rw [Function.update_of_ne hl, decide_eq_false hne, Bool.toNat_false]
    omega

/-- The lock that a user holds is taken. -/
theorem Counted.locked_of_held (h : t.Counted) (hu : t.users[i]? = some (k, s))
    (hheld : s.held = some l) : t.locked l = true := by
  have hpos : 0 < t.holders l :=
    List.countP_pos_iff.mpr ⟨(k, s), List.mem_of_getElem? hu, decide_eq_true hheld⟩
  rw [h.taken l] at hpos
  cases hlocked : t.locked l with
  | true => rfl
  | false =>
    rw [hlocked] at hpos
    cases hpos

end Steps

variable {t : LockTable K}

/-- Whatever the scheduler does, the counts stay right. -/
theorem Counted.step (h : t.Counted) (a : LockAction) : (t.step a).Counted := by
  cases a with
  | fetch i =>
    simp only [LockTable.step]
    split
    · next k hu =>
      split
      · next l hentry => exact h.cloned hu hentry
      · next hentry =>
        have hcreated : (t.create k).entries.get? k = some t.fresh := SortedMap.get?_insert_self ..
        exact (h.create hentry).cloned hu hcreated
    · exact h
  | acquire i =>
    simp only [LockTable.step]
    split
    · next k l hu =>
      split
      · exact h
      · next hfree =>
        refine h.restage hu (.inside l) rfl (fun _ hneed => hneed) ?_
        intro l'
        have hupdate := toNat_update t.locked l l' true
        rw [Bool.not_eq_true] at hfree
        rw [hfree, Bool.toNat_false, Bool.toNat_true] at hupdate
        change _ + (decide (some l = some l')).toNat =
          (Function.update t.locked l true l').toNat + 0
        omega
    · exact h
  | unlock i =>
    simp only [LockTable.step]
    split
    · next k l hu =>
      refine h.restage hu (.leaving l) rfl (fun _ hneed => hneed) ?_
      intro l'
      have hupdate := toNat_update t.locked l l' false
      rw [h.locked_of_held hu rfl, Bool.toNat_false, Bool.toNat_true] at hupdate
      change _ + 0 =
        (Function.update t.locked l false l').toNat + (decide (some l = some l')).toNat
      omega
    · exact h
  | release i =>
    simp only [LockTable.step]
    split
    · next k l hu =>
      split
      · next hevict => exact h.evict hu hevict.1 hevict.2
      · exact h.restage hu (.left l) rfl (fun _ hneed => nomatch hneed) fun _ => rfl
    · exact h
  | finish i =>
    simp only [LockTable.step]
    split
    · next k l hu => exact h.drop hu rfl fun _ => rfl
    · exact h
  | cancel i =>
    simp only [LockTable.step]
    split
    · next k l hu =>
      refine h.drop hu rfl ?_
      intro l'
      have hupdate := toNat_update t.locked l l' false
      rw [h.locked_of_held hu rfl, Bool.toNat_false, Bool.toNat_true] at hupdate
      change _ = (Function.update t.locked l false l').toNat + (decide (some l = some l')).toNat
      omega
    · next k l hu => exact h.drop hu rfl fun _ => rfl
    · next k l hu => exact h.drop hu rfl fun _ => rfl
    · next k l hu => exact h.drop hu rfl fun _ => rfl
    · next k hu => exact h.restage hu .gone rfl (fun _ hneed => nomatch hneed) fun _ => rfl
    · exact h
    · exact h

theorem Counted.run (h : t.Counted) (actions : List LockAction) : (t.run actions).Counted := by
  induction actions generalizing t with
  | nil => exact h
  | cons a actions ih => exact ih (h.step a)

/-- Whoever waits for a lock or holds it refers to the one in the table. -/
theorem Counted.current (h : t.Counted) {i : Nat} {k : K} {s : LockStage} {l : Nat}
    (hu : t.users[i]? = some (k, s)) (hneed : s.needed = some l) : t.entries.get? k = some l :=
  h.needed (List.mem_of_getElem? hu) hneed

/-- A key has at most one user inside its critical section. -/
theorem Counted.inside_unique (h : t.Counted) {i j : Nat} {k : K} {l l' : Nat}
    (hi : t.users[i]? = some (k, .inside l)) (hj : t.users[j]? = some (k, .inside l')) : i = j := by
  have hsame : l' = l := by
    have hl := h.current hi rfl
    rw [h.current hj rfl] at hl
    exact Option.some.inj hl
  subst hsame
  have hone : t.holders l' ≤ 1 := by
    rw [h.taken l']
    exact Bool.toNat_le _
  exact eq_of_countP_le_one hone (z := (k, .gone)) hi hj (decide_eq_true rfl) (decide_eq_true rfl)
    (decide_eq_false nofun)

omit [LinearOrder K] in
theorem keys_set {users : List (K × LockStage)} {i : Nat} {k : K} {s : LockStage}
    (hu : users[i]? = some (k, s)) (s' : LockStage) :
    (users.set i (k, s')).map Prod.fst = users.map Prod.fst := by
  refine List.ext_getElem? ?_
  intro j
  rw [List.getElem?_map, List.getElem?_map, List.getElem?_set]
  split
  · next hij =>
    subst hij
    rw [hu]
    split
    · rfl
    · next hlength => exact absurd (List.getElem?_eq_some_iff.mp hu).1 hlength
  · rfl

/-- A user keeps its key. -/
theorem step_keys (t : LockTable K) (a : LockAction) :
    (t.step a).users.map Prod.fst = t.users.map Prod.fst := by
  cases a with
  | fetch i =>
    simp only [LockTable.step]
    split
    · next hu => split <;> exact keys_set hu _
    · rfl
  | acquire i =>
    simp only [LockTable.step]
    split
    · next hu =>
      split
      · rfl
      · exact keys_set hu _
    · rfl
  | unlock i =>
    simp only [LockTable.step]
    split
    · next hu => exact keys_set hu _
    · rfl
  | release i =>
    simp only [LockTable.step]
    split
    · next hu => split <;> exact keys_set hu _
    · rfl
  | finish i =>
    simp only [LockTable.step]
    split
    · next hu => exact keys_set hu _
    · rfl
  | cancel i =>
    simp only [LockTable.step]
    split
    · next hu => exact keys_set hu _
    · next hu => exact keys_set hu _
    · next hu => exact keys_set hu _
    · next hu => exact keys_set hu _
    · next hu => exact keys_set hu _
    · rfl
    · rfl

theorem run_keys (t : LockTable K) (actions : List LockAction) :
    (t.run actions).users.map Prod.fst = t.users.map Prod.fst := by
  induction actions generalizing t with
  | nil => rfl
  | cons a actions ih => exact (ih (t.step a)).trans (step_keys t a)

end LockTable
