import PiqoServer.Library.Tasks

/-!
# Licences

Tasks that share a state do something under a key that must not be done twice. A task draws a token
that nobody has drawn before, claims the key with it, and acts once its claim is granted. A key that
is claimed stays with its token, and a claim with another token is refused. No lock is involved, and
a task that is not granted its claim learns nothing else.

A key may have to be permitted before it is claimed. What shows that it is permitted may be old when
the claim is made; a permission therefore has to last.

## Main definitions

* `Licensing`: the operations that draw, claim, show and act, and what the state says of the keys
* `Licensing.Stage`: what a task has been shown, has drawn and has been granted
* `Licensing.Lawful`: what the operations respect
* `Licensing.Record`, `Licensing.handle`: the state, with a record of the acts
* `Licensing.Proper`: what holds of the record

## Main results

* `Licensing.Proper.step`: every operation keeps the record proper
* `Licensing.Governed.along`: tasks that act under licences do so over every schedule
* `Licensing.Governed.once`: nothing is done twice under a key, nor under a key that was claimed
  before
-/

variable {S : Signature} {ε α σ K T A : Type}

/-- Operations that draw tokens, claim keys, show that keys are permitted, and act. -/
structure Licensing (S : Signature) (σ K T A : Type) where
  /-- The operations a task may call at all. -/
  admits : S.Op → Prop
  draws : (op : S.Op) → S.Reply op → Option T
  claims : S.Op → Option (K × T)
  granted : (op : S.Op) → S.Reply op → Bool
  shows : (op : S.Op) → S.Reply op → K → Prop
  /-- What a task does with an operation. -/
  acts : Nat → S.Op → Option A
  /-- What is done under a key. -/
  act : K → A
  /-- The token with which a key is claimed. -/
  holder : σ → K → Option T
  permits : σ → K → Prop
  /-- The token cannot be drawn any more. -/
  spent : σ → T → Prop

namespace Licensing

/-- What a task has been shown, the token it has drawn and not used, and the key under which it may
act. -/
structure Stage (K T : Type) where
  seen : K → Prop
  token : Option T
  licence : Option K

/-- A task that has done nothing yet. -/
def Stage.start : Stage K T := ⟨fun _ => False, none, none⟩

/-- A state, the stages of the tasks, and what was done. -/
structure Record (σ K T A : Type) where
  state : σ
  stages : Nat → Stage K T
  acted : List A

variable (L : Licensing S σ K T A)

/-- A claim is made with a token of the task's own, for a key that was shown to be permitted. What
is done is done under a licence. -/
structure Allows (i : Nat) (a : Stage K T) (op : S.Op) : Prop where
  admits : L.admits op
  claims : ∀ k t, L.claims op = some (k, t) → a.token = some t ∧ a.seen k
  acts : ∀ x, L.acts i op = some x → ∃ k, a.licence = some k ∧ L.act k = x

/-- A token serves for one claim, and a licence for one act. -/
def next (i : Nat) (a : Stage K T) (op : S.Op) (r : S.Reply op) : Stage K T where
  seen k := a.seen k ∨ L.shows op r k
  token := match L.claims op with
    | some _ => none
    | none => (L.draws op r).or a.token
  licence := match L.claims op with
    | some (k, _) => if L.granted op r then some k else none
    | none => if (L.acts i op).isSome then none else a.licence

/-- The record after an operation of task `i`. -/
def Record.after (m : Record σ K T A) (i : Nat) (op : S.Op) (r : S.Reply op) (s : σ) :
    Record σ K T A where
  state := s
  stages := Function.update m.stages i (L.next i (m.stages i) op r)
  acted := m.acted ++ (L.acts i op).toList

/-- The operations, with the record. -/
def handle (h : TaskHandler S σ) : TaskHandler S (Record σ K T A) := fun i op m =>
  (h i op m.state).map fun (r, s) => (r, m.after L i op r s)

theorem handle_eq_some {h : TaskHandler S σ} {i : Nat} {op : S.Op} {m m' : Record σ K T A}
    {r : S.Reply op} (hr : L.handle h i op m = some (r, m')) :
    ∃ s, h i op m.state = some (r, s) ∧ m' = m.after L i op r s := by
  obtain ⟨⟨r', s⟩, hr', heq⟩ := Option.map_eq_some_iff.mp hr
  cases heq
  exact ⟨s, hr', rfl⟩

/-- What the operations respect. -/
structure Lawful (h : TaskHandler S σ) (inv : σ → Prop) : Prop where
  injective : Function.Injective L.act
  /-- No operation claims and acts. -/
  apart : ∀ {i op c}, L.claims op = some c → L.acts i op = none
  kept : ∀ {i op s r s'}, inv s → h i op s = some (r, s') → inv s'
  drawn : ∀ {i op s r s' t}, inv s → h i op s = some (r, s') → L.draws op r = some t →
    ¬ L.spent s t ∧ L.spent s' t
  spent : ∀ {i op s r s' t}, inv s → h i op s = some (r, s') → L.spent s t → L.spent s' t
  held : ∀ {i op s r s' k t}, inv s → h i op s = some (r, s') → L.holder s k = some t →
    L.holder s' k = some t
  /-- A token that comes to be held was held, or is claimed with. -/
  newly : ∀ {i op s r s' k t}, inv s → h i op s = some (r, s') → L.admits op →
    L.holder s' k = some t → (∃ k', L.holder s k' = some t) ∨ L.claims op = some (k, t)
  granted : ∀ {i op s r s' k t}, inv s → h i op s = some (r, s') → L.claims op = some (k, t) →
    L.granted op r = true →
      (L.holder s k = none ∨ L.holder s k = some t) ∧ L.holder s' k = some t
  shown : ∀ {i op s r s' k}, inv s → h i op s = some (r, s') → L.shows op r k → L.permits s' k
  permitted : ∀ {i op s r s' k}, inv s → h i op s = some (r, s') → L.permits s k → L.permits s' k

/-- The key is claimed and permitted, and was not claimed in the beginning. -/
def Claimed (old : K → Prop) (s : σ) (k : K) : Prop :=
  ¬ old k ∧ (L.holder s k).isSome = true ∧ L.permits s k

/-- What holds of the record; the `old` keys were claimed in the beginning. -/
structure Proper (old : K → Prop) (m : Record σ K T A) : Prop where
  seen : ∀ {i k}, (m.stages i).seen k → L.permits m.state k
  token : ∀ {i t}, (m.stages i).token = some t →
    L.spent m.state t ∧ ∀ k, L.holder m.state k ≠ some t
  tokens : ∀ {i j t}, (m.stages i).token = some t → (m.stages j).token = some t → i = j
  holders : ∀ {k t}, L.holder m.state k = some t → L.spent m.state t
  licence : ∀ {i k}, (m.stages i).licence = some k →
    L.Claimed old m.state k ∧ L.act k ∉ m.acted
  licences : ∀ {i j k}, (m.stages i).licence = some k → (m.stages j).licence = some k → i = j
  acted : ∀ {x}, x ∈ m.acted → ∃ k, L.act k = x ∧ L.Claimed old m.state k
  nodup : m.acted.Nodup
  old : ∀ {k}, old k → (L.holder m.state k).isSome = true

variable {L} {h : TaskHandler S σ} {inv : σ → Prop} {old : K → Prop}

section Step

variable {m : Record σ K T A} {i : Nat} {op : S.Op} {r : S.Reply op} {s : σ}

theorem Lawful.claimed (hL : L.Lawful h inv) (hm : inv m.state) (hr : h i op m.state = some (r, s))
    {k : K} (hk : L.Claimed old m.state k) : L.Claimed old s k := by
  obtain ⟨hold, hheld, hpermits⟩ := hk
  obtain ⟨t, ht⟩ := Option.isSome_iff_exists.mp hheld
  exact ⟨hold, by rw [hL.held hm hr ht]; rfl, hL.permitted hm hr hpermits⟩

/-- The token of a claim is held by no key, nor is the key by another token. -/
theorem Proper.unclaimed (hp : L.Proper old m) (hL : L.Lawful h inv) (hm : inv m.state)
    (hr : h i op m.state = some (r, s)) (hop : L.Allows i (m.stages i) op) {k : K} {t : T}
    (hclaim : L.claims op = some (k, t)) (hgranted : L.granted op r = true) :
    L.holder m.state k = none := by
  obtain ⟨htoken, -⟩ := hop.claims k t hclaim
  rcases (hL.granted hm hr hclaim hgranted).1 with hnone | hsame
  · exact hnone
  · exact absurd hsame ((hp.token htoken).2 k)

/-- What an operation grants. -/
theorem Proper.grant (hp : L.Proper old m) (hL : L.Lawful h inv) (hm : inv m.state)
    (hr : h i op m.state = some (r, s)) (hop : L.Allows i (m.stages i) op) {k : K} {t : T}
    (hclaim : L.claims op = some (k, t)) (hgranted : L.granted op r = true) :
    L.Claimed old s k ∧ L.act k ∉ m.acted := by
  have hfree := hp.unclaimed hL hm hr hop hclaim hgranted
  obtain ⟨-, hseen⟩ := hop.claims k t hclaim
  refine ⟨⟨fun hold => ?_, ?_, ?_⟩, fun hmem => ?_⟩
  · have hheld := hp.old hold
    rw [hfree] at hheld
    cases hheld
  · rw [(hL.granted hm hr hclaim hgranted).2]
    rfl
  · exact hL.permitted hm hr (hp.seen hseen)
  · obtain ⟨k', hk', -, hheld, -⟩ := hp.acted hmem
    rw [hL.injective hk', hfree] at hheld
    cases hheld

/-- The licence of a task after its operation: it is the one from before, or it was granted now. -/
theorem licence_next {a : Stage K T} {k : K} (hk : (L.next i a op r).licence = some k) :
    (L.claims op = none ∧ L.acts i op = none ∧ a.licence = some k) ∨
      ∃ t, L.claims op = some (k, t) ∧ L.granted op r = true := by
  rw [next] at hk
  cases hclaim : L.claims op with
  | some c =>
    rw [hclaim] at hk
    obtain ⟨hgranted, heq⟩ := Option.ite_none_right_eq_some.mp hk
    cases heq
    exact .inr ⟨c.2, rfl, hgranted⟩
  | none =>
    rw [hclaim] at hk
    obtain ⟨hacts, hk⟩ := Option.ite_none_left_eq_some.mp hk
    exact .inl ⟨rfl, by simpa using hacts, hk⟩

/-- The token of a task after its operation: it is the one from before, or it was drawn now. -/
theorem token_next {a : Stage K T} {t : T} (ht : (L.next i a op r).token = some t) :
    L.claims op = none ∧ (L.draws op r = some t ∨ a.token = some t) := by
  rw [next] at ht
  cases hclaim : L.claims op with
  | some c =>
    rw [hclaim] at ht
    cases ht
  | none =>
    rw [hclaim] at ht
    refine ⟨rfl, ?_⟩
    cases hdraws : L.draws op r with
    | some t' => exact .inl (by simpa [hdraws] using ht)
    | none => exact .inr (by simpa [hdraws] using ht)

/-- A token that a task keeps, or another task has, is not claimed with. -/
theorem Proper.token_step (hp : L.Proper old m) (hL : L.Lawful h inv) (hm : inv m.state)
    (hr : h i op m.state = some (r, s)) (hop : L.Allows i (m.stages i) op) {j : Nat} {t : T}
    (ht : (m.stages j).token = some t) (hkeeps : j = i → L.claims op = none) :
    L.spent s t ∧ ∀ k, L.holder s k ≠ some t := by
  obtain ⟨hspent, hunheld⟩ := hp.token ht
  refine ⟨hL.spent hm hr hspent, fun k hk => ?_⟩
  rcases hL.newly hm hr hop.admits hk with ⟨k', hk'⟩ | hclaim
  · exact hunheld k' hk'
  · have hclaim' := hkeeps (hp.tokens ht (hop.claims k t hclaim).1)
    rw [hclaim] at hclaim'
    cases hclaim'

/-- A token that is drawn now. -/
theorem Proper.token_drawn (hp : L.Proper old m) (hL : L.Lawful h inv) (hm : inv m.state)
    (hr : h i op m.state = some (r, s)) (hop : L.Allows i (m.stages i) op) {t : T}
    (hdraws : L.draws op r = some t) (hclaim : L.claims op = none) : L.spent s t ∧ ∀ k, L.holder s k ≠ some t := by
  obtain ⟨hnew, hspent⟩ := hL.drawn hm hr hdraws
  refine ⟨hspent, fun k hk => ?_⟩
  rcases hL.newly hm hr hop.admits hk with ⟨k', hk'⟩ | hclaim'
  · exact hnew (hp.holders hk')
  · rw [hclaim] at hclaim'
    cases hclaim'

/-- What was done after an operation was done before, or is what the operation does. -/
theorem mem_acted_after {x : A} :
    x ∈ (m.after L i op r s).acted ↔ x ∈ m.acted ∨ L.acts i op = some x := by
  rw [Record.after, List.mem_append, Option.mem_toList]

/-- **Every operation keeps the record proper.** -/
theorem Proper.step (hp : L.Proper old m) (hL : L.Lawful h inv) (hm : inv m.state)
    (hr : h i op m.state = some (r, s)) (hop : L.Allows i (m.stages i) op) :
    L.Proper old (m.after L i op r s) := by
  have hself : (m.after L i op r s).stages i = L.next i (m.stages i) op r :=
    Function.update_self ..
  have hother : ∀ {j}, j ≠ i → (m.after L i op r s).stages j = m.stages j := fun hj =>
    Function.update_of_ne hj ..
  -- a licence of a task that does not act now stays unused
  have hunused : ∀ {j k}, (m.stages j).licence = some k → (j = i → L.acts i op = none) →
      L.act k ∉ (m.after L i op r s).acted := by
    intro j k hk hidle hmem
    rcases mem_acted_after.mp hmem with hmem | hx
    · exact (hp.licence hk).2 hmem
    · obtain ⟨k', hk', hact⟩ := hop.acts _ hx
      rw [hL.injective hact] at hk'
      rw [hidle (hp.licences hk hk')] at hx
      cases hx
  constructor
  case seen =>
    intro j k hk
    by_cases hj : j = i
    · subst hj
      rw [hself] at hk
      rcases hk with hk | hk
      · exact hL.permitted hm hr (hp.seen hk)
      · exact hL.shown hm hr hk
    · rw [hother hj] at hk
      exact hL.permitted hm hr (hp.seen hk)
  case token =>
    intro j t ht
    by_cases hj : j = i
    · subst hj
      rw [hself] at ht
      obtain ⟨hclaim, hdraws | ht⟩ := token_next ht
      · exact hp.token_drawn hL hm hr hop hdraws hclaim
      · exact hp.token_step hL hm hr hop ht fun _ => hclaim
    · rw [hother hj] at ht
      exact hp.token_step hL hm hr hop ht fun hji => absurd hji hj
  case tokens =>
    -- a token that is drawn now is no token of another task
    have hnew : ∀ {j t}, j ≠ i → (L.next i (m.stages i) op r).token = some t →
        (m.stages j).token ≠ some t := by
      intro j t hj ht ht'
      rcases (token_next ht).2 with hdraws | ht
      · exact (hL.drawn hm hr hdraws).1 (hp.token ht').1
      · exact hj (hp.tokens ht' ht)
    intro j j' t ht ht'
    by_cases hj : j = i
    · by_cases hj' : j' = i
      · exact hj.trans hj'.symm
      · subst hj
        rw [hself] at ht
        rw [hother hj'] at ht'
        exact absurd ht' (hnew hj' ht)
    · rw [hother hj] at ht
      by_cases hj' : j' = i
      · subst hj'
        rw [hself] at ht'
        exact absurd ht (hnew hj ht')
      · rw [hother hj'] at ht'
        exact hp.tokens ht ht'
  case holders =>
    intro k t hk
    rcases hL.newly hm hr hop.admits hk with ⟨k', hk'⟩ | hclaim
    · exact hL.spent hm hr (hp.holders hk')
    · exact hL.spent hm hr (hp.token (hop.claims k t hclaim).1).1
  case licence =>
    intro j k hk
    by_cases hj : j = i
    · subst hj
      rw [hself] at hk
      rcases licence_next hk with ⟨-, hidle, hk⟩ | ⟨t, hclaim, hgranted⟩
      · exact ⟨hL.claimed hm hr (hp.licence hk).1, hunused hk fun _ => hidle⟩
      · obtain ⟨hclaimed, hnew⟩ := hp.grant hL hm hr hop hclaim hgranted
        refine ⟨hclaimed, fun hmem => ?_⟩
        rcases mem_acted_after.mp hmem with hmem | hx
        · exact hnew hmem
        · rw [hL.apart hclaim] at hx
          cases hx
    · rw [hother hj] at hk
      exact ⟨hL.claimed hm hr (hp.licence hk).1, hunused hk fun hji => absurd hji hj⟩
  case licences =>
    -- a key that is claimed now is under no licence
    have hnew : ∀ {j k}, j ≠ i → (L.next i (m.stages i) op r).licence = some k →
        (m.stages j).licence ≠ some k := by
      intro j k hj hk hk'
      rcases licence_next hk with ⟨-, -, hk⟩ | ⟨t, hclaim, hgranted⟩
      · exact hj (hp.licences hk' hk)
      · have hheld := (hp.licence hk').1.2.1
        rw [hp.unclaimed hL hm hr hop hclaim hgranted] at hheld
        cases hheld
    intro j j' k hk hk'
    by_cases hj : j = i
    · by_cases hj' : j' = i
      · exact hj.trans hj'.symm
      · subst hj
        rw [hself] at hk
        rw [hother hj'] at hk'
        exact absurd hk' (hnew hj' hk)
    · rw [hother hj] at hk
      by_cases hj' : j' = i
      · subst hj'
        rw [hself] at hk'
        exact absurd hk (hnew hj hk')
      · rw [hother hj'] at hk'
        exact hp.licences hk hk'
  case acted =>
    intro x hmem
    rcases mem_acted_after.mp hmem with hmem | hx
    · obtain ⟨k, hact, hk⟩ := hp.acted hmem
      exact ⟨k, hact, hL.claimed hm hr hk⟩
    · obtain ⟨k, hk, hact⟩ := hop.acts x hx
      exact ⟨k, hact, hL.claimed hm hr (hp.licence hk).1⟩
  case nodup =>
    have hone : (L.acts i op).toList.Nodup := by cases L.acts i op <;> simp
    refine List.nodup_append.mpr ⟨hp.nodup, hone, ?_⟩
    rintro x hmem _ hx rfl
    obtain ⟨k, hk, rfl⟩ := hop.acts x (Option.mem_toList.mp hx)
    exact (hp.licence hk).2 hmem
  case old =>
    intro k hk
    obtain ⟨t, ht⟩ := Option.isSome_iff_exists.mp (hp.old hk)
    have hheld : L.holder s k = some t := hL.held hm hr ht
    change (L.holder s k).isSome = true
    rw [hheld]
    rfl

end Step

/-! ## Tasks -/

/-- A change of the state that no task makes, and that leaves the keys as they are. -/
structure Spares (L : Licensing S σ K T A) (inv : σ → Prop) (shift : σ → σ) : Prop where
  kept : ∀ {s}, inv s → inv (shift s)
  holder : ∀ {s} k, inv s → L.holder (shift s) k = L.holder s k
  permits : ∀ {s k}, inv s → L.permits s k → L.permits (shift s) k
  spent : ∀ {s t}, inv s → L.spent s t → L.spent (shift s) t

/-- A task takes a turn, or the state changes. -/
def move (L : Licensing S σ K T A) (h : TaskHandler S σ) (shift : σ → σ)
    (m : Tasks S ε α (Record σ K T A)) : Option Nat → Tasks S ε α (Record σ K T A)
  | some i => m.advance (L.handle h) i
  | none => { m with state := { m.state with state := shift m.state.state } }

/-- The record is proper, and every task acts under licences from its stage on. -/
structure Governed (L : Licensing S σ K T A) (inv : σ → Prop) (old : K → Prop)
    (m : Tasks S ε α (Record σ K T A)) : Prop where
  inv : inv m.state.state
  proper : L.Proper old m.state
  follows : ∀ {i} {p : Program S ε α}, m.programs[i]? = some p →
    p.Follows (L.Allows i) (L.next i) (fun _ _ => True) (m.state.stages i)

variable {m : Tasks S ε α (Record σ K T A)} {shift : σ → σ}

theorem Governed.advance (hL : L.Lawful h inv) (hm : L.Governed inv old m) (i : Nat) :
    L.Governed inv old (m.advance (L.handle h) i) := by
  rcases hp : m.programs[i]? with _ | p
  · rwa [Tasks.advance, hp]
  cases p with
  | ret x => rwa [Tasks.advance, hp]
  | fail e => rwa [Tasks.advance, hp]
  | call op k =>
    rcases hr : L.handle h i op m.state with _ | ⟨r, m'⟩
    · rw [Tasks.advance, hp]
      dsimp only
      rwa [hr]
    obtain ⟨s, hr', rfl⟩ := L.handle_eq_some hr
    obtain ⟨hop, hrest⟩ := hm.follows hp
    rw [Tasks.advance_performed hp hr]
    refine ⟨hL.kept hm.inv hr', hm.proper.step hL hm.inv hr' hop, fun {j p} hj => ?_⟩
    by_cases hij : j = i
    · subst hij
      rw [List.getElem?_set_self (List.getElem?_eq_some_iff.mp hp).1] at hj
      cases hj
      change (k r).Follows _ _ _ (Function.update m.state.stages j _ j)
      rw [Function.update_self]
      exact hrest r
    · rw [List.getElem?_set_ne (Ne.symm hij)] at hj
      change p.Follows _ _ _ (Function.update m.state.stages i _ j)
      rw [Function.update_of_ne hij]
      exact hm.follows hj

theorem Spares.proper (hs : L.Spares inv shift) {m : Record σ K T A} (hm : inv m.state)
    (hp : L.Proper old m) : L.Proper old { m with state := shift m.state } := by
  have hclaimed : ∀ {k}, L.Claimed old m.state k → L.Claimed old (shift m.state) k := by
    rintro k ⟨hold, hheld, hpermits⟩
    refine ⟨hold, ?_, hs.permits hm hpermits⟩
    rw [hs.holder k hm]
    exact hheld
  constructor
  case seen => exact fun hk => hs.permits hm (hp.seen hk)
  case token =>
    intro i t ht
    obtain ⟨hspent, hunheld⟩ := hp.token ht
    refine ⟨hs.spent hm hspent, fun k => ?_⟩
    change L.holder (shift m.state) k ≠ _
    rw [hs.holder k hm]
    exact hunheld k
  case tokens => exact hp.tokens
  case holders =>
    intro k t hk
    change L.holder (shift m.state) k = _ at hk
    rw [hs.holder k hm] at hk
    exact hs.spent hm (hp.holders hk)
  case licence => exact fun hk => ⟨hclaimed (hp.licence hk).1, (hp.licence hk).2⟩
  case licences => exact hp.licences
  case acted =>
    intro x hmem
    obtain ⟨k, hx, hk⟩ := hp.acted hmem
    exact ⟨k, hx, hclaimed hk⟩
  case nodup => exact hp.nodup
  case old =>
    intro k hk
    change (L.holder (shift m.state) k).isSome = true
    rw [hs.holder k hm]
    exact hp.old hk

theorem Governed.move (hL : L.Lawful h inv) (hs : L.Spares inv shift) (hm : L.Governed inv old m)
    (turn : Option Nat) : L.Governed inv old (L.move h shift m turn) := by
  cases turn with
  | some i => exact hm.advance hL i
  | none => exact ⟨hs.kept hm.inv, hs.proper hm.inv hm.proper, hm.follows⟩

/-- **Tasks that act under licences** do so over every schedule. -/
theorem Governed.along (hL : L.Lawful h inv) (hs : L.Spares inv shift) (hm : L.Governed inv old m)
    (schedule : List (Option Nat)) :
    L.Governed inv old (Schedule.run (L.move h shift) m schedule) :=
  Schedule.Along.invariant (C := fun _ _ => True) (I := fun m => L.Governed inv old m)
    (fun hm _ => hm.move hL hs _) hm (Schedule.Along.of_forall fun _ _ => trivial)

/-- Nothing is done twice, nor under a key that was claimed before. What is done is done under a key
that is claimed and permitted. -/
theorem Governed.once (hm : L.Governed inv old m) :
    m.state.acted.Nodup ∧ ∀ x ∈ m.state.acted, ∃ k, L.act k = x ∧ L.Claimed old m.state.state k :=
  ⟨hm.proper.nodup, fun _ hmem => hm.proper.acted hmem⟩

/-- Where no task has begun, the tasks are governed. -/
theorem Governed.start {s : σ} {programs : List (Program S ε α)} (hinv : inv s)
    (hholders : ∀ k t, L.holder s k = some t → L.spent s t)
    (hfollows : ∀ (i : Nat) p, programs[i]? = some p →
      p.Follows (L.Allows i) (L.next i) (fun _ _ => True) Stage.start) :
    L.Governed inv (fun k => (L.holder s k).isSome = true)
      { state := ⟨s, fun _ => .start, []⟩, programs } where
  inv := hinv
  proper := {
    seen := fun hk => False.elim hk
    token := fun ht => by cases ht
    tokens := fun ht => by cases ht
    holders := fun hk => hholders _ _ hk
    licence := fun hk => by cases hk
    licences := fun hk => by cases hk
    acted := fun hmem => by cases hmem
    nodup := List.nodup_nil
    old := fun hk => hk }
  follows hp := hfollows _ _ hp

end Licensing
