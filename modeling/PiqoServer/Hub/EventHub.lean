import PiqoServer.Core.Event
import PiqoServer.Library.Broadcast

/-!
# The event hub

`EventHub` maps each session to the broadcast channel its events are published on. A channel is
created by the first subscription and forgotten when it has no receiver left; a receiver stays
attached to its channel even when the hub no longer names it, and then finds it closed.

## Main definitions

* `EventHub`: the channel of each session, and every channel ever created
* `EventHub.subscribe`, `publish`, `removeIfUnused`, `closeSessions`: the operations
* `EventHub.dropReceiver`: a receiver goes away

## Main results

* `WellFormed.subscribe`, …: channels are not shared between sessions
* `channel_publish`, `channel_subscribe`: what happens to a receiver's channel
* `subscribe_receiver`: a new receiver starts at the end of its session's channel
-/

namespace Piqo

/-- The channels by number, and the number of each session's channel. -/
structure EventHub where
  channels : SortedMap String Nat
  heap : List (Channel RecordedEvent)
  capacity : Nat

namespace EventHub

/-- The receivers of a channel. -/
def receiverCount (hub : EventHub) (c : Nat) : Nat :=
  (hub.heap[c]?.map Channel.receivers).getD 0

/-- Forget the channels without receivers. -/
def retainUsed (hub : EventHub) : EventHub :=
  { hub with channels := hub.channels.filter fun _ c => 0 < hub.receiverCount c }

/-- The hub after a subscription, with the channel and the position of the receiver. -/
def subscribe (hub : EventHub) (sessionId : String) : EventHub × Nat × Nat :=
  let hub := hub.retainUsed
  match hub.channels.get? sessionId with
  | some c =>
    ({ hub with heap := hub.heap.modify c fun ch => { ch with receivers := ch.receivers + 1 } },
      c, (hub.heap[c]?.map fun ch => ch.sent.length).getD 0)
  | none =>
    ({ hub with
        channels := hub.channels.insert sessionId hub.heap.length
        heap := hub.heap ++ [.fresh] },
      hub.heap.length, 0)

def publish (hub : EventHub) (event : RecordedEvent) : EventHub :=
  (match hub.channels.get? event.sessionId with
    | none => hub
    | some c =>
      if hub.receiverCount c = 0 then
        { hub with channels := hub.channels.erase event.sessionId }
      else { hub with heap := hub.heap.modify c (·.send event) }).retainUsed

def removeIfUnused (hub : EventHub) (sessionId : String) : EventHub :=
  match hub.channels.get? sessionId with
  | some c =>
    if hub.receiverCount c = 0 then { hub with channels := hub.channels.erase sessionId } else hub
  | none => hub

def closeSessions (hub : EventHub) (sessionIds : List String) : EventHub :=
  { hub with channels := sessionIds.foldl SortedMap.erase hub.channels }

/-- A receiver of channel `c` goes away. -/
def dropReceiver (hub : EventHub) (c : Nat) : EventHub :=
  { hub with heap := hub.heap.modify c fun ch => { ch with receivers := ch.receivers - 1 } }

/-! ## Channels are not shared -/

/-- Named channels exist, and no two sessions share one. -/
structure WellFormed (hub : EventHub) : Prop where
  bound : ∀ {sessionId c}, hub.channels.get? sessionId = some c → c < hub.heap.length
  unique : ∀ {sessionId sessionId' c}, hub.channels.get? sessionId = some c →
    hub.channels.get? sessionId' = some c → sessionId = sessionId'

theorem wellFormed_empty (capacity : Nat) : WellFormed ⟨∅, [], capacity⟩ where
  bound h := by simp at h
  unique h := by simp at h

/-- Fewer names over at least as many channels. -/
theorem WellFormed.anti {hub hub' : EventHub} (h : hub.WellFormed)
    (hsub : ∀ {sessionId c}, hub'.channels.get? sessionId = some c →
      hub.channels.get? sessionId = some c)
    (hlength : hub.heap.length ≤ hub'.heap.length) : hub'.WellFormed :=
  ⟨fun hc => (h.bound (hsub hc)).trans_le hlength, fun hc hc' => h.unique (hsub hc) (hsub hc')⟩

theorem get?_retainUsed {hub : EventHub} {sessionId : String} {c : Nat} :
    hub.retainUsed.channels.get? sessionId = some c ↔
      hub.channels.get? sessionId = some c ∧ 0 < hub.receiverCount c := by
  simp [retainUsed, SortedMap.get?_filter_eq_some]

theorem get?_foldl_erase {m : SortedMap String Nat} {ids : List String} {sessionId : String}
    {c : Nat} (h : (ids.foldl SortedMap.erase m).get? sessionId = some c) :
    m.get? sessionId = some c := by
  induction ids generalizing m with
  | nil => exact h
  | cons id ids ih =>
    have hid := ih h
    rw [SortedMap.get?_erase] at hid
    split at hid
    · cases hid
    · exact hid

theorem WellFormed.retainUsed {hub : EventHub} (h : hub.WellFormed) : hub.retainUsed.WellFormed :=
  h.anti (fun hc => (get?_retainUsed.mp hc).1) le_rfl

theorem WellFormed.erase {hub : EventHub} (h : hub.WellFormed) (sessionId : String) :
    WellFormed { hub with channels := hub.channels.erase sessionId } := by
  refine h.anti (fun hc => ?_) le_rfl
  rw [SortedMap.get?_erase] at hc
  split at hc
  · cases hc
  · exact hc

theorem WellFormed.modify {hub : EventHub} (h : hub.WellFormed) (c : Nat)
    (f : Channel RecordedEvent → Channel RecordedEvent) :
    WellFormed { hub with heap := hub.heap.modify c f } :=
  h.anti (fun hc => hc) (by simp)

theorem WellFormed.publish {hub : EventHub} (h : hub.WellFormed) (event : RecordedEvent) :
    (hub.publish event).WellFormed := by
  refine WellFormed.retainUsed ?_
  split
  · exact h
  · split
    · exact h.erase _
    · exact h.modify _ _

theorem WellFormed.removeIfUnused {hub : EventHub} (h : hub.WellFormed) (sessionId : String) :
    (hub.removeIfUnused sessionId).WellFormed := by
  unfold EventHub.removeIfUnused
  split
  · split
    · exact h.erase _
    · exact h
  · exact h

theorem WellFormed.closeSessions {hub : EventHub} (h : hub.WellFormed)
    (sessionIds : List String) : (hub.closeSessions sessionIds).WellFormed :=
  h.anti get?_foldl_erase le_rfl

theorem WellFormed.subscribe {hub : EventHub} (h : hub.WellFormed) (sessionId : String) :
    (hub.subscribe sessionId).1.WellFormed := by
  have hused := h.retainUsed
  unfold EventHub.subscribe
  dsimp only
  split
  · exact hused.modify _ _
  · constructor
    · intro id c hc
      rw [SortedMap.get?_insert] at hc
      split at hc
      · cases hc
        simp
      · have hbound := hused.bound hc
        simp only [List.length_append, List.length_singleton]
        omega
    · intro id id' c hc hc'
      simp only [SortedMap.get?_insert] at hc hc'
      split at hc <;> split at hc'
      · simp_all
      · cases hc
        exact absurd (hused.bound hc') (lt_irrefl _)
      · cases hc'
        exact absurd (hused.bound hc) (lt_irrefl _)
      · exact hused.unique hc hc'

/-! ## One receiver's channel -/

theorem heap_retainUsed (hub : EventHub) : hub.retainUsed.heap = hub.heap := rfl

theorem receiverCount_of_get {hub : EventHub} {c : Nat} {ch : Channel RecordedEvent}
    (h : hub.heap[c]? = some ch) : hub.receiverCount c = ch.receivers := by
  simp [receiverCount, h]

/-- Publishing adds to the channel that the session names, if it has receivers, and to no other. -/
theorem channel_publish {hub : EventHub} {event : RecordedEvent} {c : Nat}
    {ch : Channel RecordedEvent} (hc : hub.heap[c]? = some ch) (hused : 0 < ch.receivers) :
    (hub.publish event).heap[c]? = some (if hub.channels.get? event.sessionId = some c
      then ch.send event else ch) := by
  unfold publish
  split
  · next hnone => simp [heap_retainUsed, hc, hnone]
  · next d hd =>
    split
    · next hzero =>
      have hne : d ≠ c := by
        rintro rfl
        rw [receiverCount_of_get hc] at hzero
        omega
      simp [heap_retainUsed, hc, hd, hne]
    · rw [heap_retainUsed, List.getElem?_modify, hc, hd]
      by_cases hdc : d = c <;> simp [hdc]

/-- A session keeps the name of a channel that has receivers. -/
theorem get?_publish {hub : EventHub} {event : RecordedEvent} {sessionId : String} {c : Nat}
    {ch : Channel RecordedEvent} (hc : hub.heap[c]? = some ch) (hused : 0 < ch.receivers)
    (hname : hub.channels.get? sessionId = some c) :
    (hub.publish event).channels.get? sessionId = some c := by
  unfold publish
  rw [get?_retainUsed]
  split
  · exact ⟨hname, by rwa [receiverCount_of_get hc]⟩
  · next d hd =>
    split
    · next hzero =>
      have hne : sessionId ≠ event.sessionId := by
        rintro rfl
        rw [Option.some.inj (hname.symm.trans hd)] at hc
        rw [receiverCount_of_get hc] at hzero
        omega
      refine ⟨?_, by rwa [receiverCount, show _ = _ from hc]⟩
      rw [SortedMap.get?_erase, if_neg hne, hname]
    · refine ⟨hname, ?_⟩
      simp only [receiverCount, List.getElem?_modify, hc]
      by_cases hdc : d = c <;> simpa [hdc, Channel.send] using hused

/-- Publishing gives no session a new name. -/
theorem get?_of_publish {hub : EventHub} {event : RecordedEvent} {sessionId : String} {c : Nat}
    (h : (hub.publish event).channels.get? sessionId = some c) :
    hub.channels.get? sessionId = some c := by
  unfold publish at h
  have hname := (get?_retainUsed.mp h).1
  split at hname
  · exact hname
  · split at hname
    · rw [SortedMap.get?_erase] at hname
      split at hname
      · cases hname
      · exact hname
    · exact hname

theorem get?_of_removeIfUnused {hub : EventHub} {id sessionId : String} {c : Nat}
    (h : (hub.removeIfUnused id).channels.get? sessionId = some c) :
    hub.channels.get? sessionId = some c := by
  unfold removeIfUnused at h
  split at h
  · split at h
    · rw [SortedMap.get?_erase] at h
      split at h
      · cases h
      · exact h
    · exact h
  · exact h

theorem heap_removeIfUnused (hub : EventHub) (sessionId : String) :
    (hub.removeIfUnused sessionId).heap = hub.heap := by
  unfold removeIfUnused
  split
  · split <;> rfl
  · rfl

/-- A subscription gives an existing channel no new name. -/
theorem get?_of_subscribe {hub : EventHub} {id sessionId : String} {c : Nat}
    (hc : c < hub.heap.length) (h : (hub.subscribe id).1.channels.get? sessionId = some c) :
    hub.channels.get? sessionId = some c := by
  unfold subscribe at h
  dsimp only at h
  split at h
  · exact (get?_retainUsed.mp h).1
  · rw [SortedMap.get?_insert] at h
    split at h
    · cases h
      exact absurd hc (lt_irrefl _)
    · exact (get?_retainUsed.mp h).1

/-- A subscription changes an existing channel by at most one more receiver. -/
theorem channel_subscribe {hub : EventHub} (id : String) {c : Nat} {ch : Channel RecordedEvent}
    (hc : hub.heap[c]? = some ch) :
    ∃ n, ch.receivers ≤ n ∧
      (hub.subscribe id).1.heap[c]? = some { ch with receivers := n } := by
  unfold subscribe
  dsimp only
  split
  · next d hd =>
    rw [heap_retainUsed, List.getElem?_modify, hc]
    by_cases hdc : d = c
    · exact ⟨ch.receivers + 1, Nat.le_succ _, by simp [hdc]⟩
    · exact ⟨ch.receivers, le_rfl, by simp [hdc]⟩
  · refine ⟨ch.receivers, le_rfl, ?_⟩
    rw [heap_retainUsed, List.getElem?_append_left (List.getElem?_eq_some_iff.mp hc).1, hc]

/-- The receiver of a subscription has nothing pending on a channel that its session names. -/
theorem subscribe_receiver {hub : EventHub} (h : hub.WellFormed) (sessionId : String) :
    ∃ ch, (hub.subscribe sessionId).1.heap[(hub.subscribe sessionId).2.1]? = some ch ∧
      0 < ch.receivers ∧ (hub.subscribe sessionId).2.2 = ch.sent.length ∧
      (hub.subscribe sessionId).1.channels.get? sessionId =
        some (hub.subscribe sessionId).2.1 := by
  unfold subscribe
  dsimp only
  split
  · next c hc =>
    have hbound : c < hub.heap.length := h.retainUsed.bound hc
    refine ⟨{ hub.heap[c] with receivers := hub.heap[c].receivers + 1 }, ?_, Nat.succ_pos _, ?_, hc⟩
    · rw [heap_retainUsed, List.getElem?_modify, List.getElem?_eq_getElem hbound]
      simp
    · rw [heap_retainUsed, List.getElem?_eq_getElem hbound]
      rfl
  · refine ⟨.fresh, ?_, Nat.one_pos, rfl, SortedMap.get?_insert_self ..⟩
    rw [heap_retainUsed, List.getElem?_concat_length]

end EventHub

end Piqo
