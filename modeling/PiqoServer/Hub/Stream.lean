import PiqoServer.Hub.EventHub
import PiqoServer.Storage.Coherence

/-!
# The event stream

`stream_events` subscribes to the hub, replays the durable events after the client's position, and
then follows the live channel; when its receiver lags it reads the log again. An event can reach
the stream on all three paths, and is passed on only if its id is above the last one.

The model interleaves one stream with everything else: transactions that append to the log,
publications, other subscribers that come and go, sessions that are closed. Publications of the
session are taken in increasing id order, each after its commit, without omission.

## Main definitions

* `Stream`, `StreamPhase`: the stream and where it stands in `stream_events`
* `StreamWorld`, `StreamAction`, `StreamWorld.step`: the stream among everything else
* `Handoff`: what holds in every state

## Main results

* `Handoff.step`: every step preserves `Handoff`
* `run_gapless`: the stream yields exactly the events between its start and its position
-/

namespace Piqo

/-- With consecutive ids, a window of ids is a window of positions. -/
theorem filter_window {rs : List RecordedEvent} (n : Nat)
    (h : rs.map (·.id) = List.range' (n + 1) rs.length) (a b : Nat) :
    rs.filter (fun r => a < r.id ∧ r.id ≤ b) = (rs.take (b - n)).drop (a - n) := by
  induction rs generalizing n with
  | nil => simp
  | cons r rs ih =>
    simp only [List.map_cons, List.length_cons, List.range'_succ, List.cons.injEq] at h
    obtain ⟨hid, htail⟩ := h
    have hrest := ih (n + 1) htail
    by_cases hb : b ≤ n
    · have hzero : b - n = 0 := by omega
      have hzero' : b - (n + 1) = 0 := by omega
      rw [List.filter_cons_of_neg (by simp; omega), hrest, hzero, hzero']
      simp
    · have hsucc : b - n = (b - (n + 1)) + 1 := by omega
      by_cases ha : a ≤ n
      · have hzero : a - n = 0 := by omega
        have hzero' : a - (n + 1) = 0 := by omega
        rw [List.filter_cons_of_pos (by simp; omega), hrest, hzero, hzero', hsucc]
        simp
      · have hsucc' : a - n = (a - (n + 1)) + 1 := by omega
        rw [List.filter_cons_of_neg (by simp; omega), hrest, hsucc, hsucc', List.take_succ_cons,
          List.drop_succ_cons]

/-! ## The stream -/

/-- Where a stream stands in `stream_events`. -/
inductive StreamPhase where
  /-- Before the subscription. -/
  | starting
  /-- Subscribed, before the first read of the log. -/
  | subscribed
  /-- Passing on events that were read from the log. -/
  | draining (rest : List RecordedEvent)
  /-- Waiting on the receiver. -/
  | live
  /-- The receiver lagged; before the log is read again. -/
  | rereading
  | ended

structure Stream where
  phase : StreamPhase
  channel : Nat
  next : Nat
  after : Nat
  lastId : Nat
  yielded : List RecordedEvent

namespace Stream

/-- A stream for a client that has seen the events up to `after`. -/
def start (after : Nat) : Stream :=
  { phase := .starting, channel := 0, next := 0, after, lastId := after, yielded := [] }

/-- Pass an event on if it is above the last one. -/
def offer (s : Stream) (event : RecordedEvent) : Stream :=
  { s with
    lastId := if s.lastId < event.id then event.id else s.lastId
    yielded := if s.lastId < event.id then s.yielded ++ [event] else s.yielded }

/-- The receiver exists. -/
def attached (s : Stream) : Bool :=
  match s.phase with
  | .starting | .ended => false
  | .subscribed | .draining _ | .live | .rereading => true

end Stream

/-- One stream of a session among everything else; `published` is the last id published. -/
structure StreamWorld where
  session : StoredSession
  hub : EventHub
  published : Nat
  stream : Stream

inductive StreamAction where
  /-- A transaction appends to the log, from whatever projection. -/
  | commit (now : Nat → String) (p : SessionProjection) (events : List SemanticEvent)
  | publish (event : RecordedEvent)
  /-- Somebody else subscribes, to any session. -/
  | subscribe (sessionId : String)
  /-- Somebody else's receiver goes away. -/
  | dropReceiver (c : Nat)
  | removeIfUnused (sessionId : String)
  | closeSessions (sessionIds : List String)
  /-- The stream takes its next step. -/
  | advance
  /-- The stream is dropped, or told to close, or its read of the log fails. -/
  | close

namespace StreamWorld

variable (sessionId : String)

/-- The stream stops: outside its request it calls `remove_if_unused`, and the receiver goes
away. -/
def finish (w : StreamWorld) : StreamWorld :=
  { w with
    hub := match w.stream.phase with
      | .starting | .ended => w.hub
      | .subscribed => w.hub.dropReceiver w.stream.channel
      | .draining _ | .live | .rereading =>
        (w.hub.removeIfUnused sessionId).dropReceiver w.stream.channel
    stream := { w.stream with phase := .ended } }

/-- Read the log after `lastId` and pass the events on. -/
def reread (w : StreamWorld) : StreamWorld :=
  match w.session.readEvents sessionId w.stream.lastId u32Max with
  | .ok events => { w with stream := { w.stream with phase := .draining events } }
  | .error _ => w.finish sessionId

/-- The next step of the stream. -/
def advance (w : StreamWorld) : StreamWorld :=
  match w.stream.phase with
  | .starting =>
    let (hub, channel, next) := w.hub.subscribe sessionId
    { w with hub, stream := { w.stream with phase := .subscribed, channel, next } }
  | .subscribed => w.reread sessionId
  | .draining (event :: rest) =>
    { w with stream := { w.stream.offer event with phase := .draining rest } }
  | .draining [] => { w with stream := { w.stream with phase := .live } }
  | .live =>
    match w.hub.heap[w.stream.channel]? with
    | none => w
    | some ch =>
      match ch.recv w.hub.capacity (w.hub.channels.get? sessionId = some w.stream.channel)
          w.stream.next with
      | .value event next => { w with stream := { w.stream.offer event with next } }
      | .lagged next => { w with stream := { w.stream with phase := .rereading, next } }
      | .closed => w.finish sessionId
      | .empty => w
  | .rereading => w.reread sessionId
  | .ended => w

/-- An event that may be published now: one of another session, or the next committed one. -/
def Publishable (w : StreamWorld) (event : RecordedEvent) : Prop :=
  event.sessionId = sessionId →
    event.id = w.published + 1 ∧ (w.session.records sessionId)[w.published]? = some event.reload

instance (w : StreamWorld) (event : RecordedEvent) : Decidable (w.Publishable sessionId event) :=
  inferInstanceAs (Decidable (_ → _))

def step (w : StreamWorld) : StreamAction → StreamWorld
  | .commit now p events =>
    match StoredSession.appendAll sessionId now w.session p events with
    | .ok (session, _, _) => { w with session }
    | .error _ => w
  | .publish event =>
    if w.Publishable sessionId event then
      { w with
        hub := w.hub.publish event
        published := if event.sessionId = sessionId then event.id else w.published }
    else w
  | .subscribe id => { w with hub := (w.hub.subscribe id).1 }
  | .dropReceiver c =>
    -- the stream's own receiver is not somebody else's
    if w.stream.attached ∧ w.stream.channel = c ∧ w.hub.receiverCount c ≤ 1 then w
    else { w with hub := w.hub.dropReceiver c }
  | .removeIfUnused id => { w with hub := w.hub.removeIfUnused id }
  | .closeSessions ids => { w with hub := w.hub.closeSessions ids }
  | .advance => w.advance sessionId
  | .close => w.finish sessionId

def run (w : StreamWorld) (actions : List StreamAction) : StreamWorld :=
  actions.foldl (step sessionId) w

/-- The stream has nothing left to pass on: it waits on a channel that is empty and that the
session still names. -/
def CaughtUp (w : StreamWorld) : Prop :=
  w.stream.phase = .live ∧ w.hub.channels.get? sessionId = some w.stream.channel ∧
    ∀ ch, w.hub.heap[w.stream.channel]? = some ch → ch.pending w.stream.next = []

/-! ## The invariant -/

/-- The receiver of the stream: what is pending on its channel are the events from `start` on,
up to the last one published while the session named the channel. -/
structure Attached (w : StreamWorld) (ch : Channel RecordedEvent) (start : Nat) : Prop where
  channel : w.hub.heap[w.stream.channel]? = some ch
  used : 0 < ch.receivers
  own : ∀ id, w.hub.channels.get? id = some w.stream.channel → id = sessionId
  next_le : w.stream.next ≤ ch.sent.length
  ids : (ch.pending w.stream.next).map (·.id) =
    List.range' (start + 1) (ch.pending w.stream.next).length
  stored : ∀ event ∈ ch.pending w.stream.next,
    (w.session.records sessionId)[event.id - 1]? = some event.reload
  end_le : start + (ch.pending w.stream.next).length ≤ w.published
  end_eq : w.hub.channels.get? sessionId = some w.stream.channel →
    start + (ch.pending w.stream.next).length = w.published

/-- The events before the first pending one are yielded, or about to be. -/
def Reached (w : StreamWorld) (start : Nat) : Prop :=
  match w.stream.phase with
  | .draining rest => ∃ n ≤ w.session.summary.lastEventId,
      rest = ((w.session.records sessionId).take n).drop w.stream.lastId ∧ start ≤ max w.stream.lastId n
  | .live => start ≤ w.stream.lastId
  | _ => True

/-- **The handoff invariant.** -/
structure Handoff (w : StreamWorld) : Prop where
  dense : w.session.Dense
  published_le : w.published ≤ w.session.summary.lastEventId
  wellFormed : w.hub.WellFormed
  lastId_le : w.stream.lastId = w.stream.after ∨
    w.stream.after ≤ w.stream.lastId ∧ w.stream.lastId ≤ w.session.summary.lastEventId
  yielded : w.stream.yielded.map RecordedEvent.reload =
    ((w.session.records sessionId).take w.stream.lastId).drop w.stream.after
  receiver : w.stream.attached = true →
    ∃ ch start, w.Attached sessionId ch start ∧ w.Reached sessionId start

/-! ## Records -/

theorem length_records {s : StoredSession} (h : s.Dense) :
    (s.records sessionId).length = s.summary.lastEventId := by
  rw [StoredSession.records, List.length_map, h.length]

theorem ids_records {s : StoredSession} (h : s.Dense) :
    (s.records sessionId).map (·.id) = List.range' 1 (s.records sessionId).length := by
  rw [length_records sessionId h, ← h.keys, StoredSession.records, List.map_map]
  rfl

theorem id_of_getElem? {s : StoredSession} (h : s.Dense) {i : Nat} {r : RecordedEvent}
    (hr : (s.records sessionId)[i]? = some r) : r.id = i + 1 := by
  have hid := congrArg (·[i]?) (ids_records sessionId h)
  obtain ⟨hlt, -⟩ := List.getElem?_eq_some_iff.mp hr
  simp only [List.getElem?_map, hr, Option.map_some, List.getElem?_range' hlt] at hid
  have := Option.some.inj hid
  omega

/-- The events above `a` up to the position `b`, by id. -/
theorem filter_records {s : StoredSession} (h : s.Dense) (a b : Nat) :
    (s.records sessionId).filter (fun r => a < r.id ∧ r.id ≤ b) =
      ((s.records sessionId).take b).drop a :=
  filter_window 0 (ids_records sessionId h) a b

variable {sessionId}

/-! ## What others do -/

/-- The log grows. -/
theorem Handoff.commit {w : StreamWorld} (h : w.Handoff sessionId) (now : Nat → String)
    (p : SessionProjection) (events : List SemanticEvent) :
    (w.step sessionId (.commit now p events)).Handoff sessionId := by
  simp only [step]
  split
  swap
  · exact h
  next session q out happ =>
  obtain ⟨hdense, hlast, hentries, -⟩ := h.dense.appendAll happ
  obtain ⟨extra, hrecords⟩ : ∃ extra, session.records sessionId =
      w.session.records sessionId ++ extra := by
    rw [StoredSession.records, hentries, List.map_append]
    exact ⟨_, rfl⟩
  have hlength := length_records sessionId h.dense
  have htake : ∀ n ≤ w.session.summary.lastEventId,
      (session.records sessionId).take n = (w.session.records sessionId).take n := by
    intro n hn
    rw [hrecords, List.take_append_of_le_length (by omega)]
  refine ⟨hdense, ?_, h.wellFormed, ?_, ?_, fun hattached => ?_⟩
  · have := h.published_le
    simp only
    omega
  · refine h.lastId_le.imp id fun hle => ⟨hle.1, ?_⟩
    simp only
    omega
  · rcases h.lastId_le with heq | ⟨-, hle⟩
    · rw [show _ = _ from h.yielded, heq]
      simp
    · rw [htake _ hle]
      exact h.yielded
  · obtain ⟨ch, start, hch, hreached⟩ := h.receiver hattached
    refine ⟨ch, start, ⟨hch.channel, hch.used, hch.own, hch.next_le, hch.ids,
      fun event hevent => ?_, hch.end_le, hch.end_eq⟩, ?_⟩
    · have hold := hch.stored event hevent
      rw [hrecords, List.getElem?_append_left (List.getElem?_eq_some_iff.mp hold).1]
      exact hold
    · unfold Reached at hreached ⊢
      dsimp only
      split at hreached
      · obtain ⟨n, hn, hrest, hstart⟩ := hreached
        refine ⟨n, by omega, ?_, hstart⟩
        rw [htake n hn]
        exact hrest
      · exact hreached
      · trivial

/-- A change of the hub that leaves the stream's channel its values and a receiver, and gives it
no new name. -/
theorem Handoff.hub {w : StreamWorld} (h : w.Handoff sessionId) {hub : EventHub}
    (hwf : hub.WellFormed)
    (hchannel : w.stream.attached = true → ∀ ch start, w.Attached sessionId ch start →
      ∃ n, 0 < n ∧ hub.heap[w.stream.channel]? = some { ch with receivers := n })
    (hname : w.stream.channel < w.hub.heap.length → ∀ id,
      hub.channels.get? id = some w.stream.channel →
        w.hub.channels.get? id = some w.stream.channel) :
    Handoff sessionId { w with hub } := by
  refine ⟨h.dense, h.published_le, hwf, h.lastId_le, h.yielded, fun hattached => ?_⟩
  obtain ⟨ch, start, hch, hreached⟩ := h.receiver hattached
  obtain ⟨n, hn, hheap⟩ := hchannel hattached ch start hch
  have hold := hname (List.getElem?_eq_some_iff.mp hch.channel).1
  exact ⟨_, start, ⟨hheap, hn, fun id hid => hch.own id (hold id hid), hch.next_le, hch.ids,
    hch.stored, hch.end_le, fun hopen => hch.end_eq (hold _ hopen)⟩, hreached⟩

/-- A publication that does not reach the stream's channel. -/
theorem Handoff.publish_elsewhere {w : StreamWorld} (h : w.Handoff sessionId)
    {event : RecordedEvent}
    (hname : w.stream.attached = true →
      w.hub.channels.get? event.sessionId ≠ some w.stream.channel) :
    Handoff sessionId { w with hub := w.hub.publish event } := by
  refine h.hub (h.wellFormed.publish event) (fun hattached ch start hch => ?_)
    fun _ _ => EventHub.get?_of_publish
  refine ⟨ch.receivers, hch.used, ?_⟩
  rw [EventHub.channel_publish hch.channel hch.used, if_neg (hname hattached)]

theorem Handoff.publish {w : StreamWorld} (h : w.Handoff sessionId) (event : RecordedEvent) :
    (w.step sessionId (.publish event)).Handoff sessionId := by
  simp only [step]
  split
  swap
  · exact h
  next hnext =>
  by_cases hown : event.sessionId = sessionId
  swap
  · rw [if_neg hown]
    refine h.publish_elsewhere fun hattached hname => hown ?_
    obtain ⟨ch, start, hch, -⟩ := h.receiver hattached
    exact hch.own _ hname
  rw [if_pos hown]
  obtain ⟨hid, hstored⟩ := hnext hown
  have hle : event.id ≤ w.session.summary.lastEventId := by
    have hlt := (List.getElem?_eq_some_iff.mp hstored).1
    rw [length_records sessionId h.dense] at hlt
    omega
  by_cases hopen : w.stream.attached = true ∧
      w.hub.channels.get? event.sessionId = some w.stream.channel
  swap
  · -- the stream's channel is closed: the event only counts as published
    have hsame := h.publish_elsewhere fun hattached hname => hopen ⟨hattached, hname⟩
    refine ⟨hsame.dense, hle, hsame.wellFormed, hsame.lastId_le, hsame.yielded, ?_⟩
    intro hattached
    obtain ⟨ch, start, hch, hreached⟩ := hsame.receiver hattached
    refine ⟨ch, start, ⟨hch.channel, hch.used, hch.own, hch.next_le, hch.ids, hch.stored, ?_, ?_⟩,
      hreached⟩
    · have hend := hch.end_le
      simp only at hend ⊢
      omega
    · intro hname
      exact absurd ⟨hattached, hown ▸ EventHub.get?_of_publish hname⟩ hopen
  obtain ⟨hattached, hname⟩ := hopen
  obtain ⟨ch, start, hch, hreached⟩ := h.receiver hattached
  have hend := hch.end_eq (hown ▸ hname)
  have hpending := Channel.pending_send event hch.next_le
  refine ⟨h.dense, hle, h.wellFormed.publish event, h.lastId_le, h.yielded, fun _ => ?_⟩
  refine ⟨ch.send event, start, ⟨?_, hch.used, fun id hid => hch.own id
    (EventHub.get?_of_publish hid), ?_, ?_, ?_, ?_, fun _ => ?_⟩, hreached⟩
  · rw [EventHub.channel_publish hch.channel hch.used, if_pos hname]
  · simp only [Channel.send, List.length_append, List.length_singleton]
    exact hch.next_le.trans (Nat.le_succ _)
  · rw [hpending, List.map_append, hch.ids, List.length_append, List.length_singleton,
      List.range'_concat, List.map_singleton, hid]
    congr 2
    omega
  · rw [hpending]
    intro e he
    rcases List.mem_append.mp he with he | he
    · exact hch.stored e he
    · rw [List.mem_singleton.mp he, hid, Nat.add_sub_cancel]
      exact hstored
  · rw [hpending, List.length_append, List.length_singleton]
    simp only
    omega
  · rw [hpending, List.length_append, List.length_singleton]
    simp only
    omega

theorem Handoff.others {w : StreamWorld} (h : w.Handoff sessionId) {a : StreamAction}
    (ha : match a with | .advance | .close => False | _ => True) :
    (w.step sessionId a).Handoff sessionId := by
  cases a with
  | commit now p events => exact h.commit now p events
  | publish event => exact h.publish event
  | subscribe id =>
    refine h.hub (h.wellFormed.subscribe id) (fun _ ch start hch => ?_)
      fun hbound _ => EventHub.get?_of_subscribe hbound
    obtain ⟨n, hle, hheap⟩ := EventHub.channel_subscribe id hch.channel
    exact ⟨n, hch.used.trans_le hle, hheap⟩
  | dropReceiver c =>
    simp only [step]
    split
    · exact h
    · next hother =>
      refine h.hub (h.wellFormed.modify c _) (fun hattached ch start hch => ?_) fun _ _ => id
      rw [EventHub.dropReceiver, List.getElem?_modify, hch.channel]
      by_cases hc : c = w.stream.channel
      · have hmany : 1 < ch.receivers := by
          rw [← EventHub.receiverCount_of_get hch.channel, ← hc]
          by_contra hone
          exact hother ⟨hattached, hc.symm, not_lt.mp hone⟩
        exact ⟨ch.receivers - 1, by omega, by simp [hc]⟩
      · exact ⟨ch.receivers, hch.used, by simp [hc]⟩
  | removeIfUnused id =>
    refine h.hub (h.wellFormed.removeIfUnused id) (fun _ ch start hch => ?_)
      fun _ _ => EventHub.get?_of_removeIfUnused
    exact ⟨ch.receivers, hch.used, by rw [EventHub.heap_removeIfUnused]; exact hch.channel⟩
  | closeSessions ids =>
    exact h.hub (h.wellFormed.closeSessions ids)
      (fun _ ch start hch => ⟨ch.receivers, hch.used, hch.channel⟩)
      fun _ _ => EventHub.get?_foldl_erase
  | advance => exact ha.elim
  | close => exact ha.elim

/-! ## What the stream does -/

theorem reload_of_mem_records {s : StoredSession} {r : RecordedEvent}
    (h : r ∈ s.records sessionId) : r.reload = r := by
  obtain ⟨row, -, rfl⟩ := List.mem_map.mp h
  simp [RecordedEvent.reload, recordOf, row.2.decoded]

/-- Passing on the event at the next position, or one before it, extends what was yielded. -/
theorem Handoff.offer {w : StreamWorld} (h : w.Handoff sessionId) {event : RecordedEvent}
    (hid : event.id ≤ w.stream.lastId + 1)
    (hstored : (w.session.records sessionId)[event.id - 1]? = some event.reload) :
    (w.stream.offer event).lastId = max w.stream.lastId event.id ∧
      ((w.stream.offer event).lastId = w.stream.after ∨ w.stream.after ≤ (w.stream.offer event).lastId
        ∧ (w.stream.offer event).lastId ≤ w.session.summary.lastEventId) ∧
      (w.stream.offer event).yielded.map RecordedEvent.reload =
        ((w.session.records sessionId).take (w.stream.offer event).lastId).drop w.stream.after := by
  simp only [Stream.offer]
  split
  · next hlt =>
    have hnext : event.id = w.stream.lastId + 1 := by omega
    rw [hnext, Nat.add_sub_cancel] at hstored
    obtain ⟨hbound, hget⟩ := List.getElem?_eq_some_iff.mp hstored
    have hlength := length_records sessionId h.dense
    have hafter : w.stream.after ≤ w.stream.lastId := by
      rcases h.lastId_le with heq | ⟨hle, -⟩
      · exact heq.ge
      · exact hle
    refine ⟨by omega, .inr ⟨by omega, by omega⟩, ?_⟩
    rw [List.map_append, List.map_singleton, h.yielded, hnext,
      List.take_succ_eq_append_getElem hbound, hget,
      List.drop_append_of_le_length (by rw [List.length_take]; omega)]
  · next hge => exact ⟨by omega, h.lastId_le, h.yielded⟩

theorem Handoff.finish {w : StreamWorld} (h : w.Handoff sessionId) :
    (w.finish sessionId).Handoff sessionId := by
  refine ⟨h.dense, h.published_le, ?_, h.lastId_le, h.yielded, fun hattached => ?_⟩
  · unfold StreamWorld.finish
    dsimp only
    split
    · exact h.wellFormed
    · exact h.wellFormed
    · exact h.wellFormed.modify _ _
    · exact (h.wellFormed.removeIfUnused sessionId).modify _ _
    · exact (h.wellFormed.removeIfUnused sessionId).modify _ _
    · exact (h.wellFormed.removeIfUnused sessionId).modify _ _
  · cases hattached

theorem Handoff.reread {w : StreamWorld} (h : w.Handoff sessionId)
    (hattached : w.stream.attached = true) : (w.reread sessionId).Handoff sessionId := by
  unfold StreamWorld.reread
  split
  swap
  · exact h.finish
  next events hread =>
  rw [h.dense.readEvents] at hread
  obtain ⟨-, hevents⟩ := Except.ite_error_eq_ok.mp hread
  cases hevents
  refine ⟨h.dense, h.published_le, h.wellFormed, h.lastId_le, h.yielded, fun _ => ?_⟩
  obtain ⟨ch, start, hch, -⟩ := h.receiver hattached
  refine ⟨ch, start, ⟨hch.channel, hch.used, hch.own, hch.next_le, hch.ids, hch.stored, hch.end_le,
    hch.end_eq⟩, w.session.summary.lastEventId, le_rfl, ?_, ?_⟩
  · simp only
    rw [← length_records sessionId h.dense, List.take_length]
    rfl
  · -- everything published is in the log that was just read
    have hend := hch.end_le
    have hpublished := h.published_le
    simp only
    omega

/-- The next event that was read from the log. -/
theorem Handoff.drain {w : StreamWorld} (h : w.Handoff sessionId) {event : RecordedEvent}
    {rest : List RecordedEvent} (hphase : w.stream.phase = .draining (event :: rest)) :
    Handoff sessionId { w with stream := { w.stream.offer event with phase := .draining rest } } := by
  have hattached : w.stream.attached = true := by simp [Stream.attached, hphase]
  obtain ⟨ch, start, hch, hreached⟩ := h.receiver hattached
  simp only [Reached, hphase] at hreached
  obtain ⟨n, hn, hrest, hstart⟩ := hreached
  have hlength := length_records sessionId h.dense
  have hlt : w.stream.lastId < n := by
    have := congrArg List.length hrest
    simp only [List.length_cons, List.length_drop, List.length_take] at this
    omega
  have hcons : event :: rest = (w.session.records sessionId)[w.stream.lastId] ::
      ((w.session.records sessionId).take n).drop (w.stream.lastId + 1) := by
    rw [hrest, List.drop_eq_getElem_cons (by rw [List.length_take]; omega), List.getElem_take]
  obtain ⟨hevent, hrest⟩ := List.cons.inj hcons
  have hget : (w.session.records sessionId)[w.stream.lastId]? = some event := by
    rw [hevent]
    exact List.getElem?_eq_getElem _
  have hid : event.id = w.stream.lastId + 1 := id_of_getElem? sessionId h.dense hget
  obtain ⟨hlast, hle, hyielded⟩ := h.offer hid.le (by
    rw [hid, Nat.add_sub_cancel, hget, reload_of_mem_records (List.mem_of_getElem? hget)])
  refine ⟨h.dense, h.published_le, h.wellFormed, hle, hyielded, fun _ => ⟨ch, start, ?_, n, hn, ?_,
    ?_⟩⟩
  · exact ⟨hch.channel, hch.used, hch.own, hch.next_le, hch.ids, hch.stored, hch.end_le, hch.end_eq⟩
  · simp only
    rw [hrest, hlast, hid, max_eq_right (Nat.le_succ _)]
  · simp only
    rw [hlast, hid]
    omega

/-- A read of the receiver. -/
theorem Handoff.receive {w : StreamWorld} (h : w.Handoff sessionId)
    (hphase : w.stream.phase = .live) : (w.advance sessionId).Handoff sessionId := by
  have hattached : w.stream.attached = true := by simp [Stream.attached, hphase]
  obtain ⟨ch, start, hch, hreached⟩ := h.receiver hattached
  simp only [Reached, hphase] at hreached
  have hspec := ch.recv_spec w.hub.capacity
    (w.hub.channels.get? sessionId = some w.stream.channel) w.stream.next
  simp only [StreamWorld.advance, hphase, hch.channel]
  generalize ch.recv w.hub.capacity _ w.stream.next = r at hspec ⊢
  cases r with
  | value event next =>
    obtain ⟨hnext, hpending⟩ := hspec
    have hids := hch.ids
    rw [hpending, List.map_cons, List.length_cons, List.range'_succ, List.cons.injEq] at hids
    obtain ⟨hid, hids⟩ := hids
    obtain ⟨hlast, hle, hyielded⟩ := h.offer (by omega) (hch.stored event (by simp [hpending]))
    have hlength : (ch.pending w.stream.next).length = (ch.pending next).length + 1 := by
      rw [hpending, List.length_cons]
    refine ⟨h.dense, h.published_le, h.wellFormed, hle, hyielded, fun _ => ⟨ch, start + 1, ?_, ?_⟩⟩
    · refine ⟨hch.channel, hch.used, hch.own, hnext, hids, fun e he => ?_, ?_, fun hopen => ?_⟩
      · exact hch.stored e (by rw [hpending]; exact List.mem_cons_of_mem _ he)
      · have hend := hch.end_le
        simp only at hend ⊢
        omega
      · have hend := hch.end_eq hopen
        simp only at hend ⊢
        omega
    · simp only [Reached, Stream.offer, hphase] at hlast ⊢
      rw [hlast]
      omega
  | lagged next =>
    obtain ⟨hnext, k, hpending⟩ := hspec
    have hlength : (ch.pending next).length = (ch.pending w.stream.next).length - k := by
      rw [hpending, List.length_drop]
    refine ⟨h.dense, h.published_le, h.wellFormed, h.lastId_le, h.yielded, fun _ => ?_⟩
    refine ⟨ch, start + ((ch.pending w.stream.next).length - (ch.pending next).length), ?_, trivial⟩
    refine ⟨hch.channel, hch.used, hch.own, hnext, ?_, fun e he => ?_, ?_, fun hopen => ?_⟩
    · simp only
      rw [hpending, List.map_drop, hch.ids, List.drop_range', List.length_drop]
      by_cases hk : k ≤ (ch.pending w.stream.next).length
      · congr 1
        omega
      · simp [show (ch.pending w.stream.next).length - k = 0 by omega]
    · exact hch.stored e (List.mem_of_mem_drop (hpending ▸ he))
    · have hend := hch.end_le
      simp only at hend ⊢
      omega
    · have hend := hch.end_eq hopen
      simp only at hend ⊢
      omega
  | closed => exact h.finish
  | empty => exact h

theorem Handoff.subscribe {w : StreamWorld} (h : w.Handoff sessionId)
    (hphase : w.stream.phase = .starting) : (w.advance sessionId).Handoff sessionId := by
  simp only [StreamWorld.advance, hphase]
  have hwf := h.wellFormed.subscribe sessionId
  obtain ⟨ch, hheap, hused, hnext, hname⟩ := EventHub.subscribe_receiver h.wellFormed sessionId
  have hnil : ch.pending (w.hub.subscribe sessionId).2.2 = [] := by
    rw [Channel.pending, hnext, List.drop_length]
  refine ⟨h.dense, h.published_le, hwf, h.lastId_le, h.yielded, fun _ => ⟨ch, w.published, ?_,
    trivial⟩⟩
  refine ⟨hheap, hused, fun id hid => hwf.unique hid hname, hnext.le, ?_, ?_, ?_, fun _ => ?_⟩
  · simp only [hnil]
    rfl
  · simp only [hnil]
    simp
  · simp only [hnil]
    simp
  · simp only [hnil]
    simp

/-- Every step of the stream, and of everything around it, preserves the invariant. -/
theorem Handoff.step {w : StreamWorld} (h : w.Handoff sessionId) (a : StreamAction) :
    (w.step sessionId a).Handoff sessionId := by
  cases a with
  | advance =>
    simp only [StreamWorld.step]
    cases hphase : w.stream.phase with
    | starting => exact h.subscribe hphase
    | subscribed =>
      simpa only [StreamWorld.advance, hphase] using h.reread (by simp [Stream.attached, hphase])
    | draining rest =>
      cases rest with
      | cons event rest => simpa only [StreamWorld.advance, hphase] using h.drain hphase
      | nil =>
        simp only [StreamWorld.advance, hphase]
        refine ⟨h.dense, h.published_le, h.wellFormed, h.lastId_le, h.yielded, fun _ => ?_⟩
        obtain ⟨ch, start, hch, hreached⟩ := h.receiver (by simp [Stream.attached, hphase])
        simp only [Reached, hphase] at hreached
        obtain ⟨n, hn, hrest, hstart⟩ := hreached
        have hlength := congrArg List.length hrest
        rw [List.length_nil, List.length_drop, List.length_take,
          length_records sessionId h.dense] at hlength
        refine ⟨ch, start, ⟨hch.channel, hch.used, hch.own, hch.next_le, hch.ids, hch.stored,
          hch.end_le, hch.end_eq⟩, ?_⟩
        simp only [Reached]
        omega
    | live => exact h.receive hphase
    | rereading =>
      simpa only [StreamWorld.advance, hphase] using h.reread (by simp [Stream.attached, hphase])
    | ended => simpa only [StreamWorld.advance, hphase] using h
  | close => exact h.finish
  | commit | publish | subscribe | dropReceiver | removeIfUnused | closeSessions =>
    exact h.others trivial

theorem after_reread (w : StreamWorld) : (w.reread sessionId).stream.after = w.stream.after := by
  unfold reread
  split <;> rfl

theorem after_advance (w : StreamWorld) : (w.advance sessionId).stream.after = w.stream.after := by
  unfold advance
  split
  · rfl
  · exact after_reread w
  · rfl
  · rfl
  · split
    · rfl
    · split <;> rfl
  · exact after_reread w
  · rfl

theorem after_step (w : StreamWorld) (a : StreamAction) :
    (w.step sessionId a).stream.after = w.stream.after := by
  cases a with
  | advance => exact after_advance w
  | commit now p events =>
    simp only [step]
    split <;> rfl
  | publish event =>
    simp only [step]
    split <;> rfl
  | dropReceiver c =>
    simp only [step]
    split <;> rfl
  | subscribe | removeIfUnused | closeSessions | close => rfl

theorem after_run (w : StreamWorld) (actions : List StreamAction) :
    (w.run sessionId actions).stream.after = w.stream.after := by
  induction actions generalizing w with
  | nil => rfl
  | cons a actions ih => exact (ih _).trans (after_step w a)

theorem Handoff.run {w : StreamWorld} (h : w.Handoff sessionId) (actions : List StreamAction) :
    (w.run sessionId actions).Handoff sessionId := by
  induction actions generalizing w with
  | nil => exact h
  | cons a actions ih => exact ih (h.step a)

theorem Handoff.caughtUp {w : StreamWorld} (h : w.Handoff sessionId)
    (hcaught : w.CaughtUp sessionId) : w.published ≤ w.stream.lastId := by
  obtain ⟨hphase, hname, hempty⟩ := hcaught
  obtain ⟨ch, start, hch, hreached⟩ := h.receiver (by simp [Stream.attached, hphase])
  have hend := hch.end_eq hname
  rw [hempty ch hch.channel, List.length_nil] at hend
  simp only [Reached, hphase] at hreached
  omega

theorem Handoff.start {session : StoredSession} {hub : EventHub} {published : Nat}
    (hdense : session.Dense) (hpublished : published ≤ session.summary.lastEventId)
    (hhub : hub.WellFormed) (after : Nat) :
    Handoff sessionId { session, hub, published, stream := .start after } where
  dense := hdense
  published_le := hpublished
  wellFormed := hhub
  lastId_le := .inl rfl
  yielded := by simp [Stream.start]
  receiver hattached := by cases hattached

/-- **The stream yields exactly the events between its start and its position.** Whatever else
happens, the events yielded are those with ids above `after` up to the last id, in order, each
once and without a gap; and once the stream has read everything from a channel that is still open,
it has yielded every event published. -/
theorem run_gapless {session : StoredSession} {hub : EventHub} {published : Nat}
    (hdense : session.Dense) (hpublished : published ≤ session.summary.lastEventId)
    (hhub : hub.WellFormed) (after : Nat) (actions : List StreamAction) :
    let w := run sessionId { session, hub, published, stream := .start after } actions
    w.stream.yielded.map RecordedEvent.reload = (w.session.records sessionId).filter
        (fun r => after < r.id ∧ r.id ≤ w.stream.lastId) ∧
      w.stream.yielded.map (·.id) = List.range' (after + 1) w.stream.yielded.length ∧
      (w.CaughtUp sessionId → ∀ r ∈ w.session.records sessionId,
        after < r.id → r.id ≤ w.published → r ∈ w.stream.yielded.map RecordedEvent.reload) := by
  intro w
  have h : w.Handoff sessionId := (Handoff.start hdense hpublished hhub after).run actions
  have hafter : w.stream.after = after := after_run _ actions
  rw [← hafter]
  have hfilter := h.yielded.trans (filter_records sessionId h.dense _ _).symm
  refine ⟨hfilter, ?_, fun hcaught r hr habove hle => ?_⟩
  · have hids : w.stream.yielded.map (·.id) =
        (w.stream.yielded.map RecordedEvent.reload).map (·.id) := by
      rw [List.map_map]
      rfl
    have hlength : w.stream.yielded.length =
        (((w.session.records sessionId).take w.stream.lastId).drop w.stream.after).length := by
      rw [← h.yielded, List.length_map]
    rw [hids, h.yielded, hlength, List.map_drop, List.map_take, ids_records sessionId h.dense,
      List.length_drop, List.length_take]
    rcases le_total w.stream.lastId (w.session.records sessionId).length with hle | hle
    · rw [List.take_range'_of_length_ge hle, List.drop_range', min_eq_left hle, Nat.mul_one,
        Nat.add_comm]
    · rw [List.take_range'_of_length_le hle, List.drop_range', min_eq_right hle, Nat.mul_one,
        Nat.add_comm]
  · rw [hfilter, List.mem_filter, decide_eq_true_iff]
    exact ⟨hr, habove, hle.trans (h.caughtUp hcaught)⟩

/-- A client that has seen nothing gets the first event from the log and the second from the
channel. -/
theorem run_gapless_handoff :
    let w := run "s" { session := createdSession, hub := ⟨∅, [], 1⟩, published := 1
                       stream := .start 0 }
      [.advance, .advance, .advance, .advance, .commit (fun _ => "t1") createdProjection [.queuePaused],
        .publish { id := 2, sessionId := "s", schemaVersion := 1, occurredAt := "t1"
                   event := .queuePaused }, .advance]
    w.stream.yielded.map (·.id) = [1, 2] ∧
      w.stream.yielded.map RecordedEvent.reload = (w.session.records "s").filter
        (fun r => 0 < r.id ∧ r.id ≤ w.stream.lastId) :=
  ⟨rfl, (run_gapless createdSession_coherent.dense (le_refl 1) (EventHub.wellFormed_empty 1) 0 _).1⟩

end StreamWorld

end Piqo
