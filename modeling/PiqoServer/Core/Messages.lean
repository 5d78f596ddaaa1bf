import PiqoServer.Core.Replay

/-!
# Messages

A message is opened by one event, grows while it is open and is closed by another. Messages are
listed in the order in which they were opened.

## Main definitions

* `MessagesChange`: what an event does to the messages

## Main results

* `apply_messages`: every accepted event changes the messages as `MessagesChange` says
* `MessagesChange.nodup`, `ordered`, `closedOnce`: messages have ids of their own, stand in the
  order of their first events and are closed at most once
* `MessagesOrdered.apply`: the same along a log with consecutive ids
* `apply_closed_mem`: a closed message stays as it is
-/

namespace Piqo

/-- The first message with the id is open, and updated. -/
theorem updateOpenMessage_eq_ok {messageId : String} {f : MessageProjection → MessageProjection}
    {messages messages' : List MessageProjection} :
    updateOpenMessage messageId f messages = .ok messages' ↔
      ∃ before message after, messages = before ++ message :: after ∧
        message.messageId = messageId ∧ message.closed = false ∧
        (∀ m ∈ before, m.messageId ≠ messageId) ∧ messages' = before ++ f message :: after := by
  induction messages generalizing messages' with
  | nil =>
    refine iff_of_false nofun ?_
    rintro ⟨before, message, after, hnil, -⟩
    simp at hnil
  | cons m ms ih =>
    unfold updateOpenMessage updateMessage
    split
    · next hid =>
      rw [Except.map_eq_ok]
      constructor
      · rintro ⟨m', hm', rfl⟩
        obtain ⟨hopen, heq⟩ := Except.ite_error_eq_ok.mp hm'
        cases heq
        exact ⟨[], m, ms, rfl, hid, by simpa using hopen, by simp, rfl⟩
      · rintro ⟨before, message, after, heq, hmessage, hopen, hbefore, rfl⟩
        cases before with
        | nil =>
          cases heq
          exact ⟨f m, by rw [hopen]; rfl, rfl⟩
        | cons b before =>
          cases heq
          exact absurd hid (hbefore m List.mem_cons_self)
    · next hid =>
      rw [Except.map_eq_ok]
      constructor
      · rintro ⟨ms', hms', rfl⟩
        obtain ⟨before, message, after, rfl, hmessage, hopen, hbefore, rfl⟩ := ih.mp hms'
        exact ⟨m :: before, message, after, rfl, hmessage, hopen,
          List.forall_mem_cons.mpr ⟨hid, hbefore⟩, rfl⟩
      · rintro ⟨before, message, after, heq, hmessage, hopen, hbefore, rfl⟩
        cases before with
        | nil =>
          cases heq
          exact absurd hmessage hid
        | cons b before =>
          cases heq
          exact ⟨_, ih.mpr ⟨before, message, after, rfl, hmessage, hopen,
            (List.forall_mem_cons.mp hbefore).2, rfl⟩, rfl⟩

/-- The change of an open message by an event. -/
inductive MessageChange (eventId : Nat) (message : MessageProjection) :
    SemanticEvent → MessageProjection → Prop
  | appended (block : ContentBlock) :
    MessageChange eventId message (.messageContentAppended message.messageId block)
      { message with blocks := message.blocks ++ [block], lastEventId := eventId }
  | completed :
    MessageChange eventId message (.messageCompleted message.messageId)
      { message with completed := true, lastEventId := eventId }
  | interrupted :
    MessageChange eventId message (.messageInterrupted message.messageId)
      { message with interrupted := true, lastEventId := eventId }

theorem MessageChange.keeps {eventId : Nat} {e : SemanticEvent}
    {message message' : MessageProjection}
    (h : MessageChange eventId message e message') :
    message'.messageId = message.messageId ∧ message'.firstEventId = message.firstEventId ∧
      message'.lastEventId = eventId := by
  cases h <;> exact ⟨rfl, rfl, rfl⟩

/-- Events about messages. -/
def SemanticEvent.aboutMessage : SemanticEvent → Bool
  | .messageStarted _ _ _ _ | .messageContentAppended _ _ | .messageCompleted _
  | .messageInterrupted _ => true
  | _ => false

/-- What an event does to the messages. -/
inductive MessagesChange (eventId : Nat) (e : SemanticEvent) :
    List MessageProjection → List MessageProjection → Prop
  | same (messages : List MessageProjection) (he : e.aboutMessage = false) :
    MessagesChange eventId e messages messages
  | started {messageId agentId role author} (messages : List MessageProjection)
      (he : e = .messageStarted messageId agentId role author)
      (hfresh : ∀ m ∈ messages, m.messageId ≠ messageId) :
    MessagesChange eventId e messages (messages ++ [{
      messageId, role
      agentId := if agentId.isEmpty then none else some agentId
      author := projectedAuthor author role agentId
      blocks := [], completed := false, interrupted := false
      firstEventId := eventId, lastEventId := eventId }])
  | updated (before after : List MessageProjection) {message message' : MessageProjection}
      (hopen : message.closed = false) (hchange : MessageChange eventId message e message') :
    MessagesChange eventId e (before ++ message :: after) (before ++ message' :: after)

namespace MessagesChange

variable {eventId : Nat} {e : SemanticEvent} {messages messages' : List MessageProjection}

/-- Messages keep ids of their own. -/
theorem nodup (h : MessagesChange eventId e messages messages')
    (hnodup : (messages.map (·.messageId)).Nodup) : (messages'.map (·.messageId)).Nodup := by
  cases h with
  | same => exact hnodup
  | started _ _ hfresh =>
    rw [List.map_append, List.map_singleton, List.nodup_append]
    refine ⟨hnodup, by simp, ?_⟩
    intro id hid id' hid'
    obtain ⟨m, hm, rfl⟩ := List.mem_map.mp hid
    rw [List.mem_singleton.mp hid']
    exact hfresh m hm
  | updated before after hopen hmessage =>
    rw [List.map_append, List.map_cons] at hnodup ⊢
    rw [hmessage.keeps.1]
    exact hnodup

/-- An event with a new id leaves the messages in the order of their first events. -/
theorem ordered (h : MessagesChange eventId e messages messages')
    (hopened : messages.Pairwise (·.firstEventId < ·.firstEventId))
    (hbounded : ∀ m ∈ messages, m.firstEventId ≤ m.lastEventId ∧ m.lastEventId < eventId) :
    messages'.Pairwise (·.firstEventId < ·.firstEventId) ∧
      ∀ m ∈ messages', m.firstEventId ≤ m.lastEventId ∧ m.lastEventId ≤ eventId := by
  cases h with
  | same =>
    refine ⟨hopened, ?_⟩
    intro m hm
    obtain ⟨hfirst, hlast⟩ := hbounded m hm
    exact ⟨hfirst, hlast.le⟩
  | started _ _ hfresh =>
    constructor
    · rw [List.pairwise_append]
      refine ⟨hopened, List.pairwise_singleton _ _, ?_⟩
      intro m hm m' hm'
      obtain ⟨hfirst, hlast⟩ := hbounded m hm
      rw [List.mem_singleton.mp hm']
      exact hfirst.trans_lt hlast
    · intro m hm
      rcases List.mem_append.mp hm with hm | hm
      · obtain ⟨hfirst, hlast⟩ := hbounded m hm
        exact ⟨hfirst, hlast.le⟩
      · rw [List.mem_singleton.mp hm]
        exact ⟨le_refl _, le_refl _⟩
  | @updated before after message message' hopen hmessage =>
    obtain ⟨-, hfirst, hlast'⟩ := hmessage.keeps
    constructor
    · rw [List.pairwise_append, List.pairwise_cons] at hopened ⊢
      simp only [List.forall_mem_cons, hfirst] at hopened ⊢
      exact hopened
    · intro m hm
      rcases List.mem_append.mp hm with hm | hm
      · obtain ⟨hle, hlt⟩ := hbounded m (List.mem_append_left _ hm)
        exact ⟨hle, hlt.le⟩
      · rcases List.mem_cons.mp hm with rfl | hm
        · obtain ⟨hle, hlt⟩ := hbounded message (by simp)
          omega
        · obtain ⟨hle, hlt⟩ := hbounded m (by simp [hm])
          exact ⟨hle, hlt.le⟩

/-- A message is closed at most once. -/
theorem closedOnce (h : MessagesChange eventId e messages messages')
    (honce : ∀ m ∈ messages, ¬(m.completed = true ∧ m.interrupted = true)) :
    ∀ m ∈ messages', ¬(m.completed = true ∧ m.interrupted = true) := by
  cases h with
  | same => exact honce
  | started =>
    intro m hm
    rcases List.mem_append.mp hm with hm | hm
    · exact honce m hm
    · rw [List.mem_singleton.mp hm]
      simp
  | @updated before after message message' hopen hmessage =>
    intro m hm
    rcases List.mem_append.mp hm with hm | hm
    · exact honce m (List.mem_append_left _ hm)
    · rcases List.mem_cons.mp hm with rfl | hm
      · rw [MessageProjection.closed, Bool.or_eq_false_iff] at hopen
        cases hmessage <;> simp [hopen]
      · exact honce m (by simp [hm])

end MessagesChange

namespace SessionProjection

variable {p q : SessionProjection} {eventId : Nat} {e : SemanticEvent}

/-- Every accepted event changes the messages as `MessagesChange` says. -/
theorem apply_messages (h : p.apply eventId e = .ok q) :
    MessagesChange eventId e p.messages q.messages := by
  obtain ⟨state, -, hq⟩ := apply_eq_ok.mp h
  cases e <;>
    simp only [applyEvent, updateRun_eq_ok, updateInstance_eq_ok, setRunTerminal_eq_ok,
      Except.map_eq_ok, Except.bind_eq_ok, Except.ite_error_eq_ok, Except.ok.injEq,
      setQueuePaused] at hq
  case messageStarted messageId agentId role author =>
    obtain ⟨hfresh, rfl⟩ := hq
    exact .started p.messages rfl (by simpa using hfresh)
  case messageContentAppended messageId block =>
    obtain ⟨messages, hupdate, rfl⟩ := hq
    obtain ⟨before, message, after, hsplit, rfl, hopen, -, rfl⟩ := updateOpenMessage_eq_ok.mp hupdate
    rw [hsplit]
    exact .updated before after hopen (.appended block)
  case messageCompleted messageId =>
    obtain ⟨messages, hupdate, rfl⟩ := hq
    obtain ⟨before, message, after, hsplit, rfl, hopen, -, rfl⟩ := updateOpenMessage_eq_ok.mp hupdate
    rw [hsplit]
    exact .updated before after hopen .completed
  case messageInterrupted messageId =>
    obtain ⟨messages, hupdate, rfl⟩ := hq
    obtain ⟨before, message, after, hsplit, rfl, hopen, -, rfl⟩ := updateOpenMessage_eq_ok.mp hupdate
    rw [hsplit]
    exact .updated before after hopen .interrupted
  case permissionResolved requestId decision _ _ _ _ =>
    split at hq
    · cases hq
    · split at hq
      · cases hq
        exact .same _ rfl
      · cases (Except.ite_ok_eq_ok.mp hq).2
        exact .same _ rfl
  case contextFactRecorded fact => split at hq <;> cases hq <;> exact .same _ rfl
  all_goals
    have hmessages : q.messages = p.messages := by grind
    rw [hmessages]
    exact .same _ rfl

/-- A closed message stays as it is. -/
theorem apply_closed_mem (h : p.apply eventId e = .ok q) {m : MessageProjection}
    (hm : m ∈ p.messages) (hclosed : m.closed = true) : m ∈ q.messages := by
  have hchange := apply_messages h
  generalize p.messages = messages at hchange hm
  generalize q.messages = messages' at hchange
  cases hchange with
  | same => exact hm
  | started => exact List.mem_append_left _ hm
  | updated before after hopen _ =>
    rcases List.mem_append.mp hm with hm | hm
    · exact List.mem_append_left _ hm
    · rcases List.mem_cons.mp hm with rfl | hm
      · rw [hclosed] at hopen
        cases hopen
      · exact List.mem_append_right _ (List.mem_cons_of_mem _ hm)

/-- The messages have ids of their own and stand in the order in which they were opened. -/
structure MessagesOrdered (p : SessionProjection) : Prop where
  nodup : (p.messages.map (·.messageId)).Nodup
  opened : p.messages.Pairwise (·.firstEventId < ·.firstEventId)
  bounded : ∀ m ∈ p.messages,
    m.firstEventId ≤ m.lastEventId ∧ m.lastEventId ≤ p.state.lastEventId.getD 0

theorem MessagesOrdered.new (sessionId : String) : (new sessionId).MessagesOrdered :=
  ⟨List.nodup_nil, List.Pairwise.nil, by simp [SessionProjection.new]⟩

theorem MessagesOrdered.apply (hp : p.MessagesOrdered)
    (h : p.apply (p.state.lastEventId.getD 0 + 1) e = .ok q) : q.MessagesOrdered := by
  have hlast : q.state.lastEventId.getD 0 = p.state.lastEventId.getD 0 + 1 := by
    rw [apply_lastEventId h]
    rfl
  obtain ⟨hopened, hbounded⟩ := (apply_messages h).ordered hp.opened (by
    intro m hm
    have hle := hp.bounded m hm
    omega)
  exact ⟨(apply_messages h).nodup hp.nodup, hopened, by rw [hlast]; exact hbounded⟩

end SessionProjection

end Piqo
