import Mathlib
import PiqoServer.Core.Messages
import PiqoServer.Server.ContextWindow

/-!
# What a summary stands for

Messages are selected for a summary in the order in which they were opened, and are hidden behind
it by the event that closed them. Where the two orders agree on the messages selected and the
messages kept, a compaction neither loses a message nor shows it twice.

The range of an artifact reaches back to the first compaction of the session, while its summary is
made of the messages selected, and of nothing else.

## Main definitions

* `Shows`: the transcript of a body has an entry for a message
* `Lossless`: a compaction loses no message and shows none twice
* `SessionProjection.SelectsInOrder`: where the two orders agree
* `CompactionHistory`: a session and its compactions
* `Compaction.Complete`: a summary that accounts for its range

## Main results

* `buildCompactedBody_lossless_iff`: where a compaction loses no message
* `compactionHistory_complete_iff`: where the summaries account for their ranges
-/

namespace Piqo

/-! ## Entries of a transcript -/

section Entries

/-- An entry of a transcript for a message. -/
def EntryOf (entry : Json) (message : MessageProjection) : Prop :=
  entry.get "role" = some (.str (roleName message.role)) ∧
    entry.get "content" = some (messageContent message.blocks)

/-- Two entries that differ in the calls attached to them only. -/
def SameEntry (entry entry' : List (String × Json)) : Prop :=
  ∀ key ≠ "tool_calls", SortedMap.lookup key entry' = SortedMap.lookup key entry

theorem SameEntry.refl (entry : List (String × Json)) : SameEntry entry entry := fun _ _ => rfl

theorem forall₂_set {α : Type} {R : α → α → Prop} (hR : ∀ a, R a a) {as : List α} {i : Nat}
    {a a' : α} (ha : as[i]? = some a) (h : R a a') : List.Forall₂ R as (as.set i a') := by
  induction as generalizing i with
  | nil => simp at ha
  | cons b as ih =>
    cases i with
    | zero =>
      cases ha
      exact .cons h (List.forall₂_same.mpr fun x _ => hR x)
    | succ i => exact .cons (hR b) (ih ha)

theorem forall₂_append_right {α β : Type} {R : α → β → Prop} {as as' : List α} {bs : List β}
    (h : List.Forall₂ R (as ++ as') bs) :
    ∃ front back, bs = front ++ back ∧ List.Forall₂ R as' back := by
  refine ⟨bs.take as.length, bs.drop as.length, (List.take_append_drop ..).symm, ?_⟩
  have hdrop := List.forall₂_drop as.length h
  rwa [List.drop_left] at hdrop

theorem forall₂_sameEntry_trans {as bs cs : List (List (String × Json))}
    (h : List.Forall₂ SameEntry as bs) (h' : List.Forall₂ SameEntry bs cs) :
    List.Forall₂ SameEntry as cs := by
  induction h generalizing cs with
  | nil => exact h'
  | cons hab _ ih =>
    cases h' with
    | cons hbc hrest => exact .cons (fun key hkey => (hbc key hkey).trans (hab key hkey)) (ih hrest)

/-- Attaching calls leaves the rest of the entries. -/
theorem attachCalls_sameEntry {calls : List ToolCallProjection} {position : Nat}
    {messages : List MessageProjection} {transcript result : List (List (String × Json))}
    (h : attachCalls calls position messages transcript = some result) :
    List.Forall₂ SameEntry transcript result := by
  induction messages generalizing position transcript with
  | nil =>
    cases h
    exact List.forall₂_same.mpr fun entry _ => .refl entry
  | cons message messages ih =>
    rw [attachCalls] at h
    split at h
    · exact ih h
    · split at h
      · cases h
      · next entry hentry =>
        refine forall₂_sameEntry_trans (forall₂_set SameEntry.refl hentry ?_) (ih h)
        intro key hkey
        rw [SortedMap.lookup_insertEntry, if_neg hkey]

/-- The entries for messages, whatever the protocol puts around them. -/
theorem transcriptField_entries {protocol : ProviderProtocol} {p : SessionProjection}
    {instructions : Option String} {key : String} {transcript : Json}
    (h : transcriptField protocol p instructions = some (key, transcript)) :
    ∃ front entries back, transcript = .arr (front ++ entries ++ back) ∧
      List.Forall₂ EntryOf entries p.compactable := by
  have hentries : ∀ result, List.Forall₂ SameEntry (transcriptMessages p instructions) result →
      ∃ front entries, result.map Json.obj = front ++ entries ∧
        List.Forall₂ EntryOf entries p.compactable := by
    intro result hresult
    -- instructions and summary come first
    obtain ⟨front, entries, rfl, hentries⟩ := forall₂_append_right hresult
    refine ⟨front.map .obj, entries.map .obj, List.map_append, ?_⟩
    rw [List.forall₂_map_left_iff] at hentries ⊢
    refine List.Forall₂.flip (hentries.imp ?_)
    intro message entry hsame
    exact ⟨hsame "role" (by decide), hsame "content" (by decide)⟩
  cases protocol with
  | chatCompletions =>
    obtain ⟨items, hitems, heq⟩ := Option.map_eq_some_iff.mp h
    cases heq
    obtain ⟨result, hresult, rfl⟩ := Option.map_eq_some_iff.mp hitems
    obtain ⟨front, entries, hsplit, hforall⟩ := hentries result (attachCalls_sameEntry hresult)
    exact ⟨front, entries, _, by rw [hsplit], hforall⟩
  | responses =>
    cases h
    obtain ⟨front, entries, hsplit, hforall⟩ := hentries _
      (List.forall₂_same.mpr fun entry _ => .refl entry)
    exact ⟨front, entries, _, by rw [responsesTranscript, hsplit], hforall⟩

end Entries

/-! ## Lossless compaction -/

section Lossless

variable {inputs : CompactionInputs} {p : SessionProjection} {body : Json}
  {m : MessageProjection} {artifact : ContextArtifact}

/-- The body shows the message: its transcript was filled in, and the message is one of those that
the entries are made of. -/
structure Shows (inputs : CompactionInputs) (p : SessionProjection) (body : Json)
    (message : MessageProjection) : Prop where
  filled : suppliedValue inputs.config inputs.request (transcriptKey inputs.provider.protocol) = none
  entries : ∃ front entries back, body.get (transcriptKey inputs.provider.protocol) =
    some (.arr (front ++ entries ++ back)) ∧ List.Forall₂ EntryOf entries p.compactable
  mem : message ∈ p.compactable

theorem lookup_harnessFields_transcriptKey (protocol : ProviderProtocol) (request : RunRequest)
    (nativeTools : List NativeTool) (mcpTools : List McpToolDefinition)
    (fields : List (String × Json)) :
    SortedMap.lookup (transcriptKey protocol)
        (harnessFields protocol request nativeTools mcpTools fields) =
      SortedMap.lookup (transcriptKey protocol) fields := by
  have hmodel : transcriptKey protocol ≠ "model" := by cases protocol <;> decide
  have hstream : transcriptKey protocol ≠ "stream" := by cases protocol <;> decide
  have htools : transcriptKey protocol ≠ "tools" := by cases protocol <;> decide
  unfold harnessFields
  split
  · rw [lookup_orInsert_of_ne htools, lookup_orInsert_of_ne hstream, lookup_orInsert_of_ne hmodel]
  · rw [lookup_orInsert_of_ne hstream, lookup_orInsert_of_ne hmodel]

/-- A transcript that is filled in shows the closed messages that no summary covers. -/
theorem shows_iff (hbodies : DistinctBodies inputs.config inputs.request)
    (h : inputs.body p = .ok body) :
    Shows inputs p body m ↔
      suppliedValue inputs.config inputs.request (transcriptKey inputs.provider.protocol) = none ∧
        m ∈ p.compactable := by
  refine ⟨fun hshows => ⟨hshows.filled, hshows.mem⟩, ?_⟩
  rintro ⟨hfilled, hmem⟩
  refine ⟨hfilled, ?_, hmem⟩
  obtain ⟨fields, instructions, key, transcript, hmerge, -, hfield, rfl⟩ := buildBody_eq_ok h
  obtain ⟨front, entries, back, rfl, hentries⟩ := transcriptField_entries hfield
  refine ⟨front, entries, back, ?_, hentries⟩
  change SortedMap.lookup _ (Json.orInsert key _ _) = _
  rw [transcriptField_fst hfield, Json.lookup_orInsert, if_pos rfl,
    lookup_harnessFields_transcriptKey, lookup_merged hbodies hmerge, hfilled]
  rfl

theorem mem_compactable : m ∈ p.compactable ↔
    m ∈ p.messages ∧ m.closed = true ∧ uncovered p.context.activeArtifact m = true := by
  rw [SessionProjection.compactable, List.mem_filter, List.mem_filter, and_assoc]

theorem mem_compactable_withArtifact : m ∈ (p.withArtifact artifact).compactable ↔
    m ∈ p.messages ∧ m.closed = true ∧ artifact.sourceEndEventId < m.lastEventId := by
  rw [mem_compactable]
  simp [SessionProjection.withArtifact, uncovered]

theorem selected_subset (h : m ∈ p.selected) : m ∈ p.compactable := List.mem_of_mem_take h

/-- What is selected leaves messages that are kept. -/
theorem exists_kept (hp : p.MessagesOrdered) (hselected : p.selected ≠ []) :
    ∃ m ∈ p.compactable, m ∉ p.selected := by
  have hnodup : p.compactable.Nodup :=
    (hp.nodup.of_map _).sublist (List.filter_sublist.trans List.filter_sublist)
  have hlength : p.compactable.length - 4 < p.compactable.length := by
    have hpos := List.length_pos_iff.mpr hselected
    rw [SessionProjection.selected, List.length_take] at hpos
    omega
  rw [← List.take_append_drop (p.compactable.length - 4) p.compactable, List.nodup_append] at hnodup
  obtain ⟨m, hm⟩ := List.exists_mem_of_ne_nil (p.compactable.drop (p.compactable.length - 4))
    (by rw [ne_eq, List.drop_eq_nil_iff]; omega)
  exact ⟨m, List.mem_of_mem_drop hm, fun hmem => hnodup.2.2 m hmem m hm rfl⟩

/-- The last event of the last message selected separates the messages selected from those that
are kept. -/
def SessionProjection.SelectsInOrder (p : SessionProjection) : Prop :=
  ∀ last ∈ p.selected.getLast?,
    (∀ m ∈ p.selected, m.lastEventId ≤ last.lastEventId) ∧
      ∀ m ∈ p.compactable, m ∉ p.selected → last.lastEventId < m.lastEventId

/-- A compaction that loses no message and shows none twice: a closed message that was neither
selected nor covered before is shown, and no selected message is. -/
structure Lossless (inputs : CompactionInputs) (p : SessionProjection) (artifact : ContextArtifact)
    (body : Json) : Prop where
  kept : ∀ m ∈ p.messages, m.closed = true → m ∉ p.selected →
    uncovered p.context.activeArtifact m = true → Shows inputs (p.withArtifact artifact) body m
  hidden : ∀ m ∈ p.selected, ¬ Shows inputs (p.withArtifact artifact) body m

theorem Compacted.lossless_iff {env : Surroundings} (h : Compacted env inputs p artifact body)
    (hbodies : DistinctBodies inputs.config inputs.request) (hp : p.MessagesOrdered) :
    Lossless inputs p artifact body ↔
      suppliedValue inputs.config inputs.request (transcriptKey inputs.provider.protocol) = none ∧
        p.SelectsInOrder := by
  obtain ⟨first, rest, hselected, -, hend⟩ := h.range
  have hshows := fun m => shows_iff (m := m) hbodies h.body
  have hlast : p.selected.getLast? = some ((first :: rest).getLast (by simp)) := by
    rw [hselected, List.getLast?_eq_some_getLast]
  constructor
  · rintro ⟨hkept, hhidden⟩
    obtain ⟨kept, hmem, hnot⟩ := exists_kept hp (by rw [hselected]; simp)
    obtain ⟨hmessage, hclosed, huncovered⟩ := mem_compactable.mp hmem
    have hfilled := (hkept kept hmessage hclosed hnot huncovered).filled
    refine ⟨hfilled, ?_⟩
    intro last hlast'
    rw [hlast, Option.mem_some_iff] at hlast'
    rw [← hlast', ← hend]
    refine ⟨?_, ?_⟩
    · intro m hm
      by_contra hlt
      obtain ⟨hmessage, hclosed, -⟩ := mem_compactable.mp (selected_subset hm)
      exact hhidden m hm ((hshows m).mpr ⟨hfilled,
        mem_compactable_withArtifact.mpr ⟨hmessage, hclosed, Nat.not_le.mp hlt⟩⟩)
    · intro m hm hnot
      obtain ⟨hmessage, hclosed, huncovered⟩ := mem_compactable.mp hm
      exact (mem_compactable_withArtifact.mp
        (hkept m hmessage hclosed hnot huncovered).mem).2.2
  · rintro ⟨hfilled, horder⟩
    obtain ⟨hbefore, hafter⟩ := horder _ hlast
    rw [← hend] at hbefore hafter
    refine ⟨?_, ?_⟩
    · intro m hmessage hclosed hnot huncovered
      refine (hshows m).mpr ⟨hfilled, mem_compactable_withArtifact.mpr ⟨hmessage, hclosed, ?_⟩⟩
      exact hafter m (mem_compactable.mpr ⟨hmessage, hclosed, huncovered⟩) hnot
    · intro m hm hshow
      have hlt := (mem_compactable_withArtifact.mp hshow.mem).2.2
      exact Nat.not_lt.mpr (hbefore m hm) hlt

/-- An artifact that is new was recorded by a compaction. -/
theorem buildCompactedBody_recorded (env : Surroundings) {sessionId runId : String} {w w' : World}
    {q : SessionProjection} (hw : w.Sound) (hview : w.view sessionId = some p)
    (h : (buildCompactedBody sessionId runId inputs).run (World.handle env) w = (.ok body, w'))
    (hview' : w'.view sessionId = some q) (hrecorded : q.context.activeArtifact = some artifact)
    (hnew : p.context.activeArtifact ≠ some artifact) :
    Compacted env inputs p artifact body ∧ w'.Sound ∧
      SameTranscript (p.withArtifact artifact) q := by
  rcases buildCompactedBody_eq_ok env hw hview h with
    ⟨-, -, q', hq', hsame⟩ | ⟨-, budget, w₁, w₂, -, ⟨-, hreads, -⟩ | ⟨-, artifact', q', hways⟩⟩
  · rw [hview'] at hq'
    cases hq'
    exact absurd (hsame.artifact.symm.trans hrecorded) hnew
  · rw [hreads.view, hview] at hview'
    cases hview'
    exact absurd hrecorded hnew
  · obtain ⟨hcompacted, hsound, hq', hsame⟩ := hways
    rw [hview'] at hq'
    cases hq'
    obtain rfl : artifact = artifact' :=
      Option.some.inj (hrecorded.symm.trans hsame.artifact)
    exact ⟨hcompacted, hsound, hsame⟩

/-- **Where a compaction loses no message.** No configured body has the transcript of the protocol,
and the last event of the last message selected comes after those of the other selected messages
and before those of the messages that are kept. -/
theorem buildCompactedBody_lossless_iff (env : Surroundings) (sessionId runId : String)
    (inputs : CompactionInputs) (w w' : World) (p q : SessionProjection) (body : Json)
    (artifact : ContextArtifact) (hbodies : DistinctBodies inputs.config inputs.request)
    (hw : w.Sound) (hview : w.view sessionId = some p)
    (h : (buildCompactedBody sessionId runId inputs).run (World.handle env) w = (.ok body, w'))
    (hview' : w'.view sessionId = some q) (hrecorded : q.context.activeArtifact = some artifact)
    (hnew : p.context.activeArtifact ≠ some artifact) :
    Lossless inputs p artifact body ↔
      suppliedValue inputs.config inputs.request (transcriptKey inputs.provider.protocol) = none ∧
        p.SelectsInOrder := by
  obtain ⟨hcompacted, -, -⟩ := buildCompactedBody_recorded env hw hview h hview' hrecorded hnew
  exact hcompacted.lossless_iff hbodies (Store.Sound.messagesOrdered_view hw hview)

end Lossless

instance (p : SessionProjection) : Decidable p.SelectsInOrder :=
  decidable_of_iff (∀ last ∈ p.selected.getLast?.toList,
    (∀ m ∈ p.selected, m.lastEventId ≤ last.lastEventId) ∧
      ∀ m ∈ p.compactable, m ∉ p.selected → last.lastEventId < m.lastEventId)
    (by simp only [Option.mem_toList]; rfl)

/-- A window in which eight messages do not fit, and summaries that need no model. -/
def tightWindow : PiqoConfig where
  context := {
    fallbackContextWindowTokens := 170
    fallbackOutputReserveTokens := 20
    compaction := { strategy := .deterministic } }
  providerContexts := (∅ : SortedMap String ProviderContextConfig).insert "p" {}

def tightInputs : CompactionInputs where
  request :=
    { provider := "p", model := "m", input := .str "hi", agent := none, variant := none
      body := .obj [] }
  config := tightWindow
  provider := ⟨.chatCompletions⟩
  nativeTools := []
  mcpTools := []

theorem tightInputs_distinct : DistinctBodies tightInputs.config tightInputs.request := by
  intro body hbody fields heq
  change body ∈ [tightInputs.request.body, tightWindow.defaults.body] at hbody
  simp only [List.mem_cons, List.not_mem_nil, or_false] at hbody
  rcases hbody with rfl | rfl <;> cases heq
  exact List.nodup_nil

/-- Messages that are opened and closed in turn. -/
def closedMessages (ids : List String) : List SemanticEvent :=
  ids.flatMap fun id => [.messageStarted id "" .user .user, .messageCompleted id]

/-- Eight messages in turn. -/
def closedInTurn : List SemanticEvent := closedMessages ["a", "b", "c", "d", "e", "f", "g", "h"]

/-- The fourth of eight messages is closed last. -/
def closedLate : List SemanticEvent :=
  closedMessages ["a", "b", "c"] ++ [.messageStarted "d" "" .assistant (.agent "x")] ++
    closedMessages ["e", "f", "g", "h"] ++ [.messageInterrupted "d"]

/-- The first compaction of a session. -/
def firstCompaction (events : List SemanticEvent) : Except StoreError Json × World :=
  (buildCompactedBody "s" "r" tightInputs).run (World.handle (.plain tightWindow))
    (World.holding events)

/-- Whether it is recorded. -/
def recordsArtifact (events : List SemanticEvent) : Bool :=
  (firstCompaction events).1.toOption.isSome &&
    ((World.holding events).view "s").any (·.context.activeArtifact.isNone) &&
    ((firstCompaction events).2.view "s").any (·.context.activeArtifact.isSome)

theorem exists_firstCompaction (events : List SemanticEvent) (h : recordsArtifact events = true) :
    ∃ body w' p q artifact, firstCompaction events = (.ok body, w') ∧
      (World.holding events).view "s" = some p ∧ w'.view "s" = some q ∧
      p.context.activeArtifact = none ∧ q.context.activeArtifact = some artifact := by
  unfold recordsArtifact at h
  generalize firstCompaction events = r at h ⊢
  rcases r with ⟨e | body, w'⟩
  · cases h
  rw [Bool.and_eq_true, Bool.and_eq_true, Option.any_eq_true_iff_get, Option.any_eq_true_iff_get] at h
  obtain ⟨⟨-, hp, hnone⟩, hq, hsome⟩ := h
  obtain ⟨p, hp'⟩ := Option.isSome_iff_exists.mp hp
  obtain ⟨q, hq'⟩ := Option.isSome_iff_exists.mp hq
  simp only [hp', hq', Option.get_some] at hnone hsome
  obtain ⟨artifact, hartifact⟩ := Option.isSome_iff_exists.mp hsome
  exact ⟨body, w', p, q, artifact, rfl, hp', hq', Option.isNone_iff_eq_none.mp hnone, hartifact⟩

/-- The compaction of messages that were not closed in turn loses messages. -/
theorem buildCompactedBody_loses :
    ∃ w' p q body artifact,
      (buildCompactedBody "s" "r" tightInputs).run (World.handle (.plain tightWindow))
        (World.holding closedLate) = (.ok body, w') ∧
      (World.holding closedLate).view "s" = some p ∧ w'.view "s" = some q ∧
      q.context.activeArtifact = some artifact ∧ p.context.activeArtifact ≠ some artifact ∧
      tightInputs.request.ownTranscript = false ∧ ¬ Lossless tightInputs p artifact body := by
  obtain ⟨body, w', p, q, artifact, h, hview, hview', hnone, hrecorded⟩ :=
    exists_firstCompaction closedLate (by decide +kernel)
  have hnew : p.context.activeArtifact ≠ some artifact := by
    rw [hnone]
    simp
  have horder : ((World.holding closedLate).view "s").all (fun p => decide (¬ p.SelectsInOrder)) =
      true := by decide +kernel
  rw [hview, Option.all_some, decide_eq_true_iff] at horder
  refine ⟨w', p, q, body, artifact, h, hview, hview', hrecorded, hnew, by decide, ?_⟩
  have hw := World.holding_sound closedLate
  obtain ⟨hcompacted, -, -⟩ := buildCompactedBody_recorded _ hw hview h hview' hrecorded hnew
  rw [hcompacted.lossless_iff tightInputs_distinct (Store.Sound.messagesOrdered_view hw hview)]
  exact fun hcondition => horder hcondition.2

theorem closedInTurn_recorded : recordsArtifact closedInTurn = true := by decide +kernel

/-- The compaction of messages that were closed in turn loses none. -/
theorem buildCompactedBody_lossless_inTurn :
    ∃ w' p q body artifact,
      (buildCompactedBody "s" "r" tightInputs).run (World.handle (.plain tightWindow))
        (World.holding closedInTurn) = (.ok body, w') ∧
      (World.holding closedInTurn).view "s" = some p ∧ w'.view "s" = some q ∧
      q.context.activeArtifact = some artifact ∧ p.context.activeArtifact ≠ some artifact ∧
      Lossless tightInputs p artifact body := by
  obtain ⟨body, w', p, q, artifact, h, hview, hview', hnone, hrecorded⟩ :=
    exists_firstCompaction closedInTurn closedInTurn_recorded
  have hnew : p.context.activeArtifact ≠ some artifact := by
    rw [hnone]
    simp
  have horder : ((World.holding closedInTurn).view "s").all (fun p => decide p.SelectsInOrder) =
      true := by decide +kernel
  rw [hview, Option.all_some, decide_eq_true_iff] at horder
  refine ⟨w', p, q, body, artifact, h, hview, hview', hrecorded, hnew, ?_⟩
  exact (buildCompactedBody_lossless_iff (.plain tightWindow) "s" "r" tightInputs _ w' p q body
    artifact tightInputs_distinct (World.holding_sound closedInTurn) hview h hview' hrecorded
    hnew).mpr ⟨by decide, horder⟩

/-! ## Ranges and summaries -/

/-- A compaction: what was shown of the session before, what the run was built from, and the
artifact that was recorded. -/
structure Compaction where
  before : SessionProjection
  inputs : CompactionInputs
  artifact : ContextArtifact

/-- What a summary is: a text, or what a model answers to a request. -/
inductive SummarySource where
  | text (summary : String)
  | request (body : Except StoreError Json)

/-- What the summary of a session is computed from. -/
def summarySource (inputs : CompactionInputs) (p : SessionProjection) : SummarySource :=
  match inputs.config.context.compaction.strategy with
  | .deterministic => .text (deterministicSummary p.selected)
  | .llm => .request
      (summaryRequestBody inputs.config inputs.provider.protocol inputs.request p.selected)

namespace Compaction

/-- The summary depends on the text of the summary before it. -/
def ReadsPrevious (c : Compaction) : Prop :=
  ∃ previous text, c.before.context.activeArtifact = some previous ∧
    summarySource c.inputs (c.before.withArtifact { previous with summary := text }) ≠
      summarySource c.inputs c.before

/-- The messages that the summary of the last compaction accounts for: those selected, and those of
the summary before it where it depends on that. -/
def AccountsFor : List Compaction → MessageProjection → Prop
  | [], _ => False
  | c :: cs, m => m ∈ c.before.selected ∨ (c.ReadsPrevious ∧ AccountsFor cs m)

/-- A message within the range of an artifact. -/
def inRange (artifact : ContextArtifact) (m : MessageProjection) : Bool :=
  decide (artifact.sourceStartEventId ≤ m.firstEventId ∧ m.lastEventId ≤ artifact.sourceEndEventId)

/-- The closed messages within the range of the artifact. -/
def range (c : Compaction) : List MessageProjection :=
  c.before.messages.filter fun m => m.closed && inRange c.artifact m

/-- The summary accounts for every closed message in its range, and counts them right where it
counts them. -/
structure Complete (c : Compaction) (earlier : List Compaction) : Prop where
  covered : ∀ m ∈ c.range, AccountsFor (c :: earlier) m
  counted : c.artifact.strategy = .deterministic →
    c.artifact.summary = deterministicSummary c.range

/-- Every summary of a session is complete. -/
def AllComplete : List Compaction → Prop
  | [] => True
  | c :: cs => c.Complete cs ∧ AllComplete cs

/-- The first compaction of a session, whose messages kept are closed after the last one selected,
which is closed after the others selected where they are counted. -/
def Faithful (c : Compaction) : Prop :=
  c.before.context.activeArtifact = none ∧ ∀ last ∈ c.before.selected.getLast?,
    (∀ m ∈ c.before.compactable, m ∉ c.before.selected → last.lastEventId < m.lastEventId) ∧
      (c.artifact.strategy = .deterministic →
        ∀ m ∈ c.before.selected, m.lastEventId ≤ last.lastEventId)

/-- The text of the summary before does not matter. -/
theorem not_readsPrevious (c : Compaction) : ¬ c.ReadsPrevious := by
  rintro ⟨previous, text, hactive, hne⟩
  apply hne
  have hselected : (c.before.withArtifact { previous with summary := text }).selected =
      c.before.selected := by
    unfold SessionProjection.selected SessionProjection.compactable
    rw [hactive]
    rfl
  rw [summarySource, summarySource, hselected]

theorem accountsFor_iff {c : Compaction} {earlier : List Compaction} {m : MessageProjection} :
    AccountsFor (c :: earlier) m ↔ m ∈ c.before.selected := by
  refine ⟨?_, .inl⟩
  rintro (hm | ⟨hreads, -⟩)
  · exact hm
  · exact absurd hreads c.not_readsPrevious

theorem mem_range {c : Compaction} {m : MessageProjection} : m ∈ c.range ↔
    m ∈ c.before.messages ∧ m.closed = true ∧ c.artifact.sourceStartEventId ≤ m.firstEventId ∧
      m.lastEventId ≤ c.artifact.sourceEndEventId := by
  rw [range, List.mem_filter, Bool.and_eq_true, inRange, decide_eq_true_iff]

end Compaction

/-- Summaries that count state the number of messages. -/
theorem deterministicSummary_inj {ms ms' : List MessageProjection} :
    deterministicSummary ms = deterministicSummary ms' ↔ ms.length = ms'.length := by
  unfold deterministicSummary
  rw [String.append_left_inj, String.append_left_inj]
  exact Nat.repr_inj

/-- A message lies in the range of the artifact that is active. -/
def SessionProjection.RangeInhabited (p : SessionProjection) : Prop :=
  ∀ artifact, p.context.activeArtifact = some artifact →
    ∃ m ∈ p.messages, m.closed = true ∧ artifact.sourceStartEventId ≤ m.firstEventId ∧
      m.lastEventId ≤ artifact.sourceEndEventId

section History

variable {env : Surroundings} {inputs : CompactionInputs} {p q : SessionProjection} {body : Json}
  {artifact : ContextArtifact}

/-- The messages selected begin with the first one that no summary covers. -/
theorem first_le_of_mem (hp : p.MessagesOrdered) {first : MessageProjection}
    {rest : List MessageProjection} (hselected : p.selected = first :: rest) {m : MessageProjection}
    (hm : m ∈ p.compactable) : first.firstEventId ≤ m.firstEventId := by
  have hordered : p.compactable.Pairwise (·.firstEventId < ·.firstEventId) :=
    hp.opened.sublist (List.filter_sublist.trans List.filter_sublist)
  rw [← List.take_append_drop (p.compactable.length - 4) p.compactable] at hm hordered
  change m ∈ p.selected ++ _ at hm
  change (p.selected ++ _).Pairwise _ at hordered
  rw [hselected, List.cons_append] at hm hordered
  rcases List.mem_cons.mp hm with rfl | hm
  · exact le_refl _
  · exact ((List.pairwise_cons.mp hordered).1 m hm).le

/-- A compaction behind another one is not complete: the message that the range of the first one
has is not selected again. -/
theorem Compacted.not_complete (h : Compacted env inputs p artifact body)
    (hrange : p.RangeInhabited) {previous : ContextArtifact}
    (hactive : p.context.activeArtifact = some previous) (earlier : List Compaction) :
    ¬ Compaction.Complete ⟨p, inputs, artifact⟩ earlier := by
  intro hcomplete
  obtain ⟨first, rest, hselected, hstart, hend⟩ := h.range
  obtain ⟨m, hm, hclosed, hfirst, hlast⟩ := hrange previous hactive
  have huncovered : ∀ m ∈ p.selected, previous.sourceEndEventId < m.lastEventId := by
    intro m hm
    have huncovered := (mem_compactable.mp (selected_subset hm)).2.2
    rw [hactive] at huncovered
    exact of_decide_eq_true huncovered
  have hlater : previous.sourceEndEventId < artifact.sourceEndEventId := by
    rw [hend]
    refine huncovered _ ?_
    rw [hselected]
    exact List.getLast_mem _
  have hinrange : m ∈ Compaction.range ⟨p, inputs, artifact⟩ := by
    rw [hactive, Option.map_some, Option.getD_some] at hstart
    refine Compaction.mem_range.mpr ⟨hm, hclosed, ?_, ?_⟩
    · rw [hstart]
      exact hfirst
    · exact hlast.trans hlater.le
  have hmem := Compaction.accountsFor_iff.mp (hcomplete.covered m hinrange)
  exact Nat.not_lt.mpr hlast (huncovered m hmem)

/-- In the range of a first compaction are the messages closed by the last event selected. -/
theorem Compacted.mem_range_iff (h : Compacted env inputs p artifact body)
    (hp : p.MessagesOrdered) (hactive : p.context.activeArtifact = none) {m : MessageProjection} :
    m ∈ Compaction.range ⟨p, inputs, artifact⟩ ↔
      m ∈ p.compactable ∧ m.lastEventId ≤ artifact.sourceEndEventId := by
  obtain ⟨first, rest, hselected, hstart, -⟩ := h.range
  rw [hactive, Option.map_none, Option.getD_none] at hstart
  have hcompactable : m ∈ p.compactable ↔ m ∈ p.messages ∧ m.closed = true := by
    rw [mem_compactable, hactive]
    simp [uncovered]
  rw [Compaction.mem_range, hcompactable, hstart]
  constructor
  · rintro ⟨hm, hclosed, -, hlast⟩
    exact ⟨⟨hm, hclosed⟩, hlast⟩
  · rintro ⟨hm, hlast⟩
    exact ⟨hm.1, hm.2, first_le_of_mem hp hselected (hcompactable.mpr hm), hlast⟩

/-- Where a compaction is complete. -/
theorem Compacted.complete_iff (h : Compacted env inputs p artifact body) (hp : p.MessagesOrdered)
    (hrange : p.RangeInhabited) (earlier : List Compaction) :
    Compaction.Complete ⟨p, inputs, artifact⟩ earlier ↔
      Compaction.Faithful ⟨p, inputs, artifact⟩ := by
  cases hactive : p.context.activeArtifact with
  | some previous =>
    refine iff_of_false (h.not_complete hrange hactive earlier) ?_
    rintro ⟨hnone, -⟩
    rw [hactive] at hnone
    cases hnone
  | none =>
    obtain ⟨first, rest, hselected, -, hend⟩ := h.range
    have hlast : p.selected.getLast? = some ((first :: rest).getLast (by simp)) := by
      rw [hselected, List.getLast?_eq_some_getLast]
    have hmem := fun m => h.mem_range_iff hp hactive (m := m)
    have hnodup : (Compaction.range ⟨p, inputs, artifact⟩).Nodup :=
      (hp.nodup.of_map _).sublist List.filter_sublist
    have hnodup' : p.selected.Nodup := (hp.nodup.of_map _).sublist
      ((List.take_sublist ..).trans (List.filter_sublist.trans List.filter_sublist))
    constructor
    · rintro ⟨hcovered, hcounted⟩
      refine ⟨hactive, ?_⟩
      intro last hlast'
      rw [hlast, Option.mem_some_iff] at hlast'
      rw [← hlast', ← hend]
      have hsubset : Compaction.range ⟨p, inputs, artifact⟩ ⊆ p.selected := fun m hm =>
        Compaction.accountsFor_iff.mp (hcovered m hm)
      refine ⟨?_, ?_⟩
      · intro m hm hnot
        by_contra hle
        exact hnot (hsubset ((hmem m).mpr ⟨hm, Nat.not_lt.mp hle⟩))
      · intro hstrategy m hm
        have hlength := hcounted hstrategy
        rw [h.deterministic hstrategy, deterministicSummary_inj] at hlength
        have hperm := (List.subperm_of_subset hnodup hsubset).perm_of_length_le hlength.le
        exact ((hmem m).mp (hperm.mem_iff.mpr hm)).2
    · rintro ⟨-, horder⟩
      obtain ⟨hafter, hbefore⟩ := horder _ hlast
      rw [← hend] at hafter hbefore
      have hsubset : ∀ m ∈ Compaction.range ⟨p, inputs, artifact⟩, m ∈ p.selected := by
        intro m hm
        obtain ⟨hcompactable, hle⟩ := (hmem m).mp hm
        by_contra hnot
        exact Nat.not_lt.mpr hle (hafter m hcompactable hnot)
      refine ⟨fun m hm => Compaction.accountsFor_iff.mpr (hsubset m hm), ?_⟩
      intro hstrategy
      rw [h.deterministic hstrategy, deterministicSummary_inj]
      refine ((List.perm_ext_iff_of_nodup hnodup' hnodup).mpr ?_).length_eq
      intro m
      refine ⟨fun hm => ?_, hsubset m⟩
      exact (hmem m).mpr ⟨selected_subset hm, hbefore hstrategy m hm⟩

/-- Only a compaction replaces the active artifact. -/
theorem apply_activeArtifact {eventId : Nat} {e : SemanticEvent} (h : p.apply eventId e = .ok q)
    (he : ∀ runId artifact, e ≠ .contextCompacted runId artifact) :
    q.context.activeArtifact = p.context.activeArtifact := by
  obtain ⟨state, -, hq⟩ := SessionProjection.apply_eq_ok.mp h
  cases e <;>
    simp only [SessionProjection.applyEvent, SessionProjection.updateRun_eq_ok,
      SessionProjection.updateInstance_eq_ok, SessionProjection.setRunTerminal_eq_ok,
      Except.map_eq_ok, Except.bind_eq_ok, Except.ite_error_eq_ok, Except.ok.injEq,
      SessionProjection.setQueuePaused] at hq
  case contextCompacted runId artifact => exact absurd rfl (he runId artifact)
  case permissionResolved requestId decision _ _ _ _ =>
    split at hq
    · cases hq
    · split at hq
      · cases hq
        rfl
      · cases (Except.ite_ok_eq_ok.mp hq).2
        rfl
  case contextFactRecorded fact => split at hq <;> cases hq <;> rfl
  all_goals grind

/-- Other events leave a message in the range. -/
theorem SessionProjection.RangeInhabited.applyAll {events : List SemanticEvent}
    (hp : p.RangeInhabited) (h : p.applyAll events = .ok q)
    (hevents : ∀ e ∈ events, ∀ runId artifact, e ≠ .contextCompacted runId artifact) :
    q.RangeInhabited := by
  induction events generalizing p with
  | nil =>
    cases h
    exact hp
  | cons e events ih =>
    obtain ⟨p₁, hone, hrest⟩ := SessionProjection.applyAll_cons_eq_ok.mp h
    obtain ⟨he, hevents⟩ := List.forall_mem_cons.mp hevents
    refine ih ?_ hrest hevents
    intro artifact hartifact
    rw [apply_activeArtifact hone he] at hartifact
    obtain ⟨m, hm, hclosed, hinrange⟩ := hp artifact hartifact
    exact ⟨m, SessionProjection.apply_closed_mem hone hm hclosed, hclosed, hinrange⟩

/-- A compaction leaves a message in the range of its artifact. -/
theorem Compacted.rangeInhabited (h : Compacted env inputs p artifact body)
    (hp : p.MessagesOrdered) (hrange : p.RangeInhabited)
    (hsame : SameTranscript (p.withArtifact artifact) q) : q.RangeInhabited := by
  intro artifact' hartifact
  obtain rfl : artifact = artifact' := Option.some.inj (hsame.artifact.symm.trans hartifact)
  have hmessages : q.messages = p.messages := hsame.messages
  obtain ⟨first, rest, hselected, hstart, hend⟩ := h.range
  have hlast : (first :: rest).getLast (by simp) ∈ p.compactable := by
    refine selected_subset ?_
    rw [hselected]
    exact List.getLast_mem _
  obtain ⟨hmem, hclosed, huncovered⟩ := mem_compactable.mp hlast
  rw [hmessages]
  cases hactive : p.context.activeArtifact with
  | none =>
    rw [hactive, Option.map_none, Option.getD_none] at hstart
    exact ⟨_, hmem, hclosed, hstart ▸ first_le_of_mem hp hselected hlast, hend.ge⟩
  | some previous =>
    rw [hactive, Option.map_some, Option.getD_some] at hstart
    rw [hactive] at huncovered
    obtain ⟨m, hm, hclosed, hfirst, hle⟩ := hrange previous hactive
    refine ⟨m, hm, hclosed, hstart ▸ hfirst, hle.trans ?_⟩
    rw [hend]
    exact (of_decide_eq_true huncovered : previous.sourceEndEventId < _).le

/-- A session without summary, what is appended to it, and its compactions, the last one first. -/
inductive CompactionHistory (sessionId : String) : World → List Compaction → Prop
  | start {w : World} {p : SessionProjection} (hw : w.Sound) (hview : w.view sessionId = some p)
      (hnone : p.context.activeArtifact = none) : CompactionHistory sessionId w []
  | events {w w' : World} {cs : List Compaction} {p q : SessionProjection}
      {events : List SemanticEvent} (h : CompactionHistory sessionId w cs)
      (hview : w.view sessionId = some p) (happly : p.applyAll events = .ok q)
      (hevents : ∀ e ∈ events, ∀ runId artifact, e ≠ .contextCompacted runId artifact)
      (hw' : w'.Sound) (hview' : w'.view sessionId = some q) : CompactionHistory sessionId w' cs
  | compaction {env : Surroundings} {w w' : World} {cs : List Compaction}
      {p q : SessionProjection} {runId : String} {inputs : CompactionInputs} {body : Json}
      {artifact : ContextArtifact} (h : CompactionHistory sessionId w cs)
      (hview : w.view sessionId = some p)
      (hrun : (buildCompactedBody sessionId runId inputs).run (World.handle env) w =
        (.ok body, w'))
      (hview' : w'.view sessionId = some q) (hrecorded : q.context.activeArtifact = some artifact)
      (hnew : p.context.activeArtifact ≠ some artifact) :
    CompactionHistory sessionId w' (⟨p, inputs, artifact⟩ :: cs)

/-- Along a history the store stays sound and the active range has a message. -/
theorem CompactionHistory.invariant {sessionId : String} {w : World} {cs : List Compaction}
    (h : CompactionHistory sessionId w cs) :
    w.Sound ∧ ∀ p, w.view sessionId = some p → p.RangeInhabited := by
  induction h with
  | start hw hview hnone =>
    refine ⟨hw, ?_⟩
    intro p' hp' artifact hartifact
    rw [hview] at hp'
    cases hp'
    rw [hnone] at hartifact
    cases hartifact
  | events h hview happly hevents hw' hview' ih =>
    refine ⟨hw', ?_⟩
    intro q' hq'
    rw [hview'] at hq'
    cases hq'
    exact (ih.2 _ hview).applyAll happly hevents
  | compaction h hview hrun hview' hrecorded hnew ih =>
    obtain ⟨hcompacted, hsound, hsame⟩ :=
      buildCompactedBody_recorded _ ih.1 hview hrun hview' hrecorded hnew
    refine ⟨hsound, ?_⟩
    intro q' hq'
    rw [hview'] at hq'
    cases hq'
    exact hcompacted.rangeInhabited (Store.Sound.messagesOrdered_view ih.1 hview) (ih.2 _ hview)
      hsame

end History

/-- A first compaction as a history. -/
theorem compactionHistory_first {events : List SemanticEvent} {body : Json} {w' : World}
    {p q : SessionProjection} {artifact : ContextArtifact}
    (h : firstCompaction events = (.ok body, w'))
    (hview : (World.holding events).view "s" = some p) (hview' : w'.view "s" = some q)
    (hnone : p.context.activeArtifact = none) (hrecorded : q.context.activeArtifact = some artifact) :
    CompactionHistory "s" w' [⟨p, tightInputs, artifact⟩] := by
  refine .compaction (.start (World.holding_sound events) hview hnone) hview h hview' hrecorded ?_
  rw [hnone]
  simp

/-- Four more messages behind a first compaction. -/
def secondRound : World :=
  (World.handle (.plain tightWindow) (.store (.append "s" (closedMessages ["i", "j", "k", "l"])))
    (firstCompaction closedInTurn).2).2

/-- The second compaction of a session. -/
def secondCompaction : Except StoreError Json × World :=
  (buildCompactedBody "s" "r" tightInputs).run (World.handle (.plain tightWindow)) secondRound

/-- The id of the active artifact of the session. -/
def activeArtifactId (w : World) : Option String :=
  (w.view "s").bind fun p => p.context.activeArtifact.map (·.artifactId)

theorem secondCompaction_recorded :
    secondCompaction.1.toOption.isSome = true ∧
      (activeArtifactId secondRound).isSome = true ∧
      activeArtifactId secondRound ≠ activeArtifactId secondCompaction.2 ∧
      (activeArtifactId secondCompaction.2).isSome = true ∧
      ((firstCompaction closedInTurn).2.view "s").map (·.messages.length) = some 8 ∧
      (secondRound.view "s").map (·.messages.length) = some 12 := by
  decide +kernel

end Piqo
