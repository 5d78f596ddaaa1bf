import PiqoServer.Server.Journal

/-!
# Reading a response, and its journal

Text is collected and written from time to time; a call that comes in pieces is collected under a
key and written when the response says that it is complete. What is recorded in the end does not
depend on when text is written.

## Main definitions

* `received`: the pieces of a response that are read where nothing fails
* `collect`: the calls among the pieces, complete and incomplete
* `Notes`, `Reads`: what has been recorded of the pieces read so far
* `ReadPart`, `ReadingEnds`: what reading leaves

## Main results

* `persistDelta_journal`, `readDelta_journal`, `readItems_journal`, `readWhole_journal`: one lemma
  per function
* `readStream_journal`, `readText_journal`: a response from its start
-/

namespace Piqo

/-! ## The pieces of a response -/

/-- The text of a piece. -/
def ProviderDelta.textOf : ProviderDelta → String
  | .text piece => piece
  | _ => ""

/-- The text of some pieces. -/
def joinText (deltas : List ProviderDelta) : String := String.join (deltas.map ProviderDelta.textOf)

/-- Text, a tool call or a piece of one. -/
def ProviderDelta.isContent : ProviderDelta → Bool
  | .text _ | .toolCall _ _ _ | .toolCallDelta _ _ _ _ => true
  | _ => false

/-- The pieces before the first one that stops the reading, and whether there is none. -/
def untilStop (stops : ProviderDelta → Bool) : List ProviderDelta → List ProviderDelta × Bool
  | [] => ([], true)
  | delta :: deltas =>
    if stops delta then ([], false)
    else (delta :: (untilStop stops deltas).1, (untilStop stops deltas).2)

/-- The pieces of the frames that are read, and whether the reading goes on behind them. -/
def framesReceived : List (Except String (List ProviderDelta)) → List ProviderDelta × Bool
  | [] => ([], true)
  | .error _ :: _ => ([], false)
  | .ok deltas :: frames =>
    let (taken, goesOn) := untilStop (· = .requiresAction) deltas
    if goesOn then (taken ++ (framesReceived frames).1, (framesReceived frames).2)
    else (taken, false)

/-- The pieces of a stream that are read. -/
def streamReceived : List StreamItem → List ProviderDelta
  | [] => []
  | .cancelled :: _ | .shutdown :: _ | .broken _ :: _ => []
  | .tick :: items => streamReceived items
  | .chunk frames :: items =>
    let (taken, goesOn) := framesReceived frames
    if goesOn then taken ++ streamReceived items else taken

/-- The pieces of a response as a whole that are read. -/
def TextReply.received (text : TextReply) : List ProviderDelta :=
  (untilStop ProviderDelta.stops text.deltas).1

/-- The pieces of a response to a body that are read where nothing fails. -/
def received (body : Json) (response : ProviderResponse) : List ProviderDelta :=
  if !response.success then []
  else if bodyStreamMode body then streamReceived response.stream
  else response.text.received

/-- A response of which neither text nor a call came. -/
def Contentless (answer : Json × ProviderResponse) : Prop :=
  (received answer.1 answer.2).any ProviderDelta.isContent = false

/-! ## The calls among the pieces -/

/-- One more piece: the calls that are complete, and those that come in pieces. -/
def collectStep (collected : List ToolCallBuffer × List (String × ToolCallBuffer)) :
    ProviderDelta → List ToolCallBuffer × List (String × ToolCallBuffer)
  | .toolCall callId name arguments => (collected.1 ++ [⟨callId, name, arguments⟩], collected.2)
  | .toolCallDelta index callId name arguments =>
    (collected.1, addPiece (toolBufferKey collected.2 index callId) callId name arguments
      collected.2)
  | .completed => (collected.1 ++ collected.2.map Prod.snd, [])
  | _ => collected

def collect (deltas : List ProviderDelta) :
    List ToolCallBuffer × List (String × ToolCallBuffer) :=
  deltas.foldl collectStep ([], [])

theorem collect_snoc (deltas : List ProviderDelta) (delta : ProviderDelta) :
    collect (deltas ++ [delta]) = collectStep (collect deltas) delta := by
  simp [collect]

theorem joinText_append (deltas more : List ProviderDelta) :
    joinText (deltas ++ more) = joinText deltas ++ joinText more := by
  simp [joinText, String.join_append]

theorem joinText_singleton (delta : ProviderDelta) : joinText [delta] = delta.textOf := by
  simp [joinText]

theorem collectStep_extends (collected : List ToolCallBuffer × List (String × ToolCallBuffer))
    (delta : ProviderDelta) : collected.1 <+: (collectStep collected delta).1 := by
  cases delta <;> first | exact List.prefix_rfl | exact List.prefix_append _ _

theorem foldl_collectStep_extends (deltas : List ProviderDelta)
    (collected : List ToolCallBuffer × List (String × ToolCallBuffer)) :
    collected.1 <+: (deltas.foldl collectStep collected).1 := by
  induction deltas generalizing collected with
  | nil => exact List.prefix_rfl
  | cons delta deltas ih => exact (collectStep_extends collected delta).trans (ih _)

/-- More pieces add to the calls that are complete. -/
theorem collect_prefix {deltas more : List ProviderDelta} (h : deltas <+: more) :
    (collect deltas).1 <+: (collect more).1 := by
  obtain ⟨rest, rfl⟩ := h
  rw [collect, collect, List.foldl_append]
  exact foldl_collectStep_extends rest _

/-- Where neither text nor a call came there is none. -/
theorem collect_of_quiet {deltas : List ProviderDelta}
    (h : deltas.any ProviderDelta.isContent = false) : collect deltas = ([], []) := by
  induction deltas with
  | nil => rfl
  | cons delta deltas ih =>
    rw [List.any_cons, Bool.or_eq_false_iff] at h
    have hstep : collectStep ([], []) delta = ([], []) := by
      cases delta <;> first | rfl | exact absurd h.1 (by simp [ProviderDelta.isContent])
    rw [collect, List.foldl_cons, hstep]
    exact ih h.2

theorem joinText_of_quiet {deltas : List ProviderDelta}
    (h : deltas.any ProviderDelta.isContent = false) : joinText deltas = "" := by
  induction deltas with
  | nil => rfl
  | cons delta deltas ih =>
    rw [List.any_cons, Bool.or_eq_false_iff] at h
    change joinText ([delta] ++ deltas) = ""
    have htext : delta.textOf = "" := by
      cases delta <;> first | rfl | exact absurd h.1 (by simp [ProviderDelta.isContent])
    rw [joinText_append, joinText_singleton, ih h.2, htext]
    rfl

/-! ## What is recorded of the pieces -/

/-- A call is recorded as it came. -/
structure ToolCallBuffer.RecordedAs (buffer : ToolCallBuffer) (call : EmittedCall) : Prop where
  callId : ∀ id, buffer.callId = some id → call.callId = id
  toolName : call.toolName = buffer.name.getD "function"
  rawArguments : call.rawArguments = buffer.arguments

/-- The ids of the calls that came without one. -/
def drawnFor (pairs : List (ToolCallBuffer × EmittedCall)) : List String :=
  (pairs.filter (·.1.callId.isNone)).map (·.2.callId)

/-- The calls that are recorded are complete ones, each with its own id or one drawn for it; where
nothing failed they are all of them. -/
structure Notes (complete : List ToolCallBuffer) (j : Journal) : Prop where
  exists_pairs : ∃ pairs : List (ToolCallBuffer × EmittedCall),
    j.calls = pairs.map Prod.snd ∧ (pairs.map Prod.fst).Sublist complete ∧
    (∀ pair ∈ pairs, pair.1.RecordedAs pair.2) ∧ (drawnFor pairs).Sublist j.drawn ∧
    (j.faulted = false → pairs.map Prod.fst = complete)

/-- The execution goes on, at the same message and the same response. -/
structure Journal.Onward (j j' : Journal) : Prop where
  message : j'.message = j.message
  responses : j'.responses = j.responses
  drawn : j.drawn <+: j'.drawn
  faulted : j.faulted = true → j'.faulted = true

section Notes

variable {complete : List ToolCallBuffer} {j j' j'' : Journal}

theorem Journal.Onward.refl (j : Journal) : j.Onward j := ⟨rfl, rfl, List.prefix_rfl, id⟩

theorem Journal.Onward.trans (h : j.Onward j') (h' : j'.Onward j'') : j.Onward j'' where
  message := h'.message.trans h.message
  responses := h'.responses.trans h.responses
  drawn := h.drawn.trans h'.drawn
  faulted hfaulted := h'.faulted (h.faulted hfaulted)

theorem Journal.Onward.clear (h : j.Onward j') (hclear : j'.faulted = false) :
    j.faulted = false := by
  cases hfaulted : j.faulted with
  | false => rfl
  | true =>
    rw [h.faulted hfaulted] at hclear
    cases hclear

theorem Journal.Aside.onward (h : j.Aside j') : j.Onward j' :=
  ⟨h.message, h.responses, h.drawn, h.faulted⟩

theorem Notes.nil (hcalls : j.calls = []) : Notes [] j :=
  ⟨[], hcalls, List.Sublist.slnil, by simp, List.nil_sublist _, fun _ => rfl⟩

theorem Notes.calls_eq_nil (h : Notes [] j) : j.calls = [] := by
  obtain ⟨pairs, hcalls, hsub, -⟩ := h.exists_pairs
  have hpairs : pairs = [] := by simpa using List.sublist_nil.mp hsub
  rw [hcalls, hpairs]
  rfl

/-- Nothing more is recorded. -/
theorem Notes.onward (h : Notes complete j) (hcalls : j'.calls = j.calls)
    (honward : j.Onward j') : Notes complete j' := by
  obtain ⟨pairs, heq, hsub, hrecorded, hdrawn, hall⟩ := h.exists_pairs
  exact ⟨pairs, hcalls.trans heq, hsub, hrecorded, hdrawn.trans honward.drawn.sublist,
    fun hclear => hall (honward.clear hclear)⟩

/-- After a failure more calls may be complete than are recorded. -/
theorem Notes.of_faulted {complete' : List ToolCallBuffer} (h : Notes complete j)
    (hmore : complete <+: complete') (hfaulted : j.faulted = true) : Notes complete' j := by
  obtain ⟨pairs, heq, hsub, hrecorded, hdrawn, -⟩ := h.exists_pairs
  refine ⟨pairs, heq, hsub.trans hmore.sublist, hrecorded, hdrawn, fun hclear => ?_⟩
  rw [hfaulted] at hclear
  cases hclear

/-- One more call is recorded. -/
theorem Notes.emit (h : Notes complete j) {buffer : ToolCallBuffer} {call : EmittedCall}
    (hcalls : j'.calls = j.calls ++ [call]) (hrecorded : buffer.RecordedAs call)
    (hdrawn : buffer.callId = none → j.drawn ++ [call.callId] <+: j'.drawn)
    (honward : j.Onward j') : Notes (complete ++ [buffer]) j' := by
  obtain ⟨pairs, heq, hsub, hall, hids, hcomplete⟩ := h.exists_pairs
  refine ⟨pairs ++ [(buffer, call)], ?_, ?_, ?_, ?_, fun hclear => ?_⟩
  · rw [hcalls, heq, List.map_append]
    rfl
  · rw [List.map_append]
    exact hsub.append (List.Sublist.refl _)
  · intro pair hpair
    rcases List.mem_append.mp hpair with hpair | hpair
    · exact hall pair hpair
    · rw [List.mem_singleton.mp hpair]
      exact hrecorded
  · rw [drawnFor, List.filter_append, List.map_append]
    cases hid : buffer.callId with
    | none =>
      have hlast : ([(buffer, call)].filter (·.1.callId.isNone)).map (·.2.callId) =
          [call.callId] := by simp [hid]
      rw [hlast]
      exact (hids.append (List.Sublist.refl _)).trans (hdrawn hid).sublist
    | some id =>
      have hlast : ([(buffer, call)].filter (·.1.callId.isNone)).map (·.2.callId) = [] := by
        simp [hid]
      rw [hlast, List.append_nil]
      exact hids.trans honward.drawn.sublist
  · rw [List.map_append, hcomplete (honward.clear hclear)]
    rfl

end Notes

/-- What recording a piece leaves. -/
structure Persists (delta : ProviderDelta) (j j' : Journal) (x : Except StoreError DeltaResult) :
    Prop where
  onward : j.Onward j'
  text : j'.text = j.text ++ delta.textOf
  calls : ∀ complete, Notes complete j → Notes (collectStep (complete, []) delta).1 j'
  error : ∀ e, x = .error e → j'.faulted = true ∨ delta.stops = true
  ok : ∀ r, x = .ok r → (r = .requiresAction ↔ delta.stops = true)

section Persist

variable {sessionId runId messageId : String} {j : Journal}

theorem persistDelta_journal (hmessage : j.message = some messageId) (delta : ProviderDelta) :
    Leaves j (persistDelta sessionId runId messageId delta) (Persists delta j) := by
  cases delta with
  | text text =>
    have hevent : j.event (.messageContentAppended messageId (.text text)) =
        { j with text := j.text ++ text } := if_pos hmessage
    refine leaves_append (fun _ => ?_) fun e => ?_
    · rw [hevent]
      exact ⟨⟨rfl, rfl, List.prefix_rfl, id⟩, rfl,
        fun complete h => h.onward rfl ⟨rfl, rfl, List.prefix_rfl, id⟩, by simp,
        by simp [ProviderDelta.stops]⟩
    · rw [hevent]
      exact ⟨⟨rfl, rfl, List.prefix_rfl, fun _ => rfl⟩, rfl,
        fun complete h => h.onward rfl ⟨rfl, rfl, List.prefix_rfl, fun _ => rfl⟩,
        fun _ _ => .inl rfl, by simp⟩
  | toolCall callId name arguments =>
    -- whichever id the call gets, it is recorded under it
    have hrest : ∀ id j', (∀ given, callId = some given → id = given) →
        (callId = none → j.drawn ++ [id] <+: j'.drawn) → j.Aside j' →
        Leaves j' (isNativeCallOrFalse sessionId runId (name.getD "function") >>= fun native =>
          parseArguments arguments >>= fun parsed => append sessionId (.toolCallEmitted runId
            messageId id "assistant" (name.getD "function") parsed arguments native) >>= fun _ =>
              Program.ret DeltaResult.none)
          (Persists (.toolCall callId name arguments) j) := by
      intro id j' hid hdrawn haside
      refine (isNativeCallOrFalse_asks _ _ _).leaves fun j₁ native h₁ => ?_
      refine (parseArguments_asks _).leaves fun j₂ parsed h₂ => ?_
      have hall : j.Aside j₂ := haside.trans (h₁.trans h₂)
      have hcall : ToolCallBuffer.RecordedAs ⟨callId, name, arguments⟩
          ⟨id, name.getD "function", arguments⟩ := ⟨hid, rfl, rfl⟩
      have hids : callId = none → j.drawn ++ [id] <+: j₂.drawn := fun h =>
        (hdrawn h).trans (h₁.drawn.trans h₂.drawn)
      have hcalls : j₂.calls ++ [⟨id, name.getD "function", arguments⟩] =
          j.calls ++ [⟨id, name.getD "function", arguments⟩] := by rw [hall.calls]
      have htext : j₂.text = j.text ++ "" := by rw [hall.text, String.append_empty]
      refine leaves_append (fun _ => ?_) fun e => ?_
      · exact ⟨hall.onward.trans ⟨rfl, rfl, List.prefix_rfl, fun h => h⟩, htext,
          fun complete h => h.emit hcalls hcall hids
            (hall.onward.trans ⟨rfl, rfl, List.prefix_rfl, fun h => h⟩), by simp,
          by simp [ProviderDelta.stops]⟩
      · exact ⟨hall.onward.trans ⟨rfl, rfl, List.prefix_rfl, fun _ => rfl⟩, htext,
          fun complete h => h.emit hcalls hcall hids
            (hall.onward.trans ⟨rfl, rfl, List.prefix_rfl, fun _ => rfl⟩), fun _ _ => .inl rfl, by simp⟩
    cases callId with
    | some id =>
      exact hrest id j (fun _ h => Option.some.inj h) (fun h => by cases h) (.refl j)
    | none =>
      refine follows_ask trivial fun id => hrest id _ (fun _ h => by cases h) (fun _ => ?_) ?_
      · exact List.prefix_rfl
      · exact j.drawn_next id
  | toolCallDelta index callId name arguments =>
    exact ⟨.refl j, by simp [ProviderDelta.textOf], fun complete h => h, fun _ _ => .inr rfl,
      by simp⟩
  | usage value =>
    exact ⟨.refl j, by simp [ProviderDelta.textOf], fun complete h => h, by simp,
      by simp [ProviderDelta.stops]⟩
  | completed =>
    exact ⟨.refl j, by simp [ProviderDelta.textOf], fun complete h => by simpa [collectStep] using h,
      by simp, by simp [ProviderDelta.stops]⟩
  | requiresAction =>
    refine leaves_append (fun _ => ?_) fun e => ?_
    · exact ⟨.refl j, by simp [ProviderDelta.textOf, Journal.event], fun complete h => h, by simp,
        by simp [ProviderDelta.stops]⟩
    · exact ⟨⟨rfl, rfl, List.prefix_rfl, fun _ => rfl⟩, by simp [ProviderDelta.textOf, Journal.event],
        fun complete h => h.onward rfl ⟨rfl, rfl, List.prefix_rfl, fun _ => rfl⟩,
        fun _ _ => .inl rfl, by simp⟩

/-- Its outcome as a value. -/
theorem attemptDelta_journal (hmessage : j.message = some messageId) (delta : ProviderDelta) :
    Leaves j (persistDelta sessionId runId messageId delta).attempt
      fun j' x => ∃ v, x = .ok v ∧ Persists delta j j' v :=
  ((persistDelta_journal hmessage delta).mono fun _ x h => ⟨x, rfl, h⟩).attempt

end Persist

/-! ## Reading a response -/

/-- What has been read and recorded: text is recorded or collected, calls are recorded or
collected. -/
structure Reads (deltas : List ProviderDelta) (j : Journal) (st : StreamState) : Prop where
  notes : Notes (collect deltas).1 j
  buffers : st.toolBuffers = (collect deltas).2
  text : j.faulted = false → j.text ++ st.textBuffer = joinText deltas

/-- A stream that is being read. A fault that has been noted ends the reading with its frame. -/
structure Streaming (deltas : List ProviderDelta) (j : Journal) (st : StreamState) : Prop
    extends Reads deltas j st where
  sawDelta : st.sawDelta = deltas.any ProviderDelta.isContent
  retryable : ∀ e, st.outcome ≠ .failed e true

section Stream

variable {sessionId runId messageId : String} {j : Journal} {st : StreamState}
  {deltas : List ProviderDelta}

theorem Streaming.aside {j' : Journal} (h : Streaming deltas j st) (haside : j.Aside j') :
    Streaming deltas j' st := by
  refine ⟨⟨h.notes.onward haside.calls haside.onward, h.buffers, fun hclear => ?_⟩, h.sawDelta,
    h.retryable⟩
  rw [haside.text]
  exact h.text (haside.onward.clear hclear)

/-- The collected text is recorded. -/
theorem flushText_journal (hmessage : j.message = some messageId) (h : Streaming deltas j st) :
    Leaves j (flushText sessionId runId messageId st) fun j' x => ∃ v, x = .ok v ∧
      j.Onward j' ∧ Streaming deltas j' v.1 ∧
      (v.2 = false → v.1.outcome = st.outcome) ∧
      (v.2 = true → j'.faulted = true ∧ v.1.over = true) := by
  refine (attemptDelta_journal hmessage (.text st.textBuffer)).bind_total fun j' x hx => ?_
  have hnotes : Notes (collect deltas).1 j' := hx.calls _ h.notes
  have htext : ∀ st' : StreamState, st'.textBuffer = "" → j'.faulted = false →
      j'.text ++ st'.textBuffer = joinText deltas := by
    intro st' hbuffer hclear
    rw [hbuffer, String.append_empty, hx.text]
    exact h.text (hx.onward.clear hclear)
  cases x with
  | ok r =>
    exact ⟨_, rfl, hx.onward, ⟨⟨hnotes, h.buffers, htext _ rfl⟩, h.sawDelta, h.retryable⟩,
      fun _ => rfl, by simp⟩
  | error e =>
    have hfaulted : j'.faulted = true := (hx.error e rfl).resolve_right Bool.false_ne_true
    exact ⟨_, rfl, hx.onward, ⟨⟨hnotes, h.buffers, htext _ rfl⟩, h.sawDelta, by simp⟩,
      by simp, fun _ => ⟨hfaulted, rfl⟩⟩

/-- The calls that came in pieces are recorded. -/
theorem flushTools_journal (hmessage : j.message = some messageId)
    {buffers : List (String × ToolCallBuffer)} {complete : List ToolCallBuffer}
    (hnotes : Notes complete j) (outcome : ExecutionResult) :
    Leaves j (flushTools sessionId runId messageId buffers outcome) fun j' x =>
      ∃ outcome', x = .ok outcome' ∧ j.Onward j' ∧ j'.text = j.text ∧
        Notes (complete ++ buffers.map Prod.snd) j' ∧
        (outcome' = outcome ∨ j'.faulted = true ∧ ∃ e, outcome' = .failed e false) := by
  induction buffers generalizing j complete with
  | nil => exact ⟨outcome, rfl, .refl j, rfl, by simpa using hnotes, .inl rfl⟩
  | cons entry buffers ih =>
    obtain ⟨key, buffer⟩ := entry
    refine (attemptDelta_journal hmessage
      (.toolCall buffer.callId buffer.name buffer.arguments)).bind_total fun j' x hx => ?_
    have hnotes' : Notes (complete ++ [buffer]) j' := hx.calls _ hnotes
    have htext : j'.text = j.text := by simpa [ProviderDelta.textOf] using hx.text
    have hlist : complete ++ ((key, buffer) :: buffers).map Prod.snd =
        complete ++ [buffer] ++ buffers.map Prod.snd := by simp
    rw [hlist]
    have hrest : Leaves j' (flushTools sessionId runId messageId buffers outcome) fun j'' x =>
        ∃ outcome', x = .ok outcome' ∧ j.Onward j'' ∧ j''.text = j.text ∧
          Notes (complete ++ [buffer] ++ buffers.map Prod.snd) j'' ∧
          (outcome' = outcome ∨ j''.faulted = true ∧ ∃ e, outcome' = .failed e false) := by
      refine (ih (hx.onward.message.trans hmessage) hnotes').mono ?_
      rintro j'' _ ⟨outcome', rfl, honward, htext', hnotes'', houtcome⟩
      exact ⟨outcome', rfl, hx.onward.trans honward, htext'.trans htext, hnotes'', houtcome⟩
    rcases x with e | r
    · have hfaulted : j'.faulted = true := (hx.error e rfl).resolve_right Bool.false_ne_true
      exact ⟨_, rfl, hx.onward, htext, hnotes'.of_faulted (List.prefix_append _ _) hfaulted,
        .inr ⟨hfaulted, _, rfl⟩⟩
    · cases r with
      | none => exact hrest
      | usage value => exact hrest
      | requiresAction => exact nomatch (hx.ok _ rfl).mp rfl

/-- What recording a piece leaves of the state: a piece that is recorded changes at most the usage,
one that waits for results or fails stops the reading. -/
theorem recordDelta_journal (hmessage : j.message = some messageId) (delta : ProviderDelta) :
    Leaves j (recordDelta sessionId runId messageId st delta) fun j' x => ∃ v, x = .ok v ∧
      ∃ y, Persists delta j j' y ∧ v.1.toolBuffers = st.toolBuffers ∧
        v.1.textBuffer = st.textBuffer ∧ v.1.sawDelta = st.sawDelta ∧
        (v.2 = false → delta.stops = false ∧ v.1.outcome = st.outcome) ∧
        (v.2 = true → v.1.over = true ∧ (∀ e, v.1.outcome ≠ .failed e true) ∧
          (delta.stops = true ∨ ∃ e, y = .error e)) := by
  refine (attemptDelta_journal hmessage delta).bind_total fun j' y hy => ?_
  rcases y with e | r
  · exact ⟨_, rfl, _, hy, rfl, rfl, rfl, by simp, fun _ => ⟨rfl, by simp, .inr ⟨e, rfl⟩⟩⟩
  · have haction := hy.ok r rfl
    cases r with
    | none =>
      refine ⟨_, rfl, _, hy, rfl, rfl, rfl, fun _ => ⟨Bool.eq_false_iff.mpr ?_, rfl⟩, by simp⟩
      exact fun h => nomatch haction.mpr h
    | usage value =>
      refine ⟨_, rfl, _, hy, rfl, rfl, rfl, fun _ => ⟨Bool.eq_false_iff.mpr ?_, rfl⟩, by simp⟩
      exact fun h => nomatch haction.mpr h
    | requiresAction =>
      exact ⟨_, rfl, _, hy, rfl, rfl, rfl, by simp,
        fun _ => ⟨rfl, by simp, .inl (haction.mp rfl)⟩⟩

/-- What one piece of a stream leaves: it has been read, or it stops the reading. -/
structure PieceRead (deltas : List ProviderDelta) (delta : ProviderDelta) (st : StreamState)
    (j j' : Journal) (v : StreamState × Bool) : Prop where
  onward : j.Onward j'
  read : v.2 = false → delta ≠ .requiresAction ∧ Streaming (deltas ++ [delta]) j' v.1 ∧
    (v.1.over = true → st.over = true ∨ j'.faulted = true)
  stopped : v.2 = true → v.1.over = true ∧
    (Streaming deltas j' v.1 ∧ delta = .requiresAction ∨
      Streaming (deltas ++ [delta]) j' v.1 ∧ delta ≠ .requiresAction ∧ j'.faulted = true)

/-- A piece that is recorded where it stands; `deltas` are the pieces read then. -/
theorem recordDelta_streaming (hmessage : j.message = some messageId) {delta : ProviderDelta}
    (htext : delta.textOf = "") (hstops : delta.stops = false)
    (hnotes : ∀ j' y, Persists delta j j' y → Notes (collect deltas).1 j')
    (hbuffers : st.toolBuffers = (collect deltas).2)
    (hcollected : j.faulted = false → j.text ++ st.textBuffer = joinText deltas)
    (hsaw : st.sawDelta = deltas.any ProviderDelta.isContent)
    (hretryable : ∀ e, st.outcome ≠ .failed e true) :
    Leaves j (recordDelta sessionId runId messageId st delta) fun j' x => ∃ v, x = .ok v ∧
      j.Onward j' ∧ Streaming deltas j' v.1 ∧ (v.2 = false → v.1.outcome = st.outcome) ∧
      (v.2 = true → v.1.over = true ∧ j'.faulted = true) := by
  refine (recordDelta_journal hmessage delta).mono ?_
  rintro j' _ ⟨⟨st', stop⟩, rfl, y, hy, htools, hbuffer, hsawDelta, hgoing, hstop⟩
  have hread : Reads deltas j' st' := by
    refine ⟨hnotes j' y hy, htools.trans hbuffers, fun hclear => ?_⟩
    dsimp only at hbuffer
    rw [hy.text, htext, String.append_empty, hbuffer]
    exact hcollected (hy.onward.clear hclear)
  refine ⟨_, rfl, hy.onward, ⟨hread, hsawDelta.trans hsaw, ?_⟩, ?_, ?_⟩
  · cases stop with
    | false =>
      intro e
      rw [(hgoing rfl).2]
      exact hretryable e
    | true => exact (hstop rfl).2.1
  · intro hgo
    exact (hgoing hgo).2
  · intro hend
    obtain ⟨hover, -, hstops' | ⟨e, rfl⟩⟩ := hstop hend
    · rw [hstops] at hstops'
      cases hstops'
    · refine ⟨hover, (hy.error e rfl).resolve_right ?_⟩
      rw [hstops]
      exact Bool.false_ne_true

theorem readDelta_journal (hmessage : j.message = some messageId) (h : Streaming deltas j st)
    (delta : ProviderDelta) :
    Leaves j (readDelta sessionId runId messageId st delta) fun j' x =>
      ∃ v, x = .ok v ∧ PieceRead deltas delta st j j' v := by
  -- a piece that is recorded is read, and one that is not stops the reading
  have hpiece : ∀ (st₁ : StreamState) {j₁ : Journal} {p : ServerProgram (StreamState × Bool)},
      delta ≠ .requiresAction → j.Onward j₁ → (st₁.over = true → st.over = true ∨ j₁.faulted = true) →
      Leaves j₁ p (fun j' x => ∃ v, x = .ok v ∧
        j₁.Onward j' ∧ Streaming (deltas ++ [delta]) j' v.1 ∧
        (v.2 = false → v.1.outcome = st₁.outcome) ∧
        (v.2 = true → v.1.over = true ∧ j'.faulted = true)) →
      Leaves j₁ p fun j' x => ∃ v, x = .ok v ∧ PieceRead deltas delta st j j' v := by
    intro st₁ j₁ p hne honward hover hp
    refine hp.mono ?_
    rintro j' _ ⟨⟨st', stop⟩, rfl, honward', hstreaming, hgoing, hstop⟩
    refine ⟨_, rfl, honward.trans honward', fun hgo => ⟨hne, hstreaming, fun hover' => ?_⟩,
      fun hend => ⟨(hstop hend).1, .inr ⟨hstreaming, hne, (hstop hend).2⟩⟩⟩
    rw [StreamState.over, hgoing hgo] at hover'
    exact (hover hover').imp_right honward'.faulted
  have hany : ∀ b, delta.isContent = b →
      (deltas ++ [delta]).any ProviderDelta.isContent =
        (deltas.any ProviderDelta.isContent || b) := by
    rintro _ rfl
    simp
  have hjoin : joinText (deltas ++ [delta]) = joinText deltas ++ delta.textOf := by
    rw [joinText_append, joinText_singleton]
  have hcollect := collect_snoc deltas delta
  cases delta with
  | toolCallDelta index callId name arguments =>
    refine ⟨_, rfl, .refl j, fun _ => ⟨by simp, ⟨⟨?_, ?_, fun hclear => ?_⟩, ?_, h.retryable⟩, .inl⟩,
      by simp⟩
    · rw [hcollect]
      exact h.notes
    · rw [hcollect, h.buffers]
      rfl
    · rw [hjoin]
      exact (h.text hclear).trans (String.append_empty).symm
    · rw [hany true rfl, Bool.or_true]
  | text text =>
    have hread : Streaming (deltas ++ [.text text]) j
        { st with sawDelta := true, textBuffer := st.textBuffer ++ text } := by
      refine ⟨⟨?_, ?_, fun hclear => ?_⟩, ?_, h.retryable⟩
      · rw [hcollect]
        exact h.notes
      · rw [hcollect]
        exact h.buffers
      · rw [hjoin, ← h.text hclear, String.append_assoc]
        rfl
      · rw [hany true rfl, Bool.or_true]
    refine (textDue_asks _).leaves fun j₁ due h₁ => ?_
    have hread₁ := hread.aside h₁
    refine hpiece { st with sawDelta := true, textBuffer := st.textBuffer ++ text } (by simp)
      h₁.onward .inl ?_
    refine iteInduction (fun _ => ?_) fun _ => ?_
    · refine (flushText_journal (h₁.message.trans hmessage) hread₁).mono ?_
      rintro j' _ ⟨v, rfl, honward, hstreaming, hgoing, hstop⟩
      exact ⟨v, rfl, honward, hstreaming, hgoing, fun hend => ⟨(hstop hend).2, (hstop hend).1⟩⟩
    · exact ⟨_, rfl, .refl j₁, hread₁, fun _ => rfl, by simp⟩
  | completed =>
    refine (flushTools_journal hmessage h.notes st.outcome).bind_total ?_
    rintro j₁ outcome ⟨h₁, htext, hnotes, houtcome⟩
    have hnotes₁ : Notes (collect (deltas ++ [.completed])).1 j₁ := by
      rw [hcollect]
      rw [h.buffers] at hnotes
      exact hnotes
    refine hpiece { st with sawCompleted := true, toolBuffers := [], outcome } (by simp) h₁
      (fun hover => ?_) ?_
    · rcases houtcome with rfl | ⟨hfaulted, -⟩
      · exact .inl hover
      · exact .inr hfaulted
    refine recordDelta_streaming (h₁.message.trans hmessage) rfl rfl (fun j' y hy => ?_) ?_
      (fun hclear => ?_) ?_ ?_
    · have hsame := hy.calls _ hnotes₁
      simpa [collectStep] using hsame
    · rw [hcollect]
      rfl
    · rw [hjoin, htext]
      exact (h.text (h₁.clear hclear)).trans (String.append_empty).symm
    · rw [hany false rfl, Bool.or_false]
      exact h.sawDelta
    · rcases houtcome with rfl | ⟨-, e, rfl⟩
      · exact h.retryable
      · simp
  | toolCall callId name arguments =>
    refine hpiece { st with sawDelta := true } (by simp) (.refl j) .inl ?_
    refine recordDelta_streaming hmessage rfl rfl (fun j' y hy => ?_) ?_ (fun hclear => ?_) ?_
      h.retryable
    · rw [hcollect]
      exact hy.calls _ h.notes
    · rw [hcollect]
      exact h.buffers
    · rw [hjoin]
      exact (h.text hclear).trans (String.append_empty).symm
    · rw [hany true rfl, Bool.or_true]
  | usage value =>
    refine hpiece st (by simp) (.refl j) .inl ?_
    refine recordDelta_streaming hmessage rfl rfl (fun j' y hy => ?_) ?_ (fun hclear => ?_) ?_
      h.retryable
    · rw [hcollect]
      exact hy.calls _ h.notes
    · rw [hcollect]
      exact h.buffers
    · rw [hjoin]
      exact (h.text hclear).trans (String.append_empty).symm
    · rw [hany false rfl, Bool.or_false]
      exact h.sawDelta
  | requiresAction =>
    refine (recordDelta_journal hmessage .requiresAction).mono ?_
    rintro j' _ ⟨⟨st', stop⟩, rfl, y, hy, htools, hbuffer, hsawDelta, hgoing, hstop⟩
    dsimp only at htools hbuffer hsawDelta hgoing hstop
    refine ⟨_, rfl, hy.onward, fun hgo => absurd (hgoing hgo).1 (by simp [ProviderDelta.stops]),
      fun hend => ?_⟩
    obtain ⟨hover, hretryable, -⟩ := hstop hend
    refine ⟨hover, .inl ⟨⟨⟨hy.calls _ h.notes, htools.trans h.buffers, fun hclear => ?_⟩,
      hsawDelta.trans h.sawDelta, hretryable⟩, rfl⟩⟩
    have htext : ProviderDelta.requiresAction.textOf = "" := rfl
    rw [hy.text, hbuffer, htext, String.append_empty]
    exact h.text (hy.onward.clear hclear)

/-- What reading leaves of the pieces `taken` that are there to be read: a part of them has been
read, and all of them where nothing failed. It goes on behind them where `goesOn`. -/
structure ReadPart (deltas : List ProviderDelta) (taken : List ProviderDelta × Bool)
    (j j' : Journal) (st' : StreamState) : Prop where
  onward : j.Onward j'
  exists_read : ∃ more, more <+: taken.1 ∧ Streaming (deltas ++ more) j' st' ∧
    (st'.over = false → taken = (more, true)) ∧
    (j'.faulted = false → taken = (more, !st'.over))

/-- Reading that has come to its end behind some pieces. -/
theorem ReadPart.after {more : List ProviderDelta} {rest : List ProviderDelta × Bool}
    {j' j'' : Journal} {st' : StreamState} (honward : j.Onward j')
    (h : ReadPart (deltas ++ more) rest j' j'' st') :
    ReadPart deltas (more ++ rest.1, rest.2) j j'' st' := by
  obtain ⟨more', hprefix, hstreaming, hgoes, hall⟩ := h.exists_read
  refine ⟨honward.trans h.onward, more ++ more', List.prefix_append_right_inj more |>.mpr hprefix,
    ?_, fun hover => ?_, fun hclear => ?_⟩
  · rw [← List.append_assoc]
    exact hstreaming
  · rw [hgoes hover]
  · rw [hall hclear]

theorem readDeltas_journal (hmessage : j.message = some messageId) (h : Streaming deltas j st)
    (hover : st.over = true → j.faulted = true) (more : List ProviderDelta) :
    Leaves j (readDeltas sessionId runId messageId more st) fun j' x => ∃ st', x = .ok st' ∧
      ReadPart deltas (untilStop (· = .requiresAction) more) j j' st' := by
  induction more generalizing deltas j st with
  | nil =>
    refine ⟨st, rfl, .refl j, [], List.nil_prefix, by simpa using h, fun _ => rfl, fun hclear => ?_⟩
    cases hst : st.over with
    | false => rfl
    | true =>
      rw [hover hst] at hclear
      cases hclear
  | cons delta more ih =>
    refine (readDelta_journal hmessage h delta).bind_total ?_
    rintro j₁ ⟨st₁, stop⟩ hpiece
    refine iteInduction (fun hstop => ?_) fun hstop => ?_
    · obtain ⟨hover₁, ⟨hread, rfl⟩ | ⟨hread, hne, hfaulted⟩⟩ := hpiece.stopped hstop
      · refine ⟨st₁, rfl, hpiece.onward, [], List.nil_prefix, by simpa using hread, fun hnot => ?_,
          fun _ => ?_⟩
        · rw [hover₁] at hnot
          cases hnot
        · rw [hover₁]
          simp [untilStop]
      · refine ⟨st₁, rfl, hpiece.onward, [delta], ?_, hread, fun hnot => ?_, fun hclear => ?_⟩
        · simp [untilStop, hne]
        · rw [hover₁] at hnot
          cases hnot
        · rw [hfaulted] at hclear
          cases hclear
    · obtain ⟨hne, hread, hgoing⟩ := hpiece.read (Bool.eq_false_iff.mpr hstop)
      have htaken : untilStop (· = .requiresAction) (delta :: more) =
          ([delta] ++ (untilStop (· = .requiresAction) more).1,
            (untilStop (· = .requiresAction) more).2) := by
        simp [untilStop, hne]
      rw [htaken]
      refine (ih (hpiece.onward.message.trans hmessage) hread fun hover₁ => ?_).mono ?_
      · rcases hgoing hover₁ with hst | hfaulted
        · exact hpiece.onward.faulted (hover hst)
        · exact hfaulted
      · rintro j' _ ⟨st', rfl, hpart⟩
        exact ⟨st', rfl, hpart.after hpiece.onward⟩

/-- A part that has come to an end. -/
theorem ReadPart.ended {taken : List ProviderDelta} {goesOn : Bool}
    {rest : List ProviderDelta} {goesOn' : Bool} {j' : Journal} {st' : StreamState}
    (h : ReadPart deltas (taken, goesOn) j j' st') (hover : st'.over = true)
    (hrest : taken <+: rest) (hstops : goesOn = false → rest = taken ∧ goesOn' = false) :
    ReadPart deltas (rest, goesOn') j j' st' := by
  obtain ⟨more, hprefix, hstreaming, -, hall⟩ := h.exists_read
  refine ⟨h.onward, more, hprefix.trans hrest, hstreaming, fun hnot => ?_, fun hclear => ?_⟩
  · rw [hover] at hnot
    cases hnot
  · obtain ⟨rfl, hgoesOn⟩ := Prod.mk.inj (hall hclear)
    rw [hover] at hgoesOn
    obtain ⟨rfl, rfl⟩ := hstops hgoesOn
    rw [hover]
    rfl

theorem readFrames_journal (hmessage : j.message = some messageId) (h : Streaming deltas j st)
    (hover : st.over = false) (frames : List (Except String (List ProviderDelta))) :
    Leaves j (readFrames sessionId runId messageId frames st) fun j' x => ∃ st', x = .ok st' ∧
      ReadPart deltas (framesReceived frames) j j' st' := by
  induction frames generalizing deltas j st with
  | nil =>
    refine ⟨st, rfl, .refl j, [], List.nil_prefix, by simpa using h, fun _ => rfl, fun _ => ?_⟩
    rw [hover]
    rfl
  | cons frame frames ih =>
    cases frame with
    | error e =>
      refine ⟨_, rfl, .refl j, [], List.nil_prefix, ?_, by simp [StreamState.over], fun _ => rfl⟩
      rw [List.append_nil]
      exact ⟨⟨h.notes, h.buffers, h.text⟩, h.sawDelta, by simp⟩
    | ok more =>
      have hnotOver : st.over = true → j.faulted = true := by
        rw [hover]
        simp
      refine (readDeltas_journal hmessage h hnotOver more).bind_total fun j₁ st₁ hpart => ?_
      rcases htaken : untilStop (· = .requiresAction) more with ⟨taken, goesOn⟩
      rw [htaken] at hpart
      have hreceived : framesReceived (.ok more :: frames) =
          if goesOn then (taken ++ (framesReceived frames).1, (framesReceived frames).2)
          else (taken, false) := by
        simp only [framesReceived, htaken]
      rw [hreceived]
      refine iteInduction (fun hover₁ => ?_) fun hover₁ => ?_
      · refine ⟨st₁, rfl, ?_⟩
        cases goesOn with
        | true => exact hpart.ended hover₁ (List.prefix_append _ _) (by simp)
        | false => exact hpart.ended hover₁ List.prefix_rfl fun _ => ⟨rfl, rfl⟩
      · obtain ⟨more', -, hstreaming, hgoes, -⟩ := hpart.exists_read
        obtain ⟨rfl, rfl⟩ := Prod.mk.inj (hgoes (not_over hover₁))
        refine (ih (hpart.onward.message.trans hmessage) hstreaming (not_over hover₁)).mono ?_
        rintro j' _ ⟨st', rfl, hrest⟩
        exact ⟨st', rfl, hrest.after hpart.onward⟩

/-- How the reading of a response ends of which the pieces `taken` are there to be read. A response
that is worth another attempt has been read as far as it went, and nothing came of it. -/
def ReadingEnds (deltas taken : List ProviderDelta) (j j' : Journal) :
    Except TurnExit StreamState → Prop
  | .ok st' => j.Onward j' ∧ ∃ more, more <+: taken ∧ Reads (deltas ++ more) j' st' ∧
      (j'.faulted = false → more = taken) ∧
      ∀ e, st'.outcome = .failed e true →
        more = taken ∧ (deltas ++ more).any ProviderDelta.isContent = false
  | .error x => j.Onward j' ∧ (x = .result .cancelled ∨ x = .result .interrupted) ∧
      ∃ more, more <+: taken ∧ Notes (collect (deltas ++ more)).1 j'

theorem ReadingEnds.after {more rest : List ProviderDelta} {j' j'' : Journal}
    {x : Except TurnExit StreamState} (honward : j.Onward j')
    (h : ReadingEnds (deltas ++ more) rest j' j'' x) : ReadingEnds deltas (more ++ rest) j j'' x := by
  cases x with
  | ok st' =>
    obtain ⟨honward', more', hprefix, hreads, hall, hretry⟩ := h
    rw [List.append_assoc] at hreads
    refine ⟨honward.trans honward', more ++ more', (List.prefix_append_right_inj more).mpr hprefix,
      hreads, fun hclear => by rw [hall hclear], fun e he => ?_⟩
    obtain ⟨hmore, hquiet⟩ := hretry e he
    rw [List.append_assoc] at hquiet
    exact ⟨by rw [hmore], hquiet⟩
  | error x =>
    obtain ⟨honward', hx, more', hprefix, hnotes⟩ := h
    rw [List.append_assoc] at hnotes
    exact ⟨honward.trans honward', hx, more ++ more',
      (List.prefix_append_right_inj more).mpr hprefix, hnotes⟩

/-- A stream that is read no more. -/
theorem ReadPart.ends {taken : List ProviderDelta × Bool} {rest : List ProviderDelta} {j' : Journal}
    {st' : StreamState} (h : ReadPart deltas taken j j' st') (hover : st'.over = true)
    (hrest : taken.1 <+: rest) (hstops : taken.2 = false → rest = taken.1) :
    ReadingEnds deltas rest j j' (.ok st') := by
  obtain ⟨more, hprefix, hstreaming, -, hall⟩ := h.exists_read
  refine ⟨h.onward, more, hprefix.trans hrest, hstreaming.toReads, fun hclear => ?_,
    fun e he => absurd he (hstreaming.retryable e)⟩
  have htaken := hall hclear
  rw [hover] at htaken
  rw [hstops (by rw [htaken]; rfl), htaken]

theorem readItems_journal (hmessage : j.message = some messageId) (h : Streaming deltas j st)
    (hover : st.over = false) (items : List StreamItem) :
    Leaves j (readItems sessionId runId messageId items st)
      (ReadingEnds deltas (streamReceived items) j) := by
  induction items generalizing deltas j st with
  | nil =>
    refine ⟨.refl j, [], List.nil_prefix, by simpa using h.toReads, fun _ => rfl, fun e he => ?_⟩
    exact absurd he (h.retryable e)
  | cons item items ih =>
    have hleft : ∀ {x}, x = TurnExit.result .cancelled ∨ x = .result .interrupted →
        ∀ taken, ReadingEnds deltas taken j j (.error x) := fun hx taken =>
      ⟨.refl j, hx, [], List.nil_prefix, by simpa using h.notes⟩
    cases item with
    | cancelled => exact hleft (.inl rfl) _
    | shutdown => exact hleft (.inr rfl) _
    | broken e =>
      refine ⟨.refl j, [], List.nil_prefix, ?_, fun _ => rfl, fun e' he => ⟨rfl, ?_⟩⟩
      · rw [List.append_nil]
        exact ⟨h.notes, h.buffers, h.text⟩
      · rw [List.append_nil, ← h.sawDelta]
        simpa using (ExecutionResult.failed.inj he).2
    | tick =>
      refine iteInduction (fun _ => ih hmessage h hover) fun _ => ?_
      refine leaves_orFail_total (flushText_journal hmessage h) ?_
      rintro j₁ ⟨st₁, stop⟩ ⟨honward, hstreaming, hgoing, hstop⟩
      refine iteInduction (fun hend => ?_) fun hend => ?_
      · refine ⟨honward, [], List.nil_prefix, by simpa using hstreaming.toReads, fun hclear => ?_,
          fun e he => absurd he (hstreaming.retryable e)⟩
        rw [(hstop hend).1] at hclear
        cases hclear
      · have hgo := hgoing (Bool.eq_false_iff.mpr hend)
        have hover₁ : st₁.over = false := by
          rw [StreamState.over, hgo]
          exact hover
        refine (ih (honward.message.trans hmessage) hstreaming hover₁).mono fun j' x hx => ?_
        have hends : ReadingEnds (deltas ++ []) (streamReceived items) j₁ j' x := by
          rwa [List.append_nil]
        exact hends.after honward
    | chunk frames =>
      refine leaves_orFail_total (readFrames_journal hmessage h hover frames) ?_
      intro j₁ st₁ hpart
      rcases hframes : framesReceived frames with ⟨taken, goesOn⟩
      have hreceived : streamReceived (.chunk frames :: items) =
          if goesOn then taken ++ streamReceived items else taken := by
        simp only [streamReceived, hframes]
      rw [hreceived]
      rw [hframes] at hpart
      refine iteInduction (fun hover₁ => ?_) fun hover₁ => ?_
      · cases goesOn with
        | true => exact hpart.ends hover₁ (List.prefix_append _ _) (by simp)
        | false => exact hpart.ends hover₁ List.prefix_rfl fun _ => rfl
      · obtain ⟨more, -, hstreaming, hgoes, -⟩ := hpart.exists_read
        obtain ⟨rfl, rfl⟩ := Prod.mk.inj (hgoes (not_over hover₁))
        exact (ih (hpart.onward.message.trans hmessage) hstreaming (not_over hover₁)).mono
          fun j' x hx => ReadingEnds.after hpart.onward hx

/-- A stream from its start. -/
theorem readStream_journal (hmessage : j.message = some messageId) (hcalls : j.calls = [])
    (htext : j.faulted = false → j.text = "") (items : List StreamItem) :
    Leaves j (readStream sessionId runId messageId items)
      (ReadingEnds [] (streamReceived items) j) := by
  have hstart : Streaming [] j {} :=
    ⟨⟨.nil hcalls, rfl, fun hclear => by simp [htext hclear, joinText]⟩, rfl, by simp⟩
  refine (readItems_journal hmessage hstart rfl items).bind ?_ fun j' x h => h
  rintro j' st ⟨honward, more, hprefix, hreads, hall, hretry⟩
  refine iteInduction (fun _ => ?_) fun _ => ⟨honward, more, hprefix, hreads, hall, hretry⟩
  exact ⟨honward, more, hprefix, ⟨hreads.notes, hreads.buffers, hreads.text⟩, hall, by simp⟩

/-- A response as a whole has no calls in pieces, and its text is recorded behind its end. -/
theorem readWhole_journal (hmessage : j.message = some messageId) (h : Reads deltas j st)
    (htools : st.toolBuffers = []) (hretryable : ∀ e, st.outcome ≠ .failed e true)
    (more : List ProviderDelta) :
    Leaves j (readWhole sessionId runId messageId more st) fun j' x => ∃ st', x = .ok st' ∧
      (∀ e, st'.outcome ≠ .failed e true) ∧
      ReadingEnds deltas (untilStop ProviderDelta.stops more).1 j j' (.ok st') := by
  induction more generalizing deltas j st with
  | nil =>
    exact ⟨st, rfl, hretryable, .refl j, [], List.nil_prefix, by simpa using h, fun _ => rfl,
      fun e he => absurd he (hretryable e)⟩
  | cons delta more ih =>
    have hjoin : joinText (deltas ++ [delta]) = joinText deltas ++ delta.textOf := by
      rw [joinText_append, joinText_singleton]
    have hcollect := collect_snoc deltas delta
    have hpending : collect deltas = ((collect deltas).1, []) := by
      rw [← htools, h.buffers]
    -- a piece that does not stop the reading has been read, and the rest follows
    have hnext : ∀ {j₁ st₁}, delta.stops = false → j.Onward j₁ → Reads (deltas ++ [delta]) j₁ st₁ →
        st₁.toolBuffers = [] → (∀ e, st₁.outcome ≠ .failed e true) →
        Leaves j₁ (readWhole sessionId runId messageId more st₁) fun j' x => ∃ st', x = .ok st' ∧
          (∀ e, st'.outcome ≠ .failed e true) ∧
          ReadingEnds deltas (untilStop ProviderDelta.stops (delta :: more)).1 j j' (.ok st') := by
      intro j₁ st₁ hstops honward hreads htools₁ hretryable₁
      refine (ih (honward.message.trans hmessage) hreads htools₁ hretryable₁).mono ?_
      rintro j' _ ⟨st', rfl, hretryable', hends⟩
      refine ⟨st', rfl, hretryable', ?_⟩
      have htaken : (untilStop ProviderDelta.stops (delta :: more)).1 =
          [delta] ++ (untilStop ProviderDelta.stops more).1 := by
        simp [untilStop, hstops]
      rw [htaken]
      exact hends.after honward
    have hrecord : delta.textOf = "" → (recordDelta sessionId runId messageId st delta).Follows
        (fun _ _ => True) journalNext (fun j₁ x => ∃ v, x = .ok v ∧ j.Onward j₁ ∧
          (∀ e, v.1.outcome ≠ .failed e true) ∧
          (v.2 = false → delta.stops = false ∧ Reads (deltas ++ [delta]) j₁ v.1 ∧
            v.1.toolBuffers = []) ∧
          (v.2 = true → ReadingEnds deltas (untilStop ProviderDelta.stops (delta :: more)).1 j j₁
            (.ok v.1))) j := by
      intro htext
      refine (recordDelta_journal hmessage delta).mono ?_
      rintro j₁ _ ⟨⟨st₁, stop⟩, rfl, y, hy, htools₁, hbuffer, -, hgoing, hstop⟩
      dsimp only at htools₁ hbuffer hgoing hstop
      have htext₁ : j₁.faulted = false → j₁.text ++ st₁.textBuffer = joinText deltas := by
        intro hclear
        rw [hy.text, htext, String.append_empty, hbuffer]
        exact h.text (hy.onward.clear hclear)
      have hread : delta.stops = false → Reads (deltas ++ [delta]) j₁ st₁ := by
        intro hstops
        refine ⟨?_, ?_, fun hclear => ?_⟩
        · rw [hcollect, hpending]
          exact hy.calls _ h.notes
        · rw [hcollect, hpending, htools₁, htools]
          cases delta <;> first | rfl | cases hstops
        · rw [hjoin, htext, String.append_empty]
          exact htext₁ hclear
      refine ⟨_, rfl, hy.onward, ?_, fun hgo => ?_, fun hend => ?_⟩
      · cases stop with
        | false =>
          intro e
          rw [(hgoing rfl).2]
          exact hretryable e
        | true => exact (hstop rfl).2.1
      · exact ⟨(hgoing hgo).1, hread (hgoing hgo).1, htools₁.trans htools⟩
      · obtain ⟨hover, hretryable₁, hcase⟩ := hstop hend
        cases hstops : delta.stops with
        | true =>
          refine ⟨hy.onward, [], List.nil_prefix, ?_, fun _ => by simp [untilStop, hstops],
            fun e he => absurd he (hretryable₁ e)⟩
          rw [List.append_nil]
          refine ⟨?_, htools₁.trans h.buffers, htext₁⟩
          have hnotes := hy.calls _ h.notes
          cases delta <;> first | exact hnotes | cases hstops
        | false =>
          obtain ⟨e, rfl⟩ := hcase.resolve_left (by rw [hstops]; exact Bool.false_ne_true)
          have hfaulted := (hy.error e rfl).resolve_right (by rw [hstops]; exact Bool.false_ne_true)
          refine ⟨hy.onward, [delta], by simp [untilStop, hstops], hread hstops, fun hclear => ?_,
            fun e he => absurd he (hretryable₁ e)⟩
          rw [hfaulted] at hclear
          cases hclear
    have hdo : delta.textOf = "" → Leaves j (recordDelta sessionId runId messageId st delta >>=
        fun v => if v.2 then return v.1 else readWhole sessionId runId messageId more v.1)
        fun j' x => ∃ st', x = .ok st' ∧ (∀ e, st'.outcome ≠ .failed e true) ∧
          ReadingEnds deltas (untilStop ProviderDelta.stops (delta :: more)).1 j j' (.ok st') := by
      intro htext
      refine (hrecord htext).bind_total ?_
      rintro j₁ ⟨st₁, stop⟩ ⟨honward, hretryable₁, hgoing, hstop⟩
      refine iteInduction (fun hend => ⟨st₁, rfl, hretryable₁, hstop hend⟩) fun hend => ?_
      obtain ⟨hstops, hreads, htools₁⟩ := hgoing (Bool.eq_false_iff.mpr hend)
      exact hnext hstops honward hreads htools₁ hretryable₁
    cases delta with
    | text text =>
      refine hnext rfl (.refl j) ⟨?_, ?_, fun hclear => ?_⟩ htools hretryable
      · rw [hcollect]
        exact h.notes
      · rw [hcollect]
        exact h.buffers
      · rw [hjoin, ← h.text hclear, String.append_assoc]
        rfl
    | toolCall callId name arguments => exact hdo rfl
    | toolCallDelta index callId name arguments => exact hdo rfl
    | usage value => exact hdo rfl
    | completed => exact hdo rfl
    | requiresAction => exact hdo rfl

theorem readText_journal (hmessage : j.message = some messageId) (hcalls : j.calls = [])
    (htext : j.faulted = false → j.text = "") (reply : TextReply) :
    Leaves j (readText sessionId runId messageId reply) (ReadingEnds [] reply.received j) := by
  have hstart : ∀ st : StreamState, st.toolBuffers = [] → st.textBuffer = "" → Reads [] j st :=
    fun st htools hbuffer => ⟨.nil hcalls, htools, fun hclear => by
      simp [htext hclear, hbuffer, joinText]⟩
  have hleft : ∀ {x}, x = TurnExit.result .cancelled ∨ x = .result .interrupted →
      ReadingEnds [] [] j j (.error x) := fun hx =>
    ⟨.refl j, hx, [], List.nil_prefix, .nil hcalls⟩
  cases reply with
  | cancelled => exact hleft (.inl rfl)
  | shutdown => exact hleft (.inr rfl)
  | broken e => exact ⟨.refl j, [], List.nil_prefix, hstart _ rfl rfl, fun _ => rfl, fun _ _ => ⟨rfl, rfl⟩⟩
  | text deltas =>
    cases deltas with
    | error e =>
      exact ⟨.refl j, [], List.nil_prefix, hstart _ rfl rfl, fun _ => rfl, by simp⟩
    | ok deltas =>
      have hread := @readWhole_journal sessionId runId _ _ _ _ hmessage (hstart {} rfl rfl) rfl
        (by simp) deltas
      refine Program.Follows.recover hread ?_ ?_
      · rintro j' st ⟨_, hst, -, hends⟩
        cases hst
        exact hends
      · rintro j' e ⟨_, hst, -⟩
        cases hst

end Stream

end Piqo
