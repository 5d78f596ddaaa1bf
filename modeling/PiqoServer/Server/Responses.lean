import PiqoServer.Server.Turns

/-!
# Reading a response follows the protocol of a turn

Each piece of a response is recorded or refused, and reading goes on or stops. What comes of a
response is `completed` only where it was read to its end; it is worth another attempt only where
nothing came of it; and the run waits for results only where that was recorded.

## Main definitions

* `Persisted`: what recording a piece leaves
* `Reading`, `Done`, `ReadOn`: a turn that goes on reading, or reads no more
* `ReadResponse`: what a response leaves

## Main results

* `persistDelta_follows`, `readItems_follows`, `readWhole_follows`: one lemma per function
* `readResponse_follows`: reading a response follows the protocol
-/

namespace Piqo

/-! ## Recording what a provider sends -/

theorem snapshot_silent : Silent snapshot := by
  refine Silent.ask rfl fun config => ?_
  cases config <;> trivial

theorem configuredAgent_silent (name : String) : Silent (configuredAgent name) := by
  refine Silent.ask rfl fun config => ?_
  cases config <;> trivial

theorem loadRun_silent (sessionId runId : String) : Silent (loadRun sessionId runId) :=
  Silent.onStore rfl fun _ => (Silent.expect _ _).bind fun _ => .ret _

theorem isNativeCall_silent (sessionId runId toolName : String) :
    Silent (isNativeCall sessionId runId toolName) := by
  unfold isNativeCall
  refine iteInduction (fun _ => ?_) fun _ => ?_
  · exact (loadRun_silent _ _).bind fun _ => (Silent.expect _ _).bind fun _ =>
      snapshot_silent.bind fun _ => .ret _
  · refine Silent.onStore rfl fun session => ?_
    refine iteInduction (fun _ => .ret _) fun _ => ?_
    refine (loadRun_silent _ _).bind fun _ => (Silent.expect _ _).bind fun request => ?_
    refine iteInduction (fun _ => .ret _) fun _ => ?_
    refine (configuredAgent_silent _).bind fun configured => ?_
    refine iteInduction (fun _ => ?_) fun _ => .ret _
    refine Silent.ask rfl fun catalog => ?_
    exact iteInduction (fun _ => .ret _) fun _ => .ret _

theorem isNativeCallOrFalse_asks (sessionId runId toolName : String) :
    Asks (isNativeCallOrFalse sessionId runId toolName) := by
  refine (isNativeCall_silent sessionId runId toolName).attempt.bind fun native => ?_
  cases native <;> exact ⟨_, rfl⟩

theorem parseArguments_asks (text : String) : Asks (parseArguments text) := by
  refine follows_ask rfl fun value => ?_
  cases value <;> exact ⟨_, rfl⟩

theorem textDue_asks (text : String) : Asks (textDue text) := by
  unfold textDue
  exact iteInduction (fun _ => follows_ask rfl fun due => ⟨due, rfl⟩) fun _ => ⟨true, rfl⟩

/-- Only the calls recorded, the waiting and the faults differ. -/
structure Turn.Onward (t t' : Turn) : Prop where
  runId : t'.runId = t.runId
  retryOf : t'.retryOf = t.retryOf
  request : t'.request = t.request
  writing : t'.writing = t.writing
  carries : t'.carries = t.carries
  clean : t'.clean = t.clean
  late : t'.late = t.late
  waiting : t.waiting = true → t'.waiting = true

theorem Turn.Onward.refl (t : Turn) : t.Onward t := ⟨rfl, rfl, rfl, rfl, rfl, rfl, rfl, id⟩

theorem Turn.Onward.trans {t t' t'' : Turn} (h : t.Onward t') (h' : t'.Onward t'') :
    t.Onward t'' where
  runId := h'.runId.trans h.runId
  retryOf := h'.retryOf.trans h.retryOf
  request := h'.request.trans h.request
  writing := h'.writing.trans h.writing
  carries := h'.carries.trans h.carries
  clean := h'.clean.trans h.clean
  late := h'.late.trans h.late
  waiting hwaiting := h'.waiting (h.waiting hwaiting)

/-- What recording a piece leaves. -/
structure Persisted (t : Turn) (delta : ProviderDelta) (t' : Turn)
    (x : Except StoreError DeltaResult) : Prop where
  onward : t.Onward t'
  emitted : t'.emitted = true → t.emitted = true ∨ delta.isCall = true
  waiting : t'.waiting = true → t.waiting = true ∨ x = .ok .requiresAction
  action : x = .ok .requiresAction → t'.waiting = true ∧ delta = .requiresAction
  stops : delta.stops = true → ∀ r, x = .ok r → r = .requiresAction
  panic : x = .error .panicked → t'.faulted = true

section Persist

variable {sessionId runId messageId : String} {t : Turn} {delta : ProviderDelta}

/-- A piece that is refused. -/
theorem Persisted.refused {x : StoreError} {faulted : Bool}
    (hpanic : x = .panicked → faulted = true) :
    Persisted t delta { t with faulted } (.error x) where
  onward := ⟨rfl, rfl, rfl, rfl, rfl, rfl, rfl, id⟩
  emitted := .inl
  waiting := .inl
  action := nofun
  stops := nofun
  panic h := hpanic (Except.error.inj h)

/-- A piece that leaves the turn as it is. -/
theorem Persisted.same {r : DeltaResult} (hr : r ≠ .requiresAction) (hstops : delta.stops = false) :
    Persisted t delta t (.ok r) where
  onward := .refl t
  emitted := .inl
  waiting := .inl
  action h := absurd (Except.ok.inj h) hr
  stops h := by simp [hstops] at h
  panic := nofun

theorem persistDelta_follows (hrun : t.runId = runId) (hwriting : t.writing = .assistant messageId)
    (hcarries : delta.isCall = true → t.carries = true) :
    (persistDelta sessionId runId messageId delta).Follows (turnAllows sessionId) turnNext
      (Persisted t delta) t := by
  cases delta with
  | text text =>
    have hrecord : t.record (.messageContentAppended messageId (.text text)) = some t := by
      simp [Turn.record, hwriting]
    exact follows_append hrecord (fun _ => .same (by simp) rfl) fun _ _ _ hpanic => .refused hpanic
  | toolCall callId name arguments =>
    have hrecord (id agentId name parsed arguments native) :
        t.record (.toolCallEmitted runId messageId id agentId name parsed arguments native) =
          some { t with emitted := true } := by
      simp [Turn.record, hrun, hwriting, hcarries rfl]
    have hrest : ∀ id, (isNativeCallOrFalse sessionId runId (name.getD "function") >>= fun native =>
        parseArguments arguments >>= fun parsed => append sessionId (.toolCallEmitted runId messageId
          id "assistant" (name.getD "function") parsed arguments native) >>= fun _ =>
            Program.ret DeltaResult.none).Follows (turnAllows sessionId) turnNext
        (Persisted t (.toolCall callId name arguments)) t := by
      intro id
      refine (isNativeCallOrFalse_asks ..).follows fun native => ?_
      refine (parseArguments_asks _).follows fun parsed => ?_
      refine follows_append (hrecord ..) (fun _ => ?_) fun _ _ _ hpanic => .refused hpanic
      exact ⟨⟨rfl, rfl, rfl, rfl, rfl, rfl, rfl, fun h => h⟩, fun _ => .inr rfl, .inl, by simp,
        by simp [ProviderDelta.stops], by simp⟩
    cases callId with
    | some id => exact hrest id
    | none => exact follows_ask trivial hrest
  | toolCallDelta index callId name arguments =>
    exact @Persisted.refused t _ (.invalidRequest _) t.faulted (by simp)
  | usage value => exact .same (by simp) rfl
  | completed => exact .same (by simp) rfl
  | requiresAction =>
    have hrecord : t.record (.runRequiresAction runId []) = some { t with waiting := true } := by
      simp [Turn.record, hrun, hwriting, Writing.open?, Writing.userOpen]
    refine follows_append hrecord (fun _ => ?_) fun _ _ _ hpanic => .refused hpanic
    exact ⟨⟨rfl, rfl, rfl, rfl, rfl, rfl, rfl, fun _ => rfl⟩, .inl, fun _ => .inr rfl, fun _ => ⟨rfl, rfl⟩,
      fun _ r h => (Except.ok.inj h).symm, by simp⟩

/-- Its outcome as a value. -/
theorem attemptDelta_follows (delta : ProviderDelta) (hrun : t.runId = runId)
    (hwriting : t.writing = .assistant messageId)
    (hcarries : delta.isCall = true → t.carries = true) :
    (persistDelta sessionId runId messageId delta).attempt.Follows (turnAllows sessionId) turnNext
      (fun t' x => ∃ v, x = .ok v ∧ Persisted t delta t' v) t :=
  ((persistDelta_follows hrun hwriting hcarries).mono fun _ x h => ⟨x, rfl, h⟩).attempt

end Persist

/-! ## Reading a response -/

/-- A turn that goes on reading. -/
structure Reading (t : Turn) (st : StreamState) : Prop where
  buffers : st.toolBuffers ≠ [] → t.carries = true ∧ st.sawDelta = true
  emitted : t.emitted = true → st.sawDelta = true
  waiting : t.waiting = false
  outcome : st.outcome = .completed ∨ ∃ e, st.outcome = .failed e false

/-- A turn that reads no more. -/
def Done (t : Turn) (st : StreamState) : Prop :=
  (∃ e, st.outcome = .failed e false) ∨ st.outcome = .requiresAction ∧ t.waiting = true

/-- A turn that has read the pieces `deltas`; what comes of it is `completed` only where they leave
the run going. -/
structure ReadOn (t : Turn) (st : StreamState) (clean : Bool) (deltas : List ProviderDelta)
    (t' : Turn) (st' : StreamState) : Prop where
  onward : t.Onward t'
  state : Reading t' st' ∨ Done t' st'
  completed : st'.outcome = .completed → st.outcome = .completed ∧ clean = true
  sawCompleted : st'.sawCompleted = true → st.sawCompleted = true ∨ .completed ∈ deltas

theorem Done.not_completed {t : Turn} {st : StreamState} (h : Done t st) :
    st.outcome ≠ .completed := by
  rcases h with ⟨e, h⟩ | ⟨h, -⟩ <;> rw [h] <;> nofun

theorem Done.over {t : Turn} {st : StreamState} (h : Done t st) : st.over = true := by
  rcases h with ⟨e, h⟩ | ⟨h, -⟩ <;> rw [StreamState.over, h]

theorem ReadOn.reading {t t' : Turn} {st st' : StreamState} {clean : Bool}
    {deltas : List ProviderDelta} (h : ReadOn t st clean deltas t' st') (hover : st'.over = false) :
    Reading t' st' := by
  refine h.state.resolve_right fun hdone => ?_
  rw [hdone.over] at hover
  cases hover

theorem ReadOn.refl {t : Turn} {st : StreamState} (h : Reading t st) : ReadOn t st true [] t st where
  onward := .refl t
  state := .inl h
  completed h := ⟨h, rfl⟩
  sawCompleted := .inl

theorem ReadOn.trans {t t' t'' : Turn} {st st' st'' : StreamState} {clean clean' : Bool}
    {deltas deltas' : List ProviderDelta} (h : ReadOn t st clean deltas t' st')
    (h' : ReadOn t' st' clean' deltas' t'' st'') :
    ReadOn t st (clean && clean') (deltas ++ deltas') t'' st'' where
  onward := h.onward.trans h'.onward
  state := h'.state
  completed hcompleted := by
    obtain ⟨houtcome', hclean'⟩ := h'.completed hcompleted
    obtain ⟨houtcome, hclean⟩ := h.completed houtcome'
    exact ⟨houtcome, by rw [hclean, hclean']; rfl⟩
  sawCompleted hsaw := by
    rw [List.mem_append]
    rcases h'.sawCompleted hsaw with hsaw | hmem
    · exact (h.sawCompleted hsaw).imp_right .inl
    · exact .inr (.inr hmem)

/-- Where nothing more is read, the rest does not matter. -/
theorem ReadOn.stopped {t t' : Turn} {st st' : StreamState} {clean : Bool}
    {deltas : List ProviderDelta} (h : ReadOn t st clean deltas t' st')
    (hstop : st'.outcome ≠ .completed) (clean' : Bool) (more : List ProviderDelta) :
    ReadOn t st clean' (deltas ++ more) t' st' where
  onward := h.onward
  state := h.state
  completed hcompleted := absurd hcompleted hstop
  sawCompleted hsaw := (h.sawCompleted hsaw).imp_right (List.mem_append_left _)

section Read

variable {sessionId runId messageId : String} {t : Turn} {st : StreamState}

theorem flushText_follows (hrun : t.runId = runId) (hwriting : t.writing = .assistant messageId)
    (hreading : Reading t st) :
    (flushText sessionId runId messageId st).Follows (turnAllows sessionId) turnNext
      (fun t' x => ∃ v, x = .ok v ∧ ReadOn t st true [] t' v.1 ∧
        (v.2 = false → Reading t' v.1) ∧ v.1.sawDelta = st.sawDelta ∧
        (v.2 = true → Done t' v.1)) t := by
  refine (attemptDelta_follows (.text st.textBuffer) hrun hwriting nofun).bind_total ?_
  intro t' x hx
  have hemitted : t'.emitted = true → st.sawDelta = true := fun h =>
    hreading.emitted ((hx.emitted h).resolve_right Bool.false_ne_true)
  cases x with
  | ok r =>
    have hwaiting : t'.waiting = false := by
      refine Bool.eq_false_iff.mpr fun h => ?_
      rcases hx.waiting h with h | h
      · rw [hreading.waiting] at h
        cases h
      · exact nomatch (hx.action h).2
    have hstate : Reading t' { st with textBuffer := "" } :=
      ⟨fun h => by rw [hx.onward.carries]; exact hreading.buffers h, hemitted, hwaiting,
        hreading.outcome⟩
    exact ⟨_, rfl, ⟨hx.onward, .inl hstate, fun h => ⟨h, rfl⟩, .inl⟩, fun _ => hstate, rfl, nofun⟩
  | error e =>
    have hdone : Done t' { st with textBuffer := "", outcome := .failed e.message false } :=
      .inl ⟨_, rfl⟩
    exact ⟨_, rfl, ⟨hx.onward, .inr hdone, nofun, .inl⟩, nofun, rfl, fun _ => hdone⟩

theorem recordDelta_follows (hrun : t.runId = runId) (hwriting : t.writing = .assistant messageId)
    {delta : ProviderDelta} (hcarries : delta.isCall = true → t.carries = true)
    (hwaiting : t.waiting = false) :
    (recordDelta sessionId runId messageId st delta).Follows (turnAllows sessionId) turnNext
      (fun t' x => ∃ v, x = .ok v ∧ t.Onward t' ∧
        (t'.emitted = true → t.emitted = true ∨ delta.isCall = true) ∧
        v.1.sawCompleted = st.sawCompleted ∧
        ((v.2 = false ∧ t'.waiting = false ∧ delta.stops = false ∧
          ∃ usage, v.1 = { st with usage }) ∨ v.2 = true ∧ Done t' v.1)) t := by
  refine (attemptDelta_follows delta hrun hwriting hcarries).bind_total ?_
  intro t' x hx
  have hgoing : ∀ r, x = .ok r → r ≠ .requiresAction → t'.waiting = false ∧ delta.stops = false := by
    intro r hr hne
    refine ⟨Bool.eq_false_iff.mpr fun h => ?_, Bool.eq_false_iff.mpr fun h => hne (hx.stops h r hr)⟩
    rcases hx.waiting h with h | h
    · rw [hwaiting] at h
      cases h
    · rw [hr] at h
      exact hne (Except.ok.inj h)
  rcases x with e | r
  · exact ⟨_, rfl, hx.onward, hx.emitted, rfl, .inr ⟨rfl, .inl ⟨_, rfl⟩⟩⟩
  · cases r with
    | none =>
      obtain ⟨hwaiting', hstops⟩ := hgoing _ rfl nofun
      exact ⟨_, rfl, hx.onward, hx.emitted, rfl, .inl ⟨rfl, hwaiting', hstops, st.usage, rfl⟩⟩
    | usage value =>
      obtain ⟨hwaiting', hstops⟩ := hgoing _ rfl nofun
      exact ⟨_, rfl, hx.onward, hx.emitted, rfl, .inl ⟨rfl, hwaiting', hstops, some value, rfl⟩⟩
    | requiresAction =>
      exact ⟨_, rfl, hx.onward, hx.emitted, rfl, .inr ⟨rfl, .inr ⟨rfl, (hx.action rfl).1⟩⟩⟩

/-- Writing the calls that came in pieces. -/
theorem flushTools_follows (hrun : t.runId = runId) (hwriting : t.writing = .assistant messageId)
    {buffers : List (String × ToolCallBuffer)} (hcarries : buffers ≠ [] → t.carries = true)
    (hwaiting : t.waiting = false) (outcome : ExecutionResult) :
    (flushTools sessionId runId messageId buffers outcome).Follows (turnAllows sessionId) turnNext
      (fun t' x => ∃ outcome', x = .ok outcome' ∧ t.Onward t' ∧ t'.waiting = false ∧
        (t'.emitted = true → t.emitted = true ∨ buffers ≠ []) ∧
        (outcome' = outcome ∨ ∃ e, outcome' = .failed e false)) t := by
  induction buffers generalizing t with
  | nil => exact ⟨outcome, rfl, .refl t, hwaiting, .inl, .inl rfl⟩
  | cons entry buffers ih =>
    obtain ⟨key, buffer⟩ := entry
    have hcarries' := hcarries (List.cons_ne_nil _ _)
    refine (attemptDelta_follows (.toolCall buffer.callId buffer.name buffer.arguments) hrun hwriting
      fun _ => hcarries').bind_total ?_
    intro t' x hx
    have hwaiting' : t'.waiting = false := by
      refine Bool.eq_false_iff.mpr fun h => ?_
      rcases hx.waiting h with h | h
      · rw [hwaiting] at h
        cases h
      · exact nomatch (hx.action h).2
    have hrest := ih (t := t') (hx.onward.runId.trans hrun) (hx.onward.writing.trans hwriting)
      (fun _ => hx.onward.carries.trans hcarries') hwaiting'
    have hdone : (flushTools sessionId runId messageId buffers outcome).Follows
        (turnAllows sessionId) turnNext (fun t'' x => ∃ outcome', x = .ok outcome' ∧ t.Onward t'' ∧
          t''.waiting = false ∧ (t''.emitted = true → t.emitted = true ∨ (key, buffer) :: buffers ≠ []) ∧
          (outcome' = outcome ∨ ∃ e, outcome' = .failed e false)) t' := by
      refine hrest.mono ?_
      rintro t'' _ ⟨outcome', rfl, honward, hw, -, houtcome⟩
      exact ⟨outcome', rfl, hx.onward.trans honward, hw, fun _ => .inr (List.cons_ne_nil _ _), houtcome⟩
    rcases x with e | r
    · exact ⟨_, rfl, hx.onward, hwaiting', fun _ => .inr (List.cons_ne_nil _ _), .inr ⟨_, rfl⟩⟩
    · cases r with
      | none => exact hdone
      | usage value => exact hdone
      | requiresAction => exact nomatch (hx.action rfl).2

/-- What `readDelta` and its kin leave. -/
def ReadDelta (t : Turn) (st : StreamState) (deltas : List ProviderDelta) (t' : Turn)
    (x : Except StoreError (StreamState × Bool)) : Prop :=
  ∃ v, x = .ok v ∧ ReadOn t st (cleanFrame (.ok deltas)) deltas t' v.1 ∧
    (v.2 = false → Reading t' v.1) ∧ (v.2 = true → Done t' v.1)

/-- A piece that is recorded at once. -/
theorem recordDelta_reads (delta : ProviderDelta) (hrun : t.runId = runId)
    (hwriting : t.writing = .assistant messageId) (hreading : Reading t st)
    (hcarries : delta.isCall = true → t.carries = true ∧ st.sawDelta = true) :
    (recordDelta sessionId runId messageId st delta).Follows (turnAllows sessionId) turnNext
      (ReadDelta t st [delta]) t := by
  refine (recordDelta_follows hrun hwriting (fun h => (hcarries h).1) hreading.waiting).mono ?_
  rintro t' _ ⟨⟨st', stop⟩, rfl, honward, hemitted, hsaw, hgoing | ⟨rfl, hdone⟩⟩
  · obtain ⟨rfl, hwaiting, hstops, usage, rfl⟩ := hgoing
    have hstate : Reading t' { st with usage } := by
      refine ⟨fun h => ?_, fun h => ?_, hwaiting, hreading.outcome⟩
      · rw [honward.carries]
        exact hreading.buffers h
      · exact (hemitted h).elim hreading.emitted fun h => (hcarries h).2
    refine ⟨_, rfl, ⟨honward, .inl hstate, fun h => ⟨h, ?_⟩, .inl⟩, fun _ => hstate, nofun⟩
    cases delta <;> first | rfl | cases hstops
  · exact ⟨_, rfl, ⟨honward, .inr hdone, fun h => absurd h hdone.not_completed,
      fun h => .inl (hsaw.symm.trans h)⟩, nofun, fun _ => hdone⟩

theorem readDelta_follows (hrun : t.runId = runId) (hwriting : t.writing = .assistant messageId)
    (hreading : Reading t st) {delta : ProviderDelta}
    (hcarries : delta.isCall = true → t.carries = true) :
    (readDelta sessionId runId messageId st delta).Follows (turnAllows sessionId) turnNext
      (ReadDelta t st [delta]) t := by
  cases delta with
  | toolCallDelta index callId name arguments =>
    have hstate : Reading t { st with
        sawDelta := true
        toolBuffers := addPiece (toolBufferKey st.toolBuffers index callId) callId name arguments
          st.toolBuffers } :=
      ⟨fun _ => ⟨hcarries rfl, rfl⟩, fun _ => rfl, hreading.waiting, hreading.outcome⟩
    exact ⟨_, rfl, ⟨.refl t, .inl hstate, fun h => ⟨h, rfl⟩, .inl⟩, fun _ => hstate, nofun⟩
  | text text =>
    have hstate : Reading t { st with sawDelta := true, textBuffer := st.textBuffer ++ text } :=
      ⟨fun h => ⟨(hreading.buffers h).1, rfl⟩, fun _ => rfl, hreading.waiting, hreading.outcome⟩
    refine (textDue_asks _).follows fun due => ?_
    refine iteInduction (fun _ => ?_) fun _ => ?_
    · refine (flushText_follows hrun hwriting hstate).mono ?_
      rintro t' _ ⟨v, rfl, hread, hgoing, -, hdone⟩
      exact ⟨v, rfl, ⟨hread.onward, hread.state, hread.completed,
        fun h => (hread.sawCompleted h).imp_right nofun⟩, hgoing, hdone⟩
    · exact ⟨_, rfl, ⟨.refl t, .inl hstate, fun h => ⟨h, rfl⟩, .inl⟩, fun _ => hstate, nofun⟩
  | completed =>
    -- The calls that came in pieces are written before the completion is noted.
    refine (flushTools_follows hrun hwriting (fun h => (hreading.buffers h).1) hreading.waiting
      st.outcome).bind_total ?_
    rintro t' outcome ⟨honward, hwaiting, hemitted, houtcome⟩
    have hstate : Reading t' { st with sawCompleted := true, toolBuffers := [], outcome } := by
      refine ⟨fun h => absurd rfl h, fun h => ?_, hwaiting, ?_⟩
      · exact (hemitted h).elim hreading.emitted fun h => (hreading.buffers h).2
      · rcases houtcome with rfl | hfailed
        · exact hreading.outcome
        · exact .inr hfailed
    refine (recordDelta_reads .completed (honward.runId.trans hrun) (honward.writing.trans hwriting)
      hstate nofun).mono ?_
    rintro t'' _ ⟨v, rfl, hread, hgoing⟩
    refine ⟨v, rfl, ⟨honward.trans hread.onward, hread.state, fun h => ⟨?_, rfl⟩, fun _ => ?_⟩, hgoing⟩
    · have hcompleted : outcome = .completed := (hread.completed h).1
      rcases houtcome with rfl | ⟨e, rfl⟩
      · exact hcompleted
      · cases hcompleted
    · exact .inr (List.mem_singleton.mpr rfl)
  | toolCall callId name arguments =>
    have hstate : Reading t { st with sawDelta := true } :=
      ⟨fun h => ⟨(hreading.buffers h).1, rfl⟩, fun _ => rfl, hreading.waiting, hreading.outcome⟩
    refine (recordDelta_reads (.toolCall callId name arguments) hrun hwriting hstate
      fun _ => ⟨hcarries rfl, rfl⟩).mono ?_
    rintro t' _ ⟨v, rfl, hread, hgoing⟩
    exact ⟨v, rfl, ⟨hread.onward, hread.state, hread.completed, hread.sawCompleted⟩, hgoing⟩
  | usage value => exact recordDelta_reads _ hrun hwriting hreading nofun
  | requiresAction => exact recordDelta_reads _ hrun hwriting hreading nofun

theorem cleanFrame_cons (delta : ProviderDelta) (deltas : List ProviderDelta) :
    cleanFrame (.ok (delta :: deltas)) = (cleanFrame (.ok [delta]) && cleanFrame (.ok deltas)) := by
  simp [cleanFrame]

theorem readDeltas_follows (hrun : t.runId = runId) (hwriting : t.writing = .assistant messageId)
    {deltas : List ProviderDelta}
    (hcarries : ∀ delta ∈ deltas, delta.isCall = true → t.carries = true) (hreading : Reading t st) :
    (readDeltas sessionId runId messageId deltas st).Follows (turnAllows sessionId) turnNext
      (fun t' x => ∃ st', x = .ok st' ∧
        ReadOn t st (cleanFrame (.ok deltas)) deltas t' st') t := by
  induction deltas generalizing t st with
  | nil => exact ⟨st, rfl, .refl hreading⟩
  | cons delta deltas ih =>
    refine (readDelta_follows hrun hwriting hreading
      (hcarries delta List.mem_cons_self)).bind_total ?_
    rintro t' ⟨st', stop⟩ ⟨hread, hgoing, hdone⟩
    refine iteInduction (fun hstop => ?_) fun hstop => ?_
    · exact ⟨st', rfl, hread.stopped (hdone hstop).not_completed _ deltas⟩
    · have hstate := hgoing (Bool.eq_false_iff.mpr hstop)
      refine (ih (hread.onward.runId.trans hrun) (hread.onward.writing.trans hwriting) ?_
        hstate).mono ?_
      · intro d hd hcall
        rw [hread.onward.carries]
        exact hcarries d (List.mem_cons_of_mem _ hd) hcall
      · rintro t'' _ ⟨st'', rfl, hrest⟩
        rw [cleanFrame_cons]
        exact ⟨st'', rfl, hread.trans hrest⟩

theorem not_over (hover : ¬ st.over = true) : st.over = false := Bool.eq_false_iff.mpr hover

theorem readFrames_follows (hrun : t.runId = runId) (hwriting : t.writing = .assistant messageId)
    {frames : List (Except String (List ProviderDelta))}
    (hcarries : ∀ delta ∈ frames.flatMap frameDeltas, delta.isCall = true → t.carries = true)
    (hreading : Reading t st) :
    (readFrames sessionId runId messageId frames st).Follows (turnAllows sessionId) turnNext
      (fun t' x => ∃ st', x = .ok st' ∧
        ReadOn t st (frames.all cleanFrame) (frames.flatMap frameDeltas) t' st') t := by
  induction frames generalizing t st with
  | nil => exact ⟨st, rfl, .refl hreading⟩
  | cons frame frames ih =>
    simp only [List.flatMap_cons, List.mem_append] at hcarries
    cases frame with
    | error e => exact ⟨_, rfl, .refl t, .inr (.inl ⟨e, rfl⟩), nofun, .inl⟩
    | ok deltas =>
      refine (readDeltas_follows hrun hwriting (fun d hd => hcarries d (.inl hd))
        hreading).bind_total ?_
      intro t' st' hread
      refine iteInduction (fun hover => ?_) fun hover => ?_
      · refine ⟨st', rfl, hread.stopped ?_ _ (frames.flatMap frameDeltas)⟩
        intro hcompleted
        rw [StreamState.over, hcompleted] at hover
        cases hover
      · refine (ih (hread.onward.runId.trans hrun) (hread.onward.writing.trans hwriting) ?_
          (hread.reading (not_over hover))).mono ?_
        · intro d hd hcall
          rw [hread.onward.carries]
          exact hcarries d (.inr hd) hcall
        · rintro t'' _ ⟨st'', rfl, hrest⟩
          exact ⟨st'', rfl, hread.trans hrest⟩

/-- A stream that broke before anything came of it. -/
structure Retries (t t' : Turn) (st : StreamState) : Prop where
  onward : t.Onward t'
  failed : ∃ e, st.outcome = .failed e true
  emitted : t'.emitted = false
  waiting : t'.waiting = false

/-- What reading a stream leaves. -/
def ReadItems (t : Turn) (st : StreamState) (clean : Bool) (deltas : List ProviderDelta) (t' : Turn) :
    Except TurnExit StreamState → Prop
  | .ok st' => ReadOn t st clean deltas t' st' ∨ Retries t t' st'
  | .error x => t.Onward t' ∧ (x = .result .cancelled ∨ x = .result .interrupted)

theorem ReadItems.after {t' t'' : Turn} {st' : StreamState} {clean clean' : Bool}
    {deltas deltas' : List ProviderDelta} {x : Except TurnExit StreamState}
    (h : ReadOn t st clean deltas t' st') (h' : ReadItems t' st' clean' deltas' t'' x) :
    ReadItems t st (clean && clean') (deltas ++ deltas') t'' x := by
  cases x with
  | ok st'' =>
    rcases h' with h' | h'
    · exact .inl (h.trans h')
    · exact .inr { h' with onward := h.onward.trans h'.onward }
  | error x => exact ⟨h.onward.trans h'.1, h'.2⟩

theorem readItems_follows (hrun : t.runId = runId) (hwriting : t.writing = .assistant messageId)
    {items : List StreamItem}
    (hcarries : ∀ delta ∈ items.flatMap StreamItem.deltas,
      delta.isCall = true → t.carries = true)
    (hreading : Reading t st) :
    (readItems sessionId runId messageId items st).Follows (turnAllows sessionId) turnNext
      (ReadItems t st (items.all StreamItem.clean) (items.flatMap StreamItem.deltas)) t := by
  induction items generalizing t st with
  | nil => exact .inl (.refl hreading)
  | cons item items ih =>
    simp only [List.flatMap_cons, List.mem_append] at hcarries
    -- Once an item has been read the rest of the stream is read from the turn it left.
    have hrest : ∀ {t' st' clean deltas}, ReadOn t st clean deltas t' st' → Reading t' st' →
        (readItems sessionId runId messageId items st').Follows (turnAllows sessionId) turnNext
          (ReadItems t st (clean && items.all StreamItem.clean)
            (deltas ++ items.flatMap StreamItem.deltas)) t' := by
      intro t' st' clean deltas hread hstate
      refine (ih (hread.onward.runId.trans hrun) (hread.onward.writing.trans hwriting) ?_
        hstate).mono fun t'' x h => .after hread h
      intro d hd hcall
      rw [hread.onward.carries]
      exact hcarries d (.inr hd) hcall
    cases item with
    | cancelled => exact ⟨.refl t, .inl rfl⟩
    | shutdown => exact ⟨.refl t, .inr rfl⟩
    | broken e =>
      cases hsaw : st.sawDelta with
      | true =>
        refine .inl ⟨.refl t, .inr (.inl ⟨e, ?_⟩), ?_, .inl⟩
        · rw [hsaw]
          rfl
        · nofun
      | false =>
        refine .inr ⟨.refl t, ⟨e, ?_⟩, ?_, hreading.waiting⟩
        · rw [hsaw]
          rfl
        · exact Bool.eq_false_iff.mpr fun h => by simp [hreading.emitted h] at hsaw
    | tick =>
      refine iteInduction (fun _ => hrest (.refl hreading) hreading) fun _ => ?_
      refine follows_orFail_total (flushText_follows hrun hwriting hreading) ?_
      rintro t' ⟨st', stop⟩ ⟨hread, hgoing, -, hdone⟩
      refine iteInduction (fun hstop => ?_) fun hstop => ?_
      · exact .inl (hread.stopped (hdone hstop).not_completed _ _)
      · exact hrest hread (hgoing (Bool.eq_false_iff.mpr hstop))
    | chunk frames =>
      refine follows_orFail_total (readFrames_follows hrun hwriting
        (fun d hd => hcarries d (.inl hd)) hreading) ?_
      intro t' st' hread
      refine iteInduction (fun hover => ?_) fun hover => ?_
      · refine .inl (hread.stopped ?_ _ _)
        intro hcompleted
        rw [StreamState.over, hcompleted] at hover
        cases hover
      · exact hrest hread (hread.reading (not_over hover))

/-- What a response that was read leaves. -/
structure ResponseRead (t : Turn) (clean : Bool) (t' : Turn) (st : StreamState) : Prop where
  onward : t.Onward t'
  completed : st.outcome = .completed → clean = true
  action : st.outcome = .requiresAction → t'.waiting = true
  retry : ∀ e, st.outcome = .failed e true → t'.emitted = false ∧ t'.waiting = false
  outcome : st.outcome = .completed ∨ (∃ e retryable, st.outcome = .failed e retryable) ∨
    st.outcome = .requiresAction

/-- The ways out of a turn that fail, cancel or interrupt the run; it panics only where no message
is open. -/
def TurnExit.Leaves (t : Turn) : TurnExit → Prop
  | .result (.failed _ _) | .result .cancelled | .result .interrupted => True
  | .result _ => False
  | .panicked => t.faulted = true ∨ t.writing.open? = none

/-- What reading a response leaves, also where it ends the run. -/
def ReadResponse (t : Turn) (clean : Bool) (t' : Turn) : Except TurnExit StreamState → Prop
  | .ok st => ResponseRead t clean t' st
  | .error x => t.Onward t' ∧ x.Leaves t'

theorem ResponseRead.of_done {clean : Bool} {t' : Turn} (honward : t.Onward t') (h : Done t' st) :
    ResponseRead t clean t' st where
  onward := honward
  completed hcompleted := absurd hcompleted h.not_completed
  action haction := by
    rcases h with ⟨e, h⟩ | ⟨-, h⟩
    · rw [h] at haction
      cases haction
    · exact h
  retry e hretry := by
    rcases h with ⟨e', h⟩ | ⟨h, -⟩ <;> rw [h] at hretry <;> cases hretry
  outcome := .inr (h.imp (fun ⟨e, h⟩ => ⟨e, false, h⟩) And.left)

theorem ResponseRead.of_completed {clean : Bool} {t' : Turn} (honward : t.Onward t')
    (h : st.outcome = .completed) (hclean : clean = true) : ResponseRead t clean t' st where
  onward := honward
  completed _ := hclean
  action haction := by
    rw [h] at haction
    cases haction
  retry e hretry := by
    rw [h] at hretry
    cases hretry
  outcome := .inl h

theorem ResponseRead.of_retries {clean : Bool} {t' : Turn} (h : Retries t t' st) :
    ResponseRead t clean t' st := by
  obtain ⟨e, hfailed⟩ := h.failed
  refine ⟨h.onward, ?_, ?_, fun _ _ => ⟨h.emitted, h.waiting⟩, .inr (.inl ⟨e, true, hfailed⟩)⟩
  · intro hcompleted
    rw [hfailed] at hcompleted
    cases hcompleted
  · intro haction
    rw [hfailed] at haction
    cases haction

theorem readStream_follows (hrun : t.runId = runId) (hwriting : t.writing = .assistant messageId)
    {items : List StreamItem}
    (hcarries : ∀ delta ∈ items.flatMap StreamItem.deltas,
      delta.isCall = true → t.carries = true)
    (hemitted : t.emitted = false) (hwaiting : t.waiting = false) :
    (readStream sessionId runId messageId items).Follows (turnAllows sessionId) turnNext
      (ReadResponse t (items.all StreamItem.clean &&
        (items.flatMap StreamItem.deltas).contains .completed)) t := by
  have hstart : Reading t {} :=
    ⟨fun h => absurd rfl h, fun h => absurd (hemitted.symm.trans h) Bool.false_ne_true, hwaiting,
      .inl rfl⟩
  refine (readItems_follows hrun hwriting hcarries hstart).bind ?_ ?_
  · intro t' st hread
    refine iteInduction (fun hended => ?_) fun hended => ?_
    · have honward : t.Onward t' := hread.elim (·.onward) (·.onward)
      exact .of_done honward (.inl ⟨_, rfl⟩)
    · rcases hread with hread | hretry
      · rcases hread.state with hstate | hdone
        · rcases hstate.outcome with hcompleted | hfailed
          · refine .of_completed hread.onward hcompleted ?_
            rw [(hread.completed hcompleted).2, Bool.true_and, List.contains_iff_mem]
            refine (hread.sawCompleted ?_).resolve_left nofun
            exact Bool.eq_true_of_not_eq_false fun h => hended ⟨hcompleted, h⟩
          · exact .of_done hread.onward (.inl hfailed)
        · exact .of_done hread.onward hdone
      · exact .of_retries hretry
  · rintro t' x ⟨honward, rfl | rfl⟩ <;> exact ⟨honward, trivial⟩

/-- What reading a response as a whole leaves. -/
def WholeRead (t : Turn) (deltas : List ProviderDelta) (t' : Turn)
    (x : Except StoreError StreamState) : Prop :=
  ∃ st, x = .ok st ∧ t.Onward t' ∧
    (st.outcome = .completed ∧ (TextReply.text (.ok deltas)).clean = true ∨ Done t' st)

theorem readWhole_follows (hrun : t.runId = runId) (hwriting : t.writing = .assistant messageId)
    {deltas : List ProviderDelta}
    (hcarries : ∀ delta ∈ deltas, delta.isCall = true → t.carries = true)
    (hwaiting : t.waiting = false) (houtcome : st.outcome = .completed) :
    (readWhole sessionId runId messageId deltas st).Follows (turnAllows sessionId) turnNext
      (WholeRead t deltas) t := by
  induction deltas generalizing t st with
  | nil => exact ⟨st, rfl, .refl t, .inl ⟨houtcome, rfl⟩⟩
  | cons delta deltas ih =>
    have hrest : ∀ {t' st'}, t.Onward t' → t'.waiting = false → st'.outcome = .completed →
        delta.stops = false → (readWhole sessionId runId messageId deltas st').Follows
          (turnAllows sessionId) turnNext (WholeRead t (delta :: deltas)) t' := by
      intro t' st' honward hwaiting' houtcome' hstops
      refine (ih (honward.runId.trans hrun) (honward.writing.trans hwriting) ?_ hwaiting'
        houtcome').mono ?_
      · intro d hd hcall
        rw [honward.carries]
        exact hcarries d (List.mem_cons_of_mem _ hd) hcall
      · rintro t'' _ ⟨st'', rfl, honward', hread⟩
        refine ⟨st'', rfl, honward.trans honward', hread.imp_left (And.imp_right fun hclean => ?_)⟩
        simpa [TextReply.clean, hstops] using hclean
    -- Text is collected; every other piece is recorded where it stands.
    have hrecord : (recordDelta sessionId runId messageId st delta >>= fun v =>
        if v.2 then return v.1 else readWhole sessionId runId messageId deltas v.1).Follows
          (turnAllows sessionId) turnNext (WholeRead t (delta :: deltas)) t := by
      refine (recordDelta_follows hrun hwriting (hcarries delta List.mem_cons_self)
        hwaiting).bind_total ?_
      rintro t' ⟨st', stop⟩ ⟨honward, -, -, hgoing | ⟨rfl, hdone⟩⟩
      · obtain ⟨rfl, hwaiting', hstops, usage, rfl⟩ := hgoing
        exact hrest honward hwaiting' houtcome hstops
      · exact ⟨st', rfl, honward, .inr hdone⟩
    cases delta with
    | text text => exact hrest (.refl t) hwaiting houtcome rfl
    | toolCall callId name arguments => exact hrecord
    | toolCallDelta index callId name arguments => exact hrecord
    | usage value => exact hrecord
    | completed => exact hrecord
    | requiresAction => exact hrecord

theorem readText_follows (hrun : t.runId = runId) (hwriting : t.writing = .assistant messageId)
    {text : TextReply} (hcarries : ∀ delta ∈ text.deltas, delta.isCall = true → t.carries = true)
    (hemitted : t.emitted = false) (hwaiting : t.waiting = false) :
    (readText sessionId runId messageId text).Follows (turnAllows sessionId) turnNext
      (ReadResponse t text.clean) t := by
  cases text with
  | cancelled => exact ⟨.refl t, trivial⟩
  | shutdown => exact ⟨.refl t, trivial⟩
  | broken e => exact ResponseRead.of_retries ⟨.refl t, ⟨e, rfl⟩, hemitted, hwaiting⟩
  | text deltas =>
    cases deltas with
    | error e => exact ResponseRead.of_done (.refl t) (.inl ⟨e, rfl⟩)
    | ok deltas =>
      refine follows_orFail (readWhole_follows hrun hwriting hcarries hwaiting rfl) ?_ ?_
      · rintro t' st ⟨_, hst, honward, ⟨houtcome, hclean⟩ | hdone⟩
        · cases hst
          exact ResponseRead.of_completed honward houtcome hclean
        · cases hst
          exact ResponseRead.of_done honward hdone
      · rintro t' e ⟨_, hst, -⟩
        cases hst

/-- What writing the rest leaves. -/
def Flushed (t t' : Turn) : Except TurnExit Unit → Prop
  | .ok _ => t.Onward t' ∧ t'.emitted = t.emitted ∧ t'.waiting = t.waiting
  | .error x => t.Onward t' ∧ x.Leaves t'

theorem flushRest_follows (hwriting : t.writing = .assistant messageId) :
    (flushRest sessionId runId messageId st).Follows (turnAllows sessionId) turnNext
      (Flushed t) t := by
  unfold flushRest
  refine iteInduction (fun _ => ⟨.refl t, rfl, rfl⟩) fun _ => ?_
  have hrecord : t.record (.messageContentAppended messageId (.text st.textBuffer)) = some t := by
    simp [Turn.record, hwriting]
  have hpersist : (persistDelta sessionId runId messageId (.text st.textBuffer)).Follows
      (turnAllows sessionId) turnNext (fun t' x =>
        Flushed t t' ((x.map fun _ => ()).mapError (·.exit st.sawDelta))) t := by
    refine follows_append hrecord (fun _ => ⟨.refl t, rfl, rfl⟩) fun e faulted hsure _ => ?_
    refine ⟨⟨rfl, rfl, rfl, rfl, rfl, rfl, rfl, fun h => h⟩, ?_⟩
    cases e <;> first | trivial | exact .inl (hsure rfl)
  refine Program.Follows.bind (Program.Follows.recover hpersist
    (R := fun t' x => Flushed t t' (x.map fun _ => ()))
    (fun t' v h => h) fun t' e h => h) (fun t' v h => h) fun t' e h => h

theorem readResponse_follows (hrun : t.runId = runId)
    (hwriting : t.writing = .assistant messageId) {body : Json} {response : ProviderResponse}
    (hcarries : t.carries = response.carriesCall body) (hemitted : t.emitted = false)
    (hwaiting : t.waiting = false) :
    (readResponse sessionId runId messageId body response).Follows (turnAllows sessionId) turnNext
      (ReadResponse t (response.clean body)) t := by
  unfold readResponse checkStatus
  cases hsuccess : response.success with
  | false => exact ⟨.refl t, trivial⟩
  | true =>
    have hbody : (readBody sessionId runId messageId body response).Follows (turnAllows sessionId)
        turnNext (ReadResponse t (response.clean body)) t := by
      unfold readBody ProviderResponse.clean
      rw [hsuccess, Bool.true_and]
      unfold ProviderResponse.carriesCall at hcarries
      cases hmode : bodyStreamMode body with
      | true =>
        rw [hmode] at hcarries
        refine readStream_follows hrun hwriting (fun d hd hcall => ?_) hemitted hwaiting
        exact hcarries.trans (List.any_eq_true.mpr ⟨d, hd, hcall⟩)
      | false =>
        rw [hmode] at hcarries
        refine readText_follows hrun hwriting (fun d hd hcall => ?_) hemitted hwaiting
        exact hcarries.trans (List.any_eq_true.mpr ⟨d, hd, hcall⟩)
    refine hbody.bind ?_ fun t' x h => h
    intro t' st hread
    refine (flushRest_follows (hread.onward.writing.trans hwriting)).bind ?_ ?_
    · rintro t'' _ ⟨honward, hemitted', hwaiting'⟩
      refine ⟨hread.onward.trans honward, hread.completed, ?_, ?_, hread.outcome⟩
      · intro haction
        exact hwaiting'.trans (hread.action haction)
      · intro e hretry
        exact ⟨hemitted'.trans (hread.retry e hretry).1, hwaiting'.trans (hread.retry e hretry).2⟩
    · rintro t'' x ⟨honward, hleaves⟩
      exact ⟨hread.onward.trans honward, hleaves⟩

end Read

end Piqo
