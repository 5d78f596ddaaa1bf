import PiqoServer.Server.Spawning

/-!
# What a delegation leaves

A delegation that fails after its session was created leaves the session, and what was written after
it. A link is refused when there is one with its call id, whichever run that call was of: call ids
are those of a run, but the links of all sessions share one table.

## Main definitions

* `Refused`, `Unhindered`: where a delegation fails before its session is there, and where nothing
  stands in its way after that
* `World.LeavesNothing`: no session, link or agent is there that was not there before

## Main results

* `spawn_cases`: the outcomes of a delegation
* `spawn_leavesNothing_iff`: when a delegation that fails leaves nothing behind
* `spawn_independent_iff`: when a delegation does not stand in another one's way
-/

namespace Piqo

theorem eq_or_contains_of_insert {V : Type} {m : SortedMap String V} {k a : String} {v : V}
    (h : (m.insert k v).contains a = true) : a = k ∨ m.contains a = true := by
  by_cases hak : a = k
  · exact .inl hak
  · rw [SortedMap.contains, SortedMap.get?_insert_of_ne _ _ hak] at h
    exact .inr h

section Outcomes

variable {env : Surroundings} {fails : SpawnStep → Bool} {w w' : World}
  {parentSessionId parentRunId parentCallId : String} {arguments : Json}

/-- The delegation fails before its session is there: it is not a valid one, or a step fails. -/
def Refused (env : Surroundings) (fails : SpawnStep → Bool) (w : World)
    (parentSessionId parentRunId : String) (arguments : Json) : Prop :=
  (∀ plan, Checked env w parentSessionId parentRunId arguments plan →
    w.store.db.ensureProject plan.projectId ≠ .ok ()) ∨
  fails .readLinks = true ∨ fails .readParent = true ∨ fails .readSession = true ∨
    fails .createSession = true

/-- Nothing stands in the way of a delegation whose session is there: no delegation had its call id,
and no step fails. -/
def Unhindered (fails : SpawnStep → Bool) (w : World) (parentCallId : String) : Prop :=
  ¬ w.CallUsed parentCallId ∧ fails .readCreated = false ∧ fails .createLink = false ∧
    fails .recordParent = false ∧ fails .recordChild = false ∧ fails .readChild = false ∧
    fails .queueRun = false

/-- What a delegation leaves that succeeds. -/
structure World.Spawns (env : Surroundings) (w w' : World) (parentCallId : String) : Prop where
  clock : w.clock ≤ w'.clock
  sound : w'.Sound
  projects : w'.store.db.projects = w.store.db.projects
  drawn : ∃ m n, w.clock ≤ m ∧ m < w'.clock ∧ w.clock ≤ n ∧ n < w'.clock ∧
    (∀ id, w'.store.db.sessions.contains id = true ↔
      w.store.db.sessions.contains id = true ∨ id = env.answer m .newUuid) ∧
    (∃ link, w'.store.db.agentLinks = w.store.db.agentLinks ++ [link] ∧
      link.parentCallId = parentCallId ∧ link.childSessionId = env.answer m .newUuid ∧
      link.instanceId = env.answer n .newUuid) ∧
    ∀ id q, w'.view id = some q → ∀ agentId, q.agents.contains agentId = true →
      agentId = env.answer n .newUuid ∨ ∃ p, w.view id = some p ∧ p.agents.contains agentId = true
  session : ∀ id, w.store.db.sessions.contains id = true →
    (w'.store.db.sessions.get? id).map (·.summary.projectId) =
      (w.store.db.sessions.get? id).map (·.summary.projectId)
  view : ∀ id p, w.view id = some p → ∃ q, w'.view id = some q ∧ q.messages = p.messages ∧
    q.runs = p.runs

/-- A delegation that is refused has no plan whose session could be created. -/
theorem not_refused_iff (hreadLinks : fails .readLinks = false)
    (hreadParent : fails .readParent = false) (hreadSession : fails .readSession = false)
    {plan : Plan} (hchecked : Checked env w parentSessionId parentRunId arguments plan) :
    ¬ Refused env fails w parentSessionId parentRunId arguments ↔
      fails .createSession = false ∧ w.store.db.ensureProject plan.projectId = .ok () := by
  rw [Refused, hreadLinks, hreadParent, hreadSession, not_or]
  simp only [Bool.false_eq_true, false_or, Bool.not_eq_true, not_forall, not_not]
  constructor
  · rintro ⟨⟨plan', hchecked', hproject⟩, hcreate⟩
    -- the project is that of the parent's session
    obtain ⟨session, hsession, hplan⟩ := hchecked.session
    obtain ⟨session', hsession', hplan'⟩ := hchecked'.session
    rw [hsession] at hsession'
    cases hsession'
    rw [hplan, ← hplan']
    exact ⟨hcreate, hproject⟩
  · rintro ⟨hcreate, hproject⟩
    exact ⟨⟨plan, hchecked, hproject⟩, hcreate⟩

/-- What the three steps of a delegation leave together. -/
theorem World.Spawns.of_steps {w₁ w₂ w₃ w₄ : World} {link : AgentLinkRecord} {m n : Nat}
    (hw : w.Sound) (hreads : w.Reads w₁) (hadds : w₁.Adds w₂ (env.answer m .newUuid))
    (hlinks : w₂.Links w₃ link)
    (hrecords : w₃.Records w₄ parentSessionId (env.answer m .newUuid) (env.answer n .newUuid))
    (hne : env.answer m .newUuid ≠ parentSessionId) (hcall : link.parentCallId = parentCallId)
    (hchild : link.childSessionId = env.answer m .newUuid)
    (hinstance : link.instanceId = env.answer n .newUuid)
    (hm : w.clock ≤ m) (hm' : m < w₄.clock) (hn : w.clock ≤ n) (hn' : n < w₄.clock) :
    w.Spawns env w₄ parentCallId := by
  have hw₁ := hreads.sound hw
  have hsessions : w₃.store.db.sessions = w₂.store.db.sessions := by rw [hlinks.db]
  have hview : ∀ id, id ≠ env.answer m .newUuid → w₃.view id = w.view id := fun id hid =>
    (hlinks.view id).trans ((hadds.view hw₁ id hid).trans (hreads.view id))
  have hnew : w.store.db.sessions.contains (env.answer m .newUuid) = false := hreads.db ▸ hadds.new
  obtain ⟨p, q, hp, hq, hmessages, hruns, hagents⟩ := hrecords.parent
  rw [hview _ hne.symm] at hp
  refine ⟨hm.trans hm'.le, hrecords.sound, ?_, ⟨m, n, hm, hm', hn, hn', fun id => ?_,
    ⟨link, ?_, hcall, hchild, hinstance⟩, ?_⟩, ?_, ?_⟩
  · rw [hrecords.tables, hlinks.db, ← hreads.db]
    exact hadds.projects
  · rw [hrecords.present, hsessions, hadds.present, hreads.db]
  · rw [hrecords.tables, hlinks.db, ← hreads.db, ← hadds.links]
  · -- each of the two sessions has one agent more
    intro id q' hq' agentId hcontains
    by_cases hid : id = parentSessionId
    · rw [hid, hq] at hq'
      cases hq'
      rw [hagents] at hcontains
      exact (eq_or_contains_of_insert hcontains).imp_right fun h => ⟨p, hid ▸ hp, h⟩
    · by_cases hid' : id = env.answer m .newUuid
      · obtain ⟨q'', hq'', hagents''⟩ := hrecords.child
        rw [hid', hq''] at hq'
        cases hq'
        rw [hagents''] at hcontains
        refine (eq_or_contains_of_insert hcontains).imp_right fun h => ?_
        cases h
      · rw [hrecords.others id hid hid', hview id hid'] at hq'
        exact .inr ⟨q', hq', hcontains⟩
  · intro id hid
    have hid' : id ≠ env.answer m .newUuid := by
      rintro rfl
      rw [hnew] at hid
      cases hid
    rw [hrecords.projects, hsessions, hadds.row id hid', hreads.db]
  · intro id p' hp'
    have hid' : id ≠ env.answer m .newUuid := by
      rintro rfl
      obtain ⟨s, hs, -⟩ := Store.Sound.coherent_view hw hp'
      rw [SortedMap.contains, hs] at hnew
      cases hnew
    by_cases hid : id = parentSessionId
    · rw [hid, hp] at hp'
      cases hp'
      exact ⟨q, hid ▸ hq, hmessages, hruns⟩
    · exact ⟨p', (hrecords.others id hid hid').trans ((hview id hid').trans hp'), rfl, rfl⟩

/-- **The outcomes of a delegation.** It is refused, and the tables are as they were; or its session
stays while it fails; or it succeeds. -/
theorem spawn_cases (hw : w.Sound) (hfresh : env.Fresh w) (fails : SpawnStep → Bool)
    (parentSessionId parentRunId parentCallId parentAgentId : String) (arguments : Json) :
    let r := (spawnDelegatedChild parentSessionId parentRunId parentCallId parentAgentId
      arguments).run (World.handleFailing env parentSessionId fails) w
    (Refused env fails w parentSessionId parentRunId arguments ∧
      (∃ e, r.1 = .error e) ∧ r.2.store.db = w.store.db) ∨
    (¬ Refused env fails w parentSessionId parentRunId arguments ∧
      ¬ Unhindered fails w parentCallId ∧ (∃ e, r.1 = .error e) ∧
      ∃ id, w.store.db.sessions.contains id = false ∧ r.2.store.db.sessions.contains id = true) ∨
    (¬ Refused env fails w parentSessionId parentRunId arguments ∧
      Unhindered fails w parentCallId ∧ r.1 = .ok () ∧ w.Spawns env r.2 parentCallId) := by
  intro r
  have hr : r = (checkDelegation parentSessionId parentRunId arguments >>= fun plan =>
      createChild plan >>= fun session =>
        linkChild parentSessionId parentRunId parentCallId plan session >>=
          startDelegatedChild parentAgentId).run
        (World.handleFailing env parentSessionId fails) w := by
    simp only [r, spawnDelegatedChild, admitDelegatedChild_eq, Program.bind_assoc]
  have htables := checkDelegation_tables env fails w parentSessionId parentRunId arguments
  rcases hchecks : (checkDelegation parentSessionId parentRunId arguments).run
      (World.handleFailing env parentSessionId fails) w with ⟨e | plan, w₁⟩
  · -- the checks refuse it
    rw [hchecks] at htables
    rw [Program.run_bind_error _ hchecks] at hr
    rw [hr]
    refine .inl ⟨?_, ⟨e, rfl⟩, htables⟩
    by_contra hrefused
    obtain ⟨hvalid, hnone⟩ := not_or.mp hrefused
    push Not at hvalid hnone
    obtain ⟨plan, hchecked, -⟩ := hvalid
    have hok : (checkDelegation parentSessionId parentRunId arguments).run
        (World.handleFailing env parentSessionId fails) w = _ :=
      (checkDelegation_eq_ok_iff hw).mpr ⟨⟨Bool.eq_false_iff.mpr hnone.1,
        Bool.eq_false_iff.mpr hnone.2.1, Bool.eq_false_iff.mpr hnone.2.2.1⟩, hchecked, rfl⟩
    rw [hchecks] at hok
    cases hok
  obtain ⟨⟨hreadLinks, hreadParent, hreadSession⟩, hchecked, hw₁⟩ :=
    (checkDelegation_eq_ok_iff hw).mp hchecks
  obtain ⟨p, hparent⟩ := hchecked.view
  obtain ⟨parentSession, hparentSession, -⟩ := hchecked.session
  have hreads : w.Reads w₁ := hw₁ ▸ World.reads_checked hw hparent
  have hclock₁ : w₁.clock = w.clock + 5 := hw₁ ▸ World.clock_checked
  have hfresh₁ : env.Fresh w₁ := hfresh.reads hreads (by omega)
  have hrefused := not_refused_iff hreadLinks hreadParent hreadSession hchecked
  have hnew : w₁.store.db.sessions.contains (childId env w₁) = false :=
    hfresh₁.session _ le_rfl
  rw [Program.run_bind_ok _ hchecks] at hr
  rcases createChild_cases env parentSessionId fails plan w₁ with
      ⟨⟨hcreate, hproject, -⟩, hreread, session, w₂, hrun, hid, hadds, hclock₂⟩ |
      ⟨⟨hcreate, hproject, -⟩, hreread, e, w₂, hrun, hcontains⟩ | ⟨hnot, e, w₂, hrun, hdb⟩
  · rw [Program.run_bind_ok _ hrun] at hr
    have hvalid := hrefused.mpr ⟨hcreate, hreads.db ▸ hproject⟩
    have hparentThere : w₁.store.db.sessions.contains parentSessionId = true :=
      hreads.db.symm ▸ Database.contains_of_getSession hparentSession
    have hne : session.id ≠ parentSessionId := by
      intro heq
      rw [← heq, hid, hnew] at hparentThere
      cases hparentThere
    have hne' : childId env w₁ ≠ parentSessionId := hid ▸ hne
    have hfresh₂ : env.Fresh w₂ := hfresh₁.adds (hreads.sound hw) hadds le_rfl (by omega)
    have hstays : r.2.store.db.sessions.contains (childId env w₁) = true := by
      rw [hr]
      exact World.contains_run_failing _ ((hadds.present _).mpr (.inr rfl))
    have hnew' : w.store.db.sessions.contains (childId env w₁) = false := hreads.db ▸ hnew
    have hused : w₂.CallUsed parentCallId ↔ w.CallUsed parentCallId := by
      rw [World.CallUsed, World.CallUsed, hadds.links, hreads.db]
    -- the link
    have hids : ∀ link ∈ w₂.store.db.agentLinks, link.instanceId ≠ env.answer w₂.clock .newUuid ∧
        link.childSessionId ≠ session.id := by
      intro link hlink
      refine ⟨(hfresh₂.link _ le_rfl link hlink).1, ?_⟩
      rw [hadds.links] at hlink
      rw [hid]
      exact (hfresh₁.link _ le_rfl link hlink).2
    rcases linkChild_cases env fails parentRunId parentCallId plan hids
        ((hadds.present _).mpr (.inl hparentThere)) (hid ▸ (hadds.present _).mpr (.inr rfl))
      with ⟨⟨hlinked, hfree⟩, d, link, w₃, hrun₃, hlinks, hclock₃, hcall, hchildId, hinstance,
        hparentLink, hchildLink, hinstanceLink⟩ | ⟨hnot, e, w₃, hrun₃⟩
    · rw [Program.run_bind_ok _ hrun₃] at hr
      have hclock := World.clock_run_failing env parentSessionId fails
        (startDelegatedChild parentAgentId d) w₃
      have hview₃ : w₃.view parentSessionId = some p := (hlinks.view _).trans
        ((hadds.view (hreads.sound hw) _ hne'.symm).trans ((hreads.view _).trans hparent))
      have hagent := hfresh₂.agent _ le_rfl parentSessionId p ((hlinks.view _).symm.trans hview₃)
      obtain ⟨q, hblank, hchild⟩ := hadds.blank (hreads.sound hw)
      have hstart := startDelegatedChild_cases env fails
        (hlinks.sound (hadds.sound (hreads.sound hw))) parentAgentId (hparentLink.symm ▸ hview₃)
        (hinstanceLink.symm ▸ hagent) (hchildLink.symm ▸ hid ▸ (hlinks.view _).trans hchild) hblank
        (hparentLink ▸ hchildLink ▸ hne)
      rw [hparentLink, hchildLink, hinstanceLink, hid] at hstart
      rcases hstart with ⟨hworks, w₄, hrun₄, hrecords⟩ | ⟨hnot, e, w₄, hrun₄⟩
      · rw [hrun₄] at hr hclock
        refine .inr (.inr ⟨hvalid, ⟨mt hused.mpr hfree, hreread, hlinked, hworks⟩, ?_, ?_⟩)
        · rw [hr]
        · rw [hr]
          exact .of_steps hw hreads hadds hlinks hrecords hne' hcall (hchildId.trans hid)
            hinstance (by omega) (by omega) (by omega) (by omega)
      · rw [hrun₄] at hr
        refine .inr (.inl ⟨hvalid, fun h => hnot h.2.2.2, ?_, _, hnew', hstays⟩)
        rw [hr]
        exact ⟨e, rfl⟩
    · rw [Program.run_bind_error _ hrun₃] at hr
      refine .inr (.inl ⟨hvalid, fun h => hnot ⟨h.2.2.1, mt hused.mp h.1⟩, ?_, _, hnew', hstays⟩)
      rw [hr]
      exact ⟨e, rfl⟩
  · -- the session is there, but is not found
    rw [Program.run_bind_error _ hrun] at hr
    refine .inr (.inl ⟨hrefused.mpr ⟨hcreate, hreads.db ▸ hproject⟩, fun h => ?_, ?_, ?_⟩)
    · cases hreread.symm.trans h.2.1
    · rw [hr]
      exact ⟨e, rfl⟩
    · rw [hr, ← hreads.db]
      exact ⟨_, hnew, hcontains⟩
  · -- no session is created
    rw [Program.run_bind_error _ hrun] at hr
    rw [hr]
    refine .inl ⟨?_, ⟨e, rfl⟩, hdb.trans hreads.db⟩
    by_contra h
    obtain ⟨hcreate, hproject⟩ := hrefused.mp h
    exact hnot ⟨hcreate, hreads.db.symm ▸ hproject, hnew⟩

/-! ## Rejected delegations -/

/-- Whether an event tells the session of an agent. -/
def World.Tells (w : World) (sessionId : String) (eventId : Nat) : Prop :=
  ∃ s row agentId parentId link configRevision, w.store.db.sessions.get? sessionId = some s ∧
    s.events.get? eventId = some row ∧
    row.event = .agentSpawned agentId parentId link configRevision

/-- No session, no link and no agent is there that was not there before. -/
structure World.LeavesNothing (w w' : World) : Prop where
  sessions : ∀ id, w'.store.db.sessions.contains id = true → w.store.db.sessions.contains id = true
  links : ∀ link ∈ w'.store.db.agentLinks, link ∈ w.store.db.agentLinks
  agents : ∀ sessionId eventId, w'.Tells sessionId eventId → w.Tells sessionId eventId

theorem World.LeavesNothing.of_db (h : w'.store.db = w.store.db) : w.LeavesNothing w' where
  sessions id := h ▸ fun hid => hid
  links link := h ▸ fun hid => hid
  agents sessionId eventId htells := by
    rw [World.Tells, h] at htells
    exact htells

/-- **When a rejected delegation leaves nothing.** Whatever steps fail, a delegation that returns an
error leaves no session, link or agent exactly where it is refused before its session is created, or
nothing stands in its way after that. Everything in between stays. -/
theorem spawn_leavesNothing_iff (hw : w.Sound) (hfresh : env.Fresh w) (fails : SpawnStep → Bool)
    (parentSessionId parentRunId parentCallId parentAgentId : String) (arguments : Json) :
    let r := (spawnDelegatedChild parentSessionId parentRunId parentCallId parentAgentId
      arguments).run (World.handleFailing env parentSessionId fails) w
    ((∃ e, r.1 = .error e) → w.LeavesNothing r.2) ↔
      Refused env fails w parentSessionId parentRunId arguments ∨
        Unhindered fails w parentCallId := by
  intro r
  rcases spawn_cases hw hfresh fails parentSessionId parentRunId parentCallId parentAgentId
    arguments with ⟨hrefused, -, hdb⟩ | ⟨hvalid, hnot, herror, id, hnew, hthere⟩ |
      ⟨-, hworks, hok, -⟩
  · exact iff_of_true (fun _ => .of_db hdb) (.inl hrefused)
  · refine iff_of_false (fun h => ?_) (not_or.mpr ⟨hvalid, hnot⟩)
    rw [(h herror).sessions id hthere] at hnew
    cases hnew
  · refine iff_of_true ?_ (.inr hworks)
    rintro ⟨e, he⟩
    rw [hok] at he
    cases he

/-! ## Other delegations -/

/-- The configuration does not change. -/
structure Surroundings.Steady (env : Surroundings) : Prop where
  snapshot : ∀ m n, env.answer m .configSnapshot = env.answer n .configSnapshot
  resolved : ∀ m n name, env.answer m (.resolveProvider name) = env.answer n (.resolveProvider name)

/-- After a delegation no id that is drawn is in use. -/
theorem World.Spawns.fresh (h : w.Spawns env w' parentCallId) (hfresh : env.Fresh w) :
    env.Fresh w' := by
  obtain ⟨m, n, hm, hm', hn, hn', hpresent, ⟨link, hlinks, -, hchild, hinstance⟩, hagents⟩ :=
    h.drawn
  have hclock := h.clock
  have hne : ∀ k, w.clock ≤ k → k < w'.clock → ∀ k', w'.clock ≤ k' →
      env.answer k .newUuid ≠ env.answer k' .newUuid := by
    intro k hk hk' k' hlater heq
    have hsame := hfresh.distinct k k' hk (hclock.trans hlater) heq
    omega
  refine ⟨fun a b ha hb => hfresh.distinct a b (hclock.trans ha) (hclock.trans hb), fun k hk => ?_,
    fun k hk other hother => ?_, fun k hk sessionId q hq => ?_⟩
  · rw [Bool.eq_false_iff, ne_eq, hpresent, not_or, Bool.not_eq_true]
    exact ⟨hfresh.session k (hclock.trans hk), (hne m hm hm' k hk).symm⟩
  · rw [hlinks, List.mem_append, List.mem_singleton] at hother
    rcases hother with hother | rfl
    · exact hfresh.link k (hclock.trans hk) other hother
    · rw [hchild, hinstance]
      exact ⟨hne n hn hn' k hk, hne m hm hm' k hk⟩
  · rw [Bool.eq_false_iff]
    intro hcontains
    rcases hagents sessionId q hq _ hcontains with heq | ⟨p, hp, hcontains⟩
    · exact hne n hn hn' k hk heq.symm
    · rw [hfresh.agent k (hclock.trans hk) sessionId p hp] at hcontains
      cases hcontains

/-- The checks find after a delegation what they found before it. -/
theorem Checked.spawned (hsteady : env.Steady) (hfresh : env.Fresh w)
    (hunique : (w.store.db.agentLinks.map (·.childSessionId)).Nodup) {otherCallId : String}
    (hspawns : w.Spawns env w' otherCallId) {plan : Plan}
    (h : Checked env w parentSessionId parentRunId arguments plan) :
    Checked env w' parentSessionId parentRunId arguments plan := by
  obtain ⟨config, child, p, run, request, messages, hconfig, hchild, hprovider, hmodel, hlimits,
    hview, hrun, hrequest, hceiling, hmessages, hreferences, hcopied⟩ := h.config
  obtain ⟨q, hq, hsameMessages, hsameRuns⟩ := hspawns.view _ p hview
  obtain ⟨provider, hresolved⟩ := h.resolved
  obtain ⟨links, hlinks, hdepth⟩ := h.depth
  obtain ⟨session, hsession, hproject⟩ := h.session
  obtain ⟨m, n, hm, hm', -, -, hpresent, ⟨link, hadded, -, hlinkChild, -⟩, -⟩ := hspawns.drawn
  have hthere := Database.contains_of_getSession hsession
  -- the session is there as before, with its project
  obtain ⟨session', hsession', hproject'⟩ : ∃ session',
      w'.store.db.getSession parentSessionId = .ok session' ∧
        session'.projectId = session.projectId := by
    have hsame := hspawns.session _ hthere
    rw [Database.getSession] at hsession
    cases hget : w.store.db.sessions.get? parentSessionId with
    | none =>
      rw [hget] at hsession
      cases hsession
    | some s =>
      rw [hget] at hsession hsame
      cases hsession
      obtain ⟨s', hs', hproject'⟩ := Option.map_eq_some_iff.mp hsame
      exact ⟨s'.summary, by rw [Database.getSession, hs'], hproject'⟩
  have hlinks' : w'.store.db.agentLinksOf parentSessionId = .ok _ :=
    Except.map_eq_ok.mpr ⟨session', hsession', rfl⟩
  have hne : link.childSessionId ≠ parentSessionId := by
    intro heq
    rw [← heq, hlinkChild, hfresh.session m hm] at hthere
    cases hthere
  have hunique' : (w'.store.db.agentLinks.map (·.childSessionId)).Nodup := by
    rw [hadded, List.map_append, List.nodup_append]
    refine ⟨hunique, List.nodup_singleton _, ?_⟩
    simp only [List.mem_map, List.map_cons, List.map_nil, List.mem_singleton]
    rintro _ ⟨other, hother, rfl⟩ _ rfl
    rw [hlinkChild]
    exact (hfresh.link m hm other hother).2
  refine ⟨h.request, ⟨config, child, q, run, request, messages, ?_, hchild, hprovider, hmodel,
    hlimits, hq, hsameRuns ▸ hrun, hrequest, hceiling, hsameMessages ▸ hmessages, hreferences,
    hcopied⟩, ⟨provider, ?_⟩, ⟨_, hlinks', ?_⟩, h.below, h.few, h.small, ⟨session', hsession', ?_⟩⟩
  · exact (hsteady.snapshot _ _).trans hconfig
  · exact (hsteady.resolved _ _ _).trans hresolved
  · rw [(depth_of_agentLinksOf hunique' hlinks').2, hdepth,
      (depth_of_agentLinksOf hunique hlinks).2, hadded]
    exact (Forest.depthOf_append_of_ne hne).symm
  · rw [hproject', hproject]

theorem spawn_eq_ok_iff (hw : w.Sound) (hfresh : env.Fresh w)
    (parentSessionId parentRunId parentCallId parentAgentId : String) (arguments : Json) :
    ((spawnDelegatedChild parentSessionId parentRunId parentCallId parentAgentId arguments).run
      (World.handle env) w).1 = .ok () ↔
      (∃ plan, Checked env w parentSessionId parentRunId arguments plan ∧
        w.store.db.ensureProject plan.projectId = .ok ()) ∧ ¬ w.CallUsed parentCallId := by
  have hcases := spawn_cases hw hfresh (fun _ => false) parentSessionId parentRunId parentCallId
    parentAgentId arguments
  rw [World.handleFailing_none] at hcases
  simp only [Refused, Unhindered, Bool.false_eq_true, or_false, and_true, not_forall, not_not,
    exists_prop] at hcases
  rcases hcases with ⟨hrefused, ⟨e, he⟩, -⟩ | ⟨-, hused, ⟨e, he⟩, -⟩ | ⟨hvalid, hfree, hok, -⟩
  · rw [he]
    refine iff_of_false (fun h => ?_) ?_
    · cases h
    · rintro ⟨⟨plan, hchecked, hproject⟩, -⟩
      exact hrefused plan hchecked hproject
  · rw [he]
    refine iff_of_false (fun h => ?_) fun h => h.2 hused
    cases h
  · exact iff_of_true hok ⟨hvalid, hfree⟩

theorem spawn_spawns (hw : w.Sound) (hfresh : env.Fresh w) {parentAgentId : String}
    (h : ((spawnDelegatedChild parentSessionId parentRunId parentCallId parentAgentId arguments).run
      (World.handle env) w).1 = .ok ()) :
    w.Spawns env ((spawnDelegatedChild parentSessionId parentRunId parentCallId parentAgentId
      arguments).run (World.handle env) w).2 parentCallId := by
  have hcases := spawn_cases hw hfresh (fun _ => false) parentSessionId parentRunId parentCallId
    parentAgentId arguments
  rw [World.handleFailing_none] at hcases
  rcases hcases with ⟨-, ⟨e, he⟩, -⟩ | ⟨-, -, ⟨e, he⟩, -⟩ | ⟨-, -, -, hspawns⟩
  · rw [h] at he
    cases he
  · rw [h] at he
    cases he
  · exact hspawns

/-- **When delegations are independent.** Of two delegations that each succeed alone, of whichever
sessions and runs, one succeeds after the other exactly where their call ids differ. -/
theorem spawn_independent_iff (hw : w.Sound) (hfresh : env.Fresh w) (hsteady : env.Steady)
    (hunique : (w.store.db.agentLinks.map (·.childSessionId)).Nodup)
    {sessionId₁ runId₁ callId₁ agentId₁ sessionId₂ runId₂ callId₂ agentId₂ : String}
    {arguments₁ arguments₂ : Json}
    (h₁ : ((spawnDelegatedChild sessionId₁ runId₁ callId₁ agentId₁ arguments₁).run
      (World.handle env) w).1 = .ok ())
    (h₂ : ((spawnDelegatedChild sessionId₂ runId₂ callId₂ agentId₂ arguments₂).run
      (World.handle env) w).1 = .ok ()) :
    ((spawnDelegatedChild sessionId₂ runId₂ callId₂ agentId₂ arguments₂).run (World.handle env)
      ((spawnDelegatedChild sessionId₁ runId₁ callId₁ agentId₁ arguments₁).run
        (World.handle env) w).2).1 = .ok () ↔ callId₁ ≠ callId₂ := by
  have hspawns := spawn_spawns hw hfresh h₁
  obtain ⟨⟨plan, hchecked, hproject⟩, hfree⟩ := (spawn_eq_ok_iff hw hfresh _ _ _ _ _).mp h₂
  rw [spawn_eq_ok_iff hspawns.sound (hspawns.fresh hfresh)]
  have hproject' : (((spawnDelegatedChild sessionId₁ runId₁ callId₁ agentId₁ arguments₁).run
      (World.handle env) w).2).store.db.ensureProject plan.projectId = .ok () := by
    rw [← hproject]
    cases plan.projectId with
    | none => rfl
    | some projectId => rw [Database.ensureProject, Database.ensureProject, Database.getProject,
        Database.getProject, hspawns.projects]
  rw [and_iff_right ⟨plan, hchecked.spawned hsteady hfresh hunique hspawns, hproject'⟩]
  -- the calls that are in use are those before, and that of the first delegation
  obtain ⟨-, -, -, -, -, -, -, ⟨link, hlinks, hcall, -, -⟩, -⟩ := hspawns.drawn
  rw [World.CallUsed, hlinks, not_iff_not, ← hcall]
  constructor
  · rintro ⟨other, hother, heq⟩
    rcases List.mem_append.mp hother with hother | hother
    · exact absurd ⟨other, hother, heq⟩ hfree
    · rw [← List.mem_singleton.mp hother]
      exact heq
  · intro heq
    exact ⟨link, List.mem_append_right _ (List.mem_singleton_self _), heq⟩

end Outcomes

/-! ## Two delegations -/

/-- Ids that are counted are fresh where no session is named so, no link is there, and no agent. -/
theorem Surroundings.plain_fresh (config : PiqoConfig) {w : World}
    (hsessions : ∀ id ∈ w.store.db.sessions.keys, "id-".toList.isPrefixOf id.toList = false)
    (hlinks : w.store.db.agentLinks = [])
    (hagents : ∀ id p, w.view id = some p → p.agents = ∅) :
    (Surroundings.plain config).Fresh w where
  distinct m n _ _ heq := by
    have hsame : "id-" ++ toString m = "id-" ++ toString n := heq
    rw [String.append_right_inj] at hsame
    -- the digits are those of the number
    have hdigits : Nat.toDigits 10 m = Nat.toDigits 10 n := by
      rw [← Nat.toList_repr, ← Nat.toList_repr]
      exact congrArg String.toList hsame
    rw [← Nat.ofDigitChars_ten_toDigits (n := m), hdigits, Nat.ofDigitChars_ten_toDigits]
  session n _ := by
    rw [Bool.eq_false_iff]
    intro hcontains
    have hnot := hsessions _ ((SortedMap.mem_keys_iff _).mpr
      ((SortedMap.contains_iff _ _).mp hcontains))
    have hid : (Surroundings.plain config).answer n .newUuid = "id-" ++ toString n := rfl
    rw [hid, String.toList_append] at hnot
    cases hnot
  link n _ link hlink := by
    rw [hlinks] at hlink
    cases hlink
  agent n _ sessionId p hview := by
    rw [hagents sessionId p hview]
    rfl

/-- What the lead asks of the worker. -/
def workArguments : Json :=
  .object [("agent", .str "worker"), ("task", .str "t"), ("context_message_ids", .arr [])]

/-- A run of the lead that delegates. -/
def leadEvents (callId : String) : List SemanticEvent :=
  [.runQueued "r" none "p" "m" leadRequest.toJson,
    .sessionPhaseChanged .created .running (some "run_started"),
    .runStarted "r" "a" 1,
    .messageStarted "m1" "assistant" .assistant (.agent "assistant"),
    .toolCallEmitted "r" "m1" callId "assistant" "delegate" workArguments "" true,
    .runRequiresAction "r" [],
    .messageCompleted "m1",
    .sessionPhaseChanged .running .interrupted (some "requires_action"),
    .toolExecutionStarted "r" callId "x"]

/-- Two sessions whose runs delegate. -/
def twoLeads (callId₁ callId₂ : String) : World where
  store := (Store.ofDatabase (.empty ∅)).executeAll
    [.createSessionWithRetention "s" "t0" none none .forever,
      .createSessionWithRetention "t" "t0" none none .forever,
      .appendEvents "s" (fun _ => "t1") (leadEvents callId₁),
      .appendEvents "t" (fun _ => "t1") (leadEvents callId₂)]
  published := []
  workers := []
  clock := 0

/-- The delegation of one of them. -/
def leadSpawns (sessionId callId : String) : ServerProgram Unit :=
  spawnDelegatedChild sessionId "r" callId "assistant" workArguments

theorem twoLeads_sound (callId₁ callId₂ : String) : (twoLeads callId₁ callId₂).Sound :=
  (Store.Sound.empty _).executeAll _

theorem twoLeads_fresh :
    (Surroundings.plain (leadConfig none)).Fresh (twoLeads "c" "d") := by
  have hkeys : (twoLeads "c" "d").store.db.sessions.keys = ["s", "t"] := by decide +kernel
  have hviews : (["s", "t"].map fun id => ((twoLeads "c" "d").view id).map (·.agents)) =
      [some ∅, some ∅] := by decide +kernel
  refine Surroundings.plain_fresh _ ?_ (by decide +kernel) fun id p hview => ?_
  · rw [hkeys]
    decide
  · obtain ⟨s, hs, -⟩ := Store.Sound.coherent_view (twoLeads_sound "c" "d") hview
    have hid : id ∈ (twoLeads "c" "d").store.db.sessions.keys :=
      (SortedMap.mem_keys_iff _).mpr ⟨s, hs⟩
    rw [hkeys] at hid
    simp only [List.map_cons, List.map_nil, List.cons.injEq, and_true] at hviews
    simp only [List.mem_cons, List.not_mem_nil, or_false] at hid
    rcases hid with rfl | rfl
    · rw [hview] at hviews
      exact Option.some.inj hviews.1
    · rw [hview] at hviews
      exact Option.some.inj hviews.2

/-- Where the session of the parent cannot be read, a delegation fails and leaves nothing. -/
theorem spawn_leavesNothing_unread :
    let r := (leadSpawns "t" "d").run (World.handleFailing (.plain (leadConfig none)) "t"
      (· = .readSession)) (twoLeads "c" "d")
    r.1 = .error .database ∧ (twoLeads "c" "d").LeavesNothing r.2 := by
  intro r
  have herror : r.1 = .error .database := by decide +kernel
  exact ⟨herror, (spawn_leavesNothing_iff (twoLeads_sound "c" "d") twoLeads_fresh (· = .readSession)
    "t" "r" "d" "assistant" workArguments).mpr (.inl (.inr (.inr (.inr (.inl rfl))))) ⟨_, herror⟩⟩

/-- A delegation with the call id of another one is rejected, and its session stays. -/
theorem spawn_leaves_session :
    let w := ((leadSpawns "s" "c").run (World.handle (.plain (leadConfig none)))
      (twoLeads "c" "c")).2
    let r := (leadSpawns "t" "c").run (World.handle (.plain (leadConfig none))) w
    r.1 = .error (.agentLinkConflict "c") ∧ ¬ w.LeavesNothing r.2 := by
  intro w r
  refine ⟨by decide +kernel, fun h => ?_⟩
  have hthere : w.store.db.sessions.contains "id-31" = false ∧
      r.2.store.db.sessions.contains "id-31" = true := by
    decide +kernel
  have hkept := h.sessions _ hthere.2
  rw [hthere.1] at hkept
  cases hkept

/-- With different call ids, the delegation of the second session succeeds after the first one's. -/
theorem spawn_independent_calls :
    ((leadSpawns "t" "d").run (World.handle (.plain (leadConfig none)))
      ((leadSpawns "s" "c").run (World.handle (.plain (leadConfig none)))
        (twoLeads "c" "d")).2).1 = .ok () :=
  (spawn_independent_iff (twoLeads_sound "c" "d") twoLeads_fresh ⟨fun _ _ => rfl, fun _ _ _ => rfl⟩
    (by decide +kernel) (by decide +kernel) (by decide +kernel)).mpr (by decide)

/-- Each of two delegations with one call id succeeds alone, but not the second one after the
first. -/
theorem spawn_dependent :
    ((leadSpawns "s" "c").run (World.handle (.plain (leadConfig none))) (twoLeads "c" "c")).1 =
      .ok () ∧
    ((leadSpawns "t" "c").run (World.handle (.plain (leadConfig none))) (twoLeads "c" "c")).1 =
      .ok () ∧
    ((leadSpawns "t" "c").run (World.handle (.plain (leadConfig none)))
      ((leadSpawns "s" "c").run (World.handle (.plain (leadConfig none)))
        (twoLeads "c" "c")).2).1 = .error (.agentLinkConflict "c") := by
  refine ⟨?_, ?_, ?_⟩
  · decide +kernel
  · decide +kernel
  · decide +kernel

end Piqo
