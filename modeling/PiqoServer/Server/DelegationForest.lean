import PiqoServer.Library.Forest
import PiqoServer.Server.Delegation

/-!
# The forest of delegated sessions

`spawn_delegated_child` (`piqo-server/src/supervisor.rs`) looks up the depth of the parent among the
links of its session, compares it with the limit in force, creates the child session and links it.
No check rules out a cycle: the child is a session that no link can know of.

## Main definitions

* `DelegationStep`, `DelegationStep.apply`: delegations, and other operations between them
* `linksCreated`: the links of a run, each with the limit in force when it was created
* `DelegationCourse`: what a delegation has read and created

## Main results

* `spawnDelegatedChild_course`: a delegation adds at most leaves, below the limit
* `delegation_forest`: the links of every run are a forest, with the depths of its paths
-/

namespace Piqo

/-! ## Runs -/

/-- What happens to a server: a delegation, or another operation. -/
inductive DelegationStep where
  | operation (env : Surroundings) (op : ServerOp)
      (hop : ∀ link, op ≠ .store (.createAgentLink link))
  | spawn (env : Surroundings) (parentSessionId parentRunId parentCallId parentAgentId : String)
      (arguments : Json)

namespace DelegationStep

def apply (w : World) : DelegationStep → World
  | .operation env op _ => (World.handle env op w).2
  | .spawn env parentSessionId parentRunId parentCallId parentAgentId arguments =>
    ((spawnDelegatedChild parentSessionId parentRunId parentCallId parentAgentId arguments).run
      (World.handle env) w).2

/-- The limit that a snapshot of the configuration sets. -/
def limitOf : Except String PiqoConfig → Nat
  | .ok config => config.orchestration.maxDepth
  | .error _ => 0

/-- The limit in force when a delegation starts. -/
def maxDepth (w : World) : DelegationStep → Nat
  | .operation _ _ _ => 0
  | .spawn env _ _ _ _ _ => limitOf (env.answer w.clock .configSnapshot)

/-- Every configured limit is a `u8`. -/
def Configured : DelegationStep → Prop
  | .operation _ _ _ => True
  | .spawn env _ _ _ _ _ => ∀ n, limitOf (env.answer n .configSnapshot) ≤ 255

end DelegationStep

/-- The links that a run creates, each with the limit in force. -/
def linksCreated : World → List DelegationStep → List (AgentLinkRecord × Nat)
  | _, [] => []
  | w, step :: steps =>
    ((step.apply w).store.db.agentLinks.drop w.store.db.agentLinks.length).map
      (·, step.maxDepth w) ++ linksCreated (step.apply w) steps

/-! ## Sessions stay -/

section Sessions

variable (env : Surroundings) {w : World}

theorem Database.contains_of_getSession {db : Database} {id : String} {session : SessionSummary}
    (h : db.getSession id = .ok session) : db.sessions.contains id = true := by
  unfold Database.getSession at h
  split at h
  · next s hs => rw [SortedMap.contains, hs]; rfl
  · cases h

theorem contains_insert_of_contains {V : Type} {m : SortedMap String V} {id id' : String} {v : V}
    (h : m.contains id' = true) : (m.insert id v).contains id' = true := by
  by_cases hid : id' = id
  · rw [SortedMap.contains, hid, SortedMap.get?_insert_self]
    rfl
  · rw [SortedMap.contains, SortedMap.get?_insert_of_ne _ _ hid]
    exact h

/-- An append leaves the session it writes, and every other one. -/
theorem contains_appendEvents (store : Store) {sessionId id : String} (now : Nat → String)
    (events : List SemanticEvent) (h : store.db.sessions.contains id = true) :
    (store.appendEvents sessionId now events).2.db.sessions.contains id = true := by
  unfold Store.appendEvents
  split
  · exact h
  · dsimp only
    split
    · next db p records happend =>
      unfold Database.appendEvents at happend
      split at happend
      · obtain ⟨⟨s', q, records'⟩, -, heq⟩ := Except.map_eq_ok.mp happend
        cases heq
        exact contains_insert_of_contains h
      · cases happend
      · cases happend
    · exact h

/-- No operation removes a session. -/
theorem World.contains_handle (op : ServerOp) {id : String}
    (h : w.store.db.sessions.contains id = true) :
    (World.handle env op w).2.store.db.sessions.contains id = true := by
  cases op with
  | publish record => exact h
  | startWorker sessionId => exact h
  | external op => exact h
  | store op =>
    cases op with
    | projection sessionId =>
      change (w.store.projection sessionId).2.db.sessions.contains id = true
      unfold Store.projection
      split
      · exact h
      · split <;> exact h
    | append sessionId events => exact contains_appendEvents w.store _ events h
    | createSession newId now title projectId =>
      rw [World.handle, perform_createSession]
      rcases transact_createSession w.store newId now title projectId with
        ⟨e, hr⟩ | ⟨-, -, s, hs, -⟩
      · rw [hr]
        exact h
      · rw [hs]
        exact contains_insert_of_contains h
    | createPermissionRule rule =>
      rw [World.handle, perform_createPermissionRule, (transact_createPermissionRule rule).2]
      exact h
    | createAgentLink link =>
      have hsessions := (transact_createAgentLink w.store link).2.1
      change (w.store.transact (·.createAgentLink link)).2.db.sessions.contains id = true
      rw [hsessions]
      exact h
    | runningSessions => exact h
    | sessionIds => exact h
    | getSession sessionId => exact h
    | getProject projectId => exact h
    | matchingPermissionRule sessionId projectId agentId toolName => exact h
    | agentLinks sessionId => exact h

/-- A session that was created is new, and has the id it was created with. -/
theorem World.handle_createSession {id now : String} {title projectId : Option String}
    {session : SessionSummary}
    (h : (World.handle env (.store (.createSession id now title projectId)) w).1 = .ok session) :
    session.id = id ∧ w.store.db.sessions.contains id = false ∧
      (World.handle env (.store (.createSession id now title projectId)) w).2.store.db.sessions.contains
        id = true := by
  have hcreated := transact_createSession w.store id now title projectId
  simp only [World.handle, StoreOp.perform] at h ⊢
  generalize w.store.transact (·.createSessionWithRetention id now title projectId .forever) = r
    at h hcreated ⊢
  rcases hcreated with ⟨e, rfl⟩ | ⟨hok, hnew, s, hs, hid⟩
  · cases h
  · obtain ⟨x, store'⟩ := r
    cases hok
    simp only [Database.getSession] at h hs ⊢
    rw [hs, SortedMap.get?_insert_self] at h
    cases h
    refine ⟨hid, hnew, ?_⟩
    rw [hs, SortedMap.contains, SortedMap.get?_insert_self]
    rfl

end Sessions

/-! ## Links -/

/-- The links as edges between sessions. -/
abbrev LinkForest (links : List AgentLinkRecord) : Prop :=
  Forest.Graded AgentLinkRecord.parentSessionId AgentLinkRecord.childSessionId
    AgentLinkRecord.depth links

/-- The depth of a session. -/
abbrev sessionDepth (links : List AgentLinkRecord) (sessionId : String) : Nat :=
  Forest.depthOf AgentLinkRecord.childSessionId AgentLinkRecord.depth links sessionId

/-- The links are a forest of sessions that are there. -/
structure Rooted (w : World) : Prop where
  forest : LinkForest w.store.db.agentLinks
  present : ∀ link ∈ w.store.db.agentLinks,
    w.store.db.sessions.contains link.parentSessionId = true ∧
      w.store.db.sessions.contains link.childSessionId = true

theorem Rooted.of_links {env : Surroundings} {w : World} (h : Rooted w) (op : ServerOp)
    (hlinks : (World.handle env op w).2.store.db.agentLinks = w.store.db.agentLinks) :
    Rooted (World.handle env op w).2 where
  forest := hlinks ▸ h.forest
  present := by
    intro link hlink
    rw [hlinks] at hlink
    obtain ⟨hparent, hchild⟩ := h.present link hlink
    exact ⟨World.contains_handle env op hparent, World.contains_handle env op hchild⟩

/-- The depth that a delegation finds among the links of its session. -/
theorem depth_of_agentLinksOf {db : Database}
    (h : (db.agentLinks.map (·.childSessionId)).Nodup) {sessionId : String} {links : List AgentLinkRecord} (hlinks : db.agentLinksOf sessionId = .ok links) :
    db.sessions.contains sessionId = true ∧
      ((childLink sessionId links).map (·.depth)).getD 0 = sessionDepth db.agentLinks sessionId := by
  obtain ⟨session, hsession, rfl⟩ := Except.map_eq_ok.mp hlinks
  refine ⟨Database.contains_of_getSession hsession, ?_⟩
  by_cases hlink : ∃ link ∈ db.agentLinks, link.childSessionId = sessionId
  · obtain ⟨link, hmem, rfl⟩ := hlink
    rw [sessionDepth, Forest.depthOf_child h hmem]
    -- the links of the session are sorted, but only one of them makes it a child
    have hfound : childLink link.childSessionId ((db.agentLinks.filter fun other =>
        other.parentSessionId = link.childSessionId ||
          other.childSessionId = link.childSessionId).mergeSort fun a b =>
            a.createdAt < b.createdAt ∨
              (a.createdAt = b.createdAt ∧ a.instanceId ≤ b.instanceId)) = some link := by
      refine Forest.find?_child ?_ ?_
      · refine (List.Perm.nodup_iff ((List.mergeSort_perm _ _).map _)).mpr ?_
        exact h.sublist ((List.filter_sublist).map _)
      · rw [List.mem_mergeSort, List.mem_filter]
        exact ⟨hmem, by simp⟩
    rw [hfound]
    rfl
  · have hroot : ∀ link ∈ db.agentLinks, link.childSessionId ≠ sessionId :=
      fun link hmem heq => hlink ⟨link, hmem, heq⟩
    rw [sessionDepth, Forest.depthOf_root hroot, childLink, List.find?_eq_none.mpr]
    · rfl
    · intro link hmem
      rw [List.mem_mergeSort, List.mem_filter] at hmem
      simpa using hroot link hmem.1

/-! ## The course of a delegation -/

/-- What a delegation has read and created. -/
structure DelegationCourse where
  snapshot : Option (Except String PiqoConfig) := none
  /-- The depth of the parent. -/
  depth : Option Nat := none
  /-- The child session, until it is linked. -/
  child : Option String := none

section Course

variable (parentSessionId : String)

/-- A link goes from the parent to the session just created, within the limit. -/
def courseAllows (a : DelegationCourse) : ServerOp → Prop
  | .external .configSnapshot => a.snapshot = none
  | .store (.createSession _ _ _ _) => a.depth.isSome = true
  | .store (.createAgentLink link) => ∃ config depth, a.snapshot = some (.ok config) ∧
      a.depth = some depth ∧ a.child = some link.childSessionId ∧
      link.parentSessionId = parentSessionId ∧ depth < config.orchestration.maxDepth ∧
      link.depth = min (depth + 1) 255
  | _ => True

def courseNext (a : DelegationCourse) : (op : ServerOp) → op.Reply → DelegationCourse
  | .external .configSnapshot, r => { a with snapshot := some r }
  | .store (.agentLinks id), .ok links =>
    if id = parentSessionId then
      { a with depth := some (((childLink id links).map (·.depth)).getD 0) }
    else a
  | .store (.createSession _ _ _ _), .ok session => { a with child := some session.id }
  | .store (.createAgentLink _), _ => { a with child := none }
  | _, _ => a

variable {parentSessionId}

theorem course_quiet : Quiet (courseAllows parentSessionId) (courseNext parentSessionId) where
  publish _ _ := ⟨trivial, rfl⟩
  worker _ _ := ⟨trivial, rfl⟩
  release _ _ := ⟨trivial, rfl⟩
  shutdown _ _ := ⟨trivial, rfl⟩

theorem admitDelegatedChild_course (parentRunId parentCallId : String) (arguments : Json) :
    (admitDelegatedChild parentSessionId parentRunId parentCallId arguments).Follows
      (courseAllows parentSessionId) (courseNext parentSessionId) (fun _ _ => True) {} := by
  unfold admitDelegatedChild
  refine follows_expect (fun request _ => ?_) trivial
  refine follows_snapshot rfl (fun config => ?_) fun _ _ => trivial
  refine follows_ofExcept (fun child _ => ?_) fun _ _ => trivial
  refine follows_expect (fun provider _ => ?_) trivial
  refine follows_expect (fun model _ => ?_) trivial
  rw [resolveProvider, Program.bind_assoc]
  refine follows_ask trivial fun resolved => ?_
  rcases resolved with (name | message) | resolved <;> try trivial
  refine follows_onStore trivial (fun links => ?_) fun _ => trivial
  refine iteInduction (fun _ => trivial) fun hdepth => ?_
  refine iteInduction (fun _ => trivial) fun _ => ?_
  refine follows_loadRun trivial (fun p run hrun => ?_) fun _ _ => trivial
  refine follows_expect (fun parentRequest hrequest => ?_) trivial
  refine follows_ofExcept (fun messages _ => ?_) fun _ _ => trivial
  refine iteInduction (fun _ => trivial) fun _ => ?_
  refine follows_onStore trivial (fun session => ?_) fun _ => trivial
  refine follows_ask trivial fun childId => ?_
  refine follows_ask trivial fun now => ?_
  refine follows_onStore (by simp [courseAllows, courseNext]) (fun childSession => ?_)
    fun _ => trivial
  refine follows_ask trivial fun instanceId => ?_
  refine follows_ask trivial fun childRunId => ?_
  refine follows_ask trivial fun createdAt => ?_
  refine follows_onStore ?_ (fun _ => trivial) fun _ => trivial
  -- the depth is the one read first, and the limit that of the snapshot
  refine ⟨config, _, ?_, ?_, ?_, rfl, Nat.not_le.mp hdepth, rfl⟩
  · simp [courseNext]
  · simp [courseNext]
  · simp [courseNext]

theorem startDelegatedChild_course (parentAgentId : String) (d : Delegation)
    (a : DelegationCourse) :
    (startDelegatedChild parentAgentId d).Follows (courseAllows parentSessionId)
      (courseNext parentSessionId) (fun _ _ => True) a := by
  unfold startDelegatedChild
  have hquiet : Quiet (courseAllows parentSessionId) (courseNext parentSessionId) := course_quiet
  refine (hquiet.append (Q := fun _ _ => True) trivial (fun _ _ => trivial)
    fun _ _ => trivial).bind ?_ fun _ _ _ => trivial
  intro b record _
  refine follows_ask trivial fun messageId => ?_
  refine (hquiet.appendMany (Q := fun _ _ => True) trivial fun _ => trivial).bind ?_
    fun _ _ _ => trivial
  intro b records _
  refine follows_onStore trivial (fun child => ?_) fun _ => trivial
  refine follows_expect (fun message _ => ?_) trivial
  refine (hquiet.appendMany (Q := fun _ _ => True) trivial fun _ => trivial).bind ?_
    fun _ _ _ => trivial
  intro b records _
  exact hquiet.spawnWorker.mono fun _ _ _ => trivial

/-- On every path of a delegation, a link goes to the session just created. -/
theorem spawnDelegatedChild_follows_course (parentSessionId parentRunId parentCallId
      parentAgentId : String) (arguments : Json) :
    (spawnDelegatedChild parentSessionId parentRunId parentCallId parentAgentId arguments).Follows
      (courseAllows parentSessionId) (courseNext parentSessionId) (fun _ _ => True) {} :=
  (admitDelegatedChild_course parentRunId parentCallId arguments).bind
    (fun b d _ => startDelegatedChild_course parentAgentId d b) fun _ _ _ => trivial

/-- What was read is so, the child is a session that no link knows, and new links are within the
limit. -/
structure CourseTrue (parentSessionId : String) (snapshot : Except String PiqoConfig)
    (before : List AgentLinkRecord) (a : DelegationCourse) (w : World) : Prop where
  rooted : Rooted w
  read : a.snapshot = some snapshot
  depth : ∀ depth, a.depth = some depth →
    w.store.db.sessions.contains parentSessionId = true ∧
      sessionDepth w.store.db.agentLinks parentSessionId = depth
  child : ∀ id, a.child = some id →
    w.store.db.sessions.contains id = true ∧ parentSessionId ≠ id ∧
      ∀ link ∈ w.store.db.agentLinks, link.childSessionId ≠ id ∧ link.parentSessionId ≠ id
  created : ∃ links, w.store.db.agentLinks = before ++ links ∧
    ∀ link ∈ links, link.depth ≤ DelegationStep.limitOf snapshot

section CourseTrue

variable {parentSessionId : String} {snapshot : Except String PiqoConfig}
  {before : List AgentLinkRecord} {a : DelegationCourse} {w : World} {env : Surroundings}

/-- An operation that leaves the links leaves what is known. -/
theorem CourseTrue.of_links (h : CourseTrue parentSessionId snapshot before a w) (op : ServerOp)
    (hlinks : (World.handle env op w).2.store.db.agentLinks = w.store.db.agentLinks) :
    CourseTrue parentSessionId snapshot before a (World.handle env op w).2 where
  rooted := h.rooted.of_links op hlinks
  read := h.read
  depth := by
    intro depth hdepth
    obtain ⟨hparent, hdepth⟩ := h.depth depth hdepth
    exact ⟨World.contains_handle env op hparent, hlinks ▸ hdepth⟩
  child := by
    intro id hid
    obtain ⟨hpresent, hne, hfresh⟩ := h.child id hid
    exact ⟨World.contains_handle env op hpresent, hne, hlinks ▸ hfresh⟩
  created := hlinks ▸ h.created

/-- The link of a delegation is a new leaf. -/
theorem CourseTrue.link (h : CourseTrue parentSessionId snapshot before a w)
    (hlimit : DelegationStep.limitOf snapshot ≤ 255) {link : AgentLinkRecord}
    (hallowed : courseAllows parentSessionId a (.store (.createAgentLink link))) :
    CourseTrue parentSessionId snapshot before { a with child := none }
      (World.handle env (.store (.createAgentLink link)) w).2 := by
  obtain ⟨config, depth, hsnapshot, hdepth, hchild, hparent, hlt, hlink⟩ := hallowed
  have hsame (hlinks : (World.handle env (.store (.createAgentLink link)) w).2.store.db.agentLinks =
      w.store.db.agentLinks) := h.of_links (.store (.createAgentLink link)) hlinks
  obtain ⟨-, hsessions, hlinks | ⟨hlinks, -⟩⟩ := transact_createAgentLink w.store link
  · have hsame := hsame hlinks
    exact ⟨hsame.rooted, hsame.read, hsame.depth, by simp, hsame.created⟩
  change (World.handle env (.store (.createAgentLink link)) w).2.store.db.agentLinks =
    w.store.db.agentLinks ++ [link] at hlinks
  obtain ⟨hpresent, hne, hfresh⟩ := h.child _ hchild
  obtain ⟨hparentPresent, hparentDepth⟩ := h.depth depth hdepth
  have hmax : config.orchestration.maxDepth = DelegationStep.limitOf snapshot := by
    cases h.read.symm.trans hsnapshot
    rfl
  have hone : link.depth = depth + 1 := by omega
  refine ⟨⟨?_, ?_⟩, h.read, ?_, by simp, ?_⟩
  · rw [hlinks]
    refine h.rooted.forest.add_leaf hfresh (hparent ▸ hne) ?_
    rw [hone, hparent]
    exact (Nat.add_comm depth 1).trans (congrArg (1 + ·) hparentDepth.symm)
  · intro other hother
    rw [hlinks, List.mem_append, List.mem_singleton] at hother
    rcases hother with hother | rfl
    · obtain ⟨hparent, hchild⟩ := h.rooted.present other hother
      exact ⟨World.contains_handle env _ hparent, World.contains_handle env _ hchild⟩
    · exact ⟨World.contains_handle env _ (hparent ▸ hparentPresent),
        World.contains_handle env _ hpresent⟩
  · intro depth' hdepth'
    obtain ⟨hpresent', hdepth'⟩ := h.depth depth' hdepth'
    refine ⟨World.contains_handle env _ hpresent', ?_⟩
    rw [hlinks, sessionDepth, Forest.depthOf_append_of_ne hne.symm]
    exact hdepth'
  · obtain ⟨links, hbefore, hdepths⟩ := h.created
    refine ⟨links ++ [link], ?_, ?_⟩
    · rw [hlinks, hbefore, List.append_assoc]
    · intro other hother
      rw [List.mem_append, List.mem_singleton] at hother
      rcases hother with hother | rfl
      · exact hdepths other hother
      · omega

/-- An operation of a delegation keeps what is known. -/
theorem CourseTrue.step (hlimit : DelegationStep.limitOf snapshot ≤ 255) (a : DelegationCourse)
    (op : ServerOp) (w : World) (h : CourseTrue parentSessionId snapshot before a w)
    (hallowed : courseAllows parentSessionId a op) :
    CourseTrue parentSessionId snapshot before
        (courseNext parentSessionId a op (World.handle env op w).1) (World.handle env op w).2 := by
  by_cases hlink : ∃ link, op = .store (.createAgentLink link)
  · obtain ⟨link, rfl⟩ := hlink
    exact h.link hlimit hallowed
  have hsame := h.of_links op
    (World.handle_agentLinks env op fun link hop => hlink ⟨link, hop⟩)
  cases op with
  | publish record => exact hsame
  | startWorker sessionId => exact hsame
  | external op =>
    cases op with
    | configSnapshot =>
      have hnone : a.snapshot = none := hallowed
      cases hnone.symm.trans h.read
    | _ => exact hsame
  | store op =>
    cases op with
    | agentLinks id =>
      change CourseTrue parentSessionId snapshot before (courseNext parentSessionId a
        (.store (.agentLinks id)) (w.store.db.agentLinksOf id)) _
      cases hlinks : w.store.db.agentLinksOf id with
      | error e => exact hsame
      | ok links =>
        rw [courseNext]
        split
        · next hid =>
          obtain rfl := hid
          refine ⟨hsame.rooted, hsame.read, ?_, hsame.child, hsame.created⟩
          rintro depth hdepth
          cases hdepth
          obtain ⟨hpresent, hdepth⟩ := depth_of_agentLinksOf h.rooted.forest.unique hlinks
          exact ⟨hpresent, hdepth.symm⟩
        · exact hsame
    | createSession id now title projectId =>
      cases hreply : (World.handle env (.store (.createSession id now title projectId)) w).1 with
      | error e => exact hsame
      | ok session =>
        obtain ⟨hid, hnew, hpresent⟩ := World.handle_createSession env hreply
        refine ⟨hsame.rooted, hsame.read, hsame.depth, ?_, hsame.created⟩
        intro childId hchild
        obtain rfl : childId = id := (Option.some.inj hchild).symm.trans hid
        -- a session that was not there is neither the parent nor known to a link
        have hne : ∀ id', w.store.db.sessions.contains id' = true → id' ≠ childId := by
          rintro id' hcontains rfl
          rw [hnew] at hcontains
          cases hcontains
        obtain ⟨depth, hdepth⟩ := Option.isSome_iff_exists.mp hallowed
        refine ⟨hpresent, hne _ (h.depth depth hdepth).1, ?_⟩
        intro link hmem
        rw [World.handle_agentLinks env _ fun link hop => hlink ⟨link, hop⟩] at hmem
        obtain ⟨hparent, hchild⟩ := h.rooted.present link hmem
        exact ⟨hne _ hchild, hne _ hparent⟩
    | createAgentLink link => exact absurd ⟨link, rfl⟩ hlink
    | _ => exact hsame

/-- A delegation asks for the configuration first, or nothing at all. -/
theorem spawnDelegatedChild_first (parentSessionId parentRunId parentCallId parentAgentId : String)
    (arguments : Json) :
    let spawn := spawnDelegatedChild parentSessionId parentRunId parentCallId parentAgentId arguments
    (∃ e, spawn = .fail e) ∨ ∃ k, spawn = .call (.external .configSnapshot) k := by
  intro spawn
  cases hrequest : DelegationRequest.ofJson? arguments with
  | none =>
    refine .inl ⟨.invalidRequest "delegate requires agent, task, and context_message_ids", ?_⟩
    simp only [spawn, spawnDelegatedChild, admitDelegatedChild, hrequest]
    rfl
  | some request =>
    refine .inr ⟨?_, ?_⟩
    rotate_left
    · simp only [spawn, spawnDelegatedChild, admitDelegatedChild, hrequest]
      rfl

/-- **A delegation adds leaves within the limit in force**, whatever it returns. -/
theorem spawnDelegatedChild_course (h : Rooted w) (parentSessionId parentRunId parentCallId
      parentAgentId : String) (arguments : Json)
    (hlimit : DelegationStep.limitOf (env.answer w.clock .configSnapshot) ≤ 255) :
    let w' := ((spawnDelegatedChild parentSessionId parentRunId parentCallId parentAgentId
      arguments).run (World.handle env) w).2
    Rooted w' ∧ ∃ links, w'.store.db.agentLinks = w.store.db.agentLinks ++ links ∧
      ∀ link ∈ links, link.depth ≤ DelegationStep.limitOf (env.answer w.clock .configSnapshot) := by
  have hfollows := spawnDelegatedChild_follows_course parentSessionId
    parentRunId parentCallId parentAgentId arguments
  rcases spawnDelegatedChild_first parentSessionId parentRunId parentCallId parentAgentId
    arguments with ⟨e, hfail⟩ | ⟨k, hcall⟩
  · rw [hfail]
    exact ⟨h, [], (List.append_nil _).symm, by simp⟩
  · rw [hcall] at hfollows ⊢
    have hrooted : Rooted w.tick := ⟨h.forest, h.present⟩
    have hstart : CourseTrue parentSessionId (env.answer w.clock .configSnapshot)
        w.store.db.agentLinks { snapshot := some (env.answer w.clock .configSnapshot) } w.tick :=
      ⟨hrooted, rfl, by simp, by simp, [], (List.append_nil _).symm, by simp⟩
    obtain ⟨b, hb, -⟩ := (hfollows.2 (env.answer w.clock .configSnapshot)).run
      (CourseTrue.step hlimit) hstart
    exact ⟨hb.rooted, hb.created⟩

end CourseTrue

end Course

/-! ## The forest -/

theorem DelegationStep.apply_rooted {w : World} (h : Rooted w) (step : DelegationStep)
    (hstep : step.Configured) :
    Rooted (step.apply w) ∧ ∃ links,
      (step.apply w).store.db.agentLinks = w.store.db.agentLinks ++ links ∧
        ∀ link ∈ links, link.depth ≤ step.maxDepth w := by
  cases step with
  | operation env op hop =>
    have hlinks := World.handle_agentLinks (w := w) env op hop
    exact ⟨h.of_links op hlinks, [], hlinks.trans (List.append_nil _).symm, by simp⟩
  | spawn env parentSessionId parentRunId parentCallId parentAgentId arguments =>
    exact spawnDelegatedChild_course h parentSessionId parentRunId parentCallId parentAgentId
      arguments (hstep w.clock)

/-- Along a run the links stay a forest, and those created are within the limits. -/
theorem run_rooted {steps : List DelegationStep} (hsteps : ∀ step ∈ steps, step.Configured)
    {w : World} (h : Rooted w) :
    Rooted (steps.foldl DelegationStep.apply w) ∧
      (steps.foldl DelegationStep.apply w).store.db.agentLinks =
        w.store.db.agentLinks ++ (linksCreated w steps).map Prod.fst ∧
      ∀ created ∈ linksCreated w steps, created.1.depth ≤ created.2 := by
  induction steps generalizing w with
  | nil => exact ⟨h, (List.append_nil _).symm, by simp [linksCreated]⟩
  | cons step steps ih =>
    obtain ⟨hrooted, links, hlinks, hdepths⟩ :=
      step.apply_rooted h (hsteps step List.mem_cons_self)
    obtain ⟨hend, hrest, hcreated⟩ :=
      ih (fun step hstep => hsteps step (List.mem_cons_of_mem _ hstep)) hrooted
    have hdrop : (step.apply w).store.db.agentLinks.drop w.store.db.agentLinks.length = links := by
      rw [hlinks, List.drop_left]
    refine ⟨hend, ?_, ?_⟩
    · rw [List.foldl_cons, hrest, hlinks, linksCreated, hdrop, List.map_append, List.map_map,
        List.append_assoc]
      simp [Function.comp_def]
    · intro created hmem
      rw [linksCreated, hdrop, List.mem_append, List.mem_map] at hmem
      rcases hmem with ⟨link, hlink, rfl⟩ | hmem
      · exact hdepths link hlink
      · exact hcreated created hmem

/-- **The links are a forest with the depths of its paths.** After any delegations, successful or
not, with any other operations between them and under any limits: no session is the child of two
links, a link is one deeper than the one above it, every link was within the limit in force when it
was created, and no session is its own ancestor. -/
theorem delegation_forest {w : World} (hlinks : w.store.db.agentLinks = [])
    (steps : List DelegationStep) (hsteps : ∀ step ∈ steps, step.Configured) :
    let links := (steps.foldl DelegationStep.apply w).store.db.agentLinks
    (links.map (·.childSessionId)).Nodup ∧
      (∀ link ∈ links,
        (∃ above ∈ links, above.childSessionId = link.parentSessionId ∧
          link.depth = 1 + above.depth) ∨
        (∀ other ∈ links, other.childSessionId ≠ link.parentSessionId) ∧ link.depth = 1) ∧
      links = (linksCreated w steps).map Prod.fst ∧
      (∀ created ∈ linksCreated w steps, created.1.depth ≤ created.2) ∧
      ∀ sessionId, ¬ Relation.TransGen (Forest.ParentOf AgentLinkRecord.parentSessionId
        AgentLinkRecord.childSessionId links) sessionId sessionId := by
  have hstart : Rooted w := by
    refine ⟨?_, ?_⟩
    · rw [hlinks]
      exact .nil
    · rw [hlinks]
      simp
  obtain ⟨hrooted, hcreated, hdepths⟩ := run_rooted hsteps hstart
  rw [hlinks, List.nil_append] at hcreated
  exact ⟨hrooted.forest.unique, fun link hlink => hrooted.forest.depth_eq hlink, hcreated, hdepths,
    hrooted.forest.acyclic⟩

/-- A delegation to the worker, with a limit in force. -/
def delegateUnder (limit : Nat) (parentSessionId parentRunId parentCallId : String) :
    DelegationStep :=
  .spawn (.plain { leadConfig none with orchestration := { maxDepth := limit } }) parentSessionId
    parentRunId parentCallId "a" (.object [("agent", .str "worker"), ("task", .str "t"),
      ("context_message_ids", .arr [])])

/-- The lead delegates, its worker delegates further once the limit is 2, and the worker's worker is
refused. -/
def delegations : List DelegationStep :=
  [delegateUnder 1 "s" "r" "c", delegateUnder 1 "id-5" "id-9" "c1",
    delegateUnder 2 "id-5" "id-9" "c2", delegateUnder 2 "id-34" "id-38" "c3"]

theorem delegateUnder_configured {limit : Nat} (h : limit ≤ 255)
    (parentSessionId parentRunId parentCallId : String) :
    (delegateUnder limit parentSessionId parentRunId parentCallId).Configured :=
  fun _ => h

theorem delegations_configured : ∀ step ∈ delegations, step.Configured := by
  intro step hstep
  simp only [delegations, List.mem_cons, List.not_mem_nil, or_false] at hstep
  rcases hstep with rfl | rfl | rfl | rfl
  all_goals exact delegateUnder_configured (by decide) _ _ _

theorem delegation_forest_chain :
    (linksCreated leadStart delegations).map (fun created =>
      (created.1.parentSessionId, created.1.childSessionId, created.1.depth, created.2)) =
        [("s", "id-5", 1, 1), ("id-5", "id-34", 2, 2)] ∧
      ∀ sessionId, ¬ Relation.TransGen (Forest.ParentOf AgentLinkRecord.parentSessionId
        AgentLinkRecord.childSessionId
          (delegations.foldl DelegationStep.apply leadStart).store.db.agentLinks)
        sessionId sessionId :=
  ⟨by decide +kernel, (delegation_forest rfl delegations delegations_configured).2.2.2.2⟩

end Piqo
