import PiqoServer.Server.Operations
import PiqoServer.Mcp.PublicNames

/-!
# The tools of the MCP servers

The entries of `McpManager` in `piqo-tools/src/lib.rs`, the catalogue made of them and the calls
that go to them. Between two calls nothing refreshes a catalogue; the processes behind the entries
are in `Mcp/Children.lean`.

## Main definitions

* `McpEntry`, `McpManager`: configured servers with the tools last discovered
* `McpManager.catalog`: the tools that are advertised
* `McpManager.find`, `McpManager.call`: the definition a call goes to, and the call
* `McpManager.DispatchAgrees`: calls by a name go where the catalogue says

## Main results

* `sent_of_call`: what a call sends is a request for the definition found
* `countP_tools_le_one_iff`: a name occurs once when no two servers have it
* `dispatchAgrees_iff`: dispatch and catalogue agree exactly on names of at most one server
-/

namespace Piqo

/-- `McpError` in full. -/
inductive McpFailure where
  | invalidConfiguration
  | unavailable
  | toolNotFound
  | invalidArguments
  | resultTooLarge
  | uncertain
  deriving DecidableEq, Repr

/-- What the supervisor sees of a failure. -/
def McpFailure.toMcpError : McpFailure → McpError
  | .invalidArguments => .invalidArguments
  | .resultTooLarge => .resultTooLarge
  | _ => .other

/-- A request to a server, by the server's own name of the tool. -/
structure ToolCall where
  serverId : String
  tool : String
  arguments : List (String × Json)
  deriving DecidableEq

/-- How a request ends. -/
inductive CallOutcome where
  /-- The run was cancelled. -/
  | cancelled
  /-- The request failed, or ran out of time. -/
  | failed
  /-- The server asks for a task to be followed. -/
  | incomplete
  /-- A result; `none` is one that `serde_json` does not write. -/
  | complete (value : Option Json)

/-- What a call leaves. -/
structure Called where
  result : Except McpFailure Json
  sent : Option ToolCall := none
  /-- The server's process was stopped. -/
  stopped : Bool := false

-- `jsonschema::validator_for` and the check by a validator
variable (validatorFor : Json → Option (Json → Bool))

/-- Whether `jsonschema` accepts a schema. -/
def validSchema (schema : Json) : Bool := (validatorFor schema).isSome

/-- A configured server with the tools that were discovered last. -/
structure McpEntry where
  id : String
  config : McpServerConfig
  tools : List McpToolDefinition
  compiled : ∃ discovered, tools = compileCatalog (validSchema validatorFor) id discovered

/-- The configured servers by id. -/
structure McpManager where
  entries : SortedMap String (McpEntry validatorFor)
  keyed : ∀ e ∈ entries.entries, e.2.id = e.1

/-- The servers as a call meets them. -/
structure McpServers where
  /-- `ensure_entry` gives a connection to an enabled server. -/
  connects : String → Bool
  answer : ToolCall → CallOutcome

variable {validatorFor}

namespace McpEntry

/-- `refresh_catalog` on a listing. -/
def refreshCatalog (entry : McpEntry validatorFor) (discovered : List DiscoveredTool) :
    McpEntry validatorFor where
  id := entry.id
  config := entry.config
  tools := compileCatalog (validSchema validatorFor) entry.id discovered
  compiled := ⟨discovered, rfl⟩

/-- The server has a tool of the public name. -/
def Names (entry : McpEntry validatorFor) (name : String) : Prop :=
  ∃ tool ∈ entry.tools, tool.name = name

end McpEntry

namespace McpManager

/-- The configured servers before any has listed tools. -/
def stopped (validatorFor : Json → Option (Json → Bool))
    (configs : SortedMap String McpServerConfig) : McpManager validatorFor where
  entries := ⟨configs.entries.map fun e =>
      (e.1, { id := e.1, config := e.2, tools := [], compiled := ⟨[], rfl⟩ }),
    List.pairwise_map.mpr configs.sorted⟩
  keyed := by
    rintro e he
    obtain ⟨-, -, rfl⟩ := List.mem_map.mp he
    rfl

/-- `McpManager::new`. -/
def new (validatorFor : Json → Option (Json → Bool)) (configs : SortedMap String McpServerConfig) :
    Except McpFailure (McpManager validatorFor) :=
  if configs.values.all fun config => config.validate matches .ok () then
    .ok (stopped validatorFor configs)
  else .error .invalidConfiguration

/-- `start_enabled`: enabled servers that answer list their tools. -/
def startEnabled (listings : String → Option (List DiscoveredTool))
    (manager : McpManager validatorFor) : McpManager validatorFor where
  entries := manager.entries.mapValues fun entry =>
    match listings entry.id with
    | some discovered => if entry.config.enabled then entry.refreshCatalog discovered else entry
    | none => entry
  keyed := by
    intro e he
    obtain ⟨e, hmem, rfl⟩ := List.mem_map.mp he
    have hid := manager.keyed e hmem
    dsimp only
    split
    · split <;> exact hid
    · exact hid

/-- The tools whose name is theirs alone, by name. -/
def advertised (manager : McpManager validatorFor) : List McpToolDefinition :=
  (retainUnique (manager.entries.values.flatMap (·.tools))).mergeSort fun a b => a.name ≤ b.name

/-- `McpManager::catalog`. -/
def catalog (listings : String → Option (List DiscoveredTool))
    (manager : McpManager validatorFor) : McpManager validatorFor × List McpToolDefinition :=
  (manager.startEnabled listings, (manager.startEnabled listings).advertised)

/-- The first server with a tool of the name, and the tool. -/
def find (manager : McpManager validatorFor) (publicName : String) :
    Option (McpEntry validatorFor × McpToolDefinition) :=
  manager.entries.values.findSome? fun entry =>
    (entry.tools.find? (·.name = publicName)).map fun tool => (entry, tool)

/-- `McpManager::call`. -/
def call (servers : McpServers) (manager : McpManager validatorFor) (publicName : String)
    (arguments : Json) : Called :=
  match manager.find publicName with
  | none => { result := .error .toolNotFound }
  | some (entry, definition) =>
    if !(entry.config.enabled && servers.connects entry.id) then { result := .error .unavailable }
    else match validatorFor definition.inputSchema, arguments with
      | some validator, .obj fields =>
        if !validator (.obj fields) then { result := .error .invalidArguments }
        else
          let request : ToolCall := {
            serverId := entry.id, tool := definition.serverToolName, arguments := fields }
          match servers.answer request with
          | .cancelled | .failed | .incomplete =>
            { result := .error .uncertain, sent := request, stopped := true }
          | .complete none => { result := .error .uncertain, sent := request }
          | .complete (some value) =>
            if entry.config.maxResultBytes < value.size then
              { result := .error .resultTooLarge, sent := request }
            else { result := .ok value, sent := request }
      | _, _ => { result := .error .invalidArguments }

/-- A call by the name goes to the definition. -/
def Dispatches (manager : McpManager validatorFor) (publicName : String)
    (definition : McpToolDefinition) : Prop :=
  ∃ entry, manager.find publicName = some (entry, definition)

end McpManager

/-! ## Calls -/

namespace McpManager

variable {manager : McpManager validatorFor} {name : String}

theorem find_eq_some {entry : McpEntry validatorFor} {tool : McpToolDefinition}
    (h : manager.find name = some (entry, tool)) :
    entry ∈ manager.entries.values ∧ tool ∈ entry.tools ∧ tool.name = name := by
  obtain ⟨other, hother, hfind⟩ := List.exists_of_findSome?_eq_some h
  obtain ⟨found, hfound, heq⟩ := Option.map_eq_some_iff.mp hfind
  cases heq
  exact ⟨hother, List.mem_of_find?_eq_some hfound, by simpa using List.find?_some hfound⟩

theorem find_eq_none : manager.find name = none ↔
    ∀ entry ∈ manager.entries.values, ¬ entry.Names name := by
  simp [find, McpEntry.Names]

/-- What a call sends is a request for the definition that the name leads to. -/
theorem sent_of_call {servers : McpServers} {arguments : Json} {request : ToolCall}
    (h : (manager.call servers name arguments).sent = some request) :
    ∃ entry definition, manager.find name = some (entry, definition) ∧
      request.serverId = entry.id ∧ request.tool = definition.serverToolName := by
  rw [call] at h
  split at h
  · cases h
  · next entry definition hfind =>
    refine ⟨entry, definition, hfind, ?_⟩
    split at h
    · cases h
    split at h
    · split at h
      · cases h
      · dsimp only at h
        split at h <;> (try split at h) <;> cases h <;> exact ⟨rfl, rfl⟩
    · cases h

/-- A call finds no tool exactly when the name leads to none. -/
theorem call_toolNotFound_iff {servers : McpServers} {arguments : Json} :
    (manager.call servers name arguments).result = .error .toolNotFound ↔
      manager.find name = none := by
  constructor
  · intro h
    rw [call] at h
    split at h
    · assumption
    · -- every other way out has an error of its own
      split at h
      · cases h
      split at h
      · split at h
        · cases h
        · dsimp only at h
          split at h <;> (try split at h) <;> cases h
      · cases h
  · intro h
    rw [call, h]

/-! ## Dispatch and catalogue -/

/-- Calls by the name go to the definition that is advertised under it, and to none if there is
no such definition. -/
def DispatchAgrees (manager : McpManager validatorFor) (advertised : List McpToolDefinition)
    (name : String) : Prop :=
  (∀ definition, manager.Dispatches name definition ↔
    definition ∈ advertised ∧ definition.name = name) ∧
  ((∀ definition ∈ advertised, definition.name ≠ name) → ∀ servers arguments,
    (manager.call servers name arguments).result = .error .toolNotFound)

/-- No two servers have a tool of the name. -/
def Unambiguous (manager : McpManager validatorFor) (name : String) : Prop :=
  manager.entries.values.Pairwise fun entry other => ¬ (entry.Names name ∧ other.Names name)

theorem countP_eq_zero_iff {entry : McpEntry validatorFor} :
    entry.tools.countP (·.name = name) = 0 ↔ ¬ entry.Names name := by
  simp [List.countP_eq_zero, McpEntry.Names]

/-- A server has at most one tool of a name. -/
theorem countP_le_one (entry : McpEntry validatorFor) :
    entry.tools.countP (·.name = name) ≤ 1 := by
  obtain ⟨discovered, htools⟩ := entry.compiled
  rw [countP_name, htools, compileCatalog]
  exact List.nodup_iff_count_le_one.mp nodup_retainUnique name

/-- A name occurs at most once exactly when no two servers have it. -/
theorem countP_tools_le_one_iff (entries : List (McpEntry validatorFor)) :
    (entries.flatMap (·.tools)).countP (·.name = name) ≤ 1 ↔
      entries.Pairwise fun entry other => ¬ (entry.Names name ∧ other.Names name) := by
  induction entries with
  | nil => simp
  | cons entry entries ih =>
    rw [List.flatMap_cons, List.countP_append, List.pairwise_cons, ← ih]
    have hone : entry.tools.countP (·.name = name) ≤ 1 := countP_le_one entry
    by_cases hnames : entry.Names name
    · -- the first server has the name, so no other may
      have hzero : entry.tools.countP (·.name = name) ≠ 0 :=
        fun h => countP_eq_zero_iff.mp h hnames
      have hrest : (entries.flatMap (·.tools)).countP (·.name = name) = 0 ↔
          ∀ other ∈ entries, ¬ other.Names name := by
        simp only [List.countP_eq_zero, List.mem_flatMap, McpEntry.Names]
        grind
      constructor
      · intro h
        refine ⟨fun other hother hboth => ?_, by omega⟩
        exact hrest.mp (by omega) other hother hboth.2
      · rintro ⟨hnone, -⟩
        rw [hrest.mpr fun other hother hother' => hnone other hother ⟨hnames, hother'⟩]
        exact hone
    · rw [countP_eq_zero_iff.mpr hnames, Nat.zero_add]
      exact ⟨fun h => ⟨fun _ _ hboth => hnames hboth.1, h⟩, fun h => h.2⟩

theorem mem_advertised {tool : McpToolDefinition} : tool ∈ manager.advertised ↔
    (∃ entry ∈ manager.entries.values, tool ∈ entry.tools) ∧
      (manager.entries.values.flatMap (·.tools)).countP (·.name = tool.name) = 1 := by
  rw [advertised, List.mem_mergeSort, mem_retainUnique, List.mem_flatMap]

/-- Two tools of a name that occurs once are the same. -/
theorem eq_of_countP_eq_one {tools : List McpToolDefinition}
    (h : tools.countP (·.name = name) = 1) {tool tool' : McpToolDefinition} (htool : tool ∈ tools)
    (htool' : tool' ∈ tools) (hname : tool.name = name) (hname' : tool'.name = name) :
    tool = tool' := by
  rw [List.countP_eq_length_filter] at h
  obtain ⟨only, honly⟩ := List.length_eq_one_iff.mp h
  have hmem : ∀ t ∈ tools, t.name = name → t = only := by
    intro t ht htname
    have : t ∈ tools.filter (·.name = name) := List.mem_filter.mpr ⟨ht, by simpa using htname⟩
    rw [honly] at this
    exact List.mem_singleton.mp this
  rw [hmem tool htool hname, hmem tool' htool' hname']

/-- **Dispatch and catalogue**: whatever the servers listed, calls by a name go where the
catalogue says exactly when no two servers have a tool of the name. -/
theorem dispatchAgrees_iff (manager : McpManager validatorFor)
    (listings : String → Option (List DiscoveredTool)) (name : String) :
    (manager.catalog listings).1.DispatchAgrees (manager.catalog listings).2 name ↔
      (manager.catalog listings).1.Unambiguous name := by
  show (manager.startEnabled listings).DispatchAgrees (manager.startEnabled listings).advertised
    name ↔ _
  show _ ↔ (manager.startEnabled listings).Unambiguous name
  generalize manager.startEnabled listings = manager
  rw [Unambiguous, ← countP_tools_le_one_iff]
  constructor
  · rintro ⟨hagrees, -⟩
    cases hfind : manager.find name with
    | none =>
      have hnone := find_eq_none.mp hfind
      refine (List.countP_eq_zero.mpr fun tool htool => ?_).trans_le (Nat.zero_le 1)
      obtain ⟨entry, hentry, htool⟩ := List.mem_flatMap.mp htool
      simpa using fun hname => hnone entry hentry ⟨tool, htool, hname⟩
    | some found =>
      -- the definition that is called is advertised, so its name occurs once
      obtain ⟨hadvertised, rfl⟩ := (hagrees found.2).mp ⟨found.1, hfind⟩
      exact Nat.le_of_eq (mem_advertised.mp hadvertised).2
  · intro hunique
    have hmem : ∀ {entry tool}, manager.find name = some (entry, tool) →
        tool ∈ manager.entries.values.flatMap (·.tools) ∧ tool.name = name := by
      intro entry tool hfind
      obtain ⟨hentry, htool, hname⟩ := find_eq_some hfind
      exact ⟨List.mem_flatMap.mpr ⟨entry, hentry, htool⟩, hname⟩
    have honce : ∀ tool ∈ manager.entries.values.flatMap (·.tools), tool.name = name →
        (manager.entries.values.flatMap (·.tools)).countP (·.name = name) = 1 := by
      intro tool htool hname
      refine Nat.le_antisymm hunique (List.countP_pos_iff.mpr ⟨tool, htool, ?_⟩)
      exact decide_eq_true hname
    have hagrees : ∀ definition, manager.Dispatches name definition ↔
        definition ∈ manager.advertised ∧ definition.name = name := by
      intro definition
      constructor
      · rintro ⟨entry, hfind⟩
        obtain ⟨hdefinition, rfl⟩ := hmem hfind
        obtain ⟨hentry, htool, -⟩ := find_eq_some hfind
        exact ⟨mem_advertised.mpr ⟨⟨entry, hentry, htool⟩, honce definition hdefinition rfl⟩, rfl⟩
      · rintro ⟨hadvertised, hname⟩
        obtain ⟨⟨entry, hentry, htool⟩, -⟩ := mem_advertised.mp hadvertised
        cases hfind : manager.find name with
        | none => exact absurd ⟨definition, htool, hname⟩ (find_eq_none.mp hfind entry hentry)
        | some found =>
          obtain ⟨hfound, hfoundName⟩ := hmem hfind
          have hsame := eq_of_countP_eq_one (honce found.2 hfound hfoundName) hfound
            (List.mem_flatMap.mpr ⟨entry, hentry, htool⟩) hfoundName hname
          exact ⟨found.1, hsame ▸ hfind⟩
    refine ⟨hagrees, fun hnone servers arguments => call_toolNotFound_iff.mpr ?_⟩
    cases hfind : manager.find name with
    | none => rfl
    | some found =>
      obtain ⟨hadvertised, hname⟩ := (hagrees found.2).mp ⟨found.1, hfind⟩
      exact absurd hname (hnone found.2 hadvertised)

/-- The catalogue is the one that requests are made from. -/
theorem advertised_eq_ofServers (manager : McpManager validatorFor) :
    ∃ servers : SortedMap String (List DiscoveredTool),
      (McpCatalog.ofServers (validSchema validatorFor) servers).tools = manager.advertised := by
  choose discovered htools using fun entry : McpEntry validatorFor => entry.compiled
  refine ⟨⟨manager.entries.entries.map fun e => (e.1, discovered e.2),
    List.pairwise_map.mpr manager.entries.sorted⟩, ?_⟩
  have hall : (manager.entries.entries.map fun e => (e.1, discovered e.2)).flatMap
      (fun e => compileCatalog (validSchema validatorFor) e.1 e.2) =
      manager.entries.values.flatMap (·.tools) := by
    rw [SortedMap.values, List.flatMap_map, List.flatMap_map]
    refine List.flatMap_congr fun e he => ?_
    rw [htools e.2, manager.keyed e he]
  rw [McpCatalog.ofServers, advertised]
  exact congrArg (fun tools => (retainUnique tools).mergeSort fun a b => a.name ≤ b.name) hall

/-! ## Two servers with one name -/

/-- Schemas are objects, and everything is an instance of them. -/
def anyInstance (schema : Json) : Option (Json → Bool) :=
  if schema = .obj [("type", .str "object")] then some fun _ => true else none

/-- Two servers, the id of one of which continues that of the other. -/
def nestedConfigs : SortedMap String McpServerConfig :=
  ((∅ : SortedMap String McpServerConfig).insert "a" { command := "first-mcp" }).insert "a__b"
    { command := "second-mcp" }

def nestedListings (id : String) : Option (List DiscoveredTool) :=
  some [{ searchTool with name := if id = "a" then "b__c" else "c" }]

def readyServers : McpServers where
  connects _ := true
  answer _ := .complete (some (.str "done"))

/-- Nothing is advertised, and yet a call by the common name is sent to the first server. -/
theorem dispatches_withheld :
    ∃ manager, new anyInstance nestedConfigs = .ok manager ∧
      (manager.catalog nestedListings).2 = [] ∧
      ((manager.catalog nestedListings).1.call readyServers "mcp__a__b__c" (.obj [])).sent =
        some { serverId := "a", tool := "b__c", arguments := [] } ∧
      ¬ (manager.catalog nestedListings).1.DispatchAgrees (manager.catalog nestedListings).2
        "mcp__a__b__c" := by
  have hnew : new anyInstance nestedConfigs = .ok (stopped anyInstance nestedConfigs) :=
    if_pos (by decide +kernel)
  refine ⟨_, hnew, ?_⟩
  rw [catalog]
  generalize hmanager : (stopped anyInstance nestedConfigs).startEnabled nestedListings = manager
  have hempty : retainUnique (manager.entries.values.flatMap (·.tools)) = [] := by
    rw [← hmanager]
    decide +kernel
  have hcatalog : manager.advertised = [] := by rw [advertised, hempty, List.mergeSort_nil]
  have hsent : (manager.call readyServers "mcp__a__b__c" (.obj [])).sent =
      some { serverId := "a", tool := "b__c", arguments := [] } := by
    rw [← hmanager]
    decide +kernel
  refine ⟨hcatalog, hsent, ?_⟩
  rintro ⟨-, hnone⟩
  -- nothing of the name is advertised, but the call finds a tool
  have hresult := hnone (by simp [hcatalog]) readyServers (.obj [])
  rw [call_toolNotFound_iff] at hresult
  rw [call, hresult] at hsent
  cases hsent

end McpManager

end Piqo
