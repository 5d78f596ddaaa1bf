import Mathlib.Data.List.Nodup
import PiqoServer.Server.ConfigManager

/-!
# Public tool names

A tool of an MCP server goes under the name `mcp__{server}__{tool}`. The configuration decides
which server ids there are (`validate` in `piqo-server/src/config.rs`) and `compile_catalog` in
`piqo-tools/src/lib.rs` which names are published; each has an alphabet of its own.

## Main definitions

* `publicName`, `mcpDefinition`: the name and the definition under which a tool is published
* `Publishable`: a tool that a server id and a schema do not rule out

## Main results

* `mem_compileCatalog`: what one server publishes
* `publishes_iff`: an accepted server id publishes its tools exactly when it has no hyphen
-/

namespace Piqo

/-! ## Unique names -/

section Unique

variable {tools : List McpToolDefinition}

theorem mem_retainUnique {tool : McpToolDefinition} :
    tool ∈ retainUnique tools ↔ tool ∈ tools ∧ tools.countP (·.name = tool.name) = 1 := by
  rw [retainUnique, List.mem_filter, decide_eq_true_iff]

theorem countP_name (name : String) :
    tools.countP (·.name = name) = (tools.map (·.name)).count name := by
  rw [List.count_eq_countP, List.countP_map]
  refine List.countP_congr fun tool _ => ?_
  simp

/-- Distinct names are all retained. -/
theorem retainUnique_eq_self (h : (tools.map (·.name)).Nodup) : retainUnique tools = tools := by
  refine List.filter_eq_self.mpr fun tool htool => ?_
  rw [decide_eq_true_iff, countP_name]
  exact List.count_eq_one_of_mem h (List.mem_map_of_mem htool)

/-- The retained names are distinct. -/
theorem nodup_retainUnique : ((retainUnique tools).map (·.name)).Nodup := by
  refine List.nodup_iff_count_le_one.mpr fun name => ?_
  by_cases hname : name ∈ (retainUnique tools).map (·.name)
  · obtain ⟨tool, htool, rfl⟩ := List.mem_map.mp hname
    obtain ⟨-, hcount⟩ := mem_retainUnique.mp htool
    rw [countP_name] at hcount
    rw [← hcount]
    exact (List.filter_sublist.map _).count_le _
  · rw [List.count_eq_zero_of_not_mem hname]
    exact Nat.zero_le 1

end Unique

/-! ## The tools of one server -/

/-- The name a tool is published under. -/
def publicName (serverId : String) (tool : DiscoveredTool) : String :=
  "mcp__" ++ (serverId ++ "__" ++ tool.name)

/-- The definition a tool is published with. -/
def mcpDefinition (serverId : String) (tool : DiscoveredTool) : McpToolDefinition where
  name := publicName serverId tool
  serverId := serverId
  serverToolName := tool.name
  description := tool.description
  inputSchema := .obj tool.inputSchema

/-- A character of a public name is one of an id other than the hyphen. -/
theorem publicNameChar_iff (c : Char) :
    publicNameChar c = true ↔ isAsciiAlphanumeric c = true ∨ c = '_' := by
  have hsame : c.isAlphanum = isAsciiAlphanumeric c := by
    have halpha : c.isAlpha = (c.isUpper || c.isLower) := rfl
    have hupper : c.isUpper = decide (c.val ≥ 65 ∧ c.val ≤ 90) := rfl
    have hlower : c.isLower = (decide (c.val ≥ 97) && decide (c.val ≤ 122)) := rfl
    rw [Bool.eq_iff_iff]
    simp only [Char.isAlphanum, halpha, hupper, hlower, Char.isDigit,
      isAsciiAlphanumeric, Bool.or_eq_true, Bool.and_eq_true, decide_eq_true_eq, Char.le_def,
      UInt32.le_iff_toNat_le, ge_iff_le]
    constructor <;> intro h <;> revert h <;> simp <;> omega
  rw [publicNameChar, hsame, Bool.or_eq_true, decide_eq_true_iff]

section Catalog

-- whether `jsonschema` accepts a schema
variable (validator : Json → Bool)

/-- A tool that `compile_catalog` does not skip. -/
def Publishable (serverId : String) (tool : DiscoveredTool) : Prop :=
  (publicName serverId tool).utf8ByteSize ≤ 64 ∧
    (publicName serverId tool).toList.all publicNameChar = true ∧
    validator (.obj tool.inputSchema) = true

instance (serverId : String) : DecidablePred (Publishable validator serverId) :=
  fun _ => inferInstanceAs (Decidable (_ ∧ _ ∧ _))

theorem compileCatalog_eq (serverId : String) (tools : List DiscoveredTool) :
    compileCatalog validator serverId tools =
      retainUnique ((tools.filter (Publishable validator serverId)).map (mcpDefinition serverId)) := by
  have hskip : ∀ tool, (if 64 < (publicName serverId tool).utf8ByteSize ||
        !(publicName serverId tool).toList.all publicNameChar then none
      else if !validator (.obj tool.inputSchema) then none
      else some (mcpDefinition serverId tool)) =
      if Publishable validator serverId tool then some (mcpDefinition serverId tool) else none := by
    intro tool
    by_cases hlength : 64 < (publicName serverId tool).utf8ByteSize
    · rw [if_pos (by simp [hlength]), if_neg fun h => absurd h.1 (Nat.not_le.mpr hlength)]
    by_cases hchars : (publicName serverId tool).toList.all publicNameChar = true
    · by_cases hschema : validator (.obj tool.inputSchema) = true
      · rw [if_neg (by simp only [hlength, hchars]; simp), if_neg (by simp [hschema]),
          if_pos ⟨Nat.not_lt.mp hlength, hchars, hschema⟩]
      · rw [if_neg (by simp only [hlength, hchars]; simp), if_pos (by simp [hschema]),
          if_neg fun h => hschema h.2.2]
    · rw [if_pos (by simp only [hlength, hchars]; simp), if_neg fun h => hchars h.2.1]
  rw [← List.filterMap_eq_map, List.filterMap_filter]
  refine congrArg retainUnique (List.filterMap_congr fun tool _ => (hskip tool).trans ?_)
  simp

/-- **What one server publishes**: the publishable tools whose name no other has. -/
theorem mem_compileCatalog {serverId : String} {tools : List DiscoveredTool}
    (hnodup : (tools.map (·.name)).Nodup) {definition : McpToolDefinition} :
    definition ∈ compileCatalog validator serverId tools ↔
      ∃ tool ∈ tools, Publishable validator serverId tool ∧
        mcpDefinition serverId tool = definition := by
  have hunique : (((tools.filter (Publishable validator serverId)).map (mcpDefinition serverId)).map
      (·.name)).Nodup := by
    have hsub : ((tools.filter (Publishable validator serverId)).map (·.name)).Nodup :=
      (List.filter_sublist.map _).nodup hnodup
    have hinj : Function.Injective fun name => "mcp__" ++ (serverId ++ "__" ++ name) :=
      fun _ _ h => (String.append_right_inj _).mp ((String.append_right_inj _).mp h)
    have hmap := hsub.map hinj
    rw [List.map_map] at hmap ⊢
    exact hmap
  rw [compileCatalog_eq, retainUnique_eq_self hunique]
  simp [List.mem_map, List.mem_filter, and_assoc]

theorem all_publicName (serverId : String) (tool : DiscoveredTool) :
    (publicName serverId tool).toList.all publicNameChar = true ↔
      serverId.toList.all publicNameChar = true ∧ tool.name.toList.all publicNameChar = true := by
  have hmcp : "mcp__".toList.all publicNameChar = true := by decide
  have hsep : "__".toList.all publicNameChar = true := by decide
  simp only [publicName, String.toList_append, List.all_append, hmcp, hsep, Bool.true_and,
    Bool.and_true, Bool.and_eq_true]

end Catalog

/-! ## Accepted server ids -/

namespace ServerConfig

theorem validAgentId_of_validateMcpServers {servers : List (String × McpServerConfig)}
    (h : validateMcpServers servers = .ok ()) {id : String} (hid : id ∈ servers.map Prod.fst) :
    validAgentId id = true := by
  induction servers with
  | nil => cases hid
  | cons server servers ih =>
    obtain ⟨⟨⟩, hrequire, h⟩ := Except.bind_eq_ok.mp h
    obtain ⟨⟨⟩, -, h⟩ := Except.bind_eq_ok.mp h
    rcases List.mem_cons.mp hid with rfl | hid
    · exact (Except.ite_ok_eq_ok.mp hrequire).1
    · exact ih h hid

/-- An accepted configuration has accepted server ids only. -/
theorem validAgentId_of_validate {crates : ConfigCrates} {config : ServerConfig}
    (h : config.validate crates = .ok ()) {id : String} (hid : id ∈ config.mcpServers.keys) :
    validAgentId id = true := by
  iterate 6 obtain ⟨⟨⟩, -, h⟩ := Except.bind_eq_ok.mp h
  exact validAgentId_of_validateMcpServers h hid

end ServerConfig

/-- An accepted id is made of the characters of public names and of hyphens. -/
theorem all_publicNameChar_iff {id : String} (h : validAgentId id = true) :
    id.toList.all publicNameChar = true ↔ '-' ∉ id.toList := by
  rw [validAgentId, Bool.and_eq_true, List.all_eq_true] at h
  rw [List.all_eq_true]
  refine ⟨fun hall hmem => absurd (hall _ hmem) (by decide), fun hnot c hc => ?_⟩
  have hchar := h.2 c hc
  rw [Bool.or_eq_true, Bool.or_eq_true, beq_iff_eq, beq_iff_eq] at hchar
  rw [publicNameChar_iff]
  rcases hchar with hchar | rfl
  · exact hchar
  · exact absurd hc hnot

/-- **Accepted ids and published tools**: of tools with names of their own in the alphabet of
public names, valid schemas and short public names, a configured server publishes all exactly
when its id has no hyphen or there is nothing to publish. -/
theorem publishes_iff {crates : ConfigCrates} {config : ServerConfig}
    (hvalid : config.validate crates = .ok ()) {id : String}
    (hid : id ∈ config.mcpServers.keys) (validator : Json → Bool) {tools : List DiscoveredTool}
    (hnodup : (tools.map (·.name)).Nodup)
    (halphabet : ∀ tool ∈ tools, ∀ c ∈ tool.name.toList, isAsciiAlphanumeric c = true ∨ c = '_')
    (hschema : ∀ tool ∈ tools, validator (.obj tool.inputSchema) = true)
    (hlength : ∀ tool ∈ tools, (publicName id tool).utf8ByteSize ≤ 64) :
    (∀ tool ∈ tools, mcpDefinition id tool ∈ compileCatalog validator id tools) ↔
      '-' ∉ id.toList ∨ tools = [] := by
  have hidchars := all_publicNameChar_iff (ServerConfig.validAgentId_of_validate hvalid hid)
  constructor
  · intro hall
    cases tools with
    | nil => exact .inr rfl
    | cons tool tools =>
      -- one published tool shows what its server's id is made of
      obtain ⟨other, -, ⟨-, hchars, -⟩, -⟩ :=
        (mem_compileCatalog validator hnodup).mp (hall tool List.mem_cons_self)
      exact .inl (hidchars.mp ((all_publicName id other).mp hchars).1)
  · rintro (hnot | rfl) tool htool
    · refine (mem_compileCatalog validator hnodup).mpr ⟨tool, htool, ⟨?_, ?_, ?_⟩, rfl⟩
      · exact hlength tool htool
      · refine (all_publicName id tool).mpr ⟨hidchars.mpr hnot, List.all_eq_true.mpr fun c hc => ?_⟩
        exact (publicNameChar_iff c).mpr (halphabet tool htool c hc)
      · exact hschema tool htool
    · cases htool

/-- The configuration with an MCP server of the given id. -/
def notesConfig (id : String) : ServerConfig :=
  { ConfigManager.localConfig with
    mcpServers := (∅ : SortedMap String McpServerConfig).insert id { command := "notes-mcp" } }

/-- The tool that the server reports. -/
def searchTool : DiscoveredTool where
  name := "search"
  description := some "Search the notes"
  inputSchema := [("type", .str "object")]

/-- `jsonschema` on the schema of the example. -/
def objectValidator (schema : Json) : Bool := schema = .obj [("type", .str "object")]

theorem searchTool_alphabet (c : Char) (hc : c ∈ searchTool.name.toList) :
    isAsciiAlphanumeric c = true ∨ c = '_' := by
  have hall : searchTool.name.toList.all (fun c => isAsciiAlphanumeric c || c == '_') = true := by
    decide +kernel
  simpa using List.all_eq_true.mp hall c hc

/-- Under the id `team_notes` the tool is published. -/
theorem publishes_team_notes :
    mcpDefinition "team_notes" searchTool ∈ compileCatalog objectValidator "team_notes" [searchTool] := by
  have hvalid : (notesConfig "team_notes").validate ConfigManager.localCrates = .ok () := by decide +kernel
  have hnodup : ([searchTool].map (·.name)).Nodup := by decide
  refine (publishes_iff hvalid (by decide +kernel) objectValidator hnodup ?_ ?_ ?_).mpr
    (.inl (by decide)) searchTool List.mem_cons_self
  · exact List.forall_mem_singleton.mpr searchTool_alphabet
  · decide +kernel
  · decide +kernel

/-- Under the id `team-notes`, accepted as well, it is dropped. -/
theorem withholds_team_notes :
    (notesConfig "team-notes").validate ConfigManager.localCrates = .ok () ∧
    "team-notes" ∈ (notesConfig "team-notes").mcpServers.keys ∧
    (∀ c ∈ searchTool.name.toList, isAsciiAlphanumeric c = true ∨ c = '_') ∧
    objectValidator (.obj searchTool.inputSchema) = true ∧
    (publicName "team-notes" searchTool).utf8ByteSize ≤ 64 ∧
    compileCatalog objectValidator "team-notes" [searchTool] = [] := by
  refine ⟨by decide +kernel, by decide +kernel, searchTool_alphabet, ?_⟩
  decide +kernel

end Piqo
