import PiqoServer.Server.Body

/-!
# The request body belongs to the user

`build_body` (`piqo-server/src/supervisor.rs`) merges the bodies of configuration and request and
fills in a few fields. A field that some body has is sent with the value of the body of the highest
precedence; the fields filled in are `model`, `stream`, `tools` and the transcript of the protocol,
each only where no body has it.

## Main definitions

* `suppliedBodies`: the bodies of a request, from the highest to the lowest precedence
* `suppliedValue`: the value that the first of them has under a key
* `transcriptKey`: where the protocol has its transcript

## Main results

* `lookup_mergeLayers`: a merge has under a key the value of the last layer that has the key
* `buildBody_get`: what a body has under a key
-/

namespace Piqo

namespace Json

/-- No key stands twice in an object, as in every `serde_json::Map`. -/
def DistinctKeys (v : Json) : Prop := ∀ fields, v = .obj fields → (fields.map Prod.fst).Nodup

theorem distinctKeys_normalizeBody {v : Json} (h : v.DistinctKeys) :
    (normalizeBody v).DistinctKeys := by
  cases v with
  | obj fields => exact h
  | _ =>
    intro fields heq
    cases heq
    exact List.nodup_nil

theorem get_normalizeBody (v : Json) (key : String) : (normalizeBody v).get key = v.get key := by
  cases v <;> rfl

end Json

/-! ## Merging -/

theorem lookup_eq_none_of_notMem {key : String} {fields : List (String × Json)}
    (h : key ∉ fields.map Prod.fst) : SortedMap.lookup key fields = none := by
  induction fields with
  | nil => rfl
  | cons f fs ih =>
    rw [List.map_cons, List.mem_cons, not_or] at h
    rw [SortedMap.lookup, if_neg h.1, ih h.2]

/-- A layer goes over what was merged before it. -/
theorem lookup_mergeFields (key : String) (merged : List (String × Json))
    {layer : List (String × Json)} (hlayer : (layer.map Prod.fst).Nodup) :
    SortedMap.lookup key (mergeFields merged layer) =
      (SortedMap.lookup key layer).or (SortedMap.lookup key merged) := by
  induction layer generalizing merged with
  | nil => rfl
  | cons f fs ih =>
    rw [List.map_cons, List.nodup_cons] at hlayer
    have hstep : mergeFields merged (f :: fs) =
        mergeFields (SortedMap.insertEntry f.1 f.2 merged) fs := rfl
    rw [hstep, ih _ hlayer.2, SortedMap.lookup_insertEntry, SortedMap.lookup]
    by_cases hkey : key = f.1
    · rw [if_pos hkey, if_pos hkey, hkey, lookup_eq_none_of_notMem hlayer.1]
      rfl
    · rw [if_neg hkey, if_neg hkey]

/-- A merge has under a key the value of the last layer that has the key. -/
theorem lookup_mergeLayers {layers : List Json} (hkeys : ∀ layer ∈ layers, layer.DistinctKeys)
    {index : Nat} {merged fields : List (String × Json)}
    (h : mergeLayers index merged layers = .ok fields) (key : String) :
    SortedMap.lookup key fields =
      (layers.reverse.findSome? (·.get key)).or (SortedMap.lookup key merged) := by
  induction layers generalizing index merged with
  | nil =>
    cases h
    rfl
  | cons layer layers ih =>
    cases layer with
    | obj layerFields =>
      have hnodup := hkeys _ List.mem_cons_self layerFields rfl
      rw [ih (fun l hl => hkeys l (List.mem_cons_of_mem _ hl)) h, lookup_mergeFields key merged hnodup,
        List.reverse_cons, List.findSome?_append, Option.or_assoc]
      congr 2
      rw [List.findSome?_singleton]
      rfl
    | _ => cases h

/-! ## What is supplied -/

/-- The bodies of a request, from the highest to the lowest precedence: of the request itself, of
its variant, of its agent in `piqo.toml` and in Markdown, of its model, and the defaults. -/
def suppliedBodies (config : PiqoConfig) (request : RunRequest) : List Json :=
  [some request.body,
    (request.variant.bind config.variants.get?).map (·.body),
    (request.agent.bind config.agents.get?).map (·.body),
    (request.agent.bind config.markdownAgents.get?).map (·.markdownBody),
    (config.models.get? request.model).map (·.body),
    some config.defaults.body].reduceOption

/-- The value of the first body that has the key. -/
def suppliedValue (config : PiqoConfig) (request : RunRequest) (key : String) : Option Json :=
  (suppliedBodies config request).findSome? (·.get key)

/-- The field in which the protocol has its transcript. -/
def transcriptKey : ProviderProtocol → String
  | .chatCompletions => "messages"
  | .responses => "input"

theorem bodyLayers_reverse (config : PiqoConfig) (request : RunRequest) :
    (config.bodyLayers request.model request.agent request.variant request.body).reverse =
      (suppliedBodies config request).map normalizeBody := by
  unfold PiqoConfig.bodyLayers suppliedBodies
  cases request.agent with
  | none =>
    cases request.variant.bind config.variants.get? <;> cases config.models.get? request.model <;> rfl
  | some name =>
    dsimp only
    rw [Option.bind_some, Option.bind_some]
    unfold PiqoConfig.agent SortedMap.contains
    cases request.variant.bind config.variants.get? <;> cases config.models.get? request.model <;>
      cases config.markdownAgents.get? name <;> cases config.agents.get? name <;> rfl

/-- Every body of configuration and request has each key once. -/
def DistinctBodies (config : PiqoConfig) (request : RunRequest) : Prop :=
  ∀ body ∈ suppliedBodies config request, body.DistinctKeys

/-- The merged body has what is supplied. -/
theorem lookup_merged {config : PiqoConfig} {request : RunRequest}
    (hbodies : DistinctBodies config request) {fields : List (String × Json)}
    (h : mergeRequestBodies (config.bodyLayers request.model request.agent request.variant
      request.body) = .ok (.obj fields)) (key : String) :
    SortedMap.lookup key fields = suppliedValue config request key := by
  obtain ⟨merged, hmerged, heq⟩ := Except.map_eq_ok.mp h
  cases heq
  have hlayers : ∀ layer ∈ config.bodyLayers request.model request.agent request.variant
      request.body, layer.DistinctKeys := by
    intro layer hlayer
    rw [← List.mem_reverse, bodyLayers_reverse] at hlayer
    obtain ⟨body, hbody, rfl⟩ := List.mem_map.mp hlayer
    exact Json.distinctKeys_normalizeBody (hbodies body hbody)
  rw [lookup_mergeLayers hlayers hmerged key, bodyLayers_reverse, List.findSome?_map, suppliedValue,
    SortedMap.lookup, Option.or_none]
  exact congrArg (List.findSome? · _) (funext fun body => Json.get_normalizeBody body key)

/-! ## What is sent -/

section Sent

variable {config : PiqoConfig} {protocol : ProviderProtocol} {request : RunRequest}
  {nativeTools : List NativeTool} {mcpTools : List McpToolDefinition}

/-- What is filled in where nothing is supplied. -/
def filledKey (protocol : ProviderProtocol) (nativeTools : List NativeTool)
    (mcpTools : List McpToolDefinition) (key : String) : Prop :=
  key = "model" ∨ key = "stream" ∨ (key = "tools" ∧ (nativeTools ≠ [] ∨ mcpTools ≠ [])) ∨
    key = transcriptKey protocol

theorem transcriptField_fst {p : SessionProjection} {instructions : Option String} {key : String}
    {transcript : Json} (h : transcriptField protocol p instructions = some (key, transcript)) :
    key = transcriptKey protocol := by
  cases protocol with
  | chatCompletions =>
    obtain ⟨items, -, heq⟩ := Option.map_eq_some_iff.mp h
    cases heq
    rfl
  | responses =>
    cases h
    rfl

theorem lookup_orInsert_of_some (key : String) (value : Json) {key' : String} {v : Json}
    {fields : List (String × Json)} (h : SortedMap.lookup key' fields = some v) :
    SortedMap.lookup key' (Json.orInsert key value fields) = some v := by
  rw [Json.lookup_orInsert]
  split
  · next hkey => rw [← hkey, h, Option.getD_some]
  · exact h

theorem lookup_orInsert_of_ne {key key' : String} {value : Json} {fields : List (String × Json)}
    (h : key' ≠ key) :
    SortedMap.lookup key' (Json.orInsert key value fields) = SortedMap.lookup key' fields := by
  rw [Json.lookup_orInsert, if_neg h]

/-- Nothing that is there is replaced. -/
theorem lookup_harnessFields_of_some {key : String} {fields : List (String × Json)} {v : Json}
    (h : SortedMap.lookup key fields = some v) :
    SortedMap.lookup key (harnessFields protocol request nativeTools mcpTools fields) = some v := by
  have hfields := lookup_orInsert_of_some "stream" (.bool true)
    (lookup_orInsert_of_some "model" (.str request.model) h)
  unfold harnessFields
  split
  · exact lookup_orInsert_of_some _ _ hfields
  · exact hfields

/-- Nothing else is put there. -/
theorem lookup_harnessFields_of_not {key : String} {fields : List (String × Json)}
    (h : ¬ filledKey protocol nativeTools mcpTools key) :
    SortedMap.lookup key (harnessFields protocol request nativeTools mcpTools fields) =
      SortedMap.lookup key fields := by
  simp only [filledKey, not_or, not_and] at h
  obtain ⟨hmodel, hstream, htools, -⟩ := h
  unfold harnessFields
  split
  · next hoffered =>
    have hkey : key ≠ "tools" := fun heq => hoffered.elim (htools heq).1 (htools heq).2
    rw [lookup_orInsert_of_ne hkey, lookup_orInsert_of_ne hstream, lookup_orInsert_of_ne hmodel]
  · rw [lookup_orInsert_of_ne hstream, lookup_orInsert_of_ne hmodel]

/-- **The body belongs to the user.** A field that some body of configuration or request has is
sent as the one of the highest precedence has it; any other field is one of those filled in. -/
theorem buildBody_get (config : PiqoConfig) (protocol : ProviderProtocol) (request : RunRequest)
    (p : SessionProjection) (nativeTools : List NativeTool) (mcpTools : List McpToolDefinition)
    (body : Json) (key : String) (hbodies : DistinctBodies config request)
    (h : buildBody config protocol request p nativeTools mcpTools = .ok body) :
    match suppliedValue config request key with
    | some v => body.get key = some v
    | none => (body.get key).isSome = true → filledKey protocol nativeTools mcpTools key := by
  obtain ⟨fields, instructions, transcriptKey', transcript, hmerge, -, hfield, rfl⟩ :=
    buildBody_eq_ok h
  have hmerged := lookup_merged hbodies hmerge key
  cases hvalue : suppliedValue config request key with
  | some v =>
    rw [hvalue] at hmerged
    exact lookup_orInsert_of_some _ _ (lookup_harnessFields_of_some hmerged)
  | none =>
    intro hsome
    by_contra hkey
    have htranscript : key ≠ transcriptKey' := by
      rw [transcriptField_fst hfield]
      exact fun heq => hkey (.inr (.inr (.inr heq)))
    change (SortedMap.lookup key (Json.orInsert transcriptKey' transcript _)).isSome = true at hsome
    rw [lookup_orInsert_of_ne htranscript, lookup_harnessFields_of_not hkey, hmerged, hvalue] at hsome
    cases hsome

end Sent

/-- Defaults, and a request that replaces one of them. -/
def layeredConfig : PiqoConfig where
  defaults := { body := .obj [("temperature", .num 1), ("top_k", .num 40)] }

def layeredRequest : RunRequest where
  provider := "p"
  model := "m"
  input := .str "hi"
  agent := none
  variant := none
  body := .obj [("temperature", .num 2)]

/-- The request's value is sent, and the default that it does not replace. -/
theorem buildBody_get_layered :
    ∃ body, buildBody layeredConfig .chatCompletions layeredRequest (.new "s") [] [] = .ok body ∧
      body.get "temperature" = some (.num 2) ∧ body.get "top_k" = some (.num 40) := by
  have hbodies : DistinctBodies layeredConfig layeredRequest := by
    intro body hbody fields heq
    change body ∈ [layeredRequest.body, layeredConfig.defaults.body] at hbody
    simp only [List.mem_cons, List.not_mem_nil, or_false] at hbody
    rcases hbody with rfl | rfl
    · cases heq
      decide
    · cases heq
      decide
  refine ⟨_, rfl, ?_, ?_⟩
  · exact buildBody_get layeredConfig .chatCompletions layeredRequest (.new "s") [] [] _
      "temperature" hbodies rfl
  · exact buildBody_get layeredConfig .chatCompletions layeredRequest (.new "s") [] [] _
      "top_k" hbodies rfl

end Piqo
