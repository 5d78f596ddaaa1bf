import PiqoServer.Library.Overwriting
import PiqoServer.Server.ConfigManager

/-!
# Configured providers

What is made of the configuration of a provider (`piqo-server/src/config.rs`): the endpoints for
runs and for the catalog of models, the headers of a request, as `build_request_with_headers` in
`piqo-provider/src/transport.rs` puts them there, and the context budgets of models.

## Main definitions

* `endpoint`, `modelsEndpoint`: the URLs
* `ProviderConfig.resolve`, `buildRequestWithHeaders`: the headers
* `ModelContextConfig.Consistent`: limits of a model that go together

## Main results

* `endpoint_agrees_iff`: when runs and the catalog have the same root
* `requestHeaders_determined_iff`: when the headers do not depend on the order of a `HashMap`
* `contextBudget_usable_iff`: when every model has a budget
-/

namespace Piqo

/-! ## Endpoints -/

/-- `str::trim_start_matches`, with a text to remove. -/
def trimStartMatches (start : List Char) : Nat → List Char → List Char
  | 0, text => text
  | n + 1, text => match stripPrefix start text with
    | some text => trimStartMatches start n text
    | none => text

/-- `str::strip_suffix`. -/
def stripSuffix (suffix text : List Char) : Option (List Char) := suffix.isSuffixOf? text

/-- The path of the endpoint of a protocol. -/
def ProviderProtocol.suffix : ProviderProtocol → List Char
  | .chatCompletions => "/v1/chat/completions".toList
  | .responses => "/v1/responses".toList

/-- A base URL without slashes at its end. -/
def trimSlashes (baseUrl : String) : List Char := trimEndMatches (· == '/') baseUrl.toList

def endpoint (baseUrl : String) (protocol : ProviderProtocol) : String :=
  let base := trimSlashes baseUrl
  let suffix := protocol.suffix
  if suffix.isSuffixOf base then String.ofList base
  else if "/v1".toList.isSuffixOf base then
    String.ofList (base ++ trimStartMatches "/v1".toList suffix.length suffix)
  else String.ofList (base ++ suffix)

def modelsEndpoint (baseUrl : String) : String :=
  let base := trimSlashes baseUrl
  match [ProviderProtocol.chatCompletions, .responses].findSome? (stripSuffix ·.suffix base) with
  | some root => String.ofList (root ++ "/v1/models".toList)
  | none =>
    if "/v1".toList.isSuffixOf base then String.ofList (base ++ "/models".toList)
    else String.ofList (base ++ "/v1/models".toList)

example : endpoint "http://localhost:8000/v1" .chatCompletions =
    "http://localhost:8000/v1/chat/completions" := by decide

/-- The protocol that is not this one. -/
def ProviderProtocol.other : ProviderProtocol → ProviderProtocol
  | .chatCompletions => .responses
  | .responses => .chatCompletions

/-- Whether a text ends as the base URL of an API does: with the endpoint of a protocol, or with
`/v1`. -/
def UnderRoot (root base : List Char) : Prop :=
  (∃ protocol : ProviderProtocol, base = root ++ protocol.suffix) ∨ base = root ++ "/v1".toList

theorem stripSuffix_eq_some {suffix text rest : List Char} :
    stripSuffix suffix text = some rest ↔ text = rest ++ suffix := by
  rw [stripSuffix, List.isSuffixOf?_eq_some_iff_append_eq, eq_comm]

/-- The endpoints of two protocols, and `/v1`, all end differently. -/
theorem not_suffix_other {protocol : ProviderProtocol} {base : List Char}
    (h : protocol.suffix <:+ base) : ¬protocol.other.suffix <:+ base := by
  intro hother
  rcases List.suffix_or_suffix_of_suffix h hother with h | h <;> revert h <;>
    cases protocol <;> decide

theorem not_suffix_version {protocol : ProviderProtocol} {base : List Char}
    (h : "/v1".toList <:+ base) : ¬protocol.suffix <:+ base := by
  intro hprotocol
  rcases List.suffix_or_suffix_of_suffix h hprotocol with h | h <;> revert h <;>
    cases protocol <;> decide

theorem stripSuffix_eq_none {suffix text : List Char} :
    stripSuffix suffix text = none ↔ ¬suffix <:+ text := by
  rw [Option.eq_none_iff_forall_ne_some]
  constructor
  · rintro h ⟨rest, hrest⟩
    exact h rest (stripSuffix_eq_some.mpr hrest.symm)
  · rintro h rest hrest
    exact h ⟨rest, (stripSuffix_eq_some.mp hrest).symm⟩

theorem trimEndMatches_concat {p : Char → Bool} {c : Char} (h : p c = false)
    (text : List Char) : trimEndMatches p (text ++ [c]) = text ++ [c] := by
  have hc : ¬p c = true := by simp [h]
  rw [trimEndMatches, List.reverse_append, List.reverse_singleton, List.singleton_append,
    List.dropWhile_cons_of_neg hc, List.reverse_cons, List.reverse_reverse]

/-- The endpoint of a protocol does not end with a slash. -/
theorem suffix_eq_concat (protocol : ProviderProtocol) :
    ∃ front, protocol.suffix = front ++ ['s'] := by
  cases protocol with
  | chatCompletions => exact ⟨"/v1/chat/completion".toList, by decide⟩
  | responses => exact ⟨"/v1/response".toList, by decide⟩

theorem trimSlashes_suffix (root : List Char) (protocol : ProviderProtocol) :
    trimSlashes (String.ofList (root ++ protocol.suffix)) = root ++ protocol.suffix := by
  obtain ⟨front, hfront⟩ := suffix_eq_concat protocol
  rw [trimSlashes, String.toList_ofList, hfront, ← List.append_assoc,
    trimEndMatches_concat (by decide)]

/-- Where a run is sent: to the endpoint of its protocol, under some root. -/
theorem endpoint_cases (baseUrl : String) (protocol : ProviderProtocol) :
    ∃ root, endpoint baseUrl protocol = String.ofList (root ++ protocol.suffix) ∧
      (trimSlashes baseUrl = root ++ protocol.suffix ∨
        trimSlashes baseUrl = root ++ "/v1".toList ∨
        trimSlashes baseUrl = root ∧ ¬protocol.suffix <:+ root ∧ ¬"/v1".toList <:+ root) := by
  have htrim : "/v1".toList ++ trimStartMatches "/v1".toList protocol.suffix.length
      protocol.suffix = protocol.suffix := by
    cases protocol <;> decide
  unfold endpoint
  dsimp only
  split
  · next h =>
    obtain ⟨root, hroot⟩ := List.isSuffixOf_iff_suffix.mp h
    exact ⟨root, by rw [hroot], .inl hroot.symm⟩
  next hsuffix =>
  split
  · next h =>
    obtain ⟨root, hroot⟩ := List.isSuffixOf_iff_suffix.mp h
    exact ⟨root, by rw [← hroot, List.append_assoc, htrim], .inr (.inl hroot.symm)⟩
  · next hversion =>
    rw [List.isSuffixOf_iff_suffix] at hsuffix hversion
    exact ⟨_, rfl, .inr (.inr ⟨rfl, hsuffix, hversion⟩)⟩

/-- The catalog of a base URL with a root. -/
theorem modelsEndpoint_rooted {baseUrl : String} {root : List Char}
    (h : UnderRoot root (trimSlashes baseUrl)) :
    modelsEndpoint baseUrl = String.ofList (root ++ "/v1/models".toList) := by
  unfold modelsEndpoint
  rcases h with ⟨protocol, hbase⟩ | hbase
  · have hsome : stripSuffix protocol.suffix (trimSlashes baseUrl) = some root :=
      stripSuffix_eq_some.mpr hbase
    have hother : stripSuffix protocol.other.suffix (trimSlashes baseUrl) = none :=
      stripSuffix_eq_none.mpr (not_suffix_other ⟨root, hbase.symm⟩)
    cases protocol with
    | chatCompletions => simp only [List.findSome?_cons, hsome]
    | responses =>
      rw [ProviderProtocol.other] at hother
      simp only [List.findSome?_cons, hother, hsome]
  · have hversion : "/v1".toList <:+ trimSlashes baseUrl := ⟨root, hbase.symm⟩
    have hnone (protocol : ProviderProtocol) :
        stripSuffix protocol.suffix (trimSlashes baseUrl) = none :=
      stripSuffix_eq_none.mpr (not_suffix_version hversion)
    simp only [List.findSome?_cons, List.findSome?_nil, hnone,
      if_pos (List.isSuffixOf_iff_suffix.mpr hversion)]
    rw [hbase, List.append_assoc]
    rfl

/-- The catalog of a base URL without. -/
theorem modelsEndpoint_plain {baseUrl : String}
    (h : ∀ protocol : ProviderProtocol, ¬protocol.suffix <:+ trimSlashes baseUrl)
    (hversion : ¬"/v1".toList <:+ trimSlashes baseUrl) :
    modelsEndpoint baseUrl = String.ofList (trimSlashes baseUrl ++ "/v1/models".toList) := by
  have hnone (protocol : ProviderProtocol) :
      stripSuffix protocol.suffix (trimSlashes baseUrl) = none :=
    stripSuffix_eq_none.mpr (h protocol)
  unfold modelsEndpoint
  simp only [List.findSome?_cons, List.findSome?_nil, hnone]
  exact if_neg fun hsuffix => hversion (List.isSuffixOf_iff_suffix.mp hsuffix)

/-- Where a run is sent has its own root again. -/
theorem endpoint_idempotent (baseUrl : String) (protocol : ProviderProtocol) :
    endpoint (endpoint baseUrl protocol) protocol = endpoint baseUrl protocol := by
  obtain ⟨root, hroot, -⟩ := endpoint_cases baseUrl protocol
  have hsuffix : protocol.suffix.isSuffixOf (root ++ protocol.suffix) = true :=
    List.isSuffixOf_iff_suffix.mpr (List.suffix_append _ _)
  rw [hroot]
  unfold endpoint
  rw [trimSlashes_suffix]
  exact if_pos hsuffix

/-- **Runs and the catalog have the same root exactly when the base URL is not the endpoint of the
other protocol.** -/
theorem endpoint_agrees_iff (baseUrl : String) (protocol : ProviderProtocol) :
    endpoint (endpoint baseUrl protocol) protocol = endpoint baseUrl protocol ∧
        modelsEndpoint (endpoint baseUrl protocol) = modelsEndpoint baseUrl ↔
      ¬protocol.other.suffix <:+ trimSlashes baseUrl := by
  rw [and_iff_right (endpoint_idempotent baseUrl protocol)]
  obtain ⟨root, hroot, hbase⟩ := endpoint_cases baseUrl protocol
  have hcatalog : modelsEndpoint (endpoint baseUrl protocol) =
      String.ofList (root ++ "/v1/models".toList) := by
    refine modelsEndpoint_rooted (.inl ⟨protocol, ?_⟩)
    rw [hroot, trimSlashes_suffix]
  rw [hcatalog]
  rcases hbase with hbase | hbase | ⟨hbase, hsuffix, hversion⟩
  · rw [modelsEndpoint_rooted (.inl ⟨protocol, hbase⟩)]
    exact iff_of_true rfl (not_suffix_other ⟨root, hbase.symm⟩)
  · rw [modelsEndpoint_rooted (.inr hbase)]
    exact iff_of_true rfl (not_suffix_version ⟨root, hbase.symm⟩)
  · rw [hbase]
    constructor
    · -- the catalog's root is shorter by the endpoint of the other protocol
      rintro heq ⟨front, hfront⟩
      rw [modelsEndpoint_rooted (.inl ⟨protocol.other, hbase.trans hfront.symm⟩)] at heq
      have hsame := List.append_cancel_right (String.ofList_injective heq)
      have hlength := congrArg List.length (hfront.trans hsame)
      rw [List.length_append] at hlength
      obtain ⟨last, hlast⟩ := suffix_eq_concat protocol.other
      have hpos := congrArg List.length hlast
      simp at hpos
      omega
    · intro hother
      rw [modelsEndpoint_plain ?_ (hbase ▸ hversion), hbase]
      intro some
      rw [hbase]
      cases protocol <;> cases some
      · exact hsuffix
      · exact hother
      · exact hother
      · exact hsuffix

theorem endpoint_disagrees :
    modelsEndpoint (endpoint "http://localhost/v1/responses" .chatCompletions) ≠
      modelsEndpoint "http://localhost/v1/responses" := by
  decide

/-! ## Headers -/

/-- The errors of `resolve`. -/
inductive ResolveFailure where
  | config (e : ConfigError)
  | missingCredential (provider envVariable : String)
  deriving DecidableEq

structure ProviderConfig.Resolved where
  name : String
  endpoint : String
  modelsEndpoint : String
  protocol : ProviderProtocol
  headers : SortedMap String String
  connectTimeoutSeconds : Nat

/-- The API key, from the configuration or the environment. -/
def ProviderConfig.credential (env : String → Option String) (provider : ProviderConfig) :
    Option String :=
  provider.apiKey.or (provider.apiKeyEnv.bind env)

/-- The configured headers, with the API key where none has the name `authorization`. -/
def ProviderConfig.authorized (env : String → Option String) (name : String)
    (provider : ProviderConfig) : Except ResolveFailure (SortedMap String String) :=
  match provider.credential env, provider.apiKeyEnv with
  | some key, _ => .ok (if provider.headers.contains "authorization" then provider.headers
      else provider.headers.insert "authorization" ("Bearer " ++ key))
  | none, some var => .error (.missingCredential name var)
  | none, none => .ok provider.headers

def ProviderConfig.resolve (env : String → Option String) (name : String)
    (provider : ProviderConfig) : Except ResolveFailure ProviderConfig.Resolved := do
  if provider.apiKey.isSome && provider.apiKeyEnv.isSome then
    .error (.config (.conflictingCredentials name))
  let protocol ← (ProviderProtocol.parse provider.protocol).mapError
    fun source => .config (.invalidProtocol name source)
  let headers ← provider.authorized env name
  .ok {
    name
    endpoint := Piqo.endpoint provider.baseUrl protocol
    modelsEndpoint := Piqo.modelsEndpoint provider.baseUrl
    protocol
    headers
    connectTimeoutSeconds := max provider.connectTimeoutSeconds 1 }

/-- The errors of building a request. -/
inductive ProviderTransportError where
  | http (source : String)
  | invalidHeader (reason : String)
  deriving DecidableEq

/-- The name of a header as a request has it. -/
def toAsciiLowercase (name : String) : String := String.ofList (name.toList.map Char.toLower)

/-- Put headers into a request, one after another. -/
def insertHeaders (crates : ConfigCrates) : List (String × String) → SortedMap String String →
    Except ProviderTransportError (SortedMap String String)
  | [], request => .ok request
  | (name, value) :: headers, request => do
    (crates.headerName name).mapError fun _ => .invalidHeader "invalid name"
    (crates.headerValue value).mapError fun _ => .invalidHeader "invalid value"
    insertHeaders crates headers (request.insert (toAsciiLowercase name) value)

/-- The headers of the request to an endpoint, from those that the client gives it; `headers` are
the configured ones in the order of their map. -/
def buildRequestWithHeaders (crates : ConfigCrates)
    (post : String → Json → Except String (SortedMap String String)) (endpoint : String)
    (body : Json) (headers : List (String × String)) :
    Except ProviderTransportError (SortedMap String String) := do
  let request ← (post endpoint body).mapError .http
  insertHeaders crates headers request

/-- A header under the name that a request has it. -/
def sentHeader (header : String × String) : String × String :=
  (toAsciiLowercase header.1, header.2)

theorem insertHeaders_eq_ok {crates : ConfigCrates} {headers : List (String × String)}
    {own request : SortedMap String String} :
    insertHeaders crates headers own = .ok request ↔
      (∀ header ∈ headers, crates.headerName header.1 = .ok () ∧
        crates.headerValue header.2 = .ok ()) ∧
      request = own.writeAll (headers.map sentHeader) := by
  induction headers generalizing own with
  | nil => simp [insertHeaders, SortedMap.writeAll, eq_comm]
  | cons header headers ih =>
    rw [insertHeaders]
    simp only [bind, Except.bind_eq_ok, Except.mapError_eq_ok, ih, List.forall_mem_cons]
    constructor
    · rintro ⟨_, hname, _, hvalue, hrest, rfl⟩
      exact ⟨⟨⟨hname, hvalue⟩, hrest⟩, rfl⟩
    · rintro ⟨⟨⟨hname, hvalue⟩, hrest⟩, rfl⟩
      exact ⟨(), hname, (), hvalue, hrest, rfl⟩

section Headers

variable {crates : ConfigCrates} {post : String → Json → Except String (SortedMap String String)}
  {env : String → Option String} {name : String} {body : Json} {provider : ProviderConfig}
  {resolved : ProviderConfig.Resolved}

/-- The request with the headers in some order of their map. -/
def Built (crates : ConfigCrates)
    (post : String → Json → Except String (SortedMap String String)) (body : Json)
    (resolved : ProviderConfig.Resolved) (request : SortedMap String String) : Prop :=
  ∃ order, order.Perm resolved.headers.entries ∧
    buildRequestWithHeaders crates post resolved.endpoint body order = .ok request

/-- The authorization of a request is the configured one, else the API key. -/
def ProviderConfig.Authorizes (env : String → Option String) (provider : ProviderConfig)
    (request : SortedMap String String) : Prop :=
  (∀ header ∈ provider.headers.entries, toAsciiLowercase header.1 = "authorization" →
    request.get? "authorization" = some header.2) ∧
  ((∀ header ∈ provider.headers.entries, toAsciiLowercase header.1 ≠ "authorization") →
    ∀ key, provider.credential env = some key →
      request.get? "authorization" = some ("Bearer " ++ key))

/-- Headers whose names differ in case only have one value, and so has the API key where it is put
beside a configured authorization. -/
def ProviderConfig.Unambiguous (env : String → Option String) (provider : ProviderConfig) : Prop :=
  SortedMap.Agreeing (provider.headers.entries.map sentHeader) ∧
  ∀ key, provider.credential env = some key → provider.headers.contains "authorization" = false →
    ∀ header ∈ provider.headers.entries, toAsciiLowercase header.1 = "authorization" →
      header.2 = "Bearer " ++ key

theorem resolve_eq_ok (h : provider.resolve env name = .ok resolved) :
    provider.authorized env name = .ok resolved.headers := by
  unfold ProviderConfig.resolve at h
  split at h
  · cases h
  · obtain ⟨protocol, -, h⟩ := Except.bind_eq_ok.mp h
    obtain ⟨headers, hheaders, h⟩ := Except.bind_eq_ok.mp h
    cases h
    exact hheaders

/-- The headers of a resolved provider: the configured ones, and the API key if it is put there. -/
theorem authorized_cases {headers : SortedMap String String}
    (h : provider.authorized env name = .ok headers) :
    (headers = provider.headers ∧ ∀ key, provider.credential env = some key →
        provider.headers.contains "authorization" = true) ∨
      ∃ key, provider.credential env = some key ∧
        provider.headers.contains "authorization" = false ∧
        headers = provider.headers.insert "authorization" ("Bearer " ++ key) := by
  unfold ProviderConfig.authorized at h
  split at h
  · next key hkey =>
    split at h
    · next hcontains =>
      cases h
      exact .inl ⟨rfl, fun _ _ => hcontains⟩
    · next hcontains =>
      cases h
      exact .inr ⟨key, hkey, Bool.eq_false_iff.mpr hcontains, rfl⟩
  · cases h
  · next hnone _ =>
    cases h
    exact .inl ⟨rfl, fun key hkey => by rw [hnone] at hkey; cases hkey⟩

theorem mem_entries_insert {m : SortedMap String String} {key value : String}
    (h : m.contains key = false) {header : String × String} :
    header ∈ (m.insert key value).entries ↔ header = (key, value) ∨ header ∈ m.entries := by
  obtain ⟨k, v⟩ := header
  rw [← SortedMap.get?_eq_some_iff, ← SortedMap.get?_eq_some_iff, SortedMap.get?_insert]
  have hnone := (SortedMap.contains_eq_false_iff m key).mp h
  by_cases hk : k = key
  · rw [if_pos hk, hk, hnone]
    simp [eq_comm]
  · rw [if_neg hk]
    simp [hk]

/-- What `Unambiguous` says of the resolved headers. -/
theorem agreeing_resolved_iff (h : provider.authorized env name = .ok resolved.headers) :
    SortedMap.Agreeing (resolved.headers.entries.map sentHeader) ↔ provider.Unambiguous env := by
  unfold ProviderConfig.Unambiguous
  rcases authorized_cases h with ⟨heq, hcontains⟩ | ⟨key, hkey, hcontains, heq⟩
  · rw [heq]
    refine (and_iff_left fun key hkey hfalse => ?_).symm
    rw [hcontains key hkey] at hfalse
    cases hfalse
  · have hname : toAsciiLowercase "authorization" = "authorization" := by decide
    have hmem (header : String × String) :
        header ∈ resolved.headers.entries ↔
          header = ("authorization", "Bearer " ++ key) ∨ header ∈ provider.headers.entries := by
      rw [heq]
      exact mem_entries_insert hcontains
    simp only [SortedMap.Agreeing, List.forall_mem_map, sentHeader]
    constructor
    · intro hagree
      refine ⟨fun e he f hf => hagree e ((hmem e).mpr (.inr he)) f ((hmem f).mpr (.inr hf)), ?_⟩
      intro key' hkey' _ header hheader hlower
      obtain rfl := Option.some.inj (hkey.symm.trans hkey')
      exact hagree header ((hmem _).mpr (.inr hheader)) _ ((hmem _).mpr (.inl rfl))
        (hlower.trans hname.symm)
    · rintro ⟨hagree, hbeside⟩ e he f hf hsame
      rcases (hmem e).mp he with rfl | he <;> rcases (hmem f).mp hf with rfl | hf
      · rfl
      · exact (hbeside key hkey hcontains f hf (hsame.symm.trans hname)).symm
      · exact hbeside key hkey hcontains e he (hsame.trans hname)
      · exact hagree e he f hf hsame

/-- Every order of the headers builds a request if one does, all from the same headers of the
client. -/
theorem built_iff {request : SortedMap String String}
    (h : Built crates post body resolved request) :
    ∃ own : SortedMap String String, ∀ request', Built crates post body resolved request' ↔
      ∃ order : List (String × String), order.Perm resolved.headers.entries ∧
        request' = own.writeAll (order.map sentHeader) := by
  obtain ⟨order, horder, hbuild⟩ := h
  obtain ⟨own, hown, hinsert⟩ := Except.bind_eq_ok.mp hbuild
  obtain ⟨hvalid, -⟩ := insertHeaders_eq_ok.mp hinsert
  refine ⟨own, fun request' => ?_⟩
  constructor
  · rintro ⟨order', horder', hbuild'⟩
    obtain ⟨own', hown', hinsert'⟩ := Except.bind_eq_ok.mp hbuild'
    obtain rfl := Except.ok.inj (hown.symm.trans hown')
    exact ⟨order', horder', (insertHeaders_eq_ok.mp hinsert').2⟩
  · rintro ⟨order', horder', rfl⟩
    refine ⟨order', horder', Except.bind_eq_ok.mpr ⟨own, hown, ?_⟩⟩
    refine insertHeaders_eq_ok.mpr ⟨fun header hheader => hvalid header ?_, rfl⟩
    exact horder.mem_iff.mpr (horder'.mem_iff.mp hheader)

/-- Headers that do not depend on the order are the configured ones. -/
theorem authorizes_of_agreeing (h : provider.authorized env name = .ok resolved.headers)
    (hagree : SortedMap.Agreeing (resolved.headers.entries.map sentHeader))
    {own : SortedMap String String} {order : List (String × String)}
    (horder : order.Perm resolved.headers.entries) :
    provider.Authorizes env (own.writeAll (order.map sentHeader)) := by
  have hread (header : String × String) (hheader : header ∈ resolved.headers.entries)
      (hlower : toAsciiLowercase header.1 = "authorization") :
      (own.writeAll (order.map sentHeader)).get? "authorization" = some header.2 := by
    have hsent : sentHeader header ∈ order.map sentHeader :=
      List.mem_map_of_mem (horder.mem_iff.mpr hheader)
    have hget := SortedMap.get?_writeAll_of_mem (m := own) (hagree.perm (horder.map sentHeader)) hsent
    rwa [sentHeader, hlower] at hget
  have hname : toAsciiLowercase "authorization" = "authorization" := by decide
  rcases authorized_cases h with ⟨heq, hcontains⟩ | ⟨key, hkey, hcontains, heq⟩
  · refine ⟨fun header hheader => hread header (heq ▸ hheader), fun hnone key hkey => ?_⟩
    -- a key that is not put there stands beside a header of that very name
    obtain ⟨value, hvalue⟩ := (SortedMap.contains_iff _ _).mp (hcontains key hkey)
    exact absurd hname (hnone _ ((SortedMap.get?_eq_some_iff _).mp hvalue))
  · rw [heq] at hread
    refine ⟨fun header hheader => hread header ((mem_entries_insert hcontains).mpr (.inr hheader)),
      fun _ key' hkey' => ?_⟩
    obtain rfl := Option.some.inj (hkey.symm.trans hkey')
    exact hread _ ((mem_entries_insert hcontains).mpr (.inl rfl)) hname

/-- **The headers of a request are determined by the configuration exactly when it is
unambiguous**: the authorization is the configured one, else the API key, and the order in which
the map is read does not matter. -/
theorem requestHeaders_determined_iff (hresolve : provider.resolve env name = .ok resolved)
    {request : SortedMap String String} (hbuilt : Built crates post body resolved request) :
    (∀ one, Built crates post body resolved one → provider.Authorizes env one ∧
      ∀ two, Built crates post body resolved two → one = two) ↔ provider.Unambiguous env := by
  have hheaders := resolve_eq_ok hresolve
  obtain ⟨own, hown⟩ := built_iff hbuilt
  rw [← agreeing_resolved_iff hheaders]
  constructor
  · intro h
    refine (SortedMap.writeAll_perm_iff (m := own)).mp fun fs gs hfs hgs => ?_
    exact (h _ ((hown _).mpr ⟨fs, hfs, rfl⟩)).2 _ ((hown _).mpr ⟨gs, hgs, rfl⟩)
  · intro hagree one hone
    obtain ⟨order, horder, rfl⟩ := (hown one).mp hone
    refine ⟨authorizes_of_agreeing hheaders hagree horder, fun two htwo => ?_⟩
    obtain ⟨order', horder', rfl⟩ := (hown two).mp htwo
    exact SortedMap.writeAll_perm_iff.mpr hagree _ _ horder horder'

/-- An API key beside a header that is an authorization in other letters. -/
def keyedProvider : ProviderConfig where
  baseUrl := "http://localhost:11434"
  apiKey := some "b"
  headers := (∅ : SortedMap String String).insert "Authorization" "Token a"

/-- The same without the header. -/
def plainProvider : ProviderConfig := { keyedProvider with headers := ∅ }

def resolvedOf (headers : SortedMap String String) : ProviderConfig.Resolved where
  name := "local"
  endpoint := "http://localhost:11434/v1/chat/completions"
  modelsEndpoint := "http://localhost:11434/v1/models"
  protocol := .chatCompletions
  headers := headers
  connectTimeoutSeconds := 10

/-- The headers that a client gives a JSON body. -/
def postJson (_ : String) (_ : Json) : Except String (SortedMap String String) :=
  .ok ((∅ : SortedMap String String).insert "content-type" "application/json")

/-- A key alone is the authorization. -/
theorem requestHeaders_determined_key :
    plainProvider.Authorizes (fun _ => none)
      (((∅ : SortedMap String String).insert "content-type" "application/json").insert
        "authorization" "Bearer b") := by
  have hresolve : plainProvider.resolve (fun _ => none) "local" = .ok (resolvedOf
      ((∅ : SortedMap String String).insert "authorization" "Bearer b")) := by
    rfl
  have hbuilt : Built ConfigManager.localCrates postJson .null (resolvedOf
      ((∅ : SortedMap String String).insert "authorization" "Bearer b"))
      (((∅ : SortedMap String String).insert "content-type" "application/json").insert
        "authorization" "Bearer b") :=
    ⟨_, .refl _, rfl⟩
  have hunambiguous : plainProvider.Unambiguous fun _ => none :=
    ⟨fun e he => absurd he (List.not_mem_nil (a := e)),
      fun _ _ _ header hheader => absurd hheader (List.not_mem_nil (a := header))⟩
  exact ((requestHeaders_determined_iff hresolve hbuilt).mpr hunambiguous _ hbuilt).1

/-- With the header, the authorization depends on the order of the map. -/
theorem requestHeaders_undetermined :
    keyedProvider.validate ConfigManager.localCrates "local" = .ok () ∧
    ∃ resolved, keyedProvider.resolve (fun _ => none) "local" = .ok resolved ∧
    ∃ one two, Built ConfigManager.localCrates postJson .null resolved one ∧
      Built ConfigManager.localCrates postJson .null resolved two ∧
      one.get? "authorization" = some "Bearer b" ∧ two.get? "authorization" = some "Token a" := by
  refine ⟨by decide +kernel, resolvedOf (keyedProvider.headers.insert "authorization" "Bearer b"),
    rfl, ?_⟩
  refine ⟨_, _, ⟨[("Authorization", "Token a"), ("authorization", "Bearer b")], ?_, rfl⟩,
    ⟨[("authorization", "Bearer b"), ("Authorization", "Token a")], ?_, rfl⟩, ?_, ?_⟩
  · exact .refl _
  · exact .swap _ _ _
  · decide +kernel
  · decide +kernel

end Headers

/-! ## Context budgets -/

/-- The limits configured for a model go together, where one is missing with the fallback. -/
def ModelContextConfig.Consistent (context : ContextConfig) (entry : ModelContextConfig) : Prop :=
  match entry.contextWindowTokens, entry.outputReserveTokens with
  | some window, some reserve => 0 < reserve ∧ reserve < window
  | some window, none => context.fallbackOutputReserveTokens < window
  | none, some reserve => 0 < reserve ∧ reserve < context.fallbackContextWindowTokens
  | none, none => True

/-- A budget with which a run can start. -/
def UsableBudget (result : Except String ResolvedContextBudget) : Prop :=
  ∃ budget, result = .ok budget ∧ 0 < budget.outputReserveTokens ∧
    budget.outputReserveTokens < budget.contextWindowTokens

theorem ServerConfig.contextValid_of_validate {crates : ConfigCrates} {config : ServerConfig}
    (h : config.validate crates = .ok ()) : config.toPiqoConfig.contextValid = true := by
  iterate 5 obtain ⟨⟨⟩, -, h⟩ := Except.bind_eq_ok.mp h
  obtain ⟨⟨⟩, hcontext, -⟩ := Except.bind_eq_ok.mp h
  exact (Except.ite_ok_eq_ok.mp hcontext).1

/-- The fallback is a budget. -/
theorem PiqoConfig.fallback_of_contextValid {config : PiqoConfig} (h : config.contextValid = true) :
    0 < config.context.fallbackOutputReserveTokens ∧
      config.context.fallbackOutputReserveTokens < config.context.fallbackContextWindowTokens := by
  obtain ⟨-, hreserve, hlt, -⟩ := of_decide_eq_true h
  exact ⟨Nat.pos_of_ne_zero hreserve, hlt⟩

/-- The budget of a model without metadata: what is configured for it, else the fallback. -/
theorem usableBudget_none {config : PiqoConfig} {name model : String}
    {provider : ProviderContextConfig} (h : config.providerContexts.get? name = some provider) :
    UsableBudget (config.contextBudget name model none) ↔
      let configured := provider.models.get? model
      let window := (configured.bind (·.contextWindowTokens)).getD
        config.context.fallbackContextWindowTokens
      let reserve := (configured.bind (·.outputReserveTokens)).getD
        config.context.fallbackOutputReserveTokens
      0 < reserve ∧ reserve < window := by
  have hmetadata (pointer : Option String) : metadataLimit none pointer = none := by
    cases pointer <;> rfl
  unfold PiqoConfig.contextBudget UsableBudget
  simp only [h, hmetadata, Option.none_or, Except.ite_error_eq_ok, Nat.not_le]
  constructor
  · rintro ⟨budget, ⟨hlt, heq⟩, hpos, -⟩
    cases heq
    exact ⟨hpos, hlt⟩
  · rintro ⟨hpos, hlt⟩
    exact ⟨_, ⟨hlt, rfl⟩, hpos, hlt⟩

/-- Whether the configured limits of a model make a budget, by what is configured. -/
theorem consistent_iff {context : ContextConfig} {entry : ModelContextConfig}
    (h : 0 < context.fallbackOutputReserveTokens ∧
      context.fallbackOutputReserveTokens < context.fallbackContextWindowTokens) :
    0 < entry.outputReserveTokens.getD context.fallbackOutputReserveTokens ∧
        entry.outputReserveTokens.getD context.fallbackOutputReserveTokens <
          entry.contextWindowTokens.getD context.fallbackContextWindowTokens ↔
      entry.Consistent context := by
  obtain ⟨window, reserve⟩ := entry
  unfold ModelContextConfig.Consistent
  cases window <;> cases reserve <;> simp [h.1, h.2]

/-- **Every model of an accepted configuration has a usable budget exactly when the configured
limits of each model go together.** -/
theorem contextBudget_usable_iff {crates : ConfigCrates} {config : ServerConfig}
    (hvalid : config.validate crates = .ok ()) :
    (∀ name ∈ config.providers.keys, ∀ model,
        UsableBudget (config.toPiqoConfig.contextBudget name model none)) ↔
      ∀ provider ∈ config.providers.values, ∀ entry ∈ provider.context.models.values,
        entry.Consistent config.context := by
  have hfallback : 0 < config.context.fallbackOutputReserveTokens ∧
      config.context.fallbackOutputReserveTokens < config.context.fallbackContextWindowTokens :=
    PiqoConfig.fallback_of_contextValid (ServerConfig.contextValid_of_validate hvalid)
  have hcontext {name : String} {provider : ProviderConfig}
      (h : config.providers.get? name = some provider) :
      config.toPiqoConfig.providerContexts.get? name = some provider.context := by
    show (config.providers.mapValues (·.context)).get? name = _
    rw [SortedMap.get?_mapValues, h]
    rfl
  constructor
  · intro h provider hprovider entry hentry
    obtain ⟨name, hname⟩ := (SortedMap.mem_values_iff _).mp hprovider
    obtain ⟨model, hmodel⟩ := (SortedMap.mem_values_iff _).mp hentry
    have hbudget := (usableBudget_none (hcontext hname)).mp
      (h name ((SortedMap.mem_keys_iff _).mpr ⟨_, hname⟩) model)
    dsimp only at hbudget
    rw [hmodel] at hbudget
    exact (consistent_iff hfallback).mp hbudget
  · intro h name hname model
    obtain ⟨provider, hprovider⟩ := (SortedMap.mem_keys_iff _).mp hname
    rw [usableBudget_none (hcontext hprovider)]
    dsimp only
    cases hmodel : provider.context.models.get? model with
    | none => exact hfallback
    | some entry =>
      refine (consistent_iff hfallback).mpr (h provider ?_ entry ?_)
      · exact (SortedMap.mem_values_iff _).mpr ⟨name, hprovider⟩
      · exact (SortedMap.mem_values_iff _).mpr ⟨model, hmodel⟩

/-- A provider with limits for one model. -/
def limitedProvider (entry : ModelContextConfig) : ProviderConfig where
  baseUrl := "http://localhost:11434"
  context := { models := (∅ : SortedMap String ModelContextConfig).insert "small" entry }

def limitedConfig (entry : ModelContextConfig) : ServerConfig where
  providers := (∅ : SortedMap String ProviderConfig).insert "local" (limitedProvider entry)

/-- A reserve below the fallback window. -/
theorem contextBudget_usable_reserve :
    UsableBudget ((limitedConfig { outputReserveTokens := some 4096 }).toPiqoConfig.contextBudget
      "local" "small" none) := by
  have hvalid : (limitedConfig { outputReserveTokens := some 4096 }).validate
      ConfigManager.localCrates = .ok () := by
    decide +kernel
  refine (contextBudget_usable_iff hvalid).mpr ?_ "local" (by decide +kernel) "small"
  intro provider hprovider entry hentry
  obtain rfl : provider = limitedProvider { outputReserveTokens := some 4096 } :=
    List.mem_singleton.mp hprovider
  obtain rfl : entry = { outputReserveTokens := some 4096 } := List.mem_singleton.mp hentry
  show 0 < 4096 ∧ 4096 < 131072
  decide

/-- A window below the fallback reserve, accepted. -/
theorem contextBudget_unusable :
    (limitedConfig { contextWindowTokens := some 8192 }).validate ConfigManager.localCrates = .ok () ∧
    ¬UsableBudget ((limitedConfig { contextWindowTokens := some 8192 }).toPiqoConfig.contextBudget
      "local" "small" none) := by
  refine ⟨by decide +kernel, ?_⟩
  rintro ⟨budget, h, -⟩
  have herror : (limitedConfig { contextWindowTokens := some 8192 }).toPiqoConfig.contextBudget
      "local" "small" none = .error ("invalid provider configuration: context output reserve " ++
        "exceeds context window for local/small") := by
    decide +kernel
  rw [herror] at h
  cases h

end Piqo
