import LlmGateway.Gateway
import LlmGateway.ToolList

/-!
# Parameters in shorthand

An executor may give the parameters of a tool as a map from their names to their types.  Two functions turn this
into the schema that a backend sees: the handler of the registration, which takes a map with a key `type` for a
schema given in full, and `tools_json`, which fills in what a schema must have.

So a tool with a parameter named `type` is stored as it is given, and `tools_json` finds no properties in it and
puts none there.  `shorthand_published_iff`: the parameters are published as they were given exactly if none of
them is named `type`.
-/

namespace LlmGateway

variable {ν : Type}

namespace ToolRegistry

/-! ## What is published -/

/-- The properties in the schema of a function. -/
def propertiesOf (f : Json ν) : Option (Json ν) :=
  ((f.member "function").bind (Json.member · "parameters")).bind (Json.member · "properties")

/-- The properties of the function are the parameters, each with its type. -/
def Publishes (f : Json ν) (ps : List (Str × Str)) : Prop :=
  ∃ props, propertiesOf f = some (.object props) ∧ (props.map Prod.fst).Perm (ps.map Prod.fst) ∧
    ∀ p ∈ ps, (props.lookup p.1).bind (Json.member · "type") = some (.string p.2)

section Schema

variable (lib : JsonLib ν)

/-- The properties that `tools_json` publishes: those of the text, if it has an object there. -/
theorem propertiesOf_functionJson (e : ToolEntry) : propertiesOf (functionJson lib e) =
    if ((params lib e.tool.parametersJson).lookup (str "properties")).any isObject then
      (params lib e.tool.parametersJson).lookup (str "properties")
    else some (.object []) := by
  have hschema : propertiesOf (functionJson lib e) =
      (schema lib e.tool.parametersJson).member "properties" := rfl
  have hrequired : str "properties" ≠ str "required" := by decide
  have htype : str "properties" ≠ str "type" := by decide
  rw [hschema, schema, Json.member]
  simp only [lookup_fill, hrequired, htype, false_and, if_false, true_and]
  by_cases hobject : ((params lib e.tool.parametersJson).lookup (str "properties")).any isObject = true
  · rw [if_pos hobject, if_neg (by simp [hobject])]
  · rw [if_neg hobject, if_pos (by simpa using hobject)]

end Schema

theorem mem_addLoop (tool : ToolDef) (source : Str) (es : List ToolEntry) :
    ⟨tool, source⟩ ∈ addLoop tool source es := by
  induction es with
  | nil => exact List.mem_singleton_self _
  | cons e es ih =>
      rw [addLoop]
      split_ifs with h
      · rw [← h.2]
        exact List.mem_cons_self
      · exact List.mem_cons_of_mem _ ih

end ToolRegistry

namespace Gateway

open ToolRegistry

/-! ## What is stored -/

/-- The parameters in shorthand, with their names and types. -/
def shorthand (ps : List (Str × Str)) : Json ν := .object (ps.map fun p => (p.1, .string p.2))

/-- A tool with a name and a description, whose parameters are given in shorthand. -/
structure ShorthandTool (t : Json ν) (ps : List (Str × Str)) : Prop where
  name : ∃ name, toolName t = some name ∧ name ≠ []
  description : (t.value "description" Json.getString []).isSome
  parameters : t.member "parameters" = some (shorthand ps)
  distinct : (ps.map Prod.fst).Nodup

variable {ps : List (Str × Str)}

theorem lookup_shorthand (f : Str → Json ν) (ps : List (Str × Str)) (k : Str) :
    (ps.map fun p => (p.1, f p.2)).lookup k = (ps.lookup k).map f := by
  induction ps with
  | nil => rfl
  | cons p ps ih =>
      rw [List.map_cons, Json.lookup_cons_eq, Json.lookup_cons_eq, ih]
      split_ifs <;> rfl

theorem lookup_isSome_iff {k : Str} : (ps.lookup k).isSome ↔ k ∈ ps.map Prod.fst := by
  rw [List.lookup_isSome_iff, List.mem_map]
  refine exists_congr fun p => and_congr_right fun _ => ?_
  rw [beq_iff_eq, eq_comm]

/-- The schema of parameters none of which is named `type`. -/
theorem parameterSchema_shorthand (h : str "type" ∉ ps.map Prod.fst) :
    parameterSchema (shorthand ps : Json ν) = .object (Json.members [
      (str "type", .string (str "object")),
      (str "properties", .object (Json.members (ps.map fun p =>
        (p.1, .object [(str "type", .string p.2)]))))]) := by
  have hmember : (shorthand ps : Json ν).member "type" = none := by
    rw [shorthand, Json.member, lookup_shorthand, Option.map_eq_none_iff, ← Option.not_isSome_iff_eq_none,
      lookup_isSome_iff]
    exact h
  rw [parameterSchema, hmember]
  simp only [shorthand, Json.items, List.map_map]
  rfl

/-- With a parameter named `type` the map is taken as it is. -/
theorem parameterSchema_of_type (h : str "type" ∈ ps.map Prod.fst) :
    parameterSchema (shorthand ps : Json ν) = shorthand ps := by
  obtain ⟨type, htype⟩ := Option.isSome_iff_exists.1 (lookup_isSome_iff.2 h)
  have hmember : (shorthand ps : Json ν).member "type" = some (.string type) := by
    rw [shorthand, Json.member, lookup_shorthand, htype, Option.map_some]
  rw [parameterSchema, hmember]

variable (platform : GatewayPlatform ν) (conn : ConnId) (sessionId : Str)

/-- A tool with parameters in shorthand is stored with the text of their schema. -/
theorem mem_entries_addTool {t : Json ν} (ht : ShorthandTool t ps) {text : Str}
    (htext : platform.json.dump (parameterSchema (shorthand ps)) = some text) (g : Gateway ν) :
    ∃ e ∈ (addTool platform conn sessionId t g).state.toolRegistry.entries,
      e.source = sourceOf sessionId ∧ toolName t = some e.tool.name ∧ e.tool.parametersJson = text := by
  obtain ⟨name, hname, hne⟩ := ht.name
  obtain ⟨description, hdescription⟩ := Option.isSome_iff_exists.1 ht.description
  have hparameters : parametersText platform t = some text := by
    rw [parametersText, ht.parameters]
    exact htext
  refine ⟨⟨⟨name, description, text⟩, sourceOf sessionId⟩, ?_, rfl, hname, rfl⟩
  unfold addTool
  rw [hname]
  dsimp only
  rw [if_neg hne, hdescription, hparameters]
  exact mem_addLoop _ _ _

/-! ## What is published -/

/-- The members that `tools_json` reads back from the text of a schema. -/
theorem params_of_roundTrips {lib : JsonLib ν} {m : List (Str × Json ν)} {text : Str}
    (hparse : lib.parse text = some (.object m)) (hne : text ≠ []) : params lib text = m := by
  rw [params, if_neg hne, hparse]

/-- The schema of parameters none of which is named `type` has them as its properties. -/
theorem publishes_of_not_type {lib : JsonLib ν} {e : ToolEntry} (hps : (ps.map Prod.fst).Nodup)
    (h : str "type" ∉ ps.map Prod.fst)
    (hparse : lib.parse e.tool.parametersJson = some (parameterSchema (shorthand ps)))
    (hne : e.tool.parametersJson ≠ []) : Publishes (functionJson lib e) ps := by
  rw [parameterSchema_shorthand h] at hparse
  have hkeys : ((ps.map fun p => (p.1, (.object [(str "type", .string p.2)] : Json ν))).map Prod.fst) =
      ps.map Prod.fst := by
    rw [List.map_map]
    rfl
  have hdistinct : ((ps.map fun p => (p.1, (.object [(str "type", .string p.2)] : Json ν))).map
      Prod.fst).Nodup := by rwa [hkeys]
  refine ⟨Json.members (ps.map fun p => (p.1, .object [(str "type", .string p.2)])), ?_, ?_, fun p hp => ?_⟩
  · rw [propertiesOf_functionJson, params_of_roundTrips hparse hne]
    rfl
  · rw [← hkeys]
    exact (Json.members_perm hdistinct).map Prod.fst
  · have hp' : ps.lookup p.1 = some p.2 := (Json.lookup_iff_mem hps).2 hp
    rw [Json.lookup_members hdistinct, lookup_shorthand fun type => .object [(str "type", .string type)], hp']
    rfl

/-- With a parameter named `type` no property is published. -/
theorem not_publishes_of_type {lib : JsonLib ν} {e : ToolEntry} (h : str "type" ∈ ps.map Prod.fst)
    (hparse : lib.parse e.tool.parametersJson = some (parameterSchema (shorthand ps)))
    (hne : e.tool.parametersJson ≠ []) : ¬Publishes (functionJson lib e) ps := by
  rw [parameterSchema_of_type h, shorthand] at hparse
  rintro ⟨props, hprops, hperm, -⟩
  rw [propertiesOf_functionJson, params_of_roundTrips hparse hne, lookup_shorthand, if_neg] at hprops
  · obtain rfl : [] = props := by simpa using hprops
    rw [← hperm.mem_iff] at h
    cases h
  · cases ps.lookup (str "properties") <;> simp [isObject]

/-- A tool whose parameters are given in shorthand gets an entry of its session in the registry, and as long as
the registry has the entry, the function published for it has exactly these parameters as properties, each with
its type, if and only if none of them is named `type`. -/
theorem shorthand_published_iff (g : Gateway ν) (t : Json ν) (ps : List (Str × Str)) (ht : ShorthandTool t ps)
    (hlib : platform.json.RoundTrips (parameterSchema (shorthand ps))) :
    ∃ e ∈ (addTool platform conn sessionId t g).state.toolRegistry.entries,
      e.source = sourceOf sessionId ∧ toolName t = some e.tool.name ∧
      ∀ r : ToolRegistry, e ∈ r.entries →
        functionJson platform.json e ∈ (toolsArray platform.json r).elems ∧
        (Publishes (functionJson platform.json e) ps ↔ str "type" ∉ ps.map Prod.fst) := by
  obtain ⟨text, hdump, hparse, -, hne⟩ := hlib
  obtain ⟨e, he, hsource, hname, rfl⟩ := mem_entries_addTool platform conn sessionId ht hdump g
  refine ⟨e, he, hsource, hname, fun r hr => ⟨List.mem_map_of_mem hr, fun hpublishes htype => ?_, fun htype => ?_⟩⟩
  · exact not_publishes_of_type htype hparse hne hpublishes
  · exact publishes_of_not_type ht.distinct htype hparse hne

/-! ## A tool with a parameter `type` -/

/-- A tool that searches, with its parameters. -/
def searchTool (ps : List (Str × Str)) : Json ℚ :=
  .object (Json.members [
    (str "name", .string (str "search")),
    (str "parameters", shorthand ps)])

/-- A platform with the library on the schema of the parameters. -/
def searchGateway (ps : List (Str × Str)) : GatewayPlatform ℚ where
  hash _ := 0
  localtime _ := ⟨123, 10, 14⟩
  json := JsonLib.on Json.showRat [parameterSchema (shorthand ps)]
  evpSha256 _ := Vector.replicate 32 0

/-- The gateway after the tool was added. -/
def searchAdded (ps : List (Str × Str)) : Gateway ℚ :=
  (addTool (searchGateway ps) 0 (str "1-0") (searchTool ps) (start (searchGateway ps) none none {})).state

theorem shorthand_published_query :
    ∃ e ∈ (searchAdded [(str "query", str "string")]).toolRegistry.entries,
      e.source = sourceOf (str "1-0") ∧
      toolName (searchTool [(str "query", str "string")]) = some e.tool.name ∧
      ∀ r : ToolRegistry, e ∈ r.entries →
        functionJson (searchGateway [(str "query", str "string")]).json e ∈
          (toolsArray (searchGateway [(str "query", str "string")]).json r).elems ∧
        (Publishes (functionJson (searchGateway [(str "query", str "string")]).json e)
          [(str "query", str "string")] ↔ str "type" ∉ [(str "query", str "string")].map Prod.fst) := by
  refine shorthand_published_iff (searchGateway [(str "query", str "string")]) 0 (str "1-0") _
    (searchTool [(str "query", str "string")]) _ ⟨⟨str "search", rfl, by decide⟩, rfl, rfl, by decide⟩ ?_
  exact JsonLib.on_roundTrips [] [] (by simp) (by decide +kernel) (by decide +kernel)

/-- The parameters to search for, one of them the type of what is searched. -/
def typedSearch : List (Str × Str) := [(str "query", str "string"), (str "type", str "string")]

/-- Both parameters of the tool are gone from the list of tools. -/
theorem type_parameter_lost :
    ShorthandTool (searchTool typedSearch) typedSearch ∧
      (toolsArray (searchGateway typedSearch).json (searchAdded typedSearch).toolRegistry).elems.map
        propertiesOf = [some (.object [])] ∧
      ∀ f ∈ (toolsArray (searchGateway typedSearch).json (searchAdded typedSearch).toolRegistry).elems,
        ¬Publishes f typedSearch := by
  have hlost : (toolsArray (searchGateway typedSearch).json (searchAdded typedSearch).toolRegistry).elems.map
      propertiesOf = [some (.object [])] := rfl
  refine ⟨⟨⟨str "search", rfl, by decide⟩, rfl, rfl, by decide⟩, hlost, ?_⟩
  rintro f hf ⟨props, hprops, hperm, -⟩
  have hmem := List.mem_map_of_mem (f := propertiesOf) hf
  rw [hlost, hprops, List.mem_singleton, Option.some.injEq, Json.object.injEq] at hmem
  rw [hmem] at hperm
  exact absurd hperm.length_eq (by decide)

end Gateway

end LlmGateway
