import Mathlib.Data.List.Nodup
import LlmGateway.Lib.Outcome
import LlmGateway.ToolRegistry

/-!
# The list of the tools

`tools_json` gives a backend one function for each entry of the registry.  An entry is one tool of one
session, so a tool that two executors offer is listed twice, with the same name.

The tools of a session are removed when its connection closes, but only if its role is `executor` at that
time.  A session that has registered as an executor and then as an agent leaves its tools behind.

`tools_listed_once_iff`: in a run of registrations and disconnections the functions are those that are
offered, each once, in every state, exactly if nobody registers a tool that somebody else offers at the time,
and whoever disconnects is an executor or offers nothing.
-/

namespace LlmGateway

variable {ν : Type}

namespace ToolRegistry

/-! ## `tools_json` -/

section Json

variable (lib : JsonLib ν)

/-- `if (!params.contains(key) || !ok(params[key])) params[key] = dflt`. -/
def fill (key : String) (ok : Json ν → Bool) (dflt : Json ν) (m : List (Str × Json ν)) : List (Str × Json ν) :=
  if (m.lookup (str key)).any ok then m else Json.setKey (str key) dflt m

theorem lookup_fill (key : String) (ok : Json ν → Bool) (dflt : Json ν) (m : List (Str × Json ν)) (k : Str) :
    (fill key ok dflt m).lookup k =
      if k = str key ∧ (m.lookup (str key)).any ok = false then some dflt else m.lookup k := by
  unfold fill
  split_ifs with hok hk hk
  · rw [hk.2] at hok
    cases hok
  · rfl
  · rw [Json.lookup_setKey, if_pos hk.1]
  · rw [Json.lookup_setKey, if_neg fun h => hk ⟨h, by simpa using hok⟩]

/-- `is_object`. -/
def isObject : Json ν → Bool
  | .object _ => true
  | _ => false

/-- `is_array`. -/
def isArray : Json ν → Bool
  | .array _ => true
  | _ => false

/-- `j == "object"`. -/
def isObjectText : Json ν → Bool
  | .string s => s = str "object"
  | _ => false

/-- The members of the schema of a tool, whatever its text is. -/
def params (parametersJson : Str) : List (Str × Json ν) :=
  match lib.parse (if parametersJson = [] then str "\x7b\x7d" else parametersJson) with
  | some (.object m) => m
  | _ => []

/-- The schema of the parameters of a tool. -/
def schema (parametersJson : Str) : Json ν :=
  .object (fill "required" isArray (.array [])
    (fill "properties" isObject (.object [])
      (fill "type" isObjectText (.string (str "object")) (params lib parametersJson))))

/-- The function for an entry. -/
def functionJson (e : ToolEntry) : Json ν :=
  .object (Json.members [
    (str "type", .string (str "function")),
    (str "function", .object (Json.members [
      (str "name", .string e.tool.name),
      (str "description", .string e.tool.description),
      (str "parameters", schema lib e.tool.parametersJson)]))])

/-- The functions of all entries. -/
def toolsArray (r : ToolRegistry) : Json ν := .array (r.entries.map (functionJson lib))

/-- `tools_json`; `none` if it throws. -/
def toolsJson (r : ToolRegistry) : Option Str := lib.dump (toolsArray lib r)

/-- The name of a function. -/
def functionName (j : Json ν) : Option Str :=
  ((j.member "function").bind (Json.member · "name")).bind Json.getString

/-- The names of the functions in a list of tools. -/
def functionNames (j : Json ν) : List Str := j.elems.filterMap functionName

theorem functionName_functionJson (e : ToolEntry) : functionName (functionJson lib e) = some e.tool.name := by
  rfl

/-- The functions have the names of the entries. -/
theorem functionNames_toolsArray (r : ToolRegistry) : functionNames (toolsArray lib r) = r.names := by
  unfold functionNames toolsArray names Json.elems
  dsimp only
  rw [List.filterMap_map, ← List.filterMap_eq_map]
  exact List.filterMap_congr fun e _ => functionName_functionJson lib e

end Json

/-! ## Entries -/

/-- The tools and the sessions of the entries. -/
def keys (r : ToolRegistry) : List (Str × Str) := r.entries.map fun e => (e.tool.name, e.source)

theorem names_eq_keys (r : ToolRegistry) : r.names = r.keys.map Prod.fst := by
  rw [names, keys, List.map_map]
  rfl

theorem keys_addLoop (tool : ToolDef) (source : Str) (es : List ToolEntry) :
    (addLoop tool source es).map (fun e => (e.tool.name, e.source)) =
      if (tool.name, source) ∈ es.map (fun e => (e.tool.name, e.source)) then
        es.map fun e => (e.tool.name, e.source)
      else es.map (fun e => (e.tool.name, e.source)) ++ [(tool.name, source)] := by
  induction es with
  | nil => rfl
  | cons e es ih =>
    rw [addLoop, List.map_cons]
    by_cases h : e.tool.name = tool.name ∧ e.source = source
    · rw [if_pos h, if_pos (by rw [h.1, h.2]; exact List.mem_cons_self), List.map_cons, h.1]
    · have hne : (tool.name, source) ≠ (e.tool.name, e.source) := by
        intro heq
        exact h ⟨(congrArg Prod.fst heq).symm, (congrArg Prod.snd heq).symm⟩
      rw [if_neg h, List.map_cons, ih]
      simp only [List.mem_cons, hne, false_or]
      split_ifs
      · rfl
      · rfl

/-- The source under which a tool is added. -/
def sourceOf (source : Str) : Str := if source = [] then str "static" else source

theorem keys_add (name description parametersJson source : Str) (r : ToolRegistry) :
    (r.add name description parametersJson source).keys =
      if (name, sourceOf source) ∈ r.keys then r.keys else r.keys ++ [(name, sourceOf source)] :=
  keys_addLoop ⟨name, description, parametersJson⟩ (sourceOf source) r.entries

theorem mem_keys_add (name description parametersJson source : Str) (r : ToolRegistry) (k : Str × Str) :
    k ∈ (r.add name description parametersJson source).keys ↔ k ∈ r.keys ∨ k = (name, sourceOf source) := by
  rw [keys_add]
  split_ifs with h
  · refine ⟨Or.inl, ?_⟩
    rintro (hk | rfl)
    · exact hk
    · exact h
  · rw [List.mem_append, List.mem_singleton]

theorem mem_names {name : Str} {r : ToolRegistry} : name ∈ r.names ↔ ∃ source, (name, source) ∈ r.keys := by
  simp [names_eq_keys]

theorem mem_names_add (name description parametersJson source : Str) (r : ToolRegistry) (name' : Str) :
    name' ∈ (r.add name description parametersJson source).names ↔ name' ∈ r.names ∨ name' = name := by
  simp only [mem_names, mem_keys_add, Prod.mk.injEq, exists_or, exists_and_left, exists_eq, and_true]

theorem nodup_keys_add (name description parametersJson source : Str) {r : ToolRegistry}
    (h : r.keys.Nodup) : (r.add name description parametersJson source).keys.Nodup := by
  rw [keys_add]
  split_ifs with hmem
  · exact h
  · refine List.nodup_append.2 ⟨h, List.nodup_singleton _, fun k hk k' hk' => ?_⟩
    rw [List.mem_singleton.1 hk']
    rintro rfl
    exact hmem hk

theorem keys_removeSource (source : Str) (r : ToolRegistry) :
    (r.removeSource source).keys = r.keys.filter fun k => k.2 ≠ source := by
  unfold keys removeSource
  rw [List.filter_map]
  rfl

/-- The loop of a registration: a tool without a name is skipped. -/
def addAll (sessionId : Str) (tools : List ToolDef) (r : ToolRegistry) : ToolRegistry :=
  tools.foldl (fun r t => if t.name = [] then r else r.add t.name t.description t.parametersJson sessionId) r

/-- The names that a registration offers. -/
def offered (tools : List ToolDef) : List Str := (tools.map ToolDef.name).filter (· ≠ [])

theorem offered_cons (t : ToolDef) (tools : List ToolDef) :
    offered (t :: tools) = if t.name = [] then offered tools else t.name :: offered tools := by
  rw [offered, List.map_cons, List.filter_cons]
  by_cases ht : t.name = []
  · rw [if_pos ht, if_neg (by simpa using ht), offered]
  · rw [if_neg ht, if_pos (by simpa using ht), offered]

theorem mem_keys_addAll {sessionId : Str} (hid : sessionId ≠ []) (tools : List ToolDef) (r : ToolRegistry)
    (k : Str × Str) : k ∈ (r.addAll sessionId tools).keys ↔
      k ∈ r.keys ∨ k.2 = sessionId ∧ k.1 ∈ offered tools := by
  unfold addAll
  induction tools generalizing r with
  | nil => simp [offered]
  | cons t tools ih =>
    rw [List.foldl_cons, ih, offered_cons]
    by_cases ht : t.name = []
    · rw [if_pos ht, if_pos ht]
    · rw [if_neg ht, if_neg ht, mem_keys_add, sourceOf, if_neg hid, List.mem_cons, and_or_left, or_assoc,
        Prod.ext_iff, and_comm (a := k.1 = t.name)]

theorem mem_names_addAll {sessionId : Str} (hid : sessionId ≠ []) (tools : List ToolDef) (r : ToolRegistry)
    (name : Str) : name ∈ (r.addAll sessionId tools).names ↔ name ∈ r.names ∨ name ∈ offered tools := by
  simp only [mem_names, mem_keys_addAll hid, exists_or, exists_and_right, exists_eq, true_and]

theorem nodup_keys_addAll (sessionId : Str) (tools : List ToolDef) {r : ToolRegistry} (h : r.keys.Nodup) :
    (r.addAll sessionId tools).keys.Nodup := by
  unfold addAll
  induction tools generalizing r with
  | nil => exact h
  | cons t tools ih =>
    rw [List.foldl_cons]
    refine ih ?_
    split_ifs
    · exact h
    · exact nodup_keys_add _ _ _ _ h

/-! ## Sessions -/

/-- The id of a session is not the source of the static tools. -/
def IsSessionId (s : Str) : Prop := s ≠ [] ∧ s ≠ str "static"

/-- The ids of sessions. -/
def SessionId : Type := { s : Str // IsSessionId s }

/-- The registry, with what the sessions that are connected offer, and their roles. -/
structure Served where
  registry : ToolRegistry := {}
  offers : UMap (List Str) := ∅
  statics : List Str := []
  roles : UMap Str := ∅

/-- What sessions do to the registry. -/
inductive Op
  /-- A new connection, with the role of its request. -/
  | connect (sessionId : SessionId) (role : Str)
  /-- `register` as an executor. -/
  | register (sessionId : SessionId) (tools : List ToolDef)
  /-- `register` as an agent. -/
  | registerAgent (sessionId : SessionId)
  | disconnect (sessionId : SessionId)
  /-- `add` without a source. -/
  | addStatic (tool : ToolDef)

namespace Served

/-- The session is an executor. -/
def IsExecutor (s : Served) (sessionId : Str) : Prop := s.roles.lookup sessionId = some (str "executor")

instance (s : Served) (sessionId : Str) : Decidable (s.IsExecutor sessionId) :=
  inferInstanceAs (Decidable (_ = _))

/-- What an operation does. -/
def step : Op → Served → Outcome Served
  | .connect sessionId role, s => .ok { s with roles := s.roles.insert sessionId.1 role }
  | .register sessionId tools, s => .ok
      { s with
        registry := s.registry.addAll sessionId.1 tools
        offers := s.offers.insert sessionId.1 ((s.offers.lookup sessionId.1).getD [] ++ offered tools)
        roles := s.roles.insert sessionId.1 (str "executor") }
  | .registerAgent sessionId, s => .ok { s with roles := s.roles.insert sessionId.1 (str "agent") }
  | .disconnect sessionId, s => .ok
      { s with
        registry := if s.IsExecutor sessionId.1 then s.registry.removeSource sessionId.1 else s.registry
        offers := s.offers.erase sessionId.1
        roles := s.roles.erase sessionId.1 }
  | .addStatic tool, s => .ok
      { s with
        registry := s.registry.add tool.name tool.description tool.parametersJson []
        statics := s.statics ++ [tool.name] }

/-- A source offers a tool. -/
def Offers (s : Served) (name source : Str) : Prop :=
  source = str "static" ∧ name ∈ s.statics ∨ ∃ names, s.offers.lookup source = some names ∧ name ∈ names

/-- What an operation adds to the offers. -/
def Adds : Op → Str → Str → Prop
  | .register sessionId tools, name, source => source = sessionId.1 ∧ name ∈ offered tools
  | .addStatic tool, name, source => source = str "static" ∧ name = tool.name
  | _, _, _ => False

/-- Nobody else offers what an operation adds, and who disconnects is an executor or offers nothing. -/
structure Fresh (s : Served) (op : Op) : Prop where
  adds : ∀ name source source', Adds op name source → s.Offers name source' → source' = source
  leaves : ∀ sessionId, op = .disconnect sessionId →
    s.IsExecutor sessionId.1 ∨ ∀ name, ¬ s.Offers name sessionId.1

/-- The functions have distinct names, and those of the tools that somebody offers. -/
def ListedOnce (lib : JsonLib ν) (s : Served) : Prop :=
  (functionNames (toolsArray lib s.registry)).Nodup ∧
    ∀ name, name ∈ functionNames (toolsArray lib s.registry) ↔
      name ∈ s.statics ∨ ∃ sessionId names, s.offers.lookup sessionId = some names ∧ name ∈ names

/-- The entries are what is offered, each once. -/
structure Sound (s : Served) : Prop where
  nodup : s.registry.keys.Nodup
  mem_keys : ∀ name source, (name, source) ∈ s.registry.keys ↔ s.Offers name source

/-- A tool is offered by one source. -/
def SoleOffers (s : Served) : Prop :=
  ∀ name source source', s.Offers name source → s.Offers name source' → source = source'

theorem offers_register (sessionId : SessionId) (tools : List ToolDef) (s : Served) (name source : Str) :
    (step (.register sessionId tools) s).state.Offers name source ↔
      s.Offers name source ∨ source = sessionId.1 ∧ name ∈ offered tools := by
  unfold Offers step
  rw [Outcome.ok_state, or_assoc]
  refine or_congr_right ?_
  dsimp only
  by_cases h : source = sessionId.1
  · subst h
    rw [AList.lookup_insert]
    simp only [Option.some.injEq, exists_eq_left', List.mem_append, true_and]
    cases s.offers.lookup sessionId.1 with
    | none => simp
    | some names => simp
  · rw [AList.lookup_insert_ne h]
    simp [h]

theorem offers_disconnect (sessionId : SessionId) (s : Served) (name source : Str) :
    (step (.disconnect sessionId) s).state.Offers name source ↔
      s.Offers name source ∧ source ≠ sessionId.1 := by
  unfold Offers step
  rw [Outcome.ok_state]
  dsimp only
  by_cases h : source = sessionId.1
  · subst h
    rw [AList.lookup_erase]
    simp [sessionId.2.2]
  · rw [AList.lookup_erase_ne h]
    simp [h]

theorem offers_addStatic (tool : ToolDef) (s : Served) (name source : Str) :
    (step (.addStatic tool) s).state.Offers name source ↔
      s.Offers name source ∨ source = str "static" ∧ name = tool.name := by
  unfold Offers step
  rw [Outcome.ok_state]
  dsimp only
  rw [List.mem_append, List.mem_singleton, and_or_left, or_right_comm]

theorem Sound.step {s : Served} (h : Sound s) {op : Op} (hleaves : ∀ sessionId, op = .disconnect sessionId →
    s.IsExecutor sessionId.1 ∨ ∀ name, ¬ s.Offers name sessionId.1) : Sound (step op s).state := by
  cases op with
  | connect sessionId role => exact ⟨h.nodup, h.mem_keys⟩
  | registerAgent sessionId => exact ⟨h.nodup, h.mem_keys⟩
  | register sessionId tools =>
    refine ⟨nodup_keys_addAll sessionId.1 tools h.nodup, fun name source => ?_⟩
    rw [offers_register, ← h.mem_keys]
    exact mem_keys_addAll sessionId.2.1 tools s.registry (name, source)
  | disconnect sessionId =>
    have hkeys : (Served.step (.disconnect sessionId) s).state.registry.keys =
        if s.IsExecutor sessionId.1 then s.registry.keys.filter fun k => k.2 ≠ sessionId.1
        else s.registry.keys := by
      rw [← keys_removeSource, ← apply_ite keys]
      rfl
    by_cases hrole : s.IsExecutor sessionId.1
    · rw [if_pos hrole] at hkeys
      refine ⟨by rw [hkeys]; exact h.nodup.filter _, fun name source => ?_⟩
      rw [offers_disconnect, ← h.mem_keys, hkeys, List.mem_filter, decide_eq_true_iff]
    · -- the session leaves no tools behind
      rw [if_neg hrole] at hkeys
      refine ⟨by rw [hkeys]; exact h.nodup, fun name source => ?_⟩
      rw [offers_disconnect, ← h.mem_keys, hkeys, iff_self_and, h.mem_keys]
      rintro hoffers rfl
      exact (hleaves sessionId rfl).resolve_left hrole name hoffers
  | addStatic tool =>
    refine ⟨nodup_keys_add _ _ _ _ h.nodup, fun name source => ?_⟩
    rw [offers_addStatic, ← h.mem_keys, and_comm (a := source = str "static")]
    refine (mem_keys_add tool.name tool.description tool.parametersJson [] s.registry _).trans ?_
    rw [Prod.ext_iff]
    rfl

/-- The functions have distinct names exactly if nobody offers what somebody else does. -/
theorem Sound.listedOnce_iff {s : Served} (h : Sound s) : ListedOnce lib s ↔ SoleOffers s := by
  have hnames : ∀ name, name ∈ s.registry.names ↔ name ∈ s.statics ∨
      ∃ sessionId names, s.offers.lookup sessionId = some names ∧ name ∈ names := by
    intro name
    rw [mem_names]
    simp only [h.mem_keys, Offers]
    rw [exists_or, exists_eq_left]
  unfold ListedOnce
  rw [functionNames_toolsArray, and_iff_left hnames, names_eq_keys, List.nodup_map_iff_inj_on h.nodup]
  constructor
  · intro hinj name source source' hoffers hoffers'
    exact congrArg Prod.snd (hinj _ ((h.mem_keys _ _).2 hoffers) _ ((h.mem_keys _ _).2 hoffers') rfl)
  · rintro hsole ⟨name, source⟩ hk ⟨name', source'⟩ hk' rfl
    rw [hsole name source source' ((h.mem_keys _ _).1 hk) ((h.mem_keys _ _).1 hk')]

theorem adds_or_offers {s : Served} {op : Op} {name source : Str}
    (h : (step op s).state.Offers name source) : s.Offers name source ∨ Adds op name source := by
  cases op with
  | connect sessionId role => exact .inl h
  | registerAgent sessionId => exact .inl h
  | register sessionId tools => exact (offers_register sessionId tools s name source).1 h
  | disconnect sessionId => exact .inl ((offers_disconnect sessionId s name source).1 h).1
  | addStatic tool => exact (offers_addStatic tool s name source).1 h

theorem source_eq_of_adds {op : Op} {name source source' : Str} (h : Adds op name source)
    (h' : Adds op name source') : source = source' := by
  cases op with
  | register sessionId tools => exact h.1.trans h'.1.symm
  | addStatic tool => exact h.1.trans h'.1.symm
  | _ => exact h.elim

theorem soleOffers_step {s : Served} {op : Op} (h : SoleOffers s) (hfresh : s.Fresh op) :
    SoleOffers (step op s).state := by
  intro name source source' hoffers hoffers'
  rcases adds_or_offers hoffers with hold | hadds
  · rcases adds_or_offers hoffers' with hold' | hadds'
    · exact h name source source' hold hold'
    · exact hfresh.adds name source' source hadds' hold
  · rcases adds_or_offers hoffers' with hold' | hadds'
    · exact (hfresh.adds name source source' hadds hold').symm
    · exact source_eq_of_adds hadds hadds'

/-- What an operation adds is offered afterwards, with what was offered before. -/
theorem offers_of_adds {s : Served} {op : Op} {name source source' : Str} (hadds : Adds op name source)
    (hoffers : s.Offers name source') :
    (step op s).state.Offers name source' ∧ (step op s).state.Offers name source := by
  cases op with
  | register sessionId tools =>
    exact ⟨(offers_register sessionId tools s name source').2 (.inl hoffers),
      (offers_register sessionId tools s name source).2 (.inr hadds)⟩
  | addStatic tool =>
    exact ⟨(offers_addStatic tool s name source').2 (.inl hoffers),
      (offers_addStatic tool s name source).2 (.inr hadds)⟩
  | _ => exact hadds.elim

/-- A session that is no executor leaves the tools that it alone has offered. -/
theorem not_listedOnce_of_leaves {s : Served} (h : Sound s) (hsole : SoleOffers s) {sessionId : SessionId}
    (hrole : ¬ s.IsExecutor sessionId.1) {name : Str} (hoffers : s.Offers name sessionId.1) :
    ¬ ListedOnce lib (step (.disconnect sessionId) s).state := by
  rintro ⟨-, hlisted⟩
  have hregistry : (step (.disconnect sessionId) s).state.registry = s.registry := if_neg hrole
  have hmem : name ∈ s.registry.names := mem_names.2 ⟨sessionId.1, (h.mem_keys _ _).2 hoffers⟩
  rw [hregistry, functionNames_toolsArray] at hlisted
  have hafter : ∃ source, (step (.disconnect sessionId) s).state.Offers name source := by
    rcases (hlisted name).1 hmem with hstatic | ⟨source, names, hlookup, hname⟩
    · exact ⟨str "static", .inl ⟨rfl, hstatic⟩⟩
    · exact ⟨source, .inr ⟨names, hlookup, hname⟩⟩
  obtain ⟨source, hsource⟩ := hafter
  obtain ⟨hbefore, hne⟩ := (offers_disconnect sessionId s name source).1 hsource
  exact hne (hsole name source sessionId.1 hbefore hoffers)

theorem fresh_of_listedOnce {s : Served} (h : Sound s) (hsole : SoleOffers s) {op : Op}
    (hlisted : ListedOnce lib (step op s).state) : s.Fresh op := by
  have hleaves : ∀ sessionId, op = .disconnect sessionId →
      s.IsExecutor sessionId.1 ∨ ∀ name, ¬ s.Offers name sessionId.1 := by
    rintro sessionId rfl
    by_contra hnot
    rw [not_or, not_forall] at hnot
    obtain ⟨hrole, name, hoffers⟩ := hnot
    exact not_listedOnce_of_leaves h hsole hrole (not_not.1 hoffers) hlisted
  refine ⟨fun name source source' hadds hoffers => ?_, hleaves⟩
  obtain ⟨hold, hnew⟩ := offers_of_adds hadds hoffers
  exact ((h.step hleaves).listedOnce_iff.1 hlisted) name source' source hold hnew

end Served

/-- In a run the functions have distinct names, those of the tools that are offered, in every state exactly
if nobody registers a tool that somebody else offers at the time, and whoever disconnects is an executor or
offers nothing. -/
theorem tools_listed_once_iff (lib : JsonLib ν) (ops : List Op) :
    (∀ pre, pre <+: ops → (Outcome.run Served.step {} pre).ListedOnce lib) ↔
      ∀ pre op post, ops = pre ++ op :: post → (Outcome.run Served.step {} pre).Fresh op := by
  refine Outcome.run_holds_iff (I := fun s => s.Sound ∧ s.SoleOffers)
    (fun s hs => hs.1.listedOnce_iff.2 hs.2) ⟨⟨List.nodup_nil, fun name source => ?_⟩, ?_⟩
    (fun s op _ hs hfresh => ⟨hs.1.step hfresh.leaves, Served.soleOffers_step hs.2 hfresh⟩)
    fun s op _ hs hlisted => Served.fresh_of_listedOnce hs.1 hs.2 hlisted
  case refine_2 =>
    refine iff_of_false List.not_mem_nil ?_
    rintro (⟨-, h⟩ | ⟨names, h, -⟩)
    · exact absurd h List.not_mem_nil
    · cases h
  case refine_1 =>
    rintro name source source' (⟨-, h⟩ | ⟨names, h, -⟩) -
    · exact absurd h List.not_mem_nil
    · cases h

/-- The session of an executor. -/
def firstSession : SessionId := ⟨str "1-0", by decide, by decide⟩

/-- The session of another executor. -/
def secondSession : SessionId := ⟨str "2-1", by decide, by decide⟩

/-- Two executors with the same tool. -/
def sharedTool : List Op :=
  [.register firstSession [⟨str "add", [], []⟩], .register secondSession [⟨str "add", [], []⟩]]

/-- An executor that becomes an agent, and disconnects. -/
def leftTool : List Op :=
  [.register firstSession [⟨str "add", [], []⟩], .registerAgent firstSession, .disconnect firstSession]

/-- The tool of two executors is listed twice, and that of the agent after it has left. -/
theorem sharedTool_twice :
    functionNames (toolsArray (JsonLib.on Json.showRat []) (Outcome.run Served.step {} sharedTool).registry) =
        [str "add", str "add"] ∧
      functionNames (toolsArray (JsonLib.on Json.showRat []) (Outcome.run Served.step {} leftTool).registry) =
        [str "add"] ∧
      ¬(Outcome.run Served.step {} sharedTool).ListedOnce (JsonLib.on Json.showRat []) := by
  have hnames : functionNames (toolsArray (JsonLib.on Json.showRat [])
      (Outcome.run Served.step {} sharedTool).registry) = [str "add", str "add"] := by
    decide +kernel
  refine ⟨hnames, by decide +kernel, fun h => ?_⟩
  have hnodup := h.1
  rw [hnames] at hnodup
  exact absurd hnodup (by decide)

end ToolRegistry

end LlmGateway
