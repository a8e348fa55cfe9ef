import LlmGateway.ToolList
import LlmGateway.Utf8Json

/-!
# The schemas of the tools

`tools_json` gives each function the schema that was registered with the tool, whatever the text of it was:
`type`, `properties` and `required` are filled in where they are missing or of the wrong kind (`fill`), and
nothing else changes (`completes_schema`).

The functions stand in the order in which the tools were registered.  A registration is forgotten when its
source is removed (`survivors`); among those that are left, the first one of a tool and a source decides on
the place, and the last one on the description and the schema (`Registered`, `tools_published`).
-/

namespace LlmGateway

variable {ν : Type}

/-- What the library reads from the empty text and from an object without members. -/
structure JsonLib.ReadsEmpty (lib : JsonLib ν) : Prop where
  nothing : lib.parse [] = none
  braces : lib.parse (str "\x7b\x7d") = some (.object [])

/-- The tool and the source of an entry. -/
def ToolEntry.key (e : ToolEntry) : Str × Str := (e.tool.name, e.source)

namespace ToolRegistry

/-! ## The schema of a tool -/

section Fill

variable {key : String} {ok : Json ν → Bool} {dflt : Json ν} {m : List (Str × Json ν)}

/-- A key that is filled in has a value of its kind. -/
theorem exists_lookup_fill (key : String) {ok : Json ν → Bool} {dflt : Json ν} (hdflt : ok dflt = true)
    (m : List (Str × Json ν)) : ∃ v, (fill key ok dflt m).lookup (str key) = some v ∧ ok v = true := by
  rw [lookup_fill]
  split_ifs with h
  · exact ⟨dflt, rfl, hdflt⟩
  · have hany : (m.lookup (str key)).any ok = true := by simpa using h
    exact (Option.any_eq_true _ _).1 hany

/-- Filling in a key changes no other, and no value of its kind. -/
theorem lookup_fill_of_ok {k : Str} {v : Json ν} (hv : m.lookup k = some v)
    (hok : k = str key → ok v = true) : (fill key ok dflt m).lookup k = some v := by
  rw [lookup_fill, if_neg, hv]
  rintro ⟨rfl, hany⟩
  rw [hv, Option.any_some, hok rfl] at hany
  cases hany

/-- What is found after filling in a key was there, or is under the key. -/
theorem lookup_of_lookup_fill {k : Str} {v : Json ν} (hv : (fill key ok dflt m).lookup k = some v)
    (hk : k ≠ str key) : m.lookup k = some v := by
  rwa [lookup_fill, if_neg fun h => hk h.1] at hv

theorem valid_fill (hdflt : dflt.Valid) (hm : (Json.object m).Valid) :
    (Json.object (fill key ok dflt m)).Valid := by
  unfold fill
  split_ifs
  · exact hm
  · rw [Json.valid_object] at hm ⊢
    intro p hp
    rcases Json.mem_setKey hp with rfl | hp
    · exact ⟨valid_str key, hdflt⟩
    · exact hm p hp

end Fill

section Schema

/-- A value of the kind that its key needs in a schema. -/
structure RightKind (k : Str) (v : Json ν) : Prop where
  type : k = str "type" → v = .string (str "object")
  properties : k = str "properties" → isObject v = true
  required : k = str "required" → isArray v = true

/-- The members of a schema are those of the object that was registered, with values of the right kind under
`type`, `properties` and `required`. -/
structure Completes (registered : Option (Json ν)) (schema : List (Str × Json ν)) : Prop where
  type : schema.lookup (str "type") = some (.string (str "object"))
  properties : ∃ m, schema.lookup (str "properties") = some (.object m)
  required : ∃ xs, schema.lookup (str "required") = some (.array xs)
  kept : ∀ m, registered = some (.object m) → ∀ k v, m.lookup k = some v → RightKind k v →
    schema.lookup k = some v
  only : ∀ k v, schema.lookup k = some v → k ∈ [str "type", str "properties", str "required"] ∨
    ∃ m, registered = some (.object m) ∧ m.lookup k = some v

theorem isObjectText_iff {v : Json ν} : isObjectText v = true ↔ v = .string (str "object") := by
  cases v <;> simp [isObjectText]

theorem isObject_iff {v : Json ν} : isObject v = true ↔ ∃ m, v = .object m := by
  cases v <;> simp [isObject]

theorem isArray_iff {v : Json ν} : isArray v = true ↔ ∃ xs, v = .array xs := by
  cases v <;> simp [isArray]

variable {lib : JsonLib ν}

/-- The members that are read from a text are those of the object that it parses to. -/
theorem lookup_params_iff (hempty : lib.ReadsEmpty) (text : Str) (k : Str) (v : Json ν) :
    (params lib text).lookup k = some v ↔ ∃ m, lib.parse text = some (.object m) ∧ m.lookup k = some v := by
  unfold params
  split_ifs with htext
  · simp [htext, hempty.nothing, hempty.braces]
  · cases hparse : lib.parse text with
    | none => simp
    | some j => cases j <;> simp

/-- Every text that is registered gives a schema. -/
theorem completes_schema (hempty : lib.ReadsEmpty) (text : Str) :
    ∃ members, schema lib text = .object members ∧ Completes (lib.parse text) members := by
  refine ⟨_, rfl, ?type, ?properties, ?required, fun m hm k v hv hkind => ?kept, fun k v hv => ?only⟩
  case type =>
    obtain ⟨v, hv, hok⟩ := exists_lookup_fill "type" (isObjectText_iff.2 rfl) (params lib text)
    rw [isObjectText_iff.1 hok] at hv
    exact lookup_fill_of_ok (lookup_fill_of_ok hv fun h => absurd h (by decide)) fun h => absurd h (by decide)
  case properties =>
    have hdflt : isObject (.object [] : Json ν) = true := rfl
    obtain ⟨v, hv, hok⟩ := exists_lookup_fill "properties" hdflt
      (fill "type" isObjectText (.string (str "object")) (params lib text))
    obtain ⟨m, rfl⟩ := isObject_iff.1 hok
    exact ⟨m, lookup_fill_of_ok hv fun h => absurd h (by decide)⟩
  case required =>
    have hdflt : isArray (.array [] : Json ν) = true := rfl
    obtain ⟨v, hv, hok⟩ := exists_lookup_fill "required" hdflt
      (fill "properties" isObject (.object []) (fill "type" isObjectText (.string (str "object")) (params lib text)))
    obtain ⟨xs, rfl⟩ := isArray_iff.1 hok
    exact ⟨xs, hv⟩
  case kept =>
    have hparams : (params lib text).lookup k = some v := (lookup_params_iff hempty text k v).2 ⟨m, hm, hv⟩
    have htype : (fill "type" isObjectText (.string (str "object")) (params lib text)).lookup k = some v :=
      lookup_fill_of_ok hparams fun h => isObjectText_iff.2 (hkind.type h)
    exact lookup_fill_of_ok (lookup_fill_of_ok htype hkind.properties) hkind.required
  case only =>
    by_cases hk : k ∈ [str "type", str "properties", str "required"]
    · exact Or.inl hk
    · simp only [List.mem_cons, List.not_mem_nil, or_false, not_or] at hk
      obtain ⟨htype, hproperties, hrequired⟩ := hk
      have hparams := lookup_of_lookup_fill (lookup_of_lookup_fill (lookup_of_lookup_fill hv hrequired)
        hproperties) htype
      exact Or.inr ((lookup_params_iff hempty text k v).1 hparams)

/-- The schema of a tool can be printed: the text that it was read from was valid. -/
theorem valid_schema (hlib : lib.Strict) (text : Str) : (schema lib text).Valid := by
  have hparams : (Json.object (params lib text)).Valid := by
    unfold params
    split
    · next m hparse => exact hlib.parse _ _ hparse
    · exact Json.valid_object.2 (by simp)
  refine valid_fill (by simp) (valid_fill ?_ (valid_fill ?_ hparams))
  · exact Json.valid_object.2 (by simp)
  · exact Json.valid_string.2 (valid_str "object")

end Schema

/-! ## The function of an entry -/

/-- The function has the name and the description of the entry, and a schema that completes what was
registered. -/
structure Describes (lib : JsonLib ν) (e : ToolEntry) (f : Json ν) : Prop where
  type : f.member "type" = some (.string (str "function"))
  function : ∃ g schema, f.member "function" = some g ∧
    g.member "name" = some (.string e.tool.name) ∧
    g.member "description" = some (.string e.tool.description) ∧
    g.member "parameters" = some (.object schema) ∧ Completes (lib.parse e.tool.parametersJson) schema

section Function

variable {lib : JsonLib ν}

theorem describes_functionJson (hempty : lib.ReadsEmpty) (e : ToolEntry) :
    Describes lib e (functionJson lib e) := by
  obtain ⟨members, hmembers, hcompletes⟩ := completes_schema hempty e.tool.parametersJson
  refine ⟨rfl, _, members, rfl, rfl, rfl, ?_, hcompletes⟩
  rw [← hmembers]
  rfl

theorem valid_functionJson (hlib : lib.Strict) {e : ToolEntry} (hname : Utf8.Valid e.tool.name)
    (hdescription : Utf8.Valid e.tool.description) : (functionJson lib e).Valid := by
  refine Json.valid_object_members ?_
  simp only [List.forall_mem_cons, valid_str, true_and, Json.valid_string]
  refine ⟨Json.valid_object_members ?_, by simp⟩
  simp [valid_str, hname, hdescription, valid_schema hlib]

end Function

/-! ## The entries -/

/-- A call that changes the registry. -/
inductive Call
  | add (tool : ToolDef) (source : Str)
  | removeSource (source : Str)
  deriving DecidableEq

/-- What a call does. -/
def Call.perform : Call → ToolRegistry → ToolRegistry
  | .add tool source, r => r.add tool.name tool.description tool.parametersJson source
  | .removeSource source, r => r.removeSource source

/-- The registry after some calls from the start of the process on. -/
def after (calls : List Call) : ToolRegistry := calls.foldl (fun r c => c.perform r) {}

/-- The registrations whose source was not removed since, in the order of the calls. -/
def survivors : List Call → List ToolEntry
  | [] => []
  | .add tool source :: calls =>
      if .removeSource (sourceOf source) ∈ calls then survivors calls
      else ⟨tool, sourceOf source⟩ :: survivors calls
  | .removeSource _ :: calls => survivors calls

/-- The entries are what the registrations `es` say: one for each tool and source, in the order of the first
registration, and with what the last one gave. -/
structure Registered (es : List ToolEntry) (r : ToolRegistry) : Prop where
  order : r.keys = (es.map ToolEntry.key).eraseDups
  latest : ∀ e ∈ r.entries, (es.filter fun e' => e'.key = e.key).getLast? = some e

theorem survivors_append (calls calls' : List Call) : survivors (calls ++ calls') =
    ((survivors calls).filter fun e => .removeSource e.source ∉ calls') ++ survivors calls' := by
  induction calls with
  | nil => rfl
  | cons call calls ih =>
      cases call with
      | add tool source =>
        rw [List.cons_append, survivors, survivors, ih]
        by_cases hcalls : .removeSource (sourceOf source) ∈ calls
        · rw [if_pos (List.mem_append_left _ hcalls), if_pos hcalls]
        · rw [if_neg hcalls, List.filter_cons]
          by_cases hcalls' : .removeSource (sourceOf source) ∈ calls'
          · rw [if_pos (List.mem_append_right _ hcalls'), if_neg (by simpa using hcalls')]
          · rw [if_neg (by simp [hcalls, hcalls']), if_pos (by simpa using hcalls'), List.cons_append]
      | removeSource source =>
        rw [List.cons_append, survivors, survivors, ih]

theorem survivors_add (calls : List Call) (tool : ToolDef) (source : Str) :
    survivors (calls ++ [.add tool source]) = survivors calls ++ [⟨tool, sourceOf source⟩] := by
  simp [survivors_append, survivors]

theorem survivors_removeSource (calls : List Call) (source : Str) :
    survivors (calls ++ [.removeSource source]) = (survivors calls).filter fun e => e.source ≠ source := by
  simp [survivors_append, survivors]

theorem mem_calls_of_mem_survivors {calls : List Call} {e : ToolEntry} (he : e ∈ survivors calls) :
    ∃ source, .add e.tool source ∈ calls := by
  induction calls with
  | nil => cases he
  | cons call calls ih =>
      cases call with
      | add tool source =>
        unfold survivors at he
        split_ifs at he
        · obtain ⟨source', hsource'⟩ := ih he
          exact ⟨source', List.mem_cons_of_mem _ hsource'⟩
        · rcases List.mem_cons.1 he with rfl | he
          · exact ⟨source, List.mem_cons_self⟩
          · obtain ⟨source', hsource'⟩ := ih he
            exact ⟨source', List.mem_cons_of_mem _ hsource'⟩
      | removeSource source =>
        obtain ⟨source', hsource'⟩ := ih he
        exact ⟨source', List.mem_cons_of_mem _ hsource'⟩

section EraseDups

variable {α : Type} [BEq α] [LawfulBEq α]

theorem eraseDups_append_of_mem {l : List α} {a : α} (h : a ∈ l) : (l ++ [a]).eraseDups = l.eraseDups := by
  rw [List.eraseDups_append]
  simp [List.removeAll, h]

theorem eraseDups_append_of_notMem {l : List α} {a : α} (h : a ∉ l) :
    (l ++ [a]).eraseDups = l.eraseDups ++ [a] := by
  rw [List.eraseDups_append]
  simp [List.removeAll, h, List.eraseDups_cons]

theorem nodup_eraseDups (l : List α) : l.eraseDups.Nodup := by
  induction l using List.reverseRecOn with
  | nil => exact List.nodup_nil
  | append_singleton l a ih =>
      by_cases h : a ∈ l
      · rwa [eraseDups_append_of_mem h]
      · rw [eraseDups_append_of_notMem h]
        refine List.nodup_append.2 ⟨ih, List.nodup_singleton a, fun b hb c hc => ?_⟩
        rintro rfl
        rw [List.mem_singleton.1 hc, List.mem_eraseDups] at hb
        exact h hb

theorem eraseDups_filter (p : α → Bool) (l : List α) : (l.filter p).eraseDups = l.eraseDups.filter p := by
  induction l using List.reverseRecOn with
  | nil => rfl
  | append_singleton l a ih =>
      rw [List.filter_append, List.filter_singleton]
      by_cases hmem : a ∈ l
      · rw [eraseDups_append_of_mem hmem, ← ih]
        by_cases ha : p a = true
        · rw [ha, Bool.cond_true, eraseDups_append_of_mem (List.mem_filter.2 ⟨hmem, ha⟩)]
        · rw [Bool.eq_false_of_not_eq_true ha, Bool.cond_false, List.append_nil]
      · rw [eraseDups_append_of_notMem hmem, List.filter_append, ← ih, List.filter_singleton]
        by_cases ha : p a = true
        · rw [ha, Bool.cond_true, eraseDups_append_of_notMem fun h => hmem (List.mem_of_mem_filter h)]
        · rw [Bool.eq_false_of_not_eq_true ha, Bool.cond_false, List.append_nil, List.append_nil]

end EraseDups

/-- An entry after `add` is the new one, or an old one of another tool or source. -/
theorem mem_addLoop_cases {tool : ToolDef} {source : Str} {es : List ToolEntry}
    (hes : (es.map ToolEntry.key).Nodup) {e : ToolEntry} (he : e ∈ addLoop tool source es) :
    e = ⟨tool, source⟩ ∨ e ∈ es ∧ e.key ≠ (tool.name, source) := by
  induction es with
  | nil => exact Or.inl (List.mem_singleton.1 he)
  | cons e' es ih =>
      obtain ⟨hnot, hes⟩ := List.nodup_cons.1 hes
      unfold addLoop at he
      split_ifs at he with h
      · have hkey : e'.key = (tool.name, source) := Prod.ext h.1 h.2
        rcases List.mem_cons.1 he with rfl | he
        · exact Or.inl (by rw [← h.2])
        · refine Or.inr ⟨List.mem_cons_of_mem _ he, fun hkey' => hnot ?_⟩
          rw [hkey, ← hkey']
          exact List.mem_map_of_mem he
      · rcases List.mem_cons.1 he with rfl | he
        · exact Or.inr ⟨List.mem_cons_self, fun hkey => h (Prod.mk.inj hkey)⟩
        · exact (ih hes he).imp_right fun h => ⟨List.mem_cons_of_mem _ h.1, h.2⟩

theorem Registered.nodup {es : List ToolEntry} {r : ToolRegistry} (h : Registered es r) : r.keys.Nodup := by
  rw [h.order]
  exact nodup_eraseDups _

section Step

variable {es : List ToolEntry} {r : ToolRegistry} (h : Registered es r)

include h

theorem Registered.add (tool : ToolDef) (source : Str) : Registered (es ++ [⟨tool, sourceOf source⟩])
    (r.add tool.name tool.description tool.parametersJson source) where
  order := by
    have hmem : (tool.name, sourceOf source) ∈ r.keys ↔ (tool.name, sourceOf source) ∈ es.map ToolEntry.key := by
      rw [h.order, List.mem_eraseDups]
    rw [keys_add, List.map_append, List.map_singleton]
    split_ifs with hkey
    · exact h.order.trans (eraseDups_append_of_mem (hmem.1 hkey)).symm
    · rw [h.order]
      exact (eraseDups_append_of_notMem fun hes => hkey (hmem.2 hes)).symm
  latest e he := by
    rw [List.filter_append]
    have hcases : e = ⟨tool, sourceOf source⟩ ∨ e ∈ r.entries ∧ e.key ≠ (tool.name, sourceOf source) :=
      mem_addLoop_cases h.nodup he
    rcases hcases with rfl | ⟨he, hkey⟩
    · simp
    · have hnew : ¬(⟨tool, sourceOf source⟩ : ToolEntry).key = e.key := fun hnew => hkey hnew.symm
      rw [List.filter_singleton, decide_eq_false hnew, Bool.cond_false, List.append_nil]
      exact h.latest e he

theorem Registered.removeSource (source : Str) :
    Registered (es.filter fun e => e.source ≠ source) (r.removeSource source) where
  order := by
    have hfilter : (es.filter fun e => e.source ≠ source).map ToolEntry.key =
        (es.map ToolEntry.key).filter fun k => k.2 ≠ source := by
      rw [List.filter_map]
      rfl
    rw [keys_removeSource, h.order, hfilter, eraseDups_filter]
  latest e he := by
    obtain ⟨he, hsource⟩ := List.mem_filter.1 he
    rw [← h.latest e he, List.filter_filter]
    refine congrArg List.getLast? (List.filter_congr fun e' _ => ?_)
    by_cases hkey : e'.key = e.key
    · have hsource' : e'.source = e.source := congrArg Prod.snd hkey
      simpa [hkey, hsource'] using hsource
    · simp [hkey]

end Step

theorem registered_after (calls : List Call) : Registered (survivors calls) (after calls) := by
  induction calls using List.reverseRecOn with
  | nil => exact ⟨rfl, fun e he => by cases he⟩
  | append_singleton calls call ih =>
      rw [after, List.foldl_append, ← after]
      cases call with
      | add tool source =>
        rw [survivors_add]
        exact ih.add tool source
      | removeSource source =>
        rw [survivors_removeSource]
        exact ih.removeSource source

/-! ## What is published -/

/-- After any calls with valid names and descriptions, `tools_json` prints an array with one function for each
entry, and the entries are what the calls have registered. -/
theorem tools_published (lib : JsonLib ν) (hlib : lib.Strict) (hempty : lib.ReadsEmpty) (calls : List Call)
    (hcalls : ∀ tool source, .add tool source ∈ calls →
      Utf8.Valid tool.name ∧ Utf8.Valid tool.description) :
    Registered (survivors calls) (after calls) ∧
    ∃ text fs, (after calls).toolsJson lib = some text ∧ lib.dump (.array fs) = some text ∧
      List.Forall₂ (Describes lib) (after calls).entries fs := by
  have hregistered := registered_after calls
  have hvalid : (toolsArray lib (after calls)).Valid := by
    refine Json.valid_array.2 fun f hf => ?_
    obtain ⟨e, he, rfl⟩ := List.mem_map.1 hf
    have hmem : e ∈ survivors calls :=
      List.mem_of_mem_filter (List.mem_of_getLast? (hregistered.latest e he))
    obtain ⟨source, hadd⟩ := mem_calls_of_mem_survivors hmem
    exact valid_functionJson hlib (hcalls _ _ hadd).1 (hcalls _ _ hadd).2
  obtain ⟨text, htext⟩ := Option.isSome_iff_exists.1 ((hlib.dump_isSome _).2 hvalid)
  refine ⟨hregistered, text, _, htext, htext, ?_⟩
  rw [List.forall₂_map_right_iff, List.forall₂_same]
  exact fun e _ => describes_functionJson hempty e

/-- A tool that is registered again with text that does not parse, and one whose source is removed. -/
def searchCalls : List Call :=
  [.add ⟨str "search", str "finds", []⟩ [], .add ⟨str "solve", [], []⟩ (str "1-0"),
    .add ⟨str "search", str "finds more", str "(query)"⟩ [], .removeSource (str "1-0")]

theorem readsEmpty_checked : (JsonLib.checked Json.showRat [.object []]).ReadsEmpty := ⟨rfl, rfl⟩

theorem tools_published_search :
    Registered (survivors searchCalls) (after searchCalls) ∧
    ∃ text fs, (after searchCalls).toolsJson (JsonLib.checked Json.showRat [.object []]) = some text ∧
      (JsonLib.checked Json.showRat [.object []]).dump (.array fs) = some text ∧
      List.Forall₂ (Describes (JsonLib.checked Json.showRat [.object []])) (after searchCalls).entries fs := by
  refine tools_published _ (JsonLib.checked_strict Json.showRat _) readsEmpty_checked searchCalls ?_
  intro tool source hadd
  simp only [searchCalls, List.mem_cons, List.not_mem_nil, or_false, Call.add.injEq, reduceCtorEq] at hadd
  obtain ⟨rfl, -⟩ | ⟨rfl, -⟩ | ⟨rfl, -⟩ := hadd
  · exact ⟨valid_str "search", valid_str "finds"⟩
  · exact ⟨valid_str "solve", Utf8.valid_nil⟩
  · exact ⟨valid_str "search", valid_str "finds more"⟩

end ToolRegistry

end LlmGateway
