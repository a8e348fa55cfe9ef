import LlmGateway.Lib.Outcome
import LlmGateway.OrchestratorDag

/-!
# The input of a stage

`build_stage_input` replaces the placeholders of a template by one `gsub` for each parameter and for each
dependency.  `gsub` takes the percent signs of a text for escapes, and each `gsub` goes over the texts that the
earlier ones put in.  `buildStageInput_eq_exactInput`: the input is exact, with all placeholders replaced at once
(`exactInput`), if neither matters.

An error comes only from a text: `buildStageInput_isSome`.
-/

namespace LlmGateway

namespace OrchestratorDag

/-- What is put in for the name of a placeholder, in the order of the replacements. -/
def fills (state : DagState) (stage : Stage) : List (Str × Str) :=
  state.params.pairs ++ stage.dependsOn.map fun depId => (resultKey depId, state.resultOf depId)

/-- A template with some texts put in for its placeholders, all at once. -/
def fillTemplate (texts : List (Str × Str)) (template : Str) : Str :=
  Template.fill 123 125 (fun name => texts.lookup name) template

/-- The template with each parameter and each result in its place. -/
def exactInput (state : DagState) (stage : Stage) : Str := fillTemplate (fills state stage) stage.inputTemplate

theorem placeholder_eq (name : Str) : str "\x7b" ++ name ++ str "\x7d" = Template.placeholder 123 125 name := by
  have hopen : str "\x7b" = [123] := by decide
  have hclose : str "\x7d" = [125] := by decide
  rw [hopen, hclose, List.append_assoc]
  rfl

theorem buildStageInput_eq_foldlM {wfs : UMap Workflow} {state : DagState} {wf : Workflow} {stageId : Str}
    {stage : Stage} (hwf : wfs.lookup state.workflow = some wf) (hstage : wf.stage? stageId = some stage) :
    buildStageInput wfs state stageId = (fills state stage).foldlM substitute stage.inputTemplate := by
  rw [buildStageInput, hwf, Option.bind_some, hstage, fills, List.foldlM_append]
  rfl

section Lookup

variable {texts : List (Str × Str)} {p : Str × Str}

theorem lookup_eq_none_of_notMem {name : Str} (h : name ∉ texts.map Prod.fst) : texts.lookup name = none := by
  rw [List.lookup_eq_none_iff]
  intro q hq
  have hne : name ≠ q.1 := fun heq => h (heq ▸ List.mem_map_of_mem hq)
  simpa using hne

theorem lookup_singleton (name : Str) : [p].lookup name = Template.single p.1 p.2 name := by
  by_cases hname : name = p.1
  · subst hname
    rw [Template.single_self]
    exact List.lookup_cons_self
  · rw [Template.single_ne _ hname]
    exact lookup_eq_none_of_notMem fun hmem => hname (List.mem_singleton.1 hmem)

/-- A second text for a name is not used. -/
theorem fillTemplate_append_of_mem (h : p.1 ∈ texts.map Prod.fst) (template : Str) :
    fillTemplate (texts ++ [p]) template = fillTemplate texts template := by
  have hlookup : ∀ name, (texts ++ [p]).lookup name = texts.lookup name := by
    intro name
    rw [List.lookup_append, lookup_singleton]
    by_cases hname : name = p.1
    · obtain ⟨q, hq, hfst⟩ := List.mem_map.1 h
      have hsome : (texts.lookup name).isSome := List.lookup_isSome_iff.2 ⟨q, hq, by simp [hname, hfst]⟩
      obtain ⟨text, htext⟩ := Option.isSome_iff_exists.1 hsome
      rw [htext]
      rfl
    · rw [Template.single_ne _ hname, Option.or_none]
  rw [fillTemplate, fillTemplate, funext hlookup]

theorem lookup_append_eq_update (h : p.1 ∉ texts.map Prod.fst) :
    (fun name => (texts ++ [p]).lookup name) =
      Function.update (fun name => texts.lookup name) p.1 (some p.2) := by
  funext name
  rw [List.lookup_append, lookup_singleton]
  by_cases hname : name = p.1
  · subst hname
    rw [lookup_eq_none_of_notMem h, Function.update_self, Template.single_self]
    rfl
  · rw [Template.single_ne _ hname, Option.or_none, Function.update_of_ne hname]

end Lookup

/-! ## One replacement -/

section Substitute

variable {texts : List (Str × Str)} {template : Str} {p : Str × Str}
  (hliteral : LuaPattern.Literal (fillTemplate texts template) (Template.placeholder 123 125 p.1))
  (hname : Template.IsName 123 125 p.1)
include hliteral

theorem substitute_eq : substitute (fillTemplate texts template) p =
    LuaPattern.replaceExpanded (Template.placeholder 123 125 p.1) p.2 (fillTemplate texts template) := by
  rw [substitute, placeholder_eq, LuaPattern.gsub_of_literal hliteral (by simp [Template.placeholder])]

include hname

/-- Where the placeholder is not there, nothing happens, whatever the text is. -/
theorem substitute_of_holes_eq_zero (h : Template.holes 123 125 p.1 (fillTemplate texts template) = 0) :
    substitute (fillTemplate texts template) p = some (fillTemplate texts template) := by
  rw [substitute_eq hliteral, LuaPattern.replaceExpanded, if_neg]
  rintro ⟨u, v, huv⟩
  have hholes := Template.holes_placeholder (by decide) hname u v
  rw [← List.append_assoc, huv, h] at hholes
  omega

/-- A text without a percent sign is put in, if the texts before it have not brought in its placeholder. -/
theorem substitute_of_notMem (hnew : p.1 ∉ texts.map Prod.fst) (hpercent : 37 ∉ p.2)
    (hholes : Template.holes 123 125 p.1 (fillTemplate texts template) = Template.holes 123 125 p.1 template) :
    substitute (fillTemplate texts template) p = some (fillTemplate (texts ++ [p]) template) := by
  rw [substitute_eq hliteral, LuaPattern.replaceExpanded_of_expand (LuaPattern.expand_of_notMem _ hpercent),
    Template.replaceAll_placeholder (by decide) hname, fillTemplate,
    Template.fill_fill (by decide) hname (lookup_eq_none_of_notMem hnew) _ _ hholes, fillTemplate,
    lookup_append_eq_update hnew]

omit hliteral in
/-- Nor does its text matter for the whole. -/
theorem fillTemplate_append_of_holes_eq_zero (hnew : p.1 ∉ texts.map Prod.fst)
    (h : Template.holes 123 125 p.1 (fillTemplate texts template) = 0)
    (hholes : Template.holes 123 125 p.1 template = 0) :
    fillTemplate (texts ++ [p]) template = fillTemplate texts template := by
  have hfill := Template.fill_fill (by decide) hname (lookup_eq_none_of_notMem hnew) p.2 template (h.trans hholes.symm)
  rw [fillTemplate, lookup_append_eq_update hnew, ← hfill]
  exact Template.fill_of_holes_eq_zero (fun _ hne => Template.single_ne _ hne) h

end Substitute

/-! ## The whole loop -/

/-- One replacement after the other is exact if, at each of them, the pattern matches only the placeholder, the
texts before have not brought in a placeholder of the name, and a text that is used has no percent sign. -/
theorem foldlM_substitute {texts : List (Str × Str)} {template : Str}
    (hname : ∀ p ∈ texts, Template.IsName 123 125 p.1)
    (hliteral : ∀ pre p post, texts = pre ++ p :: post →
      LuaPattern.Literal (fillTemplate pre template) (Template.placeholder 123 125 p.1))
    (hseparate : ∀ pre p post, texts = pre ++ p :: post →
      Template.holes 123 125 p.1 (fillTemplate pre template) =
        if p.1 ∈ pre.map Prod.fst then 0 else Template.holes 123 125 p.1 template)
    (hpercent : ∀ p ∈ texts, Template.holes 123 125 p.1 template ≠ 0 → 37 ∉ p.2) :
    texts.foldlM substitute template = some (fillTemplate texts template) := by
  induction texts using List.reverseRecOn with
  | nil => exact congrArg some (Template.fill_none template).symm
  | append_singleton texts p ih =>
    have hbefore := ih (fun q hq => hname q (List.mem_append_left _ hq))
      (fun pre q post hsplit => hliteral pre q (post ++ [p]) (by simp [hsplit]))
      (fun pre q post hsplit => hseparate pre q (post ++ [p]) (by simp [hsplit]))
      (fun q hq => hpercent q (List.mem_append_left _ hq))
    have hmem : p ∈ texts ++ [p] := List.mem_append_right _ List.mem_cons_self
    have hlit := hliteral texts p [] rfl
    have hholes := hseparate texts p [] rfl
    have hlast : ∀ input, [p].foldlM substitute input = substitute input p := fun input => by
      simp only [List.foldlM_cons, List.foldlM_nil, bind_pure]
    rw [List.foldlM_append, hbefore, Option.bind_eq_bind, Option.bind_some, hlast]
    split_ifs at hholes with hold
    · rw [substitute_of_holes_eq_zero hlit (hname p hmem) hholes, fillTemplate_append_of_mem hold]
    · by_cases hzero : Template.holes 123 125 p.1 template = 0
      · have hnone := hholes.trans hzero
        rw [substitute_of_holes_eq_zero hlit (hname p hmem) hnone,
          fillTemplate_append_of_holes_eq_zero (hname p hmem) hold hnone hzero]
      · exact substitute_of_notMem hlit (hname p hmem) hold (hpercent p hmem hzero) hholes

theorem isName_of_alnum {name : Str} (h : ∀ c ∈ name, LuaPattern.isAlnum c = true) :
    Template.IsName 123 125 name :=
  ⟨fun hc => absurd (h _ hc) (by decide), fun hc => absurd (h _ hc) (by decide)⟩

theorem plain_of_alnum {name : Str} (h : ∀ c ∈ name, LuaPattern.isAlnum c = true) : LuaPattern.Plain name := by
  have hspecials : (LuaPattern.specials.all fun c => !LuaPattern.isAlnum c) = true := by decide
  intro c hc hspecial
  have hnot := List.all_eq_true.1 hspecials c hspecial
  rw [h c hc] at hnot
  cases hnot

/-- The placeholder of a name without special characters has none. -/
theorem plain_placeholder {name : Str} (h : LuaPattern.Plain name) :
    LuaPattern.Plain (Template.placeholder 123 125 name) := by
  intro c hc
  rcases List.mem_cons.1 hc with rfl | hc
  · decide
  · rcases List.mem_append.1 hc with hc | hc
    · exact h c hc
    · rw [List.mem_singleton.1 hc]
      decide

section Input

variable {wfs : UMap Workflow} {state : DagState} {wf : Workflow} {stageId : Str} {stage : Stage}
  (hwf : wfs.lookup state.workflow = some wf) (hstage : wf.stage? stageId = some stage)
include hwf hstage

/-- The input of a stage is exact. -/
theorem buildStageInput_eq_exactInput
    (hparams : ∀ name ∈ state.params, ∀ c ∈ name, LuaPattern.isAlnum c = true)
    (hids : ∀ depId ∈ stage.dependsOn, Template.IsName 123 125 depId)
    (hliteral : ∀ pre p post, fills state stage = pre ++ p :: post → p.1 ∉ state.params →
      LuaPattern.Literal (fillTemplate pre stage.inputTemplate) (Template.placeholder 123 125 p.1))
    (hseparate : ∀ pre p post, fills state stage = pre ++ p :: post →
      Template.holes 123 125 p.1 (fillTemplate pre stage.inputTemplate) =
        if p.1 ∈ pre.map Prod.fst then 0 else Template.holes 123 125 p.1 stage.inputTemplate)
    (hpercent : ∀ p ∈ fills state stage, Template.holes 123 125 p.1 stage.inputTemplate ≠ 0 → 37 ∉ p.2) :
    buildStageInput wfs state stageId = some (exactInput state stage) := by
  rw [buildStageInput_eq_foldlM hwf hstage]
  refine foldlM_substitute (fun p hp => ?_) (fun pre p post hsplit => ?_) hseparate hpercent
  · rcases List.mem_append.1 hp with hp | hp
    · exact isName_of_alnum (hparams p.1 (AList.lookup_isSome.1 (by rw [AList.mem_pairs.1 hp]; rfl)))
    · obtain ⟨depId, hdep, rfl⟩ := List.mem_map.1 hp
      obtain ⟨hopen, hclose⟩ := hids depId hdep
      have hsuffix : Template.IsName 123 125 (str "_result") := by decide
      exact ⟨fun h => (List.mem_append.1 h).elim hopen hsuffix.1,
        fun h => (List.mem_append.1 h).elim hclose hsuffix.2⟩
  · by_cases hmem : p.1 ∈ state.params
    · exact LuaPattern.literal_of_plain _ (plain_placeholder (plain_of_alnum (hparams p.1 hmem)))
    · exact hliteral pre p post hsplit hmem

end Input

/-- The first workflow of the source after a success of its first stage. -/
def researched (text : Str) : DagState :=
  DagState.record (str "research") (some text) true
    { workflow := str "research_then_summarize"
      gatewaySession := str "sess_123"
      params := (∅ : UMap Str).insert (str "topic") (str "x")
      stageResults := ∅
      pendingStages := initialStages researchThenSummarize
      completedStages := ∅
      startedAt := 0 }

/-- The second stage of `research_then_summarize`. -/
def summarizeStage : Stage :=
  { id := str "summarize"
    capability := str "summarize"
    inputTemplate := str "总结以下研究报告，生成 200 字中文摘要:\n\x7bresearch_result\x7d"
    dependsOn := [str "research"] }

/-- A placeholder in a result stays, if its name had its turn before. -/
theorem summarize_input_exact :
    buildStageInput workflows (researched (str "see \x7btopic\x7d")) (str "summarize") =
      some (str "总结以下研究报告，生成 200 字中文摘要:\nsee \x7btopic\x7d") := by
  have hwf : workflows.lookup (researched (str "see \x7btopic\x7d")).workflow = some researchThenSummarize := by
    decide +kernel
  have hstage : researchThenSummarize.stage? (str "summarize") = some summarizeStage := by decide +kernel
  rw [buildStageInput_eq_exactInput hwf hstage (by decide +kernel) (by decide +kernel)
    (Outcome.forall_step_of_take (by decide +kernel)) (Outcome.forall_step_of_take (by decide +kernel))
    (by decide +kernel)]
  decide +kernel

/-- A percent sign in the result of the first stage makes the input of the second one fail. -/
theorem summarize_input_fails :
    (run (start workflows researchLaunch ∅) [.nextStages researchLaunch.dagId,
        .recordResult researchLaunch.dagId (str "research") (some (str "100%")) true]).lookup researchLaunch.dagId =
          some (researched (str "100%")) ∧
      buildStageInput workflows (researched (str "100%")) (str "summarize") = none ∧
      ¬∀ text, buildStageInput workflows (researched text) (str "summarize") =
        some (exactInput (researched text) summarizeStage) := by
  have hfails : buildStageInput workflows (researched (str "100%")) (str "summarize") = none := by decide +kernel
  refine ⟨rfl, hfails, fun h => ?_⟩
  have hexact := h (str "100%")
  rw [hfails] at hexact
  cases hexact

/-- A placeholder in a result does not stay, if its name has its turn later. -/
example :
    [(str "a_result", str "\x7bb_result\x7d"), (str "b_result", str "text")].foldlM substitute
      (str "\x7ba_result\x7d, \x7bb_result\x7d") = some (str "text, text") := by decide +kernel

/-! ## Errors -/

/-- A replacement raises an error only for a text with a percent sign that starts no escape. -/
theorem foldlM_substitute_isSome {texts : List (Str × Str)} (hname : ∀ p ∈ texts, LuaPattern.Plain p.1)
    (htext : ∀ p ∈ texts, LuaPattern.escaped p.2 = true) (input : Str) :
    (texts.foldlM substitute input).isSome := by
  induction texts generalizing input with
  | nil => rfl
  | cons p texts ih =>
    have hliteral := LuaPattern.literal_of_plain input (plain_placeholder (hname p List.mem_cons_self))
    have hexpand : (LuaPattern.expand (Template.placeholder 123 125 p.1) p.2).isSome := by
      rw [LuaPattern.isSome_expand]
      exact htext p List.mem_cons_self
    obtain ⟨text, htext'⟩ := Option.isSome_iff_exists.1 hexpand
    rw [List.foldlM_cons, substitute, placeholder_eq, LuaPattern.gsub_of_literal hliteral (by simp [Template.placeholder]),
      LuaPattern.replaceExpanded_of_expand htext', Option.bind_eq_bind, Option.bind_some]
    exact ih (fun q hq => hname q (List.mem_cons_of_mem _ hq)) (fun q hq => htext q (List.mem_cons_of_mem _ hq)) _

/-- Each percent sign in the parameters and the results starts an escape. -/
structure Escaped (state : DagState) : Prop where
  params : ∀ name text, state.params.lookup name = some text → LuaPattern.escaped text = true
  results : ∀ key text, state.stageResults.lookup key = some text → LuaPattern.escaped text = true

theorem Escaped.record {state : DagState} (h : Escaped state) (stageId : Str) {text : Option Str}
    (htext : LuaPattern.escaped (text.getD []) = true) (success : Bool) :
    Escaped (state.record stageId text success) := by
  unfold DagState.record
  cases state.pendingStages.lookup stageId with
  | none => exact h
  | some ps =>
    cases success with
    | true => exact ⟨h.params, AList.forall_lookup_insert h.results htext⟩
    | false => exact ⟨h.params, h.results⟩

theorem Escaped.buildStageInput_isSome {wfs : UMap Workflow} {state : DagState} {wf : Workflow} (h : Escaped state)
    (hwf : wfs.lookup state.workflow = some wf) (hparams : ∀ name ∈ state.params, LuaPattern.Plain name)
    (hids : ∀ stage ∈ wf.stages, ∀ depId ∈ stage.dependsOn, LuaPattern.Plain depId) (stageId : Str) :
    (buildStageInput wfs state stageId).isSome := by
  cases hstage : wf.stage? stageId with
  | none =>
    rw [buildStageInput, hwf, Option.bind_some, hstage]
    rfl
  | some stage =>
    rw [buildStageInput_eq_foldlM hwf hstage]
    refine foldlM_substitute_isSome (fun p hp => ?_) (fun p hp => ?_) _
    · rcases List.mem_append.1 hp with hp | hp
      · exact hparams p.1 (AList.lookup_isSome.1 (by rw [AList.mem_pairs.1 hp]; rfl))
      · obtain ⟨depId, hdep, rfl⟩ := List.mem_map.1 hp
        have hsuffix : LuaPattern.Plain (str "_result") := by decide
        intro c hc
        exact (List.mem_append.1 hc).elim (hids stage (List.mem_of_find?_eq_some hstage) depId hdep c) (hsuffix c)
    · rcases List.mem_append.1 hp with hp | hp
      · exact h.params p.1 p.2 (AList.mem_pairs.1 hp)
      · obtain ⟨depId, -, rfl⟩ := List.mem_map.1 hp
        change LuaPattern.escaped (state.resultOf depId) = true
        unfold DagState.resultOf
        cases hresult : state.stageResults.lookup (resultKey depId) with
        | none => rfl
        | some text => exact h.results _ text hresult

/-- In a run without such texts, the inputs of the ready stages can always be built. -/
theorem fillable_run {wfs : UMap Workflow} {wf : Workflow} {l : Launch}
    (hwf : wfs.lookup l.workflowName = some wf) (dags : UMap DagState) {ops : List Op}
    (hparams : ∀ name text, (l.params.getD ∅).lookup name = some text →
      LuaPattern.Plain name ∧ LuaPattern.escaped text = true)
    (hids : ∀ stage ∈ wf.stages, ∀ depId ∈ stage.dependsOn, LuaPattern.Plain depId)
    (htexts : ∀ stageId text success, .recordResult l.dagId stageId text success ∈ ops →
      LuaPattern.escaped (text.getD []) = true) :
    Fillable wfs l.dagId (run (start wfs l dags) ops) := by
  obtain ⟨state, hnew, hlookup⟩ := exists_lookup_run hwf dags ops
  have hstart : state.workflow = l.workflowName ∧ state.params = l.params.getD ∅ ∧ Escaped state := by
    rw [newDagState, hwf, Option.map_some, Option.some.injEq] at hnew
    subst hnew
    exact ⟨rfl, rfl, fun name text h => (hparams name text h).2, fun key text h => by cases h⟩
  obtain ⟨hworkflow, hsame, hescaped⟩ := foldl_after_invariant
    (P := fun state => state.workflow = l.workflowName ∧ state.params = l.params.getD ∅ ∧ Escaped state) hstart
    fun state stageId text success hmem h => by
      obtain ⟨hworkflow, hsame⟩ := state.record_static stageId text success
      exact ⟨hworkflow.trans h.1, hsame.trans h.2.1, h.2.2.record stageId (htexts stageId text success hmem) success⟩
  intro state' hstate' stageId _
  rw [hlookup, Option.some.injEq] at hstate'
  subst hstate'
  refine hescaped.buildStageInput_isSome (by rw [hworkflow, hwf]) (fun name hname => ?_) hids stageId
  rw [hsame] at hname
  obtain ⟨text, htext⟩ := Option.isSome_iff_exists.1 (AList.lookup_isSome.2 hname)
  exact (hparams name text htext).1

end OrchestratorDag

end LlmGateway
