import LlmGateway.Base
import LlmGateway.Lib.LuaPattern

/-!
# The orchestration of workflows

The state machine of `plugins/orchestrator_dag.lua`.  A workflow is a list of stages that may depend on other
stages.  `next_stages` gives the stages of a started workflow that can be executed, and `record_result` takes
their results.  The table of the workflows is a parameter (`wfs`); the one of the source is `workflows`.

The functions of the plugin run in Lua and can raise an error, `none`.  `string.gsub` is the only function that
does so for a workflow that is there.

A run is a list of calls, for any of the started workflows.  What the state of one of them is after a run depends
on the results that were recorded for it (`Tracks`): a stage is pending exactly if it has no result, it is never
`running`, and it is completed exactly if one of its results was a success.
-/

namespace LlmGateway

namespace OrchestratorDag

/-- A stage of a workflow. -/
structure Stage where
  id : Str
  capability : Str
  inputTemplate : Str
  dependsOn : List Str
  deriving DecidableEq

/-- The stages of a workflow, in their order. -/
structure Workflow where
  stages : List Stage
  deriving DecidableEq

/-- The workflow `research_then_summarize`. -/
def researchThenSummarize : Workflow :=
  ⟨[{ id := str "research"
      capability := str "web_research"
      inputTemplate := str "研究以下主题: \x7btopic\x7d"
      dependsOn := [] },
    { id := str "summarize"
      capability := str "summarize"
      inputTemplate := str "总结以下研究报告，生成 200 字中文摘要:\n\x7bresearch_result\x7d"
      dependsOn := [str "research"] }]⟩

/-- The workflow `parallel_translate`. -/
def parallelTranslate : Workflow :=
  ⟨[{ id := str "translate_cn"
      capability := str "translate"
      inputTemplate := str "翻译为中文: \x7btext\x7d"
      dependsOn := [] },
    { id := str "translate_ja"
      capability := str "translate"
      inputTemplate := str "翻译为日文: \x7btext\x7d"
      dependsOn := [] },
    { id := str "review"
      capability := str "review_translation"
      inputTemplate := str "校对以下翻译:\n中文: \x7btranslate_cn_result\x7d\n日文: \x7btranslate_ja_result\x7d"
      dependsOn := [str "translate_cn", str "translate_ja"] }]⟩

/-- The workflow `analyze_then_recommend`. -/
def analyzeThenRecommend : Workflow :=
  ⟨[{ id := str "analyze"
      capability := str "data_analysis"
      inputTemplate := str "分析以下数据: \x7bdata\x7d"
      dependsOn := [] },
    { id := str "recommend"
      capability := str "recommendation"
      inputTemplate := str "基于以下分析给出 3 条行动建议:\n\x7banalyze_result\x7d"
      dependsOn := [str "analyze"] }]⟩

/-- The table of the source. -/
def workflows : UMap Workflow :=
  (∅ : UMap Workflow).insertAll
    [(str "research_then_summarize", researchThenSummarize), (str "parallel_translate", parallelTranslate),
      (str "analyze_then_recommend", analyzeThenRecommend)]

/-! ## The state of a started workflow -/

/-- The status of a stage. -/
inductive StageStatus where
  | pending
  | running
  | done
  | failed
  deriving DecidableEq

/-- An entry of `pending_stages`. -/
structure PendingStage where
  id : Str
  capability : Str
  dependsOn : List Str
  status : StageStatus
  /-- `next_stages` reads it, and nothing sets it. -/
  timeoutMs : Option ℕ := none

/-- The state of a workflow that was started. -/
structure DagState where
  workflow : Str
  gatewaySession : Str
  params : UMap Str
  stageResults : UMap Str
  pendingStages : UMap PendingStage
  completedStages : UMap Bool
  startedAt : ℤ

/-- `pending_stages` at the start. -/
def initialStages (wf : Workflow) : UMap PendingStage :=
  wf.stages.foldl (fun pending stage => pending.insert stage.id
    { id := stage.id, capability := stage.capability, dependsOn := stage.dependsOn, status := .pending }) ∅

/-- `new_dag_state`, where `time` is `os.time()`. -/
def newDagState (wfs : UMap Workflow) (workflowName : Str) (params : Option (UMap Str)) (gatewaySession : Str)
    (time : ℤ) : Option DagState :=
  (wfs.lookup workflowName).map fun wf =>
    { workflow := workflowName
      gatewaySession
      params := params.getD ∅
      stageResults := ∅
      pendingStages := initialStages wf
      completedStages := ∅
      startedAt := time * 1000 }

/-- The stage that is found for an id. -/
def Workflow.stage? (wf : Workflow) (stageId : Str) : Option Stage := wf.stages.find? (·.id = stageId)

/-- `deps_satisfied`. -/
def depsSatisfied (wfs : UMap Workflow) (state : DagState) (stageId : Str) : Option Bool :=
  (wfs.lookup state.workflow).map fun wf =>
    match wf.stage? stageId with
    | some stage => stage.dependsOn.all fun depId => state.completedStages.lookup depId = some true
    | none => false

/-- One replacement of `build_stage_input`. -/
def substitute (input : Str) (p : Str × Str) : Option Str :=
  LuaPattern.gsub input (str "\x7b" ++ p.1 ++ str "\x7d") p.2

/-- The key of the result of a stage. -/
def resultKey (depId : Str) : Str := depId ++ str "_result"

/-- The result of a stage that `build_stage_input` inserts. -/
def DagState.resultOf (state : DagState) (depId : Str) : Str :=
  (state.stageResults.lookup (resultKey depId)).getD []

/-- `build_stage_input`. -/
def buildStageInput (wfs : UMap Workflow) (state : DagState) (stageId : Str) : Option Str :=
  (wfs.lookup state.workflow).bind fun wf =>
    match wf.stage? stageId with
    | some stage =>
        (state.params.pairs.foldlM substitute stage.inputTemplate).bind fun input =>
          (stage.dependsOn.map fun depId => (resultKey depId, state.resultOf depId)).foldlM substitute input
    | none => some []

/-! ## What the gateway calls -/

/-- An element of the list that `next_stages` returns. -/
structure ReadyStage where
  stageId : Str
  capability : Str
  input : Str
  timeoutMs : Option ℕ
  deriving DecidableEq

/-- One step of the loop of `next_stages`. -/
def collectReady (wfs : UMap Workflow) (state : DagState) (ready : List ReadyStage) (p : Str × PendingStage) :
    Option (List ReadyStage) :=
  if p.2.status = .pending then
    (depsSatisfied wfs state p.1).bind fun satisfied =>
      if satisfied then
        (buildStageInput wfs state p.1).map fun input => ready ++ [⟨p.1, p.2.capability, input, p.2.timeoutMs⟩]
      else some ready
  else some ready

/-- `next_stages`.  The inner `none` is the `nil` for an unknown id. -/
def nextStages (wfs : UMap Workflow) (dagId : Str) (dags : UMap DagState) : Option (Option (List ReadyStage)) :=
  match dags.lookup dagId with
  | none => some none
  | some state => (state.pendingStages.pairs.foldlM (collectReady wfs state) []).map some

/-- What `record_result` does to the state. -/
def DagState.record (stageId : Str) (resultText : Option Str) (success : Bool) (state : DagState) : DagState :=
  match state.pendingStages.lookup stageId with
  | none => state
  | some _ =>
      if success then
        { state with
          pendingStages := state.pendingStages.modify stageId fun ps => { ps with status := .done }
          completedStages := state.completedStages.insert stageId true
          stageResults := state.stageResults.insert (resultKey stageId) (resultText.getD []) }
      else { state with pendingStages := state.pendingStages.modify stageId fun ps => { ps with status := .failed } }

/-- The workflow and its parameters stay. -/
theorem DagState.record_static (state : DagState) (stageId : Str) (resultText : Option Str) (success : Bool) :
    (state.record stageId resultText success).workflow = state.workflow ∧
      (state.record stageId resultText success).params = state.params := by
  unfold record
  cases state.pendingStages.lookup stageId with
  | none => exact ⟨rfl, rfl⟩
  | some _ => cases success <;> exact ⟨rfl, rfl⟩

/-- `record_result`. -/
def recordResult (dagId stageId : Str) (resultText : Option Str) (success : Bool) (dags : UMap DagState) :
    Bool × UMap DagState :=
  match dags.lookup dagId with
  | none => (false, dags)
  | some _ => (true, dags.modify dagId (DagState.record stageId resultText success))

/-- `is_complete`. -/
def isComplete (dagId : Str) (dags : UMap DagState) : Bool :=
  match dags.lookup dagId with
  | none => true
  | some state => state.pendingStages.pairs.all fun p => !(p.2.status = .pending || p.2.status = .running)

/-! ## Runs -/

/-- A call from the gateway. -/
inductive Op where
  | nextStages (dagId : Str)
  | recordResult (dagId stageId : Str) (resultText : Option Str) (success : Bool)
  deriving DecidableEq

/-- What a call does to `active_dags`. -/
def perform : Op → UMap DagState → UMap DagState
  | .nextStages _, dags => dags
  | .recordResult dagId stageId resultText success, dags => (recordResult dagId stageId resultText success dags).2

/-- The workflows after some calls. -/
def run (dags : UMap DagState) (ops : List Op) : UMap DagState := ops.foldl (fun dags op => perform op dags) dags

/-- What `on_request` starts a workflow with. -/
structure Launch where
  workflowName : Str
  params : Option (UMap Str)
  gatewaySession : Str
  time : ℤ

/-- The id of a workflow that is started. -/
def Launch.dagId (l : Launch) : Str :=
  l.gatewaySession ++ str ":" ++ l.workflowName ++ str ":" ++ str (toString (l.time * 1000))

/-- `on_request` starts a workflow. -/
def start (wfs : UMap Workflow) (l : Launch) (dags : UMap DagState) : UMap DagState :=
  match newDagState wfs l.workflowName l.params l.gatewaySession l.time with
  | none => dags
  | some state => dags.insert l.dagId state

/-- The stages that a call of `next_stages` returns. -/
def handedOut (wfs : UMap Workflow) (dagId : Str) (dags : UMap DagState) : List Str :=
  match nextStages wfs dagId dags with
  | some (some ready) => ready.map ReadyStage.stageId
  | _ => []

/-- The stages of `dagId` that the calls of a run return, one after the other. -/
def returned (wfs : UMap Workflow) (dagId : Str) (dags : UMap DagState) : List Op → List Str
  | [] => []
  | op :: ops => (if op = .nextStages dagId then handedOut wfs dagId dags else []) ++
      returned wfs dagId (perform op dags) ops

/-- A result was recorded for the stage. -/
def hasResult (dagId stageId : Str) (ops : List Op) : Bool :=
  ops.any fun
    | .recordResult dagId' stageId' _ _ => dagId' = dagId && stageId' = stageId
    | _ => false

/-- A success was recorded for the stage. -/
def hasSucceeded (dagId stageId : Str) (ops : List Op) : Bool :=
  ops.any fun
    | .recordResult dagId' stageId' _ success => dagId' = dagId && stageId' = stageId && success
    | _ => false

/-! ## What a call of `next_stages` returns -/

/-- The stage is pending, and what it depends on is completed. -/
def DagState.Ready (wfs : UMap Workflow) (state : DagState) (stageId : Str) : Prop :=
  ∃ ps, state.pendingStages.lookup stageId = some ps ∧ ps.status = .pending ∧
    depsSatisfied wfs state stageId = some true

/-- The inputs of the ready stages can be built. -/
def Fillable (wfs : UMap Workflow) (dagId : Str) (dags : UMap DagState) : Prop :=
  ∀ state, dags.lookup dagId = some state → ∀ stageId, state.Ready wfs stageId →
    (buildStageInput wfs state stageId).isSome

/-- The test of `next_stages` on an entry. -/
def takes (wfs : UMap Workflow) (state : DagState) (p : Str × PendingStage) : Bool :=
  p.2.status = .pending && depsSatisfied wfs state p.1 = some true

section NextStages

variable {wfs : UMap Workflow} {dagId : Str} {dags : UMap DagState} {state : DagState}

theorem takes_iff (p : Str × PendingStage) :
    takes wfs state p = true ↔ p.2.status = .pending ∧ depsSatisfied wfs state p.1 = some true := by
  simp [takes]

theorem collectReady_of_takes {p : Str × PendingStage} (h : takes wfs state p = true) (ready : List ReadyStage) :
    collectReady wfs state ready p = (buildStageInput wfs state p.1).map fun input =>
      ready ++ [⟨p.1, p.2.capability, input, p.2.timeoutMs⟩] := by
  obtain ⟨hstatus, hdeps⟩ := (takes_iff p).1 h
  rw [collectReady, if_pos hstatus, hdeps, Option.bind_some, if_pos rfl]

theorem collectReady_of_not_takes (hwf : (wfs.lookup state.workflow).isSome) {p : Str × PendingStage}
    (h : ¬takes wfs state p = true) (ready : List ReadyStage) : collectReady wfs state ready p = some ready := by
  obtain ⟨wf, hwf⟩ := Option.isSome_iff_exists.1 hwf
  rw [takes_iff, depsSatisfied, hwf, Option.map_some, Option.some.injEq] at h
  rw [collectReady, depsSatisfied, hwf, Option.map_some, Option.bind_some]
  split_ifs with hstatus hdeps
  · exact absurd ⟨hstatus, hdeps⟩ h
  · rfl
  · rfl

/-- The loop lists the ready stages in the order of the table, if all their inputs can be built. -/
theorem foldlM_collectReady (hwf : (wfs.lookup state.workflow).isSome) (pairs : List (Str × PendingStage))
    (ready : List ReadyStage) :
    (pairs.foldlM (collectReady wfs state) ready).map (List.map ReadyStage.stageId) =
      if ∀ p ∈ pairs.filter (takes wfs state), (buildStageInput wfs state p.1).isSome then
        some (ready.map ReadyStage.stageId ++ (pairs.filter (takes wfs state)).map Prod.fst)
      else none := by
  induction pairs generalizing ready with
  | nil => simp
  | cons p pairs ih =>
    rw [List.foldlM_cons]
    by_cases htakes : takes wfs state p = true
    · rw [collectReady_of_takes htakes, List.filter_cons_of_pos htakes]
      cases hinput : buildStageInput wfs state p.1 with
      | none => simp [hinput]
      | some input =>
        have hall : (∀ q ∈ p :: pairs.filter (takes wfs state), (buildStageInput wfs state q.1).isSome) ↔
            ∀ q ∈ pairs.filter (takes wfs state), (buildStageInput wfs state q.1).isSome := by
          rw [List.forall_mem_cons, hinput]
          exact and_iff_right rfl
        rw [if_congr hall rfl rfl, Option.map_some]
        refine (ih (ready ++ [⟨p.1, p.2.capability, input, p.2.timeoutMs⟩])).trans ?_
        simp
    · rw [collectReady_of_not_takes hwf htakes, List.filter_cons_of_neg htakes]
      exact ih ready

theorem exists_takes_iff (stageId : Str) :
    stageId ∈ (state.pendingStages.pairs.filter (takes wfs state)).map Prod.fst ↔ state.Ready wfs stageId := by
  simp only [List.mem_map, List.mem_filter, takes_iff]
  constructor
  · rintro ⟨⟨_, ps⟩, ⟨hmem, hstatus, hdeps⟩, rfl⟩
    exact ⟨ps, AList.mem_pairs.1 hmem, hstatus, hdeps⟩
  · rintro ⟨ps, hlookup, hstatus, hdeps⟩
    exact ⟨(stageId, ps), ⟨AList.mem_pairs.2 hlookup, hstatus, hdeps⟩, rfl⟩

variable (hstate : dags.lookup dagId = some state) (hwf : (wfs.lookup state.workflow).isSome)
include hstate hwf

/-- The ids in the answer, or `none` for an error. -/
theorem nextStages_ids :
    (nextStages wfs dagId dags).map (Option.map (List.map ReadyStage.stageId)) =
      if ∀ p ∈ state.pendingStages.pairs.filter (takes wfs state), (buildStageInput wfs state p.1).isSome then
        some (some ((state.pendingStages.pairs.filter (takes wfs state)).map Prod.fst))
      else none := by
  have hloop := foldlM_collectReady hwf state.pendingStages.pairs []
  rw [nextStages, hstate]
  simp only [Option.map_map, List.map_nil, List.nil_append] at hloop ⊢
  split_ifs at hloop ⊢ with hinputs
  · obtain ⟨ready, hready, hids⟩ := Option.map_eq_some_iff.1 hloop
    rw [hready, Option.map_some, ← hids]
    rfl
  · rw [Option.map_eq_none_iff.1 hloop]
    rfl

omit hwf in
theorem fillable_iff : Fillable wfs dagId dags ↔
    ∀ p ∈ state.pendingStages.pairs.filter (takes wfs state), (buildStageInput wfs state p.1).isSome := by
  constructor
  · intro h p hp
    exact h state hstate p.1 ((exists_takes_iff p.1).1 (List.mem_map_of_mem hp))
  · intro h state' hstate' stageId hready
    rw [hstate] at hstate'
    cases hstate'
    obtain ⟨p, hp, rfl⟩ := List.mem_map.1 ((exists_takes_iff stageId).2 hready)
    exact h p hp

/-- `next_stages` raises no error exactly if the inputs of all ready stages can be built. -/
theorem nextStages_isSome_iff : (nextStages wfs dagId dags).isSome ↔ Fillable wfs dagId dags := by
  rw [fillable_iff hstate, ← Option.isSome_map, nextStages_ids hstate hwf]
  split_ifs with h
  · exact iff_of_true rfl h
  · exact iff_of_false (by simp) h

theorem handedOut_eq : handedOut wfs dagId dags =
    if ∀ p ∈ state.pendingStages.pairs.filter (takes wfs state), (buildStageInput wfs state p.1).isSome then
      (state.pendingStages.pairs.filter (takes wfs state)).map Prod.fst
    else [] := by
  have hids := nextStages_ids hstate hwf
  rw [handedOut]
  split_ifs at hids ⊢
  · obtain ⟨answer, hanswer, hmap⟩ := Option.map_eq_some_iff.1 hids
    obtain ⟨ready, rfl, hready⟩ := Option.map_eq_some_iff.1 hmap
    rw [hanswer]
    exact hready
  · rw [Option.map_eq_none_iff.1 hids]

/-- A stage is handed out exactly if it is ready, and no ready stage makes the call fail. -/
theorem mem_handedOut_iff (stageId : Str) :
    stageId ∈ handedOut wfs dagId dags ↔ Fillable wfs dagId dags ∧ state.Ready wfs stageId := by
  rw [handedOut_eq hstate hwf, fillable_iff hstate, ← exists_takes_iff]
  split_ifs with h
  · rw [and_iff_right h]
  · exact iff_of_false List.not_mem_nil fun h' => h h'.1

/-- One call returns no stage twice. -/
theorem nodup_handedOut : (handedOut wfs dagId dags).Nodup := by
  rw [handedOut_eq hstate hwf]
  split_ifs
  · refine List.Nodup.sublist (List.filter_sublist.map Prod.fst) ?_
    rw [AList.map_fst_pairs]
    exact state.pendingStages.keys_nodup
  · exact List.nodup_nil

/-- `next_stages` returns a stage exactly if its loop finds one and raises no error. -/
theorem exists_nextStages_iff : (∃ stage ready, nextStages wfs dagId dags = some (some (stage :: ready))) ↔
    Fillable wfs dagId dags ∧ ∃ stageId, state.Ready wfs stageId := by
  constructor
  · rintro ⟨stage, ready, h⟩
    have hmem : stage.stageId ∈ handedOut wfs dagId dags := by simp [handedOut, h]
    obtain ⟨hfill, hready⟩ := (mem_handedOut_iff hstate hwf _).1 hmem
    exact ⟨hfill, _, hready⟩
  · rintro ⟨hfill, stageId, hready⟩
    have hmem := (mem_handedOut_iff hstate hwf stageId).2 ⟨hfill, hready⟩
    unfold handedOut at hmem
    split at hmem
    · next ready hnext =>
      obtain ⟨stage, hstage, -⟩ := List.mem_map.1 hmem
      obtain ⟨first, rest, rfl⟩ := List.exists_cons_of_ne_nil (List.ne_nil_of_mem hstage)
      exact ⟨first, rest, hnext⟩
    · cases hmem

end NextStages

/-! ## One workflow among the others -/

/-- What a call does to the state of one workflow. -/
def DagState.after (dagId : Str) (state : DagState) : Op → DagState
  | .nextStages _ => state
  | .recordResult dagId' stageId text success => if dagId' = dagId then state.record stageId text success else state

section After

variable {dagId : Str} {dags : UMap DagState} {state : DagState}

theorem lookup_perform (hstate : dags.lookup dagId = some state) (op : Op) :
    (perform op dags).lookup dagId = some (state.after dagId op) := by
  cases op with
  | nextStages _ => exact hstate
  | recordResult dagId' stageId text success =>
    simp only [perform, recordResult, DagState.after]
    split_ifs with hdag
    · rw [hdag, hstate]
      simp only [AList.lookup_modify, hstate, Option.map_some]
    · -- a result for another workflow
      cases dags.lookup dagId' with
      | none => exact hstate
      | some _ => exact (AList.lookup_modify_ne (Ne.symm hdag) _ _).trans hstate

/-- A run of the table is a run of each workflow. -/
theorem lookup_run (hstate : dags.lookup dagId = some state) (ops : List Op) :
    (run dags ops).lookup dagId = some (ops.foldl (DagState.after dagId) state) := by
  induction ops generalizing dags state with
  | nil => exact hstate
  | cons op ops ih => exact ih (lookup_perform hstate op)

/-- What each result for a workflow preserves, a run preserves. -/
theorem foldl_after_invariant {P : DagState → Prop} {ops : List Op} (h : P state)
    (hrecord : ∀ state stageId text success, .recordResult dagId stageId text success ∈ ops → P state →
      P (state.record stageId text success)) : P (ops.foldl (DagState.after dagId) state) := by
  induction ops generalizing state with
  | nil => exact h
  | cons op ops ih =>
    refine ih ?_ fun state stageId text success hmem => hrecord state stageId text success (List.mem_cons_of_mem _ hmem)
    cases op with
    | nextStages _ => exact h
    | recordResult dagId' stageId text success =>
      rw [DagState.after]
      split_ifs with hdag
      · subst hdag
        exact hrecord state stageId text success List.mem_cons_self h
      · exact h

end After

/-- The state of a workflow after its start and a run. -/
theorem exists_lookup_run {wfs : UMap Workflow} {wf : Workflow} {l : Launch}
    (hwf : wfs.lookup l.workflowName = some wf) (dags : UMap DagState) (ops : List Op) :
    ∃ state, newDagState wfs l.workflowName l.params l.gatewaySession l.time = some state ∧
      (run (start wfs l dags) ops).lookup l.dagId = some (ops.foldl (DagState.after l.dagId) state) := by
  have hsome : (newDagState wfs l.workflowName l.params l.gatewaySession l.time).isSome := by
    rw [newDagState, hwf]
    rfl
  obtain ⟨state, hstate⟩ := Option.isSome_iff_exists.1 hsome
  refine ⟨state, hstate, lookup_run ?_ ops⟩
  rw [start, hstate]
  exact AList.lookup_insert _

/-! ## What a run leaves -/

/-- The ids of the stages. -/
def Workflow.ids (wf : Workflow) : List Str := wf.stages.map Stage.id

theorem Workflow.stage?_isSome_iff (wf : Workflow) (stageId : Str) :
    (wf.stage? stageId).isSome ↔ stageId ∈ wf.ids := by
  rw [stage?, List.find?_isSome, ids, List.mem_map]
  simp only [decide_eq_true_eq]

/-- The state of a workflow after the calls of a run. -/
structure Tracks (wf : Workflow) (dagId workflowName : Str) (ops : List Op) (state : DagState) : Prop where
  workflow : state.workflow = workflowName
  ids : ∀ stageId, stageId ∈ state.pendingStages ↔ stageId ∈ wf.ids
  notRunning : ∀ stageId ps, state.pendingStages.lookup stageId = some ps → ps.status ≠ .running
  pending : ∀ stageId ps, state.pendingStages.lookup stageId = some ps →
    (ps.status = .pending ↔ hasResult dagId stageId ops = false)
  completed : ∀ stageId, state.completedStages.lookup stageId = some true ↔
    stageId ∈ wf.ids ∧ hasSucceeded dagId stageId ops = true

theorem lookup_initialStages (wf : Workflow) (stageId : Str) :
    (∀ ps, (initialStages wf).lookup stageId = some ps → ps.status = .pending) ∧
      (stageId ∈ initialStages wf ↔ stageId ∈ wf.ids) := by
  rw [initialStages, Workflow.ids]
  induction wf.stages using List.reverseRecOn with
  | nil => simp
  | append_singleton stages stage ih =>
    rw [List.foldl_append, List.foldl_cons, List.foldl_nil, List.map_append, List.mem_append, ← ih.2,
      AList.mem_insert, or_comm]
    refine ⟨fun ps hps => ?_, by simp⟩
    by_cases hid : stageId = stage.id
    · rw [hid, AList.lookup_insert, Option.some.injEq] at hps
      rw [← hps]
    · rw [AList.lookup_insert_ne hid] at hps
      exact ih.1 ps hps

section History

variable {dagId stageId : Str}

theorem hasResult_append (ops ops' : List Op) :
    hasResult dagId stageId (ops ++ ops') = (hasResult dagId stageId ops || hasResult dagId stageId ops') :=
  List.any_append

theorem hasSucceeded_append (ops ops' : List Op) :
    hasSucceeded dagId stageId (ops ++ ops') =
      (hasSucceeded dagId stageId ops || hasSucceeded dagId stageId ops') :=
  List.any_append

theorem hasResult_of_hasSucceeded {ops : List Op} (h : hasSucceeded dagId stageId ops = true) :
    hasResult dagId stageId ops = true := by
  obtain ⟨op, hop, hsuccess⟩ := List.any_eq_true.1 h
  refine List.any_eq_true.2 ⟨op, hop, ?_⟩
  cases op with
  | nextStages _ => cases hsuccess
  | recordResult dagId' stageId' _ success => simp_all

end History

section Step

variable {wf : Workflow} {dagId workflowName : Str} {ops : List Op} {state : DagState}

theorem tracks_start {wfs : UMap Workflow} {params : Option (UMap Str)} {gatewaySession : Str} {time : ℤ}
    (h : newDagState wfs workflowName params gatewaySession time = some state)
    (hwf : wfs.lookup workflowName = some wf) : Tracks wf dagId workflowName [] state := by
  rw [newDagState, hwf, Option.map_some, Option.some.injEq] at h
  subst h
  have hstages := lookup_initialStages wf
  exact {
    workflow := rfl
    ids := fun stageId => (hstages stageId).2
    notRunning := fun stageId ps hps => by
      rw [(hstages stageId).1 ps hps]
      exact fun h => nomatch h
    pending := fun stageId ps hps => iff_of_true ((hstages stageId).1 ps hps) rfl
    completed := fun stageId => by simp [hasSucceeded] }

variable (h : Tracks wf dagId workflowName ops state)
include h

/-- The state with a new status for a stage that got a result. -/
theorem Tracks.settle {stageId₀ : Str} {ps₀ : PendingStage}
    (hlookup : state.pendingStages.lookup stageId₀ = some ps₀) {status : StageStatus} (hrunning : status ≠ .running)
    (hpending : status ≠ .pending) {ops' : List Op}
    (hresult : ∀ stageId, hasResult dagId stageId ops' = (hasResult dagId stageId ops || decide (stageId₀ = stageId)))
    {completed : UMap Bool} (hcompleted : ∀ stageId, completed.lookup stageId = some true ↔
      stageId ∈ wf.ids ∧ hasSucceeded dagId stageId ops' = true) (results : UMap Str) :
    Tracks wf dagId workflowName ops'
      { state with
        pendingStages := state.pendingStages.modify stageId₀ fun ps => { ps with status }
        completedStages := completed
        stageResults := results } := by
  have hentry : ∀ stageId ps,
      (state.pendingStages.modify stageId₀ fun ps => { ps with status }).lookup stageId = some ps →
        ps.status ≠ .running ∧ (ps.status = .pending ↔ hasResult dagId stageId ops' = false) := by
    intro stageId ps hps
    rw [hresult]
    by_cases heq : stageId = stageId₀
    · rw [heq, AList.lookup_modify, hlookup, Option.map_some, Option.some.injEq] at hps
      rw [← hps, heq]
      exact ⟨hrunning, iff_of_false hpending (by simp)⟩
    · rw [AList.lookup_modify_ne heq] at hps
      rw [decide_eq_false (Ne.symm heq), Bool.or_false]
      exact ⟨h.notRunning stageId ps hps, h.pending stageId ps hps⟩
  exact {
    workflow := h.workflow
    ids := fun stageId => by
      rw [AList.mem_keys, AList.keys_modify, ← AList.mem_keys]
      exact h.ids stageId
    notRunning := fun stageId ps hps => (hentry stageId ps hps).1
    pending := fun stageId ps hps => (hentry stageId ps hps).2
    completed := hcompleted }

/-- A result decides on the status of its stage. -/
theorem Tracks.record (stageId₀ : Str) (text : Option Str) (success : Bool) :
    Tracks wf dagId workflowName (ops ++ [.recordResult dagId stageId₀ text success])
      (state.record stageId₀ text success) := by
  have hresult : ∀ stageId, hasResult dagId stageId (ops ++ [.recordResult dagId stageId₀ text success]) =
      (hasResult dagId stageId ops || decide (stageId₀ = stageId)) := fun stageId => by
    rw [hasResult_append]
    simp [hasResult]
  have hsuccess : ∀ stageId, hasSucceeded dagId stageId (ops ++ [.recordResult dagId stageId₀ text success]) =
      (hasSucceeded dagId stageId ops || (decide (stageId₀ = stageId) && success)) := fun stageId => by
    rw [hasSucceeded_append]
    simp [hasSucceeded]
  unfold DagState.record
  cases hlookup : state.pendingStages.lookup stageId₀ with
  | none =>
    -- a result for a stage that the workflow does not have
    have hunknown : stageId₀ ∉ wf.ids := by
      rw [← h.ids]
      exact AList.lookup_eq_none.1 hlookup
    have hne : ∀ stageId ∈ wf.ids, stageId₀ ≠ stageId := fun stageId hmem heq => hunknown (heq ▸ hmem)
    exact {
      workflow := h.workflow
      ids := h.ids
      notRunning := h.notRunning
      pending := fun stageId ps hps => by
        have hmem : stageId ∈ wf.ids := (h.ids stageId).1 (AList.lookup_isSome.1 (by rw [hps]; rfl))
        rw [hresult, decide_eq_false (hne stageId hmem), Bool.or_false]
        exact h.pending stageId ps hps
      completed := fun stageId => by
        rw [h.completed]
        refine and_congr_right fun hmem => ?_
        rw [hsuccess, decide_eq_false (hne stageId hmem), Bool.false_and, Bool.or_false] }
  | some ps₀ =>
    have hknown : stageId₀ ∈ wf.ids := (h.ids stageId₀).1 (AList.lookup_isSome.1 (by rw [hlookup]; rfl))
    cases success with
    | true =>
      refine h.settle hlookup (by decide) (by decide) hresult (fun stageId => ?_) _
      rw [hsuccess]
      by_cases heq : stageId = stageId₀
      · rw [heq, AList.lookup_insert]
        exact iff_of_true rfl ⟨hknown, by simp⟩
      · rw [AList.lookup_insert_ne heq, h.completed, decide_eq_false (Ne.symm heq), Bool.false_and, Bool.or_false]
    | false =>
      refine h.settle hlookup (by decide) (by decide) hresult (fun stageId => ?_) _
      rw [hsuccess, Bool.and_false, Bool.or_false]
      exact h.completed stageId

/-- A call that is not a result for the workflow leaves its state as it is. -/
theorem Tracks.other {op : Op} (hop : ∀ stageId text success, op ≠ .recordResult dagId stageId text success) :
    Tracks wf dagId workflowName (ops ++ [op]) state := by
  have hnone : ∀ stageId, hasResult dagId stageId [op] = false := by
    intro stageId
    cases op with
    | nextStages _ => rfl
    | recordResult dagId' stageId' text success =>
      have hne : dagId' ≠ dagId := fun h => hop stageId' text success (h ▸ rfl)
      simp [hasResult, hne]
  have hresult : ∀ stageId, hasResult dagId stageId (ops ++ [op]) = hasResult dagId stageId ops := by
    intro stageId
    rw [hasResult_append, hnone, Bool.or_false]
  have hsuccess : ∀ stageId, hasSucceeded dagId stageId (ops ++ [op]) = hasSucceeded dagId stageId ops := by
    intro stageId
    rw [hasSucceeded_append, Bool.or_eq_left_iff_imp.2 fun h => absurd (hasResult_of_hasSucceeded h) (by simp [hnone])]
  exact {
    workflow := h.workflow
    ids := h.ids
    notRunning := h.notRunning
    pending := by simpa only [hresult] using h.pending
    completed := by simpa only [hsuccess] using h.completed }

theorem Tracks.after (op : Op) : Tracks wf dagId workflowName (ops ++ [op]) (state.after dagId op) := by
  cases op with
  | nextStages dagId' => exact h.other fun _ _ _ => Op.noConfusion
  | recordResult dagId' stageId text success =>
    rw [DagState.after]
    split_ifs with hdag
    · subst hdag
      exact h.record stageId text success
    · exact h.other fun _ _ _ heq => hdag (Op.recordResult.inj heq).1

end Step

/-- The stage has no result yet, and all that it depends on were successes. -/
def Due (wf : Workflow) (dagId stageId : Str) (ops : List Op) : Prop :=
  ∃ stage, wf.stage? stageId = some stage ∧ hasResult dagId stageId ops = false ∧
    ∀ depId ∈ stage.dependsOn, depId ∈ wf.ids ∧ hasSucceeded dagId depId ops = true

section Run

variable {wfs : UMap Workflow} {wf : Workflow} {l : Launch} (hwf : wfs.lookup l.workflowName = some wf)
  (dags : UMap DagState) (ops : List Op)
include hwf

/-- The state of a started workflow after any run. -/
theorem exists_tracks : ∃ state, (run (start wfs l dags) ops).lookup l.dagId = some state ∧
    Tracks wf l.dagId l.workflowName ops state := by
  obtain ⟨state, hnew, hlookup⟩ := exists_lookup_run hwf dags ops
  refine ⟨_, hlookup, ?_⟩
  clear hlookup
  induction ops using List.reverseRecOn with
  | nil => exact tracks_start hnew hwf
  | append_singleton ops op ih =>
    rw [List.foldl_append]
    exact ih.after op

theorem Tracks.isSome_lookup {ops : List Op} {state : DagState}
    (h : Tracks wf l.dagId l.workflowName ops state) : (wfs.lookup state.workflow).isSome := by
  rw [h.workflow, hwf]
  rfl

/-- The ready stages are the due ones. -/
theorem Tracks.ready_iff {ops : List Op} {state : DagState} (h : Tracks wf l.dagId l.workflowName ops state)
    (stageId : Str) : state.Ready wfs stageId ↔ Due wf l.dagId stageId ops := by
  have hdeps : depsSatisfied wfs state stageId = some true ↔ ∃ stage, wf.stage? stageId = some stage ∧
      ∀ depId ∈ stage.dependsOn, depId ∈ wf.ids ∧ hasSucceeded l.dagId depId ops = true := by
    rw [depsSatisfied, h.workflow, hwf, Option.map_some, Option.some.injEq]
    cases hstage : wf.stage? stageId with
    | none => simp
    | some stage => simp [h.completed]
  rw [DagState.Ready, Due]
  constructor
  · rintro ⟨ps, hps, hpending, hsatisfied⟩
    obtain ⟨stage, hstage, hall⟩ := hdeps.1 hsatisfied
    exact ⟨stage, hstage, (h.pending stageId ps hps).1 hpending, hall⟩
  · rintro ⟨stage, hstage, hopen, hall⟩
    have hmem : stageId ∈ wf.ids := (wf.stage?_isSome_iff stageId).1 (by rw [hstage]; rfl)
    obtain ⟨ps, hps⟩ := Option.isSome_iff_exists.1 (AList.lookup_isSome.2 ((h.ids stageId).2 hmem))
    exact ⟨ps, hps, (h.pending stageId ps hps).2 hopen, hdeps.2 ⟨stage, hstage, hall⟩⟩

/-- What `next_stages` returns after a run. -/
theorem mem_handedOut_run (stageId : Str) :
    stageId ∈ handedOut wfs l.dagId (run (start wfs l dags) ops) ↔
      Fillable wfs l.dagId (run (start wfs l dags) ops) ∧ Due wf l.dagId stageId ops := by
  obtain ⟨state, hstate, htracks⟩ := exists_tracks hwf dags ops
  rw [mem_handedOut_iff hstate (htracks.isSome_lookup hwf), htracks.ready_iff hwf]

/-- `next_stages` raises no error after a run exactly if the inputs of the ready stages can be built. -/
theorem nextStages_run_isSome_iff :
    (nextStages wfs l.dagId (run (start wfs l dags) ops)).isSome ↔
      Fillable wfs l.dagId (run (start wfs l dags) ops) := by
  obtain ⟨state, hstate, htracks⟩ := exists_tracks hwf dags ops
  exact nextStages_isSome_iff hstate (htracks.isSome_lookup hwf)

end Run

/-- A start of the first workflow of the source. -/
def researchLaunch : Launch :=
  { workflowName := str "research_then_summarize"
    params := some ((∅ : UMap Str).insert (str "topic") (str "x"))
    gatewaySession := str "sess_123"
    time := 0 }

theorem lookup_researchLaunch : workflows.lookup researchLaunch.workflowName = some researchThenSummarize := by
  decide +kernel

end OrchestratorDag

end LlmGateway
