import LlmGateway.OrchestratorDag

/-!
# The results of a workflow

`collect_results` gives the texts that were recorded for the completed stages, and the one of the last stage in
the list of the workflow as the final one.

`collectResults_run`: after any run these are the texts of the last successes, and an empty one stands for the
last stage if it has none.  What is recorded for other workflows, or as a failure, does not count.  The inputs
of the stages have the same texts in them (`resultOf_run`).
-/

namespace LlmGateway

namespace OrchestratorDag

/-- What `collect_results` returns. -/
structure CollectedResults where
  workflow : Str
  results : UMap Str
  final : Str
  durationMs : ℤ
  stageCount : ℕ

/-- `collect_results`, where `time` is `os.time()`.  A workflow without stages has no last one, which is an
error; the inner `none` is the `nil` for an unknown id. -/
def collectResults (wfs : UMap Workflow) (dagId : Str) (time : ℤ) (dags : UMap DagState) :
    Option (Option CollectedResults) :=
  match dags.lookup dagId with
  | none => some none
  | some state =>
    let results := (∅ : UMap Str).insertAll
      (state.completedStages.keys.map fun stageId => (stageId, state.resultOf stageId))
    (wfs.lookup state.workflow).bind fun wf => wf.stages.getLast?.map fun last =>
      some
        { workflow := state.workflow
          results
          final := state.resultOf last.id
          durationMs := time * 1000 - state.startedAt
          stageCount := wf.stages.length }

/-- The text of a success of the stage. -/
def successText (dagId stageId : Str) : Op → Option Str
  | .recordResult dagId' stageId' text true =>
    if dagId' = dagId ∧ stageId' = stageId then some (text.getD []) else none
  | _ => none

/-- The text of its last success. -/
def lastSuccess (dagId stageId : Str) (ops : List Op) : Option Str :=
  ops.reverse.findSome? (successText dagId stageId)

theorem lastSuccess_append_singleton (dagId stageId : Str) (ops : List Op) (op : Op) :
    lastSuccess dagId stageId (ops ++ [op]) =
      (successText dagId stageId op).or (lastSuccess dagId stageId ops) := by
  rw [lastSuccess, List.reverse_append, List.reverse_singleton, List.singleton_append, List.findSome?_cons]
  cases successText dagId stageId op <;> rfl

theorem resultKey_injective : Function.Injective resultKey := fun _ _ h => List.append_cancel_right h

/-- The texts and the completed stages after the calls of a run. -/
structure Collects (wf : Workflow) (dagId : Str) (ops : List Op) (state : DagState) : Prop where
  results : ∀ stageId, state.stageResults.lookup (resultKey stageId) =
    if stageId ∈ wf.ids then lastSuccess dagId stageId ops else none
  completed : ∀ stageId, stageId ∈ state.completedStages ↔
    (state.stageResults.lookup (resultKey stageId)).isSome

section Collects

variable {wf : Workflow} {dagId workflowName : Str} {ops : List Op} {state : DagState}

theorem Collects.other {op : Op} (h : Collects wf dagId ops state)
    (hop : ∀ stageId ∈ wf.ids, successText dagId stageId op = none) :
    Collects wf dagId (ops ++ [op]) state where
  results stageId := by
    rw [h.results]
    refine if_ctx_congr Iff.rfl (fun hmem => ?_) fun _ => rfl
    rw [lastSuccess_append_singleton, hop stageId hmem, Option.none_or]
  completed := h.completed

/-- A success puts its text in the place of the one before. -/
theorem Collects.record (h : Collects wf dagId ops state) (htracks : Tracks wf dagId workflowName ops state)
    (stageId₀ : Str) (text : Option Str) (success : Bool) :
    Collects wf dagId (ops ++ [.recordResult dagId stageId₀ text success])
      (state.record stageId₀ text success) := by
  unfold DagState.record
  cases hlookup : state.pendingStages.lookup stageId₀ with
  | none =>
    have hunknown : stageId₀ ∉ wf.ids := by
      rw [← htracks.ids]
      exact AList.lookup_eq_none.1 hlookup
    refine h.other fun stageId hmem => ?_
    cases success with
    | false => rfl
    | true =>
      rw [successText, if_neg]
      exact fun heq => hunknown (heq.2 ▸ hmem)
  | some ps =>
    have hknown : stageId₀ ∈ wf.ids := (htracks.ids stageId₀).1 (AList.lookup_isSome.1 (by rw [hlookup]; rfl))
    cases success with
    | false =>
      have hother : Collects wf dagId (ops ++ [.recordResult dagId stageId₀ text false]) state :=
        h.other fun _ _ => rfl
      exact ⟨hother.results, hother.completed⟩
    | true =>
      rw [if_pos rfl]
      constructor
      · intro stageId
        dsimp only
        rw [lastSuccess_append_singleton, successText]
        by_cases heq : stageId = stageId₀
        · rw [heq, AList.lookup_insert, if_pos hknown, if_pos ⟨rfl, rfl⟩, Option.some_or]
        · have hnone : ¬(dagId = dagId ∧ stageId₀ = stageId) := fun hsame => heq hsame.2.symm
          rw [AList.lookup_insert_ne fun hkey => heq (resultKey_injective hkey), h.results, if_neg hnone,
            Option.none_or]
      · intro stageId
        dsimp only
        by_cases heq : stageId = stageId₀
        · rw [heq, AList.lookup_insert]
          exact iff_of_true ((AList.mem_insert _).2 (Or.inl rfl)) rfl
        · rw [AList.lookup_insert_ne fun hkey => heq (resultKey_injective hkey), AList.mem_insert,
            or_iff_right heq, h.completed]

theorem Collects.after (h : Collects wf dagId ops state) (htracks : Tracks wf dagId workflowName ops state)
    (op : Op) : Collects wf dagId (ops ++ [op]) (state.after dagId op) := by
  cases op with
  | nextStages dagId' => exact h.other fun _ _ => rfl
  | recordResult dagId' stageId text success =>
    rw [DagState.after]
    split_ifs with hdag
    · subst hdag
      exact h.record htracks stageId text success
    · refine h.other fun stageId' _ => ?_
      cases success with
      | false => rfl
      | true =>
        rw [successText, if_neg]
        exact fun heq => hdag heq.1

end Collects

section Run

variable {wfs : UMap Workflow} {wf : Workflow} {l : Launch} (hwf : wfs.lookup l.workflowName = some wf)
  (dags : UMap DagState) (ops : List Op)
include hwf

theorem exists_collects : ∃ state, (run (start wfs l dags) ops).lookup l.dagId = some state ∧
    state.workflow = l.workflowName ∧ state.startedAt = l.time * 1000 ∧ Collects wf l.dagId ops state := by
  obtain ⟨state, hnew, hlookup⟩ := exists_lookup_run hwf dags ops
  refine ⟨_, hlookup, ?_⟩
  clear hlookup
  have hboth : Tracks wf l.dagId l.workflowName ops (ops.foldl (DagState.after l.dagId) state) ∧
      Collects wf l.dagId ops (ops.foldl (DagState.after l.dagId) state) := by
    induction ops using List.reverseRecOn with
    | nil =>
      refine ⟨tracks_start hnew hwf, ?_⟩
      rw [newDagState, hwf, Option.map_some, Option.some.injEq] at hnew
      subst hnew
      exact ⟨fun stageId => (ite_self none).symm,
        fun stageId => iff_of_false (AList.notMem_empty stageId) Bool.false_ne_true⟩
    | append_singleton ops op ih =>
      rw [List.foldl_append, List.foldl_cons, List.foldl_nil]
      exact ⟨ih.1.after op, ih.2.after ih.1 op⟩
  have hstatic : (ops.foldl (DagState.after l.dagId) state).startedAt = l.time * 1000 := by
    refine foldl_after_invariant (P := fun state => state.startedAt = l.time * 1000) ?_ ?_
    · rw [newDagState, hwf, Option.map_some, Option.some.injEq] at hnew
      subst hnew
      rfl
    · intro state stageId text success _ h
      unfold DagState.record
      cases state.pendingStages.lookup stageId with
      | none => exact h
      | some ps => cases success <;> exact h
  exact ⟨hboth.1.workflow, hstatic, hboth.2⟩

/-- The text that stands for a stage in the inputs of the stages that depend on it. -/
theorem resultOf_run {stageId : Str} (hmem : stageId ∈ wf.ids) :
    ((run (start wfs l dags) ops).lookup l.dagId).map (DagState.resultOf · stageId) =
      some ((lastSuccess l.dagId stageId ops).getD []) := by
  obtain ⟨state, hstate, -, -, hcollects⟩ := exists_collects hwf dags ops
  rw [hstate, Option.map_some, DagState.resultOf, hcollects.results, if_pos hmem]

/-- After any run the texts of the last successes are collected. -/
theorem collectResults_run {last : Stage} (hlast : wf.stages.getLast? = some last) (time : ℤ) :
    ∃ c, collectResults wfs l.dagId time (run (start wfs l dags) ops) = some (some c) ∧
      (∀ stageId, c.results.lookup stageId =
        if stageId ∈ wf.ids then lastSuccess l.dagId stageId ops else none) ∧
      c.final = (lastSuccess l.dagId last.id ops).getD [] ∧ c.workflow = l.workflowName ∧
      c.durationMs = (time - l.time) * 1000 ∧ c.stageCount = wf.stages.length := by
  obtain ⟨state, hstate, hworkflow, hstarted, hcollects⟩ := exists_collects hwf dags ops
  have hmem : last.id ∈ wf.ids := List.mem_map_of_mem (List.mem_of_getLast? hlast)
  rw [collectResults, hstate]
  dsimp only
  rw [hworkflow, hwf, Option.bind_some, hlast, Option.map_some]
  refine ⟨_, rfl, fun stageId => ?_, ?_, rfl, ?_, rfl⟩
  · dsimp only
    have hkeys : ((state.completedStages.keys.map fun stageId => (stageId, state.resultOf stageId)).map
        Prod.fst) = state.completedStages.keys := by
      rw [List.map_map]
      exact List.map_id _
    rw [← hcollects.results]
    by_cases hcompleted : stageId ∈ state.completedStages
    · obtain ⟨text, htext⟩ := Option.isSome_iff_exists.1 ((hcollects.completed stageId).1 hcompleted)
      have hin : (stageId, state.resultOf stageId) ∈
          state.completedStages.keys.map fun stageId => (stageId, state.resultOf stageId) :=
        List.mem_map.2 ⟨stageId, hcompleted, rfl⟩
      rw [AList.lookup_insertAll_of_mem (by rw [hkeys]; exact state.completedStages.keys_nodup) hin,
        DagState.resultOf, htext]
      rfl
    · rw [AList.lookup_insertAll_of_notMem (by rwa [hkeys]), AList.lookup_empty]
      rw [hcollects.completed, Option.not_isSome_iff_eq_none] at hcompleted
      exact hcompleted.symm
  · dsimp only
    rw [DagState.resultOf, hcollects.results, if_pos hmem]
  · dsimp only
    rw [hstarted, sub_mul]

end Run

/-- The second of two successes counts, and what is recorded for a stage that is not there does not. -/
theorem research_collected : ∃ c, collectResults workflows researchLaunch.dagId 2
    (run (start workflows researchLaunch ∅)
      [.recordResult researchLaunch.dagId (str "research") (some (str "a")) true,
        .recordResult researchLaunch.dagId (str "review") (some (str "b")) true,
        .recordResult researchLaunch.dagId (str "research") (some (str "c")) true]) = some (some c) ∧
      c.results.lookup (str "research") = some (str "c") ∧ c.results.lookup (str "review") = none ∧
      c.final = [] ∧ c.durationMs = 2000 := by
  obtain ⟨c, hc, hresults, hfinal, -, hduration, -⟩ := collectResults_run lookup_researchLaunch ∅ _
    (show researchThenSummarize.stages.getLast? = some _ from rfl) 2
  refine ⟨c, hc, (hresults _).trans ?_, (hresults _).trans ?_, hfinal.trans ?_, hduration⟩
  · decide +kernel
  · decide +kernel
  · decide +kernel

end OrchestratorDag

end LlmGateway
