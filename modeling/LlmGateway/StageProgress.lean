import LlmGateway.Lib.DependencyOrder
import LlmGateway.StageOrder

/-!
# When a workflow gets stuck

A stage that fails counts as finished for `is_complete`, and the stages that depend on it stay `pending`: no
function marks them.  So a workflow in which such a stage fails comes to a state in which it is not complete,
nothing is being executed and `next_stages` returns nothing.

`never_stuck_iff` says when a run has no such state.  The other way into one is an error: what `next_stages`
raises while it builds an input, it raises again at each call.
-/

namespace LlmGateway

namespace OrchestratorDag

open Relation

/-- Some stage with the second id depends on the first id. -/
def Workflow.Needs (wf : Workflow) (depId stageId : Str) : Prop :=
  ∃ stage ∈ wf.stages, stage.id = stageId ∧ depId ∈ stage.dependsOn

/-- The ids are unique, and the dependencies name stages and have no cycle. -/
structure Workflow.WellFormed (wf : Workflow) : Prop where
  unique : wf.ids.Nodup
  named : ∀ stage ∈ wf.stages, ∀ depId ∈ stage.dependsOn, depId ∈ wf.ids
  acyclic : DependencyOrder.Acyclic wf.Needs

/-- Results are recorded only for stages that `next_stages` returned before. -/
def Answers (wfs : UMap Workflow) (l : Launch) (dags : UMap DagState) (ops : List Op) : Prop :=
  ∀ pre stageId text success post, ops = pre ++ .recordResult l.dagId stageId text success :: post →
    stageId ∈ returned wfs l.dagId (start wfs l dags) pre

/-- Each stage that was handed out has a result. -/
def Idle (wfs : UMap Workflow) (l : Launch) (dags : UMap DagState) (ops : List Op) : Prop :=
  ∀ stageId ∈ returned wfs l.dagId (start wfs l dags) ops, hasResult l.dagId stageId ops = true

/-- The workflow is complete, or there is a stage to be executed, or one that is being executed. -/
def Live (wfs : UMap Workflow) (l : Launch) (dags : UMap DagState) (ops : List Op) : Prop :=
  isComplete l.dagId (run (start wfs l dags) ops) = true ∨
    (∃ stage ready, nextStages wfs l.dagId (run (start wfs l dags) ops) = some (some (stage :: ready))) ∨
    ∃ stageId ∈ returned wfs l.dagId (start wfs l dags) ops, hasResult l.dagId stageId ops = false

/-- The stage has no result, and of the stages that it depends on, directly or not, none has only failed. -/
def Unblocked (wf : Workflow) (dagId stageId : Str) (ops : List Op) : Prop :=
  hasResult dagId stageId ops = false ∧ ∀ depId, TransGen wf.Needs depId stageId →
    hasResult dagId depId ops = true → hasSucceeded dagId depId ops = true

section WellFormed

variable {wf : Workflow} (hwell : wf.WellFormed)
include hwell

theorem Workflow.WellFormed.stage?_eq {stage : Stage} (hstage : stage ∈ wf.stages) :
    wf.stage? stage.id = some stage := by
  have hsome : (wf.stage? stage.id).isSome :=
    (wf.stage?_isSome_iff stage.id).2 (List.mem_map_of_mem hstage)
  obtain ⟨found, hfound⟩ := Option.isSome_iff_exists.1 hsome
  have hid : found.id = stage.id := by simpa using List.find?_some hfound
  rw [hfound, List.inj_on_of_nodup_map hwell.unique (List.mem_of_find?_eq_some hfound) hstage hid]

theorem Workflow.WellFormed.needs_mem {depId stageId : Str} (h : wf.Needs depId stageId) : depId ∈ wf.ids := by
  obtain ⟨stage, hstage, -, hdep⟩ := h
  exact hwell.named stage hstage depId hdep

/-- A stage is due if it is open and all that it needs are successes. -/
theorem Workflow.WellFormed.due_iff {dagId stageId : Str} {ops : List Op} : Due wf dagId stageId ops ↔
    stageId ∈ wf.ids ∧ ¬hasResult dagId stageId ops = true ∧
      ∀ depId, wf.Needs depId stageId → hasSucceeded dagId depId ops = true := by
  rw [Bool.not_eq_true]
  constructor
  · rintro ⟨stage, hstage, hopen, hdeps⟩
    refine ⟨(wf.stage?_isSome_iff stageId).1 (by rw [hstage]; rfl), hopen, ?_⟩
    rintro depId ⟨stage', hstage', rfl, hdep⟩
    rw [hwell.stage?_eq hstage', Option.some.injEq] at hstage
    subst hstage
    exact (hdeps depId hdep).2
  · rintro ⟨hmem, hopen, hdeps⟩
    obtain ⟨stage, hstage, rfl⟩ := List.mem_map.1 hmem
    refine ⟨stage, hwell.stage?_eq hstage, hopen, fun depId hdep => ?_⟩
    exact ⟨hwell.named stage hstage depId hdep, hdeps depId ⟨stage, hstage, rfl, hdep⟩⟩

/-- Some stage is due exactly if some stage is unblocked. -/
theorem Workflow.WellFormed.exists_due_iff {dagId : Str} {ops : List Op}
    (hclosed : ∀ stageId, hasSucceeded dagId stageId ops = true → ∀ depId, wf.Needs depId stageId →
      hasSucceeded dagId depId ops = true) :
    (∃ stageId, Due wf dagId stageId ops) ↔ ∃ stageId ∈ wf.ids, Unblocked wf dagId stageId ops := by
  have hexists := DependencyOrder.exists_due_iff hwell.acyclic (List.finite_toSet wf.ids)
    (fun _ _ => hwell.needs_mem) (fun stageId => hasResult dagId stageId ops = true) hclosed
  simp only [hwell.due_iff, Unblocked, ← Bool.not_eq_true]
  exact hexists

end WellFormed

section Live

variable {wfs : UMap Workflow} {wf : Workflow} {l : Launch} {dags : UMap DagState} {ops : List Op}

theorem Answers.of_prefix (h : Answers wfs l dags ops) {pre : List Op} (hpre : pre <+: ops) :
    Answers wfs l dags pre := by
  obtain ⟨rest, rfl⟩ := hpre
  intro before stageId text success post hsplit
  exact h before stageId text success (post ++ rest) (by simp [hsplit])

variable (hwf : wfs.lookup l.workflowName = some wf)
include hwf

/-- The workflow is complete exactly if each stage has a result, whether it succeeded or not. -/
theorem isComplete_iff : isComplete l.dagId (run (start wfs l dags) ops) = true ↔
    ∀ stageId ∈ wf.ids, hasResult l.dagId stageId ops = true := by
  obtain ⟨state, hstate, htracks⟩ := exists_tracks hwf dags ops
  simp only [isComplete, hstate, List.all_eq_true, Bool.not_eq_true', Bool.or_eq_false_iff, decide_eq_false_iff_not]
  constructor
  · intro h stageId hmem
    obtain ⟨ps, hps⟩ := Option.isSome_iff_exists.1 (AList.lookup_isSome.2 ((htracks.ids stageId).2 hmem))
    have hsettled := (h (stageId, ps) (AList.mem_pairs.2 hps)).1
    rw [htracks.pending stageId ps hps] at hsettled
    simpa using hsettled
  · rintro h ⟨stageId, ps⟩ hmem
    have hps := AList.mem_pairs.1 hmem
    have hresult := h stageId ((htracks.ids stageId).1 (AList.lookup_isSome.1 (by rw [hps]; rfl)))
    refine ⟨fun hpending => ?_, htracks.notRunning stageId ps hps⟩
    rw [htracks.pending stageId ps hps, hresult] at hpending
    cases hpending

/-- If results are recorded only for stages that were handed out, a success needs only successes. -/
theorem Answers.closed (hwell : wf.WellFormed) (h : Answers wfs l dags ops) (stageId : Str)
    (hsuccess : hasSucceeded l.dagId stageId ops = true) (depId : Str) (hneeds : wf.Needs depId stageId) :
    hasSucceeded l.dagId depId ops = true := by
  obtain ⟨op, hop, htest⟩ := List.any_eq_true.1 hsuccess
  cases op with
  | nextStages _ => cases htest
  | recordResult dagId stageId' text success =>
    simp only [Bool.and_eq_true, decide_eq_true_eq] at htest
    obtain ⟨⟨rfl, rfl⟩, rfl⟩ := htest
    obtain ⟨pre, post, hsplit⟩ := List.append_of_mem hop
    obtain ⟨before, rest, hpre, hhanded⟩ := mem_returned_iff.1 (h pre _ text true post hsplit)
    -- it was due when it was handed out
    have hdue := ((mem_handedOut_run hwf dags before stageId').1 hhanded).2
    have hbefore := (hwell.due_iff.1 hdue).2.2 depId hneeds
    rw [hsplit, hpre, List.append_assoc, hasSucceeded_append, hbefore, Bool.true_or]

/-- Whether `next_stages` returns a stage. -/
theorem exists_nextStages_run (hwell : wf.WellFormed) (h : Answers wfs l dags ops) :
    (∃ stage ready, nextStages wfs l.dagId (run (start wfs l dags) ops) = some (some (stage :: ready))) ↔
      Fillable wfs l.dagId (run (start wfs l dags) ops) ∧ ∃ stageId ∈ wf.ids, Unblocked wf l.dagId stageId ops := by
  obtain ⟨state, hstate, htracks⟩ := exists_tracks hwf dags ops
  rw [exists_nextStages_iff hstate (htracks.isSome_lookup hwf), ← hwell.exists_due_iff (h.closed hwf hwell)]
  simp only [htracks.ready_iff hwf]

theorem live_iff (hwell : wf.WellFormed) (h : Answers wfs l dags ops) : Live wfs l dags ops ↔
    (Idle wfs l dags ops → (∀ stageId ∈ wf.ids, hasResult l.dagId stageId ops = true) ∨
      Fillable wfs l.dagId (run (start wfs l dags) ops) ∧
        ∃ stageId ∈ wf.ids, Unblocked wf l.dagId stageId ops) := by
  have hidle : ¬Idle wfs l dags ops ↔
      ∃ stageId ∈ returned wfs l.dagId (start wfs l dags) ops, hasResult l.dagId stageId ops = false := by
    simp [Idle]
  rw [Live, isComplete_iff hwf, exists_nextStages_run hwf hwell h, ← hidle, ← or_assoc, or_comm, or_iff_not_imp_left,
    not_not]

/-- If no stage has only failed on which another one depends, the workflow is not stuck. -/
theorem live_of_needed_succeeded (hwell : wf.WellFormed) (h : Answers wfs l dags ops)
    (hfill : Fillable wfs l.dagId (run (start wfs l dags) ops))
    (hneeded : ∀ depId stageId, wf.Needs depId stageId → hasResult l.dagId depId ops = true →
      hasSucceeded l.dagId depId ops = true) : Live wfs l dags ops := by
  refine (live_iff hwf hwell h).2 fun _ => ?_
  by_cases hall : ∀ stageId ∈ wf.ids, hasResult l.dagId stageId ops = true
  · exact Or.inl hall
  · push Not at hall
    obtain ⟨stageId, hmem, hopen⟩ := hall
    refine Or.inr ⟨hfill, stageId, hmem, Bool.eq_false_of_not_eq_true hopen, fun depId hdep => ?_⟩
    obtain ⟨next, hnext, -⟩ := TransGen.head'_iff.1 hdep
    exact hneeded depId next hnext

/-- In a run that records results only for stages that were handed out, the workflow is never stuck exactly if,
whenever each stage that was handed out has its result, all stages have one, or the inputs of the due stages can
be built and some stage without a result depends on none that has only failed. -/
theorem never_stuck_iff (hwell : wf.WellFormed) (h : Answers wfs l dags ops) :
    (∀ pre, pre <+: ops → Live wfs l dags pre) ↔
      ∀ pre, pre <+: ops → Idle wfs l dags pre →
        (∀ stageId ∈ wf.ids, hasResult l.dagId stageId pre = true) ∨
          Fillable wfs l.dagId (run (start wfs l dags) pre) ∧
            ∃ stageId ∈ wf.ids, Unblocked wf l.dagId stageId pre :=
  forall_congr' fun _ => imp_congr_right fun hpre => live_iff hwf hwell (h.of_prefix hpre)

end Live

/-! ## A workflow of the source -/

theorem needs_researchThenSummarize {depId stageId : Str} (h : researchThenSummarize.Needs depId stageId) :
    depId = str "research" ∧ stageId = str "summarize" := by
  obtain ⟨stage, hstage, rfl, hdep⟩ := h
  rcases List.mem_pair.1 hstage with rfl | rfl
  · cases hdep
  · exact ⟨List.mem_singleton.1 hdep, rfl⟩

theorem transGen_researchThenSummarize {depId stageId : Str}
    (h : TransGen researchThenSummarize.Needs depId stageId) : depId = str "research" ∧ stageId = str "summarize" := by
  obtain ⟨mid, hhead, -⟩ := TransGen.head'_iff.1 h
  obtain ⟨mid', -, htail⟩ := TransGen.tail'_iff.1 h
  exact ⟨(needs_researchThenSummarize hhead).1, (needs_researchThenSummarize htail).2⟩

theorem wellFormed_researchThenSummarize : researchThenSummarize.WellFormed where
  unique := by decide +kernel
  named := by decide +kernel
  acyclic stageId h := by
    obtain ⟨hdep, hstage⟩ := transGen_researchThenSummarize h
    exact absurd (hdep.symm.trans hstage) (by decide +kernel)

/-- A result for the first stage, after it was handed out. -/
theorem answers_research (text : Option Str) (success : Bool) :
    Answers workflows researchLaunch ∅
      [.nextStages researchLaunch.dagId, .recordResult researchLaunch.dagId (str "research") text success] := by
  intro pre stageId text' success' post hsplit
  cases pre with
  | nil => simp at hsplit
  | cons op pre =>
    obtain ⟨rfl, htail⟩ := List.cons.inj hsplit
    cases pre with
    | nil =>
      obtain ⟨hop, -⟩ := List.cons.inj htail
      obtain ⟨-, rfl, -, -⟩ := Op.recordResult.inj hop
      decide +kernel
    | cons op' pre => simp at htail

/-- After a success of the first stage the second one can be executed. -/
theorem research_never_stuck : Live workflows researchLaunch ∅
    [.nextStages researchLaunch.dagId,
      .recordResult researchLaunch.dagId (str "research") (some (str "r")) true] := by
  refine (never_stuck_iff lookup_researchLaunch wellFormed_researchThenSummarize
    (answers_research (some (str "r")) true)).2 (fun pre hpre hidle => ?_) _ (List.prefix_refl _)
  have hfill := fun ops => (nextStages_run_isSome_iff lookup_researchLaunch ∅ ops).1
  have hmem := (List.mem_inits _ _).2 hpre
  simp only [List.inits, List.map_cons, List.map_nil, List.mem_cons, List.not_mem_nil, or_false] at hmem
  rcases hmem with rfl | rfl | rfl
  · refine Or.inr ⟨hfill [] (by decide +kernel), str "research", by decide +kernel, rfl, fun depId hdep => ?_⟩
    exact absurd (transGen_researchThenSummarize hdep).2 (by decide +kernel)
  · -- the first stage is being executed
    exact absurd (hidle (str "research") (by decide +kernel)) (by decide +kernel)
  · refine Or.inr ⟨hfill _ (by decide +kernel), str "summarize", by decide +kernel, by decide +kernel,
      fun depId hdep _ => ?_⟩
    rw [(transGen_researchThenSummarize hdep).1]
    decide +kernel

/-- After a failure of the first stage the second one stays pending, and nothing is left to be executed. -/
theorem research_failed_stuck :
    Answers workflows researchLaunch ∅
        [.nextStages researchLaunch.dagId, .recordResult researchLaunch.dagId (str "research") none false] ∧
      ¬Live workflows researchLaunch ∅
        [.nextStages researchLaunch.dagId, .recordResult researchLaunch.dagId (str "research") none false] := by
  refine ⟨answers_research none false, ?_⟩
  rintro (hcomplete | ⟨stage, ready, hnext⟩ | ⟨stageId, hreturned, hopen⟩)
  · exact absurd hcomplete (by decide +kernel)
  · have hnone : nextStages workflows researchLaunch.dagId (run (start workflows researchLaunch ∅)
        [.nextStages researchLaunch.dagId, .recordResult researchLaunch.dagId (str "research") none false]) =
          some (some []) := by decide +kernel
    rw [hnone] at hnext
    simp at hnext
  · have hall : ∀ stageId ∈ returned workflows researchLaunch.dagId (start workflows researchLaunch ∅)
        [.nextStages researchLaunch.dagId, .recordResult researchLaunch.dagId (str "research") none false],
          hasResult researchLaunch.dagId stageId
            [.nextStages researchLaunch.dagId, .recordResult researchLaunch.dagId (str "research") none false] =
              true := by decide +kernel
    rw [hall stageId hreturned] at hopen
    cases hopen

end OrchestratorDag

end LlmGateway
