import LlmGateway.Lib.Outcome
import LlmGateway.OrchestratorDag

/-!
# How often a stage is handed out

`next_stages` takes a stage for ready if its status is `pending`, and it does not change the status: no function
makes a stage `running`.  So a call hands out again what an earlier one handed out, until a result is recorded.

`handed_out_once_iff`: no stage is handed out twice exactly if each stage that is due at a call of `next_stages`
has got a result before the next such call.  What a stage depends on is always recorded as a success before it is
handed out.
-/

namespace LlmGateway

namespace OrchestratorDag

section Returned

variable {wfs : UMap Workflow} {dagId : Str}

theorem returned_append_singleton (dags : UMap DagState) (ops : List Op) (op : Op) :
    returned wfs dagId dags (ops ++ [op]) = returned wfs dagId dags ops ++
      if op = .nextStages dagId then handedOut wfs dagId (run dags ops) else [] := by
  induction ops generalizing dags with
  | nil => simp [returned, run]
  | cons op' ops ih =>
    rw [List.cons_append, returned, ih, returned, List.append_assoc]
    rfl

theorem mem_returned_iff {dags : UMap DagState} {ops : List Op} {stageId : Str} :
    stageId ∈ returned wfs dagId dags ops ↔ ∃ pre post, ops = pre ++ .nextStages dagId :: post ∧
      stageId ∈ handedOut wfs dagId (run dags pre) := by
  induction ops generalizing dags with
  | nil => simp [returned]
  | cons op ops ih =>
    rw [returned, List.mem_append, ih]
    constructor
    · rintro (h | ⟨pre, post, rfl, h⟩)
      · split_ifs at h with hop
        · exact ⟨[], ops, by rw [hop]; rfl, h⟩
        · cases h
      · exact ⟨op :: pre, post, rfl, h⟩
    · rintro ⟨pre, post, hops, h⟩
      cases pre with
      | nil =>
        obtain ⟨rfl, -⟩ := List.cons.inj hops
        exact Or.inl (by rwa [if_pos rfl])
      | cons op' pre =>
        obtain ⟨rfl, htail⟩ := List.cons.inj hops
        exact Or.inr ⟨pre, post, htail, h⟩

end Returned

section Once

variable {wfs : UMap Workflow} {wf : Workflow} {l : Launch} (hwf : wfs.lookup l.workflowName = some wf)
  (dags : UMap DagState)

theorem Due.append {dagId stageId : Str} {ops mid : List Op} (h : Due wf dagId stageId ops) :
    Due wf dagId stageId (ops ++ mid) ↔ hasResult dagId stageId mid = false := by
  obtain ⟨stage, hstage, hopen, hdeps⟩ := h
  constructor
  · rintro ⟨_, -, hopen', -⟩
    rw [hasResult_append, Bool.or_eq_false_iff] at hopen'
    exact hopen'.2
  · intro hmid
    refine ⟨stage, hstage, by rw [hasResult_append, hopen, hmid]; rfl, fun depId hdep => ?_⟩
    obtain ⟨hknown, hsuccess⟩ := hdeps depId hdep
    exact ⟨hknown, by rw [hasSucceeded_append, hsuccess]; rfl⟩

include hwf

/-- A call of `next_stages` hands out only stages that none before it handed out. -/
theorem disjoint_handedOut_iff (ops : List Op) :
    List.Disjoint (returned wfs l.dagId (start wfs l dags) ops)
        (handedOut wfs l.dagId (run (start wfs l dags) ops)) ↔
      ∀ pre mid, ops = pre ++ .nextStages l.dagId :: mid → Fillable wfs l.dagId (run (start wfs l dags) pre) →
        Fillable wfs l.dagId (run (start wfs l dags) ops) → ∀ stageId, Due wf l.dagId stageId pre →
          hasResult l.dagId stageId mid = true := by
  constructor
  · intro h pre mid hops hfill hfill' stageId hdue
    by_contra hmid
    have hopen : hasResult l.dagId stageId (.nextStages l.dagId :: mid) = false := by simpa [hasResult] using hmid
    have hagain : Due wf l.dagId stageId ops := by
      rw [hops]
      exact hdue.append.2 hopen
    refine h (mem_returned_iff.2 ⟨pre, mid, hops, ?_⟩) ((mem_handedOut_run hwf dags ops stageId).2 ⟨hfill', hagain⟩)
    exact (mem_handedOut_run hwf dags pre stageId).2 ⟨hfill, hdue⟩
  · intro h stageId hreturned hhanded
    obtain ⟨pre, mid, hops, hbefore⟩ := mem_returned_iff.1 hreturned
    obtain ⟨hfill, hdue⟩ := (mem_handedOut_run hwf dags pre stageId).1 hbefore
    obtain ⟨hfill', hagain⟩ := (mem_handedOut_run hwf dags ops stageId).1 hhanded
    rw [hops] at hagain
    have hopen := hdue.append.1 hagain
    have hresult := h pre mid hops hfill hfill' stageId hdue
    rw [hasResult, List.any_cons, ← hasResult, hresult, Bool.or_true] at hopen
    cases hopen

/-- What one more call of a run has to meet, so that no stage is handed out twice. -/
theorem nodup_returned_append_singleton (ops : List Op) (op : Op) :
    (returned wfs l.dagId (start wfs l dags) (ops ++ [op])).Nodup ↔
      (returned wfs l.dagId (start wfs l dags) ops).Nodup ∧ (op = .nextStages l.dagId →
        List.Disjoint (returned wfs l.dagId (start wfs l dags) ops)
          (handedOut wfs l.dagId (run (start wfs l dags) ops))) := by
  obtain ⟨state, hstate, htracks⟩ := exists_tracks hwf dags ops
  rw [returned_append_singleton]
  split_ifs with hop
  · rw [List.nodup_append', and_iff_right (nodup_handedOut hstate (htracks.isSome_lookup hwf))]
    exact and_congr_right fun _ => ⟨fun h _ => h, fun h => h hop⟩
  · rw [List.append_nil]
    exact ⟨fun h => ⟨h, fun h' => absurd h' hop⟩, fun h => h.1⟩

theorem nodup_returned_iff (ops : List Op) : (returned wfs l.dagId (start wfs l dags) ops).Nodup ↔
    ∀ before op post, ops = before ++ op :: post → op = .nextStages l.dagId →
      List.Disjoint (returned wfs l.dagId (start wfs l dags) before)
        (handedOut wfs l.dagId (run (start wfs l dags) before)) := by
  induction ops using List.reverseRecOn with
  | nil => simp [returned]
  | append_singleton ops op ih =>
    rw [nodup_returned_append_singleton hwf dags, ih]
    exact (Outcome.forall_step_append_singleton (P := fun before op => op = .nextStages l.dagId →
      List.Disjoint (returned wfs l.dagId (start wfs l dags) before)
        (handedOut wfs l.dagId (run (start wfs l dags) before)))).symm

/-- What a stage depends on was recorded as a success before the stage is handed out. -/
theorem hasSucceeded_of_handedOut {ops : List Op} {stageId : Str} {stage : Stage}
    (h : stageId ∈ handedOut wfs l.dagId (run (start wfs l dags) ops)) (hstage : wf.stage? stageId = some stage)
    {depId : Str} (hdep : depId ∈ stage.dependsOn) : hasSucceeded l.dagId depId ops = true := by
  obtain ⟨-, stage', hstage', -, hdeps⟩ := (mem_handedOut_run hwf dags ops stageId).1 h
  rw [hstage, Option.some.injEq] at hstage'
  subst hstage'
  exact (hdeps depId hdep).2

/-- No stage is handed out twice, and none before what it depends on has succeeded, exactly if each stage that is
due at a call of `next_stages` has a result before the next call, where calls that raise an error do not count. -/
theorem handed_out_once_iff (ops : List Op) :
    ((returned wfs l.dagId (start wfs l dags) ops).Nodup ∧
      ∀ pre post stageId stage depId, ops = pre ++ .nextStages l.dagId :: post →
        stageId ∈ handedOut wfs l.dagId (run (start wfs l dags) pre) → wf.stage? stageId = some stage →
          depId ∈ stage.dependsOn → hasSucceeded l.dagId depId pre = true) ↔
      ∀ pre mid post, ops = pre ++ .nextStages l.dagId :: (mid ++ .nextStages l.dagId :: post) →
        Fillable wfs l.dagId (run (start wfs l dags) pre) →
          Fillable wfs l.dagId (run (start wfs l dags) (pre ++ .nextStages l.dagId :: mid)) →
            ∀ stageId, Due wf l.dagId stageId pre → hasResult l.dagId stageId mid = true := by
  rw [and_iff_left fun pre post stageId stage depId _ hhanded hstage hdep =>
    hasSucceeded_of_handedOut hwf dags hhanded hstage hdep, nodup_returned_iff hwf dags]
  constructor
  · intro h pre mid post hops
    have hdisjoint := h (pre ++ .nextStages l.dagId :: mid) _ post (by simp [hops]) rfl
    exact (disjoint_handedOut_iff hwf dags _).1 hdisjoint pre mid rfl
  · rintro h before _ post hops rfl
    refine (disjoint_handedOut_iff hwf dags _).2 fun pre mid hbefore hfill hfill' => ?_
    subst hbefore
    exact h pre mid post (by simp [hops]) hfill hfill'

end Once

/-- With the result of the first stage between the calls, each stage is handed out once. -/
theorem handed_out_once_research :
    (returned workflows researchLaunch.dagId (start workflows researchLaunch ∅)
      [.nextStages researchLaunch.dagId,
        .recordResult researchLaunch.dagId (str "research") (some (str "r")) true,
        .nextStages researchLaunch.dagId]).Nodup := by
  refine ((handed_out_once_iff lookup_researchLaunch ∅ _).2 fun pre mid post hops _ _ stageId hdue => ?_).1
  obtain ⟨stage, hstage, -, hdeps⟩ := hdue
  have hmem : stage ∈ researchThenSummarize.stages := List.mem_of_find?_eq_some hstage
  have hid : stage.id = stageId := by simpa using List.find?_some hstage
  subst hid
  cases pre with
  | nil =>
    cases mid with
    | nil => simp at hops
    | cons op mid =>
      obtain ⟨rfl, -⟩ := List.cons.inj (List.cons.inj hops).2
      rcases List.mem_pair.1 hmem with rfl | rfl
      · simp [hasResult]
      · exact absurd (hdeps (str "research") List.mem_cons_self).2 (by decide +kernel)
  | cons op pre =>
    -- there is only one call of `next_stages` after the first one
    have hcount := congrArg (List.count (Op.nextStages researchLaunch.dagId)) (List.cons.inj hops).2
    simp at hcount
    omega

/-- Two calls in a row hand out the first stage twice. -/
theorem research_handed_out_twice :
    returned workflows researchLaunch.dagId (start workflows researchLaunch ∅)
        [.nextStages researchLaunch.dagId, .nextStages researchLaunch.dagId] = [str "research", str "research"] ∧
      ¬∀ ops, (returned workflows researchLaunch.dagId (start workflows researchLaunch ∅) ops).Nodup := by
  have htwice : returned workflows researchLaunch.dagId (start workflows researchLaunch ∅)
      [.nextStages researchLaunch.dagId, .nextStages researchLaunch.dagId] =
        [str "research", str "research"] := by decide +kernel
  refine ⟨htwice, fun h => ?_⟩
  have hnodup := h [.nextStages researchLaunch.dagId, .nextStages researchLaunch.dagId]
  rw [htwice] at hnodup
  exact List.not_nodup_pair _ hnodup

end OrchestratorDag

end LlmGateway
