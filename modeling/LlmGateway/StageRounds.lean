import LlmGateway.StageInput
import LlmGateway.StageProgress

/-!
# A workflow in rounds

Whoever executes a workflow asks for its stages, executes them in any order, records the results, and asks
again.

`rounds_settled_iff`: a stage has a result after some rounds exactly if no chain of stages that depend on each
other, down from it, is longer, and all that it depends on, directly or not, succeeds.
`isComplete_rounds_iff`: so the workflow is complete exactly if there were as many rounds as the longest chain
has stages, and no stage fails on which another one depends.
-/

namespace LlmGateway

namespace OrchestratorDag

open Relation DependencyOrder

/-- A call of `next_stages`, and the results of the stages that it returns, among calls for other workflows. -/
structure IsRound (wfs : UMap Workflow) (dagId : Str) (succeeds : Str → Prop) (dags : UMap DagState)
    (ops : List Op) : Prop where
  call : ops.head? = some (.nextStages dagId)
  results : ∀ stageId, hasResult dagId stageId ops = true ↔ stageId ∈ handedOut wfs dagId dags
  success : ∀ stageId ∈ handedOut wfs dagId dags, hasSucceeded dagId stageId ops = true ↔ succeeds stageId

/-- One round after the other. -/
def Rounds (wfs : UMap Workflow) (dagId : Str) (succeeds : Str → Prop) : UMap DagState → List (List Op) → Prop
  | _, [] => True
  | dags, round :: rounds =>
    IsRound wfs dagId succeeds dags round ∧ Rounds wfs dagId succeeds (run dags round) rounds

section Rounds

variable {wfs : UMap Workflow} {dagId : Str} {succeeds : Str → Prop}

theorem run_append (dags : UMap DagState) (ops ops' : List Op) :
    run dags (ops ++ ops') = run (run dags ops) ops' :=
  List.foldl_append

theorem rounds_append_singleton {dags : UMap DagState} {rounds : List (List Op)} {round : List Op} :
    Rounds wfs dagId succeeds dags (rounds ++ [round]) ↔ Rounds wfs dagId succeeds dags rounds ∧
      IsRound wfs dagId succeeds (run dags rounds.flatten) round := by
  induction rounds generalizing dags with
  | nil => exact and_comm
  | cons first rounds ih =>
    rw [List.cons_append, Rounds, ih, Rounds, and_assoc, List.flatten_cons, run_append]

/-- A call of `next_stages`, and some results, one after the other. -/
def roundOf (dagId : Str) (succeeds : Str → Bool) (results : List (Str × Option Str)) : List Op :=
  .nextStages dagId :: results.map fun p => .recordResult dagId p.1 p.2 (succeeds p.1)

theorem isRound_roundOf {dags : UMap DagState} {results : List (Str × Option Str)}
    (h : ∀ stageId, stageId ∈ results.map Prod.fst ↔ stageId ∈ handedOut wfs dagId dags)
    (succeeds : Str → Bool) :
    IsRound wfs dagId (succeeds · = true) dags (roundOf dagId succeeds results) where
  call := rfl
  results stageId := by
    rw [← h, hasResult, roundOf, List.any_cons, Bool.false_or, List.any_map, List.any_eq_true, List.mem_map]
    simp
  success stageId hmem := by
    rw [← h, List.mem_map] at hmem
    obtain ⟨p, hp, rfl⟩ := hmem
    rw [hasSucceeded, roundOf, List.any_cons, Bool.false_or, List.any_map, List.any_eq_true]
    simp only [Function.comp_apply, decide_true, Bool.true_and, Bool.and_eq_true, decide_eq_true_eq]
    constructor
    · rintro ⟨_, _, heq, hsuccess⟩
      exact heq ▸ hsuccess
    · exact fun hsuccess => ⟨p, hp, rfl, hsuccess⟩

/-- Any workflow can be executed in rounds, whatever the texts of the results are. -/
theorem exists_rounds (wfs : UMap Workflow) (dagId : Str) (succeeds : Str → Bool) (texts : Str → Option Str)
    (dags : UMap DagState) (k : ℕ) :
    ∃ rounds, rounds.length = k ∧ Rounds wfs dagId (succeeds · = true) dags rounds ∧
      ∀ stageId text success, .recordResult dagId stageId text success ∈ rounds.flatten →
        text = texts stageId := by
  induction k generalizing dags with
  | zero => exact ⟨[], rfl, trivial, fun _ _ _ hmem => absurd hmem List.not_mem_nil⟩
  | succ k ih =>
    obtain ⟨rounds, hlength, hrounds, htexts⟩ := ih (run dags
      (roundOf dagId succeeds ((handedOut wfs dagId dags).map fun stageId => (stageId, texts stageId))))
    refine ⟨_ :: rounds, congrArg Nat.succ hlength, ⟨isRound_roundOf (fun stageId => ?_) succeeds, hrounds⟩,
      fun stageId text success hmem => ?_⟩
    · rw [List.map_map, List.mem_map]
      simp
    · rcases List.mem_append.1 hmem with hmem | hmem
      · obtain ⟨p, hp, heq⟩ := List.mem_map.1 ((List.mem_cons.1 hmem).resolve_left Op.noConfusion)
        obtain ⟨stageId', -, rfl⟩ := List.mem_map.1 hp
        obtain ⟨-, rfl, rfl, -⟩ := Op.recordResult.inj heq
        rfl
      · exact htexts stageId text success hmem

end Rounds

section Settled

variable {wfs : UMap Workflow} {wf : Workflow} {l : Launch} (hwf : wfs.lookup l.workflowName = some wf)
  (hwell : wf.WellFormed) (dags : UMap DagState) {succeeds : Str → Prop} {rounds : List (List Op)}
include hwf hwell

/-- A round adds the results of the stages that are due. -/
theorem hasResult_rounds (hrounds : Rounds wfs l.dagId succeeds (start wfs l dags) rounds)
    (hfill : ∀ pre, pre <+: rounds → Fillable wfs l.dagId (run (start wfs l dags) pre.flatten)) (stageId : Str) :
    (hasResult l.dagId stageId rounds.flatten = true ↔
      stageId ∈ settledAfter {stageId | stageId ∈ wf.ids} wf.Needs succeeds rounds.length) ∧
    (hasSucceeded l.dagId stageId rounds.flatten = true ↔
      hasResult l.dagId stageId rounds.flatten = true ∧ succeeds stageId) := by
  induction rounds using List.reverseRecOn generalizing stageId with
  | nil =>
    have hnil : ¬hasResult l.dagId stageId [] = true := Bool.false_ne_true
    exact ⟨iff_of_false hnil id, iff_of_false Bool.false_ne_true fun h => hnil h.1⟩
  | append_singleton rounds round ih =>
    obtain ⟨hbefore, hround⟩ := rounds_append_singleton.1 hrounds
    have hold := ih hbefore fun pre hpre => hfill pre (hpre.trans (List.prefix_append rounds [round]))
    have hhanded (stageId : Str) : stageId ∈ handedOut wfs l.dagId (run (start wfs l dags) rounds.flatten) ↔
        stageId ∈ wf.ids ∧ ¬hasResult l.dagId stageId rounds.flatten = true ∧
          ∀ depId, wf.Needs depId stageId → hasSucceeded l.dagId depId rounds.flatten = true := by
      rw [mem_handedOut_run hwf dags, hwell.due_iff,
        and_iff_right (hfill rounds (List.prefix_append rounds [round]))]
    rw [List.flatten_append, List.flatten_singleton, hasResult_append, hasSucceeded_append, List.length_append,
      List.length_singleton, Bool.or_eq_true, Bool.or_eq_true, hround.results]
    constructor
    · rw [settledAfter, Set.mem_union, (hold stageId).1, hhanded, (hold stageId).1]
      simp only [(hold _).2, (hold _).1]
      by_cases hsettled : stageId ∈ settledAfter {stageId | stageId ∈ wf.ids} wf.Needs succeeds rounds.length
      · simp [hsettled]
      · simp [hsettled]
    · rw [(hold stageId).2]
      by_cases hmem : stageId ∈ handedOut wfs l.dagId (run (start wfs l dags) rounds.flatten)
      · have hopen := ((hhanded stageId).1 hmem).2.1
        rw [hround.success stageId hmem]
        simp [hmem, hopen]
      · have hnone : ¬hasSucceeded l.dagId stageId round = true := fun h =>
          hmem ((hround.results stageId).1 (hasResult_of_hasSucceeded h))
        simp [hmem, hnone]

/-- A stage has a result exactly if there were as many rounds as the chains of stages down from it are long, and
the stages that it depends on succeed. -/
theorem rounds_settled_iff (hrounds : Rounds wfs l.dagId succeeds (start wfs l dags) rounds)
    (hfill : ∀ pre, pre <+: rounds → Fillable wfs l.dagId (run (start wfs l dags) pre.flatten)) (stageId : Str) :
    hasResult l.dagId stageId rounds.flatten = true ↔
      stageId ∈ wf.ids ∧ Within wf.Needs rounds.length stageId ∧
        ∀ depId, TransGen wf.Needs depId stageId → succeeds depId := by
  exact (hasResult_rounds hwf hwell dags hrounds hfill stageId).1.trans
    (mem_settledAfter_iff fun _ _ h => hwell.needs_mem h)

omit hwell in
/-- Nothing is raised in rounds whose texts start no escape by a percent sign. -/
theorem fillable_rounds
    (hparams : ∀ name text, (l.params.getD ∅).lookup name = some text →
      LuaPattern.Plain name ∧ LuaPattern.escaped text = true)
    (hids : ∀ stage ∈ wf.stages, ∀ depId ∈ stage.dependsOn, LuaPattern.Plain depId)
    (htexts : ∀ stageId text success, .recordResult l.dagId stageId text success ∈ rounds.flatten →
      LuaPattern.escaped (text.getD []) = true) :
    ∀ pre, pre <+: rounds → Fillable wfs l.dagId (run (start wfs l dags) pre.flatten) := by
  rintro pre ⟨post, rfl⟩
  refine fillable_run hwf dags hparams hids fun stageId text success hmem => htexts stageId text success ?_
  rw [List.flatten_append]
  exact List.mem_append_left _ hmem

theorem isComplete_of_fillable (hrounds : Rounds wfs l.dagId succeeds (start wfs l dags) rounds)
    (hfill : ∀ pre, pre <+: rounds → Fillable wfs l.dagId (run (start wfs l dags) pre.flatten)) :
    isComplete l.dagId (run (start wfs l dags) rounds.flatten) = true ↔
      (∀ stageId ∈ wf.ids, Within wf.Needs rounds.length stageId) ∧
        ∀ depId stageId, wf.Needs depId stageId → succeeds depId := by
  rw [isComplete_iff hwf]
  simp only [rounds_settled_iff hwf hwell dags hrounds hfill]
  constructor
  · refine fun h => ⟨fun stageId hmem => (h stageId hmem).2.1, fun depId stageId hneeds => ?_⟩
    have hmem : stageId ∈ wf.ids := by
      obtain ⟨stage, hstage, rfl, -⟩ := hneeds
      exact List.mem_map_of_mem hstage
    exact (h stageId hmem).2.2 depId (.single hneeds)
  · rintro ⟨hwithin, hneeded⟩ stageId hmem
    refine ⟨hmem, hwithin stageId hmem, fun depId hdep => ?_⟩
    obtain ⟨next, hnext, -⟩ := TransGen.head'_iff.1 hdep
    exact hneeded depId next hnext

/-- Executed in rounds, with texts that start no escape by a percent sign, the workflow is complete exactly if
there were as many rounds as its longest chain of stages has stages, and all stages that others depend on
succeed.  As many rounds as stages are enough. -/
theorem isComplete_rounds_iff
    (hparams : ∀ name text, (l.params.getD ∅).lookup name = some text →
      LuaPattern.Plain name ∧ LuaPattern.escaped text = true)
    (hids : ∀ stage ∈ wf.stages, ∀ depId ∈ stage.dependsOn, LuaPattern.Plain depId)
    (hrounds : Rounds wfs l.dagId succeeds (start wfs l dags) rounds)
    (htexts : ∀ stageId text success, .recordResult l.dagId stageId text success ∈ rounds.flatten →
      LuaPattern.escaped (text.getD []) = true) :
    (isComplete l.dagId (run (start wfs l dags) rounds.flatten) = true ↔
      (∀ stageId ∈ wf.ids, ∀ rest : List Str,
        List.IsChain (fun stageId depId => wf.Needs depId stageId) (stageId :: rest) →
          (stageId :: rest).length ≤ rounds.length) ∧
        ∀ depId stageId, wf.Needs depId stageId → succeeds depId) ∧
    (wf.stages.length ≤ rounds.length → (∀ depId stageId, wf.Needs depId stageId → succeeds depId) →
      isComplete l.dagId (run (start wfs l dags) rounds.flatten) = true) := by
  have hfill := fillable_rounds hwf dags hparams hids htexts
  have hcomplete := isComplete_of_fillable hwf hwell dags hrounds hfill
  simp only [within_iff] at hcomplete
  refine ⟨hcomplete, fun hlength hneeded => hcomplete.2 ⟨fun stageId hmem rest hchain => ?_, hneeded⟩⟩
  have hwithin := within_length hwell.acyclic (fun _ _ => hwell.needs_mem) hmem
  have hids : wf.ids.length = wf.stages.length := List.length_map _
  exact (within_iff.1 hwithin rest hchain).trans_le (hids.trans_le hlength)

end Settled

/-- The second workflow of the source, started. -/
def translateLaunch : Launch :=
  { workflowName := str "parallel_translate"
    params := some ((∅ : UMap Str).insert (str "text") (str "x"))
    gatewaySession := str "sess_123"
    time := 0 }

theorem lookup_translateLaunch : workflows.lookup translateLaunch.workflowName = some parallelTranslate := by
  decide +kernel

theorem needs_parallelTranslate_iff {depId stageId : Str} : parallelTranslate.Needs depId stageId ↔
    (depId = str "translate_cn" ∨ depId = str "translate_ja") ∧ stageId = str "review" := by
  constructor
  · rintro ⟨stage, hstage, rfl, hdep⟩
    rcases List.mem_cons.1 hstage with rfl | hstage
    · cases hdep
    · rcases List.mem_pair.1 hstage with rfl | rfl
      · cases hdep
      · exact ⟨List.mem_pair.1 hdep, rfl⟩
  · rintro ⟨hdep, rfl⟩
    exact ⟨_, List.mem_cons_of_mem _ (List.mem_cons_of_mem _ List.mem_cons_self), rfl, List.mem_pair.2 hdep⟩

/-- The review depends on the translations, and nothing depends on it. -/
theorem needs_parallelTranslate {depId stageId : Str} (h : parallelTranslate.Needs depId stageId) :
    depId ≠ str "review" ∧ stageId = str "review" := by
  obtain ⟨rfl | rfl, rfl⟩ := needs_parallelTranslate_iff.1 h <;> exact ⟨by decide +kernel, rfl⟩

theorem wellFormed_parallelTranslate : parallelTranslate.WellFormed where
  unique := by decide +kernel
  named := by decide +kernel
  acyclic stageId h := by
    obtain ⟨mid, hhead, -⟩ := TransGen.head'_iff.1 h
    obtain ⟨mid', -, htail⟩ := TransGen.tail'_iff.1 h
    exact (needs_parallelTranslate hhead).1 (needs_parallelTranslate htail).2

/-- Two rounds are needed, and enough. -/
theorem within_parallelTranslate (k : ℕ) :
    (∀ stageId ∈ parallelTranslate.ids, Within parallelTranslate.Needs k stageId) ↔ 2 ≤ k := by
  constructor
  · intro h
    have hneeds := needs_parallelTranslate_iff.2 ⟨Or.inl rfl, rfl⟩
    exact within_iff.1 (h (str "review") (by decide +kernel)) [str "translate_cn"]
      (List.isChain_cons_cons.2 ⟨hneeds, .singleton _⟩)
  · intro hk stageId _
    refine within_iff.2 fun rest hchain => hk.trans_lt' ?_
    rcases rest with - | ⟨depId, - | ⟨depId', rest⟩⟩
    · exact Nat.two_pos
    · exact Nat.one_lt_two
    · obtain ⟨hneeds, hchain⟩ := List.isChain_cons_cons.1 hchain
      have hneeds' := (List.isChain_cons_cons.1 hchain).1
      exact absurd (needs_parallelTranslate hneeds').2 (needs_parallelTranslate hneeds).1

/-- The translations, and the review, which fails. -/
def translateRounds : List (List Op) :=
  [[(str "translate_ja", some (str "b")), (str "translate_cn", some (str "a"))], [(str "review", none)]].map
    (roundOf translateLaunch.dagId (· ≠ str "review"))

theorem rounds_translate : Rounds workflows translateLaunch.dagId
    (fun stageId => decide (stageId ≠ str "review") = true) (start workflows translateLaunch ∅) translateRounds := by
  refine ⟨isRound_roundOf (fun stageId => ?_) _, isRound_roundOf (fun stageId => ?_) _, trivial⟩
  · have hfirst : handedOut workflows translateLaunch.dagId (start workflows translateLaunch ∅) =
        [str "translate_ja", str "translate_cn"] := by decide +kernel
    rw [hfirst]
    rfl
  · have hsecond : handedOut workflows translateLaunch.dagId
        (run (start workflows translateLaunch ∅) translateRounds.headI) = [str "review"] := by decide +kernel
    exact iff_of_eq (congrArg (stageId ∈ ·) hsecond).symm

/-- The workflow is complete after the second round, although the review fails. -/
theorem translate_complete :
    isComplete translateLaunch.dagId (run (start workflows translateLaunch ∅) translateRounds.flatten) =
      true := by
  refine (isComplete_rounds_iff lookup_translateLaunch wellFormed_parallelTranslate ∅ (fun name text h => ?_)
    (by decide +kernel) rounds_translate (fun stageId text success hmem => ?_)).1.2
    ⟨fun stageId hmem rest hchain => ?_, fun depId stageId hneeds => decide_eq_true (needs_parallelTranslate hneeds).1⟩
  · have hmem := AList.mem_pairs.2 h
    obtain ⟨rfl, rfl⟩ := Prod.mk.inj (List.mem_singleton.1 hmem)
    exact ⟨by decide, by decide⟩
  · have hops : translateRounds.flatten =
        roundOf translateLaunch.dagId (· ≠ str "review") [(str "translate_ja", some (str "b")),
          (str "translate_cn", some (str "a"))] ++
        roundOf translateLaunch.dagId (· ≠ str "review") [(str "review", none)] := rfl
    rw [hops] at hmem
    simp only [roundOf, List.map_cons, List.map_nil, List.cons_append, List.nil_append, List.mem_cons,
      List.not_mem_nil, or_false, false_or, reduceCtorEq] at hmem
    rcases hmem with h | h | h <;> cases h <;> decide
  · exact within_iff.1 ((within_parallelTranslate 2).2 le_rfl stageId hmem) rest hchain

end OrchestratorDag

end LlmGateway
