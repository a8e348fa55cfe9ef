import LlmGateway.Base

/-!
# The plugins of a request

`PluginManager::run_request_pipeline`.  A plugin is a program that runs in a Lua state `σ`, which the
plugins of a request share; what a run of its hook does is a `HookRun`.  The loop also gives a list of
what became of each plugin that it came to.

`set_response` rejects the request at once, so that it need not be an `ABORT_EARLY` that rejects it
(`pipeline_rejects_iff`).
-/

namespace LlmGateway

/-- The request as the plugins see it. -/
structure PluginContext (ν : Type) where
  model : Str
  messagesJson : Str
  temperature : ν
  maxTokens : Int32
  userIp : Str
  apiKey : Str
  requestId : UInt64
  deriving DecidableEq

/-- What a run of `on_request` does. -/
structure HookRun (ν : Type) where
  /-- The calls of `set_response`. -/
  responses : List (Int32 × Str) := []
  /-- The members of the table afterwards, those that have a value of their type. -/
  model : Option Str := none
  messagesJson : Option Str := none
  temperature : Option ν := none
  maxTokens : Option Int32 := none
  /-- The string that it returns; nothing if it raises an error. -/
  ending : Option Str
  deriving DecidableEq

/-- A plugin, as a program over the Lua state. -/
structure PluginRuntime (σ ν : Type) where
  enabled : Bool := true
  hasOnRequest : Bool := true
  /-- `safe_script` of the script, and whether its result is valid. -/
  safeScript : σ → Bool × σ
  /-- Whether the global `on_request` is a function then. -/
  onRequestDefined : σ → Bool
  onRequest : PluginContext ν → σ → HookRun ν × σ

/-- What comes out of the request pipeline. -/
structure PipelineResult (ν : Type) where
  passed : Bool
  ctx : PluginContext ν
  abortStatus : Int32 := 200
  abortBody : Str := []
  deriving DecidableEq

/-- The function that `set_response` is bound to. -/
def PipelineResult.setResponse {ν : Type} (result : PipelineResult ν) (response : Int32 × Str) :
    PipelineResult ν :=
  { result with
    passed := false
    abortStatus := response.1
    abortBody := response.2 }

namespace HookRun

variable {ν : Type}

/-- The members of the table are written back. -/
def sync (run : HookRun ν) (ctx : PluginContext ν) : PluginContext ν :=
  { ctx with
    model := run.model.getD ctx.model
    messagesJson := run.messagesJson.getD ctx.messagesJson
    temperature := run.temperature.getD ctx.temperature
    maxTokens := run.maxTokens.getD ctx.maxTokens }

/-- The hook asks for an early end. -/
def aborts (run : HookRun ν) : Bool := run.ending = some (str "ABORT_EARLY")

/-- A run that leaves the table as it is and answers nothing. -/
def unchanged (ctx : PluginContext ν) (ending : Option Str) : HookRun ν where
  model := some ctx.model
  messagesJson := some ctx.messagesJson
  temperature := some ctx.temperature
  maxTokens := some ctx.maxTokens
  ending := ending

end HookRun

namespace PluginManager

variable {σ ν : Type}

/-- An iteration up to the end of the hook; nothing if it does not come to the hook. -/
def attempt (plugin : PluginRuntime σ ν) (ctx : PluginContext ν) (lua : σ) : Option (HookRun ν) × σ :=
  if ¬plugin.enabled ∨ ¬plugin.hasOnRequest then (none, lua)
  else
    let (valid, lua) := plugin.safeScript lua
    if ¬valid then (none, lua)
    else if ¬plugin.onRequestDefined lua then (none, lua)
    else
      let (run, lua) := plugin.onRequest ctx lua
      (some run, lua)

/-- The result, the Lua state and what became of the plugins. -/
structure Pipeline (σ ν : Type) where
  result : PipelineResult ν
  lua : σ
  calls : List (Option (HookRun ν)) := []

/-- The loop of `run_request_pipeline`. -/
def loop : List (PluginRuntime σ ν) → Pipeline σ ν → Pipeline σ ν
  | [], p => p
  | plugin :: plugins, p =>
    match attempt plugin p.result.ctx p.lua with
    | (none, lua) => loop plugins { p with lua, calls := p.calls ++ [none] }
    | (some run, lua) =>
      let result := run.responses.foldl PipelineResult.setResponse p.result
      let calls := p.calls ++ [some run]
      match run.ending with
      | none => loop plugins { result, lua, calls }
      | some ret =>
        let result := { result with ctx := run.sync result.ctx }
        if ret = str "ABORT_EARLY" then { result := { result with passed := false }, lua, calls }
        else loop plugins { result, lua, calls }

/-- `run_request_pipeline`. -/
def runRequestPipeline (plugins : List (PluginRuntime σ ν)) (ctx : PluginContext ν) (lua : σ) :
    Pipeline σ ν :=
  loop plugins { result := { passed := true, ctx }, lua }

/-! ## What the plugins do -/

/-- What becomes of each plugin if nothing stops the loop. -/
def behaviours : List (PluginRuntime σ ν) → PluginContext ν → σ → List (Option (HookRun ν))
  | [], _, _ => []
  | plugin :: plugins, ctx, lua =>
    match attempt plugin ctx lua with
    | (none, lua) => none :: behaviours plugins ctx lua
    | (some run, lua) =>
      some run :: behaviours plugins (if run.ending = none then ctx else run.sync ctx) lua

/-- Up to the first hook that returns `ABORT_EARLY`, and with it. -/
def upToAbort : List (Option (HookRun ν)) → List (Option (HookRun ν))
  | [] => []
  | none :: calls => none :: upToAbort calls
  | some run :: calls => some run :: if run.aborts then [] else upToAbort calls

theorem setResponse_foldl (responses : List (Int32 × Str)) (result : PipelineResult ν) :
    (responses.foldl PipelineResult.setResponse result).ctx = result.ctx ∧
      ((responses.foldl PipelineResult.setResponse result).passed = false ↔
        result.passed = false ∨ responses ≠ []) := by
  induction responses generalizing result with
  | nil => simp
  | cons response responses ih =>
      rw [List.foldl_cons]
      refine ⟨(ih _).1, (ih _).2.trans (iff_of_true (.inl rfl) (.inr (by simp)))⟩

/-- A hook makes the loop reject the request. -/
def Rejects (run : HookRun ν) : Prop := run.responses ≠ [] ∨ run.aborts = true

theorem exists_some_cons {P : HookRun ν → Prop} (run : HookRun ν) (calls : List (Option (HookRun ν))) :
    (∃ run', some run' ∈ some run :: calls ∧ P run') ↔ P run ∨ ∃ run', some run' ∈ calls ∧ P run' := by
  simp [or_and_right, exists_or]

/-- The loop comes to the plugins up to the first `ABORT_EARLY`, and it rejects the request if a hook
does so. -/
theorem loop_spec (plugins : List (PluginRuntime σ ν)) (p : Pipeline σ ν) :
    (loop plugins p).calls = p.calls ++ upToAbort (behaviours plugins p.result.ctx p.lua) ∧
      ((loop plugins p).result.passed = false ↔ p.result.passed = false ∨
        ∃ run, some run ∈ upToAbort (behaviours plugins p.result.ctx p.lua) ∧ Rejects run) := by
  induction plugins generalizing p with
  | nil => simp [loop, behaviours, upToAbort]
  | cons plugin plugins ih =>
      unfold loop behaviours
      cases hattempt : attempt plugin p.result.ctx p.lua with
      | mk call lua =>
        cases call with
        | none =>
          obtain ⟨hcalls, hpassed⟩ := ih { p with lua, calls := p.calls ++ [none] }
          dsimp only
          refine ⟨?_, ?_⟩
          · rw [hcalls, List.append_assoc]
            rfl
          · rw [hpassed]
            simp [upToAbort]
        | some run =>
          obtain ⟨hctx, hresponses⟩ := setResponse_foldl run.responses p.result
          cases hending : run.ending with
          | none =>
            have haborts : ¬run.aborts = true := by simp [HookRun.aborts, hending]
            obtain ⟨hcalls, hpassed⟩ := ih
              { result := run.responses.foldl PipelineResult.setResponse p.result, lua,
                calls := p.calls ++ [some run] }
            rw [hctx] at hcalls hpassed
            simp only [hending, if_true, upToAbort, if_neg haborts]
            refine ⟨?_, ?_⟩
            · rw [hcalls, List.append_assoc]
              rfl
            · rw [hpassed, hresponses, exists_some_cons, Rejects, or_assoc]
              simp [haborts]
          | some ret =>
            by_cases hret : ret = str "ABORT_EARLY"
            · have haborts : run.aborts = true := by simp [HookRun.aborts, hending, hret]
              simp only [hending, if_pos hret, upToAbort, if_pos haborts, true_iff]
              exact ⟨trivial, .inr ⟨run, List.mem_singleton_self _, .inr haborts⟩⟩
            · have haborts : ¬run.aborts = true := by simp [HookRun.aborts, hending, hret]
              obtain ⟨hcalls, hpassed⟩ := ih
                { result := { run.responses.foldl PipelineResult.setResponse p.result with
                    ctx := run.sync (run.responses.foldl PipelineResult.setResponse p.result).ctx }
                  lua, calls := p.calls ++ [some run] }
              simp only [hctx] at hcalls hpassed
              simp only [hending, if_neg hret, hctx, reduceCtorEq, if_false, upToAbort, if_neg haborts]
              refine ⟨?_, ?_⟩
              · rw [hcalls, List.append_assoc]
                rfl
              · rw [hpassed, hresponses, exists_some_cons, Rejects, or_assoc]
                simp [haborts]

/-- The plugins are run in the order of the list, up to the first `ABORT_EARLY`; and a request is rejected
for an `ABORT_EARLY` only, exactly if there is one or no hook that is run calls `set_response`. -/
theorem pipeline_rejects_iff (plugins : List (PluginRuntime σ ν)) (ctx : PluginContext ν) (lua : σ) :
    let p := runRequestPipeline plugins ctx lua
    let runs := upToAbort (behaviours plugins ctx lua)
    p.calls = runs ∧
    ((p.result.passed = false ↔ ∃ run, some run ∈ p.calls ∧ run.aborts = true) ↔
      (∃ run, some run ∈ runs ∧ run.aborts = true) ∨ ∀ run, some run ∈ runs → run.responses = []) := by
  obtain ⟨hcalls, hpassed⟩ := loop_spec plugins { result := { passed := true, ctx }, lua }
  dsimp only at hcalls hpassed
  rw [List.nil_append] at hcalls
  dsimp only
  rw [runRequestPipeline, hcalls, hpassed]
  refine ⟨rfl, ⟨fun h => ?_, fun h => ?_⟩⟩
  · by_cases hrejects : ∃ run, some run ∈ upToAbort (behaviours plugins ctx lua) ∧ Rejects run
    · exact .inl (h.1 (.inr hrejects))
    · refine .inr fun run hrun => ?_
      by_contra hresponses
      exact hrejects ⟨run, hrun, .inl hresponses⟩
  · constructor
    · rintro (hfalse | ⟨run, hrun, hrejects⟩)
      · cases hfalse
      · rcases h with h | h
        · exact h
        · exact ⟨run, hrun, hrejects.resolve_left fun hne => hne (h run hrun)⟩
    · rintro ⟨run, hrun, haborts⟩
      exact .inr ⟨run, hrun, .inr haborts⟩

/-- A plugin that calls `set_response` and then ends in the given way. -/
def refusing (ending : Option Str) : PluginRuntime Unit ℚ where
  safeScript lua := (true, lua)
  onRequestDefined _ := true
  onRequest _ lua := ({ responses := [(403, str "no")], ending }, lua)

/-- A request. -/
def someContext : PluginContext ℚ where
  model := str "m"
  messagesJson := str "[]"
  temperature := 1
  maxTokens := 1
  userIp := []
  apiKey := []
  requestId := 0

/-- It rejects the request without an `ABORT_EARLY`. -/
theorem rejected_refusing (ending : Option Str) (hending : ending ≠ some (str "ABORT_EARLY")) :
    let p := runRequestPipeline [refusing ending] someContext ()
    p.result.passed = false ∧ ¬∃ run, some run ∈ p.calls ∧ run.aborts = true := by
  obtain ⟨hcalls, hpassed⟩ :=
    loop_spec [refusing ending] { result := { passed := true, ctx := someContext }, lua := () }
  have hruns : upToAbort (behaviours [refusing ending] someContext ()) =
      [some { responses := [(403, str "no")], ending }] := by
    simp [behaviours, attempt, refusing, upToAbort]
  dsimp only at hcalls hpassed ⊢
  rw [hruns] at hcalls hpassed
  rw [runRequestPipeline, hcalls, hpassed]
  refine ⟨.inr ⟨_, List.mem_singleton_self _, .inl (by simp)⟩, ?_⟩
  rintro ⟨run, hrun, haborts⟩
  cases List.mem_singleton.1 hrun
  exact hending (of_decide_eq_true haborts)

/-- It does so whether it returns `CONTINUE` or raises an error. -/
theorem refusing_rejects :
    let p := runRequestPipeline [refusing (some (str "CONTINUE"))] someContext ()
    let p' := runRequestPipeline [refusing none] someContext ()
    ¬(p.result.passed = false ↔ ∃ run, some run ∈ p.calls ∧ run.aborts = true) ∧
      ¬(p'.result.passed = false ↔ ∃ run, some run ∈ p'.calls ∧ run.aborts = true) := by
  obtain ⟨hcontinue, hnoAbort⟩ := rejected_refusing (some (str "CONTINUE")) (by decide)
  obtain ⟨hraises, hnoAbort'⟩ := rejected_refusing none (by decide)
  exact ⟨fun h => hnoAbort (h.1 hcontinue), fun h => hnoAbort' (h.1 hraises)⟩

end PluginManager

end LlmGateway
