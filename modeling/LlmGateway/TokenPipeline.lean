import LlmGateway.Base

/-!
# The plugins of a stream

`PluginManager::run_token_pipeline` and `PluginManager::run_done_pipeline`.  A plugin is a program on a Lua
state `σ`, which the hooks share.  A hook that fails is passed over, and one that returns nothing takes the
token away from the hooks after it.
-/

namespace LlmGateway

/-- What a call of `on_token` comes to. -/
inductive TokenCall where
  /-- The function raises an error. -/
  | raised
  | string (token : Str)
  /-- It returns nil, or no value. -/
  | nothing
  /-- It returns a value of another type. -/
  | other
  deriving DecidableEq

/-- The part of `PluginRuntime` that a stream uses. -/
structure StreamPlugin (σ : Type) where
  enabled : Bool := true
  hasOnToken : Bool := false
  hasOnDone : Bool := false
  /-- `safe_script` of the script, and whether its result is valid. -/
  safeScript : σ → Bool × σ
  /-- Whether the global `on_token` is a function then. -/
  onTokenDefined : σ → Bool := fun _ => true
  onToken : Str → σ → TokenCall × σ := fun _ lua => (.nothing, lua)
  /-- Whether the global `on_done` is a function. -/
  onDoneDefined : σ → Bool := fun _ => true
  onDone : σ → σ := id

namespace PluginManager

variable {σ : Type}

/-- An iteration of the loop of `run_token_pipeline`: the token after it, unless it is suppressed. -/
def tokenStep (plugin : StreamPlugin σ) (current : Str) (lua : σ) : Option Str × σ :=
  if ¬plugin.enabled ∨ ¬plugin.hasOnToken then (some current, lua)
  else
    let (valid, lua) := plugin.safeScript lua
    if ¬valid then (some current, lua)
    else if ¬plugin.onTokenDefined lua then (some current, lua)
    else
      match plugin.onToken current lua with
      | (.raised, lua) => (some current, lua)
      | (.string token, lua) => (some token, lua)
      | (.nothing, lua) => (none, lua)
      | (.other, lua) => (some current, lua)

/-- A token goes through the plugins, until one drops it. -/
def runTokenPipeline : List (StreamPlugin σ) → Str → σ → Str × σ
  | [], current, lua => (current, lua)
  | plugin :: plugins, current, lua =>
    match tokenStep plugin current lua with
    | (none, lua) => ([], lua)
    | (some current, lua) => runTokenPipeline plugins current lua

/-- An iteration of the loop of `run_done_pipeline`. -/
def doneStep (lua : σ) (plugin : StreamPlugin σ) : σ :=
  if ¬plugin.enabled ∨ ¬plugin.hasOnDone then lua
  else
    let (valid, lua) := plugin.safeScript lua
    if ¬valid then lua
    else if plugin.onDoneDefined lua then plugin.onDone lua
    else lua

/-- The end goes to all plugins. -/
def runDonePipeline (plugins : List (StreamPlugin σ)) (lua : σ) : σ := plugins.foldl doneStep lua

/-! ## Tokens that pass -/

/-- What the plugins make of the tokens of a stream, one after the other. -/
def processed (plugins : List (StreamPlugin σ)) : List Str → σ → List Str
  | [], _ => []
  | tok :: toks, lua =>
    let (p, lua) := runTokenPipeline plugins tok lua
    if p = [] then processed plugins toks lua else p :: processed plugins toks lua

/-- Whatever happens to its hook, the plugin leaves tokens as they are. -/
def Transparent (plugin : StreamPlugin σ) : Prop :=
  ∀ current lua, (tokenStep plugin current lua).1 = some current

theorem runTokenPipeline_transparent {plugins : List (StreamPlugin σ)}
    (h : ∀ plugin ∈ plugins, Transparent plugin) (current : Str) (lua : σ) :
    (runTokenPipeline plugins current lua).1 = current := by
  induction plugins generalizing lua with
  | nil => rfl
  | cons plugin plugins ih =>
    obtain ⟨hplugin, hrest⟩ := List.forall_mem_cons.1 h
    have hstep := hplugin current lua
    rw [runTokenPipeline]
    split
    · next lua' heq =>
      rw [heq] at hstep
      cases hstep
    · next current' lua' heq =>
      rw [heq, Option.some_inj] at hstep
      subst hstep
      exact ih hrest lua'

/-- Transparent plugins leave a stream as it is, but for empty tokens. -/
theorem processed_transparent {plugins : List (StreamPlugin σ)}
    (h : ∀ plugin ∈ plugins, Transparent plugin) (toks : List Str) (lua : σ) :
    processed plugins toks lua = toks.filter (· ≠ []) := by
  induction toks generalizing lua with
  | nil => rfl
  | cons tok toks ih =>
    have htok := runTokenPipeline_transparent h tok lua
    rw [processed]
    dsimp only
    rw [htok, ih]
    by_cases hempty : tok = []
    · rw [if_pos hempty, List.filter_cons_of_neg (by simpa using hempty)]
    · rw [if_neg hempty, List.filter_cons_of_pos (by simpa using hempty)]

end PluginManager

end LlmGateway
