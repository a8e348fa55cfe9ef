import LlmGateway.AuthManager
import LlmGateway.Gateway
import LlmGateway.PluginManager
import LlmGateway.RemoteUpstream
import LlmGateway.Router

/-!
# The two entries of a chat

`process_chat` and `handle_chat` have the same beginning (`screen`): the key is verified, a node is chosen,
and the plugins may rewrite the request or abort it.  What is left is the request that is submitted.

`verify` does not look at the model, so that a request goes to a model that its key may not use unless the
node fixes another one (`chats_confined_iff`).
-/

namespace LlmGateway

/-- What a chat message, or the body of a request, says. -/
structure ChatRequest (ν : Type) where
  model : Str
  messagesJson : Str
  toolsJson : Str := []
  temperature : ν
  maxTokens : Int32
  deriving DecidableEq

/-- What the entries of a chat work on. -/
structure ChatServer (σ ν : Type) where
  auth : AuthManager := {}
  router : Router := {}
  plugins : List (PluginRuntime σ ν) := []
  lua : σ
  /-- `ToolRegistry::tools_json`. -/
  toolsJson : Str := []
  upstream : RemoteUpstream ν := {}

/-- How the common beginning ends. -/
inductive Screening (ν : Type) where
  | threw
  | refused (verdict : ChatVerdict)
  | passed (node : BackendNode) (ctx : PluginContext ν)

namespace ChatServer

variable {σ ν : Type}

/-- The node that a pointer points to. -/
def nodeAt (router : Router) (p : Str × ℕ) : BackendNode := ((router.group p.1).nodes[p.2]?).getD {}

section Entries

variable (apiKey userIp : Str) (requestId : UInt64) (now : ℚ) (req : ChatRequest ν)

/-- `pctx`. -/
def startContext : PluginContext ν where
  model := req.model
  messagesJson := req.messagesJson
  temperature := req.temperature
  maxTokens := req.maxTokens
  userIp := userIp
  apiKey := apiKey
  requestId := requestId

/-- What both entries do first: authentication, routing and the request pipeline. -/
def screen (g : ChatServer σ ν) : Screening ν × ChatServer σ ν :=
  match g.auth.verify apiKey req.model now with
  | (none, auth) => (.threw, { g with auth })
  | (some err, auth) =>
    if err ≠ [] then (.refused (.authFailed err), { g with auth })
    else
      match g.router.route req.model with
      | (none, router) => (.refused .noBackend, { g with auth, router })
      | (some p, router) =>
        let pipeline := PluginManager.runRequestPipeline g.plugins
          (startContext apiKey userIp requestId req) g.lua
        let g := { g with auth, router, lua := pipeline.lua }
        if ¬pipeline.result.passed then
          (.refused (.aborted pipeline.result.abortStatus.toInt pipeline.result.abortBody), g)
        else (.passed (nodeAt router p) pipeline.result.ctx, g)

/-- `model` of the request that is submitted. -/
def finalModel (node : BackendNode) (ctx : PluginContext ν) : Str :=
  if node.model = [] then ctx.model else node.model

/-- A chat message; nothing if handling it throws. -/
def processChat (g : ChatServer σ ν) : Option ChatVerdict × ChatServer σ ν :=
  match screen apiKey userIp requestId now req g with
  | (.threw, g) => (none, g)
  | (.refused verdict, g) => (some verdict, g)
  | (.passed node ctx, g) =>
    let finalTools := if req.toolsJson = [] then g.toolsJson else req.toolsJson
    (some .passed, { g with
      upstream := g.upstream.processChat (finalModel node ctx) ctx.messagesJson finalTools ctx.temperature
        ctx.maxTokens node.url node.apiKey })

/-- A request over HTTP. -/
def handleChat (g : ChatServer σ ν) : Option ChatVerdict × ChatServer σ ν :=
  match screen apiKey userIp requestId now req g with
  | (.threw, g) => (none, g)
  | (.refused verdict, g) => (some verdict, g)
  | (.passed node ctx, g) =>
    (some .passed, { g with
      upstream := g.upstream.handleChat (finalModel node ctx) ctx.messagesJson ctx.temperature ctx.maxTokens
        node.url node.apiKey })

end Entries

/-! ## What is submitted -/

/-- What was submitted between two states. -/
def submittedSince (g g' : ChatServer σ ν) : List (PendingTask ν) :=
  g'.upstream.submitted.drop g.upstream.submitted.length

/-- The node that `route` chooses. -/
def routed (model : Str) (g : ChatServer σ ν) : Option BackendNode :=
  (g.router.route model).1.map (nodeAt (g.router.route model).2)

/-- The model of what is submitted, if anything is. -/
def Screening.models : Screening ν → List Str
  | .threw => []
  | .refused _ => []
  | .passed node ctx => [finalModel node ctx]

section Submitted

variable (apiKey userIp : Str) (requestId : UInt64) (now : ℚ) (req : ChatRequest ν) (g : ChatServer σ ν)

/-- The beginning submits nothing. -/
theorem upstream_screen : (screen apiKey userIp requestId now req g).2.upstream = g.upstream := by
  unfold screen
  split
  · rfl
  · split
    · rfl
    · split
      · rfl
      · dsimp only
        split
        · rfl
        · rfl

/-- A request passes the beginning if its key does, a node is found, and the plugins let it pass. -/
theorem models_screen : Screening.models (screen apiKey userIp requestId now req g).1 =
    if (g.auth.verify apiKey req.model now).1 = some [] then
      match g.routed req.model with
      | none => []
      | some node =>
        let result := (PluginManager.runRequestPipeline g.plugins
          (startContext apiKey userIp requestId req) g.lua).result
        if result.passed then [finalModel node result.ctx] else []
    else [] := by
  unfold screen routed
  cases hverify : g.auth.verify apiKey req.model now with
  | mk err auth =>
    cases hroute : g.router.route req.model with
    | mk p router =>
      cases err with
      | none => rfl
      | some err =>
        dsimp only
        by_cases herr : err = []
        · rw [if_neg (not_not.2 herr), if_pos (by rw [herr])]
          cases p with
          | none => rfl
          | some p =>
            dsimp only [Option.map_some]
            split_ifs
            · rfl
            · rfl
        · rw [if_pos herr, if_neg fun h => herr (Option.some.inj h)]
          rfl

theorem models_processChat :
    ((g.submittedSince (processChat apiKey userIp requestId now req g).2).map fun task => task.req.model) =
      Screening.models (screen apiKey userIp requestId now req g).1 := by
  have hupstream := upstream_screen apiKey userIp requestId now req g
  unfold submittedSince processChat
  generalize screen apiKey userIp requestId now req g = screening at hupstream ⊢
  obtain ⟨_ | _ | ⟨node, ctx⟩, g'⟩ := screening
  · simp [Screening.models, ← hupstream]
  · simp [Screening.models, ← hupstream]
  · simp [Screening.models, ← hupstream, RemoteUpstream.processChat, RemoteUpstream.submitChat,
      RemoteUpstream.submit]

theorem models_handleChat :
    ((g.submittedSince (handleChat apiKey userIp requestId now req g).2).map fun task => task.req.model) =
      Screening.models (screen apiKey userIp requestId now req g).1 := by
  have hupstream := upstream_screen apiKey userIp requestId now req g
  unfold submittedSince handleChat
  generalize screen apiKey userIp requestId now req g = screening at hupstream ⊢
  obtain ⟨_ | _ | ⟨node, ctx⟩, g'⟩ := screening
  · simp [Screening.models, ← hupstream]
  · simp [Screening.models, ← hupstream]
  · simp [Screening.models, ← hupstream, RemoteUpstream.handleChat, RemoteUpstream.submitChat,
      RemoteUpstream.submit]

end Submitted

/-! ## The models of a key -/

/-- A plugin that only asks for another model. -/
def rewriting (model : Str) : PluginRuntime σ ν where
  safeScript lua := (true, lua)
  onRequestDefined _ := true
  onRequest _ lua := ({ model := some model, ending := some (str "MODIFY") }, lua)

theorem rewriting_passed (model : Str) (ctx : PluginContext ν) (lua : σ) :
    (PluginManager.runRequestPipeline [rewriting model] ctx lua).result.passed = true := rfl

theorem rewriting_model (model : Str) (ctx : PluginContext ν) (lua : σ) :
    (PluginManager.runRequestPipeline [rewriting model] ctx lua).result.ctx.model = model := rfl

section Confined

variable (names : Str → Str → Prop)

/-- The value of `allowed_models` that a key was added with allows a model: it is `*`, or it names the
model, whatever that means. -/
def Permitted (auth : AuthManager) (apiKey model : Str) : Prop :=
  ∀ info, auth.keys.lookup apiKey = some info → info.allowedModels ≠ str "*" →
    names info.allowedModels model

/-- Whatever plugins there are, nothing is submitted for a model that the key may not use. -/
def Confined (apiKey : Str) (entry : ChatServer σ ν → Option ChatVerdict × ChatServer σ ν)
    (g : ChatServer σ ν) : Prop :=
  ∀ plugins lua, ∀ task ∈ g.submittedSince (entry { g with plugins, lua }).2,
    Permitted names g.auth apiKey task.req.model

/-- The node that is chosen for a request leaves only models that the key may use. -/
def Fixed (apiKey : Str) (now : ℚ) (model : Str) (g : ChatServer σ ν) : Prop :=
  (g.auth.verify apiKey model now).1 = some [] → ∀ node, g.routed model = some node →
    if node.model = [] then ∀ model, Permitted names g.auth apiKey model
    else Permitted names g.auth apiKey node.model

variable {names} (apiKey userIp : Str) (requestId : UInt64) (now : ℚ) (req : ChatRequest ν)

theorem confined_iff {entry : ChatServer σ ν → Option ChatVerdict × ChatServer σ ν} {g : ChatServer σ ν}
    (hentry : ∀ plugins lua,
      ((g.submittedSince (entry { g with plugins, lua }).2).map fun task => task.req.model) =
        Screening.models (screen apiKey userIp requestId now req { g with plugins, lua }).1) :
    Confined names apiKey entry g ↔ Fixed names apiKey now req.model g := by
  constructor
  · intro h hverify node hnode
    have hpermitted (plugins : List (PluginRuntime σ ν)) {model : Str}
        (hmodel : model ∈ Screening.models
          (screen apiKey userIp requestId now req { g with plugins }).1) :
        Permitted names g.auth apiKey model := by
      rw [← hentry plugins g.lua] at hmodel
      obtain ⟨task, htask, rfl⟩ := List.mem_map.1 hmodel
      exact h plugins g.lua task htask
    split_ifs with hempty
    · intro model
      refine hpermitted [rewriting model] ?_
      rw [models_screen, if_pos hverify]
      dsimp only [routed] at hnode ⊢
      rw [hnode]
      dsimp only
      rw [rewriting_passed, if_pos rfl, finalModel, if_pos hempty, rewriting_model]
      exact List.mem_singleton_self model
    · refine hpermitted [] ?_
      rw [models_screen, if_pos hverify]
      dsimp only [routed] at hnode ⊢
      rw [hnode]
      refine List.mem_singleton.2 ?_
      rw [finalModel, if_neg hempty]
  · intro h plugins lua task htask
    have hmodel := List.mem_map_of_mem (f := fun task : PendingTask ν => task.req.model) htask
    rw [hentry, models_screen] at hmodel
    split_ifs at hmodel with hverify
    · dsimp only [routed] at hmodel
      cases hnode : g.routed req.model with
      | none =>
        rw [routed] at hnode
        rw [hnode] at hmodel
        cases hmodel
      | some node =>
        have hfixed := h hverify node hnode
        rw [routed] at hnode
        rw [hnode] at hmodel
        dsimp only at hmodel
        split_ifs at hmodel with hpassed
        · rw [List.mem_singleton.1 hmodel, finalModel]
          split_ifs at hfixed ⊢
          · exact hfixed _
          · exact hfixed
        · cases hmodel
    · cases hmodel

variable (names) in
/-- Over either entry, whatever the plugins do, a request goes to a model that its key may use, exactly if
the key is turned away, there is no node, or the node leaves no other model. -/
theorem chats_confined_iff (g : ChatServer σ ν) :
    (Confined names apiKey (processChat apiKey userIp requestId now req) g ↔
      Fixed names apiKey now req.model g) ∧
    (Confined names apiKey (handleChat apiKey userIp requestId now req) g ↔
      Fixed names apiKey now req.model g) :=
  ⟨confined_iff apiKey userIp requestId now req fun plugins lua =>
      models_processChat apiKey userIp requestId now req { g with plugins, lua },
    confined_iff apiKey userIp requestId now req fun plugins lua =>
      models_handleChat apiKey userIp requestId now req { g with plugins, lua }⟩

end Confined

/-- A server with a key for one model, and a node for all models that fixes none. -/
def oneModelServer : ChatServer Unit ℚ where
  auth := ({} : AuthManager).addKey { key := str "k", allowedModels := str "small" } 0
  router := ({} : Router).registerNode (str "*") {}
  lua := ()

/-- A request for a model. -/
def largeRequest : ChatRequest ℚ where
  model := str "large"
  messagesJson := str "[1]"
  temperature := 1
  maxTokens := 1

/-- The key is good for another model all the same, and no plugin is needed for it. -/
theorem not_confined_oneModelServer :
    ¬Confined (· = ·) (str "k") (processChat (str "k") [] 0 0 largeRequest) oneModelServer ∧
      ¬Confined (· = ·) (str "k") (handleChat (str "k") [] 0 0 largeRequest) oneModelServer := by
  have hmodels : Screening.models (screen (str "k") [] 0 0 largeRequest oneModelServer).1 =
      [str "large"] := by
    decide +kernel
  have hrefuse (task : PendingTask ℚ) (hmodel : task.req.model = str "large") :
      ¬Permitted (· = ·) oneModelServer.auth (str "k") task.req.model := by
    intro h
    have heq := h { key := str "k", allowedModels := str "small" } (by decide) (by decide)
    rw [hmodel] at heq
    exact absurd heq (by decide)
  have hnot {entry : ChatServer Unit ℚ → Option ChatVerdict × ChatServer Unit ℚ}
      (hentry : ((oneModelServer.submittedSince (entry oneModelServer).2).map fun task => task.req.model) =
        Screening.models (screen (str "k") [] 0 0 largeRequest oneModelServer).1) :
      ¬Confined (· = ·) (str "k") entry oneModelServer := by
    intro h
    have hmem : str "large" ∈
        (oneModelServer.submittedSince (entry oneModelServer).2).map fun task => task.req.model := by
      rw [hentry, hmodels]
      exact List.mem_singleton_self _
    obtain ⟨task, htask, hmodel⟩ := List.mem_map.1 hmem
    exact hrefuse task hmodel (h [] () task htask)
  exact ⟨hnot (models_processChat _ _ _ _ _ _), hnot (models_handleChat _ _ _ _ _ _)⟩

end ChatServer

end LlmGateway
