import LlmGateway.ChatEntries

/-!
# The start of the gateway

`main` reads the configuration (`load_config`), and adds a node of its own if there is none for its default
model, and two keys.  Chats and reloads of the plugins follow.

`startup_serves`: what becomes of a key and of a model is decided by the configuration, whatever chats came
before.  The two keys cannot be turned off, but their limits are those of the configuration if it names them.
-/

namespace LlmGateway

variable {σ ν : Type}

/-- Where a process is started. -/
structure StartPlatform (σ ν : Type) where
  json : JsonLib ν
  /-- The plugins that `PluginManager::init` loads from a directory. -/
  pluginsIn : Str → List (PluginRuntime σ ν)
  lua : σ
  /-- The readings of the clock. -/
  clock : ℕ → ℚ

/-- The process, as far as the chats see it. -/
structure GatewayProcess (σ ν : Type) where
  server : ChatServer σ ν
  pluginsDir : Str := []
  /-- `g_upstream` is not null. -/
  upstreamSet : Bool := false
  /-- How often the clock was read. -/
  readings : ℕ := 0

namespace GatewayProcess

/-- Register a node under a route. -/
def registerNode (routeKey : Str) (node : BackendNode) (p : GatewayProcess σ ν) : GatewayProcess σ ν :=
  { p with server := { p.server with router := p.server.router.registerNode routeKey node } }

/-- Add a key, at the time that the clock shows. -/
def addKey (platform : StartPlatform σ ν) (info : KeyInfo) (p : GatewayProcess σ ν) : GatewayProcess σ ν :=
  { p with
    server := { p.server with auth := p.server.auth.addKey info (platform.clock p.readings) }
    readings := p.readings + 1 }

/-! ## The configuration -/

section Config

variable [Double ν]

/-- An element of `backends`, with the key of its group. -/
def readBackend (be : Json ν) : Option (Str × BackendNode) := do
  let name ← be.value "name" Json.getString []
  let url ← be.value "url" Json.getString []
  let apiKey ← be.value "api_key" Json.getString []
  let model ← be.value "model" Json.getString []
  let weight ← be.value "weight" Json.getInt 1
  let routeModel ← be.value "route_model" Json.getString (str "*")
  return (routeModel, { name, url, apiKey, model, weight })

/-- An element of `api_keys`. -/
def readKey (k : Json ν) : Option KeyInfo := do
  let key ← k.value "key" Json.getString []
  let allowedModels ← k.value "models" Json.getString (str "*")
  let qpsLimit ← k.value "qps" Json.getInt 10
  let enabled ← k.value "enabled" Json.getBool true
  return { key, allowedModels, qpsLimit := qpsLimit.toInt, enabled }

/-- `load_config`, for the text of the file if it can be opened; nothing if it throws. -/
def loadConfig (platform : StartPlatform σ ν) (file : Option Str) (p : GatewayProcess σ ν) :
    Option (GatewayProcess σ ν) :=
  match file with
  | none => some p
  | some text => do
    let cfg ← platform.json.parse text
    let pluginsDir ← cfg.value "plugins_dir" Json.getString (str "plugins")
    let _ ← cfg.value "lua_pool_size" Json.getInt 8
    let p := { p with pluginsDir, server := { p.server with plugins := platform.pluginsIn pluginsDir } }
    let p ← ((cfg.member "backends").elim [] Json.elems).foldlM
      (fun p be => (readBackend be).map fun r => registerNode r.1 r.2 p) p
    let p ← ((cfg.member "api_keys").elim [] Json.elems).foldlM
      (fun p k => (readKey k).map fun info => addKey platform info p) p
    let _ ← cfg.value "upstream_type" Json.getString (str "remote")
    return { p with upstreamSet := true }

/-! ## Start -/

/-- `ln`. -/
def localNode : BackendNode where
  name := str "ollama-local"
  url := str "http://127.0.0.1:11434/v1/chat/completions"
  model := str "qwen2.5:7b-instruct-q4_K_M"
  weight := 1

/-- Without a node for `local-model`, `main` adds its own. -/
def addLocalNode (p : GatewayProcess σ ν) : GatewayProcess σ ν :=
  match p.server.router.route (str "local-model") with
  | (some _, router) => { p with server := { p.server with router } }
  | (none, router) =>
    registerNode (str "*") localNode
      (registerNode (str "local-model") localNode { p with server := { p.server with router } })

/-- The keys that are added after those of the configuration. -/
def builtinKeys : List KeyInfo :=
  [{ key := str "test-key-123", allowedModels := str "*", qpsLimit := 60, enabled := true },
    { key := str "default-key", allowedModels := str "*", qpsLimit := 60, enabled := true }]

/-- `main` up to `run`; nothing if the process ends by an exception. -/
def main (platform : StartPlatform σ ν) (file : Option Str) : Option (GatewayProcess σ ν) :=
  (loadConfig platform file { server := { lua := platform.lua } }).map fun p =>
    builtinKeys.foldl (fun p info => addKey platform info p) (addLocalNode p)

end Config

/-! ## Chats -/

/-- A chat, over either entry. -/
structure Chat (ν : Type) where
  websocket : Bool
  apiKey : Str
  userIp : Str
  requestId : UInt64
  now : ℚ
  req : ChatRequest ν

/-- A chat over one of the two entries. -/
def Chat.handle (c : Chat ν) (g : ChatServer σ ν) : Option ChatVerdict × ChatServer σ ν :=
  if c.websocket then ChatServer.processChat c.apiKey c.userIp c.requestId c.now c.req g
  else ChatServer.handleChat c.apiKey c.userIp c.requestId c.now c.req g

/-- Nothing if the process ends: a chat that passes is submitted to `g_upstream`. -/
def chat (c : Chat ν) (p : GatewayProcess σ ν) : Option (GatewayProcess σ ν) :=
  if (c.handle p.server).1 = some .passed ∧ p.upstreamSet = false then none
  else some { p with server := (c.handle p.server).2 }

/-- The watcher of a directory leaves other plugins; there is none without a directory. -/
def reload (plugins : List (PluginRuntime σ ν)) (p : GatewayProcess σ ν) : GatewayProcess σ ν :=
  if p.pluginsDir = [] then p else { p with server := { p.server with plugins } }

/-- A chat, or a reload of the plugins. -/
inductive Event (σ ν : Type) where
  | chat (c : Chat ν)
  | reload (plugins : List (PluginRuntime σ ν))

/-- What an event does; nothing if the process ends. -/
def step (p : GatewayProcess σ ν) : Event σ ν → Option (GatewayProcess σ ν)
  | .chat c => chat c p
  | .reload plugins => some (reload plugins p)

/-- Nothing if the process has ended on the way. -/
def run (p : GatewayProcess σ ν) (events : List (Event σ ν)) : Option (GatewayProcess σ ν) :=
  events.foldlM step p

/-! ## What is read -/

/-- A loop that reads its elements one by one reads them all first. -/
theorem foldlM_map_eq {α β γ : Type} (f : α → Option β) (g : γ → β → γ) (xs : List α) (c : γ) :
    xs.foldlM (fun c x => (f x).map (g c)) c = (xs.mapM f).map fun ys => ys.foldl g c := by
  induction xs generalizing c with
  | nil => rfl
  | cons x xs ih =>
    rw [List.foldlM_cons, List.mapM_cons]
    cases f x with
    | none => rfl
    | some y =>
      refine (ih (g c y)).trans ?_
      cases xs.mapM f with
      | none => rfl
      | some ys => rfl

/-- What is read of a configuration. -/
structure GatewayConfig where
  pluginsDir : Str := []
  backends : List (Str × BackendNode) := []
  apiKeys : List KeyInfo := []
  deriving DecidableEq

section Read

variable [Double ν] (platform : StartPlatform σ ν)

/-- What `load_config` reads; without a file there are the defaults. -/
def readConfig (lib : JsonLib ν) : Option Str → Option GatewayConfig
  | none => some {}
  | some text => do
    let cfg ← lib.parse text
    let pluginsDir ← cfg.value "plugins_dir" Json.getString (str "plugins")
    let _ ← cfg.value "lua_pool_size" Json.getInt 8
    let backends ← ((cfg.member "backends").elim [] Json.elems).mapM readBackend
    let apiKeys ← ((cfg.member "api_keys").elim [] Json.elems).mapM readKey
    let _ ← cfg.value "upstream_type" Json.getString (str "remote")
    return { pluginsDir, backends, apiKeys }

/-- The process when the plugins are loaded. -/
def initialised (file : Option Str) (cfg : GatewayConfig) : GatewayProcess σ ν where
  server := { plugins := if file.isSome then platform.pluginsIn cfg.pluginsDir else [], lua := platform.lua }
  pluginsDir := cfg.pluginsDir

/-- The process before `main` adds its own. -/
def configured (file : Option Str) (cfg : GatewayConfig) : GatewayProcess σ ν :=
  let p := cfg.backends.foldl (fun p r => registerNode r.1 r.2 p) (initialised platform file cfg)
  { cfg.apiKeys.foldl (fun p info => addKey platform info p) p with upstreamSet := file.isSome }

theorem loadConfig_eq (file : Option Str) :
    loadConfig platform file { server := { lua := platform.lua } } =
      (readConfig platform.json file).map (configured platform file) := by
  cases file with
  | none => rfl
  | some text =>
    rw [loadConfig, readConfig]
    dsimp only
    simp only [foldlM_map_eq]
    cases platform.json.parse text with
    | none => rfl
    | some cfg =>
      simp only [Option.bind_eq_bind, Option.bind_some]
      cases cfg.value "plugins_dir" Json.getString (str "plugins") with
      | none => rfl
      | some pluginsDir =>
        cases cfg.value "lua_pool_size" Json.getInt 8 with
        | none => rfl
        | some size =>
          cases ((cfg.member "backends").elim [] Json.elems).mapM readBackend with
          | none => rfl
          | some backends =>
            cases ((cfg.member "api_keys").elim [] Json.elems).mapM readKey with
            | none => rfl
            | some apiKeys =>
              cases cfg.value "upstream_type" Json.getString (str "remote") with
              | none => rfl
              | some upstreamType => rfl

end Read

/-! ## What the server knows -/

/-- The capacity and the rate of a bucket. -/
def limits (b : TokenBucket ℚ) : ℚ × ℚ := (b.capacity, b.rate)

/-- The keys and the nodes are those that were added, and a bucket has the limit that came first. -/
structure Serves (infos : List KeyInfo) (regs : List (Str × BackendNode)) (g : ChatServer σ ν) : Prop where
  keys : ∀ key, g.auth.keys.lookup key = (infos.filter fun info => info.key = key).getLast?
  buckets : ∀ key, (g.auth.buckets.lookup key).map limits =
    (infos.find? fun info => info.key = key).map fun first => ((first.qpsLimit : ℚ), (first.qpsLimit : ℚ))
  nodes : ∀ key, (g.router.group key).nodes = Router.nodesOf regs key

namespace Serves

variable {infos : List KeyInfo} {regs : List (Str × BackendNode)} {g : ChatServer σ ν}

theorem registerNode (h : Serves infos regs g) (routeKey : Str) (node : BackendNode) :
    Serves infos (regs ++ [(routeKey, node)]) { g with router := g.router.registerNode routeKey node } where
  keys := h.keys
  buckets := h.buckets
  nodes key := by
    rw [Router.registerNode, Router.group_insert, Router.nodesOf, List.filter_append, List.map_append,
      ← Router.nodesOf, ← h.nodes]
    by_cases hkey : key = routeKey
    · rw [if_pos hkey, List.filter_cons_of_pos (by simpa using hkey.symm), hkey]
      rfl
    · rw [if_neg hkey, List.filter_cons_of_neg (by simpa using Ne.symm hkey)]
      exact (List.append_nil _).symm

theorem addKey (h : Serves infos regs g) (info : KeyInfo) (now : ℚ) :
    Serves (infos ++ [info]) regs { g with auth := g.auth.addKey info now } where
  keys key := by
    rw [List.filter_append, List.getLast?_append, ← h.keys]
    by_cases hkey : info.key = key
    · rw [List.filter_cons_of_pos (by simpa using hkey), ← hkey]
      exact AList.lookup_insert _
    · rw [List.filter_cons_of_neg (by simpa using hkey)]
      exact AList.lookup_insert_ne (Ne.symm hkey)
  buckets key := by
    have hold := h.buckets key
    dsimp only
    rw [AuthManager.buckets_addKey, List.find?_append, List.find?_singleton]
    by_cases hkey : info.key = key
    · rw [if_pos hkey, if_pos (by simpa using hkey)]
      cases hfirst : infos.find? fun info => info.key = key with
      | none =>
        rw [hfirst, Option.map_none, Option.map_eq_none_iff] at hold
        rw [hold]
        rfl
      | some first =>
        rw [hfirst] at hold
        obtain ⟨b, hb, hlimits⟩ := Option.map_eq_some_iff.1 hold
        rw [hb]
        exact congrArg some hlimits
    · rw [if_neg hkey, if_neg (by simpa using hkey), Option.or_none, hold]
  nodes := h.nodes

theorem verify (h : Serves infos regs g) (apiKey model : Str) (now : ℚ) :
    Serves infos regs { g with auth := (g.auth.verify apiKey model now).2 } where
  keys key := by
    rw [← h.keys]
    dsimp only
    rw [AuthManager.keys_verify]
  buckets key := by
    rw [← h.buckets]
    dsimp only
    rcases g.auth.snd_verify apiKey model now with hsame | ⟨b, hb, hsnd⟩
    · rw [hsame]
    · rw [hsnd]
      by_cases hkey : key = apiKey
      · rw [hkey, AList.lookup_insert, hb, Option.map_some, Option.map_some, limits, limits,
          TokenBucket.capacity_consume, TokenBucket.rate_consume]
      · rw [AList.lookup_insert_ne hkey]
  nodes := h.nodes

theorem route (h : Serves infos regs g) (model : Str) :
    Serves infos regs { g with router := (g.router.route model).2 } where
  keys := h.keys
  buckets := h.buckets
  nodes key := (Router.nodes_route model g.router key).trans (h.nodes key)

/-- The state of the plugins and of the upstream does not matter. -/
theorem congr (h : Serves infos regs g) {g' : ChatServer σ ν} (hauth : g'.auth = g.auth)
    (hrouter : g'.router = g.router) : Serves infos regs g' where
  keys := hauth ▸ h.keys
  buckets := hauth ▸ h.buckets
  nodes := hrouter ▸ h.nodes

/-! ### Chats -/

theorem screen (h : Serves infos regs g) (c : Chat ν) :
    Serves infos regs (ChatServer.screen c.apiKey c.userIp c.requestId c.now c.req g).2 := by
  have hverify := h.verify c.apiKey c.req.model c.now
  have hroute := hverify.route c.req.model
  unfold ChatServer.screen
  generalize g.auth.verify c.apiKey c.req.model c.now = verified at hverify hroute
  generalize g.router.route c.req.model = routed at hroute
  obtain ⟨_ | err, auth⟩ := verified
  · exact hverify
  · dsimp only
    split
    · exact hverify
    · obtain ⟨_ | p, router⟩ := routed
      · exact hroute
      · dsimp only
        split
        · exact hroute.congr rfl rfl
        · exact hroute.congr rfl rfl

theorem handle (h : Serves infos regs g) (c : Chat ν) : Serves infos regs (c.handle g).2 := by
  have hscreen := h.screen c
  unfold Chat.handle ChatServer.processChat ChatServer.handleChat
  generalize ChatServer.screen c.apiKey c.userIp c.requestId c.now c.req g = screening at hscreen
  obtain ⟨_ | _ | ⟨node, ctx⟩, g'⟩ := screening
  · cases c.websocket <;> exact hscreen
  · cases c.websocket <;> exact hscreen
  · cases c.websocket <;> exact hscreen.congr rfl rfl

theorem step {p p' : GatewayProcess σ ν} (h : Serves infos regs p.server) {event : Event σ ν}
    (hstep : step p event = some p') : Serves infos regs p'.server := by
  cases event with
  | chat c =>
    rw [GatewayProcess.step, chat] at hstep
    split_ifs at hstep
    cases hstep
    exact h.handle c
  | reload plugins =>
    cases hstep
    unfold reload
    split_ifs
    · exact h
    · exact h.congr rfl rfl

theorem run {p p' : GatewayProcess σ ν} (h : Serves infos regs p.server) {events : List (Event σ ν)}
    (hrun : run p events = some p') : Serves infos regs p'.server := by
  induction events generalizing p with
  | nil =>
    cases hrun
    exact h
  | cons event events ih =>
    obtain ⟨next, hnext, hrest⟩ := Option.bind_eq_some_iff.1 hrun
    exact ih (h.step hnext) hrest

/-! ### Answers -/

theorem verify_of_unknown (h : Serves infos regs g) {key : Str} (hkey : key ≠ [])
    (hnew : ∀ info ∈ infos, info.key ≠ key) (model : Str) (now : ℚ) :
    g.auth.verify key model now = (some (str "invalid api key"), g.auth) := by
  have hnone : infos.filter (fun info => info.key = key) = [] := by
    rw [List.filter_eq_nil_iff]
    simpa using hnew
  rw [AuthManager.verify, if_neg hkey, h.keys, hnone]
  rfl

theorem verify_of_enabled (h : Serves infos regs g) {key : Str} (hkey : key ≠ []) {info : KeyInfo}
    (hlast : (infos.filter fun info => info.key = key).getLast? = some info) (henabled : info.enabled = true)
    (model : Str) (now : ℚ) :
    ∃ answer ∈ [[], str "rate limit exceeded"], (g.auth.verify key model now).1 = some answer := by
  have hmem : info ∈ infos ∧ info.key = key := by simpa using List.mem_of_getLast? hlast
  have hfound : (infos.find? fun info => info.key = key).isSome :=
    List.find?_isSome.2 ⟨info, hmem.1, by simpa using hmem.2⟩
  obtain ⟨first, hfirst⟩ := Option.isSome_iff_exists.1 hfound
  have hbuckets := h.buckets key
  rw [hfirst] at hbuckets
  obtain ⟨b, hb, -⟩ := Option.map_eq_some_iff.1 hbuckets
  rw [AuthManager.verify, if_neg hkey, h.keys, hlast]
  dsimp only
  rw [if_neg (not_not.2 henabled), hb]
  dsimp only
  split
  · exact ⟨_, List.mem_cons_of_mem _ List.mem_cons_self, rfl⟩
  · exact ⟨_, List.mem_cons_self, rfl⟩

/-- The nodes that `route` chooses from. -/
def choices (regs : List (Str × BackendNode)) (model : Str) : List BackendNode :=
  if Router.nodesOf regs model = [] then Router.nodesOf regs (str "*") else Router.nodesOf regs model

theorem choices_eq_nil_iff {model : Str} :
    choices regs model = [] ↔ Router.nodesOf regs model = [] ∧ Router.nodesOf regs (str "*") = [] := by
  unfold choices
  by_cases hown : Router.nodesOf regs model = []
  · rw [if_pos hown, and_iff_right hown]
  · rw [if_neg hown]
    exact iff_of_false hown fun hboth => hown hboth.1

theorem hasHealthy_iff (h : Serves infos regs g) (hhealthy : ∀ r ∈ regs, r.2.healthy = true) (key : Str) :
    Router.HasHealthy (g.router.group key) ↔ Router.nodesOf regs key ≠ [] := by
  rw [Router.HasHealthy, h.nodes]
  constructor
  · rintro ⟨n, hn, -⟩
    exact List.ne_nil_of_mem hn
  · intro hne
    obtain ⟨n, hn⟩ := List.exists_mem_of_ne_nil _ hne
    obtain ⟨r, hr, rfl⟩ := List.mem_map.1 hn
    exact ⟨_, hn, hhealthy r (List.mem_of_mem_filter hr)⟩

theorem routed_spec (h : Serves infos regs g) (hhealthy : ∀ r ∈ regs, r.2.healthy = true) (model : Str) :
    (choices regs model = [] → g.routed model = none) ∧
      (choices regs model ≠ [] → ∃ node ∈ choices regs model, g.routed model = some node) := by
  have hnone := g.router.route_eq_none_iff model
  rw [h.hasHealthy_iff hhealthy, h.hasHealthy_iff hhealthy, not_not, not_not] at hnone
  refine ⟨fun hchoices => ?_, fun hchoices => ?_⟩
  · rw [ChatServer.routed, hnone.2 (choices_eq_nil_iff.1 hchoices), Option.map_none]
  · cases hroute : (g.router.route model).1 with
    | none => exact absurd (choices_eq_nil_iff.2 (hnone.1 hroute)) hchoices
    | some q =>
      obtain ⟨key, i⟩ := q
      obtain ⟨⟨n, hn, -⟩, hkey⟩ := Router.mem_of_route hroute
      rw [h.nodes] at hn
      rw [h.hasHealthy_iff hhealthy, not_not] at hkey
      have hnode : g.routed model = some n := by
        rw [ChatServer.routed, hroute, Option.map_some, ChatServer.nodeAt, Router.nodes_route, h.nodes, hn,
          Option.getD_some]
      have hmem : n ∈ choices regs model := by
        unfold choices
        rcases hkey with rfl | ⟨rfl, hown⟩
        · rw [if_neg (List.ne_nil_of_mem (List.mem_of_getElem? hn))]
          exact List.mem_of_getElem? hn
        · rw [if_pos hown]
          exact List.mem_of_getElem? hn
      exact ⟨n, hmem, hnode⟩

end Serves

/-! ## The start -/

theorem serves_empty (lua : σ) (plugins : List (PluginRuntime σ ν)) :
    Serves [] [] ({ plugins, lua } : ChatServer σ ν) where
  keys _ := rfl
  buckets _ := rfl
  nodes _ := rfl

theorem serves_registerNodes {infos : List KeyInfo} {regs : List (Str × BackendNode)} {p : GatewayProcess σ ν}
    (h : Serves infos regs p.server) (backends : List (Str × BackendNode)) :
    Serves infos (regs ++ backends) (backends.foldl (fun p r => registerNode r.1 r.2 p) p).server := by
  induction backends generalizing p regs with
  | nil => rwa [List.append_nil]
  | cons r backends ih =>
    rw [List.foldl_cons, List.append_cons]
    exact ih (h.registerNode r.1 r.2)

theorem serves_addKeys {infos : List KeyInfo} {regs : List (Str × BackendNode)} {p : GatewayProcess σ ν}
    (h : Serves infos regs p.server) (platform : StartPlatform σ ν) (apiKeys : List KeyInfo) :
    Serves (infos ++ apiKeys) regs (apiKeys.foldl (fun p info => addKey platform info p) p).server := by
  induction apiKeys generalizing p infos with
  | nil => rwa [List.append_nil]
  | cons info apiKeys ih =>
    rw [List.foldl_cons, List.append_cons]
    exact ih (h.addKey info (platform.clock p.readings))

theorem serves_configured (platform : StartPlatform σ ν) (file : Option Str) (cfg : GatewayConfig) :
    Serves cfg.apiKeys cfg.backends (configured platform file cfg).server := by
  have hempty : Serves [] [] (initialised platform file cfg).server := serves_empty _ _
  have hnodes := serves_registerNodes hempty cfg.backends
  exact serves_addKeys hnodes platform cfg.apiKeys

/-- The nodes of the configuration, with the one of `main` if that is needed. -/
def withLocalNode (backends : List (Str × BackendNode)) : List (Str × BackendNode) :=
  if Serves.choices backends (str "local-model") = [] then
    backends ++ [(str "local-model", localNode)] ++ [(str "*", localNode)]
  else backends

theorem healthy_withLocalNode {backends : List (Str × BackendNode)} (h : ∀ r ∈ backends, r.2.healthy = true) :
    ∀ r ∈ withLocalNode backends, r.2.healthy = true := by
  unfold withLocalNode
  split
  · simp only [List.mem_append, List.mem_singleton]
    rintro r ((hr | rfl) | rfl)
    · exact h r hr
    · rfl
    · rfl
  · exact h

theorem serves_addLocalNode {infos : List KeyInfo} {backends : List (Str × BackendNode)}
    {p : GatewayProcess σ ν} (h : Serves infos backends p.server)
    (hhealthy : ∀ r ∈ backends, r.2.healthy = true) :
    Serves infos (withLocalNode backends) (addLocalNode p).server := by
  have hroute := h.route (str "local-model")
  obtain ⟨hnone, hsome⟩ := h.routed_spec hhealthy (str "local-model")
  unfold addLocalNode withLocalNode
  rw [ChatServer.routed] at hnone hsome
  generalize p.server.router.route (str "local-model") = result at hroute hnone hsome
  obtain ⟨_ | q, router⟩ := result
  · have hempty : Serves.choices backends (str "local-model") = [] := by
      by_contra hne
      obtain ⟨node, -, hnode⟩ := hsome hne
      cases hnode
    rw [if_pos hempty]
    exact (hroute.registerNode (str "local-model") localNode).registerNode (str "*") localNode
  · rw [if_neg fun hempty => Option.some_ne_none _ (hnone hempty)]
    exact hroute

section Started

variable [Double ν] {platform : StartPlatform σ ν} {file : Option Str} {cfg : GatewayConfig}

/-- The process at the beginning of the loop. -/
def started (platform : StartPlatform σ ν) (file : Option Str) (cfg : GatewayConfig) : GatewayProcess σ ν :=
  builtinKeys.foldl (fun p info => addKey platform info p) (addLocalNode (configured platform file cfg))

theorem main_eq (platform : StartPlatform σ ν) (file : Option Str) :
    main platform file = (readConfig platform.json file).map (started platform file) := by
  rw [main, loadConfig_eq, Option.map_map]
  rfl

theorem healthy_readBackend {be : Json ν} {r : Str × BackendNode} (h : readBackend be = some r) :
    r.2.healthy = true := by
  simp only [readBackend, Option.bind_eq_bind, Option.bind_eq_some_iff, Option.pure_def, Option.some.injEq] at h
  obtain ⟨name, -, url, -, apiKey, -, model, -, weight, -, routeModel, -, rfl⟩ := h
  rfl

theorem healthy_mapM {bes : List (Json ν)} {backends : List (Str × BackendNode)}
    (h : bes.mapM readBackend = some backends) : ∀ r ∈ backends, r.2.healthy = true := by
  induction bes generalizing backends with
  | nil =>
    cases h
    exact List.forall_mem_nil _
  | cons be bes ih =>
    simp only [List.mapM_cons, Option.bind_eq_bind, Option.bind_eq_some_iff, Option.pure_def,
      Option.some.injEq] at h
    obtain ⟨r, hr, rest, hrest, rfl⟩ := h
    exact List.forall_mem_cons.2 ⟨healthy_readBackend hr, ih hrest⟩

theorem healthy_readConfig (hcfg : readConfig platform.json file = some cfg) :
    ∀ r ∈ cfg.backends, r.2.healthy = true := by
  cases file with
  | none =>
    cases hcfg
    exact List.forall_mem_nil _
  | some text =>
    simp only [readConfig, Option.bind_eq_bind, Option.bind_eq_some_iff, Option.pure_def,
      Option.some.injEq] at hcfg
    obtain ⟨j, -, pluginsDir, -, size, -, backends, hbackends, apiKeys, -, upstreamType, -, rfl⟩ := hcfg
    exact healthy_mapM hbackends

theorem serves_started (hcfg : readConfig platform.json file = some cfg) :
    Serves (cfg.apiKeys ++ builtinKeys) (withLocalNode cfg.backends) (started platform file cfg).server :=
  serves_addKeys (serves_addLocalNode (serves_configured platform file cfg) (healthy_readConfig hcfg)) platform _

/-! ## Any chats later -/

/-- What `verify` can say of a key. -/
def answersFor (cfg : GatewayConfig) (key : Str) : List Str :=
  if key = [] then [[]]
  else if builtinKeys.any fun info => info.key = key then [[], str "rate limit exceeded"]
  else
    (cfg.apiKeys.filter fun info => info.key = key).getLast?.elim [str "invalid api key"] fun info =>
      if info.enabled then [[], str "rate limit exceeded"] else [str "key disabled"]

/-- The limit of a key. -/
def limitOf (cfg : GatewayConfig) (key : Str) : Option ℤ :=
  ((cfg.apiKeys ++ builtinKeys).find? fun info => info.key = key).map KeyInfo.qpsLimit

/-- The nodes that serve a model. -/
def nodesFor (cfg : GatewayConfig) (model : Str) : List BackendNode :=
  if Router.nodesOf cfg.backends model ≠ [] then Router.nodesOf cfg.backends model
  else if Router.nodesOf cfg.backends (str "*") ≠ [] then Router.nodesOf cfg.backends (str "*")
  else if Router.nodesOf cfg.backends (str "local-model") = [] then [localNode]
  else []

theorem nodesOf_append_singleton (regs : List (Str × BackendNode)) (routeKey : Str) (node : BackendNode)
    (key : Str) : Router.nodesOf (regs ++ [(routeKey, node)]) key =
      Router.nodesOf regs key ++ if routeKey = key then [node] else [] := by
  rw [Router.nodesOf, List.filter_append, List.map_append, ← Router.nodesOf]
  by_cases hkey : routeKey = key
  · rw [if_pos hkey, List.filter_cons_of_pos (by simpa using hkey)]
    rfl
  · rw [if_neg hkey, List.filter_cons_of_neg (by simpa using hkey)]
    rfl

theorem choices_withLocalNode (cfg : GatewayConfig) (model : Str) :
    Serves.choices (withLocalNode cfg.backends) model = nodesFor cfg model := by
  have hempty : Serves.choices cfg.backends (str "local-model") = [] ↔
      Router.nodesOf cfg.backends (str "local-model") = [] ∧ Router.nodesOf cfg.backends (str "*") = [] :=
    Serves.choices_eq_nil_iff
  by_cases hlocal : Serves.choices cfg.backends (str "local-model") = []
  · obtain ⟨hnone, hdefault⟩ := hempty.1 hlocal
    have hnodes (key : Str) : Router.nodesOf (withLocalNode cfg.backends) key =
        Router.nodesOf cfg.backends key ++ (if str "local-model" = key then [localNode] else []) ++
          if str "*" = key then [localNode] else [] := by
      rw [withLocalNode, if_pos hlocal, nodesOf_append_singleton, nodesOf_append_singleton]
    have hne : str "local-model" ≠ str "*" := by decide
    rw [Serves.choices, hnodes, hnodes, nodesFor, hnone, hdefault]
    by_cases hown : Router.nodesOf cfg.backends model = []
    · rw [hown]
      by_cases hmodel : str "local-model" = model
      · simp [← hmodel, hne.symm]
      · by_cases hstar : str "*" = model
        · simp [← hstar, hne]
        · simp [hmodel, hstar, hne]
    · have hmodel : str "local-model" ≠ model := fun heq => hown (heq ▸ hnone)
      have hstar : str "*" ≠ model := fun heq => hown (heq ▸ hdefault)
      simp [hmodel, hstar, hown]
  · rw [withLocalNode, if_neg hlocal, Serves.choices, nodesFor]
    by_cases hown : Router.nodesOf cfg.backends model = []
    · rw [if_pos hown, if_neg (not_not.2 hown)]
      by_cases hdefault : Router.nodesOf cfg.backends (str "*") = []
      · rw [if_neg (not_not.2 hdefault), if_neg fun hnone => hlocal (hempty.2 ⟨hnone, hdefault⟩), hdefault]
      · rw [if_pos hdefault]
    · rw [if_neg hown, if_pos hown]

theorem getLast?_builtinKeys {key : Str} (hkey : key ∈ builtinKeys.map KeyInfo.key) :
    ∃ info, (builtinKeys.filter fun info => info.key = key).getLast? = some info ∧ info.enabled = true := by
  have hkey' : key = str "test-key-123" ∨ key = str "default-key" := by simpa [builtinKeys] using hkey
  rcases hkey' with rfl | rfl
  · exact ⟨{ key := str "test-key-123", allowedModels := str "*", qpsLimit := 60 }, by decide +kernel, rfl⟩
  · exact ⟨{ key := str "default-key", allowedModels := str "*", qpsLimit := 60 }, by decide +kernel, rfl⟩

omit [Double ν] in
theorem Serves.answer {backends : List (Str × BackendNode)} {g : ChatServer σ ν}
    (h : Serves (cfg.apiKeys ++ builtinKeys) backends g) (key model : Str) (now : ℚ) :
    ∃ answer ∈ answersFor cfg key, (g.auth.verify key model now).1 = some answer := by
  unfold answersFor
  by_cases hempty : key = []
  · rw [if_pos hempty]
    refine ⟨[], List.mem_singleton_self _, ?_⟩
    rw [AuthManager.verify, if_pos hempty]
  · rw [if_neg hempty]
    have hany : (builtinKeys.any fun info => info.key = key) = true ↔ key ∈ builtinKeys.map KeyInfo.key := by
      simp
    by_cases hbuiltin : key ∈ builtinKeys.map KeyInfo.key
    · rw [if_pos (hany.2 hbuiltin)]
      obtain ⟨info, hinfo, henabled⟩ := getLast?_builtinKeys hbuiltin
      refine h.verify_of_enabled hempty ?_ henabled model now
      rw [List.filter_append, List.getLast?_append, hinfo, Option.some_or]
    · rw [if_neg (hbuiltin ∘ hany.1)]
      have hother : builtinKeys.filter (fun info => info.key = key) = [] := by
        rw [List.filter_eq_nil_iff]
        exact fun info hinfo heq => hbuiltin (List.mem_map.2 ⟨info, hinfo, by simpa using heq⟩)
      have hfilter : (cfg.apiKeys ++ builtinKeys).filter (fun info => info.key = key) =
          cfg.apiKeys.filter fun info => info.key = key := by
        rw [List.filter_append, hother, List.append_nil]
      cases hlast : (cfg.apiKeys.filter fun info => info.key = key).getLast? with
      | none =>
        have hnew : ∀ info ∈ cfg.apiKeys ++ builtinKeys, info.key ≠ key := by
          rw [List.getLast?_eq_none_iff, ← hfilter, List.filter_eq_nil_iff] at hlast
          simpa using hlast
        refine ⟨_, List.mem_singleton_self _, ?_⟩
        rw [h.verify_of_unknown hempty hnew]
      | some info =>
        rw [← hfilter] at hlast
        rw [Option.elim_some]
        by_cases henabled : info.enabled = true
        · rw [if_pos henabled]
          exact h.verify_of_enabled hempty hlast henabled model now
        · rw [if_neg henabled]
          refine ⟨_, List.mem_singleton_self _, ?_⟩
          rw [AuthManager.verify_of_disabled hempty ((h.keys key).trans hlast) (by simpa using henabled)]

/-- After any chats and reloads: the answer for a key, its limit and the nodes for a model are those that the
configuration gives them, with the two keys of `main` and its node where there is none. -/
theorem startup_serves (hcfg : readConfig platform.json file = some cfg) :
    ∃ p, main platform file = some p ∧ ∀ events p', run p events = some p' →
      (∀ key model now, ∃ answer ∈ answersFor cfg key, (p'.server.auth.verify key model now).1 = some answer) ∧
      (∀ key, (p'.server.auth.buckets.lookup key).map limits =
        (limitOf cfg key).map fun q : ℤ => ((q : ℚ), (q : ℚ))) ∧
      ∀ model, (nodesFor cfg model = [] → p'.server.routed model = none) ∧
        (nodesFor cfg model ≠ [] → ∃ node ∈ nodesFor cfg model, p'.server.routed model = some node) := by
  refine ⟨started platform file cfg, ?_, fun events p' hrun => ?_⟩
  · rw [main_eq, hcfg, Option.map_some]
  · have h := (serves_started hcfg).run hrun
    refine ⟨h.answer, fun key => ?_, fun model => ?_⟩
    · rw [h.buckets, limitOf, Option.map_map]
      rfl
    · rw [← choices_withLocalNode]
      exact h.routed_spec (healthy_withLocalNode (healthy_readConfig hcfg)) model

end Started

/-- A configuration with a node for one model, which turns one of the two keys off. -/
def oneNodeConfig : Json ℚ :=
  .object (Json.members
    [(str "backends", .array [.object (Json.members
        [(str "name", .string (str "small")), (str "route_model", .string (str "local-model"))])]),
      (str "api_keys", .array [.object (Json.members
        [(str "key", .string (str "test-key-123")), (str "qps", .int 10000), (str "enabled", .bool false)])])])

/-- A platform with the library on one configuration. -/
def oneNodePlatform : StartPlatform Unit ℚ where
  json := JsonLib.on Json.showRat [oneNodeConfig]
  pluginsIn _ := []
  lua := ()
  clock := Nat.cast

theorem startup_serves_oneNode :
    ∃ p, main oneNodePlatform (some (oneNodeConfig.compact Json.showRat)) = some p ∧
      ∀ events p', run p events = some p' →
        (p'.server.auth.buckets.lookup (str "test-key-123")).map limits = some (10000, 10000) ∧
          p'.server.routed (str "large") = none := by
  have hcfg : readConfig oneNodePlatform.json (some (oneNodeConfig.compact Json.showRat)) = some
      { pluginsDir := str "plugins"
        backends := [(str "local-model", { name := str "small" })]
        apiKeys := [{ key := str "test-key-123", allowedModels := str "*", qpsLimit := 10000, enabled := false }] } := by
    decide +kernel
  obtain ⟨p, hp, hserves⟩ := startup_serves hcfg
  refine ⟨p, hp, fun events p' hrun => ?_⟩
  obtain ⟨-, hlimits, hnodes⟩ := hserves events p' hrun
  exact ⟨(hlimits _).trans (by decide +kernel), (hnodes _).1 (by decide +kernel)⟩

end GatewayProcess

end LlmGateway
