import LlmGateway.ContentModeration
import LlmGateway.Startup

/-!
# The plugins that come with the gateway

The hooks of `plugins/` in the order of their priorities: `custom_auth`, `content_moderation`, `semantic_cache`,
`prompt_translate` and `request_logger`.  The module of the workflows has no hooks that the loader finds.

The count hook of a Lua state raises an error in whatever hook is running when its instructions are used up
(`Strike`), and the moderation takes such an error for a request that may pass.  As long as it is not struck itself,
no keyword gets to an upstream: `submitted_clean`.

The rules for a pipeline are those for a gate: what the plugins in front of it keep (`Keeps`), what a request has
that it lets pass (`Gates`), and what the plugins behind it keep (`passed_of_gate`).
-/

namespace LlmGateway

variable {σ ν : Type}

/-! ## Hooks -/

namespace CustomAuth

/-- `blocked_ips`. -/
def blockedIps : List Str := ["10.0.0.1", "192.168.1.100"].map str

/-- `on_request`. -/
def onRequest (ctx : PluginContext ν) : HookRun ν :=
  if blockedIps.any fun ip => ip = ctx.userIp then
    { HookRun.unchanged ctx (some (str "ABORT_EARLY")) with
      responses := [(403, str "\x7b\"error\":\"ip blocked\"\x7d")] }
  else .unchanged ctx (some (str "CONTINUE"))

end CustomAuth

namespace SemanticCache

open LuaPattern

/-- The key of a request. -/
def fingerprint (model messagesJson : Str) : Str :=
  let key := model ++ str ":" ++ messagesJson.take 512
  str "cache:" ++ str (toString (key.foldl (fun h c => (h * 31 + c.toNat) % 2147483647) 0))

/-- `addquoted`, behind the opening quotation mark. -/
def quoted : Str → Str
  | [] => str "\""
  | c :: s =>
    if c = 34 ∨ c = 92 ∨ c = 10 then 92 :: c :: quoted s
    else if isCntrl c then
      let digits := str (toString c.toNat)
      92 :: (if s.head?.any isDigit then List.replicate (3 - digits.length) 48 ++ digits else digits) ++ quoted s
    else c :: quoted s

/-- The answer to a prompt that says hello. -/
def hitBody (model : Str) : Str :=
  str "\x7b\"id\":\"cache-hit\",\"object\":\"chat.completion\",\"model\":\"" ++ model ++
    str ("\",\"choices\":[\x7b\"index\":0,\"message\":\x7b\"role\":\"assistant\",\"content\":" ++
      "\"Hello from cache!\"\x7d,\"finish_reason\":\"stop\"\x7d],\"usage\":" ++
      "\x7b\"prompt_tokens\":1,\"completion_tokens\":3,\"total_tokens\":4\x7d\x7d")

/-- The answer from the cache. -/
def cachedBody (model cached : Str) : Str :=
  str "\x7b\"id\":\"cached\",\"object\":\"chat.completion\",\"model\":\"" ++ model ++
    str "\",\"choices\":[\x7b\"index\":0,\"message\":\x7b\"role\":\"assistant\",\"content\":" ++
    (str "\"" ++ quoted cached) ++
    str "\x7d,\"finish_reason\":\"stop\"\x7d],\"usage\":\x7b\"completion_tokens\":" ++
    str (toString cached.length) ++ str "\x7d\x7d"

/-- `on_request`, where `cacheGet` is `gateway.cache_get`. -/
def onRequest (cacheGet : Str → Str) (ctx : PluginContext ν) : HookRun ν :=
  let answered (body : Str) : HookRun ν :=
    { HookRun.unchanged ctx (some (str "ABORT_EARLY")) with responses := [(200, body)] }
  if (findPlain ctx.messagesJson (str "BENCHMARK_CACHE_HIT")).isSome then answered (hitBody ctx.model)
  else
    let cached := cacheGet (fingerprint ctx.model ctx.messagesJson)
    if cached ≠ [] then answered (cachedBody ctx.model cached)
    else .unchanged ctx (some (str "CONTINUE"))

end SemanticCache

/-- `on_request` of the logger, which only logs and counts. -/
def RequestLogger.onRequest (ctx : PluginContext ν) : HookRun ν := .unchanged ctx (some (str "CONTINUE"))

namespace ShippedPlugins

/-! ## The count hook -/

/-- Where the count hook ends a run. -/
structure Strike where
  /-- Whether `set_response` has been called. -/
  answered : Bool
  /-- Whether it is in a `pcall`. -/
  caught : Bool

/-- How the runs of a plugin go in a Lua state. -/
structure VmRuns (σ : Type) where
  /-- `safe_script`. -/
  load : σ → Bool × σ
  strike : σ → Option Strike
  after : σ → σ

/-- A run that is struck.  With a `pcall` around the body the hook still returns. -/
def struck (protects : Bool) (run : HookRun ν) (strike : Option Strike) : HookRun ν :=
  strike.elim run fun s =>
    { run with
      responses := if s.answered then run.responses else []
      ending := if protects && s.caught then some (str "CONTINUE") else none }

/-- A plugin whose hook may be struck. -/
def plugin (vm : VmRuns σ) (protects : Bool) (hook : σ → PluginContext ν → HookRun ν) :
    PluginRuntime σ ν where
  safeScript := vm.load
  onRequestDefined _ := true
  onRequest ctx lua := (struck protects (hook lua ctx) (vm.strike lua), vm.after lua)

/-- The plugins with a hook for requests. -/
inductive ShippedHook where
  | auth
  | moderation
  | cache
  | translate
  | logger

/-- The list that `scan_and_load` makes. -/
def shipped (vm : ShippedHook → VmRuns σ) (cacheGet : σ → Str → Str) : List (PluginRuntime σ ν) :=
  [plugin (vm .auth) false fun _ => CustomAuth.onRequest,
    plugin (vm .moderation) true fun _ => ContentModeration.onRequest,
    plugin (vm .cache) false fun lua => SemanticCache.onRequest (cacheGet lua),
    plugin (vm .translate) false fun _ => PromptTranslate.onRequest,
    plugin (vm .logger) false fun _ => RequestLogger.onRequest]

/-- The runs of the moderation are not struck. -/
def Unstruck (vm : VmRuns σ) : Prop := ∀ lua, (vm.load lua).1 = true ∧ (vm.strike lua).isNone

/-! ## Gates -/

section Gates

open PluginManager

variable {I J : Str → Prop}

/-- A plugin leaves messages that satisfy `I` to the next one. -/
def Keeps (I : Str → Prop) (plugin : PluginRuntime σ ν) : Prop :=
  ∀ ctx lua run, I ctx.messagesJson → (attempt plugin ctx lua).1 = some run →
    I (run.messagesJson.getD ctx.messagesJson)

/-- A plugin that gets messages that satisfy `I` rejects the request, or leaves messages that satisfy `J`. -/
def Gates (I J : Str → Prop) (plugin : PluginRuntime σ ν) : Prop :=
  ∀ ctx lua, I ctx.messagesJson → ∃ run, (attempt plugin ctx lua).1 = some run ∧
    (Rejects run ∨ run.ending.isSome ∧ J (run.messagesJson.getD ctx.messagesJson))

/-- The messages behind a run. -/
def messagesAfter (run : HookRun ν) (messages : Str) : Str :=
  if run.ending.isSome then run.messagesJson.getD messages else messages

/-- What an iteration of the loop does: it stops only if the request is rejected. -/
theorem loop_cons (plugin : PluginRuntime σ ν) (plugins : List (PluginRuntime σ ν)) (p : Pipeline σ ν) :
    ∃ p' : Pipeline σ ν,
      (loop (plugin :: plugins) p = loop plugins p' ∨
        loop (plugin :: plugins) p = p' ∧ p'.result.passed = false) ∧
      ((attempt plugin p.result.ctx p.lua).1 = none → p'.result = p.result) ∧
      ∀ run, (attempt plugin p.result.ctx p.lua).1 = some run →
        (Rejects run → p'.result.passed = false) ∧
          p'.result.ctx.messagesJson = messagesAfter run p.result.ctx.messagesJson := by
  rw [loop]
  cases hattempt : attempt plugin p.result.ctx p.lua with
  | mk call lua =>
    cases call with
    | none => exact ⟨_, .inl rfl, fun _ => rfl, fun run hrun => absurd hrun (by simp)⟩
    | some run =>
      obtain ⟨hctx, hpassed⟩ := setResponse_foldl run.responses p.result
      have hresponses : run.responses ≠ [] →
          (run.responses.foldl PipelineResult.setResponse p.result).passed = false := fun h => hpassed.2 (.inr h)
      dsimp only
      cases hending : run.ending with
      | none =>
        refine ⟨_, .inl rfl, fun h => absurd h (by simp), ?_⟩
        rintro run' ⟨⟩
        refine ⟨fun h => hresponses (h.resolve_right ?_), ?_⟩
        · simp [HookRun.aborts, hending]
        · rw [messagesAfter, hending]
          exact congrArg PluginContext.messagesJson hctx
      | some ret =>
        dsimp only
        by_cases hret : ret = str "ABORT_EARLY"
        · rw [if_pos hret]
          refine ⟨_, .inr ⟨rfl, rfl⟩, fun h => absurd h (by simp), ?_⟩
          rintro run' ⟨⟩
          refine ⟨fun _ => rfl, ?_⟩
          rw [messagesAfter, hending, ← hctx]
          rfl
        · rw [if_neg hret]
          refine ⟨_, .inl rfl, fun h => absurd h (by simp), ?_⟩
          rintro run' ⟨⟩
          refine ⟨fun h => hresponses (h.resolve_right ?_), ?_⟩
          · simp [HookRun.aborts, hending, hret]
          · rw [messagesAfter, hending, ← hctx]
            rfl

theorem passed_loop {plugins : List (PluginRuntime σ ν)} {p : Pipeline σ ν} (h : p.result.passed = false) :
    (loop plugins p).result.passed = false :=
  (loop_spec plugins p).2.2 (.inl h)

theorem Keeps.loop_cons {plugin : PluginRuntime σ ν} (h : Keeps I plugin) (plugins : List (PluginRuntime σ ν))
    {p : Pipeline σ ν} (hp : I p.result.ctx.messagesJson) :
    ∃ p' : Pipeline σ ν,
      (loop (plugin :: plugins) p = loop plugins p' ∨
        loop (plugin :: plugins) p = p' ∧ p'.result.passed = false) ∧ I p'.result.ctx.messagesJson := by
  obtain ⟨p', hloop, hnone, hsome⟩ := ShippedPlugins.loop_cons plugin plugins p
  refine ⟨p', hloop, ?_⟩
  cases hcall : (attempt plugin p.result.ctx p.lua).1 with
  | none => rwa [hnone hcall]
  | some run =>
    rw [(hsome run hcall).2, messagesAfter]
    split_ifs
    · exact h _ _ run hp hcall
    · exact hp

theorem keeps_loop {plugins : List (PluginRuntime σ ν)} (h : ∀ plugin ∈ plugins, Keeps I plugin)
    {p : Pipeline σ ν} (hp : I p.result.ctx.messagesJson) : I (loop plugins p).result.ctx.messagesJson := by
  induction plugins generalizing p with
  | nil => exact hp
  | cons plugin plugins ih =>
    obtain ⟨hplugin, hplugins⟩ := List.forall_mem_cons.1 h
    obtain ⟨p', hloop | ⟨hloop, -⟩, hp'⟩ := hplugin.loop_cons plugins hp
    · rw [hloop]
      exact ih hplugins hp'
    · rwa [hloop]

/-- What a request has that a pipeline with a gate lets pass. -/
theorem passed_of_gate {before after : List (PluginRuntime σ ν)} {gate : PluginRuntime σ ν}
    (hbefore : ∀ plugin ∈ before, Keeps I plugin) (hgate : Gates I J gate)
    (hafter : ∀ plugin ∈ after, Keeps J plugin) {p : Pipeline σ ν} (hp : I p.result.ctx.messagesJson)
    (hpassed : (loop (before ++ gate :: after) p).result.passed = true) :
    J (loop (before ++ gate :: after) p).result.ctx.messagesJson := by
  induction before generalizing p with
  | nil =>
    obtain ⟨p', hloop, -, hsome⟩ := loop_cons gate after p
    obtain ⟨run, hcall, hrun⟩ := hgate _ p.lua hp
    obtain ⟨hrejects, hmessages⟩ := hsome run hcall
    rw [List.nil_append] at hpassed ⊢
    obtain hloop | ⟨hloop, hfalse⟩ := hloop
    · rw [hloop] at hpassed ⊢
      obtain hrun | ⟨hending, hrun⟩ := hrun
      · exact absurd (passed_loop (hrejects hrun)) (by rw [hpassed]; decide)
      · refine keeps_loop hafter ?_
        rwa [hmessages, messagesAfter, if_pos hending]
    · rw [hloop, hfalse] at hpassed
      cases hpassed
  | cons plugin before ih =>
    obtain ⟨hplugin, hbefore⟩ := List.forall_mem_cons.1 hbefore
    obtain ⟨p', hloop | ⟨hloop, hfalse⟩, hp'⟩ := hplugin.loop_cons (before ++ gate :: after) hp
    · rw [List.cons_append, hloop] at hpassed ⊢
      exact ih hbefore hp' hpassed
    · rw [List.cons_append, hloop, hfalse] at hpassed
      cases hpassed

/-! ## The gate of the moderation -/

variable {showDouble : ν → Str}

/-- The messages are the text of a value. -/
def IsText (showDouble : ν → Str) (messages : Str) : Prop := ∃ j : Json ν, messages = j.compact showDouble

/-- They are the text of a value without keywords. -/
def IsClean (showDouble : ν → Str) (messages : Str) : Prop :=
  ∃ j : Json ν, messages = j.compact showDouble ∧ ContentModeration.Clean j

/-- What is left of a run of a plugin. -/
theorem attempt_plugin (vm : VmRuns σ) (protects : Bool) (hook : σ → PluginContext ν → HookRun ν)
    (ctx : PluginContext ν) (lua : σ) : (attempt (plugin vm protects hook) ctx lua).1 =
      if (vm.load lua).1 then some (struck protects (hook (vm.load lua).2 ctx) (vm.strike (vm.load lua).2))
      else none := by
  cases hload : (vm.load lua).1 with
  | true => simp [attempt, plugin, hload]
  | false => simp [attempt, plugin, hload]

theorem messagesJson_struck (protects : Bool) (run : HookRun ν) (strike : Option Strike) :
    (struck protects run strike).messagesJson = run.messagesJson := by
  cases strike <;> rfl

theorem keeps_plugin (vm : VmRuns σ) (protects : Bool) {hook : σ → PluginContext ν → HookRun ν}
    (h : ∀ lua ctx, I ctx.messagesJson → I ((hook lua ctx).messagesJson.getD ctx.messagesJson)) :
    Keeps I (plugin vm protects hook) := by
  intro ctx lua run hctx hrun
  rw [attempt_plugin] at hrun
  split_ifs at hrun
  cases hrun
  rw [messagesJson_struck]
  exact h _ ctx hctx

theorem gates_moderation {vm : VmRuns σ} (hvm : Unstruck vm) :
    Gates (ν := ν) (IsText showDouble) (IsClean showDouble)
      (plugin vm true fun _ => ContentModeration.onRequest) := by
  intro ctx lua hctx
  obtain ⟨j, hj⟩ := hctx
  have hload := (hvm lua).1
  have hstrike := Option.isNone_iff_eq_none.1 (hvm (vm.load lua).2).2
  refine ⟨ContentModeration.onRequest ctx, ?_, ?_⟩
  · rw [attempt_plugin, if_pos hload, hstrike]
    rfl
  · obtain ⟨hnone, hrun⟩ | ⟨kw, -, -, hresponses, -⟩ := ContentModeration.onRequest_cases ctx
    · rw [hrun]
      rw [hj] at hnone
      exact .inr ⟨rfl, j, hj, ContentModeration.clean_of_text hnone⟩
    · refine .inl (.inl ?_)
      rw [hresponses]
      exact List.cons_ne_nil _ _

theorem keeps_of_unchanged {I : Str → Prop} (vm : VmRuns σ) (protects : Bool)
    {hook : σ → PluginContext ν → HookRun ν}
    (h : ∀ lua ctx, (hook lua ctx).messagesJson = some ctx.messagesJson) : Keeps I (plugin vm protects hook) :=
  keeps_plugin vm protects fun lua ctx hctx => by rwa [h]

theorem messagesJson_auth (ctx : PluginContext ν) :
    (CustomAuth.onRequest ctx).messagesJson = some ctx.messagesJson := by
  unfold CustomAuth.onRequest
  split_ifs <;> rfl

theorem messagesJson_cache (cacheGet : Str → Str) (ctx : PluginContext ν) :
    (SemanticCache.onRequest cacheGet ctx).messagesJson = some ctx.messagesJson := by
  unfold SemanticCache.onRequest
  dsimp only
  split_ifs <;> rfl

/-- The translation keeps a text one without keywords. -/
theorem keeps_translate (hshow : ∀ x, 34 ∉ showDouble x) (vm : VmRuns σ) :
    Keeps (ν := ν) (IsClean showDouble) (plugin vm false fun _ => PromptTranslate.onRequest) := by
  refine keeps_plugin vm false fun _ ctx hctx => ?_
  obtain ⟨j, hj, hclean⟩ := hctx
  obtain ⟨hsync, -, -⟩ := PromptTranslate.onRequest_compact hshow j ctx hj
  exact ⟨_, congrArg PluginContext.messagesJson hsync, hclean.mark false⟩

/-- Whatever text of a value the shipped plugins let pass has no keyword. -/
theorem shipped_passed (hshow : ∀ x, 34 ∉ showDouble x) {vm : ShippedHook → VmRuns σ}
    (hvm : Unstruck (vm .moderation)) (cacheGet : σ → Str → Str) {ctx : PluginContext ν}
    (hctx : IsText showDouble ctx.messagesJson) {lua : σ}
    (hpassed : (runRequestPipeline (shipped vm cacheGet) ctx lua).result.passed = true) :
    IsClean showDouble (runRequestPipeline (shipped vm cacheGet) ctx lua).result.ctx.messagesJson := by
  have hbefore : ∀ p ∈ [plugin (ν := ν) (vm .auth) false fun _ => CustomAuth.onRequest],
      Keeps (IsText showDouble) p := by
    intro p hp
    rw [List.mem_singleton.1 hp]
    exact keeps_of_unchanged _ _ fun _ => messagesJson_auth
  have hafter : ∀ p ∈ [plugin (ν := ν) (vm .cache) false fun lua => SemanticCache.onRequest (cacheGet lua),
      plugin (vm .translate) false fun _ => PromptTranslate.onRequest,
      plugin (vm .logger) false fun _ => RequestLogger.onRequest], Keeps (IsClean showDouble) p := by
    intro p hp
    simp only [List.mem_cons, List.not_mem_nil, or_false] at hp
    obtain rfl | rfl | rfl := hp
    · exact keeps_of_unchanged _ _ fun lua => messagesJson_cache (cacheGet lua)
    · exact keeps_translate hshow _
    · exact keeps_of_unchanged _ _ fun _ _ => rfl
  exact passed_of_gate hbefore (gates_moderation hvm) hafter hctx hpassed

end Gates

variable {showDouble : ν → Str}

/-! ## Runs of chats -/

/-- A list that `scan_and_load` makes of the shipped plugins, in Lua states that do not strike the moderation. -/
def IsShipped (plugins : List (PluginRuntime σ ν)) : Prop :=
  ∃ vm cacheGet, Unstruck (vm .moderation) ∧ plugins = shipped vm cacheGet

section Chats

variable (hshow : ∀ x, 34 ∉ showDouble x) {g : ChatServer σ ν} (hplugins : IsShipped g.plugins)
  {c : GatewayProcess.Chat ν} (hc : IsText showDouble c.req.messagesJson)
include hshow hplugins hc

theorem screen_passed :
    (ChatServer.screen c.apiKey c.userIp c.requestId c.now c.req g).2.plugins = g.plugins ∧
      ∀ node ctx, (ChatServer.screen c.apiKey c.userIp c.requestId c.now c.req g).1 = .passed node ctx →
        IsClean showDouble ctx.messagesJson := by
  obtain ⟨vm, cacheGet, hvm, hshipped⟩ := hplugins
  unfold ChatServer.screen
  generalize g.auth.verify c.apiKey c.req.model c.now = verified
  generalize g.router.route c.req.model = routed
  obtain ⟨_ | err, auth⟩ := verified
  · exact ⟨rfl, fun node ctx h => absurd h (by simp)⟩
  · dsimp only
    split
    · exact ⟨rfl, fun node ctx h => absurd h (by simp)⟩
    · obtain ⟨_ | p, router⟩ := routed
      · exact ⟨rfl, fun node ctx h => absurd h (by simp)⟩
      · dsimp only
        split
        · exact ⟨rfl, fun node ctx h => absurd h (by simp)⟩
        · next hpassed =>
          refine ⟨rfl, fun node ctx h => ?_⟩
          cases h
          rw [hshipped] at hpassed ⊢
          exact shipped_passed hshow hvm cacheGet hc (not_not.1 hpassed)

/-- What a chat submits has no keyword. -/
theorem submitted_handle : (c.handle g).2.plugins = g.plugins ∧
    ∃ tasks, (c.handle g).2.upstream.submitted = g.upstream.submitted ++ tasks ∧
      ∀ task ∈ tasks, IsClean showDouble task.req.messagesJson := by
  have hupstream := ChatServer.upstream_screen c.apiKey c.userIp c.requestId c.now c.req g
  have hscreen := screen_passed hshow hplugins hc
  have hnone : ∀ g' : ChatServer σ ν, g'.upstream = g.upstream →
      g'.upstream.submitted = g.upstream.submitted ++ [] := fun g' h => by rw [h, List.append_nil]
  unfold GatewayProcess.Chat.handle ChatServer.processChat ChatServer.handleChat
  generalize ChatServer.screen c.apiKey c.userIp c.requestId c.now c.req g = screening at hupstream hscreen
  obtain ⟨hkept, hclean⟩ := hscreen
  obtain ⟨_ | _ | ⟨node, ctx⟩, g'⟩ := screening
  · cases c.websocket <;> exact ⟨hkept, [], hnone _ hupstream, List.forall_mem_nil _⟩
  · cases c.websocket <;> exact ⟨hkept, [], hnone _ hupstream, List.forall_mem_nil _⟩
  · have hctx := hclean node ctx rfl
    have hsubmitted : ∀ task, g'.upstream.submitted ++ [task] = g.upstream.submitted ++ [task] := fun task =>
      congrArg (fun u : RemoteUpstream ν => u.submitted ++ [task]) hupstream
    cases c.websocket with
    | true => exact ⟨hkept, [_], hsubmitted _, List.forall_mem_singleton.2 hctx⟩
    | false => exact ⟨hkept, [_], hsubmitted _, List.forall_mem_singleton.2 hctx⟩

end Chats

/-- In every sequence of chats and reloads, with the shipped plugins loaded and a moderation that the count hook does
not strike, each request that is submitted has messages without keywords, whatever value they were made from. -/
theorem submitted_clean (hshow : ∀ x, 34 ∉ showDouble x) {p p' : GatewayProcess σ ν}
    (hplugins : IsShipped p.server.plugins) {events : List (GatewayProcess.Event σ ν)}
    (hchats : ∀ c, .chat c ∈ events → IsText showDouble c.req.messagesJson)
    (hreloads : ∀ plugins, .reload plugins ∈ events → IsShipped plugins)
    (hrun : GatewayProcess.run p events = some p') :
    ∃ tasks, p'.server.upstream.submitted = p.server.upstream.submitted ++ tasks ∧
      ∀ task ∈ tasks, IsClean showDouble task.req.messagesJson := by
  induction events generalizing p with
  | nil =>
    cases hrun
    exact ⟨[], (List.append_nil _).symm, List.forall_mem_nil _⟩
  | cons event events ih =>
    obtain ⟨next, hnext, hrest⟩ := Option.bind_eq_some_iff.1 hrun
    have hih := fun hnext => ih (p := next) hnext (fun c hc => hchats c (List.mem_cons_of_mem _ hc))
      (fun plugins hp => hreloads plugins (List.mem_cons_of_mem _ hp)) hrest
    cases event with
    | chat c =>
      rw [GatewayProcess.step, GatewayProcess.chat] at hnext
      split_ifs at hnext
      cases hnext
      obtain ⟨hkept, new, hnew, hclean⟩ := submitted_handle hshow hplugins (hchats c List.mem_cons_self)
      obtain ⟨tasks, htasks, hcleanTasks⟩ := hih (by rw [hkept]; exact hplugins)
      refine ⟨new ++ tasks, by rw [htasks, hnew, List.append_assoc], fun task htask => ?_⟩
      exact (List.mem_append.1 htask).elim (hclean task) (hcleanTasks task)
    | reload plugins =>
      cases hnext
      have hshipped := hreloads plugins List.mem_cons_self
      unfold GatewayProcess.reload at hih hrest
      split_ifs at hih hrest
      · exact hih hplugins
      · exact hih hshipped

/-- Runs that are never struck. -/
def intact : VmRuns Unit where
  load lua := (true, lua)
  strike _ := none
  after lua := lua

/-- A gateway with one node and the shipped plugins. -/
def shippedProcess : GatewayProcess Unit ℚ where
  server :=
    { router := ({} : Router).registerNode (str "*") {}
      plugins := shipped (fun _ => intact) fun _ _ => []
      lua := () }
  upstreamSet := true

/-- Messages with one content. -/
def contentMessages (content : Str) : Json ℚ := .array [.object [(str "content", .string content)]]

/-- A chat with these messages. -/
def contentChat (websocket : Bool) (content : Str) : GatewayProcess.Chat ℚ where
  websocket := websocket
  apiKey := []
  userIp := str "127.0.0.1"
  requestId := 1
  now := 0
  req :=
    { model := str "m"
      messagesJson := (contentMessages content).compact Json.showRat
      temperature := 1
      maxTokens := 8 }

/-- A text that is translated, and one that has a keyword behind a line feed. -/
def contentChats : List (GatewayProcess.Event Unit ℚ) :=
  [.chat (contentChat true (str "你好")), .chat (contentChat false (str "how to\nHack"))]

theorem submitted_contentChats : ∃ p', GatewayProcess.run shippedProcess contentChats = some p' ∧
    (p'.server.upstream.submitted.map fun task => task.req.messagesJson) =
      [str "[\x7b\"content\":\"[zh->en] 你好\"\x7d]"] ∧
    ∃ tasks, p'.server.upstream.submitted = [] ++ tasks ∧
      ∀ task ∈ tasks, IsClean Json.showRat task.req.messagesJson := by
  have htexts : ((GatewayProcess.run shippedProcess contentChats).map fun p =>
      p.server.upstream.submitted.map fun task => task.req.messagesJson) =
        some [str "[\x7b\"content\":\"[zh->en] 你好\"\x7d]"] := by decide +kernel
  obtain ⟨p', hrun, hp'⟩ := Option.map_eq_some_iff.1 htexts
  have hshipped : IsShipped shippedProcess.server.plugins :=
    ⟨fun _ => intact, fun _ _ => [], fun _ => ⟨rfl, rfl⟩, rfl⟩
  refine ⟨p', hrun, hp', submitted_clean PromptTranslate.quote_notMem_showRat hshipped (fun c hc => ?_)
    (fun plugins h => ?_) hrun⟩
  · simp only [contentChats, List.mem_cons, List.not_mem_nil, or_false, GatewayProcess.Event.chat.injEq] at hc
    obtain rfl | rfl := hc
    · exact ⟨contentMessages (str "你好"), rfl⟩
    · exact ⟨contentMessages (str "how to\nHack"), rfl⟩
  · simp [contentChats] at h

end ShippedPlugins

end LlmGateway
