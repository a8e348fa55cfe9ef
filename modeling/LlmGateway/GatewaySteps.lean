import LlmGateway.PendingCalls

/-!
# Steps of the gateway

`effect_step`: what a step does to the connections, the sessions, the registry and the tables.  What is
left open is what no table depends on: the caches, what is sent, and the pool of the executors.

A run is watched with the calls that are outstanding in it (`watch`).
-/

namespace LlmGateway

variable {ν : Type}

open PendingTable (Op Ledger)

namespace Gateway

open WsChatController (wsSend)

/-! ## Effects -/

/-- A connection that there is, or that a chat was submitted on. -/
def Known (conn : ConnId) (g : Gateway ν) : Prop :=
  (g.conns.lookup conn).isSome ∨ conn ∈ g.chats.map Prod.fst

/-- What a step with an operation on the tables does. -/
inductive Effect (g : Gateway ν) : Op (CallTable × Str) PendingCall → Gateway ν → Prop
  | quiet (cache sent executors activeRequests) :
      Effect g .skip { g with cache, sent, executors, activeRequests }
  | connected (ctx : SessionCtx) (sent) :
      Effect g .skip
        { g with
          conns := g.conns.insert g.seq { ctx }
          sessions := g.sessions.insert ctx.sessionId g.seq
          seq := g.seq + 1
          sent }
  /-- The context of a connection changes, but not its session. -/
  | context (conn : ConnId) (ctx ctx' : SessionCtx) (hopen : g.conns.lookup conn = some ⟨ctx, true⟩)
      (hid : ctx'.sessionId = ctx.sessionId) (tools toolRegistry executors sent) :
      Effect g .skip
        { g with
          conns := g.conns.insert conn { ctx := ctx' }
          tools
          toolRegistry
          executors
          sent }
  | agent (conn : ConnId) (ctx ctx' : SessionCtx) (record : AgentRecord)
      (hopen : g.conns.lookup conn = some ⟨ctx, true⟩) (hid : ctx'.sessionId = ctx.sessionId) (sent) :
      Effect g .skip
        { g with
          conns := g.conns.insert conn { ctx := ctx' }
          registry := g.registry.registerAgent ctx.sessionId record
          sent }
  | submitted (conn : ConnId) (requestId : Str) (hopen : (g.conns.lookup conn).isSome)
      (activeRequests sent) :
      Effect g .skip { g with activeRequests, chats := g.chats ++ [(conn, requestId)], sent }
  | toolCall (call : PendingCall) (htable : call.table = .tools) (hcaller : g.Known call.caller)
      (sent executors execRrIdx) :
      Effect g (.register call)
        { g with
          pendingTools := g.pendingTools.insert (toolKey call.requestId call.callId) call.caller
          sent
          executors
          execRrIdx }
  | agentCall (call : PendingCall) (htable : call.table = .agents) (hcaller : g.Known call.caller)
      (cache sent) :
      Effect g (.register call)
        { g with
          pendingAgents := g.pendingAgents.insert call.callId call.caller
          cache
          sent }
  | toolResult (k : Str) (sent) :
      Effect g (.take (.tools, k)) { g with pendingTools := g.pendingTools.erase k, sent }
  | agentResult (k : Str) (cache sent) :
      Effect g (.take (.agents, k)) { g with pendingAgents := g.pendingAgents.erase k, cache, sent }
  | closed (conn : ConnId) (ctx : SessionCtx) (hopen : g.conns.lookup conn = some ⟨ctx, true⟩)
      (sessions registry cache toolRegistry executors activeRequests sent)
      (hsessions : sessions = g.sessions ∨ sessions = g.sessions.erase ctx.sessionId)
      (hregistry : registry = g.registry ∨ registry = g.registry.unregisterAgent ctx.sessionId) :
      Effect g .skip
        { g with
          conns := g.conns.insert conn { ctx, connected := false }
          sessions
          registry
          cache
          toolRegistry
          executors
          activeRequests
          sent }

section Effects

variable (platform : GatewayPlatform ν)

theorem effect_send (conn : ConnId) (msg : Json ν) (g : Gateway ν) :
    Effect g .skip (onController (wsSend platform conn msg) g).state := by
  obtain ⟨sent, hsent⟩ := wsSend_state platform conn msg g
  rw [hsent]
  exact .quiet g.cache sent g.executors g.activeRequests

theorem addTool_state (conn : ConnId) (sessionId : Str) (t : Json ν) (g : Gateway ν) :
    ∃ tools toolRegistry, (addTool platform conn sessionId t g).state = { g with tools, toolRegistry } := by
  unfold addTool
  split
  · exact ⟨g.tools, g.toolRegistry, rfl⟩
  · split_ifs
    · exact ⟨g.tools, g.toolRegistry, rfl⟩
    · dsimp only
      split
      · exact ⟨_, _, rfl⟩
      · exact ⟨_, g.toolRegistry, rfl⟩

theorem addTools_state (conn : ConnId) (sessionId : Str) (ts : List (Json ν)) (g : Gateway ν) :
    ∃ tools toolRegistry,
      (addTools platform conn sessionId ts g).state = { g with tools, toolRegistry } := by
  induction ts generalizing g with
  | nil => exact ⟨g.tools, g.toolRegistry, rfl⟩
  | cons t ts ih =>
      refine Outcome.state_andThen
        (fun g' : Gateway ν => ∃ tools toolRegistry, g' = { g with tools, toolRegistry })
        (addTool_state platform conn sessionId t g) ?_
      rintro g' ⟨tools, toolRegistry, rfl⟩
      obtain ⟨tools', toolRegistry', h⟩ := ih { g with tools, toolRegistry }
      exact ⟨tools', toolRegistry', h⟩

theorem effect_registerExecutor {conn : ConnId} {ctx : SessionCtx} {g : Gateway ν}
    (hopen : g.conns.lookup conn = some ⟨ctx, true⟩) (tools : List (Json ν)) :
    Effect g .skip (registerExecutor platform conn ctx tools g).state := by
  obtain ⟨tools', toolRegistry, h⟩ := addTools_state platform conn ctx.sessionId tools
    (setCtx conn { ctx with role := str "executor" } g)
  have hcontext (executors : List ConnId) (sent : List (ConnId × Json ν)) :=
    Effect.context (g := g) conn ctx { ctx with role := str "executor" } hopen rfl tools' toolRegistry
      executors sent
  unfold registerExecutor Outcome.andThen
  split_ifs
  · rw [h]
    exact hcontext g.executors g.sent
  · rw [h]
    dsimp only
    obtain ⟨sent, hsent⟩ := wsSend_state platform conn _ _
    rw [hsent]
    exact hcontext (g.executors ++ [conn]) sent

theorem effect_toolCall {sender : ConnId} {g : Gateway ν} (hsender : g.Known sender)
    (requestId callId name arguments : Str) :
    Effect g (toolOp platform sender requestId callId name arguments g)
      (routeToolCall platform sender requestId callId name arguments g).state := by
  unfold toolOp routeToolCall
  cases g.selectExecutor name with
  | none =>
    obtain ⟨sent, hsent⟩ := wsSend_state platform sender (noExecutor requestId) g.pruneExecutors
    dsimp only
    rw [hsent]
    exact .quiet g.cache sent _ g.activeRequests
  | some executor =>
    obtain ⟨sent, hsent⟩ := forwardTool_state platform executor requestId callId name arguments
      (registerTool sender requestId callId
        { g.pruneExecutors with execRrIdx := g.pruneExecutors.nextIdx name })
    dsimp only
    rw [hsent]
    exact .toolCall ⟨.tools, requestId, callId, sender, _⟩ rfl hsender sent _ _

theorem effect_toolResult (executor : ConnId) (requestId callId content : Str) (g : Gateway ν) :
    Effect g (.take (.tools, toolKey requestId callId))
      (routeToolResult platform executor requestId callId content g).state := by
  unfold routeToolResult
  split
  · next hnone =>
    obtain ⟨sent, hsent⟩ := wsSend_state platform executor (toolError requestId "no_pending") g
    rw [hsent]
    have heffect := Effect.toolResult (g := g) (toolKey requestId callId) sent
    rwa [AList.erase_of_lookup_none hnone] at heffect
  · next target _ =>
    obtain ⟨sent, hsent⟩ := deliverTool_state platform executor target requestId callId content
      { g with pendingTools := g.pendingTools.erase (toolKey requestId callId) }
    rw [hsent]
    exact .toolResult _ sent

theorem Effect.of_sent {g g' : Gateway ν} {op : Op (CallTable × Str) PendingCall}
    (sent : List (ConnId × Json ν)) (h : Effect { g with sent } op g') : Effect g op g' := by
  cases h with
  | quiet => exact Effect.quiet (g := g) ..
  | connected => exact Effect.connected (g := g) ..
  | context conn ctx ctx' hopen hid => exact Effect.context (g := g) conn ctx ctx' hopen hid ..
  | agent conn ctx ctx' record hopen hid => exact Effect.agent (g := g) conn ctx ctx' record hopen hid ..
  | submitted conn requestId hopen => exact Effect.submitted (g := g) conn requestId hopen ..
  | toolCall call htable hcaller => exact Effect.toolCall (g := g) call htable hcaller ..
  | agentCall call htable hcaller => exact Effect.agentCall (g := g) call htable hcaller ..
  | toolResult => exact Effect.toolResult (g := g) ..
  | agentResult => exact Effect.agentResult (g := g) ..
  | closed conn ctx hopen _ _ _ _ _ _ _ hsessions hregistry =>
    exact Effect.closed (g := g) conn ctx hopen _ _ _ _ _ _ _ hsessions hregistry

theorem effect_onToolCall {conn : ConnId} {g : Gateway ν} (hconn : g.Known conn)
    (requestId callId name arguments : Str) :
    Effect g (streamOp platform conn requestId callId name arguments g)
      (onToolCall platform conn requestId callId name arguments g).state := by
  unfold streamOp onToolCall
  cases platform.json.parse arguments with
  | none => exact .quiet g.cache g.sent g.executors g.activeRequests
  | some args =>
    dsimp only
    cases hdump : platform.json.dump (toolCallJson requestId callId name args) with
    | none =>
      rw [wsSend_of_dump_none platform hdump]
      exact .quiet g.cache g.sent g.executors g.activeRequests
    | some text =>
      rw [wsSend_of_dump_some platform hdump, Outcome.ok_andThen, if_pos Option.isSome_some]
      generalize g.sent ++ [(conn, toolCallJson requestId callId name args)] = sent
      exact Effect.of_sent sent (effect_toolCall platform (g := { g with sent }) hconn requestId callId
        name arguments)

theorem handleConnectionClosed_state (conn : ConnId) (ctx : SessionCtx) (now : Clock)
    (g : WsChatController ν) :
    ∃ sessions registry cache,
      (sessions = g.sessions ∨ sessions = g.sessions.erase ctx.sessionId) ∧
      (registry = g.registry ∨ registry = g.registry.unregisterAgent ctx.sessionId) ∧
      (WsChatController.handleConnectionClosed platform conn ctx now g).state =
        { g with
          conns := g.conns.insert conn { ctx, connected := false }
          sessions
          registry
          cache } := by
  unfold WsChatController.handleConnectionClosed
  dsimp only
  generalize harchived : (if ctx.role = str "agent" then _ else _ : Outcome (WsChatController ν)) = o
  have hstate : ∃ registry cache,
      (registry = g.registry ∨ registry = g.registry.unregisterAgent ctx.sessionId) ∧
      o.state = { g with
        conns := g.conns.insert conn { ctx, connected := false }
        registry
        cache } := by
    rw [← harchived]
    split_ifs
    · exact ⟨_, _, Or.inr rfl, rfl⟩
    · exact ⟨g.registry, g.cache, Or.inl rfl, rfl⟩
  obtain ⟨registry, cache, hregistry, hstate⟩ := hstate
  unfold Outcome.andThen
  split_ifs
  · exact ⟨g.sessions, registry, cache, Or.inl rfl, hregistry, hstate⟩
  · exact ⟨g.sessions.erase ctx.sessionId, registry, cache, Or.inr rfl, hregistry, by rw [hstate]; rfl⟩

theorem effect_close {conn : ConnId} {ctx : SessionCtx} {g : Gateway ν}
    (hopen : g.conns.lookup conn = some ⟨ctx, true⟩) (now : Clock) :
    Effect g .skip (handleConnectionClosed platform conn ctx now g).state := by
  unfold handleConnectionClosed
  dsimp only
  split_ifs
  · obtain ⟨sessions, registry, cache, hsessions, hregistry, h⟩ := handleConnectionClosed_state platform
      conn ctx now (leaveExecutors conn ctx.sessionId (cancelAll conn g)).toWsChatController
    rw [onController_state h]
    exact .closed conn ctx hopen sessions registry cache _ _ _ g.sent hsessions hregistry
  · obtain ⟨sessions, registry, cache, hsessions, hregistry, h⟩ := handleConnectionClosed_state platform
      conn ctx now (cancelAll conn g).toWsChatController
    rw [onController_state h]
    exact .closed conn ctx hopen sessions registry cache _ _ _ g.sent hsessions hregistry

variable [Double ν]

theorem effect_registerAgent {conn : ConnId} {ctx : SessionCtx} {g : Gateway ν}
    (hopen : g.conns.lookup conn = some ⟨ctx, true⟩) (msg : Json ν) (now : Clock) :
    Effect g .skip (registerAgent platform conn ctx msg now g).state := by
  unfold registerAgent
  split
  · exact .context conn ctx { ctx with role := str "agent" } hopen rfl g.tools g.toolRegistry
      g.executors g.sent
  · next agentName _ =>
    dsimp only
    split_ifs
    · exact .context conn ctx
        { ctx with
          role := str "agent"
          agentName
          capabilities := ctx.capabilities ++ _ } hopen rfl g.tools g.toolRegistry g.executors g.sent
    · obtain ⟨sent, hsent⟩ := WsChatController.registerAgent_state platform conn ctx (some agentName)
        (readCapabilities (Message.arrayMember msg "capabilities")).1 now g.toWsChatController
      rw [onController_state hsent]
      exact .agent conn ctx (WsChatController.agentCtx ctx (some agentName) _) _ hopen rfl sent

theorem effect_agentCall {caller : ConnId} {g : Gateway ν} (hcaller : g.Known caller) (ctx : SessionCtx)
    (callId targetAgentId capability input : Str) (bypassCache : Bool) (now : Clock) :
    Effect g (agentOp platform caller ctx callId targetAgentId capability input bypassCache now g)
      (onController (WsChatController.routeAgentCall platform caller ctx callId targetAgentId capability
        input bypassCache now) g).state := by
  unfold agentOp
  cases htarget : WsChatController.callTarget platform ctx targetAgentId capability input bypassCache now
      g.toWsChatController with
  | none =>
    obtain ⟨cache, sent, h⟩ := WsChatController.routeAgentCall_of_none platform htarget caller callId
    rw [onController_state h]
    exact .quiet cache sent g.executors g.activeRequests
  | some target =>
    obtain ⟨cache, h⟩ := WsChatController.routeAgentCall_of_some platform htarget caller callId
    obtain ⟨sent, hsent⟩ := WsChatController.sendCall_state platform ctx callId capability input target
      (WsChatController.registerCall caller callId { g.toWsChatController with cache })
    rw [← h] at hsent
    rw [onController_state hsent]
    exact .agentCall ⟨.agents, [], callId, caller, _⟩ rfl hcaller cache sent

theorem effect_agentResult (callee : ConnId) (ctx : SessionCtx) (callId output : Str) (confidence : ν)
    (now : Clock) (g : Gateway ν) :
    Effect g (.take (.agents, callId))
      (onController (WsChatController.routeAgentResult platform callee ctx callId output confidence now)
        g).state := by
  have heq := WsChatController.routeAgentResult_eq platform callee ctx callId output confidence now
    g.toWsChatController
  cases hlookup : g.pendingAgents.lookup callId with
  | none =>
    rw [hlookup] at heq
    dsimp only at heq
    obtain ⟨sent, hsent⟩ := WsChatController.wsSend_state platform callee
      (WsChatController.noPending callId) g.toWsChatController
    rw [← heq] at hsent
    rw [onController_state hsent]
    have heffect := Effect.agentResult (g := g) callId g.cache sent
    rwa [AList.erase_of_lookup_none hlookup] at heffect
  | some caller =>
    rw [hlookup] at heq
    dsimp only at heq
    obtain ⟨cache, sent, h⟩ := WsChatController.answerCall_state platform callee caller ctx callId output
      confidence now (WsChatController.takeCall callId g.toWsChatController)
    rw [← heq] at h
    rw [onController_state h]
    exact .agentResult callId cache sent

theorem effect_handle {conn : ConnId} {ctx : SessionCtx} {g : Gateway ν}
    (hopen : g.conns.lookup conn = some ⟨ctx, true⟩) (verdict : ChatVerdict) (now : Clock)
    (msg : Message ν) :
    Effect g (messageOp platform conn ctx now g msg)
      (handle platform conn ctx verdict now msg g).state := by
  have hsome : (g.conns.lookup conn).isSome := by rw [hopen]; rfl
  have hknown : g.Known conn := Or.inl hsome
  cases msg with
  | invalidJson => exact effect_send platform conn _ g
  | chat requestId =>
    cases verdict with
    | passed => exact .submitted conn requestId hsome _ g.sent
    | _ => exact effect_send platform conn _ g
  | chatWithoutMessages requestId => exact effect_send platform conn _ g
  | cancel requestId =>
    show Effect g .skip (cancel platform conn requestId g).state
    unfold cancel
    split
    · exact .quiet g.cache g.sent g.executors g.activeRequests
    · obtain ⟨sent, hsent⟩ := wsSend_state platform conn _ _
      rw [hsent]
      exact .quiet g.cache sent g.executors _
  | ping => exact effect_send platform conn _ g
  | registerExecutor tools => exact effect_registerExecutor platform hopen tools
  | registerAgent msg => exact effect_registerAgent platform hopen msg now
  | toolCall requestId callId name arguments =>
    exact effect_toolCall platform hknown requestId callId name arguments
  | toolResult requestId callId content =>
    exact effect_toolResult platform conn requestId callId content g
  | agentCall callId targetAgentId capability input bypassCache =>
    exact effect_agentCall platform hknown ctx callId targetAgentId capability input bypassCache now
  | agentResult callId output confidence =>
    exact effect_agentResult platform conn ctx callId output confidence now g
  | cacheInvalidate key reason cascading =>
    obtain ⟨cache, sent, h⟩ := WsChatController.handleCacheInvalidate_state platform conn key reason
      cascading g.toWsChatController
    exact onController_state h ▸ .quiet cache sent g.executors g.activeRequests
  | contextExpand callId ref maxTokens => exact effect_send platform conn _ g
  | other => exact .quiet g.cache g.sent g.executors g.activeRequests

theorem effect_step (event : Event × Clock) (g : Gateway ν) :
    Effect g (opOf platform event g) (step platform event g).state := by
  have hquiet : Effect g .skip g := .quiet g.cache g.sent g.executors g.activeRequests
  obtain ⟨event, now⟩ := event
  cases event with
  | connect clientIp role nanos =>
    obtain ⟨sent, hsent⟩ := WsChatController.handleNewConnection_state platform clientIp role nanos
      g.toWsChatController
    exact onController_state hsent ▸ .connected _ sent
  | message conn text nanos verdict =>
    simp only [step, opOf, fromOpen_eq]
    cases hopen : g.openCtx conn with
    | none => exact hquiet
    | some ctx =>
      dsimp only
      unfold handleNewMessage
      cases Message.read platform.json nanos text with
      | none => exact hquiet
      | some msg => exact effect_handle platform (openCtx_eq_some.1 hopen) verdict now msg
  | toolCallOf chat callId name arguments =>
    simp only [step, opOf, ofChat]
    cases hchat : g.chats[chat]? with
    | none => exact hquiet
    | some p =>
      have hmem : p.1 ∈ g.chats.map Prod.fst := List.mem_map_of_mem (List.mem_of_getElem? hchat)
      exact effect_onToolCall platform (Or.inr hmem) p.2 callId name arguments
  | endOf chat =>
    simp only [step, opOf, ofChat]
    cases g.chats[chat]? with
    | none => exact hquiet
    | some p => exact .quiet g.cache g.sent g.executors _
  | close conn =>
    simp only [step, opOf, fromOpen_eq]
    cases hopen : g.openCtx conn with
    | none => exact hquiet
    | some ctx => exact effect_close platform (openCtx_eq_some.1 hopen) now

end Effects

/-! ## Messages -/

end Gateway

namespace Message

/-- What a message has of the text that it is read from. -/
def ReadFrom (j : Json ν) : Message ν → Prop
  | .registerExecutor tools => tools = arrayMember j "tools"
  | .toolResult requestId callId _ =>
      j.value "request_id" Json.getString [] = some requestId ∧
        j.value "call_id" Json.getString [] = some callId
  | .agentResult callId _ _ => j.value "call_id" Json.getString [] = some callId
  | _ => True

theorem of_ite {P : Message ν → Prop} {c : Prop} [Decidable c] {a b : Option (Message ν)}
    (ha : ∀ msg, a = some msg → P msg) (hb : ∀ msg, b = some msg → P msg) :
    ∀ msg, (if c then a else b) = some msg → P msg := by
  split_ifs
  · exact ha
  · exact hb

theorem readFrom_readRegister {j : Json ν} : ∀ msg, readRegister j = some msg → msg.ReadFrom j := by
  intro msg h
  simp only [readRegister, Option.bind_eq_bind, Option.bind_eq_some_iff] at h
  obtain ⟨role, -, h⟩ := h
  split_ifs at h
  · cases h
    rfl
  · cases h
    trivial
  · cases h
    trivial

variable [Double ν]

theorem readFrom_readChat {lib : JsonLib ν} {requestId : Str} {j : Json ν} :
    ∀ msg, readChat lib requestId j = some msg → msg.ReadFrom j := by
  intro msg h
  simp only [readChat, Option.bind_eq_bind, Option.bind_eq_some_iff] at h
  obtain ⟨_, -, h⟩ := h
  split at h
  · cases h
    trivial
  · split_ifs at h
    · cases h
      trivial
    · simp only [Option.bind_eq_some_iff] at h
      obtain ⟨_, -, _, -, _, -, _, -, h⟩ := h
      cases h
      trivial

theorem readFrom_of_read {lib : JsonLib ν} {nanos : ℤ} {text : Str} {j : Json ν}
    (hparse : lib.parse text = some j) (msg : Message ν) (h : read lib nanos text = some msg) :
    msg.ReadFrom j := by
  simp only [read, hparse, Option.bind_eq_bind, Option.bind_eq_some_iff] at h
  obtain ⟨type, -, requestId, hrequest, h⟩ := h
  revert msg
  refine of_ite readFrom_readChat ?_
  refine of_ite (by rintro _ ⟨⟩; trivial) (of_ite (by rintro _ ⟨⟩; trivial) ?_)
  refine of_ite readFrom_readRegister ?_
  refine of_ite (fun msg h => ?_) (of_ite (fun msg h => ?_) (of_ite (fun msg h => ?_)
    (of_ite (fun msg h => ?_) (of_ite (fun msg h => ?_) (of_ite (fun msg h => ?_) ?_)))))
  · simp only [readToolCall, Option.bind_eq_bind, Option.bind_eq_some_iff] at h
    obtain ⟨_, -, _, -, _, -, h⟩ := h
    cases h
    trivial
  · simp only [readToolResult, Option.bind_eq_bind, Option.bind_eq_some_iff] at h
    obtain ⟨callId, hcallId, content, -, h⟩ := h
    cases h
    exact ⟨hrequest, hcallId⟩
  · simp only [readAgentCall, Option.bind_eq_bind, Option.bind_eq_some_iff] at h
    obtain ⟨_, -, _, -, _, -, _, -, _, -, _, -, h⟩ := h
    cases h
    trivial
  · simp only [readAgentResult, Option.bind_eq_bind, Option.bind_eq_some_iff] at h
    obtain ⟨callId, hcallId, _, -, _, -, _, -, h⟩ := h
    cases h
    exact hcallId
  · simp only [readCacheInvalidate, Option.bind_eq_bind, Option.bind_eq_some_iff] at h
    obtain ⟨_, -, _, -, _, -, h⟩ := h
    cases h
    trivial
  · simp only [readContextExpand, Option.bind_eq_bind, Option.bind_eq_some_iff] at h
    obtain ⟨_, -, _, -, _, -, h⟩ := h
    cases h
    trivial
  · rintro _ ⟨⟩
    trivial

end Message

namespace Gateway

section Received

variable [Double ν] (platform : GatewayPlatform ν)

/-- The message that a step handles, with its connection. -/
def received (event : Event × Clock) (g : Gateway ν) : Option (ConnId × SessionCtx × Message ν) :=
  match event.1 with
  | .message conn text nanos _ =>
      (g.openCtx conn).bind fun ctx =>
        (Message.read platform.json nanos text).map fun msg => (conn, ctx, msg)
  | _ => none

variable {platform} {event : Event × Clock} {g : Gateway ν} {conn : ConnId} {ctx : SessionCtx}
  {msg : Message ν}

theorem received_eq_some (h : received platform event g = some (conn, ctx, msg)) :
    g.openCtx conn = some ctx ∧ opOf platform event g = messageOp platform conn ctx event.2 g msg ∧
      ∃ verdict, step platform event g = handle platform conn ctx verdict event.2 msg g := by
  obtain ⟨event, now⟩ := event
  cases event with
  | message conn' text nanos verdict =>
    obtain ⟨ctx', hopen, h⟩ := Option.bind_eq_some_iff.1 h
    obtain ⟨msg', hread, h⟩ := Option.map_eq_some_iff.1 h
    obtain ⟨rfl, rfl, rfl⟩ : conn' = conn ∧ ctx' = ctx ∧ msg' = msg := by simpa using h
    refine ⟨hopen, ?_, verdict, ?_⟩
    · simp only [opOf, hopen, hread]
    · simp only [step, fromOpen_eq, hopen, handleNewMessage, hread]
  | _ => cases h

end Received

/-! ## What a step changes -/

section Changes

variable {g g' : Gateway ν} {op : Op (CallTable × Str) PendingCall}

/-- The entries of one table, with one of them changed. -/
theorem update_waiting (g : Gateway ν) (t : CallTable) (k₀ : Str) (v : Option ConnId) (k : Str) :
    Function.update g.waiting (t, k₀) v (t, k) =
      Function.update (fun k => g.waiting (t, k)) k₀ v k := by
  by_cases hk : k = k₀
  · rw [hk, Function.update_self, Function.update_self]
  · rw [Function.update_of_ne hk, Function.update_of_ne (fun heq => hk (congrArg Prod.snd heq))]

theorem waiting_insertTools (g : Gateway ν) (k : Str) (conn : ConnId) :
    ({ g with pendingTools := g.pendingTools.insert k conn } : Gateway ν).waiting =
      Function.update g.waiting (.tools, k) (some conn) := by
  funext κ
  obtain ⟨t, k'⟩ := κ
  cases t with
  | tools => rw [update_waiting]; exact AList.lookup_insert_eq_update _ _ _ _
  | agents => rfl

theorem waiting_insertAgents (g : Gateway ν) (k : Str) (conn : ConnId) :
    ({ g with pendingAgents := g.pendingAgents.insert k conn } : Gateway ν).waiting =
      Function.update g.waiting (.agents, k) (some conn) := by
  funext κ
  obtain ⟨t, k'⟩ := κ
  cases t with
  | tools => rfl
  | agents => rw [update_waiting]; exact AList.lookup_insert_eq_update _ _ _ _

theorem waiting_eraseTools (g : Gateway ν) (k : Str) :
    ({ g with pendingTools := g.pendingTools.erase k } : Gateway ν).waiting =
      Function.update g.waiting (.tools, k) none := by
  funext κ
  obtain ⟨t, k'⟩ := κ
  cases t with
  | tools => rw [update_waiting]; exact AList.lookup_erase_eq_update _ _ _
  | agents => rfl

theorem waiting_eraseAgents (g : Gateway ν) (k : Str) :
    ({ g with pendingAgents := g.pendingAgents.erase k } : Gateway ν).waiting =
      Function.update g.waiting (.agents, k) none := by
  funext κ
  obtain ⟨t, k'⟩ := κ
  cases t with
  | tools => rfl
  | agents => rw [update_waiting]; exact AList.lookup_erase_eq_update _ _ _

/-- A step does its operation on the tables, and nothing else to them. -/
theorem Effect.waiting (h : Effect g op g') : g'.waiting = op.apply PendingCall.keeping g.waiting := by
  cases h with
  | toolCall call htable hcaller =>
    have hkey : call.key = (.tools, toolKey call.requestId call.callId) := by
      rw [PendingCall.key, htable]
    show _ = Function.update g.waiting call.key (some call.caller)
    rw [hkey]
    exact waiting_insertTools g _ _
  | agentCall call htable hcaller =>
    have hkey : call.key = (.agents, call.callId) := by rw [PendingCall.key, htable]
    show _ = Function.update g.waiting call.key (some call.caller)
    rw [hkey]
    exact waiting_insertAgents g _ _
  | toolResult k => exact waiting_eraseTools g k
  | agentResult k => exact waiting_eraseAgents g k
  | _ => rfl

theorem isSome_lookup_insert {conn conn' : ConnId} {c : Conn} {conns : AList fun _ : ConnId => Conn}
    (h : (conns.lookup conn).isSome) : ((conns.insert conn' c).lookup conn).isSome := by
  by_cases heq : conn = conn'
  · rw [heq, AList.lookup_insert]
    rfl
  · rwa [AList.lookup_insert_ne heq]

/-- Connection objects do not disappear. -/
theorem Effect.isSome_conns (h : Effect g op g') {conn : ConnId} (hconn : (g.conns.lookup conn).isSome) :
    (g'.conns.lookup conn).isSome := by
  cases h with
  | connected => exact isSome_lookup_insert hconn
  | context => exact isSome_lookup_insert hconn
  | agent => exact isSome_lookup_insert hconn
  | closed => exact isSome_lookup_insert hconn
  | _ => exact hconn

/-- Whoever waits has a connection object, and so has whoever has submitted a chat. -/
structure Connections (g : Gateway ν) : Prop where
  waiting (κ : CallTable × Str) (conn : ConnId) : g.waiting κ = some conn → (g.conns.lookup conn).isSome
  chats : ∀ p ∈ g.chats, (g.conns.lookup p.1).isSome

theorem Connections.isSome_of_known (h : Connections g) {conn : ConnId} (hknown : g.Known conn) :
    (g.conns.lookup conn).isSome := by
  rcases hknown with hconn | hmem
  · exact hconn
  · obtain ⟨p, hp, rfl⟩ := List.mem_map.1 hmem
    exact h.chats p hp

theorem Connections.effect (hg : Connections g) (h : Effect g op g') : Connections g' := by
  have hconns {conn : ConnId} (hconn : (g.conns.lookup conn).isSome) := h.isSome_conns hconn
  constructor
  · intro κ conn hκ
    rw [h.waiting] at hκ
    rcases PendingTable.Op.apply_eq_some hκ with hold | ⟨call, rfl, -, rfl⟩
    · exact hconns (hg.waiting κ conn hold)
    · cases h with
      | toolCall _ _ hcaller => exact hg.isSome_of_known hcaller
      | agentCall _ _ hcaller => exact hg.isSome_of_known hcaller
  · intro p hp
    cases h with
    | submitted conn requestId hopen =>
      rcases List.mem_append.1 hp with hp | hp
      · exact hg.chats p hp
      · rw [List.mem_singleton.1 hp]
        exact hopen
    | _ => exact hconns (hg.chats p hp)

end Changes

end Gateway

/-! ## Watched runs -/

/-- The gateway, with the calls that are outstanding. -/
structure Watched (ν : Type) where
  gateway : Gateway ν
  outstanding : List PendingCall := []

namespace Watched

open PendingCall (keeping)

/-- The entries, with the calls that are outstanding. -/
def ledger (w : Watched ν) : Ledger (CallTable × Str) PendingCall ConnId :=
  ⟨w.gateway.waiting, w.outstanding⟩

variable [Double ν] (platform : GatewayPlatform ν)

/-- A step of the gateway settles the outstanding calls. -/
def step (event : Gateway.Event × Clock) (w : Watched ν) : Outcome (Watched ν) :=
  (Gateway.step platform event w.gateway).map fun gateway =>
    { gateway, outstanding := w.ledger.settle keeping (Gateway.opOf platform event w.gateway) }

theorem ledger_step (event : Gateway.Event × Clock) (w : Watched ν) :
    (w.step platform event).state.ledger =
      w.ledger.step keeping (Gateway.opOf platform event w.gateway) := by
  rw [Ledger.step, Ledger.mk.injEq]
  exact ⟨(Gateway.effect_step platform event w.gateway).waiting, rfl⟩

/-- The gateway and its outstanding calls after some events. -/
def run (w : Watched ν) (events : List (Gateway.Event × Clock)) : Watched ν :=
  Outcome.run (step platform) w events

/-- A run of a new process. -/
def watch (data idx : Option Str) (l3 : L3ArchiveStore) (events : List (Gateway.Event × Clock)) :
    Watched ν :=
  run platform { gateway := Gateway.start platform data idx l3 } events

/-- At the start nobody waits. -/
theorem waiting_start (data idx : Option Str) (l3 : L3ArchiveStore) (κ : CallTable × Str) :
    (Gateway.start platform data idx l3).waiting κ = none := by
  obtain ⟨t, k⟩ := κ
  cases t
  · rfl
  · rfl

theorem connections_watch (data idx : Option Str) (l3 : L3ArchiveStore)
    (events : List (Gateway.Event × Clock)) :
    Gateway.Connections (watch platform data idx l3 events).gateway := by
  refine Outcome.run_invariant (fun w : Watched ν => Gateway.Connections w.gateway) ?_ ?_
  · refine ⟨fun κ _ hκ => ?_, nofun⟩
    cases (waiting_start platform data idx l3 κ).symm.trans hκ
  · exact fun w event _ h => h.effect (Gateway.effect_step platform event w.gateway)

/-- In every run, every entry belongs to an outstanding call. -/
theorem backed_watch (data idx : Option Str) (l3 : L3ArchiveStore)
    (events : List (Gateway.Event × Clock)) :
    (watch platform data idx l3 events).ledger.Backed keeping := by
  refine Outcome.run_invariant (fun w : Watched ν => w.ledger.Backed keeping) ?_ ?_
  · intro κ _ hκ
    cases (waiting_start platform data idx l3 κ).symm.trans hκ
  · intro w event _ h
    rw [ledger_step]
    exact h.step _

end Watched

end LlmGateway
