import LlmGateway.Gateway
import LlmGateway.Lib.PendingTable

/-!
# Pending calls

The calls and the results of the gateway, taken apart: a call looks for a callee, is registered in the
table of pending calls, and is sent; a result takes the entry of its key, and is delivered.

`opOf` is the operation of a step on the two tables.
-/

namespace LlmGateway

variable {ν : Type}

/-! ## Agent calls, part by part -/

namespace WsChatController

section Send

variable (platform : GatewayPlatform ν)

theorem wsSend_state (conn : ConnId) (msg : Json ν) (g : WsChatController ν) :
    ∃ sent, (wsSend platform conn msg g).state = { g with sent } := by
  unfold wsSend
  split
  · exact ⟨g.sent, rfl⟩
  · exact ⟨_, rfl⟩

theorem wsSendToSession_state (sessionId : Str) (msg : Json ν) (g : WsChatController ν) :
    ∃ sent, (wsSendToSession platform sessionId msg g).state = { g with sent } := by
  unfold wsSendToSession
  split
  · exact wsSend_state platform _ msg g
  · split_ifs
    · exact ⟨g.sent, rfl⟩
    · exact ⟨g.sent, rfl⟩

/-- The context of a new connection. -/
def newCtx (clientIp role : Str) (nanos : ℤ) (seq : ℕ) : SessionCtx where
  sessionId := str (toString nanos) ++ str "-" ++ str (toString seq)
  clientIp
  role := if role = [] then str "user" else role

theorem handleNewConnection_state (clientIp role : Str) (nanos : ℤ) (g : WsChatController ν) :
    ∃ sent, (handleNewConnection platform clientIp role nanos g).state =
      { g with
        conns := g.conns.insert g.seq { ctx := newCtx clientIp role nanos g.seq }
        sessions := g.sessions.insert (newCtx clientIp role nanos g.seq).sessionId g.seq
        seq := g.seq + 1
        sent } :=
  wsSend_state platform g.seq _ _

/-- The context of an agent. -/
def agentCtx (ctx : SessionCtx) (agentName : Option Str) (capabilities : List AgentCapability) :
    SessionCtx :=
  { ctx with
    role := str "agent"
    agentName := agentName.getD (str "agent-" ++ ctx.sessionId)
    capabilities := ctx.capabilities ++ capabilities.filter (·.name ≠ []) }

/-- The record of an agent with its context. -/
def agentRecord (ctx : SessionCtx) (now : Clock) : AgentRecord where
  sessionId := ctx.sessionId
  agentName := ctx.agentName
  capabilities := ctx.capabilities
  peerAddr := ctx.clientIp
  registeredAtMs := now.wall
  lastHeartbeatMs := now.wall

theorem registerAgent_state (conn : ConnId) (ctx : SessionCtx) (agentName : Option Str)
    (capabilities : List AgentCapability) (now : Clock) (g : WsChatController ν) :
    ∃ sent, (registerAgent platform conn ctx agentName capabilities now g).state =
      { g with
        conns := g.conns.insert conn { ctx := agentCtx ctx agentName capabilities }
        registry := g.registry.registerAgent ctx.sessionId
          (agentRecord (agentCtx ctx agentName capabilities) now)
        sent } :=
  wsSend_state platform conn _ _

end Send

section Calls

variable (platform : GatewayPlatform ν)

/-- The text that is parsed for an input or an output. -/
def payloadOr (text : Str) : Str := if text = [] then str "\x7b\x7d" else text

/-- The message with which a call is forwarded. -/
def agentCallJson (callId callerSession capability : Str) (input : Json ν) : Json ν :=
  .object (Json.members [
    (str "type", .string (str "agent_call")),
    (str "call_id", .string callId),
    (str "caller_session", .string callerSession),
    (str "capability", .string capability),
    (str "input", input),
    (str "timeout_ms", .int 30000)])

/-- The agent that a call goes to. -/
def findTarget (targetAgentId capability : Str) (g : WsChatController ν) : Option AgentRecord :=
  (if targetAgentId ≠ [] then g.registry.find targetAgentId else none).or (g.registry.route capability)

/-- `pending_agents_[call_id] = caller`. -/
def registerCall (caller : ConnId) (callId : Str) (g : WsChatController ν) : WsChatController ν :=
  { g with pendingAgents := g.pendingAgents.insert callId caller }

/-- Send a registered call to its agent. -/
def sendCall (ctx : SessionCtx) (callId capability input : Str) (target : AgentRecord)
    (g : WsChatController ν) : Outcome (WsChatController ν) :=
  match platform.json.parse (payloadOr input) with
  | none => .throw g
  | some inputJson =>
      wsSendToSession platform target.sessionId
        (agentCallJson callId ctx.sessionId capability inputJson) g

/-- The error for a capability that nobody offers. -/
def noAgent (callId capability : Str) : Json ν :=
  .object (Json.members [
    (str "type", .string (str "error")),
    (str "call_id", .string callId),
    (str "code", .string (str "no_agent")),
    (str "message", .string (str "no agent available for capability: " ++ capability))])

theorem forwardCall_eq (caller : ConnId) (ctx : SessionCtx)
    (callId targetAgentId capability input : Str) (g : WsChatController ν) :
    forwardCall platform caller ctx callId targetAgentId capability input g =
      match findTarget targetAgentId capability g with
      | none => wsSend platform caller (noAgent callId capability) g
      | some target =>
          sendCall platform ctx callId capability input target (registerCall caller callId g) := rfl

/-- The connection that a forwarded call is queued to, if the message can be built and the session of
the agent is still there. -/
def calleeOf (ctx : SessionCtx) (callId capability input : Str) (target : AgentRecord)
    (g : WsChatController ν) : Option ConnId :=
  (platform.json.parse (payloadOr input)).bind fun inputJson =>
    if (platform.json.dump (agentCallJson callId ctx.sessionId capability inputJson)).isSome then
      g.sessions.lookup target.sessionId
    else none

theorem sendCall_state (ctx : SessionCtx) (callId capability input : Str) (target : AgentRecord)
    (g : WsChatController ν) :
    ∃ sent, (sendCall platform ctx callId capability input target g).state = { g with sent } := by
  unfold sendCall
  split
  · exact ⟨g.sent, rfl⟩
  · exact wsSendToSession_state platform _ _ g

variable [Double ν]

/-- The agent that a call is forwarded to: none if the cache answers it. -/
def callTarget (ctx : SessionCtx) (targetAgentId capability input : Str) (bypassCache : Bool)
    (now : Clock) (g : WsChatController ν) : Option AgentRecord :=
  if bypassCache = false ∧
      (queryCall platform targetAgentId capability input ctx.sessionId now g.cache).1.isSome then none
  else findTarget targetAgentId capability g

theorem routeAgentCall_of_none {ctx : SessionCtx} {targetAgentId capability input : Str}
    {bypassCache : Bool} {now : Clock} {g : WsChatController ν}
    (h : callTarget platform ctx targetAgentId capability input bypassCache now g = none)
    (caller : ConnId) (callId : Str) :
    ∃ cache sent, (routeAgentCall platform caller ctx callId targetAgentId capability input
      bypassCache now g).state = { g with cache, sent } := by
  have hforward (g : WsChatController ν) (h : findTarget targetAgentId capability g = none) :
      ∃ sent, (forwardCall platform caller ctx callId targetAgentId capability input g).state =
        { g with sent } := by
    rw [forwardCall_eq, h]
    exact wsSend_state platform caller _ g
  unfold callTarget at h
  unfold routeAgentCall
  cases bypassCache with
  | true =>
    rw [if_neg (by simp)] at h
    obtain ⟨sent, hsent⟩ := hforward g h
    exact ⟨g.cache, sent, hsent⟩
  | false =>
    dsimp only
    cases hhit : (queryCall platform targetAgentId capability input ctx.sessionId now g.cache).1 with
    | none =>
      rw [hhit, if_neg (by simp)] at h
      exact ⟨_, hforward { g with cache := _ } h⟩
    | some hit =>
      generalize hg : ({ g with cache := (queryCall platform targetAgentId capability input
        ctx.sessionId now g.cache).2 } : WsChatController ν) = g₁
      obtain ⟨sent, hsent⟩ := wsSend_state platform caller (cachedReply callId hit) g₁
      rw [if_neg Bool.false_ne_true]
      refine Outcome.state_andThen
        (fun g' : WsChatController ν => ∃ cache sent, g' = { g with cache, sent }) ?_ ?_
      · exact ⟨g₁.cache, sent, by rw [hsent, ← hg]⟩
      · rintro g' ⟨cache, sent', rfl⟩
        exact ⟨_, sent', rfl⟩

theorem routeAgentCall_of_some {ctx : SessionCtx} {targetAgentId capability input : Str}
    {bypassCache : Bool} {now : Clock} {g : WsChatController ν} {target : AgentRecord}
    (h : callTarget platform ctx targetAgentId capability input bypassCache now g = some target)
    (caller : ConnId) (callId : Str) :
    ∃ cache, routeAgentCall platform caller ctx callId targetAgentId capability input bypassCache now g =
      sendCall platform ctx callId capability input target
        (registerCall caller callId { g with cache }) := by
  have hforward (g : WsChatController ν) (h : findTarget targetAgentId capability g = some target) :
      forwardCall platform caller ctx callId targetAgentId capability input g =
        sendCall platform ctx callId capability input target (registerCall caller callId g) := by
    rw [forwardCall_eq, h]
  unfold callTarget at h
  split_ifs at h with hcached
  unfold routeAgentCall
  cases bypassCache with
  | true => exact ⟨g.cache, hforward g h⟩
  | false =>
    dsimp only
    cases hhit : (queryCall platform targetAgentId capability input ctx.sessionId now g.cache).1 with
    | none => exact ⟨_, hforward { g with cache := _ } h⟩
    | some hit =>
      rw [hhit] at hcached
      exact absurd ⟨rfl, rfl⟩ hcached

/-! ## Agent results, part by part -/

/-- The error for a result that nobody waits for. -/
def noPending (callId : Str) : Json ν :=
  .object (Json.members [
    (str "type", .string (str "error")),
    (str "call_id", .string callId),
    (str "code", .string (str "no_pending")),
    (str "message", .string (str "no pending agent call for this call_id"))])

/-- `pending_agents_.erase(it)`. -/
def takeCall (callId : Str) (g : WsChatController ν) : WsChatController ν :=
  { g with pendingAgents := g.pendingAgents.erase callId }

/-- Deliver a result that was taken, if its caller is still there. -/
def answerCall (callee caller : ConnId) (ctx : SessionCtx) (callId output : Str) (confidence : ν)
    (now : Clock) (g : WsChatController ν) : Outcome (WsChatController ν) :=
  match g.conns.lookup caller with
  | some ⟨callerCtx, true⟩ =>
      deliverResult platform caller callerCtx ctx callId output confidence now g
  | _ =>
      wsSend platform callee
        (.object (Json.members [
          (str "type", .string (str "error")),
          (str "call_id", .string callId),
          (str "code", .string (str "caller_gone"))])) g

theorem answerCall_of_connected {caller : ConnId} {callerCtx : SessionCtx} {g : WsChatController ν}
    (hopen : g.conns.lookup caller = some ⟨callerCtx, true⟩) (callee : ConnId) (ctx : SessionCtx)
    (callId output : Str) (confidence : ν) (now : Clock) :
    answerCall platform callee caller ctx callId output confidence now g =
      deliverResult platform caller callerCtx ctx callId output confidence now g := by
  rw [answerCall, hopen]

theorem answerCall_of_gone {caller : ConnId} {g : WsChatController ν}
    (hgone : ∀ callerCtx, g.conns.lookup caller ≠ some ⟨callerCtx, true⟩) (callee : ConnId)
    (ctx : SessionCtx) (callId output : Str) (confidence : ν) (now : Clock) :
    answerCall platform callee caller ctx callId output confidence now g =
      wsSend platform callee
        (.object (Json.members [
          (str "type", .string (str "error")),
          (str "call_id", .string callId),
          (str "code", .string (str "caller_gone"))])) g := by
  unfold answerCall
  split
  · next callerCtx hopen => exact absurd hopen (hgone callerCtx)
  · rfl

theorem routeAgentResult_eq (callee : ConnId) (ctx : SessionCtx) (callId output : Str) (confidence : ν)
    (now : Clock) (g : WsChatController ν) :
    routeAgentResult platform callee ctx callId output confidence now g =
      match g.pendingAgents.lookup callId with
      | none => wsSend platform callee (noPending callId) g
      | some caller =>
          answerCall platform callee caller ctx callId output confidence now (takeCall callId g) := rfl

theorem deliverResult_state (caller : ConnId) (callerCtx ctx : SessionCtx) (callId output : Str)
    (confidence : ν) (now : Clock) (g : WsChatController ν) :
    ∃ cache sent,
      (deliverResult platform caller callerCtx ctx callId output confidence now g).state =
        { g with cache, sent } := by
  refine Outcome.state_andThen
    (fun g' : WsChatController ν => ∃ cache sent, g' = { g with cache, sent }) ?_ ?_
  · exact ⟨_, g.sent, rfl⟩
  · rintro g' ⟨cache, sent, rfl⟩
    dsimp only
    split
    · exact ⟨_, sent, rfl⟩
    · obtain ⟨sent', hsent⟩ := wsSend_state platform caller _ _
      exact ⟨_, sent', hsent⟩

theorem answerCall_state (callee caller : ConnId) (ctx : SessionCtx) (callId output : Str)
    (confidence : ν) (now : Clock) (g : WsChatController ν) :
    ∃ cache sent,
      (answerCall platform callee caller ctx callId output confidence now g).state =
        { g with cache, sent } := by
  unfold answerCall
  split
  · exact deliverResult_state platform caller _ ctx callId output confidence now g
  · obtain ⟨sent, hsent⟩ := wsSend_state platform callee _ g
    exact ⟨g.cache, sent, hsent⟩

theorem handleCacheInvalidate_state (sender : ConnId) (key reason : Str) (cascading : Bool)
    (g : WsChatController ν) :
    ∃ cache sent, (handleCacheInvalidate platform sender key reason cascading g).state =
      { g with cache, sent } := by
  refine Outcome.state_andThen
    (fun g' : WsChatController ν => ∃ cache sent, g' = { g with cache, sent }) ?_ ?_
  · exact ⟨_, g.sent, rfl⟩
  · rintro g' ⟨cache, sent, rfl⟩
    obtain ⟨sent', hsent⟩ := wsSend_state platform sender _ _
    exact ⟨cache, sent', hsent⟩

end Calls

end WsChatController

namespace Gateway

open WsChatController (wsSend)

/-! ## Tool calls -/

section Tools

variable (platform : GatewayPlatform ν)

theorem onController_state {f : WsChatController ν → Outcome (WsChatController ν)} {g : Gateway ν}
    {c : WsChatController ν} (h : (f g.toWsChatController).state = c) :
    (onController f g).state = { g with toWsChatController := c } := by
  rw [onController, Outcome.map_state, h]

theorem wsSend_of_dump_none {msg : Json ν} (h : platform.json.dump msg = none) (conn : ConnId)
    (g : Gateway ν) : onController (wsSend platform conn msg) g = .throw g := by
  rw [onController, wsSend, h]
  rfl

theorem wsSend_of_dump_some {msg : Json ν} {text : Str} (h : platform.json.dump msg = some text)
    (conn : ConnId) (g : Gateway ν) :
    onController (wsSend platform conn msg) g = .ok { g with sent := g.sent ++ [(conn, msg)] } := by
  rw [onController, wsSend, h]
  rfl

theorem wsSend_state (conn : ConnId) (msg : Json ν) (g : Gateway ν) :
    ∃ sent, (onController (wsSend platform conn msg) g).state = { g with sent } := by
  obtain ⟨sent, hsent⟩ := WsChatController.wsSend_state platform conn msg g.toWsChatController
  exact ⟨sent, onController_state hsent⟩

theorem forwardTool_state (executor : ConnId) (requestId callId name arguments : Str) (g : Gateway ν) :
    ∃ sent, (forwardTool platform executor requestId callId name arguments g).state =
      { g with sent } := by
  unfold forwardTool
  split
  · exact ⟨g.sent, rfl⟩
  · exact wsSend_state platform executor _ g

theorem deliverTool_state (executor target : ConnId) (requestId callId content : Str) (g : Gateway ν) :
    ∃ sent, (deliverTool platform executor target requestId callId content g).state =
      { g with sent } := by
  unfold deliverTool
  split_ifs
  · exact wsSend_state platform target _ g
  · exact wsSend_state platform executor _ g

end Tools

end Gateway

/-! ## Operations on the tables -/

/-- The two tables of pending calls. -/
inductive CallTable where
  | tools
  | agents
  deriving DecidableEq

/-- A call that was registered. -/
structure PendingCall where
  table : CallTable
  /-- Empty for a call of an agent. -/
  requestId : Str
  callId : Str
  caller : ConnId
  /-- Where the call was queued, if it was. -/
  callee : Option ConnId
  deriving DecidableEq

open PendingTable (Op Keeping)

namespace PendingCall

/-- The table of a call, and its key there. -/
def key (call : PendingCall) : CallTable × Str :=
  match call.table with
  | .tools => (.tools, Gateway.toolKey call.requestId call.callId)
  | .agents => (.agents, call.callId)

/-- How the gateway keeps calls. -/
def keeping : Keeping PendingCall (CallTable × Str) ConnId := ⟨key, caller⟩

end PendingCall

namespace Gateway

theorem isConnected_iff {conn : ConnId} {g : Gateway ν} :
    g.isConnected conn = true ↔ ∃ ctx, g.conns.lookup conn = some ⟨ctx, true⟩ := by
  unfold isConnected
  cases g.conns.lookup conn with
  | none => simp
  | some c =>
    obtain ⟨ctx, connected⟩ := c
    simp

theorem lookup_ne_of_gone {conn : ConnId} {g : Gateway ν} (hgone : g.isConnected conn = false)
    (ctx : SessionCtx) : g.conns.lookup conn ≠ some ⟨ctx, true⟩ := by
  intro hopen
  rw [isConnected_iff.2 ⟨ctx, hopen⟩] at hgone
  cases hgone

/-- The context of an open connection. -/
def openCtx (conn : ConnId) (g : Gateway ν) : Option SessionCtx :=
  ((g.conns.lookup conn).filter Conn.connected).map Conn.ctx

theorem openCtx_eq_some {conn : ConnId} {g : Gateway ν} {ctx : SessionCtx} :
    g.openCtx conn = some ctx ↔ g.conns.lookup conn = some ⟨ctx, true⟩ := by
  unfold openCtx
  cases g.conns.lookup conn with
  | none => exact iff_of_false nofun nofun
  | some c =>
    obtain ⟨ctx', connected⟩ := c
    cases connected
    · exact iff_of_false nofun nofun
    · simp [Option.filter]

theorem fromOpen_eq (conn : ConnId) (f : SessionCtx → Gateway ν → Outcome (Gateway ν)) (g : Gateway ν) :
    fromOpen conn f g =
      match g.openCtx conn with
      | some ctx => f ctx g
      | none => .ok g := by
  unfold fromOpen openCtx
  cases g.conns.lookup conn with
  | none => rfl
  | some c =>
    obtain ⟨ctx, connected⟩ := c
    cases connected
    · rfl
    · rfl

/-- Who waits under a key. -/
def waiting (g : Gateway ν) : CallTable × Str → Option ConnId
  | (.tools, k) => g.pendingTools.lookup k
  | (.agents, k) => g.pendingAgents.lookup k

section Ops

variable (platform : GatewayPlatform ν)

/-- What a tool call does to the tables. -/
def toolOp (sender : ConnId) (requestId callId name arguments : Str) (g : Gateway ν) :
    Op (CallTable × Str) PendingCall :=
  match g.selectExecutor name with
  | none => .skip
  | some executor =>
      .register {
        table := .tools
        requestId
        callId
        caller := sender
        callee := (platform.json.parse arguments).bind fun args =>
          if (platform.json.dump (toolCallJson requestId callId name args)).isSome then some executor
          else none }

/-- The operation of a tool call of a stream, whose client gets it first. -/
def streamOp (conn : ConnId) (requestId callId name arguments : Str) (g : Gateway ν) :
    Op (CallTable × Str) PendingCall :=
  match platform.json.parse arguments with
  | none => .skip
  | some args =>
      if (platform.json.dump (toolCallJson requestId callId name args)).isSome then
        toolOp platform conn requestId callId name arguments g
      else .skip

variable [Double ν]

/-- What a call of an agent does to the tables. -/
def agentOp (caller : ConnId) (ctx : SessionCtx) (callId targetAgentId capability input : Str)
    (bypassCache : Bool) (now : Clock) (g : Gateway ν) : Op (CallTable × Str) PendingCall :=
  match WsChatController.callTarget platform ctx targetAgentId capability input bypassCache now
      g.toWsChatController with
  | none => .skip
  | some target =>
      .register {
        table := .agents
        requestId := []
        callId
        caller
        callee := WsChatController.calleeOf platform ctx callId capability input target
          g.toWsChatController }

/-- What a message does to the tables. -/
def messageOp (conn : ConnId) (ctx : SessionCtx) (now : Clock) (g : Gateway ν) :
    Message ν → Op (CallTable × Str) PendingCall
  | .toolCall requestId callId name arguments =>
      toolOp platform conn requestId callId name arguments g
  | .toolResult requestId callId _ => .take (.tools, toolKey requestId callId)
  | .agentCall callId targetAgentId capability input bypassCache =>
      agentOp platform conn ctx callId targetAgentId capability input bypassCache now g
  | .agentResult callId _ _ => .take (.agents, callId)
  | _ => .skip

/-- The operation of a step on the tables. -/
def opOf (event : Event × Clock) (g : Gateway ν) : Op (CallTable × Str) PendingCall :=
  match event.1 with
  | .message conn text nanos _ =>
      match g.openCtx conn with
      | some ctx =>
          match Message.read platform.json nanos text with
          | some msg => messageOp platform conn ctx event.2 g msg
          | none => .skip
      | none => .skip
  | .toolCallOf chat callId name arguments =>
      match g.chats[chat]? with
      | some (conn, requestId) => streamOp platform conn requestId callId name arguments g
      | none => .skip
  | _ => .skip

end Ops

end Gateway

end LlmGateway
