import LlmGateway.AgentRegistry
import LlmGateway.CoordinatorRuns

/-!
# The WebSocket controller

`WsChatController` with the messages that agents exchange: `register`, `agent_call`, `agent_result`,
`cache_invalidate`, and the opening and the closing of connections.  Each message is given after it
has been decoded, and is handled as one step.

What is sent is recorded in `sent`, once the library has dumped it.  A handler that throws leaves what
it has done.  The digest of OpenSSL is a parameter.
-/

namespace LlmGateway

variable {ν : Type}

/-- A connection object. -/
abbrev ConnId := ℕ

/-- The context of a connection. -/
structure SessionCtx where
  sessionId : Str
  clientIp : Str
  role : Str
  agentName : Str := []
  capabilities : List AgentCapability := []
  deriving DecidableEq

/-- A connection object, which stays when the connection is closed. -/
structure Conn where
  ctx : SessionCtx
  connected : Bool := true
  deriving DecidableEq

/-- The controller, as far as agents and caches need it. -/
structure WsChatController (ν : Type) where
  conns : AList fun _ : ConnId => Conn := ∅
  /-- `sessions_`. -/
  sessions : UMap ConnId := ∅
  /-- `pending_agents_`. -/
  pendingAgents : UMap ConnId := ∅
  registry : AgentRegistry := {}
  cache : CacheCoordinator ν := {}
  /-- The messages sent so far, with their connections. -/
  sent : List (ConnId × Json ν) := []
  /-- The number of connections so far. -/
  seq : ℕ := 0

/-- The gateway's platform, with the digest of `EVP_sha256`. -/
structure GatewayPlatform (ν : Type) extends Platform ν where
  evpSha256 : Str → Vector UInt8 32

namespace WsChatController

/-! ## Hashes -/

section Hash

/-- A hexadecimal digit. -/
def hexDigit (n : ℕ) : UInt8 := UInt8.ofNat (if n < 10 then 48 + n else 87 + n)

/-- `%02x` of a byte. -/
def hexByte (b : UInt8) : Str := [hexDigit (b.toNat / 16), hexDigit (b.toNat % 16)]

/-- The digest of a text, in hexadecimal digits. -/
def sha256 (platform : GatewayPlatform ν) (input : Str) : Str :=
  (platform.evpSha256 input).toList.flatMap hexByte

theorem hexDigit_inj {m n : ℕ} (hm : m < 16) (hn : n < 16) (h : hexDigit m = hexDigit n) :
    m = n := by
  have hfin : ∀ m n : Fin 16, hexDigit m = hexDigit n → m = n := by decide
  exact congrArg Fin.val (hfin ⟨m, hm⟩ ⟨n, hn⟩ h)

theorem hexByte_injective : Function.Injective hexByte := by
  intro b c h
  simp only [hexByte, List.cons.injEq, and_true] at h
  have hb := b.toNat_lt
  have hc := c.toNat_lt
  have hhigh := hexDigit_inj (by omega) (by omega) h.1
  have hlow := hexDigit_inj (by omega) (by omega) h.2
  exact UInt8.toNat_inj.1 (by omega)

theorem flatMap_hexByte_injective : Function.Injective (List.flatMap hexByte) := by
  intro xs ys h
  induction xs generalizing ys with
  | nil =>
      cases ys with
      | nil => rfl
      | cons y ys => simp [hexByte] at h
  | cons x xs ih =>
      cases ys with
      | nil => simp [hexByte] at h
      | cons y ys =>
          obtain ⟨hx, hxs⟩ := List.append_inj h rfl
          rw [hexByte_injective hx, ih hxs]

theorem length_flatMap_hexByte (xs : List UInt8) : (xs.flatMap hexByte).length = 2 * xs.length := by
  induction xs with
  | nil => rfl
  | cons x xs ih =>
      rw [List.flatMap_cons, List.length_append, ih, List.length_cons]
      simp only [hexByte, List.length_cons, List.length_nil]
      omega

@[simp]
theorem length_sha256 (platform : GatewayPlatform ν) (input : Str) :
    (sha256 platform input).length = 64 := by
  rw [sha256, length_flatMap_hexByte, Vector.length_toList]

theorem sha256_inj {platform : GatewayPlatform ν} {input input' : Str} :
    sha256 platform input = sha256 platform input' ↔
      platform.evpSha256 input = platform.evpSha256 input' := by
  constructor
  · exact fun h => Vector.toList_inj.1 (flatMap_hexByte_injective h)
  · intro h
    rw [sha256, h, sha256]

end Hash

/-! ## Sending -/

section Send

variable (platform : GatewayPlatform ν)

/-- `ws_send` of a dumped value. -/
def wsSend (conn : ConnId) (msg : Json ν) (g : WsChatController ν) : Outcome (WsChatController ν) :=
  match platform.json.dump msg with
  | none => .throw g
  | some _ => .ok { g with sent := g.sent ++ [(conn, msg)] }

/-- `ws_send_to_session`: a session that is gone gets nothing. -/
def wsSendToSession (sessionId : Str) (msg : Json ν) (g : WsChatController ν) :
    Outcome (WsChatController ν) :=
  match g.sessions.lookup sessionId with
  | some conn => wsSend platform conn msg g
  | none => if (platform.json.dump msg).isSome then .ok g else .throw g

/-- An operation of the caches. -/
def onCache (f : CacheCoordinator ν → Outcome (CacheCoordinator ν)) (g : WsChatController ν) :
    Outcome (WsChatController ν) :=
  (f g.cache).map fun cache => { g with cache }

end Send

/-! ## Connections -/

section Connections

variable (platform : GatewayPlatform ν)

/-- An authenticated connection; `nanos` is the steady clock in nanoseconds. -/
def handleNewConnection (clientIp role : Str) (nanos : ℤ) (g : WsChatController ν) :
    Outcome (WsChatController ν) :=
  let sessionId := str (toString nanos) ++ str "-" ++ str (toString g.seq)
  let ctx : SessionCtx :=
    { sessionId
      clientIp
      role := if role = [] then str "user" else role }
  wsSend platform g.seq
    (.object (Json.members [
      (str "type", .string (str "connected")),
      (str "session_id", .string sessionId)]))
    { g with
      conns := g.conns.insert g.seq { ctx }
      sessions := g.sessions.insert sessionId g.seq
      seq := g.seq + 1 }

/-- `register` with the role `agent`. -/
def registerAgent (conn : ConnId) (ctx : SessionCtx) (agentName : Option Str)
    (capabilities : List AgentCapability) (now : Clock) (g : WsChatController ν) :
    Outcome (WsChatController ν) :=
  let ctx :=
    { ctx with
      role := str "agent"
      agentName := agentName.getD (str "agent-" ++ ctx.sessionId)
      capabilities := ctx.capabilities ++ capabilities.filter (·.name ≠ []) }
  let record : AgentRecord :=
    { sessionId := ctx.sessionId
      agentName := ctx.agentName
      capabilities := ctx.capabilities
      peerAddr := ctx.clientIp
      registeredAtMs := now.wall
      lastHeartbeatMs := now.wall }
  let registry := g.registry.registerAgent ctx.sessionId record
  wsSend platform conn
    (.object (Json.members [
      (str "type", .string (str "registered")),
      (str "role", .string (str "agent")),
      (str "agent_name", .string ctx.agentName),
      (str "capabilities", .array (ctx.capabilities.map fun c =>
        .object (Json.members [
          (str "name", .string c.name),
          (str "description", .string c.description)]))),
      (str "all_caps", .int registry.allCapabilities.length)]))
    { g with
      conns := g.conns.insert conn { ctx }
      registry }

variable [Double ν]

/-- The connection is closed before the handler runs.  If the archiving throws, the session stays in
`sessions_`. -/
def handleConnectionClosed (conn : ConnId) (ctx : SessionCtx) (now : Clock)
    (g : WsChatController ν) : Outcome (WsChatController ν) :=
  let g := { g with conns := g.conns.insert conn { ctx, connected := false } }
  let archived : Outcome (WsChatController ν) :=
    if ctx.role = str "agent" then
      onCache (CacheCoordinator.archiveSession platform.toPlatform ctx.sessionId now)
        { g with registry := g.registry.unregisterAgent ctx.sessionId }
    else .ok g
  archived.andThen fun g => .ok { g with sessions := g.sessions.erase ctx.sessionId }

end Connections

/-! ## Agent messages -/

section Messages

open CacheCoordinator (QueryResult)

variable [Double ν] (platform : GatewayPlatform ν)

/-- `static_cast<int>(layer)`. -/
def layerCode : CacheLayer → ℤ
  | .L1 => 0
  | .L2 => 1
  | .L3 => 2

/-- The reply to a call that the cache answers. -/
def cachedReply (callId : Str) (cached : QueryResult ν) : Json ν :=
  .object (Json.members [
    (str "type", .string (str "agent_result")),
    (str "call_id", .string callId),
    (str "agent_id", .string cached.entry.agentId),
    (str "output", .string cached.entry.outputSummary),
    (str "confidence", .float cached.entry.confidence),
    (str "cache_status", .string (if cached.stale then str "stale" else str "fresh")),
    (str "cache_layer", .int (layerCode cached.layer)),
    (str "context_ref", .string cached.entry.fullRef)])

/-- The turn that a call answered from the cache leaves. -/
def cachedTurn (callId capability input : Str) (cached : QueryResult ν) (now : Clock) :
    SessionTurn ν where
  callId
  agentId := cached.entry.agentId
  capability
  inputSummary := input.take 200
  outputSummary := cached.entry.outputSummary
  cacheKey := cached.entry.key
  timestampMs := now.wall
  confidence := cached.entry.confidence

/-- The agent that a call asks the cache for. -/
def askedAgent (targetAgentId : Str) : Str :=
  if targetAgentId = [] then str "any" else targetAgentId

/-- The cache lookup of a call. -/
def queryCall (targetAgentId capability input sessionId : Str) (now : Clock)
    (c : CacheCoordinator ν) : Option (QueryResult ν) × CacheCoordinator ν :=
  c.query (askedAgent targetAgentId) capability (sha256 platform input) sessionId now

/-- Forward a call that the cache does not answer. -/
def forwardCall (caller : ConnId) (ctx : SessionCtx) (callId targetAgentId capability input : Str)
    (g : WsChatController ν) : Outcome (WsChatController ν) :=
  let found := if targetAgentId ≠ [] then g.registry.find targetAgentId else none
  match found.or (g.registry.route capability) with
  | none =>
      wsSend platform caller
        (.object (Json.members [
          (str "type", .string (str "error")),
          (str "call_id", .string callId),
          (str "code", .string (str "no_agent")),
          (str "message", .string (str "no agent available for capability: " ++ capability))])) g
  | some target =>
      let g := { g with pendingAgents := g.pendingAgents.insert callId caller }
      match platform.json.parse (if input = [] then str "\x7b\x7d" else input) with
      | none => .throw g
      | some inputJson =>
          wsSendToSession platform target.sessionId
            (.object (Json.members [
              (str "type", .string (str "agent_call")),
              (str "call_id", .string callId),
              (str "caller_session", .string ctx.sessionId),
              (str "capability", .string capability),
              (str "input", inputJson),
              (str "timeout_ms", .int 30000)])) g

/-- Answer a call from the cache, or forward it. -/
def routeAgentCall (caller : ConnId) (ctx : SessionCtx)
    (callId targetAgentId capability input : Str) (bypassCache : Bool) (now : Clock)
    (g : WsChatController ν) : Outcome (WsChatController ν) :=
  if bypassCache then forwardCall platform caller ctx callId targetAgentId capability input g
  else
    let cached := queryCall platform targetAgentId capability input ctx.sessionId now g.cache
    let g := { g with cache := cached.2 }
    match cached.1 with
    | some hit =>
        (wsSend platform caller (cachedReply callId hit) g).andThen fun g =>
          .ok { g with
            cache := g.cache.appendTurn ctx.sessionId (cachedTurn callId capability input hit now) }
    | none => forwardCall platform caller ctx callId targetAgentId capability input g

/-- The key under which a result is stored. -/
def resultKey (agentName output : Str) : Str :=
  str "agent:" ++ agentName ++ str ":agent_call:" ++ sha256 platform output

/-- The cache entry of a result. -/
def resultEntry (ctx : SessionCtx) (callId output : Str) (confidence : ν) : CacheEntry ν :=
  { CacheEntry.empty with
    key := resultKey platform ctx.agentName output
    agentId := ctx.sessionId
    capability := str "agent_call"
    inputHash := callId
    output
    outputSummary := output.take 200
    confidence
    confidenceDecay := Double.lit (2 / 100)
    baseTtlSeconds := 600
    status := if Double.lt (Double.lit (3 / 10)) confidence then .FRESH else .STALE }

/-- The turn that a result leaves in the session of its caller. -/
def resultTurn (ctx : SessionCtx) (callId output : Str) (confidence : ν) (now : Clock) :
    SessionTurn ν where
  callId
  agentId := ctx.agentName
  capability := str "agent_call"
  inputSummary := []
  outputSummary := output.take 200
  cacheKey := (resultEntry platform ctx callId output confidence).key
  timestampMs := now.wall
  confidence

/-- Deliver a result to its caller. -/
def deliverResult (caller : ConnId) (callerCtx ctx : SessionCtx) (callId output : Str)
    (confidence : ν) (now : Clock) (g : WsChatController ν) : Outcome (WsChatController ν) :=
  let entry := resultEntry platform ctx callId output confidence
  (onCache (CacheCoordinator.write platform.toPlatform entry now) g).andThen fun g =>
    let turn := resultTurn platform ctx callId output confidence now
    let g := { g with cache := g.cache.appendTurn callerCtx.sessionId turn }
    match platform.json.parse (if output = [] then str "\x7b\x7d" else output) with
    | none => .throw g
    | some outputJson =>
        wsSend platform caller
          (.object (Json.members [
            (str "type", .string (str "agent_result")),
            (str "call_id", .string callId),
            (str "agent_id", .string ctx.agentName),
            (str "output", outputJson),
            (str "confidence", .float confidence),
            (str "cache_status", .string (str "fresh")),
            (str "context_ref", .string entry.fullRef)])) g

/-- Cache a result, and hand it to the caller that waits for it. -/
def routeAgentResult (callee : ConnId) (ctx : SessionCtx) (callId output : Str) (confidence : ν)
    (now : Clock) (g : WsChatController ν) : Outcome (WsChatController ν) :=
  match g.pendingAgents.lookup callId with
  | none =>
      wsSend platform callee
        (.object (Json.members [
          (str "type", .string (str "error")),
          (str "call_id", .string callId),
          (str "code", .string (str "no_pending")),
          (str "message", .string (str "no pending agent call for this call_id"))])) g
  | some caller =>
      let g := { g with pendingAgents := g.pendingAgents.erase callId }
      match g.conns.lookup caller with
      | some ⟨callerCtx, true⟩ =>
          deliverResult platform caller callerCtx ctx callId output confidence now g
      | _ =>
          wsSend platform callee
            (.object (Json.members [
              (str "type", .string (str "error")),
              (str "call_id", .string callId),
              (str "code", .string (str "caller_gone"))])) g

/-- Invalidate a key, and tell the sender. -/
def handleCacheInvalidate (sender : ConnId) (key reason : Str) (cascading : Bool)
    (g : WsChatController ν) : Outcome (WsChatController ν) :=
  (onCache (CacheCoordinator.invalidate platform.toPlatform key reason cascading) g).andThen
    (wsSend platform sender
      (.object (Json.members [
        (str "type", .string (str "cache_invalidated")),
        (str "key", .string key),
        (str "cascade", .bool cascading)])))

end Messages

/-! ## Steps -/

/-- What happens on the connections. -/
inductive Event (ν : Type) where
  | connect (clientIp role : Str) (nanos : ℤ)
  | registerAgent (conn : ConnId) (agentName : Option Str) (capabilities : List AgentCapability)
  | agentCall (conn : ConnId) (callId targetAgentId capability input : Str) (bypassCache : Bool)
  | agentResult (conn : ConnId) (callId output : Str) (confidence : ν)
  | cacheInvalidate (conn : ConnId) (key reason : Str) (cascading : Bool)
  | close (conn : ConnId)

section Steps

variable [Double ν] (platform : GatewayPlatform ν)

/-- Handle what comes from an open connection; nothing comes from another one. -/
def fromOpen (conn : ConnId) (f : SessionCtx → WsChatController ν → Outcome (WsChatController ν))
    (g : WsChatController ν) : Outcome (WsChatController ν) :=
  match g.conns.lookup conn with
  | some ⟨ctx, true⟩ => f ctx g
  | _ => .ok g

/-- What an event does. -/
def step (event : Event ν × Clock) : WsChatController ν → Outcome (WsChatController ν) :=
  let now := event.2
  match event.1 with
  | .connect clientIp role nanos => handleNewConnection platform clientIp role nanos
  | .registerAgent conn agentName capabilities =>
      fromOpen conn fun ctx => registerAgent platform conn ctx agentName capabilities now
  | .agentCall conn callId targetAgentId capability input bypassCache =>
      fromOpen conn fun ctx =>
        routeAgentCall platform conn ctx callId targetAgentId capability input bypassCache now
  | .agentResult conn callId output confidence =>
      fromOpen conn fun ctx => routeAgentResult platform conn ctx callId output confidence now
  | .cacheInvalidate conn key reason cascading =>
      fromOpen conn fun _ => handleCacheInvalidate platform conn key reason cascading
  | .close conn => fromOpen conn fun ctx => handleConnectionClosed platform conn ctx now

/-- A new process, on the files that it finds. -/
def start (data idx : Option Str) (l3 : L3ArchiveStore) : WsChatController ν where
  cache := CacheCoordinator.init platform.toPlatform data idx l3

/-- The controller after some events. -/
def run (g : WsChatController ν) (events : List (Event ν × Clock)) : WsChatController ν :=
  Outcome.run (step platform) g events

end Steps

end WsChatController

end LlmGateway
