import LlmGateway.ArchiveConfinement
import LlmGateway.ToolRegistry

/-!
# The gateway

`WsChatController` with all its messages: those of the agents, and those of the executors, which run the
tools that clients and backends call.  A message comes as text; what is read of it is a `Message`, and
handling it is one step, as are the tool calls that the stream of a chat makes.

Authentication, routing to a backend and the plugins decide whether a chat is submitted, and are given
with its message (`ChatVerdict`).
-/

namespace LlmGateway

variable {ν : Type}

/-- The controller with the executors, the tools and the chats. -/
structure Gateway (ν : Type) extends WsChatController ν where
  /-- `tools` of the contexts. -/
  tools : AList fun _ : ConnId => List Str := ∅
  /-- `active_requests` of the contexts, with the cancel flags. -/
  activeRequests : AList fun _ : ConnId × Str => Bool := ∅
  /-- `executors_`. -/
  executors : List ConnId := []
  /-- `exec_rr_idx_`. -/
  execRrIdx : ℕ := 0
  /-- `pending_tools_`. -/
  pendingTools : UMap ConnId := ∅
  toolRegistry : ToolRegistry := {}
  /-- The chats that were submitted, with the connections that wait for them. -/
  chats : List (ConnId × Str) := []

/-- What becomes of a chat before it is submitted. -/
inductive ChatVerdict where
  | authFailed (err : Str)
  | noBackend
  | aborted (status : ℤ) (body : Str)
  | passed
  deriving DecidableEq

/-- What is read of an incoming text. -/
inductive Message (ν : Type) where
  | invalidJson
  | chat (requestId : Str)
  | chatWithoutMessages (requestId : Str)
  | cancel (requestId : Str)
  | ping
  | registerExecutor (tools : List (Json ν))
  | registerAgent (msg : Json ν)
  | toolCall (requestId callId name arguments : Str)
  | toolResult (requestId callId content : Str)
  | agentCall (callId targetAgentId capability input : Str) (bypassCache : Bool)
  | agentResult (callId output : Str) (confidence : ν)
  | cacheInvalidate (key reason : Str) (cascading : Bool)
  | contextExpand (callId ref : Str) (maxTokens : UInt64)
  | other

/-! ## Reading messages -/

namespace Message

open Json (getString getBool getInt getDouble)

variable [Double ν] (lib : JsonLib ν)

/-- A message with the type `chat`. -/
def readChat (requestId : Str) (msg : Json ν) : Option (Message ν) := do
  let _ ← msg.value "model" getString (str "local-model")
  match msg.member "messages" with
  | none => some (.chatWithoutMessages requestId)
  | some messages =>
      if messages.isEmpty then some (.chatWithoutMessages requestId)
      else do
        let _ ← lib.dump messages
        let _ ← (msg.member "tools").elim (some []) lib.dump
        let _ ← msg.value "temperature" getDouble (Double.lit (7 / 10))
        let _ ← msg.value "max_tokens" getInt 2048
        some (.chat requestId)

/-- An element list under a key; nothing if the member is none. -/
def arrayMember (msg : Json ν) (key : String) : List (Json ν) :=
  match msg.member key with
  | some (.array xs) => xs
  | _ => []

/-- A message with the type `register`. -/
def readRegister (msg : Json ν) : Option (Message ν) := do
  let role ← msg.value "role" getString []
  if role = str "executor" then some (.registerExecutor (arrayMember msg "tools"))
  else if role = str "agent" then some (.registerAgent msg)
  else some .other

/-- A message with the type `tool_call`. -/
def readToolCall (requestId : Str) (msg : Json ν) : Option (Message ν) := do
  let callId ← msg.value "call_id" getString []
  let name ← msg.value "name" getString []
  let arguments ← (msg.member "arguments").elim (some (str "\x7b\x7d")) lib.dump
  some (.toolCall requestId callId name arguments)

/-- A message with the type `tool_result`. -/
def readToolResult (requestId : Str) (msg : Json ν) : Option (Message ν) := do
  let callId ← msg.value "call_id" getString []
  let content ← msg.value "content" getString []
  some (.toolResult requestId callId content)

/-- The text that stands for a member that is not given: the text of `payload`. -/
def payloadText (msg : Json ν) : Option Str :=
  (msg.member "payload").elim (some (str "\x7b\x7d")) lib.dump

/-- `nanos` is the steady clock in nanoseconds. -/
def readAgentCall (nanos : ℤ) (msg : Json ν) : Option (Message ν) := do
  let callId ← msg.value "call_id" getString (str "acall-" ++ str (toString nanos))
  let targetAgentId ← msg.value "target_agent" getString []
  let capability ← msg.value "capability" getString []
  let payload ← payloadText lib msg
  let input ← msg.value "input" getString payload
  let bypassCache ← msg.value "bypass_cache" getBool false
  some (.agentCall callId targetAgentId capability input bypassCache)

/-- A message with the type `agent_result`. -/
def readAgentResult (msg : Json ν) : Option (Message ν) := do
  let callId ← msg.value "call_id" getString []
  let payload ← payloadText lib msg
  let output ← msg.value "output" getString payload
  let confidence ← msg.value "confidence" getDouble (Double.lit (8 / 10))
  some (.agentResult callId output confidence)

/-- A message with the type `cache_invalidate`. -/
def readCacheInvalidate (msg : Json ν) : Option (Message ν) := do
  let key ← msg.value "key" getString []
  let reason ← msg.value "reason" getString []
  let cascading ← msg.value "cascade" getBool true
  some (.cacheInvalidate key reason cascading)

/-- A message with the type `context_expand`. -/
def readContextExpand (msg : Json ν) : Option (Message ν) := do
  let callId ← msg.value "call_id" getString []
  let ref ← msg.value "ref" getString []
  let maxTokens ← msg.value "max_tokens" getInt 4096
  some (.contextExpand callId ref maxTokens.toInt64.toUInt64)

/-- What is read of a text; `none` if reading it throws. -/
def read (nanos : ℤ) (text : Str) : Option (Message ν) :=
  match lib.parse text with
  | none => some .invalidJson
  | some msg => do
      let type ← msg.value "type" getString []
      let requestId ← msg.value "request_id" getString []
      if type = str "chat" then readChat lib requestId msg
      else if type = str "cancel" then some (.cancel requestId)
      else if type = str "ping" then some .ping
      else if type = str "register" then readRegister msg
      else if type = str "tool_call" then readToolCall lib requestId msg
      else if type = str "tool_result" then readToolResult requestId msg
      else if type = str "agent_call" then readAgentCall lib nanos msg
      else if type = str "agent_result" then readAgentResult lib msg
      else if type = str "cache_invalidate" then readCacheInvalidate msg
      else if type = str "context_expand" then readContextExpand msg
      else some .other

end Message

namespace Gateway

open WsChatController (wsSend)

/-- A handler of the agent messages, or one that only sends. -/
def onController (f : WsChatController ν → Outcome (WsChatController ν)) (g : Gateway ν) :
    Outcome (Gateway ν) :=
  (f g.toWsChatController).map fun c => { g with toWsChatController := c }

/-! ## Registering -/

section Register

variable (platform : GatewayPlatform ν)

/-- Store the context of a connection. -/
def setCtx (conn : ConnId) (ctx : SessionCtx) (g : Gateway ν) : Gateway ν :=
  { g with conns := g.conns.insert conn { ctx } }

/-- A schema that is given in full, or that of a map from the names of the parameters to their types. -/
def parameterSchema (p : Json ν) : Json ν :=
  match p.member "type" with
  | some _ => p
  | none =>
      .object (Json.members [
        (str "type", .string (str "object")),
        (str "properties", .object (Json.members (p.items.map fun q =>
          match q.2 with
          | .string type => (q.1, .object [(str "type", .string type)])
          | v => (q.1, v))))])

/-- The text of the parameters of a tool. -/
def parametersText (t : Json ν) : Option Str :=
  match t.member "parameters" with
  | some (.object m) => platform.json.dump (parameterSchema (.object m))
  | _ => some (str "\x7b\x7d")

/-- The name of a tool, which is asked of every element.  Asking a string for a member throws. -/
def toolName (t : Json ν) : Option Str :=
  t.value "name" Json.getString (t.getString.getD [])

/-- Add a tool of an executor. -/
def addTool (conn : ConnId) (sessionId : Str) (t : Json ν) (g : Gateway ν) : Outcome (Gateway ν) :=
  match toolName t with
  | none => .throw g
  | some name =>
      if name = [] then .ok g
      else
        let g := { g with tools := g.tools.insert conn ((g.tools.lookup conn).getD [] ++ [name]) }
        match t.value "description" Json.getString [], parametersText platform t with
        | some description, some parameters =>
            .ok { g with
              toolRegistry := g.toolRegistry.add name description parameters sessionId }
        | _, _ => .throw g

/-- The loop over the tools of a `register` message. -/
def addTools (conn : ConnId) (sessionId : Str) : List (Json ν) → Gateway ν → Outcome (Gateway ν)
  | [], g => .ok g
  | t :: ts, g => (addTool platform conn sessionId t g).andThen (addTools conn sessionId ts)

/-- `register` with the role `executor`. -/
def registerExecutor (conn : ConnId) (ctx : SessionCtx) (tools : List (Json ν)) (g : Gateway ν) :
    Outcome (Gateway ν) :=
  (addTools platform conn ctx.sessionId tools
    (setCtx conn { ctx with role := str "executor" } g)).andThen fun g =>
      let g := { g with executors := g.executors ++ [conn] }
      onController (wsSend platform conn
        (.object (Json.members [
          (str "type", .string (str "registered")),
          (str "role", .string (str "executor")),
          (str "tools", .array (g.toolRegistry.names.map .string))]))) g

variable [Double ν]

/-- A capability in a registration. -/
def readCapability (cap : Json ν) : Option AgentCapability := do
  let name ← cap.value "name" Json.getString []
  let description ← cap.value "description" Json.getString []
  let inputSchemaJson ← cap.value "input_schema" Json.getString (str "\x7b\x7d")
  let outputSchemaJson ← cap.value "output_schema" Json.getString (str "\x7b\x7d")
  let weight ← (cap.member "weight").elim (some 1) Json.getInt
  some { name, description, inputSchemaJson, outputSchemaJson, weight }

/-- The capabilities that are read before one that throws, and whether one does. -/
def readCapabilities : List (Json ν) → List AgentCapability × Bool
  | [] => ([], false)
  | cap :: caps =>
      match readCapability cap with
      | none => ([], true)
      | some ac => (ac :: (readCapabilities caps).1, (readCapabilities caps).2)

/-- `register` with the role `agent`.  If reading the message throws, the context keeps what was read. -/
def registerAgent (conn : ConnId) (ctx : SessionCtx) (msg : Json ν) (now : Clock) (g : Gateway ν) :
    Outcome (Gateway ν) :=
  match msg.value "agent_name" Json.getString (str "agent-" ++ ctx.sessionId) with
  | none => .throw (setCtx conn { ctx with role := str "agent" } g)
  | some agentName =>
      let caps := readCapabilities (Message.arrayMember msg "capabilities")
      if caps.2 then
        .throw (setCtx conn
          { ctx with
            role := str "agent"
            agentName
            capabilities := ctx.capabilities ++ caps.1.filter (·.name ≠ []) } g)
      else
        onController (WsChatController.registerAgent platform conn ctx (some agentName) caps.1 now) g

end Register

/-! ## Tools -/

section Tools

variable (platform : GatewayPlatform ν)

/-- `conn->connected()`. -/
def isConnected (conn : ConnId) (g : Gateway ν) : Bool := (g.conns.lookup conn).any Conn.connected

/-- Drop the executors that are disconnected. -/
def pruneExecutors (g : Gateway ν) : Gateway ν :=
  { g with executors := g.executors.filter fun e => g.isConnected e }

/-- The executors that have the tool, or all if none has it. -/
def executorPool (name : Str) (g : Gateway ν) : List ConnId :=
  let capable := g.executors.filter fun e => ((g.tools.lookup e).getD []).any (· = name)
  if capable = [] then g.executors else capable

/-- The next index into the pool of a tool. -/
def nextIdx (name : Str) (g : Gateway ν) : ℕ := (g.execRrIdx + 1) % (g.executorPool name).length

/-- The executor that a call goes to, if the pool is not empty. -/
def selectExecutor (name : Str) (g : Gateway ν) : Option ConnId :=
  (g.pruneExecutors.executorPool name)[g.pruneExecutors.nextIdx name]?

/-- The key of `pending_tools_`. -/
def toolKey (requestId callId : Str) : Str := requestId ++ str ":" ++ callId

/-- The error for a tool that nobody offers. -/
def noExecutor (requestId : Str) : Json ν :=
  .object (Json.members [
    (str "type", .string (str "error")),
    (str "request_id", .string requestId),
    (str "code", .string (str "no_executor"))])

/-- What an executor is sent for a call. -/
def toolCallJson (requestId callId name : Str) (arguments : Json ν) : Json ν :=
  .object (Json.members [
    (str "type", .string (str "tool_call")),
    (str "request_id", .string requestId),
    (str "call_id", .string callId),
    (str "name", .string name),
    (str "arguments", arguments)])

/-- Register a call under its key. -/
def registerTool (sender : ConnId) (requestId callId : Str) (g : Gateway ν) : Gateway ν :=
  { g with pendingTools := g.pendingTools.insert (toolKey requestId callId) sender }

/-- Send a call to its executor. -/
def forwardTool (executor : ConnId) (requestId callId name arguments : Str) (g : Gateway ν) :
    Outcome (Gateway ν) :=
  match platform.json.parse arguments with
  | none => .throw g
  | some args => onController (wsSend platform executor (toolCallJson requestId callId name args)) g

/-- Forward a tool call to an executor, and note who waits for its result. -/
def routeToolCall (sender : ConnId) (requestId callId name arguments : Str) (g : Gateway ν) :
    Outcome (Gateway ν) :=
  match g.selectExecutor name with
  | none => onController (wsSend platform sender (noExecutor requestId)) g.pruneExecutors
  | some executor =>
      forwardTool platform executor requestId callId name arguments
        (registerTool sender requestId callId
          { g.pruneExecutors with execRrIdx := g.pruneExecutors.nextIdx name })

/-- The error that an executor gets. -/
def toolError (requestId : Str) (code : String) : Json ν :=
  .object (Json.members [
    (str "type", .string (str "error")),
    (str "request_id", .string requestId),
    (str "code", .string (str code))])

/-- Send a result to the client that waits for it. -/
def deliverTool (executor target : ConnId) (requestId callId content : Str) (g : Gateway ν) :
    Outcome (Gateway ν) :=
  if g.isConnected target then
    onController (wsSend platform target
      (.object (Json.members [
        (str "type", .string (str "tool_result")),
        (str "request_id", .string requestId),
        (str "call_id", .string callId),
        (str "content", .string content)]))) g
  else onController (wsSend platform executor (toolError requestId "client_gone")) g

/-- Hand a result to the connection that waits for it. -/
def routeToolResult (executor : ConnId) (requestId callId content : Str) (g : Gateway ν) :
    Outcome (Gateway ν) :=
  match g.pendingTools.lookup (toolKey requestId callId) with
  | none => onController (wsSend platform executor (toolError requestId "no_pending")) g
  | some target =>
      deliverTool platform executor target requestId callId content
        { g with pendingTools := g.pendingTools.erase (toolKey requestId callId) }

/-- `on_tool_call` of a chat: the client gets the call, and so does an executor. -/
def onToolCall (conn : ConnId) (requestId callId name arguments : Str) (g : Gateway ν) :
    Outcome (Gateway ν) :=
  match platform.json.parse arguments with
  | none => .throw g
  | some args =>
      (onController (wsSend platform conn (toolCallJson requestId callId name args)) g).andThen
        (routeToolCall platform conn requestId callId name arguments)

end Tools

/-! ## Messages -/

section Handle

variable (platform : GatewayPlatform ν)

/-- Send an error with some fields. -/
def sendError (conn : ConnId) (fields : List (Str × Json ν)) (g : Gateway ν) : Outcome (Gateway ν) :=
  onController (wsSend platform conn
    (.object (Json.members ((str "type", .string (str "error")) :: fields)))) g

/-- The answers to a chat that its verdict leads to. -/
def processChat (conn : ConnId) (requestId : Str) (verdict : ChatVerdict) (g : Gateway ν) :
    Outcome (Gateway ν) :=
  match verdict with
  | .authFailed err =>
      sendError platform conn [
        (str "request_id", .string requestId),
        (str "code", .string (str "auth_failed")),
        (str "message", .string err)] g
  | .noBackend =>
      sendError platform conn [
        (str "request_id", .string requestId),
        (str "code", .string (str "no_backend")),
        (str "message", .string (str "no available backend"))] g
  | .aborted status body =>
      onController (wsSend platform conn
        (.object (Json.members [
          (str "type", .string (str "abort")),
          (str "request_id", .string requestId),
          (str "status", .int status),
          (str "body", .string body)]))) g
  | .passed =>
      .ok { g with
        activeRequests := g.activeRequests.insert (conn, requestId) false
        chats := g.chats ++ [(conn, requestId)] }

/-- Cancel a chat of a connection. -/
def cancel (conn : ConnId) (requestId : Str) (g : Gateway ν) : Outcome (Gateway ν) :=
  match g.activeRequests.lookup (conn, requestId) with
  | none => .ok g
  | some _ =>
      onController (wsSend platform conn
        (.object (Json.members [
          (str "type", .string (str "cancelled")),
          (str "request_id", .string requestId)])))
        { g with activeRequests := g.activeRequests.insert (conn, requestId) true }

variable [Double ν]

/-- Handle a message of an open connection. -/
def handle (conn : ConnId) (ctx : SessionCtx) (verdict : ChatVerdict) (now : Clock) :
    Message ν → Gateway ν → Outcome (Gateway ν)
  | .invalidJson => sendError platform conn [(str "code", .string (str "invalid_json"))]
  | .chat requestId => processChat platform conn requestId verdict
  | .chatWithoutMessages requestId =>
      sendError platform conn [
        (str "request_id", .string requestId),
        (str "code", .string (str "bad_request")),
        (str "message", .string (str "messages required"))]
  | .cancel requestId => cancel platform conn requestId
  | .ping =>
      onController (wsSend platform conn
        (.object (Json.members [(str "type", .string (str "pong"))])))
  | .registerExecutor tools => registerExecutor platform conn ctx tools
  | .registerAgent msg => registerAgent platform conn ctx msg now
  | .toolCall requestId callId name arguments =>
      routeToolCall platform conn requestId callId name arguments
  | .toolResult requestId callId content => routeToolResult platform conn requestId callId content
  | .agentCall callId targetAgentId capability input bypassCache =>
      onController (WsChatController.routeAgentCall platform conn ctx callId targetAgentId capability
        input bypassCache now)
  | .agentResult callId output confidence =>
      onController (WsChatController.routeAgentResult platform conn ctx callId output confidence now)
  | .cacheInvalidate key reason cascading =>
      onController (WsChatController.handleCacheInvalidate platform conn key reason cascading)
  | .contextExpand callId ref maxTokens =>
      onController (WsChatController.handleContextExpand platform conn callId ref maxTokens)
  | .other => .ok

/-- Read a message, and do what its type asks for. -/
def handleNewMessage (conn : ConnId) (ctx : SessionCtx) (text : Str) (nanos : ℤ)
    (verdict : ChatVerdict) (now : Clock) (g : Gateway ν) : Outcome (Gateway ν) :=
  match Message.read platform.json nanos text with
  | none => .throw g
  | some msg => handle platform conn ctx verdict now msg g

/-- Cancel the chats of a connection. -/
def cancelAll (conn : ConnId) (g : Gateway ν) : Gateway ν :=
  { g with activeRequests := g.activeRequests.mapVal fun k flag => flag || decide (k.1 = conn) }

/-- Take a connection out of the executors. -/
def leaveExecutors (conn : ConnId) (sessionId : Str) (g : Gateway ν) : Gateway ν :=
  { g with
    toolRegistry := g.toolRegistry.removeSource sessionId
    executors := g.executors.filter (· ≠ conn) }

/-- What is left of a connection is cancelled, removed and archived. -/
def handleConnectionClosed (conn : ConnId) (ctx : SessionCtx) (now : Clock) (g : Gateway ν) :
    Outcome (Gateway ν) :=
  let g := cancelAll conn g
  let g := if ctx.role = str "executor" then leaveExecutors conn ctx.sessionId g else g
  onController (WsChatController.handleConnectionClosed platform conn ctx now) g

/-! ## Steps -/

/-- What happens on the connections, and in the streams of the chats. -/
inductive Event where
  | connect (clientIp role : Str) (nanos : ℤ)
  | message (conn : ConnId) (text : Str) (nanos : ℤ) (verdict : ChatVerdict)
  | toolCallOf (chat : ℕ) (callId name arguments : Str)
  | endOf (chat : ℕ)
  | close (conn : ConnId)
  deriving DecidableEq

/-- Handle what comes from an open connection; nothing comes from another one. -/
def fromOpen (conn : ConnId) (f : SessionCtx → Gateway ν → Outcome (Gateway ν)) (g : Gateway ν) :
    Outcome (Gateway ν) :=
  match g.conns.lookup conn with
  | some ⟨ctx, true⟩ => f ctx g
  | _ => .ok g

/-- Handle what the stream of a chat brings. -/
def ofChat (chat : ℕ) (f : ConnId → Str → Gateway ν → Outcome (Gateway ν)) (g : Gateway ν) :
    Outcome (Gateway ν) :=
  match g.chats[chat]? with
  | some (conn, requestId) => f conn requestId g
  | none => .ok g

/-- What an event does. -/
def step (event : Event × Clock) : Gateway ν → Outcome (Gateway ν) :=
  let now := event.2
  match event.1 with
  | .connect clientIp role nanos =>
      onController (WsChatController.handleNewConnection platform clientIp role nanos)
  | .message conn text nanos verdict =>
      fromOpen conn fun ctx => handleNewMessage platform conn ctx text nanos verdict now
  | .toolCallOf chat callId name arguments =>
      ofChat chat fun conn requestId => onToolCall platform conn requestId callId name arguments
  | .endOf chat =>
      ofChat chat fun conn requestId g =>
        .ok { g with activeRequests := g.activeRequests.erase (conn, requestId) }
  | .close conn => fromOpen conn fun ctx => handleConnectionClosed platform conn ctx now

/-- A new process, on the files that it finds. -/
def start (data idx : Option Str) (l3 : L3ArchiveStore) : Gateway ν where
  toWsChatController := WsChatController.start platform data idx l3

/-- The gateway after some events. -/
def run (g : Gateway ν) (events : List (Event × Clock)) : Gateway ν :=
  Outcome.run (step platform) g events

end Handle

end Gateway

end LlmGateway
