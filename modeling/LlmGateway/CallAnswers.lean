import LlmGateway.GatewaySteps

/-!
# Who gets the answer to a call

`answered_by_callee`: agents answer those who called them, in every run in which a call comes under an
identifier that no other client uses at the time, and a result from the session that the call went to.
The gateway makes sure of neither: it keeps calls by the identifier that the client chose, and does not
compare the sender of a result with the session that it forwarded the call to.

`results_go_to_clients`: results of tools go to those who called them, in every run in which no two calls
with different identifiers join to one key.

Both follow from the ledger of the outstanding calls, whose entries are theirs (`Ledger.Owned`).
-/

namespace LlmGateway

variable {ν : Type}

open PendingTable (Op Ledger)
open PendingCall (keeping)

/-- A message of the type. -/
def Json.HasType (type : String) (msg : Json ν) : Prop :=
  (msg.member "type").bind Json.getString = some (str type)

instance (type : String) (msg : Json ν) : Decidable (msg.HasType type) :=
  inferInstanceAs (Decidable (_ = _))

theorem Json.hasType_object_iff {type : String} {fields : List (Str × Json ν)}
    (hfields : (((str "type", Json.string (str type)) :: fields).map Prod.fst).Nodup) (type' : String) :
    (Json.object (Json.members ((str "type", .string (str type)) :: fields))).HasType type' ↔
      str type = str type' := by
  rw [Json.HasType, Json.member_object_members _ hfields, List.lookup_cons_self, Option.bind_some,
    Json.getString, Option.some.injEq]

/-! ## What is sent -/

namespace WsChatController

section Sent

variable (platform : GatewayPlatform ν)

theorem wsSend_sent (conn : ConnId) (msg : Json ν) (g : WsChatController ν) :
    ∃ news, (wsSend platform conn msg g).state.sent = g.sent ++ news ∧ ∀ p ∈ news, p = (conn, msg) := by
  unfold wsSend
  split
  · exact ⟨[], (List.append_nil _).symm, nofun⟩
  · exact ⟨[(conn, msg)], rfl, fun p hp => List.mem_singleton.1 hp⟩

theorem not_hasType_error {fields : List (Str × Json ν)}
    (hfields : (((str "type", Json.string (str "error")) :: fields).map Prod.fst).Nodup) {type : String}
    (htype : str type ≠ str "error") :
    ¬ (Json.object (Json.members ((str "type", .string (str "error")) :: fields))).HasType type :=
  fun h => htype ((Json.hasType_object_iff hfields type).1 h).symm

variable [Double ν]

/-- A result is sent to its caller, under the identifier of the call. -/
theorem deliverResult_sent (caller : ConnId) (callerCtx ctx : SessionCtx) (callId output : Str)
    (confidence : ν) (now : Clock) (g : WsChatController ν) :
    ∃ news, (deliverResult platform caller callerCtx ctx callId output confidence now g).state.sent =
        g.sent ++ news ∧
      ∀ p ∈ news, p.1 = caller ∧ p.2.member "call_id" = some (.string callId) := by
  refine Outcome.state_andThen (fun g' : WsChatController ν => ∃ news, g'.sent = g.sent ++ news ∧
    ∀ p ∈ news, p.1 = caller ∧ p.2.member "call_id" = some (.string callId)) ?_ ?_
  · exact ⟨[], (List.append_nil _).symm, nofun⟩
  · rintro g' ⟨news, hsent, hnews⟩
    dsimp only
    split
    · exact ⟨news, hsent, hnews⟩
    · next outputJson _ =>
      obtain ⟨news', hsent', hnews'⟩ := wsSend_sent platform caller
        (.object (Json.members [
          (str "type", .string (str "agent_result")),
          (str "call_id", .string callId),
          (str "agent_id", .string ctx.agentName),
          (str "output", outputJson),
          (str "confidence", .float confidence),
          (str "cache_status", .string (str "fresh")),
          (str "context_ref", .string (resultEntry platform ctx callId output confidence).fullRef)]))
        { g' with
          cache := g'.cache.appendTurn callerCtx.sessionId
            (resultTurn platform ctx callId output confidence now) }
      refine ⟨news ++ news', ?_, ?_⟩
      · rw [hsent', ← List.append_assoc, ← hsent]
      · intro p hp
        rcases List.mem_append.1 hp with hp | hp
        · exact hnews p hp
        · rw [hnews' p hp]
          exact ⟨rfl, Json.member_object_members _ (by simp only [List.map]; decide) "call_id"⟩

/-- The only result that handling one sends goes to the caller whose entry it takes. -/
theorem routeAgentResult_sent (callee : ConnId) (ctx : SessionCtx) (callId output : Str) (confidence : ν)
    (now : Clock) (g : WsChatController ν) :
    ∃ news, (routeAgentResult platform callee ctx callId output confidence now g).state.sent =
        g.sent ++ news ∧
      ∀ p ∈ news, p.2.HasType "agent_result" →
        g.pendingAgents.lookup callId = some p.1 ∧ p.2.member "call_id" = some (.string callId) := by
  rw [routeAgentResult_eq]
  cases g.pendingAgents.lookup callId with
  | none =>
    obtain ⟨news, hsent, hnews⟩ := wsSend_sent platform callee (noPending callId) g
    refine ⟨news, hsent, fun p hp htype => ?_⟩
    rw [hnews p hp] at htype
    exact absurd htype (not_hasType_error (by simp only [List.map]; decide) (by decide))
  | some caller =>
    dsimp only
    unfold answerCall
    split
    · next callerCtx _ =>
      obtain ⟨news, hsent, hnews⟩ := deliverResult_sent platform caller callerCtx ctx callId output
        confidence now (takeCall callId g)
      refine ⟨news, hsent, fun p hp _ => ?_⟩
      obtain ⟨hcaller, hcallId⟩ := hnews p hp
      exact ⟨by rw [hcaller], hcallId⟩
    · obtain ⟨news, hsent, hnews⟩ := wsSend_sent platform callee _ (takeCall callId g)
      refine ⟨news, hsent, fun p hp htype => ?_⟩
      rw [hnews p hp] at htype
      exact absurd htype (not_hasType_error (by simp only [List.map]; decide) (by decide))

end Sent

end WsChatController

/-! ## Agents -/

namespace Watched

open Gateway (Event received opOf waiting)

section Agents

variable [Double ν] (platform : GatewayPlatform ν)

/-- What is sent in a step. -/
def news (event : Event × Clock) (w : Watched ν) : List (ConnId × Json ν) :=
  (w.step platform event).state.gateway.sent.drop w.gateway.sent.length

/-- The results that a step sends answer outstanding calls of those who get them, and come from the
sessions that these calls went to; and no outstanding call loses its entry. -/
structure AnswersCallers (event : Event × Clock) (w : Watched ν) : Prop where
  answers (conn : ConnId) (ctx : SessionCtx) (callId output : Str) (confidence : ν) :
    received platform event w.gateway = some (conn, ctx, .agentResult callId output confidence) →
    ∀ p ∈ w.news platform event, p.2.HasType "agent_result" →
      p.2.member "call_id" = some (.string callId) ∧
        ∃ call ∈ w.outstanding, call.table = .agents ∧ call.callId = callId ∧ call.caller = p.1 ∧
          call.callee = some conn
  kept : ∀ call ∈ (w.step platform event).state.outstanding, call.table = .agents →
    (w.step platform event).state.gateway.pendingAgents.lookup call.callId = some call.caller

/-- A call is registered under an identifier that no other client has an outstanding call under. -/
def CallsApart (event : Event × Clock) (w : Watched ν) : Prop :=
  match opOf platform event w.gateway with
  | .register call =>
      call.table = .agents → ∀ call' ∈ w.outstanding, call'.table = .agents →
        call'.callId = call.callId → call'.caller = call.caller
  | _ => True

/-- Whoever sends a result for a pending call has got such a call. -/
def ResultsSolicited (event : Event × Clock) (w : Watched ν) : Prop :=
  match received platform event w.gateway with
  | some (conn, _, .agentResult callId _ _) =>
      (w.gateway.pendingAgents.lookup callId).isSome →
        ∃ call ∈ w.outstanding, call.table = .agents ∧ call.callId = callId ∧ call.callee = some conn
  | _ => True

/-- Every outstanding call of an agent has its entry. -/
def AgentsOwned (w : Watched ν) : Prop :=
  w.ledger.Owned keeping PendingCall.caller (·.1 = .agents)

omit [Double ν] in
theorem key_of_agents {call : PendingCall} (h : call.table = .agents) : call.key = (.agents, call.callId) := by
  rw [PendingCall.key, h]

omit [Double ν] in
theorem table_of_key {call : PendingCall} {t : CallTable} (h : call.key.1 = t) : call.table = t := by
  rw [← h, PendingCall.key]
  cases call.table
  · rfl
  · rfl

theorem AgentsOwned.step {event : Event × Clock} {w : Watched ν} (h : w.AgentsOwned)
    (hcalls : w.CallsApart platform event) : (w.step platform event).state.AgentsOwned := by
  rw [AgentsOwned, ledger_step]
  refine Ledger.Owned.step h _ (fun _ _ heq => heq) fun call hop htable call' hcall' hkey => ?_
  have htable := table_of_key htable
  have hkey : call'.key = call.key := hkey
  have htable' : call'.table = .agents := by
    refine table_of_key ?_
    rw [hkey, key_of_agents htable]
  rw [key_of_agents htable, key_of_agents htable', Prod.mk.injEq] at hkey
  rw [CallsApart, hop] at hcalls
  exact hcalls htable call' hcall' htable' hkey.2

omit [Double ν] in
theorem AgentsOwned.entry {w : Watched ν} (h : w.AgentsOwned) {call : PendingCall}
    (hcall : call ∈ w.outstanding) (htable : call.table = .agents) :
    w.gateway.pendingAgents.lookup call.callId = some call.caller := by
  have hkey := key_of_agents htable
  have hentry : w.gateway.waiting call.key = some call.caller :=
    Ledger.Owned.entry h call hcall (congrArg Prod.fst hkey)
  rw [hkey] at hentry
  exact hentry

theorem AgentsOwned.answersCallers {event : Event × Clock} {w : Watched ν} (h : w.AgentsOwned)
    (hcalls : w.CallsApart platform event) (hresults : w.ResultsSolicited platform event) :
    w.AnswersCallers platform event := by
  refine ⟨fun conn ctx callId output confidence hmsg p hp htype => ?_, fun call hcall htable =>
    (h.step platform hcalls).entry hcall htable⟩
  obtain ⟨-, -, verdict, hstep⟩ := Gateway.received_eq_some hmsg
  obtain ⟨new, hsent, hnew⟩ := WsChatController.routeAgentResult_sent platform conn ctx callId output
    confidence event.2 w.gateway.toWsChatController
  have hnews : w.news platform event = new := by
    show (Gateway.step platform event w.gateway).state.sent.drop w.gateway.sent.length = new
    rw [hstep]
    show (WsChatController.routeAgentResult platform conn ctx callId output confidence event.2
      w.gateway.toWsChatController).state.sent.drop _ = new
    rw [hsent, List.drop_left]
  obtain ⟨hcaller, hcallId⟩ := hnew p (hnews ▸ hp) htype
  rw [ResultsSolicited, hmsg] at hresults
  obtain ⟨call, hcall, htable, rfl, hcallee⟩ := hresults (by rw [hcaller]; rfl)
  refine ⟨hcallId, call, hcall, htable, rfl, ?_, hcallee⟩
  rw [h.entry hcall htable, Option.some.injEq] at hcaller
  exact hcaller

/-- In every run in which calls are apart and results solicited, agents answer those who called them. -/
theorem answered_by_callee (data idx : Option Str) (l3 : L3ArchiveStore)
    (events : List (Event × Clock))
    (hcalls : ∀ pre event post, events = pre ++ event :: post →
      (watch platform data idx l3 pre).CallsApart platform event ∧
        (watch platform data idx l3 pre).ResultsSolicited platform event) :
    ∀ pre event post, events = pre ++ event :: post →
      (watch platform data idx l3 pre).AnswersCallers platform event := by
  intro pre event post hevents
  have howned : (watch platform data idx l3 pre).AgentsOwned :=
    Outcome.run_invariant_of (I := AgentsOwned)
      (C := fun w event => w.CallsApart platform event ∧ w.ResultsSolicited platform event)
      (Ledger.Owned.of_nil rfl _ _) (fun w event _ h hC => h.step platform hC.1) hcalls
      ⟨event :: post, hevents.symm⟩
  obtain ⟨hapart, hresults⟩ := hcalls pre event post hevents
  exact howned.answersCallers platform hapart hresults

end Agents

/-! ## An agent, a client and a stranger -/

/-- The registration of an agent that solves. -/
def solverJson : Json ℚ :=
  .object (Json.members [
    (str "type", .string (str "register")),
    (str "role", .string (str "agent")),
    (str "capabilities", .array [.object [(str "name", .string (str "solve"))]])])

/-- A call of the agent. -/
def solveJson : Json ℚ :=
  .object (Json.members [
    (str "type", .string (str "agent_call")),
    (str "call_id", .string (str "c1")),
    (str "capability", .string (str "solve")),
    (str "bypass_cache", .bool true)])

/-- A result for the call. -/
def solvedJson : Json ℚ :=
  .object (Json.members [
    (str "type", .string (str "agent_result")),
    (str "call_id", .string (str "c1"))])

/-- The library as it behaves on the messages of the runs. -/
def solveGateway : GatewayPlatform ℚ where
  hash _ := 0
  localtime _ := ⟨123, 10, 14⟩
  json := JsonLib.on Json.showRat [solverJson, solveJson, solvedJson, .object []]
  evpSha256 _ := Vector.replicate 32 0

/-- A message of a connection. -/
def tells (conn : ConnId) (msg : Json ℚ) : Event × Clock :=
  (.message conn (msg.compact Json.showRat) 0 .passed, ⟨0, 0⟩)

/-- A new connection. -/
def connects (nanos : ℤ) : Event × Clock := (.connect (str "10.0.0.1") [] nanos, ⟨0, 0⟩)

/-- A client asks the agent. -/
def solveAsked : List (Event × Clock) :=
  [connects 1, connects 2, connects 3, tells 1 solverJson, tells 0 solveJson]

/-- The gateway when the call is forwarded. -/
def askedWatched : Watched ℚ := watch solveGateway none none {} solveAsked

theorem askedWatched_outstanding :
    askedWatched.outstanding = [⟨.agents, [], str "c1", 0, some 1⟩] := by
  decide +kernel

/-- The call went to the agent, and a stranger answers it. -/
theorem stranger_answers :
    askedWatched.outstanding = [⟨.agents, [], str "c1", 0, some 1⟩] ∧
      ¬ askedWatched.AnswersCallers solveGateway (tells 2 solvedJson) := by
  have hcalls := askedWatched_outstanding
  refine ⟨hcalls, fun h => ?_⟩
  have hmsg : ∃ ctx, received solveGateway (tells 2 solvedJson) askedWatched.gateway =
      some (2, ctx, .agentResult (str "c1") (str "\x7b\x7d") (8 / 10)) := ⟨_, rfl⟩
  have hnews : (askedWatched.news solveGateway (tells 2 solvedJson)).any
      fun p => decide (p.2.HasType "agent_result") := by decide +kernel
  obtain ⟨ctx, hmsg⟩ := hmsg
  obtain ⟨p, hp, htype⟩ := List.any_eq_true.1 hnews
  obtain ⟨-, call, hcall, -, -, -, hcallee⟩ :=
    h.answers 2 ctx _ _ _ hmsg p hp (of_decide_eq_true htype)
  rw [hcalls, List.mem_singleton] at hcall
  rw [hcall] at hcallee
  cases hcallee

instance (event : Event × Clock) (w : Watched ℚ) : Decidable (w.CallsApart solveGateway event) := by
  unfold CallsApart
  split <;> infer_instance

instance (event : Event × Clock) (w : Watched ℚ) : Decidable (w.ResultsSolicited solveGateway event) := by
  unfold ResultsSolicited
  split <;> infer_instance

/-- The agent answers. -/
theorem answered_by_callee_solved :
    askedWatched.AnswersCallers solveGateway (tells 1 solvedJson) :=
  answered_by_callee solveGateway none none {} (solveAsked ++ [tells 1 solvedJson])
    (Outcome.forall_step_of_take (by decide +kernel)) solveAsked _ [] rfl

/-! ## Tools -/

section Tools

/-- A message that the gateway sends is the news of it. -/
theorem onController_wsSend_sent (platform : GatewayPlatform ν) (conn : ConnId) (msg : Json ν)
    (g : Gateway ν) :
    ∃ new, (Gateway.onController (WsChatController.wsSend platform conn msg) g).state.sent =
      g.sent ++ new ∧ ∀ p ∈ new, p = (conn, msg) :=
  WsChatController.wsSend_sent platform conn msg g.toWsChatController

/-- The only result that handling one sends goes to the client whose entry it takes. -/
theorem routeToolResult_sent (platform : GatewayPlatform ν) (executor : ConnId)
    (requestId callId content : Str) (g : Gateway ν) :
    ∃ new, (Gateway.routeToolResult platform executor requestId callId content g).state.sent =
        g.sent ++ new ∧
      ∀ p ∈ new, p.2.HasType "tool_result" →
        g.pendingTools.lookup (Gateway.toolKey requestId callId) = some p.1 ∧
          p.2.member "request_id" = some (.string requestId) ∧
          p.2.member "call_id" = some (.string callId) := by
  have herror (code : String) (g' : Gateway ν) :
      ∃ new, (Gateway.onController (WsChatController.wsSend platform executor
          (Gateway.toolError requestId code)) g').state.sent = g'.sent ++ new ∧
        ∀ p ∈ new, ¬ p.2.HasType "tool_result" := by
    obtain ⟨new, hsent, hnew⟩ :=
      onController_wsSend_sent platform executor (Gateway.toolError requestId code) g'
    refine ⟨new, hsent, fun p hp => ?_⟩
    rw [hnew p hp]
    exact WsChatController.not_hasType_error (by simp only [List.map]; decide) (by decide)
  unfold Gateway.routeToolResult
  cases hlookup : g.pendingTools.lookup (Gateway.toolKey requestId callId) with
  | none =>
    obtain ⟨new, hsent, hnew⟩ := herror "no_pending" g
    exact ⟨new, hsent, fun p hp htype => absurd htype (hnew p hp)⟩
  | some target =>
    dsimp only
    unfold Gateway.deliverTool
    split_ifs
    · obtain ⟨new, hsent, hnew⟩ := onController_wsSend_sent platform target _ _
      refine ⟨new, hsent, fun p hp _ => ?_⟩
      rw [hnew p hp]
      exact ⟨rfl, Json.member_object_members _ (by simp only [List.map]; decide) "request_id",
        Json.member_object_members _ (by simp only [List.map]; decide) "call_id"⟩
    · obtain ⟨new, hsent, hnew⟩ := herror "client_gone" _
      exact ⟨new, hsent, fun p hp htype => absurd htype (hnew p hp)⟩

variable [Double ν] (platform : GatewayPlatform ν)

/-- The results that a step sends answer outstanding calls of the clients that get them, with the same
identifiers; and no outstanding call loses its entry, or shares it with a different one. -/
structure AnswersClients (event : Event × Clock) (w : Watched ν) : Prop where
  answers (conn : ConnId) (ctx : SessionCtx) (requestId callId content : Str) :
    received platform event w.gateway = some (conn, ctx, .toolResult requestId callId content) →
    ∀ p ∈ w.news platform event, p.2.HasType "tool_result" →
      p.2.member "request_id" = some (.string requestId) ∧
        p.2.member "call_id" = some (.string callId) ∧
        ∃ call ∈ w.outstanding, call.table = .tools ∧ call.requestId = requestId ∧
          call.callId = callId ∧ call.caller = p.1
  kept : ∀ call ∈ (w.step platform event).state.outstanding, call.table = .tools →
    (w.step platform event).state.gateway.pendingTools.lookup
        (Gateway.toolKey call.requestId call.callId) = some call.caller ∧
      ∀ call' ∈ (w.step platform event).state.outstanding, call'.table = .tools →
        Gateway.toolKey call'.requestId call'.callId = Gateway.toolKey call.requestId call.callId →
          call'.caller = call.caller ∧ call'.requestId = call.requestId ∧ call'.callId = call.callId

/-- A call is registered under a key that no different call is outstanding under. -/
def KeysApart (event : Event × Clock) (w : Watched ν) : Prop :=
  match opOf platform event w.gateway with
  | .register call =>
      call.table = .tools → ∀ call' ∈ w.outstanding, call'.table = .tools →
        Gateway.toolKey call'.requestId call'.callId = Gateway.toolKey call.requestId call.callId →
          call'.caller = call.caller ∧ call'.requestId = call.requestId ∧ call'.callId = call.callId
  | _ => True

/-- A result that finds an entry has the identifiers of an outstanding call. -/
def ResultsMatch (event : Event × Clock) (w : Watched ν) : Prop :=
  match received platform event w.gateway with
  | some (_, _, .toolResult requestId callId _) =>
      (w.gateway.pendingTools.lookup (Gateway.toolKey requestId callId)).isSome →
        ∃ call ∈ w.outstanding, call.table = .tools ∧ call.requestId = requestId ∧ call.callId = callId
  | _ => True

/-- The client of a tool call, and its identifiers. -/
def toolOwner (call : PendingCall) : ConnId × Str × Str := (call.caller, call.requestId, call.callId)

/-- Every outstanding call of a tool has its entry. -/
def ToolsOwned (w : Watched ν) : Prop := w.ledger.Owned keeping toolOwner (·.1 = .tools)

omit [Double ν] in
theorem key_of_tools {call : PendingCall} (h : call.table = .tools) :
    call.key = (.tools, Gateway.toolKey call.requestId call.callId) := by
  rw [PendingCall.key, h]

theorem ToolsOwned.step {event : Event × Clock} {w : Watched ν} (h : w.ToolsOwned)
    (hkeys : w.KeysApart platform event) : (w.step platform event).state.ToolsOwned := by
  rw [ToolsOwned, ledger_step]
  refine Ledger.Owned.step h _ (fun _ _ heq => congrArg Prod.fst heq)
    fun call hop htable call' hcall' hkey => ?_
  have htable := table_of_key htable
  have hkey : call'.key = call.key := hkey
  have htable' : call'.table = .tools := by
    refine table_of_key ?_
    rw [hkey, key_of_tools htable]
  rw [key_of_tools htable, key_of_tools htable', Prod.mk.injEq] at hkey
  rw [KeysApart, hop] at hkeys
  obtain ⟨hcaller, hrequest, hcallId⟩ := hkeys htable call' hcall' htable' hkey.2
  rw [toolOwner, toolOwner, hcaller, hrequest, hcallId]

omit [Double ν] in
theorem ToolsOwned.entry {w : Watched ν} (h : w.ToolsOwned) {call : PendingCall}
    (hcall : call ∈ w.outstanding) (htable : call.table = .tools) :
    w.gateway.pendingTools.lookup (Gateway.toolKey call.requestId call.callId) = some call.caller := by
  have hkey := key_of_tools htable
  have hentry : w.gateway.waiting call.key = some call.caller :=
    Ledger.Owned.entry h call hcall (congrArg Prod.fst hkey)
  rw [hkey] at hentry
  exact hentry

omit [Double ν] in
theorem ToolsOwned.apart {w : Watched ν} (h : w.ToolsOwned) {call call' : PendingCall}
    (hcall : call ∈ w.outstanding) (hcall' : call' ∈ w.outstanding) (htable : call.table = .tools)
    (htable' : call'.table = .tools)
    (hkey : Gateway.toolKey call'.requestId call'.callId = Gateway.toolKey call.requestId call.callId) :
    call'.caller = call.caller ∧ call'.requestId = call.requestId ∧ call'.callId = call.callId := by
  have hsame : call'.key = call.key := by rw [key_of_tools htable, key_of_tools htable', hkey]
  have hfst : call'.key.1 = .tools := by rw [key_of_tools htable']
  have howner := Ledger.Owned.apart h call' hcall' call hcall hfst hsame
  simpa [toolOwner] using howner

theorem ToolsOwned.answersClients {event : Event × Clock} {w : Watched ν} (h : w.ToolsOwned)
    (hkeys : w.KeysApart platform event) (hresults : w.ResultsMatch platform event) :
    w.AnswersClients platform event := by
  have hafter := h.step platform hkeys
  refine ⟨fun conn ctx requestId callId content hmsg p hp htype => ?_, fun call hcall htable =>
    ⟨hafter.entry hcall htable, fun call' hcall' htable' hkey =>
      hafter.apart hcall hcall' htable htable' hkey⟩⟩
  obtain ⟨-, -, verdict, hstep⟩ := Gateway.received_eq_some hmsg
  obtain ⟨new, hsent, hnew⟩ := routeToolResult_sent platform conn requestId callId content w.gateway
  have hnews : w.news platform event = new := by
    show (Gateway.step platform event w.gateway).state.sent.drop w.gateway.sent.length = new
    rw [hstep]
    show (Gateway.routeToolResult platform conn requestId callId content w.gateway).state.sent.drop _ =
      new
    rw [hsent, List.drop_left]
  obtain ⟨hclient, hrequest, hcallId⟩ := hnew p (hnews ▸ hp) htype
  rw [ResultsMatch, hmsg] at hresults
  obtain ⟨call, hcall, htable, rfl, rfl⟩ := hresults (by rw [hclient]; rfl)
  refine ⟨hrequest, hcallId, call, hcall, htable, rfl, rfl, ?_⟩
  rw [h.entry hcall htable, Option.some.injEq] at hclient
  exact hclient

/-- In every run in which keys are apart and results match, results of tools go to those who called. -/
theorem results_go_to_clients (data idx : Option Str) (l3 : L3ArchiveStore)
    (events : List (Event × Clock))
    (hkeys : ∀ pre event post, events = pre ++ event :: post →
      (watch platform data idx l3 pre).KeysApart platform event ∧
        (watch platform data idx l3 pre).ResultsMatch platform event) :
    ∀ pre event post, events = pre ++ event :: post →
      (watch platform data idx l3 pre).AnswersClients platform event := by
  intro pre event post hevents
  have howned : (watch platform data idx l3 pre).ToolsOwned :=
    Outcome.run_invariant_of (I := ToolsOwned)
      (C := fun w event => w.KeysApart platform event ∧ w.ResultsMatch platform event)
      (Ledger.Owned.of_nil rfl _ _) (fun w event _ h hC => h.step platform hC.1) hkeys
      ⟨event :: post, hevents.symm⟩
  obtain ⟨hapart, hresults⟩ := hkeys pre event post hevents
  exact howned.answersClients platform hapart hresults

end Tools

/-! ## An executor and two clients -/

/-- The registration of an executor with one tool. -/
def executorJson : Json ℚ :=
  .object (Json.members [
    (str "type", .string (str "register")),
    (str "role", .string (str "executor")),
    (str "tools", .array [.object [(str "name", .string (str "run"))]])])

/-- A call of the tool. -/
def runJson (requestId callId : String) : Json ℚ :=
  .object (Json.members [
    (str "type", .string (str "tool_call")),
    (str "request_id", .string (str requestId)),
    (str "call_id", .string (str callId)),
    (str "name", .string (str "run"))])

/-- A result for a call. -/
def ranJson (requestId callId : String) : Json ℚ :=
  .object (Json.members [
    (str "type", .string (str "tool_result")),
    (str "request_id", .string (str requestId)),
    (str "call_id", .string (str callId)),
    (str "content", .string (str "ok"))])

/-- The library as it behaves on the messages of the runs. -/
def toolGateway : GatewayPlatform ℚ where
  toHost := solveGateway.toHost
  json := JsonLib.on Json.showRat
    [executorJson, runJson "r1" "x:y", runJson "r1:x" "y", ranJson "r1" "x:y", .object []]
  evpSha256 := solveGateway.evpSha256

/-- A client calls the tool. -/
def toolAsked : List (Event × Clock) :=
  [connects 1, connects 2, connects 3, tells 2 executorJson, tells 0 (runJson "r1" "x:y")]

/-- Two clients call the tool, under identifiers that join to one key. -/
def joinedWatched : Watched ℚ :=
  watch toolGateway none none {} (toolAsked ++ [tells 1 (runJson "r1:x" "y")])

/-- The result for the first client goes to the second one. -/
theorem joined_keys_mix_up :
    joinedWatched.outstanding =
        [⟨.tools, str "r1", str "x:y", 0, some 2⟩, ⟨.tools, str "r1:x", str "y", 1, some 2⟩] ∧
      ¬ joinedWatched.AnswersClients toolGateway (tells 2 (ranJson "r1" "x:y")) := by
  have hcalls : joinedWatched.outstanding =
      [⟨.tools, str "r1", str "x:y", 0, some 2⟩, ⟨.tools, str "r1:x", str "y", 1, some 2⟩] := by
    decide +kernel
  refine ⟨hcalls, fun h => ?_⟩
  have hmsg : ∃ ctx, received toolGateway (tells 2 (ranJson "r1" "x:y")) joinedWatched.gateway =
      some (2, ctx, .toolResult (str "r1") (str "x:y") (str "ok")) := ⟨_, rfl⟩
  have hnews : (joinedWatched.news toolGateway (tells 2 (ranJson "r1" "x:y"))).any
      fun p => decide (p.1 = 1 ∧ p.2.HasType "tool_result") := by decide +kernel
  obtain ⟨ctx, hmsg⟩ := hmsg
  obtain ⟨p, hp, hnew⟩ := List.any_eq_true.1 hnews
  obtain ⟨hclient, htype⟩ := of_decide_eq_true hnew
  obtain ⟨-, -, call, hcall, -, hrequest, -, hcaller⟩ := h.answers 2 ctx _ _ _ hmsg p hp htype
  rw [hcalls, List.mem_cons, List.mem_singleton] at hcall
  rcases hcall with rfl | rfl
  · cases hclient.symm.trans hcaller.symm
  · exact absurd hrequest (by decide)

instance (event : Event × Clock) (w : Watched ℚ) : Decidable (w.KeysApart toolGateway event) := by
  unfold KeysApart
  split <;> infer_instance

instance (event : Event × Clock) (w : Watched ℚ) : Decidable (w.ResultsMatch toolGateway event) := by
  unfold ResultsMatch
  split <;> infer_instance

/-- The executor answers a client. -/
theorem results_go_to_clients_ran :
    (watch toolGateway none none {} toolAsked).AnswersClients toolGateway (tells 2 (ranJson "r1" "x:y")) :=
  results_go_to_clients toolGateway none none {} (toolAsked ++ [tells 2 (ranJson "r1" "x:y")])
    (Outcome.forall_step_of_take (by decide +kernel)) toolAsked _ [] rfl

end Watched

end LlmGateway
