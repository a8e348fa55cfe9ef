import LlmGateway.CallAnswers

/-!
# Calls whose peers are gone

The tables of pending calls do not follow the connections: a closed connection leaves the entries in which
it is the caller, or the callee, and sends nothing.  `entries_outlive_peers`: each entry still belongs to a call
that was registered for its caller when there was somewhere to forward it to; it stays until a result or
another call comes with its key, and the first result for a caller that is gone takes the entry and is
answered with an error.
-/

namespace LlmGateway

variable {ν : Type}

open PendingTable (Ledger)
open PendingCall (keeping)

/-! ## Where a call is registered -/

/-- A call goes to an agent of the registry. -/
theorem WsChatController.exists_of_findTarget {targetAgentId capability : Str} {g : WsChatController ν}
    {target : AgentRecord} (h : findTarget targetAgentId capability g = some target) :
    ∃ sessionId, g.registry.agents.lookup sessionId = some target := by
  rcases Option.or_eq_some_iff.1 h with hfind | ⟨-, hroute⟩
  · split_ifs at hfind
    exact ⟨targetAgentId, hfind⟩
  · have hchosen := g.registry.chosen_route capability
    rw [hroute] at hchosen
    obtain ⟨⟨sessionId, -, htarget⟩, -⟩ := hchosen
    exact ⟨sessionId, htarget⟩

namespace Gateway

/-- A tool call goes to an executor that is connected. -/
theorem exists_of_selectExecutor {name : Str} {g : Gateway ν} {executor : ConnId}
    (h : g.selectExecutor name = some executor) : executor ∈ g.executors ∧ g.isConnected executor := by
  have hpool : executor ∈ g.pruneExecutors.executorPool name := List.mem_of_getElem? h
  have hmem : executor ∈ g.pruneExecutors.executors := by
    unfold executorPool at hpool
    dsimp only at hpool
    split_ifs at hpool
    · exact hpool
    · exact (List.mem_filter.1 hpool).1
  exact ⟨(List.mem_filter.1 hmem).1, by simpa using (List.mem_filter.1 hmem).2⟩

/-- There is somewhere to forward the call to: an executor that is connected, or an agent. -/
def CalleeFound (call : PendingCall) (g : Gateway ν) : Prop :=
  match call.table with
  | .tools => ∃ executor ∈ g.executors, g.isConnected executor ∧ ∀ c, call.callee = some c → c = executor
  | .agents => ∃ sessionId record, g.registry.agents.lookup sessionId = some record ∧
      ∀ c, call.callee = some c → g.sessions.lookup record.sessionId = some c

/-- A connection closes in silence. -/
theorem sent_handleConnectionClosed (platform : GatewayPlatform ν) (conn : ConnId)
    (ctx : SessionCtx) (now : Clock) (g : Gateway ν) :
    (handleConnectionClosed platform conn ctx now g).state.sent = g.sent := by
  have hcontroller (g : Gateway ν) : (onController
      (WsChatController.handleConnectionClosed platform conn ctx now) g).state.sent = g.sent := by
    obtain ⟨sessions, registry, cache, -, -, h⟩ := handleConnectionClosed_state platform conn ctx now
      g.toWsChatController
    rw [onController_state h]
  unfold handleConnectionClosed
  dsimp only
  rw [hcontroller]
  split_ifs <;> rfl

section Registered

variable {platform : GatewayPlatform ν} {g : Gateway ν} {call : PendingCall}

theorem calleeFound_of_toolOp {sender : ConnId} {requestId callId name arguments : Str}
    (h : toolOp platform sender requestId callId name arguments g = .register call) :
    CalleeFound call g := by
  unfold toolOp at h
  cases hexecutor : g.selectExecutor name with
  | none =>
    rw [hexecutor] at h
    cases h
  | some executor =>
    rw [hexecutor] at h
    cases h
    obtain ⟨hmem, hconnected⟩ := exists_of_selectExecutor hexecutor
    refine ⟨executor, hmem, hconnected, fun c hc => ?_⟩
    obtain ⟨args, -, hc⟩ := Option.bind_eq_some_iff.1 hc
    split_ifs at hc
    exact (Option.some.inj hc).symm

variable [Double ν]

theorem calleeFound_of_agentOp {caller : ConnId} {ctx : SessionCtx}
    {callId targetAgentId capability input : Str} {bypassCache : Bool} {now : Clock}
    (h : agentOp platform caller ctx callId targetAgentId capability input bypassCache now g =
      .register call) : CalleeFound call g := by
  unfold agentOp at h
  cases htarget : WsChatController.callTarget platform ctx targetAgentId capability input bypassCache now
      g.toWsChatController with
  | none =>
    rw [htarget] at h
    cases h
  | some target =>
    rw [htarget] at h
    cases h
    unfold WsChatController.callTarget at htarget
    split_ifs at htarget
    obtain ⟨sessionId, hrecord⟩ := WsChatController.exists_of_findTarget htarget
    refine ⟨sessionId, target, hrecord, fun c hc => ?_⟩
    obtain ⟨inputJson, -, hc⟩ := Option.bind_eq_some_iff.1 hc
    split_ifs at hc
    exact hc

theorem calleeFound_of_opOf {event : Event × Clock} (h : opOf platform event g = .register call) :
    CalleeFound call g := by
  obtain ⟨event, now⟩ := event
  cases event with
  | message conn text nanos verdict =>
    simp only [opOf] at h
    split at h
    · split at h
      · next msg _ =>
        cases msg with
        | toolCall => exact calleeFound_of_toolOp h
        | agentCall => exact calleeFound_of_agentOp h
        | _ => cases h
      · cases h
    · cases h
  | toolCallOf chat callId name arguments =>
    simp only [opOf] at h
    split at h
    · unfold streamOp at h
      split at h
      · cases h
      · split_ifs at h
        exact calleeFound_of_toolOp h
    · cases h
  | _ => cases h

end Registered

end Gateway

namespace Watched

open Gateway (Event received opOf CalleeFound)

section Runs

variable [Double ν] (platform : GatewayPlatform ν)

/-- The calls that are outstanding in a run were registered by steps of it. -/
theorem registered_of_outstanding (data idx : Option Str) (l3 : L3ArchiveStore)
    (events : List (Event × Clock)) {call : PendingCall}
    (h : call ∈ (watch platform data idx l3 events).outstanding) :
    ∃ pre event post, events = pre ++ event :: post ∧
      opOf platform event (watch platform data idx l3 pre).gateway = .register call := by
  induction events using List.reverseRecOn with
  | nil => cases h
  | append_singleton events event ih =>
      rw [watch, run, Outcome.run_append] at h
      rcases Ledger.mem_settle h with h | h
      · obtain ⟨pre, event', post, hevents, hop⟩ := ih h
        exact ⟨pre, event', post ++ [event], by rw [hevents, List.append_assoc, List.cons_append], hop⟩
      · exact ⟨events, event, [], rfl, h⟩

/-- The error for the sender of a result whose caller is gone. -/
def callerGone (callId : Str) : Json ν :=
  .object (Json.members [
    (str "type", .string (str "error")),
    (str "call_id", .string callId),
    (str "code", .string (str "caller_gone"))])

/-- A result for a caller that is gone takes the entry, and its sender gets an error. -/
structure RefusesGone (event : Event × Clock) (w : Watched ν) : Prop where
  agents (conn : ConnId) (ctx : SessionCtx) (callId output : Str) (confidence : ν) (caller : ConnId) :
    received platform event w.gateway = some (conn, ctx, .agentResult callId output confidence) →
    w.gateway.pendingAgents.lookup callId = some caller → w.gateway.isConnected caller = false →
      (w.step platform event).state.gateway.waiting =
          Function.update w.gateway.waiting (.agents, callId) none ∧
        w.news platform event =
          if (w.step platform event).threw then [] else [(conn, callerGone callId)]
  tools (conn : ConnId) (ctx : SessionCtx) (requestId callId content : Str) (caller : ConnId) :
    received platform event w.gateway = some (conn, ctx, .toolResult requestId callId content) →
    w.gateway.pendingTools.lookup (Gateway.toolKey requestId callId) = some caller →
    w.gateway.isConnected caller = false →
      (w.step platform event).state.gateway.waiting =
          Function.update w.gateway.waiting (.tools, Gateway.toolKey requestId callId) none ∧
        w.news platform event =
          if (w.step platform event).threw then []
          else [(conn, Gateway.toolError requestId "client_gone")]

omit [Double ν] in
theorem wsSend_news (conn : ConnId) (msg : Json ν) (g : WsChatController ν) :
    (WsChatController.wsSend platform conn msg g).state.sent.drop g.sent.length =
      if (WsChatController.wsSend platform conn msg g).threw then [] else [(conn, msg)] := by
  unfold WsChatController.wsSend
  split
  · exact List.drop_length
  · exact List.drop_left

theorem waiting_step {event : Event × Clock} {w : Watched ν} {κ : CallTable × Str}
    (hop : opOf platform event w.gateway = .take κ) :
    (w.step platform event).state.gateway.waiting = Function.update w.gateway.waiting κ none := by
  have hwaiting := (Gateway.effect_step platform event w.gateway).waiting
  rw [hop] at hwaiting
  exact hwaiting

theorem routeAgentResult_gone {callId : Str} {caller : ConnId} {g : Gateway ν}
    (hcaller : g.pendingAgents.lookup callId = some caller) (hgone : g.isConnected caller = false)
    (conn : ConnId) (ctx : SessionCtx) (output : Str) (confidence : ν) (now : Clock) :
    WsChatController.routeAgentResult platform conn ctx callId output confidence now
        g.toWsChatController =
      WsChatController.wsSend platform conn (callerGone callId)
        (WsChatController.takeCall callId g.toWsChatController) := by
  rw [WsChatController.routeAgentResult_eq, hcaller]
  exact WsChatController.answerCall_of_gone platform
    (g := WsChatController.takeCall callId g.toWsChatController) (Gateway.lookup_ne_of_gone hgone) conn
    ctx callId output confidence now

omit [Double ν] in
theorem routeToolResult_gone {requestId callId : Str} {caller : ConnId} {g : Gateway ν}
    (hcaller : g.pendingTools.lookup (Gateway.toolKey requestId callId) = some caller)
    (hgone : g.isConnected caller = false) (conn : ConnId) (content : Str) :
    Gateway.routeToolResult platform conn requestId callId content g =
      Gateway.onController
        (WsChatController.wsSend platform conn (Gateway.toolError requestId "client_gone"))
        { g with pendingTools := g.pendingTools.erase (Gateway.toolKey requestId callId) } := by
  rw [Gateway.routeToolResult, hcaller]
  exact if_neg (by simpa [Gateway.isConnected] using hgone)

theorem refusesGone (event : Event × Clock) (w : Watched ν) : w.RefusesGone platform event := by
  constructor
  · intro conn ctx callId output confidence caller hmsg hcaller hgone
    obtain ⟨-, hop, verdict, hstep⟩ := Gateway.received_eq_some hmsg
    refine ⟨waiting_step platform hop, ?_⟩
    have hnews := wsSend_news platform conn (callerGone callId)
      (WsChatController.takeCall callId w.gateway.toWsChatController)
    rw [← routeAgentResult_gone platform hcaller hgone conn ctx output confidence event.2] at hnews
    show (Gateway.step platform event w.gateway).state.sent.drop w.gateway.sent.length =
      if (Gateway.step platform event w.gateway).threw then [] else [(conn, callerGone callId)]
    rw [hstep]
    exact hnews
  · intro conn ctx requestId callId content caller hmsg hcaller hgone
    obtain ⟨-, hop, verdict, hstep⟩ := Gateway.received_eq_some hmsg
    refine ⟨waiting_step platform hop, ?_⟩
    show (Gateway.step platform event w.gateway).state.sent.drop w.gateway.sent.length =
      if (Gateway.step platform event w.gateway).threw then []
      else [(conn, Gateway.toolError requestId "client_gone")]
    rw [hstep, show Gateway.handle platform conn ctx verdict event.2
      (.toolResult requestId callId content) w.gateway = _ from
        routeToolResult_gone platform hcaller hgone conn content]
    exact wsSend_news platform conn (Gateway.toolError requestId "client_gone")
      w.gateway.toWsChatController

/-- Closing a connection sends nothing. -/
theorem news_close (conn : ConnId) (now : Clock) (w : Watched ν) :
    w.news platform (.close conn, now) = [] := by
  have hsent : (Gateway.step platform (.close conn, now) w.gateway).state.sent = w.gateway.sent := by
    simp only [Gateway.step, Gateway.fromOpen]
    split
    · exact Gateway.sent_handleConnectionClosed platform conn _ now w.gateway
    · rfl
  exact (congrArg (List.drop w.gateway.sent.length) hsent).trans List.drop_length

/-- An entry stays as it is in a step that neither takes it nor registers a call under its key. -/
theorem waiting_step_of_other {event : Event × Clock} {w : Watched ν} {κ : CallTable × Str}
    (htake : opOf platform event w.gateway ≠ .take κ)
    (hregister : ∀ call, opOf platform event w.gateway = .register call → call.key ≠ κ) :
    (w.step platform event).state.gateway.waiting κ = w.gateway.waiting κ := by
  have hwaiting := (Gateway.effect_step platform event w.gateway).waiting
  refine (congrFun hwaiting κ).trans ?_
  cases hop : opOf platform event w.gateway with
  | register call => exact Function.update_of_ne (hregister call hop).symm _ _
  | take k => exact Function.update_of_ne (fun h => htake (by rw [hop, h])) _ _
  | skip => rfl

/-- In every run, each entry belongs to an outstanding call of a caller with a connection object, which a
step of the run registered when it had found a callee.  Closing a connection leaves the entries as they
are and sends nothing; an entry stays until a step takes it or registers another call under its key; and a
result for a caller that is gone takes the entry and is refused. -/
theorem entries_outlive_peers (data idx : Option Str) (l3 : L3ArchiveStore)
    (events : List (Event × Clock)) :
    (∀ κ conn, (watch platform data idx l3 events).gateway.waiting κ = some conn →
      ((watch platform data idx l3 events).gateway.conns.lookup conn).isSome ∧
      ∃ call ∈ (watch platform data idx l3 events).outstanding, call.key = κ ∧ call.caller = conn ∧
        ∃ pre event post, events = pre ++ event :: post ∧
          opOf platform event (watch platform data idx l3 pre).gateway = .register call ∧
          CalleeFound call (watch platform data idx l3 pre).gateway) ∧
      (∀ conn now, ((watch platform data idx l3 events).step platform (.close conn, now)).state.gateway.waiting =
        (watch platform data idx l3 events).gateway.waiting ∧
        (watch platform data idx l3 events).news platform (.close conn, now) = []) ∧
      (∀ event κ, opOf platform event (watch platform data idx l3 events).gateway ≠ .take κ →
        (∀ call, opOf platform event (watch platform data idx l3 events).gateway = .register call →
          call.key ≠ κ) →
        ((watch platform data idx l3 events).step platform event).state.gateway.waiting κ =
          (watch platform data idx l3 events).gateway.waiting κ) ∧
      ∀ event, (watch platform data idx l3 events).RefusesGone platform event := by
  refine ⟨fun κ conn hκ => ?_, fun conn now => ⟨?_, news_close platform conn now _⟩,
    fun event κ => waiting_step_of_other platform, fun event => refusesGone platform event _⟩
  · refine ⟨(connections_watch platform data idx l3 events).waiting κ conn hκ, ?_⟩
    obtain ⟨call, hcall, hkey, hcaller⟩ := backed_watch platform data idx l3 events κ conn hκ
    obtain ⟨pre, event, post, hevents, hop⟩ := registered_of_outstanding platform data idx l3 events hcall
    exact ⟨call, hcall, hkey, hcaller, pre, event, post, hevents, hop, Gateway.calleeFound_of_opOf hop⟩
  · exact (Gateway.effect_step platform (.close conn, now) _).waiting

end Runs

/-! ## A caller and a callee that leave -/

/-- Every entry belongs to a call that was queued to its callee, and both of them are connected. -/
def NoneAbandoned (w : Watched ν) : Prop :=
  ∀ κ conn, w.gateway.waiting κ = some conn → w.gateway.isConnected conn ∧
    ∃ call ∈ w.outstanding, call.key = κ ∧ call.caller = conn ∧
      ∃ callee, call.callee = some callee ∧ w.gateway.isConnected callee

/-- The agent of a call disconnects, and then the client. -/
def leftWatched : Watched ℚ :=
  watch solveGateway none none {} (solveAsked ++ [(.close 1, ⟨0, 0⟩), (.close 0, ⟨0, 0⟩)])

/-- The client still waits for the agent. -/
theorem entry_of_closed_connections :
    leftWatched.gateway.waiting (.agents, str "c1") = some 0 ∧
      leftWatched.gateway.isConnected 0 = false ∧ leftWatched.gateway.isConnected 1 = false ∧
      ¬ leftWatched.NoneAbandoned := by
  have hwaiting : leftWatched.gateway.waiting (.agents, str "c1") = some 0 := by decide +kernel
  have hclient : leftWatched.gateway.isConnected 0 = false := by decide +kernel
  have hagent : leftWatched.gateway.isConnected 1 = false := by decide +kernel
  refine ⟨hwaiting, hclient, hagent, fun h => ?_⟩
  have hconnected := (h _ _ hwaiting).1
  rw [hclient] at hconnected
  cases hconnected

end Watched

end LlmGateway
