import LlmGateway.AbandonedCalls
import LlmGateway.ClosedSessions

/-!
# The load that the agent router sees

`Watched.load_seen_iff`: all along a run the records of the agents count the calls that are in progress, and
the router picks an agent with the fewest, exactly if no call is forwarded to an agent in the run.  A record
starts with no active calls, and nothing counts the calls that its agent gets afterwards.
-/

namespace LlmGateway

variable {ν : Type}

open InverseIndex (listAt Exact)
open PendingTable (Op Ledger)

/-! ## Records without active calls -/

namespace AgentRegistry

/-- The records are those of their sessions, and none counts a call. -/
def Idle (s : AgentRegistry) : Prop :=
  ∀ sessionId record, s.agents.lookup sessionId = some record →
    record.sessionId = sessionId ∧ record.activeCalls = 0

theorem idle_empty : Idle {} := by
  intro sessionId record h
  cases h

theorem Idle.registerAgent {s : AgentRegistry} (h : s.Idle) {sessionId : Str} {record : AgentRecord}
    (hid : record.sessionId = sessionId) (hcalls : record.activeCalls = 0) :
    (s.registerAgent sessionId record).Idle :=
  AList.forall_lookup_insert h ⟨hid, hcalls⟩

theorem Idle.unregisterAgent {s : AgentRegistry} (h : s.Idle) (sessionId : Str) :
    (s.unregisterAgent sessionId).Idle := by
  unfold AgentRegistry.unregisterAgent
  split
  · exact h
  · exact AList.forall_lookup_erase h sessionId

end AgentRegistry

namespace Gateway

open WsChatController (wsSend)

section Registry

/-- What changes a table leaves the registry as it is. -/
theorem Effect.registry_eq {g g' : Gateway ν} {op : Op (CallTable × Str) PendingCall}
    (h : Effect g op g') (hop : op ≠ .skip) : g'.registry = g.registry := by
  cases h with
  | toolCall => rfl
  | agentCall => rfl
  | toolResult => rfl
  | agentResult => rfl
  | _ => exact absurd rfl hop

variable (platform : GatewayPlatform ν)

theorem registry_send (conn : ConnId) (msg : Json ν) (g : Gateway ν) :
    (onController (wsSend platform conn msg) g).state.registry = g.registry := by
  obtain ⟨sent, hsent⟩ := wsSend_state platform conn msg g
  rw [hsent]

theorem registry_registerExecutor (conn : ConnId) (ctx : SessionCtx) (tools : List (Json ν))
    (g : Gateway ν) : (registerExecutor platform conn ctx tools g).state.registry = g.registry := by
  obtain ⟨tools', toolRegistry, h⟩ := addTools_state platform conn ctx.sessionId tools
    (setCtx conn { ctx with role := str "executor" } g)
  refine Outcome.state_andThen (fun g' : Gateway ν => g'.registry = g.registry) ?_ fun g' hg' => ?_
  · rw [h]
    rfl
  · exact (registry_send platform conn _ _).trans hg'

theorem registry_routeToolCall (sender : ConnId) (requestId callId name arguments : Str) (g : Gateway ν) :
    (routeToolCall platform sender requestId callId name arguments g).state.registry = g.registry := by
  unfold routeToolCall
  split
  · exact registry_send platform sender _ g.pruneExecutors
  · obtain ⟨sent, hsent⟩ := forwardTool_state platform _ requestId callId name arguments
      (registerTool sender requestId callId
        { g.pruneExecutors with execRrIdx := g.pruneExecutors.nextIdx name })
    rw [hsent]
    rfl

theorem registry_onToolCall (conn : ConnId) (requestId callId name arguments : Str) (g : Gateway ν) :
    (onToolCall platform conn requestId callId name arguments g).state.registry = g.registry := by
  unfold onToolCall
  split
  · rfl
  · refine Outcome.state_andThen (fun g' : Gateway ν => g'.registry = g.registry) ?_ fun g' hg' => ?_
    · exact registry_send platform conn _ g
    · exact (registry_routeToolCall platform conn requestId callId name arguments g').trans hg'

theorem registry_close (conn : ConnId) (ctx : SessionCtx) (now : Clock) (g : Gateway ν) :
    (handleConnectionClosed platform conn ctx now g).state.registry = g.registry ∨
      (handleConnectionClosed platform conn ctx now g).state.registry =
        g.registry.unregisterAgent ctx.sessionId := by
  unfold handleConnectionClosed
  dsimp only
  split_ifs
  · obtain ⟨sessions, registry, cache, -, hregistry, h⟩ := handleConnectionClosed_state platform conn ctx
      now (leaveExecutors conn ctx.sessionId (cancelAll conn g)).toWsChatController
    rw [onController_state h]
    exact hregistry
  · obtain ⟨sessions, registry, cache, -, hregistry, h⟩ := handleConnectionClosed_state platform conn ctx
      now (cancelAll conn g).toWsChatController
    rw [onController_state h]
    exact hregistry

variable [Double ν]

theorem registry_routeAgentCall (caller : ConnId) (ctx : SessionCtx)
    (callId targetAgentId capability input : Str) (bypassCache : Bool) (now : Clock) (g : Gateway ν) :
    (onController (WsChatController.routeAgentCall platform caller ctx callId targetAgentId capability
      input bypassCache now) g).state.registry = g.registry := by
  cases htarget : WsChatController.callTarget platform ctx targetAgentId capability input bypassCache now
      g.toWsChatController with
  | none =>
    obtain ⟨cache, sent, h⟩ := WsChatController.routeAgentCall_of_none platform htarget caller callId
    rw [onController_state h]
  | some target =>
    obtain ⟨cache, h⟩ := WsChatController.routeAgentCall_of_some platform htarget caller callId
    obtain ⟨sent, hsent⟩ := WsChatController.sendCall_state platform ctx callId capability input target
      (WsChatController.registerCall caller callId { g.toWsChatController with cache })
    rw [← h] at hsent
    rw [onController_state hsent]
    rfl

/-- A message leaves the registry as it is, unless it registers an agent, whose record then has no calls. -/
theorem registry_handle (conn : ConnId) (ctx : SessionCtx) (verdict : ChatVerdict) (now : Clock)
    (msg : Message ν) (g : Gateway ν) :
    (handle platform conn ctx verdict now msg g).state.registry = g.registry ∨
      ∃ record : AgentRecord, record.sessionId = ctx.sessionId ∧ record.activeCalls = 0 ∧
        (handle platform conn ctx verdict now msg g).state.registry =
          g.registry.registerAgent ctx.sessionId record := by
  cases msg with
  | registerAgent msg =>
    show (registerAgent platform conn ctx msg now g).state.registry = _ ∨ ∃ record : AgentRecord,
      _ ∧ _ ∧ (registerAgent platform conn ctx msg now g).state.registry = _
    unfold registerAgent
    split
    · exact Or.inl rfl
    · next agentName _ =>
      dsimp only
      split_ifs
      · exact Or.inl rfl
      · obtain ⟨sent, hsent⟩ := WsChatController.registerAgent_state platform conn ctx (some agentName)
          (readCapabilities (Message.arrayMember msg "capabilities")).1 now g.toWsChatController
        rw [onController_state hsent]
        exact Or.inr ⟨_, rfl, rfl, rfl⟩
  | chat requestId =>
    cases verdict with
    | passed => exact Or.inl rfl
    | _ => exact Or.inl (registry_send platform conn _ g)
  | cancel requestId =>
    refine Or.inl ?_
    show (cancel platform conn requestId g).state.registry = _
    unfold cancel
    split
    · rfl
    · exact registry_send platform conn _ _
  | registerExecutor tools => exact Or.inl (registry_registerExecutor platform conn ctx tools g)
  | toolCall requestId callId name arguments =>
    exact Or.inl (registry_routeToolCall platform conn requestId callId name arguments g)
  | toolResult requestId callId content =>
    exact Or.inl ((effect_toolResult platform conn requestId callId content g).registry_eq
      fun hop => by cases hop)
  | agentCall callId targetAgentId capability input bypassCache =>
    exact Or.inl (registry_routeAgentCall platform conn ctx callId targetAgentId capability input
      bypassCache now g)
  | agentResult callId output confidence =>
    exact Or.inl ((effect_agentResult platform conn ctx callId output confidence now g).registry_eq
      fun hop => by cases hop)
  | cacheInvalidate key reason cascading =>
    obtain ⟨cache, sent, h⟩ := WsChatController.handleCacheInvalidate_state platform conn key reason
      cascading g.toWsChatController
    refine Or.inl ?_
    show (onController (WsChatController.handleCacheInvalidate platform conn key reason cascading)
      g).state.registry = _
    rw [onController_state h]
  | other => exact Or.inl rfl
  | _ => exact Or.inl (registry_send platform conn _ g)

variable {platform} in
/-- No step lets a record count a call. -/
theorem idle_step {g : Gateway ν} (h : g.registry.Idle) (event : Event × Clock) :
    (step platform event g).state.registry.Idle := by
  obtain ⟨event, now⟩ := event
  cases event with
  | connect clientIp role nanos =>
    obtain ⟨sent, hsent⟩ := WsChatController.handleNewConnection_state platform clientIp role nanos
      g.toWsChatController
    show (onController (WsChatController.handleNewConnection platform clientIp role nanos)
      g).state.registry.Idle
    rw [onController_state hsent]
    exact h
  | message conn text nanos verdict =>
    simp only [step, fromOpen_eq]
    cases g.openCtx conn with
    | none => exact h
    | some ctx =>
      dsimp only
      unfold handleNewMessage
      cases Message.read platform.json nanos text with
      | none => exact h
      | some msg =>
        dsimp only
        rcases registry_handle platform conn ctx verdict now msg g with hsame | ⟨record, hid, hcalls, hnew⟩
        · exact hsame ▸ h
        · exact hnew ▸ h.registerAgent hid hcalls
  | toolCallOf chat callId name arguments =>
    simp only [step, ofChat]
    cases g.chats[chat]? with
    | none => exact h
    | some p => exact registry_onToolCall platform p.1 p.2 callId name arguments g ▸ h
  | endOf chat =>
    simp only [step, ofChat]
    cases g.chats[chat]? with
    | none => exact h
    | some p => exact h
  | close conn =>
    simp only [step, fromOpen_eq]
    cases hopen : g.openCtx conn with
    | none => exact h
    | some ctx =>
      dsimp only
      rcases registry_close platform conn ctx now g with hsame | hgone
      · exact hsame ▸ h
      · exact hgone ▸ h.unregisterAgent ctx.sessionId

end Registry

end Gateway

/-! ## The load of an agent -/

namespace AgentRegistry

/-- The session has a healthy record with the capability. -/
def Serves (s : AgentRegistry) (capability sessionId : Str) : Prop :=
  ∃ record, s.agents.lookup sessionId = some record ∧ record.healthy = true ∧
    capability ∈ record.capabilities.map AgentCapability.name

end AgentRegistry

namespace Watched

open Gateway (Event Tidy opOf)
open PendingCall (keeping)

/-- The call that an entry of `pending_agents_` belongs to: the last one under its identifier. -/
def callUnder (callId : Str) (w : Watched ν) : Option PendingCall :=
  (w.outstanding.filter fun call => call.table = .agents ∧ call.callId = callId).getLast?

/-- The calls of the agents that are pending. -/
def pendingCalls (w : Watched ν) : List PendingCall :=
  w.gateway.pendingAgents.keys.filterMap fun callId => w.callUnder callId

/-- Whether a call was forwarded to the agent of a session. -/
def forwardedTo (sessionId : Str) (w : Watched ν) (call : PendingCall) : Bool :=
  call.callee.any fun conn => (w.gateway.conns.lookup conn).any fun c => c.ctx.sessionId = sessionId

/-- The number of pending calls that were forwarded to the agent of a session. -/
def load (sessionId : Str) (w : Watched ν) : ℕ := w.pendingCalls.countP (w.forwardedTo sessionId)

/-- A route goes to a healthy agent with the capability that has the fewest calls in progress, if there
is a healthy one with it. -/
def LeastLoaded (capability : Str) (w : Watched ν) : Option AgentRecord → Prop
  | none => ∀ sessionId, ¬ w.gateway.registry.Serves capability sessionId
  | some target =>
      w.gateway.registry.agents.lookup target.sessionId = some target ∧
        w.gateway.registry.Serves capability target.sessionId ∧
        ∀ sessionId, w.gateway.registry.Serves capability sessionId →
          w.load target.sessionId ≤ w.load sessionId

/-- The records count the calls in progress, and the routes go by them. -/
structure LoadSeen (w : Watched ν) : Prop where
  counted : ∀ sessionId record, w.gateway.registry.agents.lookup sessionId = some record →
    record.activeCalls.toInt = w.load sessionId
  routed : ∀ capability, w.LeastLoaded capability (w.gateway.registry.route capability)

/-- If the records count the calls, then the routes go to those with the fewest. -/
theorem leastLoaded_of_counted {w : Watched ν} (htidy : Tidy w.gateway)
    (hids : ∀ sessionId record, w.gateway.registry.agents.lookup sessionId = some record →
      record.sessionId = sessionId)
    (hcounted : ∀ sessionId record, w.gateway.registry.agents.lookup sessionId = some record →
      record.activeCalls.toInt = w.load sessionId) (capability : Str) :
    w.LeastLoaded capability (w.gateway.registry.route capability) := by
  have hchosen := w.gateway.registry.chosen_route capability
  have hlisted (sessionId : Str) := (htidy.index capability).1 sessionId
  cases hroute : w.gateway.registry.route capability with
  | none =>
    rintro sessionId ⟨record, hrecord, hhealthy, hcap⟩
    rw [hroute] at hchosen
    rw [hchosen sessionId ((hlisted sessionId).2 ⟨record, hrecord, hcap⟩) record hrecord] at hhealthy
    cases hhealthy
  | some target =>
    rw [hroute] at hchosen
    obtain ⟨⟨sessionId, hlist, htarget⟩, hhealthy, hle⟩ := hchosen
    obtain rfl := hids sessionId target htarget
    obtain ⟨record, hrecord, hcap⟩ := (hlisted _).1 hlist
    obtain rfl : target = record := Option.some.inj (htarget.symm.trans hrecord)
    refine ⟨htarget, ⟨target, htarget, hhealthy, hcap⟩, ?_⟩
    rintro other ⟨record, hrecord, hup, hother⟩
    have hfewer := hle other ((hlisted other).2 ⟨record, hrecord, hother⟩) record hrecord hup
    rw [hcounted _ _ htarget, hcounted _ _ hrecord] at hfewer
    exact_mod_cast hfewer

/-! ## Runs -/

section Runs

variable [Double ν] (platform : GatewayPlatform ν)

/-- A step forwards no call to an agent. -/
def ForwardsNone (event : Event × Clock) (w : Watched ν) : Prop :=
  match opOf platform event w.gateway with
  | .register call => call.table = .agents → call.callee = none
  | _ => True

/-- No record counts a call, and no agent has got one. -/
structure Unloaded (w : Watched ν) : Prop where
  tidy : Tidy w.gateway
  idle : w.gateway.registry.Idle
  calls : ∀ call ∈ w.outstanding, call.table = .agents → call.callee = none

omit [Double ν] in
theorem mem_of_callUnder {callId : Str} {w : Watched ν} {call : PendingCall}
    (h : w.callUnder callId = some call) : call ∈ w.outstanding ∧ call.table = .agents := by
  obtain ⟨hmem, hcall⟩ := List.mem_filter.1 (List.mem_of_getLast? h)
  exact ⟨hmem, (of_decide_eq_true hcall).1⟩

omit [Double ν] in
theorem Unloaded.loadSeen {w : Watched ν} (h : w.Unloaded) : w.LoadSeen := by
  have hload (sessionId : Str) : w.load sessionId = 0 := by
    refine List.countP_eq_zero.2 fun call hcall => ?_
    obtain ⟨callId, -, hunder⟩ := List.mem_filterMap.1 hcall
    obtain ⟨hmem, htable⟩ := mem_of_callUnder hunder
    rw [forwardedTo, h.calls call hmem htable]
    exact Bool.false_ne_true
  have hcounted (sessionId : Str) (record : AgentRecord)
      (hrecord : w.gateway.registry.agents.lookup sessionId = some record) :
      record.activeCalls.toInt = w.load sessionId := by
    rw [hload, (h.idle sessionId record hrecord).2]
    rfl
  exact ⟨hcounted, leastLoaded_of_counted h.tidy (fun sessionId record hrecord =>
    (h.idle sessionId record hrecord).1) hcounted⟩

variable {platform}

theorem Unloaded.step {w : Watched ν} (h : w.Unloaded) {event : Event × Clock}
    (hforwards : w.ForwardsNone platform event) : (w.step platform event).state.Unloaded := by
  refine ⟨h.tidy.effect (Gateway.effect_step platform event w.gateway), Gateway.idle_step h.idle event,
    fun call hcall htable => ?_⟩
  rcases Ledger.mem_settle hcall with hold | hop
  · exact h.calls call hold htable
  · rw [ForwardsNone, hop] at hforwards
    exact hforwards htable

/-- An agent that a call was just forwarded to has a call in progress. -/
theorem load_pos {event : Event × Clock} {w : Watched ν} (htidy : Tidy w.gateway) {call : PendingCall}
    (hop : opOf platform event w.gateway = .register call) (htable : call.table = .agents)
    {conn : ConnId} (hcallee : call.callee = some conn) {sessionId : Str}
    (hsession : w.gateway.sessions.lookup sessionId = some conn) :
    0 < (w.step platform event).state.load sessionId := by
  obtain ⟨c, hc, hid⟩ := htidy.sessions sessionId conn hsession
  have heffect := Gateway.effect_step platform event w.gateway
  have hstate : (w.step platform event).state =
      ⟨(Gateway.step platform event w.gateway).state, w.outstanding ++ [call]⟩ := by
    show (⟨_, w.ledger.settle keeping (opOf platform event w.gateway)⟩ : Watched ν) = _
    rw [hop]
    rfl
  rw [hop] at heffect
  rw [hstate]
  generalize (Gateway.step platform event w.gateway).state = g' at heffect ⊢
  refine List.countP_pos_iff.2 ⟨call, List.mem_filterMap.2 ⟨call.callId, ?_, ?_⟩, ?_⟩
  · cases heffect with
    | toolCall _ htools =>
      cases htools.symm.trans htable
    | agentCall => exact AList.mem_keys.2 ((AList.mem_insert _).2 (Or.inl rfl))
  · unfold callUnder
    dsimp only
    have hlast : [call].filter (fun call' => call'.table = .agents ∧ call'.callId = call.callId) = [call] := by
      simp [htable]
    rw [List.filter_append, hlast, List.getLast?_concat]
  · have hconns : g'.conns = w.gateway.conns := by
      cases heffect with
      | toolCall => rfl
      | agentCall => rfl
    rw [forwardedTo, hcallee]
    dsimp only [Option.any_some]
    rw [hconns, hc]
    exact decide_eq_true hid

theorem Unloaded.forwardsNone {w : Watched ν} (h : w.Unloaded) {event : Event × Clock}
    (hafter : (w.step platform event).state.LoadSeen) : w.ForwardsNone platform event := by
  unfold ForwardsNone
  split
  · next call hop =>
    intro htable
    cases hcallee : call.callee with
    | none => rfl
    | some conn =>
      have hfound := Gateway.calleeFound_of_opOf hop
      rw [Gateway.CalleeFound, htable] at hfound
      obtain ⟨sessionId, target, hrecord, hsession⟩ := hfound
      obtain ⟨rfl, hidle⟩ := h.idle sessionId target hrecord
      have hpos := load_pos h.tidy hop htable hcallee (hsession conn hcallee)
      -- the record still counts no call
      have hregistry : (w.step platform event).state.gateway.registry = w.gateway.registry :=
        (Gateway.effect_step platform event w.gateway).registry_eq fun hskip => by
          rw [hop] at hskip
          cases hskip
      have hcounted := hafter.counted target.sessionId target (by rw [hregistry]; exact hrecord)
      rw [hidle] at hcounted
      have hzero : ((0 : Int32).toInt) = 0 := rfl
      omega
  · trivial

variable (platform) in
theorem unloaded_start (data idx : Option Str) (l3 : L3ArchiveStore) :
    Unloaded { gateway := Gateway.start platform data idx l3 } :=
  ⟨Gateway.tidy_run platform data idx l3 [], AgentRegistry.idle_empty,
    fun _ hcall => absurd hcall List.not_mem_nil⟩

variable (platform) in
/-- All along a run the records count the calls in progress and the routes go to the agents with the fewest,
exactly if no step forwards a call to an agent. -/
theorem load_seen_iff (data idx : Option Str) (l3 : L3ArchiveStore) (events : List (Event × Clock)) :
    (∀ pre, pre <+: events → (watch platform data idx l3 pre).LoadSeen) ↔
      ∀ pre event post, events = pre ++ event :: post →
        (watch platform data idx l3 pre).ForwardsNone platform event :=
  Outcome.run_holds_iff (I := Unloaded) (P := LoadSeen)
    (C := fun w event => w.ForwardsNone platform event) (fun _ h => h.loadSeen)
    (unloaded_start platform data idx l3) (fun _ _ _ h hC => h.step hC)
    (fun _ _ _ h hafter => h.forwardsNone hafter)

end Runs

/-! ## Two agents, one of them busy -/

/-- A client asks, while two agents offer what it asks for. -/
def busyWatched : Watched ℚ :=
  watch solveGateway none none {}
    [connects 1, connects 2, connects 3, tells 1 solverJson, tells 2 solverJson, tells 0 solveJson]

/-- The next call goes to the agent that has got the first one, though the other one has none. -/
theorem busy_agent_chosen :
    busyWatched.gateway.registry.Serves (str "solve") (str "3-2") ∧ busyWatched.load (str "3-2") = 0 ∧
      (busyWatched.gateway.registry.route (str "solve")).map AgentRecord.sessionId = some (str "2-1") ∧
      busyWatched.load (str "2-1") = 1 ∧ ¬ busyWatched.LoadSeen := by
  have hserves : busyWatched.gateway.registry.Serves (str "solve") (str "3-2") :=
    ⟨_, rfl, by decide +kernel, by decide +kernel⟩
  have hidle : busyWatched.load (str "3-2") = 0 := by decide +kernel
  have hroute : (busyWatched.gateway.registry.route (str "solve")).map AgentRecord.sessionId =
      some (str "2-1") := by decide +kernel
  have hbusy : busyWatched.load (str "2-1") = 1 := by decide +kernel
  refine ⟨hserves, hidle, hroute, hbusy, fun h => ?_⟩
  obtain ⟨target, htarget, hid⟩ := Option.map_eq_some_iff.1 hroute
  have hleast := h.routed (str "solve")
  rw [htarget] at hleast
  have hle := hleast.2.2 (str "3-2") hserves
  rw [hid, hbusy, hidle] at hle
  omega

end Watched

end LlmGateway
