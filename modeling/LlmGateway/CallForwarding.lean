import LlmGateway.CallAnswers

/-!
# Calls that are registered and not forwarded

A step that makes a call should register it exactly if it queues the call to a callee, and leave the tables
as they are if it throws (`Gateway.RegistersQueued`).  The calls of a stream are parsed before they are
registered.  A call of an agent is registered before its input is parsed, and before the session of the
agent is looked up: `registersQueued_iff`.
-/

namespace LlmGateway

variable {ν : Type}

open PendingTable (Op)

/-- A call of an agent or a tool. -/
def Json.IsCall (msg : Json ν) : Prop := msg.HasType "agent_call" ∨ msg.HasType "tool_call"

instance (msg : Json ν) : Decidable msg.IsCall := inferInstanceAs (Decidable (_ ∨ _))

theorem Json.not_isCall_object {type : String} {fields : List (Str × Json ν)}
    (hfields : (((str "type", Json.string (str type)) :: fields).map Prod.fst).Nodup)
    (htype : str type ≠ str "agent_call" ∧ str type ≠ str "tool_call") :
    ¬ (Json.object (Json.members ((str "type", .string (str type)) :: fields))).IsCall := by
  rintro (h | h)
  · exact htype.1 ((hasType_object_iff hfields _).1 h)
  · exact htype.2 ((hasType_object_iff hfields _).1 h)

theorem Json.value_type {type : String} {msg : Json ν} (h : msg.HasType type) :
    msg.value "type" Json.getString [] = some (str type) := by
  unfold Json.HasType Json.member at h
  cases msg with
  | object m =>
    dsimp only at h
    unfold Json.value
    dsimp only
    cases hm : m.lookup (str "type") with
    | none =>
      rw [hm] at h
      cases h
    | some v =>
      rw [hm] at h
      exact h
  | _ => cases h

/-! ## What a handler forwards -/

namespace WsChatController

section Forwarded

variable (platform : GatewayPlatform ν)

/-- The handler returned, and the last message that it queued is a call.  The client of a chat gets its
copy of the call before that. -/
def Forwarded (n : ℕ) (o : Outcome (WsChatController ν)) : Prop :=
  o.threw = false ∧ ∃ p, (o.state.sent.drop n).getLast? = some p ∧ p.2.IsCall

theorem not_forwarded_throw (n : ℕ) (g : WsChatController ν) : ¬ Forwarded n (.throw g) := by
  rintro ⟨hthrew, -⟩
  cases hthrew

theorem not_forwarded_ok (g : WsChatController ν) : ¬ Forwarded g.sent.length (.ok g) := by
  rintro ⟨-, p, hp, -⟩
  rw [Outcome.ok_state, List.drop_length] at hp
  cases hp

theorem forwarded_wsSend {n : ℕ} {g : WsChatController ν} (hn : n ≤ g.sent.length) (conn : ConnId)
    (msg : Json ν) :
    Forwarded n (wsSend platform conn msg g) ↔ (platform.json.dump msg).isSome ∧ msg.IsCall := by
  unfold wsSend
  cases platform.json.dump msg with
  | none => exact iff_of_false (not_forwarded_throw n g) fun h => Bool.noConfusion h.1
  | some text =>
    have hlast : ((g.sent ++ [(conn, msg)]).drop n).getLast? = some (conn, msg) := by
      rw [List.drop_append_of_le_length hn, List.getLast?_concat]
    constructor
    · rintro ⟨-, p, hp, hcall⟩
      obtain rfl : (conn, msg) = p := Option.some.inj (hlast.symm.trans hp)
      exact ⟨rfl, hcall⟩
    · exact fun h => ⟨rfl, _, hlast, h.2⟩

theorem isCall_agentCallJson (callId callerSession capability : Str) (input : Json ν) :
    (agentCallJson callId callerSession capability input).IsCall :=
  Or.inl ((Json.hasType_object_iff (by simp only [List.map]; decide) _).2 rfl)

theorem not_isCall_noAgent (callId capability : Str) : ¬ (noAgent callId capability : Json ν).IsCall :=
  Json.not_isCall_object (by simp only [List.map]; decide) (by decide)

theorem not_isCall_cachedReply (callId : Str) (hit : CacheCoordinator.QueryResult ν) :
    ¬ (cachedReply callId hit).IsCall :=
  Json.not_isCall_object (by simp only [List.map]; decide) (by decide)

/-- The message for an agent can be built, and the agent's session is there. -/
structure CanSend (ctx : SessionCtx) (callId capability input : Str) (target : AgentRecord)
    (g : WsChatController ν) : Prop where
  built : ∃ inputJson, platform.json.parse (payloadOr input) = some inputJson ∧
    (platform.json.dump (agentCallJson callId ctx.sessionId capability inputJson)).isSome
  session : (g.sessions.lookup target.sessionId).isSome

theorem isSome_calleeOf_iff {ctx : SessionCtx} {callId capability input : Str} {target : AgentRecord}
    {g : WsChatController ν} :
    (calleeOf platform ctx callId capability input target g).isSome ↔
      CanSend platform ctx callId capability input target g := by
  unfold calleeOf
  cases hparse : platform.json.parse (payloadOr input) with
  | none =>
    refine iff_of_false nofun fun h => ?_
    obtain ⟨inputJson, hinput, -⟩ := h.built
    cases hparse.symm.trans hinput
  | some inputJson =>
    rw [Option.bind_some]
    split_ifs with hdump
    · exact ⟨fun h => ⟨⟨inputJson, hparse, hdump⟩, h⟩, CanSend.session⟩
    · refine iff_of_false nofun fun h => ?_
      obtain ⟨inputJson', hinput, hdump'⟩ := h.built
      obtain rfl : inputJson = inputJson' := Option.some.inj (hparse.symm.trans hinput)
      exact hdump hdump'

theorem forwarded_sendCall (ctx : SessionCtx) (callId capability input : Str) (target : AgentRecord)
    (g : WsChatController ν) :
    Forwarded g.sent.length (sendCall platform ctx callId capability input target g) ↔
      (calleeOf platform ctx callId capability input target g).isSome := by
  unfold sendCall calleeOf
  cases platform.json.parse (payloadOr input) with
  | none => exact iff_of_false (not_forwarded_throw _ g) nofun
  | some inputJson =>
    rw [Option.bind_some]
    dsimp only
    unfold wsSendToSession
    cases g.sessions.lookup target.sessionId with
    | none =>
      dsimp only
      split_ifs
      · exact iff_of_false (not_forwarded_ok g) nofun
      · exact iff_of_false (not_forwarded_throw _ g) nofun
    | some conn =>
      dsimp only
      rw [forwarded_wsSend platform (Nat.le_refl _)]
      split_ifs with hdump
      · exact iff_of_true ⟨hdump, isCall_agentCallJson ..⟩ rfl
      · exact iff_of_false (fun h => hdump h.1) nofun

variable [Double ν]

/-- A call that the cache answers, or that no agent is there for, is not forwarded. -/
theorem not_forwarded_of_callTarget_none {ctx : SessionCtx} {targetAgentId capability input : Str}
    {bypassCache : Bool} {now : Clock} {g : WsChatController ν}
    (h : callTarget platform ctx targetAgentId capability input bypassCache now g = none)
    (caller : ConnId) (callId : Str) :
    ¬ Forwarded g.sent.length (routeAgentCall platform caller ctx callId targetAgentId capability input
      bypassCache now g) := by
  have hforward (cache : CacheCoordinator ν) (h : findTarget targetAgentId capability g = none) :
      ¬ Forwarded g.sent.length
        (forwardCall platform caller ctx callId targetAgentId capability input { g with cache }) := by
    rw [forwardCall_eq, show findTarget targetAgentId capability { g with cache } = none from h]
    exact fun hf => not_isCall_noAgent callId capability
      ((forwarded_wsSend platform (g := { g with cache }) (Nat.le_refl _) _ _).1 hf).2
  unfold callTarget at h
  unfold routeAgentCall
  cases bypassCache with
  | true =>
    rw [if_neg (by simp)] at h
    exact hforward g.cache h
  | false =>
    dsimp only
    rw [if_neg Bool.false_ne_true]
    cases hhit : (queryCall platform targetAgentId capability input ctx.sessionId now g.cache).1 with
    | none =>
      rw [hhit, if_neg (by simp)] at h
      exact hforward _ h
    | some hit =>
      generalize (queryCall platform targetAgentId capability input ctx.sessionId now g.cache).2 = cache
      have hreply : ¬ Forwarded g.sent.length
          (wsSend platform caller (cachedReply callId hit) { g with cache }) :=
        fun hf => not_isCall_cachedReply callId hit
          ((forwarded_wsSend platform (g := { g with cache }) (Nat.le_refl _) _ _).1 hf).2
      dsimp only
      unfold Outcome.andThen
      split_ifs with hthrew
      · exact hreply
      -- the turn that is appended is no message
      · exact fun hf => hreply ⟨by simpa using hthrew, hf.2⟩

end Forwarded

end WsChatController

namespace Gateway

open WsChatController (Forwarded wsSend not_forwarded_throw not_forwarded_ok)

/-! ## What a step forwards -/

section Steps

variable (platform : GatewayPlatform ν)

/-- A step that forwards a call. -/
def Forwards (n : ℕ) (o : Outcome (Gateway ν)) : Prop := Forwarded n (o.map Gateway.toWsChatController)

theorem not_forwards_throw (n : ℕ) (g : Gateway ν) : ¬ Forwards n (.throw g) :=
  not_forwarded_throw n g.toWsChatController

theorem not_forwards_ok (g : Gateway ν) : ¬ Forwards g.sent.length (.ok g) :=
  not_forwarded_ok g.toWsChatController

theorem forwards_wsSend {n : ℕ} {g : Gateway ν} (hn : n ≤ g.sent.length) (conn : ConnId) (msg : Json ν) :
    Forwards n (onController (wsSend platform conn msg) g) ↔
      (platform.json.dump msg).isSome ∧ msg.IsCall :=
  WsChatController.forwarded_wsSend platform hn conn msg

theorem isCall_toolCallJson (requestId callId name : Str) (arguments : Json ν) :
    (toolCallJson requestId callId name arguments).IsCall :=
  Or.inr ((Json.hasType_object_iff (by simp only [List.map]; decide) _).2 rfl)

theorem not_isCall_noExecutor (requestId : Str) : ¬ (noExecutor requestId : Json ν).IsCall :=
  Json.not_isCall_object (by simp only [List.map]; decide) (by decide)

/-- The message for an executor can be built. -/
def CanForward (requestId callId name arguments : Str) : Prop :=
  ∃ args, platform.json.parse arguments = some args ∧
    (platform.json.dump (toolCallJson requestId callId name args)).isSome

theorem forwards_routeToolCall {n : ℕ} {g : Gateway ν} (hn : n ≤ g.sent.length) (sender : ConnId)
    (requestId callId name arguments : Str) :
    Forwards n (routeToolCall platform sender requestId callId name arguments g) ↔
      ∃ call, toolOp platform sender requestId callId name arguments g = .register call ∧
        call.callee.isSome := by
  unfold routeToolCall toolOp
  cases g.selectExecutor name with
  | none =>
    refine iff_of_false (fun h => ?_) (by rintro ⟨call, hop, -⟩; cases hop)
    exact not_isCall_noExecutor requestId ((forwards_wsSend platform hn sender _).1 h).2
  | some executor =>
    dsimp only
    unfold forwardTool
    cases platform.json.parse arguments with
    | none =>
      refine iff_of_false (not_forwards_throw n _) ?_
      rintro ⟨call, hop, hcallee⟩
      cases hop
      cases hcallee
    | some args =>
      dsimp only [Option.bind_some]
      refine (forwards_wsSend platform ?_ executor _).trans ⟨?_, ?_⟩
      · exact hn
      · exact fun h => ⟨_, rfl, by rw [if_pos h.1]; rfl⟩
      · rintro ⟨call, hop, hcallee⟩
        cases hop
        dsimp only at hcallee
        split_ifs at hcallee with hdump
        · exact ⟨hdump, isCall_toolCallJson ..⟩
        · cases hcallee

theorem forwards_onToolCall (conn : ConnId) (requestId callId name arguments : Str) (g : Gateway ν) :
    Forwards g.sent.length (onToolCall platform conn requestId callId name arguments g) ↔
      ∃ call, streamOp platform conn requestId callId name arguments g = .register call ∧
        call.callee.isSome := by
  have hskip : ¬ ∃ call : PendingCall, (.skip : Op (CallTable × Str) PendingCall) = .register call ∧
      call.callee.isSome := by
    rintro ⟨call, hop, -⟩
    cases hop
  unfold onToolCall streamOp
  cases platform.json.parse arguments with
  | none => exact iff_of_false (not_forwards_throw _ g) hskip
  | some args =>
    dsimp only
    cases hdump : platform.json.dump (toolCallJson requestId callId name args) with
    | none =>
      rw [wsSend_of_dump_none platform hdump]
      exact iff_of_false (not_forwards_throw _ g) hskip
    | some text =>
      rw [wsSend_of_dump_some platform hdump, Outcome.ok_andThen, if_pos Option.isSome_some]
      exact forwards_routeToolCall platform (by simp) conn requestId callId name arguments

variable [Double ν]

/-- A message with a call, or a call of a stream. -/
def MakesCall : Event → Prop
  | .message _ text _ _ => ∃ msg, platform.json.parse text = some msg ∧ msg.IsCall
  | .toolCallOf _ _ _ _ => True
  | _ => False

/-- What is read of a message with a call is one. -/
theorem read_of_isCall {text : Str} {j : Json ν} (hparse : platform.json.parse text = some j)
    (hcall : j.IsCall) {nanos : ℤ} {msg : Message ν}
    (hread : Message.read platform.json nanos text = some msg) :
    (∃ requestId callId name arguments, msg = .toolCall requestId callId name arguments) ∨
      ∃ callId targetAgentId capability input bypassCache,
        msg = .agentCall callId targetAgentId capability input bypassCache := by
  unfold Message.read at hread
  rw [hparse] at hread
  obtain ⟨type, htype, hread⟩ := Option.bind_eq_some_iff.1 hread
  obtain ⟨requestId, -, hread⟩ := Option.bind_eq_some_iff.1 hread
  rcases hcall with hcall | hcall
  · obtain rfl : str "agent_call" = type := Option.some.inj ((Json.value_type hcall).symm.trans htype)
    have hread : Message.readAgentCall platform.json nanos j = some msg := hread
    simp only [Message.readAgentCall, Option.bind_eq_bind, Option.bind_eq_some_iff] at hread
    obtain ⟨callId, -, targetAgentId, -, capability, -, -, -, input, -, bypassCache, -, hmsg⟩ := hread
    exact Or.inr ⟨callId, targetAgentId, capability, input, bypassCache, (Option.some.inj hmsg).symm⟩
  · obtain rfl : str "tool_call" = type := Option.some.inj ((Json.value_type hcall).symm.trans htype)
    have hread : Message.readToolCall platform.json requestId j = some msg := hread
    simp only [Message.readToolCall, Option.bind_eq_bind, Option.bind_eq_some_iff] at hread
    obtain ⟨callId, -, name, -, arguments, -, hmsg⟩ := hread
    exact Or.inl ⟨requestId, callId, name, arguments, (Option.some.inj hmsg).symm⟩

theorem forwards_agentCall (caller : ConnId) (ctx : SessionCtx)
    (callId targetAgentId capability input : Str) (bypassCache : Bool) (now : Clock) (g : Gateway ν) :
    Forwards g.sent.length (onController (WsChatController.routeAgentCall platform caller ctx callId
        targetAgentId capability input bypassCache now) g) ↔
      ∃ call, agentOp platform caller ctx callId targetAgentId capability input bypassCache now g =
        .register call ∧ call.callee.isSome := by
  unfold agentOp
  cases htarget : WsChatController.callTarget platform ctx targetAgentId capability input bypassCache now
      g.toWsChatController with
  | none =>
    refine iff_of_false (WsChatController.not_forwarded_of_callTarget_none platform htarget caller callId) ?_
    rintro ⟨call, hop, -⟩
    cases hop
  | some target =>
    obtain ⟨cache, h⟩ := WsChatController.routeAgentCall_of_some platform htarget caller callId
    have hsend := WsChatController.forwarded_sendCall platform ctx callId capability input target
      (WsChatController.registerCall caller callId { g.toWsChatController with cache })
    rw [← h] at hsend
    refine Iff.trans hsend ⟨fun hcallee => ⟨_, rfl, hcallee⟩, ?_⟩
    rintro ⟨call, hop, hcallee⟩
    cases hop
    exact hcallee

/-- A step that makes a call forwards it exactly if it is registered with a callee. -/
theorem forwards_step_iff {event : Event × Clock} (hcall : MakesCall platform event.1) (g : Gateway ν) :
    Forwards g.sent.length (step platform event g) ↔
      ∃ call, opOf platform event g = .register call ∧ call.callee.isSome := by
  have hskip : ¬ ∃ call : PendingCall, (.skip : Op (CallTable × Str) PendingCall) = .register call ∧
      call.callee.isSome := by
    rintro ⟨call, hop, -⟩
    cases hop
  obtain ⟨event, now⟩ := event
  cases event with
  | message conn text nanos verdict =>
    obtain ⟨j, hparse, hcall⟩ := hcall
    simp only [step, opOf, fromOpen_eq]
    cases g.openCtx conn with
    | none => exact iff_of_false (not_forwards_ok g) hskip
    | some ctx =>
      dsimp only
      unfold handleNewMessage
      cases hread : Message.read platform.json nanos text with
      | none => exact iff_of_false (not_forwards_throw _ g) hskip
      | some msg =>
        rcases read_of_isCall platform hparse hcall hread with
          ⟨requestId, callId, name, arguments, rfl⟩ |
          ⟨callId, targetAgentId, capability, input, bypassCache, rfl⟩
        · exact forwards_routeToolCall platform (Nat.le_refl _) conn requestId callId name arguments
        · exact forwards_agentCall platform conn ctx callId targetAgentId capability input bypassCache now g
  | toolCallOf chat callId name arguments =>
    simp only [step, opOf, ofChat]
    cases g.chats[chat]? with
    | none => exact iff_of_false (not_forwards_ok g) hskip
    | some p => exact forwards_onToolCall platform p.1 p.2 callId name arguments g
  | _ => exact hcall.elim

/-! ## Calls and their entries -/

/-- The key and the caller of the call that a step makes. -/
def callOf (event : Event × Clock) (g : Gateway ν) : Option ((CallTable × Str) × ConnId) :=
  match event.1 with
  | .toolCallOf chat callId _ _ => (g.chats[chat]?).map fun p => ((.tools, toolKey p.2 callId), p.1)
  | _ =>
      match received platform event g with
      | some (conn, _, .toolCall requestId callId _ _) => some ((.tools, toolKey requestId callId), conn)
      | some (conn, _, .agentCall callId _ _ _ _) => some ((.agents, callId), conn)
      | _ => none

/-- A step that queues a call registers it, and a step that does not, or that throws, leaves the tables as
they are. -/
structure RegistersQueued (event : Event × Clock) (g : Gateway ν) : Prop where
  queued : Forwards g.sent.length (step platform event g) →
    ∃ κ caller, callOf platform event g = some (κ, caller) ∧
      (step platform event g).state.waiting = Function.update g.waiting κ (some caller)
  notQueued : ¬ Forwards g.sent.length (step platform event g) →
    (step platform event g).state.waiting = g.waiting

/-- The call has nowhere to go, or the message for its callee can be sent, or its caller waits under its
key already.  The calls of a stream were parsed before. -/
def Forwardable (event : Event × Clock) (g : Gateway ν) : Prop :=
  match received platform event g with
  | some (conn, _, .toolCall requestId callId name arguments) =>
      (g.selectExecutor name).isSome →
        CanForward platform requestId callId name arguments ∨
          g.pendingTools.lookup (toolKey requestId callId) = some conn
  | some (conn, ctx, .agentCall callId targetAgentId capability input bypassCache) =>
      ∀ target, WsChatController.callTarget platform ctx targetAgentId capability input bypassCache event.2
          g.toWsChatController = some target →
        WsChatController.CanSend platform ctx callId capability input target g.toWsChatController ∨
          g.pendingAgents.lookup callId = some conn
  | _ => True

omit [Double ν] in
theorem toolOp_cases (sender : ConnId) (requestId callId name arguments : Str) (g : Gateway ν) :
    (toolOp platform sender requestId callId name arguments g = .skip ∧ g.selectExecutor name = none) ∨
      ∃ call, toolOp platform sender requestId callId name arguments g = .register call ∧
        call.key = (.tools, toolKey requestId callId) ∧ call.caller = sender ∧
        (g.selectExecutor name).isSome ∧
        (call.callee.isSome ↔ CanForward platform requestId callId name arguments) := by
  unfold toolOp
  cases hexecutor : g.selectExecutor name with
  | none => exact Or.inl ⟨rfl, rfl⟩
  | some executor =>
    refine Or.inr ⟨_, rfl, rfl, rfl, rfl, ?_⟩
    dsimp only
    unfold CanForward
    cases platform.json.parse arguments with
    | none => exact iff_of_false nofun (by rintro ⟨args, hargs, -⟩; cases hargs)
    | some args =>
      rw [Option.bind_some]
      split_ifs with hdump
      · exact iff_of_true rfl ⟨args, rfl, hdump⟩
      · refine iff_of_false nofun ?_
        rintro ⟨args', hargs, hdump'⟩
        cases hargs
        exact hdump hdump'

omit [Double ν] in
/-- A call of a stream that is registered can be forwarded. -/
theorem streamOp_cases (conn : ConnId) (requestId callId name arguments : Str) (g : Gateway ν) :
    streamOp platform conn requestId callId name arguments g = .skip ∨
      ∃ call, streamOp platform conn requestId callId name arguments g = .register call ∧
        call.key = (.tools, toolKey requestId callId) ∧ call.caller = conn ∧ call.callee.isSome := by
  unfold streamOp
  cases hparse : platform.json.parse arguments with
  | none => exact Or.inl rfl
  | some args =>
    dsimp only
    split_ifs with hdump
    · rcases toolOp_cases platform conn requestId callId name arguments g with
        ⟨hop, -⟩ | ⟨call, hop, hkey, hcaller, -, hcallee⟩
      · exact Or.inl hop
      · exact Or.inr ⟨call, hop, hkey, hcaller, hcallee.2 ⟨args, hparse, hdump⟩⟩
    · exact Or.inl rfl

theorem agentOp_cases (caller : ConnId) (ctx : SessionCtx)
    (callId targetAgentId capability input : Str) (bypassCache : Bool) (now : Clock) (g : Gateway ν) :
    (agentOp platform caller ctx callId targetAgentId capability input bypassCache now g = .skip ∧
        WsChatController.callTarget platform ctx targetAgentId capability input bypassCache now
          g.toWsChatController = none) ∨
      ∃ call target,
        agentOp platform caller ctx callId targetAgentId capability input bypassCache now g =
          .register call ∧
        WsChatController.callTarget platform ctx targetAgentId capability input bypassCache now
          g.toWsChatController = some target ∧
        call.key = (.agents, callId) ∧ call.caller = caller ∧
        (call.callee.isSome ↔ WsChatController.CanSend platform ctx callId capability input target
          g.toWsChatController) := by
  unfold agentOp
  cases WsChatController.callTarget platform ctx targetAgentId capability input bypassCache now
      g.toWsChatController with
  | none => exact Or.inl ⟨rfl, rfl⟩
  | some target =>
    exact Or.inr ⟨_, target, rfl, rfl, rfl, rfl, WsChatController.isSome_calleeOf_iff platform⟩

variable {platform}

/-- What a step that makes a call does to the tables: nothing, or it registers the call. -/
theorem opOf_of_makesCall {event : Event × Clock} (hcall : MakesCall platform event.1) (g : Gateway ν) :
    (opOf platform event g = .skip ∧ Forwardable platform event g) ∨
      ∃ call, opOf platform event g = .register call ∧
        callOf platform event g = some (call.key, call.caller) ∧
        (Forwardable platform event g ↔ call.callee.isSome ∨ g.waiting call.key = some call.caller) := by
  obtain ⟨event, now⟩ := event
  cases event with
  | message conn text nanos verdict =>
    obtain ⟨j, hparse, hcall⟩ := hcall
    simp only [opOf, callOf, Forwardable, received]
    cases g.openCtx conn with
    | none => exact Or.inl ⟨rfl, trivial⟩
    | some ctx =>
      rw [Option.bind_some]
      cases hread : Message.read platform.json nanos text with
      | none => exact Or.inl ⟨rfl, trivial⟩
      | some msg =>
        rcases read_of_isCall platform hparse hcall hread with
          ⟨requestId, callId, name, arguments, rfl⟩ |
          ⟨callId, targetAgentId, capability, input, bypassCache, rfl⟩
        · dsimp only [Option.map_some, messageOp]
          rcases toolOp_cases platform conn requestId callId name arguments g with
            ⟨hop, hnone⟩ | ⟨call, hop, hkey, hcaller, hsome, hcallee⟩
          · refine Or.inl ⟨hop, ?_⟩
            rw [hnone]
            exact fun h => by cases h
          · refine Or.inr ⟨call, hop, by rw [hkey, hcaller], ?_⟩
            rw [hkey, hcaller, hcallee]
            exact ⟨fun h => h hsome, fun h _ => h⟩
        · dsimp only [Option.map_some, messageOp]
          rcases agentOp_cases platform conn ctx callId targetAgentId capability input
            bypassCache now g with ⟨hop, hnone⟩ | ⟨call, target, hop, htarget, hkey, hcaller, hcallee⟩
          · refine Or.inl ⟨hop, ?_⟩
            rw [hnone]
            exact fun _ htarget => by cases htarget
          · refine Or.inr ⟨call, hop, by rw [hkey, hcaller], ?_⟩
            rw [hkey, hcaller, hcallee]
            refine ⟨fun h => h target htarget, fun h target' htarget' => ?_⟩
            obtain rfl : target = target' := Option.some.inj (htarget.symm.trans htarget')
            exact h
  | toolCallOf chat callId name arguments =>
    simp only [opOf, callOf]
    cases g.chats[chat]? with
    | none => exact Or.inl ⟨rfl, trivial⟩
    | some p =>
      dsimp only
      rcases streamOp_cases platform p.1 p.2 callId name arguments g with
        hop | ⟨call, hop, hkey, hcaller, hcallee⟩
      · exact Or.inl ⟨hop, trivial⟩
      · refine Or.inr ⟨call, hop, by rw [hkey, hcaller]; rfl, ?_⟩
        exact iff_of_true trivial (Or.inl hcallee)
  | _ => exact hcall.elim

/-- A step that makes a call registers what it queues exactly if the call can be forwarded. -/
theorem registersQueued_iff {event : Event × Clock} (hcall : MakesCall platform event.1) (g : Gateway ν) :
    RegistersQueued platform event g ↔ Forwardable platform event g := by
  have hwaiting := (effect_step platform event g).waiting
  have hforwards := forwards_step_iff platform hcall g
  rcases opOf_of_makesCall hcall g with ⟨hop, hforwardable⟩ | ⟨call, hop, hcallOf, hforwardable⟩
  · rw [hop] at hwaiting hforwards
    refine iff_of_true ⟨fun h => ?_, fun _ => hwaiting⟩ hforwardable
    obtain ⟨call, hskip, -⟩ := hforwards.1 h
    cases hskip
  · rw [hop] at hwaiting hforwards
    have hwaiting : (step platform event g).state.waiting =
        Function.update g.waiting call.key (some call.caller) := hwaiting
    rw [hforwardable]
    by_cases hcallee : call.callee.isSome
    · refine iff_of_true ⟨fun _ => ⟨call.key, call.caller, hcallOf, hwaiting⟩, fun h => ?_⟩ (Or.inl hcallee)
      exact absurd (hforwards.2 ⟨call, rfl, hcallee⟩) h
    · have hnot : ¬ Forwards g.sent.length (step platform event g) := by
        intro h
        obtain ⟨call', hregister, hcallee'⟩ := hforwards.1 h
        cases hregister
        exact hcallee hcallee'
      -- a call that is not queued may only be registered where its caller waits anyway
      constructor
      · intro h
        refine Or.inr ?_
        rw [← h.notQueued hnot, hwaiting, Function.update_self]
      · rintro (h | h)
        · exact absurd h hcallee
        · refine ⟨fun h => absurd h hnot, fun _ => ?_⟩
          rw [hwaiting, ← h, Function.update_eq_self]

end Steps

/-! ## An input that is no JSON -/

open Watched (solverJson solveJson solveGateway connects tells)

/-- A call of the agent whose input is no JSON. -/
def brokenJson : Json ℚ :=
  .object (Json.members [
    (str "type", .string (str "agent_call")),
    (str "call_id", .string (str "c1")),
    (str "capability", .string (str "solve")),
    (str "input", .string (str "x")),
    (str "bypass_cache", .bool true)])

/-- The library as it behaves on the messages of the runs. -/
def brokenGateway : GatewayPlatform ℚ where
  toHost := solveGateway.toHost
  json := JsonLib.on Json.showRat [solverJson, solveJson, brokenJson, .object []]
  evpSha256 := solveGateway.evpSha256

/-- A client, and an agent that is registered. -/
def solveReady : Gateway ℚ :=
  run brokenGateway (start brokenGateway none none {}) [connects 1, connects 2, tells 1 solverJson]

/-- The handler throws, and its call stays registered. -/
theorem broken_call_registered :
    MakesCall brokenGateway (tells 0 brokenJson).1 ∧
      (step brokenGateway (tells 0 brokenJson) solveReady).threw = true ∧
      solveReady.waiting (.agents, str "c1") = none ∧
      ¬ RegistersQueued brokenGateway (tells 0 brokenJson) solveReady := by
  have hthrew : (step brokenGateway (tells 0 brokenJson) solveReady).threw = true := by decide +kernel
  have hbefore : solveReady.waiting (.agents, str "c1") = none := by decide +kernel
  have hafter : (step brokenGateway (tells 0 brokenJson) solveReady).state.waiting
      (.agents, str "c1") = some 0 := by decide +kernel
  refine ⟨⟨brokenJson, rfl, by decide⟩, hthrew, hbefore, fun h => ?_⟩
  have hkept := h.notQueued fun hforwards => Bool.noConfusion (hforwards.1.symm.trans hthrew)
  rw [hkept, hbefore] at hafter
  cases hafter

/-- A call with an input that can be parsed is registered and queued. -/
theorem registersQueued_solve : RegistersQueued brokenGateway (tells 0 solveJson) solveReady := by
  have hcall : MakesCall brokenGateway (tells 0 solveJson).1 := ⟨solveJson, rfl, by decide⟩
  refine (registersQueued_iff hcall solveReady).2 ?_
  have hlast : (((step brokenGateway (tells 0 solveJson) solveReady).state.sent.drop
      solveReady.sent.length).getLast?.any fun p => decide p.2.IsCall) = true := by decide +kernel
  obtain ⟨p, hp, hmsg⟩ := (Option.any_eq_true _ _).1 hlast
  have hforwards : Forwards solveReady.sent.length (step brokenGateway (tells 0 solveJson) solveReady) :=
    ⟨by decide +kernel, p, hp, of_decide_eq_true hmsg⟩
  obtain ⟨call', hop', hcallee⟩ := (forwards_step_iff brokenGateway hcall solveReady).1 hforwards
  rcases opOf_of_makesCall hcall solveReady with ⟨-, h⟩ | ⟨call, hop, -, h⟩
  · exact h
  · obtain rfl : call = call' := PendingTable.Op.register.inj (hop.symm.trans hop')
    exact h.2 (Or.inl hcallee)

end Gateway

end LlmGateway
