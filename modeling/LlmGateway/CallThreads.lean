import LlmGateway.CallAnswers
import LlmGateway.Lib.Threads
import LlmGateway.Utf8Json

/-!
# Calls and results at the same time

The handlers of calls and results as threads.  Between two of its operations, each of which holds one
mutex, any other handler can run: a call looks for a callee, is registered, and is sent; a result takes an
entry, and is delivered.  A thread that runs alone does what the step of its event does (`alone_step`).

`answers_at_most_once`: in every interleaving, no more results are forwarded under a key than calls were
registered, and of the results that come for one entry exactly one is accepted.  The log of the operations
on the tables shows this: every operation is logged as what it does to the tables (`logged_advance`), so
that the log is sound.
-/

namespace LlmGateway

variable {ν : Type}

open PendingTable (Entry History.Sound)
open Gateway (Event received onController)
open Threads (Program System Action Holds)

/-- The gateway, with a log of the operations on the tables. -/
structure Calls (ν : Type) where
  gateway : Gateway ν
  log : List (Entry (CallTable × Str)) := []

/-- What a handler has still to do. -/
inductive CallThread (ν : Type) where
  | arrived (event : Event × Clock)
  /-- An agent call that the cache has not answered. -/
  | findAgent (caller : ConnId) (ctx : SessionCtx) (callId targetAgentId capability input : Str)
  | registerAgentCall (caller : ConnId) (ctx : SessionCtx) (callId capability input : Str)
      (target : AgentRecord)
  | sendAgentCall (ctx : SessionCtx) (callId capability input : Str) (target : AgentRecord)
  | findExecutor (sender : ConnId) (requestId callId name arguments : Str)
  | registerToolCall (sender executor : ConnId) (requestId callId name arguments : Str)
  | sendToolCall (executor : ConnId) (requestId callId name arguments : Str)
  /-- A result that has taken the entry of a caller. -/
  | deliverAgentResult (callee caller : ConnId) (ctx : SessionCtx) (callId output : Str) (confidence : ν)
      (now : Clock)
  | deliverToolResult (executor target : ConnId) (requestId callId content : Str)
  | finished

/-! ## The identifiers of a result -/

namespace Message

/-- The identifiers that the error for a result is made of. -/
def resultIds : Message ν → List Str
  | .toolResult requestId callId _ => [requestId, callId]
  | .agentResult callId _ _ => [callId]
  | _ => []

variable [Double ν]

/-- The identifiers of a result that is read are valid UTF-8. -/
theorem valid_resultIds {lib : JsonLib ν} (hlib : lib.Strict) {nanos : ℤ} {text : Str} (msg : Message ν)
    (h : read lib nanos text = some msg) : ∀ s ∈ msg.resultIds, Utf8.Valid s := by
  cases hparse : lib.parse text with
  | none =>
    simp only [read, hparse, Option.some.injEq] at h
    subst h
    exact fun s hs => absurd hs List.not_mem_nil
  | some j =>
    have hj := hlib.parse text j hparse
    have hread := readFrom_of_read hparse msg h
    cases msg with
    | toolResult requestId callId content =>
      simp [resultIds, hj.value_getString hread.1, hj.value_getString hread.2]
    | agentResult callId output confidence => simp [resultIds, hj.value_getString hread]
    | _ => exact fun s hs => absurd hs List.not_mem_nil

end Message

namespace CallThread

section Operations

variable (platform : GatewayPlatform ν)

/-- The client of a chat gets a call of the stream. -/
def copyToClient (conn : ConnId) (requestId callId name arguments : Str) (c : Calls ν) :
    CallThread ν × Calls ν :=
  match platform.json.parse arguments with
  | none => (.finished, c)
  | some args =>
      let o := onController
        (WsChatController.wsSend platform conn (Gateway.toolCallJson requestId callId name args)) c.gateway
      (if o.threw then .finished else .findExecutor conn requestId callId name arguments,
        { c with gateway := o.state })

/-- A result of a tool takes the entry of its key, or is refused. -/
def takeTool (executor : ConnId) (requestId callId content : Str) (c : Calls ν) :
    CallThread ν × Calls ν :=
  let k := Gateway.toolKey requestId callId
  match c.gateway.pendingTools.lookup k with
  | none =>
      (.finished,
        { gateway := (onController (WsChatController.wsSend platform executor
            (Gateway.toolError requestId "no_pending")) c.gateway).state
          log := c.log ++ [.refused (.tools, k)] })
  | some target =>
      (.deliverToolResult executor target requestId callId content,
        { gateway := { c.gateway with pendingTools := c.gateway.pendingTools.erase k }
          log := c.log ++ [.accepted (.tools, k)] })

/-- A result of an agent takes the entry of its identifier, or is refused. -/
def takeAgent (callee : ConnId) (ctx : SessionCtx) (callId output : Str) (confidence : ν) (now : Clock)
    (c : Calls ν) : CallThread ν × Calls ν :=
  match c.gateway.pendingAgents.lookup callId with
  | none =>
      (.finished,
        { gateway := (onController (WsChatController.wsSend platform callee
            (WsChatController.noPending callId)) c.gateway).state
          log := c.log ++ [.refused (.agents, callId)] })
  | some caller =>
      (.deliverAgentResult callee caller ctx callId output confidence now,
        { gateway := { c.gateway with pendingAgents := c.gateway.pendingAgents.erase callId }
          log := c.log ++ [.accepted (.agents, callId)] })

variable [Double ν]

/-- The cache answers an agent call, or does not. -/
def askCache (caller : ConnId) (ctx : SessionCtx) (callId targetAgentId capability input : Str)
    (bypassCache : Bool) (now : Clock) (c : Calls ν) : CallThread ν × Calls ν :=
  let rest := .findAgent caller ctx callId targetAgentId capability input
  if bypassCache then (rest, c)
  else
    let cached := WsChatController.queryCall platform targetAgentId capability input ctx.sessionId now
      c.gateway.cache
    let c := { c with gateway := { c.gateway with cache := cached.2 } }
    match cached.1 with
    | none => (rest, c)
    | some hit =>
        (.finished,
          { c with
            gateway := (onController
              (fun g => (WsChatController.wsSend platform caller
                (WsChatController.cachedReply callId hit) g).andThen fun g =>
                  .ok { g with
                    cache := g.cache.appendTurn ctx.sessionId
                      (WsChatController.cachedTurn callId capability input hit now) })
              c.gateway).state })

/-- The first operation of a handler. -/
def arrive (event : Event × Clock) (c : Calls ν) : CallThread ν × Calls ν :=
  match received platform event c.gateway with
  | some (conn, ctx, .agentCall callId targetAgentId capability input bypassCache) =>
      askCache platform conn ctx callId targetAgentId capability input bypassCache event.2 c
  | some (conn, _, .toolCall requestId callId name arguments) =>
      (.findExecutor conn requestId callId name arguments, c)
  | some (conn, _, .toolResult requestId callId content) =>
      takeTool platform conn requestId callId content c
  | some (conn, ctx, .agentResult callId output confidence) =>
      takeAgent platform conn ctx callId output confidence event.2 c
  | _ =>
      match event.1 with
      | .toolCallOf chat callId name arguments =>
          match c.gateway.chats[chat]? with
          | none => (.finished, c)
          | some (conn, requestId) => copyToClient platform conn requestId callId name arguments c
      | _ => (.finished, { c with gateway := (Gateway.step platform event c.gateway).state })

/-- The next operation of a handler. -/
def advance : CallThread ν → Calls ν → CallThread ν × Calls ν
  | .arrived event, c => arrive platform event c
  | .findAgent caller ctx callId targetAgentId capability input, c =>
      match WsChatController.findTarget targetAgentId capability c.gateway.toWsChatController with
      | none =>
          (.finished,
            { c with
              gateway := (onController (WsChatController.wsSend platform caller
                (WsChatController.noAgent callId capability)) c.gateway).state })
      | some target => (.registerAgentCall caller ctx callId capability input target, c)
  | .registerAgentCall caller ctx callId capability input target, c =>
      (.sendAgentCall ctx callId capability input target,
        { gateway := { c.gateway with pendingAgents := c.gateway.pendingAgents.insert callId caller }
          log := c.log ++ [.registered (.agents, callId)] })
  | .sendAgentCall ctx callId capability input target, c =>
      (.finished,
        { c with
          gateway := (onController
            (WsChatController.sendCall platform ctx callId capability input target) c.gateway).state })
  | .findExecutor sender requestId callId name arguments, c =>
      match c.gateway.selectExecutor name with
      | none =>
          (.finished,
            { c with
              gateway := (onController (WsChatController.wsSend platform sender
                (Gateway.noExecutor requestId)) c.gateway.pruneExecutors).state })
      | some executor =>
          (.registerToolCall sender executor requestId callId name arguments,
            { c with
              gateway := { c.gateway.pruneExecutors with
                execRrIdx := c.gateway.pruneExecutors.nextIdx name } })
  | .registerToolCall sender executor requestId callId name arguments, c =>
      (.sendToolCall executor requestId callId name arguments,
        { gateway := Gateway.registerTool sender requestId callId c.gateway
          log := c.log ++ [.registered (.tools, Gateway.toolKey requestId callId)] })
  | .sendToolCall executor requestId callId name arguments, c =>
      (.finished,
        { c with
          gateway :=
            (Gateway.forwardTool platform executor requestId callId name arguments c.gateway).state })
  | .deliverAgentResult callee caller ctx callId output confidence now, c =>
      let o := onController
        (WsChatController.answerCall platform callee caller ctx callId output confidence now) c.gateway
      (.finished,
        { gateway := o.state
          log :=
            if c.gateway.isConnected caller ∧ o.threw = false then c.log ++ [.forwarded (.agents, callId)]
            else c.log })
  | .deliverToolResult executor target requestId callId content, c =>
      let o := Gateway.deliverTool platform executor target requestId callId content c.gateway
      (.finished,
        { gateway := o.state
          log :=
            if c.gateway.isConnected target ∧ o.threw = false then
              c.log ++ [.forwarded (.tools, Gateway.toolKey requestId callId)]
            else c.log })
  | .finished, c => (.finished, c)

/-- Handlers as threads. -/
def program : Program (Event × Clock) (CallThread ν) (Calls ν) Unit where
  start := .arrived
  advance _ t c := t.advance platform c

end Operations

/-! ## One thread alone -/

section Alone

variable [Double ν] (platform : GatewayPlatform ν)

/-- A thread and the gateway after `n` operations that no other thread comes between. -/
def alone (n : ℕ) (t : CallThread ν) (c : Calls ν) : CallThread ν × Calls ν :=
  (fun p => p.1.advance platform p.2)^[n] (t, c)

theorem alone_succ (n : ℕ) (t : CallThread ν) (c : Calls ν) :
    alone platform (n + 1) t c = alone platform n (t.advance platform c).1 (t.advance platform c).2 :=
  Function.iterate_succ_apply _ n (t, c)

theorem alone_finished (n : ℕ) (c : Calls ν) : alone platform n .finished c = (.finished, c) := by
  induction n with
  | zero => rfl
  | succ n ih => rw [alone_succ, advance, ih]

/-- The thread has finished, and has done what the step does. -/
def Does (g : Gateway ν) (p : CallThread ν × Calls ν) : Prop := p.1 = .finished ∧ p.2.gateway = g

theorem does_alone_finished (n : ℕ) (c : Calls ν) : Does c.gateway (alone platform n .finished c) := by
  rw [alone_finished]
  exact ⟨rfl, rfl⟩

theorem does_toolCall (sender : ConnId) (requestId callId name arguments : Str) (c : Calls ν) :
    Does (Gateway.routeToolCall platform sender requestId callId name arguments c.gateway).state
      (alone platform 3 (.findExecutor sender requestId callId name arguments) c) := by
  rw [alone_succ, advance, Gateway.routeToolCall]
  cases c.gateway.selectExecutor name with
  | none => exact does_alone_finished platform 2 _
  | some executor => exact ⟨rfl, rfl⟩

theorem does_forwardCall (caller : ConnId) (ctx : SessionCtx)
    (callId targetAgentId capability input : Str) (c : Calls ν) :
    Does (onController (WsChatController.forwardCall platform caller ctx callId targetAgentId capability
        input) c.gateway).state
      (alone platform 3 (.findAgent caller ctx callId targetAgentId capability input) c) := by
  rw [alone_succ, advance, onController, WsChatController.forwardCall_eq]
  cases WsChatController.findTarget targetAgentId capability c.gateway.toWsChatController with
  | none => exact does_alone_finished platform 2 _
  | some target => exact ⟨rfl, rfl⟩

theorem does_agentCall (caller : ConnId) (ctx : SessionCtx)
    (callId targetAgentId capability input : Str) (bypassCache : Bool) (now : Clock) (c : Calls ν) :
    Does (onController (WsChatController.routeAgentCall platform caller ctx callId targetAgentId capability
        input bypassCache now) c.gateway).state
      (alone platform 3
        (askCache platform caller ctx callId targetAgentId capability input bypassCache now c).1
        (askCache platform caller ctx callId targetAgentId capability input bypassCache now c).2) := by
  rw [askCache, onController, WsChatController.routeAgentCall]
  cases bypassCache with
  | true => exact does_forwardCall platform caller ctx callId targetAgentId capability input c
  | false =>
    dsimp only
    cases (WsChatController.queryCall platform targetAgentId capability input ctx.sessionId now
        c.gateway.cache).1 with
    | none => exact does_forwardCall platform caller ctx callId targetAgentId capability input _
    | some hit => exact does_alone_finished platform 3 _

theorem does_toolResult (executor : ConnId) (requestId callId content : Str) (c : Calls ν) :
    Does (Gateway.routeToolResult platform executor requestId callId content c.gateway).state
      (alone platform 3 (takeTool platform executor requestId callId content c).1
        (takeTool platform executor requestId callId content c).2) := by
  rw [takeTool, Gateway.routeToolResult]
  dsimp only
  cases c.gateway.pendingTools.lookup (Gateway.toolKey requestId callId) with
  | none => exact does_alone_finished platform 3 _
  | some target => exact ⟨rfl, rfl⟩

theorem does_agentResult (callee : ConnId) (ctx : SessionCtx) (callId output : Str) (confidence : ν)
    (now : Clock) (c : Calls ν) :
    Does (onController (WsChatController.routeAgentResult platform callee ctx callId output confidence now)
        c.gateway).state
      (alone platform 3 (takeAgent platform callee ctx callId output confidence now c).1
        (takeAgent platform callee ctx callId output confidence now c).2) := by
  rw [takeAgent, onController, WsChatController.routeAgentResult_eq]
  cases c.gateway.pendingAgents.lookup callId with
  | none => exact does_alone_finished platform 3 _
  | some caller => exact ⟨rfl, rfl⟩

theorem does_onToolCall (conn : ConnId) (requestId callId name arguments : Str) (c : Calls ν) :
    Does (Gateway.onToolCall platform conn requestId callId name arguments c.gateway).state
      (alone platform 3 (copyToClient platform conn requestId callId name arguments c).1
        (copyToClient platform conn requestId callId name arguments c).2) := by
  rw [copyToClient, Gateway.onToolCall]
  cases platform.json.parse arguments with
  | none => exact does_alone_finished platform 3 _
  | some args =>
    dsimp only
    unfold Outcome.andThen
    split_ifs
    · exact does_alone_finished platform 3 _
    · exact does_toolCall platform conn requestId callId name arguments _

/-- A handler that runs alone does what the step of its event does. -/
theorem alone_step (event : Event × Clock) (c : Calls ν) :
    Does (Gateway.step platform event c.gateway).state (alone platform 4 (.arrived event) c) := by
  rw [alone_succ, advance, arrive]
  obtain ⟨event, now⟩ := event
  cases event with
  | message conn text nanos verdict =>
    cases hmsg : received platform (.message conn text nanos verdict, now) c.gateway with
    | none => exact does_alone_finished platform 3 _
    | some r =>
      obtain ⟨conn', ctx, msg⟩ := r
      obtain ⟨-, -, verdict', hstep⟩ := Gateway.received_eq_some hmsg
      rw [hstep]
      cases msg with
      | agentCall => exact does_agentCall ..
      | toolCall => exact does_toolCall ..
      | agentResult => exact does_agentResult ..
      | toolResult => exact does_toolResult ..
      | _ => exact does_alone_finished platform 3 _
  | toolCallOf chat callId name arguments =>
    simp only [received, Gateway.step, Gateway.ofChat]
    cases c.gateway.chats[chat]? with
    | none => exact does_alone_finished platform 3 _
    | some p => exact does_onToolCall platform p.1 p.2 callId name arguments c
  | _ => exact does_alone_finished platform 3 _

end Alone

/-! ## The log -/

/-- The key of a result that has been accepted and not yet delivered. -/
def owed : CallThread ν → Option (CallTable × Str)
  | .deliverAgentResult _ _ _ callId _ _ _ => some (.agents, callId)
  | .deliverToolResult _ _ requestId callId _ => some (.tools, Gateway.toolKey requestId callId)
  | _ => none

/-- An operation is logged as what it does to the tables, and only a result that was accepted is
forwarded. -/
inductive Logged (t : CallThread ν) (c : Calls ν) (p : CallThread ν × Calls ν) : Prop
  | silent (hlog : p.2.log = c.log) (howed : p.1.owed = none)
      (hwaiting : p.2.gateway.waiting = c.gateway.waiting)
  | registered (κ : CallTable × Str) (caller : ConnId) (hlog : p.2.log = c.log ++ [.registered κ])
      (howed : p.1.owed = none)
      (hwaiting : p.2.gateway.waiting = Function.update c.gateway.waiting κ (some caller))
  | accepted (κ : CallTable × Str) (hlog : p.2.log = c.log ++ [.accepted κ]) (howed : p.1.owed = some κ)
      (hwaits : (c.gateway.waiting κ).isSome)
      (hwaiting : p.2.gateway.waiting = Function.update c.gateway.waiting κ none)
  | refused (κ : CallTable × Str) (hlog : p.2.log = c.log ++ [.refused κ]) (howed : p.1.owed = none)
      (hnone : c.gateway.waiting κ = none) (hwaiting : p.2.gateway.waiting = c.gateway.waiting)
  | forwarded (κ : CallTable × Str) (hlog : p.2.log = c.log ++ [.forwarded κ]) (howed : t.owed = some κ)
      (hdone : p.1.owed = none) (hwaiting : p.2.gateway.waiting = c.gateway.waiting)

section Log

variable (platform : GatewayPlatform ν) {t : CallThread ν}

theorem waiting_wsSend (conn : ConnId) (msg : Json ν) (g : Gateway ν) :
    (onController (WsChatController.wsSend platform conn msg) g).state.waiting = g.waiting := by
  obtain ⟨sent, hsent⟩ := Gateway.wsSend_state platform conn msg g
  rw [hsent]
  rfl

theorem logged_copyToClient (conn : ConnId) (requestId callId name arguments : Str) (c : Calls ν) :
    Logged t c (copyToClient platform conn requestId callId name arguments c) := by
  unfold copyToClient
  split
  · exact .silent rfl rfl rfl
  · dsimp only
    split_ifs
    · exact .silent rfl rfl (waiting_wsSend platform conn _ _)
    · exact .silent rfl rfl (waiting_wsSend platform conn _ _)

theorem logged_takeTool (executor : ConnId) (requestId callId content : Str) (c : Calls ν) :
    Logged t c (takeTool platform executor requestId callId content c) := by
  unfold takeTool
  dsimp only
  split
  · next hnone => exact .refused _ rfl rfl hnone (waiting_wsSend platform executor _ _)
  · next target htarget =>
    have hwaits : c.gateway.waiting (.tools, Gateway.toolKey requestId callId) = some target := htarget
    exact .accepted _ rfl rfl (by rw [hwaits]; rfl) (Gateway.waiting_eraseTools c.gateway _)

theorem logged_takeAgent (callee : ConnId) (ctx : SessionCtx) (callId output : Str) (confidence : ν)
    (now : Clock) (c : Calls ν) :
    Logged t c (takeAgent platform callee ctx callId output confidence now c) := by
  unfold takeAgent
  split
  · next hnone => exact .refused _ rfl rfl hnone (waiting_wsSend platform callee _ _)
  · next caller hcaller =>
    have hwaits : c.gateway.waiting (.agents, callId) = some caller := hcaller
    exact .accepted _ rfl rfl (by rw [hwaits]; rfl) (Gateway.waiting_eraseAgents c.gateway _)

variable [Double ν]

theorem logged_askCache (caller : ConnId) (ctx : SessionCtx)
    (callId targetAgentId capability input : Str) (bypassCache : Bool) (now : Clock) (c : Calls ν) :
    Logged t c (askCache platform caller ctx callId targetAgentId capability input bypassCache now c) := by
  unfold askCache
  dsimp only
  split_ifs
  · exact .silent rfl rfl rfl
  · split
    · exact .silent rfl rfl rfl
    · refine .silent rfl rfl ?_
      exact Outcome.view_andThen
        (fun w => ({ c.gateway with toWsChatController := w } : Gateway ν).waiting)
        (waiting_wsSend platform caller _ { c.gateway with cache := _ }) fun _ => rfl

theorem waiting_of_skip {event : Event × Clock} {g : Gateway ν}
    (hop : Gateway.opOf platform event g = .skip) :
    (Gateway.step platform event g).state.waiting = g.waiting := by
  have hwaiting := (Gateway.effect_step platform event g).waiting
  rw [hop] at hwaiting
  exact hwaiting

theorem opOf_of_not_received {conn : ConnId} {text : Str} {nanos : ℤ} {verdict : ChatVerdict} {now : Clock}
    {g : Gateway ν} (h : received platform (.message conn text nanos verdict, now) g = none) :
    Gateway.opOf platform (.message conn text nanos verdict, now) g = .skip := by
  unfold received at h
  unfold Gateway.opOf
  dsimp only at h ⊢
  cases hopen : g.openCtx conn with
  | none => rfl
  | some ctx =>
    rw [hopen, Option.bind_some, Option.map_eq_none_iff] at h
    dsimp only
    rw [h]

theorem logged_arrive (event : Event × Clock) (c : Calls ν) : Logged t c (arrive platform event c) := by
  unfold arrive
  obtain ⟨event, now⟩ := event
  cases event with
  | message conn text nanos verdict =>
    cases hmsg : received platform (.message conn text nanos verdict, now) c.gateway with
    | none => exact .silent rfl rfl (waiting_of_skip platform (opOf_of_not_received platform hmsg))
    | some r =>
      obtain ⟨conn', ctx, msg⟩ := r
      obtain ⟨-, hop, -⟩ := Gateway.received_eq_some hmsg
      cases msg with
      | agentCall => exact logged_askCache ..
      | toolCall => exact .silent rfl rfl rfl
      | agentResult => exact logged_takeAgent ..
      | toolResult => exact logged_takeTool ..
      | _ => exact .silent rfl rfl (waiting_of_skip platform hop)
  | toolCallOf chat callId name arguments =>
    simp only [received]
    cases c.gateway.chats[chat]? with
    | none => exact .silent rfl rfl rfl
    | some p => exact logged_copyToClient ..
  | _ => exact .silent rfl rfl (waiting_of_skip platform rfl)

theorem logged_advance (t : CallThread ν) (c : Calls ν) : Logged t c (t.advance platform c) := by
  cases t with
  | arrived event => exact logged_arrive platform event c
  | findAgent caller ctx callId targetAgentId capability input =>
    rw [advance]
    split
    · exact .silent rfl rfl (waiting_wsSend platform caller _ _)
    · exact .silent rfl rfl rfl
  | registerAgentCall caller ctx callId capability input target =>
    exact .registered _ caller rfl rfl (Gateway.waiting_insertAgents c.gateway callId caller)
  | sendAgentCall ctx callId capability input target =>
    obtain ⟨sent, h⟩ := WsChatController.sendCall_state platform ctx callId capability input target
      c.gateway.toWsChatController
    exact .silent rfl rfl (by rw [advance, Gateway.onController_state h]; rfl)
  | findExecutor sender requestId callId name arguments =>
    rw [advance]
    split
    · exact .silent rfl rfl (waiting_wsSend platform sender _ _)
    · exact .silent rfl rfl rfl
  | registerToolCall sender executor requestId callId name arguments =>
    exact .registered _ sender rfl rfl (Gateway.waiting_insertTools c.gateway _ sender)
  | sendToolCall executor requestId callId name arguments =>
    obtain ⟨sent, h⟩ := Gateway.forwardTool_state platform executor requestId callId name arguments
      c.gateway
    exact .silent rfl rfl (by rw [advance, h]; rfl)
  | deliverAgentResult callee caller ctx callId output confidence now =>
    obtain ⟨cache, sent, h⟩ := WsChatController.answerCall_state platform callee caller ctx callId output
      confidence now c.gateway.toWsChatController
    have hwaiting : (onController (WsChatController.answerCall platform callee caller ctx callId output
        confidence now) c.gateway).state.waiting = c.gateway.waiting := by
      rw [Gateway.onController_state h]
      rfl
    rw [advance]
    split_ifs
    · exact .forwarded _ rfl rfl rfl hwaiting
    · exact .silent rfl rfl hwaiting
  | deliverToolResult executor target requestId callId content =>
    obtain ⟨sent, h⟩ := Gateway.deliverTool_state platform executor target requestId callId content
      c.gateway
    have hwaiting : (Gateway.deliverTool platform executor target requestId callId content
        c.gateway).state.waiting = c.gateway.waiting := by
      rw [h]
      rfl
    rw [advance]
    split_ifs
    · exact .forwarded _ rfl rfl rfl hwaiting
    · exact .silent rfl rfl hwaiting
  | finished => exact .silent rfl rfl rfl

/-- The log is sound, and tells who waits. -/
structure Kept (c : Calls ν) : Prop where
  sound : History.Sound c.log
  waiting (κ : CallTable × Str) : PendingTable.History.waiting κ c.log = (c.gateway.waiting κ).isSome

omit [Double ν] in
theorem Kept.logged {t : CallThread ν} {c : Calls ν} {p : CallThread ν × Calls ν} (h : Kept c)
    (hlogged : Logged t c p) : Kept p.2 := by
  cases hlogged with
  | silent hlog howed hwaiting =>
    refine ⟨by rw [hlog]; exact h.sound, fun κ => ?_⟩
    rw [hlog, hwaiting]
    exact h.waiting κ
  | registered κ caller hlog howed hwaiting =>
    refine ⟨by rw [hlog]; exact h.sound.register κ, fun κ' => ?_⟩
    rw [hlog, hwaiting, PendingTable.History.waiting_concat, PendingTable.isSome_update, ← h.waiting]
    rfl
  | accepted κ hlog howed hwaits hwaiting =>
    refine ⟨?_, fun κ' => ?_⟩
    · rw [hlog]
      exact h.sound.accept (by rw [h.waiting, hwaits])
    · rw [hlog, hwaiting, PendingTable.History.waiting_concat, PendingTable.isSome_update, ← h.waiting]
      rfl
  | refused κ hlog howed hnone hwaiting =>
    refine ⟨?_, fun κ' => ?_⟩
    · rw [hlog]
      exact h.sound.refuse (by rw [h.waiting, hnone, Option.isSome_none])
    · rw [hlog, hwaiting, PendingTable.History.waiting_concat]
      exact h.waiting κ'
  | forwarded κ hlog howed hdone hwaiting =>
    refine ⟨by rw [hlog]; exact h.sound.forward κ, fun κ' => ?_⟩
    rw [hlog, hwaiting, PendingTable.History.waiting_concat]
    exact h.waiting κ'

/-- A new process, before any handler runs. -/
def fresh (data idx : Option Str) (l3 : L3ArchiveStore) : System (CallThread ν) (Calls ν) where
  shared := { gateway := Gateway.start platform data idx l3 }

theorem kept_run (data idx : Option Str) (l3 : L3ArchiveStore)
    (acts : List (Action (Event × Clock) Unit)) :
    Kept (Threads.run (program platform) (fresh platform data idx l3) acts).shared := by
  have hfresh : Kept (fresh platform data idx l3).shared := by
    refine ⟨⟨fun pre post k h => ?_, fun pre post k h => ?_⟩, fun κ => ?_⟩
    · exact absurd h (by simp [fresh])
    · exact absurd h (by simp [fresh])
    · show false = ((Gateway.start platform data idx l3).waiting κ).isSome
      rw [Watched.waiting_start]
      rfl
  have hholds : Holds Kept (fun _ _ => True) (fresh platform data idx l3) := ⟨hfresh, fun _ _ _ => trivial⟩
  exact (hholds.run (fun _ _ => trivial) (fun _ _ => True)
    (fun _ _ t c hc _ _ => ⟨hc.logged (logged_advance platform t c), trivial⟩)
    fun _ _ _ _ _ _ => trivial).shared

/-- The thread holds an accepted result of the key. -/
def owes (κ : CallTable × Str) (t : CallThread ν) : Bool := t.owed = some κ

omit [Double ν] in
theorem Logged.count {t : CallThread ν} {c : Calls ν} {p : CallThread ν × Calls ν} (h : Logged t c p)
    (κ : CallTable × Str) :
    p.2.log.count (.forwarded κ) + (p.1.owes κ).toNat + c.log.count (.accepted κ) ≤
      c.log.count (.forwarded κ) + (t.owes κ).toNat + p.2.log.count (.accepted κ) := by
  unfold owes
  cases h with
  | silent hlog howed hwaiting =>
    rw [hlog, howed]
    simp
  | registered κ' caller hlog howed hwaiting =>
    rw [hlog, howed, List.count_append, List.count_append]
    simp
  | accepted κ' hlog howed hwaits hwaiting =>
    rw [hlog, howed, List.count_append, List.count_append]
    by_cases hκ : κ' = κ
    · simp [hκ]
      omega
    · simp [hκ]
  | refused κ' hlog howed hnone hwaiting =>
    rw [hlog, howed, List.count_append, List.count_append]
    simp
  | forwarded κ' hlog howed hdone hwaiting =>
    rw [hlog, howed, hdone, List.count_append, List.count_append]
    by_cases hκ : κ' = κ
    · simp [hκ]
    · simp [hκ]

theorem count_forwarded_run (data idx : Option Str) (l3 : L3ArchiveStore)
    (acts : List (Action (Event × Clock) Unit)) (κ : CallTable × Str) :
    (Threads.run (program platform) (fresh platform data idx l3) acts).shared.log.count (.forwarded κ) ≤
      (Threads.run (program platform) (fresh platform data idx l3) acts).shared.log.count
        (.accepted κ) := by
  have hcount := Threads.countP_run (p := program platform) (s := fresh platform data idx l3) (owes κ)
    (fun c => c.log.count (.forwarded κ)) (fun c => c.log.count (.accepted κ)) (fun _ => rfl)
    (fun _ t c => (logged_advance platform t c).count κ) (Nat.le_refl 0) acts
  exact Nat.le_trans (Nat.le_add_right _ _) hcount

end Log

/-! ## Results -/

section Results

/-- The handler sends one message, unless it throws. -/
def SendsOne (P : ConnId × Json ν → Prop) (g : WsChatController ν) (o : Outcome (WsChatController ν)) :
    Prop :=
  (o.threw = true ∧ o.state.sent = g.sent) ∨ (o.threw = false ∧ ∃ p, P p ∧ o.state.sent = g.sent ++ [p])

variable (platform : GatewayPlatform ν)

theorem sendsOne_wsSend {P : ConnId × Json ν → Prop} {conn : ConnId} {msg : Json ν} (h : P (conn, msg))
    (g : WsChatController ν) : SendsOne P g (WsChatController.wsSend platform conn msg g) := by
  unfold WsChatController.wsSend
  split
  · exact Or.inl ⟨rfl, rfl⟩
  · exact Or.inr ⟨rfl, _, h, rfl⟩

/-- A result that arrives takes the entry of its key, or is refused if there is none. -/
inductive Takes (conn : ConnId) (κ : CallTable × Str) (c : Calls ν) (p : CallThread ν × Calls ν) : Prop
  | accepted (caller : ConnId) (hwaits : c.gateway.waiting κ = some caller)
      (hwaiting : p.2.gateway.waiting = Function.update c.gateway.waiting κ none)
      (hlog : p.2.log = c.log ++ [.accepted κ]) (howed : p.1.owed = some κ)
      (hsent : p.2.gateway.sent = c.gateway.sent)
  | refused (hnone : c.gateway.waiting κ = none) (hwaiting : p.2.gateway.waiting = c.gateway.waiting)
      (hlog : p.2.log = c.log ++ [.refused κ]) (hdone : p.1 = .finished) (msg : Json ν)
      (hmsg : msg.HasType "error" ∧ msg.member "code" = some (.string (str "no_pending")))
      (hsent : p.2.gateway.sent = c.gateway.sent ++ [(conn, msg)])

/-- A result that was accepted is forwarded to its caller, or is not; neither changes the tables. -/
inductive Delivers (κ : CallTable × Str) (c : Calls ν) (p : CallThread ν × Calls ν) : Prop
  | forwarded (caller : ConnId) (msg : Json ν)
      (hmsg : msg.HasType "agent_result" ∨ msg.HasType "tool_result")
      (hsent : p.2.gateway.sent = c.gateway.sent ++ [(caller, msg)])
      (hlog : p.2.log = c.log ++ [.forwarded κ]) (hdone : p.1 = .finished)
      (hwaiting : p.2.gateway.waiting = c.gateway.waiting)
  | failed (news : List (ConnId × Json ν)) (hnews : ∀ q ∈ news, q.2.HasType "error")
      (hsent : p.2.gateway.sent = c.gateway.sent ++ news) (hlog : p.2.log = c.log)
      (hdone : p.1 = .finished) (hwaiting : p.2.gateway.waiting = c.gateway.waiting)

/-- What a delivery sends, from whether the caller is connected. -/
theorem Delivers.of_sendsOne {κ : CallTable × Str} {c : Calls ν} {caller : ConnId}
    {o : Outcome (Gateway ν)} (hwaiting : o.state.waiting = c.gateway.waiting)
    (hconnected : c.gateway.isConnected caller → SendsOne
      (fun p => p.1 = caller ∧ (p.2.HasType "agent_result" ∨ p.2.HasType "tool_result"))
      c.gateway.toWsChatController (o.map Gateway.toWsChatController))
    (hgone : c.gateway.isConnected caller = false → SendsOne (fun p => p.2.HasType "error")
      c.gateway.toWsChatController (o.map Gateway.toWsChatController)) :
    Delivers κ c
      (.finished,
        { gateway := o.state
          log := if c.gateway.isConnected caller ∧ o.threw = false then c.log ++ [.forwarded κ] else c.log }) := by
  cases h : c.gateway.isConnected caller with
  | true =>
    rcases hconnected h with ⟨hthrew, hsent⟩ | ⟨hthrew, p, ⟨rfl, hmsg⟩, hsent⟩
    · have hthrew : o.threw = true := hthrew
      refine .failed [] nofun (hsent.trans (List.append_nil _).symm) ?_ rfl hwaiting
      exact if_neg fun hlog => Bool.noConfusion (hthrew.symm.trans hlog.2)
    · exact .forwarded p.1 p.2 hmsg hsent (if_pos ⟨rfl, hthrew⟩) rfl hwaiting
  | false =>
    have hlog : (if false = true ∧ o.threw = false then c.log ++ [.forwarded κ] else c.log) = c.log :=
      if_neg fun hlog => Bool.noConfusion hlog.1
    rcases hgone h with ⟨-, hsent⟩ | ⟨-, p, hmsg, hsent⟩
    · exact .failed [] nofun (hsent.trans (List.append_nil _).symm) hlog rfl hwaiting
    · refine .failed [p] (fun q hq => ?_) hsent hlog rfl hwaiting
      rw [List.mem_singleton.1 hq]
      exact hmsg

/-- A result whose key has no entry is refused, as the refusal can be sent. -/
theorem Takes.of_none (hlib : platform.json.Strict) {conn : ConnId} {κ : CallTable × Str} {c : Calls ν}
    {msg : Json ν} (hnone : c.gateway.waiting κ = none) (hvalid : msg.Valid)
    (hmsg : msg.HasType "error" ∧ msg.member "code" = some (.string (str "no_pending"))) :
    Takes conn κ c
      (.finished,
        { gateway := (onController (WsChatController.wsSend platform conn msg) c.gateway).state
          log := c.log ++ [.refused κ] }) := by
  obtain ⟨text, hdump⟩ := Option.isSome_iff_exists.1 ((hlib.dump_isSome _).2 hvalid)
  refine .refused hnone (waiting_wsSend platform conn _ _) rfl rfl msg hmsg ?_
  dsimp only
  rw [Gateway.wsSend_of_dump_some platform hdump]
  rfl

theorem takes_takeTool (hlib : platform.json.Strict) {requestId : Str} (hid : Utf8.Valid requestId)
    (executor : ConnId) (callId content : Str) (c : Calls ν) :
    Takes executor (.tools, Gateway.toolKey requestId callId) c
      (takeTool platform executor requestId callId content c) := by
  unfold takeTool
  dsimp only
  split
  · next hnone =>
    have hvalid : (Gateway.toolError requestId "no_pending" : Json ν).Valid := by
      refine Json.valid_object_members ?_
      simp only [List.forall_mem_cons, valid_str, true_and, Json.valid_string]
      exact ⟨hid, by simp⟩
    refine .of_none platform hlib hnone hvalid ⟨?_, ?_⟩
    · exact (Json.hasType_object_iff (by simp only [List.map]; decide) _).2 rfl
    · exact Json.member_object_members _ (by simp only [List.map]; decide) "code"
  · next target htarget =>
    exact .accepted target htarget (Gateway.waiting_eraseTools c.gateway _) rfl rfl rfl

theorem takes_takeAgent (hlib : platform.json.Strict) {callId : Str} (hid : Utf8.Valid callId)
    (callee : ConnId) (ctx : SessionCtx) (output : Str) (confidence : ν) (now : Clock) (c : Calls ν) :
    Takes callee (.agents, callId) c
      (takeAgent platform callee ctx callId output confidence now c) := by
  unfold takeAgent
  split
  · next hnone =>
    have hvalid : (WsChatController.noPending callId : Json ν).Valid := by
      refine Json.valid_object_members ?_
      simp only [List.forall_mem_cons, valid_str, true_and, Json.valid_string]
      exact ⟨hid, by simp⟩
    refine .of_none platform hlib hnone hvalid ⟨?_, ?_⟩
    · exact (Json.hasType_object_iff (by simp only [List.map]; decide) _).2 rfl
    · exact Json.member_object_members _ (by simp only [List.map]; decide) "code"
  · next caller hcaller =>
    exact .accepted caller hcaller (Gateway.waiting_eraseAgents c.gateway _) rfl rfl rfl

theorem delivers_deliverTool (executor target : ConnId) (requestId callId content : Str) (c : Calls ν) :
    Delivers (.tools, Gateway.toolKey requestId callId) c
      (.finished,
        { gateway := (Gateway.deliverTool platform executor target requestId callId content
            c.gateway).state
          log :=
            if c.gateway.isConnected target ∧
                (Gateway.deliverTool platform executor target requestId callId content
                  c.gateway).threw = false then
              c.log ++ [.forwarded (.tools, Gateway.toolKey requestId callId)]
            else c.log }) := by
  obtain ⟨sent, h⟩ := Gateway.deliverTool_state platform executor target requestId callId content c.gateway
  refine .of_sendsOne (by rw [h]; rfl) (fun hconnected => ?_) fun hgone => ?_
  · rw [Gateway.deliverTool, if_pos hconnected]
    exact sendsOne_wsSend platform
      ⟨rfl, Or.inr ((Json.hasType_object_iff (by simp only [List.map]; decide) _).2 rfl)⟩ _
  · rw [Gateway.deliverTool, if_neg (by rw [hgone]; exact Bool.false_ne_true)]
    exact sendsOne_wsSend platform
      ((Json.hasType_object_iff (by simp only [List.map]; decide) _).2 rfl) _

variable [Double ν]

theorem sendsOne_deliverResult (caller : ConnId) (callerCtx ctx : SessionCtx) (callId output : Str)
    (confidence : ν) (now : Clock) (g : WsChatController ν) :
    SendsOne (fun p => p.1 = caller ∧ (p.2.HasType "agent_result" ∨ p.2.HasType "tool_result")) g
      (WsChatController.deliverResult platform caller callerCtx ctx callId output confidence now g) := by
  unfold WsChatController.deliverResult Outcome.andThen
  dsimp only
  split
  · next hthrew => exact Or.inl ⟨hthrew, rfl⟩
  · cases platform.json.parse (if output = [] then str "\x7b\x7d" else output) with
    | none => exact Or.inl ⟨rfl, rfl⟩
    | some outputJson =>
      exact sendsOne_wsSend platform
        ⟨rfl, Or.inl ((Json.hasType_object_iff (by simp only [List.map]; decide) _).2 rfl)⟩ _

theorem delivers_answerCall (callee caller : ConnId) (ctx : SessionCtx) (callId output : Str)
    (confidence : ν) (now : Clock) (c : Calls ν) :
    Delivers (.agents, callId) c
      ((CallThread.deliverAgentResult callee caller ctx callId output confidence now).advance platform
        c) := by
  obtain ⟨cache, sent, h⟩ := WsChatController.answerCall_state platform callee caller ctx callId output
    confidence now c.gateway.toWsChatController
  rw [advance]
  refine .of_sendsOne (by rw [Gateway.onController_state h]; rfl) (fun hconnected => ?_) fun hgone => ?_
  · obtain ⟨callerCtx, hopen⟩ := Gateway.isConnected_iff.1 hconnected
    show SendsOne _ _ (WsChatController.answerCall platform callee caller ctx callId output confidence now
      c.gateway.toWsChatController)
    rw [WsChatController.answerCall_of_connected platform hopen]
    exact sendsOne_deliverResult platform caller callerCtx ctx callId output confidence now _
  · show SendsOne _ _ (WsChatController.answerCall platform callee caller ctx callId output confidence now
      c.gateway.toWsChatController)
    rw [WsChatController.answerCall_of_gone platform (Gateway.lookup_ne_of_gone hgone)]
    exact sendsOne_wsSend platform
      ((Json.hasType_object_iff (by simp only [List.map]; decide) _).2 rfl) _

theorem delivers_advance {t : CallThread ν} {κ : CallTable × Str} (h : t.owed = some κ) (c : Calls ν) :
    Delivers κ c (t.advance platform c) := by
  cases t with
  | deliverAgentResult callee caller ctx callId output confidence now =>
    cases h
    exact delivers_answerCall platform callee caller ctx callId output confidence now c
  | deliverToolResult executor target requestId callId content =>
    cases h
    exact delivers_deliverTool platform executor target requestId callId content c
  | _ => cases h

/-- The sender and the key of a result that arrives. -/
def resultOf (event : Event × Clock) (g : Gateway ν) : Option (ConnId × CallTable × Str) :=
  match received platform event g with
  | some (conn, _, .toolResult requestId callId _) =>
      some (conn, .tools, Gateway.toolKey requestId callId)
  | some (conn, _, .agentResult callId _ _) => some (conn, .agents, callId)
  | _ => none

theorem takes_arrive (hlib : platform.json.Strict) {event : Event × Clock} {conn : ConnId}
    {κ : CallTable × Str} {c : Calls ν} (h : resultOf platform event c.gateway = some (conn, κ)) :
    Takes conn κ c (arrive platform event c) := by
  obtain ⟨event, now⟩ := event
  cases event with
  | message conn' text nanos verdict =>
    unfold resultOf at h
    unfold arrive
    cases hmsg : received platform (.message conn' text nanos verdict, now) c.gateway with
    | none =>
      rw [hmsg] at h
      cases h
    | some r =>
      obtain ⟨conn'', ctx, msg⟩ := r
      have hids : ∀ s ∈ msg.resultIds, Utf8.Valid s := by
        obtain ⟨ctx', -, hmap⟩ := Option.bind_eq_some_iff.1 hmsg
        obtain ⟨msg', hread, heq⟩ := Option.map_eq_some_iff.1 hmap
        obtain rfl : msg' = msg := by
          simp only [Prod.mk.injEq] at heq
          exact heq.2.2
        exact Message.valid_resultIds hlib msg' hread
      rw [hmsg] at h
      cases msg with
      | toolResult requestId callId content =>
        cases h
        exact takes_takeTool platform hlib (hids requestId (by simp [Message.resultIds])) conn callId
          content c
      | agentResult callId output confidence =>
        cases h
        exact takes_takeAgent platform hlib (hids callId (by simp [Message.resultIds])) conn ctx output
          confidence now c
      | _ => cases h
  | _ => cases h

/-- What holds of the answers in a state of an interleaving. -/
structure AtMostOnce (s : System (CallThread ν) (Calls ν)) : Prop where
  accepted (κ : CallTable × Str) :
    s.shared.log.count (.accepted κ) ≤ s.shared.log.count (.registered κ)
  forwarded (κ : CallTable × Str) :
    s.shared.log.count (.forwarded κ) ≤ s.shared.log.count (.accepted κ)
  /-- Of the results that come for an entry exactly one is accepted. -/
  one (pre mid : List (Entry (CallTable × Str))) (κ : CallTable × Str) :
    s.shared.log = pre ++ mid → .registered κ ∉ mid →
    PendingTable.History.waiting κ pre = true → (.accepted κ ∈ mid ∨ .refused κ ∈ mid) →
      mid.count (.accepted κ) = 1
  /-- The log tells where entries are. -/
  entries (κ : CallTable × Str) :
    PendingTable.History.waiting κ s.shared.log = (s.shared.gateway.waiting κ).isSome
  /-- What is logged is what is done to the tables. -/
  logged (i : ℕ) (t : CallThread ν) : s.threads[i]? = some t → Logged t s.shared (t.advance platform s.shared)
  takes (i : ℕ) (event : Event × Clock) (conn : ConnId) (κ : CallTable × Str) :
    s.threads[i]? = some (.arrived event) → resultOf platform event s.shared.gateway = some (conn, κ) →
      Takes conn κ s.shared ((CallThread.arrived event).advance platform s.shared)
  delivers (i : ℕ) (t : CallThread ν) (κ : CallTable × Str) :
    s.threads[i]? = some t → t.owed = some κ → Delivers κ s.shared (t.advance platform s.shared)

/-- In every interleaving of the handlers of any number of connections, answers are given at most once. -/
theorem answers_at_most_once (hlib : platform.json.Strict) (data idx : Option Str) (l3 : L3ArchiveStore)
    (acts : List (Action (Event × Clock) Unit)) :
    AtMostOnce platform (Threads.run (program platform) (fresh platform data idx l3) acts) := by
  have hkept := kept_run platform data idx l3 acts
  refine
    { accepted := fun κ => Nat.le_trans (Nat.le_add_right _ _) (hkept.sound.count_accepted κ)
      forwarded := count_forwarded_run platform data idx l3 acts
      one := fun pre mid κ hlog hmid => ?_
      entries := hkept.waiting
      logged := fun _ t _ => logged_advance platform t _
      takes := fun _ event _ _ _ h => takes_arrive platform hlib h
      delivers := fun _ t _ _ h => delivers_advance platform h _ }
  have hsound := hkept.sound
  rw [hlog] at hsound
  exact hsound.count_accepted_eq_one hmid

end Results

/-! ## Two results for one call -/

open Watched (solverJson solveJson solvedJson solveGateway connects tells)

/-- The library as it behaves on the messages of the run, with its checks. -/
def raceGateway : GatewayPlatform ℚ where
  toHost := solveGateway.toHost
  json := JsonLib.checked Json.showRat [solverJson, solveJson, solvedJson, .object []]
  evpSha256 := solveGateway.evpSha256

/-- A client calls an agent, which sends two results.  The second one is handled first. -/
def raceActs : List (Action (Event × Clock) Unit) :=
  [.spawn (connects 1), .resume 0 (), .spawn (connects 2), .resume 1 (),
    .spawn (tells 1 solverJson), .resume 2 (), .spawn (tells 0 solveJson),
    .resume 3 (), .resume 3 (), .resume 3 (), .resume 3 (),
    .spawn (tells 1 solvedJson), .spawn (tells 1 solvedJson),
    .resume 5 (), .resume 4 (), .resume 5 ()]

/-- One of them is accepted and forwarded. -/
theorem answers_at_most_once_race :
    (Threads.run (program raceGateway) (fresh raceGateway none none {}) raceActs).shared.log =
        [.registered (.agents, str "c1"), .accepted (.agents, str "c1"), .refused (.agents, str "c1"),
          .forwarded (.agents, str "c1")] ∧
      AtMostOnce raceGateway
        (Threads.run (program raceGateway) (fresh raceGateway none none {}) raceActs) :=
  ⟨by decide +kernel,
    answers_at_most_once raceGateway (JsonLib.checked_strict Json.showRat _) none none {} raceActs⟩

end CallThread

end LlmGateway
