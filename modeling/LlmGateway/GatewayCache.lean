import LlmGateway.QueryHits
import LlmGateway.WsChatController

/-!
# What agent calls are answered with

`runs_run`: what a message does to the caches is a run of the coordinator, so whatever holds of the
coordinator's runs holds of the caches of the gateway.

`query_answers_result_iff`: the key under which a result is stored is made of the agent's name, the
constant `agent_call` and the hash of the output, while a call looks up the target, the capability and
the hash of the input.  So a stored result answers a call only where these coincide, or where the
session leads to it.
-/

namespace LlmGateway

namespace WsChatController

variable {ν : Type}

/-! ## The caches in a run -/

section Cache

theorem wsSend_cache (platform : GatewayPlatform ν) (conn : ConnId) (msg : Json ν)
    (g : WsChatController ν) : (wsSend platform conn msg g).state.cache = g.cache := by
  unfold wsSend
  split <;> rfl

theorem wsSendToSession_cache (platform : GatewayPlatform ν) (sessionId : Str) (msg : Json ν)
    (g : WsChatController ν) : (wsSendToSession platform sessionId msg g).state.cache = g.cache := by
  unfold wsSendToSession
  split
  · exact wsSend_cache platform _ msg g
  · split_ifs <;> rfl

variable [Double ν] (platform : GatewayPlatform ν)

/-- The caches after are those before after a run of the coordinator. -/
def Runs (c c' : CacheCoordinator ν) : Prop :=
  ∃ ops, c' = CacheCoordinator.run platform.toPlatform c ops

theorem Runs.refl (c : CacheCoordinator ν) : Runs platform c c := ⟨[], rfl⟩

theorem Runs.apply (op : CacheCoordinator.Op ν) (now : Clock) (c : CacheCoordinator ν) :
    Runs platform c (op.apply platform.toPlatform now c).state := ⟨[(op, now)], rfl⟩

variable {platform} in
theorem Runs.trans {c c' c'' : CacheCoordinator ν} (h : Runs platform c c')
    (h' : Runs platform c' c'') : Runs platform c c'' := by
  obtain ⟨ops, rfl⟩ := h
  obtain ⟨ops', rfl⟩ := h'
  exact ⟨ops ++ ops', (Outcome.run_append c ops ops').symm⟩

variable {platform} in
/-- One operation after the other, whether or not the first throws. -/
theorem Runs.andThen {c : CacheCoordinator ν} {o : Outcome (WsChatController ν)}
    {f : WsChatController ν → Outcome (WsChatController ν)} (ho : Runs platform c o.state.cache)
    (hf : ∀ g : WsChatController ν, Runs platform g.cache (f g).state.cache) :
    Runs platform c (o.andThen f).state.cache :=
  Outcome.state_andThen (fun g => Runs platform c g.cache) ho fun g hg => hg.trans (hf g)

omit [Double ν] in
theorem forwardCall_cache (caller : ConnId) (ctx : SessionCtx)
    (callId targetAgentId capability input : Str) (g : WsChatController ν) :
    (forwardCall platform caller ctx callId targetAgentId capability input g).state.cache =
      g.cache := by
  unfold forwardCall
  dsimp only
  split
  · exact wsSend_cache platform _ _ g
  · split
    · rfl
    · exact wsSendToSession_cache platform _ _ _

theorem runs_routeAgentCall (caller : ConnId) (ctx : SessionCtx)
    (callId targetAgentId capability input : Str) (bypassCache : Bool) (now : Clock)
    (g : WsChatController ν) :
    Runs platform g.cache (routeAgentCall platform caller ctx callId targetAgentId capability input
      bypassCache now g).state.cache := by
  have hquery : Runs platform g.cache
      (queryCall platform targetAgentId capability input ctx.sessionId now g.cache).2 :=
    Runs.apply platform (.query _ capability (sha256 platform input) ctx.sessionId) now g.cache
  unfold routeAgentCall
  split_ifs
  · rw [forwardCall_cache]
    exact Runs.refl platform g.cache
  · dsimp only
    split
    · next hit _ =>
      refine Runs.andThen (by rw [wsSend_cache]; exact hquery) fun g => ?_
      exact Runs.apply platform
        (.appendTurn ctx.sessionId (cachedTurn callId capability input hit now)) now g.cache
    · rw [forwardCall_cache]
      exact hquery

theorem runs_deliverResult (caller : ConnId) (callerCtx ctx : SessionCtx) (callId output : Str)
    (confidence : ν) (now : Clock) (g : WsChatController ν) :
    Runs platform g.cache
      (deliverResult platform caller callerCtx ctx callId output confidence now g).state.cache := by
  refine Runs.andThen ?_ fun g => ?_
  · exact Runs.apply platform (.write (resultEntry platform ctx callId output confidence)) now g.cache
  · have happend := Runs.apply platform (.appendTurn callerCtx.sessionId
      (resultTurn platform ctx callId output confidence now)) now g.cache
    dsimp only
    split
    · exact happend
    · rw [wsSend_cache]
      exact happend

theorem runs_routeAgentResult (callee : ConnId) (ctx : SessionCtx) (callId output : Str)
    (confidence : ν) (now : Clock) (g : WsChatController ν) :
    Runs platform g.cache
      (routeAgentResult platform callee ctx callId output confidence now g).state.cache := by
  unfold routeAgentResult
  split
  · rw [wsSend_cache]
    exact Runs.refl platform g.cache
  · dsimp only
    split
    · exact runs_deliverResult platform _ _ ctx callId output confidence now _
    · rw [wsSend_cache]
      exact Runs.refl platform g.cache

/-- The handling of a result for which a caller waits on an open connection. -/
theorem step_agentResult {callee caller : ConnId} {ctx callerCtx : SessionCtx} {callId : Str}
    {g : WsChatController ν} (hctx : g.conns.lookup callee = some ⟨ctx, true⟩)
    (hcaller : g.pendingAgents.lookup callId = some caller)
    (hopen : g.conns.lookup caller = some ⟨callerCtx, true⟩) (output : Str) (confidence : ν)
    (now : Clock) :
    step platform (.agentResult callee callId output confidence, now) g =
      deliverResult platform caller callerCtx ctx callId output confidence now
        { g with pendingAgents := g.pendingAgents.erase callId } := by
  simp only [step, fromOpen, hctx, routeAgentResult, hcaller, hopen]

theorem runs_handleConnectionClosed (conn : ConnId) (ctx : SessionCtx) (now : Clock)
    (g : WsChatController ν) :
    Runs platform g.cache (handleConnectionClosed platform conn ctx now g).state.cache := by
  refine Runs.andThen ?_ fun g => Runs.refl platform g.cache
  split_ifs
  · exact Runs.apply platform (.archiveSession ctx.sessionId) now g.cache
  · exact Runs.refl platform g.cache

theorem runs_step (event : Event ν × Clock) (g : WsChatController ν) :
    Runs platform g.cache (step platform event g).state.cache := by
  have fromOpen (conn : ConnId) (f : SessionCtx → WsChatController ν → Outcome (WsChatController ν))
      (hf : ∀ ctx, Runs platform g.cache (f ctx g).state.cache) :
      Runs platform g.cache (fromOpen conn f g).state.cache := by
    unfold WsChatController.fromOpen
    split
    · exact hf _
    · exact Runs.refl platform g.cache
  obtain ⟨event, now⟩ := event
  cases event with
  | connect clientIp role nanos =>
    simp only [step, handleNewConnection, wsSend_cache]
    exact Runs.refl platform g.cache
  | registerAgent conn agentName capabilities =>
    refine fromOpen conn _ fun ctx => ?_
    rw [registerAgent, wsSend_cache]
    exact Runs.refl platform g.cache
  | agentCall conn callId targetAgentId capability input bypassCache =>
    exact fromOpen conn _ fun ctx => runs_routeAgentCall platform conn ctx callId targetAgentId
      capability input bypassCache now g
  | agentResult conn callId output confidence =>
    exact fromOpen conn _ fun ctx =>
      runs_routeAgentResult platform conn ctx callId output confidence now g
  | cacheInvalidate conn key reason cascading =>
    refine fromOpen conn _ fun ctx => Runs.andThen ?_ fun g => ?_
    · exact Runs.apply platform (.invalidate key reason cascading) now g.cache
    · rw [wsSend_cache]
      exact Runs.refl platform g.cache
  | close conn =>
    exact fromOpen conn _ fun ctx => runs_handleConnectionClosed platform conn ctx now g

/-- In every run of the gateway the caches go through a run of the coordinator. -/
theorem runs_run (g : WsChatController ν) (events : List (Event ν × Clock)) :
    Runs platform g.cache (run platform g events).cache :=
  Outcome.run_invariant (fun g' => Runs platform g.cache g'.cache) (Runs.refl platform g.cache)
    fun g' event _ h => h.trans (runs_step platform event g')

/-- In every reachable state every entry is stored under its own key. -/
theorem keyed_run (data idx : Option Str) (l3 : L3ArchiveStore) (events : List (Event ν × Clock)) :
    (run platform (start platform data idx l3) events).cache.Keyed := by
  obtain ⟨ops, hops⟩ := runs_run platform (start platform data idx l3) events
  rw [hops]
  exact CacheCoordinator.keyed_run platform.toPlatform
    (CacheCoordinator.keyed_init platform.toPlatform data idx l3) ops

end Cache

/-! ## Answering a call with a result -/

section Answer

open CacheCoordinator (cacheKey upClock)

variable (platform : GatewayPlatform ν)

/-- The key of a result is the one that a call to `agentName` for `agent_call` composes from the
output. -/
theorem resultKey_eq (agentName output : Str) :
    resultKey platform agentName output =
      cacheKey agentName (str "agent_call") (sha256 platform output) := by
  rw [resultKey, CacheCoordinator.cacheKey_eq]
  have hconst : str ":agent_call:" = str ":" ++ str "agent_call" ++ str ":" := by decide
  simp only [hconst, List.append_assoc]

variable [Double ν]

/-- In every reachable state, a call is answered with a result that the persistent cache holds live
exactly if target and capability spell the agent's name and `agent_call` and the input is the output,
and no other entry comes before, or if the result is that of the session's newest turn of the
capability. -/
theorem query_answers_result_iff (data idx : Option Str) (l3 : L3ArchiveStore)
    (events : List (Event ν × Clock)) (agentName output : Str) (now : Clock)
    (hlive : ((run platform (start platform data idx l3) events).cache.l2.live
      (resultKey platform agentName output) now.wall).isSome)
    (targetAgentId capability input sessionId : Str)
    (hcollision : platform.evpSha256 input = platform.evpSha256 output → input = output) :
    let c := (run platform (start platform data idx l3) events).cache
    let key := cacheKey (askedAgent targetAgentId) capability (sha256 platform input)
    (∃ r, (queryCall platform targetAgentId capability input sessionId now c).1 = some r ∧
      r.entry.key = resultKey platform agentName output) ↔
    (askedAgent targetAgentId ++ str ":" ++ capability = agentName ++ str ":" ++ str "agent_call" ∧
      input = output ∧
      ((c.l1.live key now.steady).isSome ∨ c.sessionEntry capability sessionId now = none)) ∨
    (c.l1.live key now.steady = none ∧
      ∃ sb turn, c.sessions.lookup sessionId = some sb ∧ sb.newest capability = some turn ∧
        turn.cacheKey = resultKey platform agentName output) := by
  have hkeyed := keyed_run platform data idx l3 events
  generalize (run platform (start platform data idx l3) events).cache = c at hlive hkeyed
  have hkey : cacheKey (askedAgent targetAgentId) capability (sha256 platform input) =
      resultKey platform agentName output ↔
        askedAgent targetAgentId ++ str ":" ++ capability =
          agentName ++ str ":" ++ str "agent_call" ∧ input = output := by
    rw [resultKey_eq, CacheCoordinator.cacheKey_eq_iff (by rw [length_sha256, length_sha256]),
      sha256_inj]
    exact and_congr_right fun _ => ⟨hcollision, congrArg platform.evpSha256⟩
  have hanswers := CacheCoordinator.query_answers_iff hkeyed hlive (askedAgent targetAgentId)
    capability (sha256 platform input) sessionId
  dsimp only
  rw [← and_assoc, ← hkey]
  refine hanswers.trans (or_congr_left (and_congr_right fun h => ?_))
  rw [h]

/-! ## A run with a solver -/

/-- `{"q":1}`. -/
def firstQuestion : Str := str "\x7b\"q\":1\x7d"

/-- `{"q":2}`. -/
def secondQuestion : Str := str "\x7b\"q\":2\x7d"

/-- `{"a":1}`. -/
def solution : Str := str "\x7b\"a\":1\x7d"

/-- The machine of `upClock`, with the digests of the texts of the run. -/
def upGateway : GatewayPlatform ℚ where
  hash _ := 0
  localtime _ := ⟨123, 10, 14⟩
  json := JsonLib.on Json.showRat
    [.object [(str "q", .int 1)], .object [(str "q", .int 2)], .object [(str "a", .int 1)]]
  evpSha256 text :=
    if text = firstQuestion then
      #v[0x6a, 0xe0, 0xf6, 0x60, 0x04, 0x6d, 0xad, 0xcf, 0x5f, 0xe8, 0x46, 0x2c, 0x0e, 0x00, 0xa0, 0x62,
        0xdb, 0x4c, 0x8d, 0x67, 0xbe, 0x82, 0xf4, 0x09, 0x8c, 0x5e, 0xa4, 0x20, 0x8d, 0x19, 0xb0, 0x76]
    else if text = secondQuestion then
      #v[0xf3, 0x9f, 0xb1, 0x34, 0x39, 0x84, 0x74, 0xc0, 0xc9, 0xc4, 0x85, 0x8a, 0x79, 0x5d, 0x6f, 0x2a,
        0xb0, 0xff, 0xbe, 0x9a, 0xd9, 0x87, 0x53, 0x08, 0x11, 0xf8, 0xb2, 0x09, 0x36, 0x55, 0xd2, 0x0f]
    else
      #v[0x01, 0x5a, 0xbd, 0x7f, 0x5c, 0xc5, 0x7a, 0x2d, 0xd9, 0x4b, 0x75, 0x90, 0xf0, 0x4a, 0xd8, 0x08,
        0x42, 0x73, 0x90, 0x5e, 0xe3, 0x3e, 0xc5, 0xce, 0xbe, 0xae, 0x62, 0x27, 0x6a, 0x97, 0xf8, 0x62]

/-- A client asks for `solve`, and the agent `solver` gets the call. -/
def asked : List (Event ℚ × Clock) :=
  [(.connect (str "10.0.0.1") [] 1, upClock 0),
    (.connect (str "10.0.0.2") [] 2, upClock 1),
    (.registerAgent 1 (some (str "solver")) [⟨str "solve", [], [], [], 1⟩], upClock 2),
    (.agentCall 0 (str "c1") [] (str "solve") firstQuestion false, upClock 3)]

/-- The agent answers. -/
def solved : List (Event ℚ × Clock) :=
  asked ++ [(.agentResult 1 (str "c1") solution (9 / 10), upClock 4)]

/-- The gateway when the call is solved. -/
def solvedState : WsChatController ℚ := run upGateway (start upGateway none none {}) solved

theorem solvedState_live :
    (solvedState.cache.l2.live (resultKey upGateway (str "solver") solution)
      (upClock 5).wall).isSome := by
  decide +kernel

/-- The client asks again while the result is live, and the call is forwarded again. -/
theorem solved_call_forwarded_again :
    (run upGateway (start upGateway none none {}) asked).pendingAgents.lookup (str "c1") = some 0 ∧
      (solvedState.cache.l2.live (resultKey upGateway (str "solver") solution)
        (upClock 5).wall).isSome ∧
      (queryCall upGateway [] (str "solve") firstQuestion (str "1-0") (upClock 5)
        solvedState.cache).1.isNone ∧
      (run upGateway solvedState [(.agentCall 0 (str "c2") [] (str "solve") firstQuestion false,
        upClock 5)]).pendingAgents.lookup (str "c2") = some 0 := by
  refine ⟨?_, solvedState_live, ?_, ?_⟩
  · decide +kernel
  · decide +kernel
  · decide +kernel

/-- A call with another input is answered with the result, although it composes another key. -/
theorem query_answers_other_input :
    ∃ r, (queryCall upGateway [] (str "agent_call") secondQuestion (str "1-0") (upClock 5)
        solvedState.cache).1 = some r ∧
      r.entry.key = resultKey upGateway (str "solver") solution ∧
      r.entry.key ≠
        cacheKey (str "any") (str "agent_call") (sha256 upGateway secondQuestion) := by
  have hkey : ((queryCall upGateway [] (str "agent_call") secondQuestion (str "1-0") (upClock 5)
      solvedState.cache).1.map fun r => r.entry.key) =
        some (resultKey upGateway (str "solver") solution) := by
    decide +kernel
  obtain ⟨r, hr, hrkey⟩ := Option.map_eq_some_iff.1 hkey
  refine ⟨r, hr, hrkey, ?_⟩
  rw [hrkey]
  decide

end Answer

end WsChatController

end LlmGateway
