import LlmGateway.GatewayCache
import LlmGateway.ReadYourWrites

/-!
# The reply of the agent and the reply of the cache

A result is delivered with the payload that the agent sent, and a later call that the cache answers gets
the summary, the session of the agent in the place of its name, and the archive reference, which the
delivered message never has: `write` completes a copy of the entry.

`cachedReply_agrees_iff` says when the two messages agree all the same.
-/

namespace LlmGateway

namespace WsChatController

open CacheCoordinator (stamped l2Entry)

variable {ν : Type} [Double ν] (platform : GatewayPlatform ν)

/-! ## The delivered message -/

/-- The message that delivers a result. -/
def directReply (ctx : SessionCtx) (callId : Str) (outputJson : Json ν) (confidence : ν) : Json ν :=
  .object (Json.members [
    (str "type", .string (str "agent_result")),
    (str "call_id", .string callId),
    (str "agent_id", .string ctx.agentName),
    (str "output", outputJson),
    (str "confidence", .float confidence),
    (str "cache_status", .string (str "fresh")),
    (str "context_ref", .string [])])

/-- The payload of a result, as the delivered message has it. -/
def payload (output : Str) : Option (Json ν) :=
  platform.json.parse (if output = [] then str "\x7b\x7d" else output)

omit [Double ν] in
theorem wsSend_returns {conn : ConnId} {msg : Json ν} {g : WsChatController ν}
    (h : (wsSend platform conn msg g).threw = false) :
    (wsSend platform conn msg g).state.sent = g.sent ++ [(conn, msg)] := by
  rw [wsSend] at h ⊢
  split at h
  · cases h
  · rfl

/-- A result that is delivered has a payload, and nothing else is sent. -/
theorem deliverResult_returns {caller : ConnId} {callerCtx ctx : SessionCtx} {callId output : Str}
    {confidence : ν} {now : Clock} {g : WsChatController ν}
    (h : (deliverResult platform caller callerCtx ctx callId output confidence now g).threw = false) :
    ∃ outputJson, payload platform output = some outputJson ∧
      (deliverResult platform caller callerCtx ctx callId output confidence now g).state.sent =
        g.sent ++ [(caller, directReply ctx callId outputJson confidence)] := by
  rw [deliverResult] at h ⊢
  cases hwrite : (onCache (CacheCoordinator.write platform.toPlatform
      (resultEntry platform ctx callId output confidence) now) g).threw with
  | true =>
    rw [Outcome.andThen, if_pos hwrite, hwrite] at h
    cases h
  | false =>
    rw [Outcome.andThen_of_returns hwrite] at h ⊢
    dsimp only at h ⊢
    rw [← payload] at h ⊢
    cases hpayload : payload platform output with
    | none =>
      rw [hpayload] at h
      cases h
    | some outputJson =>
      rw [hpayload] at h
      exact ⟨outputJson, rfl, wsSend_returns platform h⟩

/-! ## The empty reference -/

theorem makeKeyPath_ne_nil (host : Host) (key : Str) (tsMs : Int64) (s : L3ArchiveStore) :
    s.makeKeyPath host key tsMs ≠ [] := by
  intro h
  rw [L3ArchiveStore.makeKeyPath, List.append_eq_nil_iff] at h
  exact absurd h.2 (by decide)

/-- The archive never gets a file without a path. -/
theorem empty_path_run (platform : Platform ν) {c : CacheCoordinator ν}
    (hc : c.l3.files.lookup [] = none) (ops : List (CacheCoordinator.Op ν × Clock)) :
    (CacheCoordinator.run platform c ops).l3.files.lookup [] = none := by
  refine Outcome.run_invariant (fun c : CacheCoordinator ν => c.l3.files.lookup [] = none) hc
    fun c op _ hc => ?_
  rw [CacheCoordinator.apply_l3]
  split
  · exact hc
  · rw [L3ArchiveStore.put, AList.lookup_insert_ne (makeKeyPath_ne_nil _ _ _ _).symm]
    exact hc

/-- In every reachable state the empty reference gives nothing. -/
theorem get_empty_ref (data idx : Option Str) {l3 : L3ArchiveStore}
    (hpath : l3.files.lookup [] = none) (events : List (Event ν × Clock)) :
    (run platform (start platform data idx l3) events).cache.l3.get [] = none := by
  obtain ⟨ops, hops⟩ := runs_run platform (start platform data idx l3) events
  rw [hops]
  exact empty_path_run platform.toPlatform hpath ops

/-! ## Agreement -/

/-- The entry is a copy, some calls later, of what a result stored in one of the caches. -/
def StoredBy (l3 : L3ArchiveStore) (ctx : SessionCtx) (callId output : Str) (confidence : ν)
    (now : Clock) (e : CacheEntry ν) : Prop :=
  let entry := stamped now (resultEntry platform ctx callId output confidence)
  e.record = entry.record ∨ e.record = (l2Entry platform.toPlatform now l3 entry).record

theorem StoredBy.fields {l3 : L3ArchiveStore} {ctx : SessionCtx} {callId output : Str}
    {confidence : ν} {now : Clock} {e : CacheEntry ν}
    (h : StoredBy platform l3 ctx callId output confidence now e) :
    e.agentId = ctx.sessionId ∧ e.outputSummary = output.take 200 := by
  have hentry : (stamped now (resultEntry platform ctx callId output confidence)).agentId =
        ctx.sessionId ∧
      (stamped now (resultEntry platform ctx callId output confidence)).outputSummary =
        output.take 200 := by
    rw [stamped]
    split_ifs
    · exact ⟨rfl, rfl⟩
    · exact ⟨rfl, rfl⟩
  rw [StoredBy] at h
  generalize stamped now (resultEntry platform ctx callId output confidence) = entry at h hentry
  have hl2 : (l2Entry platform.toPlatform now l3 entry).agentId = entry.agentId ∧
      (l2Entry platform.toPlatform now l3 entry).outputSummary = entry.outputSummary := by
    rw [l2Entry]
    split_ifs
    · exact ⟨rfl, rfl⟩
    · exact ⟨rfl, rfl⟩
  rcases h with h | h
  · exact ⟨(congrArg CacheEntry.agentId h).trans hentry.1,
      (congrArg CacheEntry.outputSummary h).trans hentry.2⟩
  · exact ⟨(congrArg CacheEntry.agentId h).trans (hl2.1.trans hentry.1),
      (congrArg CacheEntry.outputSummary h).trans (hl2.2.trans hentry.2)⟩

/-- Two messages carry the same output and the same agent, and both a reference to the full output if it
is long. -/
def Agree (l3 : L3ArchiveStore) (output : Str) (direct cached : Json ν) : Prop :=
  cached.member "output" = direct.member "output" ∧
    cached.member "agent_id" = direct.member "agent_id" ∧
    (2048 < output.length → ∀ msg ∈ [direct, cached], ∃ ref,
      msg.member "context_ref" = some (.string ref) ∧ l3.get ref = some output)

omit [Double ν] in
theorem member_directReply (ctx : SessionCtx) (callId : Str) (outputJson : Json ν) (confidence : ν) :
    (directReply ctx callId outputJson confidence).member "output" = some outputJson ∧
      (directReply ctx callId outputJson confidence).member "agent_id" =
        some (.string ctx.agentName) ∧
      (directReply ctx callId outputJson confidence).member "context_ref" = some (.string []) := by
  refine ⟨?_, ?_, ?_⟩
  all_goals
    rw [directReply, Json.member_object_members _ (by simp only [List.map_cons, List.map_nil]; decide)]
    rfl

omit [Double ν] in
theorem member_cachedReply (callId : Str) (cached : CacheCoordinator.QueryResult ν) :
    (cachedReply callId cached).member "output" = some (.string cached.entry.outputSummary) ∧
      (cachedReply callId cached).member "agent_id" = some (.string cached.entry.agentId) := by
  refine ⟨?_, ?_⟩
  all_goals
    rw [cachedReply, Json.member_object_members _ (by simp only [List.map_cons, List.map_nil]; decide)]
    rfl

/-- The reply to a later call that is answered with what a delivered result stored agrees with the
delivered message exactly if the agent's name is its session, the payload is the string of its own first
200 bytes, and it is not long. -/
theorem cachedReply_agrees_iff (data idx : Option Str) (l3 : L3ArchiveStore)
    (hpath : l3.files.lookup [] = none) (before : List (Event ν × Clock)) (callee caller : ConnId)
    (ctx callerCtx : SessionCtx) (callId output : Str) (confidence : ν) (now : Clock) :
    let g := run platform (start platform data idx l3) before
    let o := step platform (.agentResult callee callId output confidence, now) g
    g.conns.lookup callee = some ⟨ctx, true⟩ → g.pendingAgents.lookup callId = some caller →
    g.conns.lookup caller = some ⟨callerCtx, true⟩ → o.threw = false →
    ∀ (later : List (Event ν × Clock)) (targetAgentId capability input sessionId callId' : Str)
      (now' : Clock) (r : CacheCoordinator.QueryResult ν),
    let g' := run platform o.state later
    (queryCall platform targetAgentId capability input sessionId now' g'.cache).1 = some r →
    StoredBy platform g.cache.l3 ctx callId output confidence now r.entry →
    ∃ direct, o.state.sent = g.sent ++ [(caller, direct)] ∧
      (Agree g'.cache.l3 output direct (cachedReply callId' r) ↔
        payload platform output = some (.string (output.take 200)) ∧
          ctx.agentName = ctx.sessionId ∧ output.length ≤ 2048) := by
  intro g o hctx hcaller hopen hreturns later targetAgentId capability input sessionId callId' now' r
    g' hr hstored
  have ho : o = deliverResult platform caller callerCtx ctx callId output confidence now
      { g with pendingAgents := g.pendingAgents.erase callId } :=
    step_agentResult platform hctx hcaller hopen output confidence now
  rw [ho] at hreturns
  obtain ⟨outputJson, hpayload, hsent⟩ := deliverResult_returns platform hreturns
  refine ⟨directReply ctx callId outputJson confidence, by rw [ho, hsent], ?_⟩
  have hempty : g'.cache.l3.get [] = none := by
    have hg' : g' = run platform (start platform data idx l3)
        (before ++ (.agentResult callee callId output confidence, now) :: later) := by
      rw [run, Outcome.run_append]
      rfl
    rw [hg']
    exact get_empty_ref platform data idx hpath _
  obtain ⟨hagent, hsummary⟩ := hstored.fields
  obtain ⟨houtput, hname, href⟩ := member_directReply ctx callId outputJson confidence
  obtain ⟨houtput', hname'⟩ := member_cachedReply callId' r
  rw [Agree, houtput, houtput', hname, hname', hagent, hsummary, hpayload]
  simp only [Option.some.injEq, Json.string.injEq]
  constructor
  · rintro ⟨hout, hid, hlong⟩
    refine ⟨hout.symm, hid.symm, Nat.not_lt.1 fun hlt => ?_⟩
    obtain ⟨ref, href', hget⟩ := hlong hlt _ List.mem_cons_self
    rw [href, Option.some.injEq, Json.string.injEq] at href'
    rw [← href', hempty] at hget
    cases hget
  · rintro ⟨hout, hid, hshort⟩
    exact ⟨hout.symm, hid.symm, fun hlt => absurd hlt (Nat.not_lt.2 hshort)⟩

/-! ## The run with a solver -/

section Solved

open CacheCoordinator (upClock)

/-- The gateway when the agent has the call. -/
def askedState : WsChatController ℚ := run upGateway (start upGateway none none {}) asked

/-- The session of the agent. -/
def solverCtx : SessionCtx where
  sessionId := str "2-1"
  clientIp := str "10.0.0.2"
  role := str "agent"
  agentName := str "solver"
  capabilities := [⟨str "solve", [], [], [], 1⟩]

theorem askedState_conns :
    askedState.conns.lookup 1 = some ⟨solverCtx, true⟩ ∧
      askedState.pendingAgents.lookup (str "c1") = some 0 ∧
      askedState.conns.lookup 0 = some ⟨{
        sessionId := str "1-0"
        clientIp := str "10.0.0.1"
        role := str "user" }, true⟩ := by
  decide +kernel

/-- The answer to a call that the session of the client leads to the result. -/
theorem solved_answer :
    ∃ r, (queryCall upGateway [] (str "agent_call") secondQuestion (str "1-0") (upClock 5)
        solvedState.cache).1 = some r ∧
      StoredBy upGateway askedState.cache.l3 solverCtx (str "c1") solution (9 / 10) (upClock 4)
        r.entry := by
  have h : ((queryCall upGateway [] (str "agent_call") secondQuestion (str "1-0") (upClock 5)
      solvedState.cache).1.map fun r => r.entry.record) =
        some (stamped (upClock 4)
          (resultEntry upGateway solverCtx (str "c1") solution (9 / 10))).record := by
    decide +kernel
  obtain ⟨r, hr, hrecord⟩ := Option.map_eq_some_iff.1 h
  exact ⟨r, hr, Or.inl hrecord⟩

theorem cachedReply_agrees_iff_solved :
    ∃ r, (queryCall upGateway [] (str "agent_call") secondQuestion (str "1-0") (upClock 5)
        solvedState.cache).1 = some r ∧
      ∃ direct, solvedState.sent = askedState.sent ++ [(0, direct)] ∧
        (Agree solvedState.cache.l3 solution direct (cachedReply (str "c2") r) ↔
          payload upGateway solution = some (.string (solution.take 200)) ∧
            solverCtx.agentName = solverCtx.sessionId ∧ solution.length ≤ 2048) := by
  obtain ⟨r, hr, hstored⟩ := solved_answer
  obtain ⟨hcallee, hcaller, hopen⟩ := askedState_conns
  refine ⟨r, hr, ?_⟩
  exact cachedReply_agrees_iff upGateway none none {} rfl asked 1 0 solverCtx _ (str "c1") solution
    (9 / 10) (upClock 4) hcallee hcaller hopen (by decide +kernel) [] [] (str "agent_call")
    secondQuestion (str "1-0") (str "c2") (upClock 5) r hr hstored

/-- The client gets the object from `solver` first, and its text from the session `2-1` when it asks
again. -/
theorem cachedReply_differs :
    ∃ direct r, solvedState.sent = askedState.sent ++ [(0, direct)] ∧
      (queryCall upGateway [] (str "agent_call") secondQuestion (str "1-0") (upClock 5)
        solvedState.cache).1 = some r ∧
      StoredBy upGateway askedState.cache.l3 solverCtx (str "c1") solution (9 / 10) (upClock 4)
        r.entry ∧
      ¬ Agree solvedState.cache.l3 solution direct (cachedReply (str "c2") r) := by
  obtain ⟨r, hr, hstored⟩ := solved_answer
  obtain ⟨hcallee, hcaller, hopen⟩ := askedState_conns
  have hstep := step_agentResult upGateway hcallee hcaller hopen solution (9 / 10) (upClock 4)
  have hreturns : (step upGateway (.agentResult 1 (str "c1") solution (9 / 10), upClock 4)
      askedState).threw = false := by
    decide +kernel
  rw [hstep] at hreturns
  obtain ⟨outputJson, -, hsent⟩ := deliverResult_returns upGateway hreturns
  refine ⟨directReply solverCtx (str "c1") outputJson (9 / 10), r, ?_, hr, hstored, ?_⟩
  · show (run upGateway (start upGateway none none {}) solved).sent = _
    rw [solved, run, Outcome.run_append, Outcome.run_cons, Outcome.run_nil]
    show (step upGateway (.agentResult 1 (str "c1") solution (9 / 10), upClock 4)
      askedState).state.sent = _
    rw [hstep, hsent]
  · rintro ⟨-, hagent, -⟩
    rw [(member_directReply ..).2.1, (member_cachedReply ..).2, hstored.fields.1,
      Option.some.injEq, Json.string.injEq] at hagent
    exact absurd hagent (by decide)

end Solved

end WsChatController

end LlmGateway
