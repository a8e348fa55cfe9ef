import LlmGateway.Utf8Caches

/-!
# Summaries that are cut inside a character

`route_agent_result` stores the first 200 bytes of an output as the summary of the entry, and
`route_agent_call`, when the cache answers, those of the input in the turn.

`serialisable_run_iff`: in a run of messages of valid text, every state can be saved and archived exactly
if no text that is summarised has a character across its byte 200 (`CutsCleanly`).  The invariant of such
runs is `ValidTexts`; a message with another text leaves an entry or a turn that is not valid
(`cutsCleanly_of_serialisable`).

A summary that is cut inside a character cannot be printed either, so that a call to which the cache holds
the result gets no answer.  `call_answers_result_iff`: the key under which a result is stored is made of the
agent's name, the constant `agent_call` and the hash of the output, while a call looks up the target, the
capability and the hash of the input; so the caller is sent the stored result only where these coincide, or
where the session leads to it, and only if the message is valid text.
-/

namespace LlmGateway

namespace WsChatController

open CacheCoordinator (QueryResult)
open L2PersistentCache (HasLines)

variable {ν : Type} (platform : GatewayPlatform ν)

/-! ## The condition -/

/-- The strings of a message that reach the caches. -/
def Event.strings : Event ν → List Str
  | .connect _ _ _ => []
  | .registerAgent _ agentName _ => agentName.toList
  | .agentCall _ callId targetAgentId capability input _ => [callId, targetAgentId, capability, input]
  | .agentResult _ callId output _ => [callId, output]
  | .cacheInvalidate _ key reason _ => [key, reason]
  | .close _ => []

/-- The caches hold a live answer to the call. -/
def Cached (targetAgentId capability input sessionId : Str) (now : Clock)
    (c : CacheCoordinator ν) : Prop :=
  let key := CacheCoordinator.cacheKey (askedAgent targetAgentId) capability (sha256 platform input)
  (c.l1.live key now.steady).isSome ∨ (c.sessionEntry capability sessionId now).isSome ∨
    (c.l2.live key now.wall).isSome

/-- No text of which the step keeps the first 200 bytes has a character across this cut: the output of a
result that somebody waits for, and the input of a call that the cache answers. -/
def CutsCleanly (g : WsChatController ν) (event : Event ν × Clock) : Prop :=
  match event.1 with
  | .agentCall conn _ targetAgentId capability input bypassCache =>
      ∀ ctx, g.conns.lookup conn = some ⟨ctx, true⟩ → bypassCache = false →
        Cached platform targetAgentId capability input ctx.sessionId event.2 g.cache →
        Utf8.Boundary 200 input
  | .agentResult conn callId output _ =>
      ∀ ctx caller callerCtx, g.conns.lookup conn = some ⟨ctx, true⟩ →
        g.pendingAgents.lookup callId = some caller →
        g.conns.lookup caller = some ⟨callerCtx, true⟩ → Utf8.Boundary 200 output
  | _ => True

/-- Short texts are not cut. -/
theorem cutsCleanly_of_short {g : WsChatController ν} {event : Event ν × Clock}
    (h : ∀ s ∈ event.1.strings, s.length ≤ 200) : CutsCleanly platform g event := by
  obtain ⟨event, now⟩ := event
  cases event with
  | agentCall conn callId targetAgentId capability input bypassCache =>
    intro _ _ _ _
    exact Utf8.boundary_of_length_le (h input (by simp [Event.strings]))
  | agentResult conn callId output confidence =>
    intro _ _ _ _ _ _
    exact Utf8.boundary_of_length_le (h output (by simp [Event.strings]))
  | _ => trivial

/-- Every string that the persistent cache and the sessions hold is valid UTF-8, every `set` of an
entry of valid text writes a line for every entry, and archiving releases every session. -/
structure Serialisable (g : WsChatController ν) : Prop where
  entries : ∀ k e, g.cache.l2.entries.lookup k = some e → e.Valid
  turns : ∀ id sb, g.cache.sessions.lookup id = some sb → ∀ t ∈ sb.turns, t.Valid
  set : ∀ e : CacheEntry ν, e.Valid →
    (g.cache.l2.set platform.json e.key e).threw = false ∧
      HasLines platform.json (g.cache.l2.set platform.json e.key e).state
  archive : ∀ id now,
    (g.cache.archiveSession platform.toPlatform id now).threw = false ∧
      (g.cache.archiveSession platform.toPlatform id now).state.sessions.lookup id = none

/-! ## The invariant -/

/-- All text of the caches, and of the contexts that it comes from, is valid UTF-8. -/
structure ValidTexts (g : WsChatController ν) : Prop where
  cache : g.cache.ValidTexts
  conns : ∀ conn c, g.conns.lookup conn = some c →
    Utf8.Valid c.ctx.sessionId ∧ Utf8.Valid c.ctx.agentName

variable {platform}

theorem ValidTexts.serialisable (hlib : platform.json.Strict) {g : WsChatController ν}
    (h : g.ValidTexts) : Serialisable platform g where
  entries k e he := (h.cache.l2.entries k e he).2
  turns id sb hsb := (h.cache.sessions id sb hsb).turns
  set e he := by
    obtain ⟨t, ht, hset⟩ := h.cache.l2.set platform.json he.key he
    rw [hset]
    exact L2PersistentCache.save_of_valid hlib ht
  archive id now := CacheCoordinator.archiveSession_of_valid hlib h.cache id now

/-! ### Parts of the handlers -/

theorem ValidTexts.wsSend {g : WsChatController ν} (h : g.ValidTexts) (conn : ConnId)
    (msg : Json ν) : (wsSend platform conn msg g).state.ValidTexts := by
  unfold WsChatController.wsSend
  split
  · exact h
  · exact ⟨h.cache, h.conns⟩

theorem ValidTexts.wsSendToSession {g : WsChatController ν} (h : g.ValidTexts) (sessionId : Str)
    (msg : Json ν) : (wsSendToSession platform sessionId msg g).state.ValidTexts := by
  unfold WsChatController.wsSendToSession
  split
  · exact h.wsSend _ msg
  · split_ifs
    · exact h
    · exact h

theorem ValidTexts.forwardCall {g : WsChatController ν} (h : g.ValidTexts) (caller : ConnId)
    (ctx : SessionCtx) (callId targetAgentId capability input : Str) :
    (forwardCall platform caller ctx callId targetAgentId capability input g).state.ValidTexts := by
  unfold WsChatController.forwardCall
  dsimp only
  split
  · exact h.wsSend _ _
  · have hpending : ({ g with pendingAgents := g.pendingAgents.insert callId caller } :
        WsChatController ν).ValidTexts := ⟨h.cache, h.conns⟩
    split
    · exact hpending
    · exact hpending.wsSendToSession _ _

theorem ValidTexts.onCache {g : WsChatController ν} (h : g.ValidTexts)
    {f : CacheCoordinator ν → Outcome (CacheCoordinator ν)} (hf : (f g.cache).state.ValidTexts) :
    (onCache f g).state.ValidTexts := ⟨hf, h.conns⟩

/-- A connection with a valid context is added, or replaced. -/
theorem ValidTexts.insertConn {g g' : WsChatController ν} (h : g.ValidTexts) {conn : ConnId}
    {c : Conn} (hc : Utf8.Valid c.ctx.sessionId ∧ Utf8.Valid c.ctx.agentName)
    (hcache : g'.cache = g.cache) (hconns : g'.conns = g.conns.insert conn c) : g'.ValidTexts where
  cache := hcache ▸ h.cache
  conns := by
    rw [hconns]
    exact AList.forall_lookup_insert h.conns hc

theorem ValidTexts.appendTurn {g : WsChatController ν} (h : g.ValidTexts) {sessionId : Str}
    (hid : Utf8.Valid sessionId) {turn : SessionTurn ν} (hturn : turn.Valid) :
    ({ g with cache := g.cache.appendTurn sessionId turn } : WsChatController ν).ValidTexts :=
  ⟨h.cache.appendTurn hid hturn, h.conns⟩

theorem hexDigit_lt {n : ℕ} (hn : n < 16) : hexDigit n < 128 := by
  have h : ∀ n : Fin 16, hexDigit n < 128 := by decide
  exact h ⟨n, hn⟩

theorem valid_sha256 (input : Str) : Utf8.Valid (sha256 platform input) := by
  refine Utf8.valid_flatMap fun b _ => Utf8.valid_ascii fun c hc => ?_
  have hb := b.toNat_lt
  simp only [hexByte, List.mem_cons, List.not_mem_nil, or_false] at hc
  rcases hc with rfl | rfl
  · exact hexDigit_lt (by omega)
  · exact hexDigit_lt (by omega)

theorem valid_resultKey {agentName : Str} (h : Utf8.Valid agentName) (output : Str) :
    Utf8.Valid (resultKey platform agentName output) :=
  (((valid_str _).append h).append (valid_str _)).append (valid_sha256 output)

/-- What the library must print to answer a call from the cache. -/
theorem valid_cachedReply_iff {callId : Str} {r : QueryResult ν} : (cachedReply callId r).Valid ↔
    Utf8.Valid callId ∧ Utf8.Valid r.entry.agentId ∧ Utf8.Valid r.entry.outputSummary ∧
      Utf8.Valid r.entry.fullRef := by
  have hstatus : Utf8.Valid (if r.stale then str "stale" else str "fresh") := by
    split_ifs
    · exact valid_str _
    · exact valid_str _
  rw [cachedReply, Json.valid_object_members_iff (by simp only [List.map_cons, List.map_nil]; decide)]
  simp [hstatus, valid_str]

theorem valid_cachedReply {callId : Str} (hcall : Utf8.Valid callId) {r : QueryResult ν}
    (hr : r.entry.Valid) : (cachedReply callId r).Valid :=
  valid_cachedReply_iff.2 ⟨hcall, hr _ (by simp [CacheEntry.strings]), hr _ (by simp [CacheEntry.strings]),
    hr _ (by simp [CacheEntry.strings])⟩

theorem valid_cachedTurn {callId capability input : Str} (hcall : Utf8.Valid callId)
    (hcap : Utf8.Valid capability) (hinput : Utf8.Valid (input.take 200)) {r : QueryResult ν}
    (hr : r.entry.Valid) (now : Clock) : (cachedTurn callId capability input r now).Valid := by
  simp only [CacheEntry.Valid, CacheEntry.strings, List.cons_append, List.nil_append,
    List.forall_mem_cons] at hr
  simp [SessionTurn.Valid, SessionTurn.strings, cachedTurn, hcall, hcap, hinput, hr]

/-- The context of a result and its texts are valid, and the output is cut cleanly. -/
structure ValidResult (ctx : SessionCtx) (callId output : Str) : Prop where
  sessionId : Utf8.Valid ctx.sessionId
  agentName : Utf8.Valid ctx.agentName
  summary : Utf8.Valid (output.take 200)
  callId : Utf8.Valid callId
  output : Utf8.Valid output

variable [Double ν]

theorem validTexts_start (hlib : platform.json.Strict) (data idx : Option Str) (files : UMap Str) :
    (start platform data idx { files }).ValidTexts where
  cache := CacheCoordinator.validTexts_init hlib data idx (valid_str _)
  conns _ _ h := by cases h

theorem valid_resultEntry {ctx : SessionCtx} {callId output : Str}
    (h : ValidResult ctx callId output) (confidence : ν) :
    (resultEntry platform ctx callId output confidence).Valid := by
  simp [CacheEntry.Valid, CacheEntry.strings, resultEntry, CacheEntry.empty,
    valid_resultKey h.agentName, h.sessionId, h.callId, h.output, h.summary, valid_str]

theorem valid_resultTurn {ctx : SessionCtx} {callId output : Str}
    (h : ValidResult ctx callId output) (confidence : ν) (now : Clock) :
    (resultTurn platform ctx callId output confidence now).Valid := by
  simp [SessionTurn.Valid, SessionTurn.strings, resultTurn, resultEntry,
    valid_resultKey h.agentName, h.agentName, h.callId, h.summary, valid_str]

/-! ## One step -/

theorem ValidTexts.routeAgentCall {g : WsChatController ν} (h : g.ValidTexts) (caller : ConnId)
    {ctx : SessionCtx} (hid : Utf8.Valid ctx.sessionId) {callId capability input : Str}
    (hcall : Utf8.Valid callId) (hcap : Utf8.Valid capability) (targetAgentId : Str)
    (bypassCache : Bool) (now : Clock)
    (hinput : bypassCache = false →
      Cached platform targetAgentId capability input ctx.sessionId now g.cache →
      Utf8.Valid (input.take 200)) :
    (routeAgentCall platform caller ctx callId targetAgentId capability input bypassCache now
      g).state.ValidTexts := by
  unfold WsChatController.routeAgentCall
  split_ifs with hbypass
  · exact h.forwardCall caller ctx callId targetAgentId capability input
  · obtain ⟨hentry, hcache⟩ := h.cache.query (askedAgent targetAgentId) capability
      (sha256 platform input) ctx.sessionId now
    have hqueried : ({ g with cache := (queryCall platform targetAgentId capability input
        ctx.sessionId now g.cache).2 } : WsChatController ν).ValidTexts := ⟨hcache, h.conns⟩
    dsimp only
    split
    · next r hr =>
      have hcached : Cached platform targetAgentId capability input ctx.sessionId now g.cache := by
        refine (CacheCoordinator.query_isSome_iff _ _ _ _ _ _).1 ?_
        rw [← queryCall, hr]
        rfl
      have hturn := valid_cachedTurn hcall hcap (hinput (by simpa using hbypass) hcached)
        (hentry r hr) now
      exact Outcome.state_andThen ValidTexts (hqueried.wsSend caller _) fun g hg =>
        hg.appendTurn hid hturn
    · exact hqueried.forwardCall caller ctx callId targetAgentId capability input

theorem ValidTexts.deliverResult {g : WsChatController ν} (h : g.ValidTexts) (caller : ConnId)
    {callerCtx ctx : SessionCtx} (hid : Utf8.Valid callerCtx.sessionId) {callId output : Str}
    (hresult : ValidResult ctx callId output) (confidence : ν) (now : Clock) :
    (deliverResult platform caller callerCtx ctx callId output confidence now
      g).state.ValidTexts := by
  have hentry : (resultEntry platform ctx callId output confidence).Valid :=
    valid_resultEntry hresult confidence
  have hwrite := h.cache.write platform.toPlatform hentry now
  refine Outcome.state_andThen ValidTexts (h.onCache hwrite) fun g hg => ?_
  have hturn : (resultTurn platform ctx callId output confidence now).Valid :=
    valid_resultTurn hresult confidence now
  have happend := hg.appendTurn hid hturn
  dsimp only
  split
  · exact happend
  · exact happend.wsSend caller _

omit [Double ν] in
theorem ValidTexts.handleConnectionClosed {g : WsChatController ν} (h : g.ValidTexts) (conn : ConnId)
    {ctx : SessionCtx} (hctx : Utf8.Valid ctx.sessionId ∧ Utf8.Valid ctx.agentName) (now : Clock) :
    (handleConnectionClosed platform conn ctx now g).state.ValidTexts := by
  have hclosed : ({ g with conns := g.conns.insert conn { ctx, connected := false } } :
      WsChatController ν).ValidTexts := h.insertConn hctx rfl rfl
  refine Outcome.state_andThen ValidTexts ?_ fun g hg => ⟨hg.cache, hg.conns⟩
  split_ifs
  · exact ⟨hclosed.cache.archiveSession platform.toPlatform ctx.sessionId now, hclosed.conns⟩
  · exact hclosed

/-- A step of valid text that cuts cleanly leaves valid text. -/
theorem ValidTexts.step {g : WsChatController ν} (h : g.ValidTexts) {event : Event ν × Clock}
    (hevent : ∀ s ∈ event.1.strings, Utf8.Valid s) (hcut : CutsCleanly platform g event) :
    (step platform event g).state.ValidTexts := by
  have hopen (conn : ConnId) {f : SessionCtx → WsChatController ν → Outcome (WsChatController ν)}
      (hf : ∀ ctx, g.conns.lookup conn = some ⟨ctx, true⟩ →
        Utf8.Valid ctx.sessionId → Utf8.Valid ctx.agentName → (f ctx g).state.ValidTexts) :
      (fromOpen conn f g).state.ValidTexts := by
    unfold fromOpen
    split
    · next ctx hctx =>
      obtain ⟨hid, hname⟩ := h.conns conn _ hctx
      exact hf ctx hctx hid hname
    · exact h
  obtain ⟨event, now⟩ := event
  cases event with
  | connect clientIp role nanos =>
    have hid : Utf8.Valid (str (toString nanos) ++ str "-" ++ str (toString g.seq)) :=
      ((valid_str _).append (valid_str _)).append (valid_str _)
    refine ValidTexts.wsSend ?_ _ _
    exact h.insertConn ⟨hid, Utf8.valid_nil⟩ rfl rfl
  | registerAgent conn agentName capabilities =>
    refine hopen conn fun ctx _ hid _ => ?_
    have hname : Utf8.Valid (agentName.getD (str "agent-" ++ ctx.sessionId)) := by
      cases agentName with
      | none => exact (valid_str _).append hid
      | some name => exact hevent name (by simp [Event.strings])
    refine ValidTexts.wsSend ?_ _ _
    exact h.insertConn ⟨hid, hname⟩ rfl rfl
  | agentCall conn callId targetAgentId capability input bypassCache =>
    simp only [Event.strings, List.forall_mem_cons] at hevent
    obtain ⟨hcall, -, hcap, hinput, -⟩ := hevent
    refine hopen conn fun ctx hctx hid _ => h.routeAgentCall conn hid hcall hcap _ _ _ ?_
    exact fun hbypass hcached =>
      Utf8.valid_take_of_boundary hinput (hcut ctx hctx hbypass hcached)
  | agentResult conn callId output confidence =>
    simp only [Event.strings, List.forall_mem_cons] at hevent
    obtain ⟨hcall, houtput, -⟩ := hevent
    refine hopen conn fun ctx hctx hid hname => ?_
    unfold routeAgentResult
    split
    · exact h.wsSend _ _
    · next caller hcaller =>
      have hpending : ({ g with pendingAgents := g.pendingAgents.erase callId } :
          WsChatController ν).ValidTexts := ⟨h.cache, h.conns⟩
      dsimp only
      split
      · next callerCtx hcallerCtx =>
        have hsummary := Utf8.valid_take_of_boundary houtput
          (hcut ctx caller callerCtx hctx hcaller hcallerCtx)
        exact hpending.deliverResult caller (h.conns caller _ hcallerCtx).1
          ⟨hid, hname, hsummary, hcall, houtput⟩ confidence now
      · exact hpending.wsSend _ _
  | cacheInvalidate conn key reason cascading =>
    simp only [Event.strings, List.forall_mem_cons] at hevent
    refine hopen conn fun ctx _ _ _ => ?_
    exact Outcome.state_andThen ValidTexts
      ⟨h.cache.invalidate platform.toPlatform hevent.2.1 key cascading, h.conns⟩
      fun g hg => hg.wsSend conn _
  | close conn =>
    exact hopen conn fun ctx _ hid hname => h.handleConnectionClosed conn ⟨hid, hname⟩ now

/-! ## A cut inside a character -/

variable (platform) in
/-- The entry of a delivered result, under its key. -/
theorem lookup_deliverResult (caller : ConnId) (callerCtx ctx : SessionCtx) (callId output : Str)
    (confidence : ν) (now : Clock) (g : WsChatController ν) :
    ∃ e, (deliverResult platform caller callerCtx ctx callId output confidence now
        g).state.cache.l2.entries.lookup (resultKey platform ctx.agentName output) = some e ∧
      e.outputSummary = output.take 200 := by
  let entry := resultEntry platform ctx callId output confidence
  have hl2 : (deliverResult platform caller callerCtx ctx callId output confidence now
      g).state.cache.l2 = (CacheCoordinator.write platform.toPlatform entry now g.cache).state.l2 := by
    refine Outcome.view_andThen (fun g : WsChatController ν => g.cache.l2) rfl fun g => ?_
    dsimp only
    split
    · rfl
    · rw [wsSend_cache]
      rfl
  refine ⟨CacheCoordinator.l2Entry platform.toPlatform now g.cache.l3
    (CacheCoordinator.stamped now entry), ?_, ?_⟩
  · rw [hl2, CacheCoordinator.write_entries]
    exact AList.lookup_insert _
  · unfold CacheCoordinator.l2Entry CacheCoordinator.stamped
    split_ifs <;> rfl

/-- The newest turn after a call that the cache answers. -/
theorem mem_routeAgentCall (hlib : platform.json.Strict) {g : WsChatController ν} (h : g.ValidTexts)
    (caller : ConnId) (ctx : SessionCtx) {callId : Str} (hcall : Utf8.Valid callId)
    (targetAgentId capability input : Str) (now : Clock)
    (hcached : Cached platform targetAgentId capability input ctx.sessionId now g.cache) :
    ∃ sb turn, (routeAgentCall platform caller ctx callId targetAgentId capability input false now
        g).state.cache.sessions.lookup ctx.sessionId = some sb ∧
      turn ∈ sb.turns ∧ turn.inputSummary = input.take 200 := by
  have hsome := (CacheCoordinator.query_isSome_iff (askedAgent targetAgentId) capability
    (sha256 platform input) ctx.sessionId now g.cache).2 hcached
  obtain ⟨r, hr⟩ := Option.isSome_iff_exists.1 hsome
  have hquery : (queryCall platform targetAgentId capability input ctx.sessionId now g.cache).1 =
      some r := hr
  have hentry := (h.cache.query _ _ _ _ _).1 r hr
  obtain ⟨text, htext⟩ := Option.isSome_iff_exists.1
    ((hlib.dump_isSome _).2 (valid_cachedReply hcall hentry))
  rw [routeAgentCall, if_neg (by simp)]
  simp only [hquery, wsSend, htext, Outcome.ok_andThen, Outcome.ok_state]
  refine ⟨_, cachedTurn callId capability input r now, AList.lookup_insert _, ?_, rfl⟩
  exact SessionBuffer.mem_append_self _ _

/-- If the state after a step can be saved and archived, the step cuts cleanly. -/
theorem cutsCleanly_of_serialisable (hlib : platform.json.Strict) {g : WsChatController ν}
    (h : g.ValidTexts) {event : Event ν × Clock} (hevent : ∀ s ∈ event.1.strings, Utf8.Valid s)
    (hafter : Serialisable platform (step platform event g).state) :
    CutsCleanly platform g event := by
  obtain ⟨event, now⟩ := event
  cases event with
  | agentCall conn callId targetAgentId capability input bypassCache =>
    simp only [Event.strings, List.forall_mem_cons] at hevent
    rintro ctx hctx rfl hcached
    obtain ⟨sb, turn, hsb, hturn, hsummary⟩ := mem_routeAgentCall hlib h conn ctx hevent.1
      targetAgentId capability input now hcached
    refine (Utf8.valid_take_iff hevent.2.2.2.1).1 ?_
    have hstep : step platform (.agentCall conn callId targetAgentId capability input false, now) g =
        routeAgentCall platform conn ctx callId targetAgentId capability input false now g := by
      simp only [step, fromOpen, hctx]
    rw [hstep] at hafter
    rw [← hsummary]
    exact hafter.turns _ sb hsb turn hturn _ (by simp [SessionTurn.strings])
  | agentResult conn callId output confidence =>
    simp only [Event.strings, List.forall_mem_cons] at hevent
    rintro ctx caller callerCtx hctx hcaller hopen
    refine (Utf8.valid_take_iff hevent.2.1).1 ?_
    obtain ⟨e, he, hsummary⟩ := lookup_deliverResult platform caller callerCtx ctx callId output
      confidence now { g with pendingAgents := g.pendingAgents.erase callId }
    rw [step_agentResult platform hctx hcaller hopen] at hafter
    rw [← hsummary]
    exact hafter.entries _ e he _ (by simp [CacheEntry.strings])
  | _ => trivial

/-! ## Runs -/

/-- In a run of messages of valid text, every state can be saved and archived exactly if every step cuts
cleanly. -/
theorem serialisable_run_iff (hlib : platform.json.Strict) (data idx : Option Str)
    (files : UMap Str) (events : List (Event ν × Clock))
    (hevents : ∀ event ∈ events, ∀ s ∈ event.1.strings, Utf8.Valid s) :
    let g := start platform data idx { files }
    (∀ pre, pre <+: events → Serialisable platform (run platform g pre)) ↔
      ∀ pre event post, events = pre ++ event :: post →
        CutsCleanly platform (run platform g pre) event :=
  Outcome.run_holds_iff (fun _ h => h.serialisable hlib) (validTexts_start hlib data idx files)
    (fun _ event hmem h hcut => h.step (hevents event hmem) hcut)
    fun _ event hmem h hafter => cutsCleanly_of_serialisable hlib h (hevents event hmem) hafter

/-! ## Answers from the cache -/

/-- A call that the cache answers is sent the reply exactly if that is valid text. -/
theorem sent_of_hit (hlib : platform.json.Strict) {g : WsChatController ν} {conn : ConnId} {ctx : SessionCtx}
    (hctx : g.conns.lookup conn = some ⟨ctx, true⟩) {callId targetAgentId capability input : Str} {now : Clock}
    {r : QueryResult ν}
    (hr : (queryCall platform targetAgentId capability input ctx.sessionId now g.cache).1 = some r) :
    (step platform (.agentCall conn callId targetAgentId capability input false, now) g).state.sent =
        g.sent ++ [(conn, cachedReply callId r)] ↔
      (cachedReply callId r).Valid := by
  have hstep : step platform (.agentCall conn callId targetAgentId capability input false, now) g =
      routeAgentCall platform conn ctx callId targetAgentId capability input false now g := by
    simp only [step, fromOpen, hctx]
  rw [hstep, ← hlib.dump_isSome, routeAgentCall, if_neg Bool.false_ne_true]
  simp only [hr, wsSend]
  cases hdump : platform.json.dump (cachedReply callId r) with
  | none =>
    refine iff_of_false (fun h => ?_) (by simp)
    have hlength : g.sent.length = (g.sent ++ [(conn, cachedReply callId r)]).length :=
      congrArg List.length h
    rw [List.length_append, List.length_singleton] at hlength
    omega
  | some text => exact iff_of_true rfl rfl

/-- In every reachable state, the caller is sent a result that the persistent cache holds live exactly if
target and capability spell the agent's name and `agent_call` and the input is the output, and no other
entry comes before, or if the result is that of the session's newest turn of the capability; and, in both
cases, if the texts that the message takes from the entry and from the call are valid. -/
theorem call_answers_result_iff (hlib : platform.json.Strict) (data idx : Option Str)
    (l3 : L3ArchiveStore) (events : List (Event ν × Clock)) (agentName output : Str) (now : Clock)
    (e : CacheEntry ν)
    (hlive : (run platform (start platform data idx l3) events).cache.l2.live
      (resultKey platform agentName output) now.wall = some e)
    (conn : ConnId) (ctx : SessionCtx)
    (hctx : (run platform (start platform data idx l3) events).conns.lookup conn = some ⟨ctx, true⟩)
    (callId targetAgentId capability input : Str)
    (hcollision : platform.evpSha256 input = platform.evpSha256 output → input = output) :
    let g := run platform (start platform data idx l3) events
    let key := CacheCoordinator.cacheKey (askedAgent targetAgentId) capability (sha256 platform input)
    let held := (g.cache.l1.live key now.steady).getD e
    (∃ r, (queryCall platform targetAgentId capability input ctx.sessionId now g.cache).1 = some r ∧
      r.entry.key = resultKey platform agentName output ∧
      (step platform (.agentCall conn callId targetAgentId capability input false, now) g).state.sent =
        g.sent ++ [(conn, cachedReply callId r)]) ↔
    ((askedAgent targetAgentId ++ str ":" ++ capability = agentName ++ str ":" ++ str "agent_call" ∧
      input = output ∧
      ((g.cache.l1.live key now.steady).isSome ∨
        g.cache.sessionEntry capability ctx.sessionId now = none)) ∨
    (g.cache.l1.live key now.steady = none ∧
      ∃ sb turn, g.cache.sessions.lookup ctx.sessionId = some sb ∧ sb.newest capability = some turn ∧
        turn.cacheKey = resultKey platform agentName output)) ∧
    Utf8.Valid callId ∧ Utf8.Valid held.agentId ∧ Utf8.Valid held.outputSummary ∧
      Utf8.Valid held.fullRef := by
  have hkeyed := keyed_run platform data idx l3 events
  have hanswers := query_answers_result_iff platform data idx l3 events agentName output now
    (hlive ▸ rfl) targetAgentId capability input ctx.sessionId hcollision
  generalize run platform (start platform data idx l3) events = g at hlive hctx hkeyed hanswers
  dsimp only at hanswers ⊢
  rw [← hanswers]
  have hentry {r : QueryResult ν}
      (hr : (queryCall platform targetAgentId capability input ctx.sessionId now g.cache).1 = some r)
      (hkey : r.entry.key = resultKey platform agentName output) :=
    CacheCoordinator.query_entry hkeyed hlive hr hkey
  constructor
  · rintro ⟨r, hr, hkey, hsent⟩
    rw [sent_of_hit hlib hctx hr, valid_cachedReply_iff, hentry hr hkey] at hsent
    exact ⟨⟨r, hr, hkey⟩, hsent⟩
  · rintro ⟨⟨r, hr, hkey⟩, hvalid⟩
    refine ⟨r, hr, hkey, ?_⟩
    rw [sent_of_hit hlib hctx hr, valid_cachedReply_iff, hentry hr hkey]
    exact hvalid

/-! ## Runs with a solver -/

section Solver

open CacheCoordinator (upClock)

/-- The gateway of `upGateway`, with a library that checks what it prints. -/
def strictGateway : GatewayPlatform ℚ :=
  { upGateway with
    json := JsonLib.checked Json.showRat
      [.object [(str "q", .int 1)], .object [(str "q", .int 2)], .object [(str "a", .int 1)]] }

theorem strictGateway_strict : strictGateway.json.Strict := JsonLib.checked_strict _ _

theorem serialisable_run_iff_solved :
    Serialisable strictGateway (run strictGateway (start strictGateway none none {}) solved) := by
  have hvalid : ∀ event ∈ solved, ∀ s ∈ event.1.strings, Utf8.Valid s := by decide +kernel
  have hshort : ∀ event ∈ solved, ∀ s ∈ event.1.strings, s.length ≤ 200 := by decide +kernel
  refine (serialisable_run_iff strictGateway_strict none none ∅ solved hvalid).2 ?_ solved
    (List.prefix_refl solved)
  intro pre event post hsolved
  exact cutsCleanly_of_short strictGateway (hshort event (by simp [hsolved]))

/-- The state when the call is solved. -/
def strictState : WsChatController ℚ := run strictGateway (start strictGateway none none {}) solved

/-- The client asks for `agent_call`, and its session leads to the stored result. -/
theorem call_answers_result_iff_solved : ∃ r,
    (queryCall strictGateway [] (str "agent_call") secondQuestion (str "1-0") (upClock 5)
      strictState.cache).1 = some r ∧
    r.entry.key = resultKey strictGateway (str "solver") solution ∧
    (run strictGateway strictState
      [(.agentCall 0 (str "c2") [] (str "agent_call") secondQuestion false, upClock 5)]).sent =
      strictState.sent ++ [(0, cachedReply (str "c2") r)] := by
  have hconn : strictState.conns.lookup 0 = some ⟨{
      sessionId := str "1-0"
      clientIp := str "10.0.0.1"
      role := str "user" }, true⟩ := by decide +kernel
  have hheld : (strictState.cache.l2.live (resultKey strictGateway (str "solver") solution)
      (upClock 5).wall).any fun e => Utf8.Valid e.agentId ∧ Utf8.Valid e.outputSummary ∧
        Utf8.Valid e.fullRef := by decide +kernel
  have hsession : strictState.cache.l1.live (CacheCoordinator.cacheKey (str "any") (str "agent_call")
        (sha256 strictGateway secondQuestion)) (upClock 5).steady = none ∧
      ((strictState.cache.sessions.lookup (str "1-0")).bind fun sb =>
        (sb.newest (str "agent_call")).map fun turn => turn.cacheKey) =
          some (resultKey strictGateway (str "solver") solution) := by decide +kernel
  obtain ⟨e, hlive, hvalid⟩ := (Option.any_eq_true _ _).1 hheld
  obtain ⟨hl1, hturn⟩ := hsession
  obtain ⟨sb, hsb, hnewest⟩ := Option.bind_eq_some_iff.1 hturn
  obtain ⟨turn, hturn, hkey⟩ := Option.map_eq_some_iff.1 hnewest
  refine (call_answers_result_iff strictGateway_strict none none {} solved (str "solver") solution
    (upClock 5) e hlive 0 _ hconn (str "c2") [] (str "agent_call") secondQuestion (by decide)).2
    ⟨.inr ⟨hl1, sb, turn, hsb, hturn, hkey⟩, valid_str _, ?_⟩
  rw [show askedAgent [] = str "any" from rfl]
  unfold strictState at hl1
  rw [hl1]
  exact of_decide_eq_true hvalid

/-- 199 letters and one that takes two bytes. -/
def longText : Str := List.replicate 199 97 ++ str "é"

/-- The agent answers with `longText`. -/
def longAnswer : List (Event ℚ × Clock) :=
  asked ++ [(.agentResult 1 (str "c1") longText (9 / 10), upClock 4)]

/-- The client asks with `longText`, and its session leads to the stored result. -/
def longQuestion : List (Event ℚ × Clock) :=
  solved ++ [(.agentCall 0 (str "c2") [] (str "agent_call") longText false, upClock 5)]

/-- The state after the long answer. -/
def longAnswerState : WsChatController ℚ :=
  run strictGateway (start strictGateway none none {}) longAnswer

/-- The state after the long question. -/
def longQuestionState : WsChatController ℚ :=
  run strictGateway (start strictGateway none none {}) longQuestion

/-- All messages are valid text.  After the long answer the persistent cache holds an entry and the
data file no line, and after the long question the session cannot be archived. -/
theorem long_texts_not_serialisable :
    (∀ event ∈ longAnswer ++ longQuestion, ∀ s ∈ event.1.strings, Utf8.Valid s) ∧
      (∃ e, longAnswerState.cache.l2.entries.lookup
        (resultKey strictGateway (str "solver") longText) = some e ∧ ¬ e.Valid) ∧
      longAnswerState.cache.l2.dataFile = some [] ∧
      (∃ sb, longQuestionState.cache.sessions.lookup (str "1-0") = some sb ∧
        ∃ t ∈ sb.turns, ¬ t.Valid) ∧
      (longQuestionState.cache.archiveSession strictGateway.toPlatform (str "1-0")
        (upClock 6)).threw = true := by
  have hentry : (longAnswerState.cache.l2.entries.lookup
      (resultKey strictGateway (str "solver") longText)).any fun e => ¬ e.Valid := by
    decide +kernel
  have hturn : (longQuestionState.cache.sessions.lookup (str "1-0")).any fun sb =>
      sb.turns.any fun t => ¬ t.Valid := by
    decide +kernel
  obtain ⟨e, he, hinvalid⟩ := (Option.any_eq_true _ _).1 hentry
  obtain ⟨sb, hsb, hany⟩ := (Option.any_eq_true _ _).1 hturn
  obtain ⟨t, ht, hinvalid'⟩ := List.any_eq_true.1 hany
  refine ⟨?_, ⟨e, he, by simpa using hinvalid⟩, ?_, ⟨sb, hsb, t, ht, by simpa using hinvalid'⟩, ?_⟩
  · decide +kernel
  · decide +kernel
  · decide +kernel

end Solver

end WsChatController

end LlmGateway
