import LlmGateway.CallAnswers
import LlmGateway.L2Files

/-!
# What becomes of an accepted result

`route_agent_result` removes the entry of the call first, and stores the result in the caches before it
sends it on as a JSON value.  If the library throws in between, the caller gets nothing, and the call has
no entry any more.

`result_delivered_iff`: the caller gets the result exactly if everything that is printed on the way can be
printed, and the output is JSON text or empty.
-/

namespace LlmGateway

variable {ν : Type}

/-! ## Saves -/

namespace L2PersistentCache

open InverseIndex

variable (lib : JsonLib ν)

theorem dataLines_complete {es : List (CacheEntry ν)} :
    (dataLines lib es).2 = false ↔ ∀ e ∈ es, (lib.dump e.toJson).isSome := by
  induction es with
  | nil => simp [dataLines]
  | cons e es ih =>
      unfold dataLines
      cases hdump : lib.dump e.toJson with
      | none => simp [hdump]
      | some text => simp [hdump, ih]

/-- What a save prints. -/
structure Printable (s : L2PersistentCache ν) : Prop where
  entries : ∀ k e, s.entries.lookup k = some e → (lib.dump e.toJson).isSome
  index : (lib.dump (revidxJson s.depRev)).isSome

theorem save_threw_iff (s : L2PersistentCache ν) : (save lib s).threw = false ↔ s.Printable lib := by
  have hdisk : (saveToDisk lib s).threw = false ↔
      ∀ k e, s.entries.lookup k = some e → (lib.dump e.toJson).isSome := by
    refine (dataLines_complete lib).trans ⟨fun h k e he => ?_, fun h e he => ?_⟩
    · exact h e (List.mem_map_of_mem (f := Sigma.snd) (AList.mem_lookup_iff.1 he))
    · obtain ⟨k, hk⟩ := mem_values he
      exact h k e hk
  have hindex : (saveRevidx lib (saveToDisk lib s).state).threw = false ↔
      (lib.dump (revidxJson s.depRev)).isSome := by
    change (saveRevidx lib { s with dataFile := _ }).threw = false ↔ _
    unfold saveRevidx
    cases hdump : lib.dump (revidxJson s.depRev) with
    | none => exact iff_of_false (fun h => by cases h) (by simp)
    | some text => exact iff_of_true rfl rfl
  unfold save Outcome.andThen
  by_cases hthrew : (saveToDisk lib s).threw = false
  · rw [if_neg (by simp [hthrew]), hindex]
    exact ⟨fun h => ⟨hdisk.1 hthrew, h⟩, Printable.index⟩
  · rw [if_pos (by simpa using hthrew)]
    exact iff_of_false hthrew fun h => hthrew (hdisk.2 h.entries)

/-- The store that `set` saves. -/
def placed (key : Str) (entry : CacheEntry ν) (s : L2PersistentCache ν) : L2PersistentCache ν :=
  let depRev :=
    match s.entries.lookup key with
    | some old => old.dependsOn.foldl (drop key) s.depRev
    | none => s.depRev
  { s with
    entries := s.entries.insert key entry
    depRev := entry.dependsOn.foldl (add key) depRev }

theorem set_eq (key : Str) (entry : CacheEntry ν) (s : L2PersistentCache ν) :
    s.set lib key entry = save lib (s.placed key entry) := rfl

end L2PersistentCache

namespace WsChatController

variable (platform : GatewayPlatform ν)

/-! ## A result on its way -/

/-- The message with which a result is sent on. -/
def agentResultJson (agentName callId fullRef : Str) (confidence : ν) (output : Json ν) : Json ν :=
  .object (Json.members [
    (str "type", .string (str "agent_result")),
    (str "call_id", .string callId),
    (str "agent_id", .string agentName),
    (str "output", output),
    (str "confidence", .float confidence),
    (str "cache_status", .string (str "fresh")),
    (str "context_ref", .string fullRef)])

variable [Double ν]

/-- The persistent cache that writing the result saves. -/
def storedResult (ctx : SessionCtx) (callId output : Str) (confidence : ν) (now : Clock)
    (g : WsChatController ν) : L2PersistentCache ν :=
  let entry := CacheCoordinator.stamped now (resultEntry platform ctx callId output confidence)
  g.cache.l2.placed entry.key (CacheCoordinator.l2Entry platform.toPlatform now g.cache.l3 entry)

/-- The store can be saved with the result, the output is read, and the message with it is printed. -/
structure Deliverable (ctx : SessionCtx) (callId output : Str) (confidence : ν) (now : Clock)
    (g : WsChatController ν) : Prop where
  stored : (storedResult platform ctx callId output confidence now g).Printable platform.json
  message : ∃ v, platform.json.parse (payloadOr output) = some v ∧
    (platform.json.dump (agentResultJson ctx.agentName callId [] confidence v)).isSome

/-- The caller gets one message, and it is a result with the output. -/
def Delivered (caller : ConnId) (callId output : Str) (g g' : WsChatController ν) : Prop :=
  ∃ msg v, g'.sent = g.sent ++ [(caller, msg)] ∧ msg.HasType "agent_result" ∧
    msg.member "call_id" = some (.string callId) ∧ msg.member "output" = some v ∧
    (v = .string output ∨ platform.json.parse (payloadOr output) = some v)

/-- What comes before the save does not touch the persistent cache. -/
theorem write_threw_iff (ctx : SessionCtx) (callId output : Str) (confidence : ν) (now : Clock)
    (g : WsChatController ν) :
    (CacheCoordinator.write platform.toPlatform (resultEntry platform ctx callId output confidence) now
      g.cache).threw = false ↔
      (storedResult platform ctx callId output confidence now g).Printable platform.json := by
  rw [← L2PersistentCache.save_threw_iff, storedResult, ← L2PersistentCache.set_eq]
  generalize resultEntry platform ctx callId output confidence = entry
  unfold CacheCoordinator.write
  by_cases hsmall : (CacheCoordinator.stamped now entry).output.length < 4096
  · by_cases hlarge : 2048 < (CacheCoordinator.stamped now entry).output.length
    · simp only [if_pos hsmall, if_pos hlarge]
      rfl
    · simp only [if_pos hsmall, if_neg hlarge]
      rfl
  · by_cases hlarge : 2048 < (CacheCoordinator.stamped now entry).output.length
    · simp only [if_neg hsmall, if_pos hlarge]
      rfl
    · simp only [if_neg hsmall, if_neg hlarge]
      rfl

theorem deliverable_takeCall {ctx : SessionCtx} {callId output : Str} {confidence : ν} {now : Clock}
    {g : WsChatController ν} : Deliverable platform ctx callId output confidence now (takeCall callId g) ↔
      Deliverable platform ctx callId output confidence now g :=
  ⟨fun h => ⟨h.stored, h.message⟩, fun h => ⟨h.stored, h.message⟩⟩

/-- What is sent, depending on what can be printed. -/
theorem sent_deliverResult (caller : ConnId) (callerCtx ctx : SessionCtx) (callId output : Str)
    (confidence : ν) (now : Clock) (g : WsChatController ν) :
    (Deliverable platform ctx callId output confidence now g ∧
      ∃ v, platform.json.parse (payloadOr output) = some v ∧
        (deliverResult platform caller callerCtx ctx callId output confidence now g).state.sent =
          g.sent ++ [(caller, agentResultJson ctx.agentName callId [] confidence v)]) ∨
    (¬Deliverable platform ctx callId output confidence now g ∧
      (deliverResult platform caller callerCtx ctx callId output confidence now g).state.sent = g.sent) := by
  have hwrite : (onCache (CacheCoordinator.write platform.toPlatform
      (resultEntry platform ctx callId output confidence) now) g).threw = false ↔
      (storedResult platform ctx callId output confidence now g).Printable platform.json :=
    write_threw_iff platform ctx callId output confidence now g
  unfold deliverResult Outcome.andThen
  by_cases hstored : (storedResult platform ctx callId output confidence now g).Printable platform.json
  · rw [if_neg (Bool.eq_false_iff.1 (hwrite.2 hstored))]
    dsimp only
    rw [← payloadOr]
    cases hparse : platform.json.parse (payloadOr output) with
    | none =>
      refine .inr ⟨fun h => ?_, rfl⟩
      obtain ⟨v, hv, -⟩ := h.message
      rw [hparse] at hv
      cases hv
    | some v =>
      dsimp only
      rw [show (resultEntry platform ctx callId output confidence).fullRef = [] from rfl,
        ← agentResultJson]
      unfold wsSend
      cases hdump : platform.json.dump (agentResultJson ctx.agentName callId [] confidence v) with
      | none =>
        refine .inr ⟨fun h => ?_, rfl⟩
        obtain ⟨v', hv', hprinted⟩ := h.message
        cases hparse.symm.trans hv'
        rw [hdump] at hprinted
        cases hprinted
      | some text =>
        exact .inl ⟨⟨hstored, v, hparse, by rw [hdump]; rfl⟩, v, rfl, rfl⟩
  · rw [if_pos (Bool.eq_true_of_not_eq_false fun h => hstored (hwrite.1 h))]
    exact .inr ⟨fun h => hstored h.stored, rfl⟩

end WsChatController

/-! ## Results that are received -/

namespace Gateway

open WsChatController (Delivered Deliverable)

variable [Double ν] (platform : GatewayPlatform ν)

/-- A result for a call whose caller is still there is delivered exactly if it can be. -/
theorem delivered_iff_deliverable {event : Event × Clock} {g : Gateway ν} {callee caller : ConnId}
    {ctx callerCtx : SessionCtx} {callId output : Str} {confidence : ν}
    (hmsg : received platform event g = some (callee, ctx, .agentResult callId output confidence))
    (hcaller : g.pendingAgents.lookup callId = some caller)
    (hopen : g.conns.lookup caller = some ⟨callerCtx, true⟩) :
    Delivered platform caller callId output g.toWsChatController
        (step platform event g).state.toWsChatController ↔
      Deliverable platform ctx callId output confidence event.2 g.toWsChatController := by
  obtain ⟨-, -, verdict, hstep⟩ := received_eq_some hmsg
  have hresult : (step platform event g).state.toWsChatController =
      (WsChatController.deliverResult platform caller callerCtx ctx callId output confidence event.2
        (WsChatController.takeCall callId g.toWsChatController)).state := by
    have hroute := WsChatController.routeAgentResult_eq platform callee ctx callId output confidence
      event.2 g.toWsChatController
    rw [hcaller] at hroute
    dsimp only at hroute
    rw [WsChatController.answerCall_of_connected platform
      (g := WsChatController.takeCall callId g.toWsChatController) hopen] at hroute
    rw [hstep, ← hroute]
    rfl
  rw [hresult, ← WsChatController.deliverable_takeCall]
  rcases WsChatController.sent_deliverResult platform caller callerCtx ctx callId output confidence event.2
    (WsChatController.takeCall callId g.toWsChatController) with ⟨h, v, hv, hsent⟩ | ⟨h, hsent⟩
  · refine iff_of_true ⟨_, v, hsent, ?_, ?_, ?_, .inr hv⟩ h
    · exact (Json.hasType_object_iff (by simp only [List.map]; decide) _).2 rfl
    · exact Json.member_object_members _ (by simp only [List.map]; decide) "call_id"
    · exact Json.member_object_members _ (by simp only [List.map]; decide) "output"
  · refine iff_of_false (fun hdelivered => ?_) h
    obtain ⟨msg, v, hsent', -⟩ := hdelivered
    rw [hsent] at hsent'
    cases List.self_eq_append_right.1 hsent'

/-- In every run, a result for a call whose caller is still there is delivered exactly if the store can be
saved with it, its output is JSON text or empty, and the message can be printed. -/
theorem result_delivered_iff (data idx : Option Str) (l3 : L3ArchiveStore) (events : List (Event × Clock))
    {event : Event × Clock} {callee caller : ConnId} {ctx callerCtx : SessionCtx} {callId output : Str}
    {confidence : ν}
    (hmsg : received platform event (run platform (start platform data idx l3) events) =
      some (callee, ctx, .agentResult callId output confidence))
    (hcaller : (run platform (start platform data idx l3) events).pendingAgents.lookup callId = some caller)
    (hopen : (run platform (start platform data idx l3) events).conns.lookup caller =
      some ⟨callerCtx, true⟩) :
    Delivered platform caller callId output
        (run platform (start platform data idx l3) events).toWsChatController
        (run platform (start platform data idx l3) (events ++ [event])).toWsChatController ↔
      Deliverable platform ctx callId output confidence event.2
        (run platform (start platform data idx l3) events).toWsChatController := by
  have hrun : run platform (start platform data idx l3) (events ++ [event]) =
      (step platform event (run platform (start platform data idx l3) events)).state :=
    Outcome.run_append _ events [event]
  rw [hrun]
  exact delivered_iff_deliverable platform hmsg hcaller hopen

/-- A result that is plain text. -/
def plainJson : Json ℚ :=
  .object (Json.members [
    (str "type", .string (str "agent_result")),
    (str "call_id", .string (str "c1")),
    (str "output", .string (str "hello"))])

/-- The library as it behaves on the messages of the runs; plain text is no JSON text. -/
def plainGateway : GatewayPlatform ℚ :=
  { Watched.solveGateway with
    json := JsonLib.on Json.showRat
      [Watched.solverJson, Watched.solveJson, Watched.solvedJson, plainJson, .object []] }

/-- A client has asked an agent. -/
def asked : Gateway ℚ := run plainGateway (start plainGateway none none {}) Watched.solveAsked

theorem result_delivered_solved :
    Delivered plainGateway 0 (str "c1") (str "{}") asked.toWsChatController
      (run plainGateway (start plainGateway none none {})
        (Watched.solveAsked ++ [Watched.tells 1 Watched.solvedJson])).toWsChatController := by
  have hmsg : ∃ ctx, received plainGateway (Watched.tells 1 Watched.solvedJson) asked =
      some (1, ctx, .agentResult (str "c1") (str "{}") (8 / 10)) := ⟨_, rfl⟩
  have hopen : ∃ ctx, asked.conns.lookup 0 = some ⟨ctx, true⟩ := ⟨_, rfl⟩
  obtain ⟨ctx, hmsg⟩ := hmsg
  obtain ⟨callerCtx, hopen⟩ := hopen
  refine (result_delivered_iff plainGateway none none {} Watched.solveAsked hmsg (by decide +kernel)
    hopen).2 ⟨⟨fun _ _ _ => rfl, rfl⟩, ?_⟩
  exact ⟨.object [], rfl, rfl⟩

/-- A result that is plain text does not reach its caller, and the call has no entry any more. -/
theorem plain_result_lost :
    ∃ ctx callerCtx,
      received plainGateway (Watched.tells 1 plainJson) asked =
        some (1, ctx, .agentResult (str "c1") (str "hello") (8 / 10)) ∧
      asked.pendingAgents.lookup (str "c1") = some 0 ∧
      asked.conns.lookup 0 = some ⟨callerCtx, true⟩ ∧
      ¬Delivered plainGateway 0 (str "c1") (str "hello") asked.toWsChatController
        (step plainGateway (Watched.tells 1 plainJson) asked).state.toWsChatController ∧
      (step plainGateway (Watched.tells 1 plainJson) asked).state.pendingAgents.lookup (str "c1") = none := by
  refine ⟨_, _, rfl, by decide +kernel, rfl, fun h => ?_, by decide +kernel⟩
  have hlength : (step plainGateway (Watched.tells 1 plainJson) asked).state.sent.length =
      asked.sent.length := by
    decide +kernel
  obtain ⟨msg, v, hsent, -⟩ := h
  rw [hsent, List.length_append, List.length_singleton] at hlength
  omega

end Gateway

end LlmGateway
