import LlmGateway.CallAnswers

/-!
# What a closed connection leaves

`Gateway.noTrace_close_iff`: after the closing of a connection has returned, nothing refers to its session exactly
if its role at the time covered what it had left (`Gateway.RoleCovers`).  What a connection leaves depends on
all its messages, but what is cleaned up depends on its last role.
-/

namespace LlmGateway

variable {ν : Type}

open InverseIndex (listAt Exact)
open PendingTable (Op)

/-! ## What closing does -/

namespace CacheCoordinator

theorem lookup_archiveSession {platform : Platform ν} [Double ν] {sessionId : Str} {now : Clock}
    {c : CacheCoordinator ν} (h : (archiveSession platform sessionId now c).threw = false) :
    (archiveSession platform sessionId now c).state.sessions.lookup sessionId = none := by
  unfold archiveSession at h ⊢
  split
  · next hnone => exact hnone
  · split_ifs
    · exact AList.lookup_erase _ _
    · split
      · next sb hsb hturns _ hdump =>
        rw [hsb] at h
        dsimp only at h
        rw [if_neg hturns, hdump] at h
        cases h
      · exact AList.lookup_erase _ _

end CacheCoordinator

theorem WsChatController.handleConnectionClosed_of_returns {platform : GatewayPlatform ν} [Double ν]
    {conn : ConnId} {ctx : SessionCtx} {now : Clock} {g : WsChatController ν}
    (h : (handleConnectionClosed platform conn ctx now g).threw = false) :
    ∃ cache, (handleConnectionClosed platform conn ctx now g).state =
        { g with
          conns := g.conns.insert conn { ctx, connected := false }
          registry :=
            if ctx.role = str "agent" then g.registry.unregisterAgent ctx.sessionId else g.registry
          cache
          sessions := g.sessions.erase ctx.sessionId } ∧
      cache.sessions.lookup ctx.sessionId =
        if ctx.role = str "agent" then none else g.cache.sessions.lookup ctx.sessionId := by
  unfold handleConnectionClosed at h ⊢
  dsimp only at h ⊢
  by_cases hrole : ctx.role = str "agent"
  · rw [if_pos hrole] at h ⊢
    rw [if_pos hrole, if_pos hrole]
    unfold Outcome.andThen at h ⊢
    split_ifs at h ⊢ with hthrew
    · rw [hthrew] at h
      cases h
    · rw [Bool.not_eq_true] at hthrew
      exact ⟨_, rfl, CacheCoordinator.lookup_archiveSession hthrew⟩
  · rw [if_neg hrole, if_neg hrole, if_neg hrole]
    exact ⟨g.cache, rfl, rfl⟩

namespace Gateway

variable (platform : GatewayPlatform ν)

/-- What is left of the executor of a connection. -/
def LeavesExecutor (conn : ConnId) (sessionId : Str) (g : Gateway ν) : Prop :=
  conn ∈ g.executors ∨ ∃ e ∈ g.toolRegistry.entries, e.source = sessionId

/-- What is left of the agent of a session. -/
def LeavesAgent (sessionId : Str) (g : Gateway ν) : Prop :=
  (g.registry.agents.lookup sessionId).isSome ∨ (g.cache.sessions.lookup sessionId).isSome

/-- Nothing refers to a connection and its session. -/
structure NoTrace (conn : ConnId) (sessionId : Str) (g : Gateway ν) : Prop where
  executors : conn ∉ g.executors
  sessions : ∀ k, g.sessions.lookup k ≠ some conn
  tools : ∀ e ∈ g.toolRegistry.entries, e.source ≠ sessionId
  agents : g.registry.agents.lookup sessionId = none
  index : ∀ cap, sessionId ∉ listAt g.registry.capIndex cap
  buffer : g.cache.sessions.lookup sessionId = none

/-- A connection with the traces of an executor has that role, and one with those of an agent has that
one. -/
structure RoleCovers (conn : ConnId) (ctx : SessionCtx) (g : Gateway ν) : Prop where
  executor : LeavesExecutor conn ctx.sessionId g → ctx.role = str "executor"
  agent : LeavesAgent ctx.sessionId g → ctx.role = str "agent"

/-! ## Sessions and records of a run -/

/-- The sessions are those of their connections, and the index of the capabilities is that of the
records. -/
structure Tidy (g : Gateway ν) : Prop where
  sessions : ∀ sessionId conn, g.sessions.lookup sessionId = some conn →
    ∃ c, g.conns.lookup conn = some c ∧ c.ctx.sessionId = sessionId
  bound : ∀ conn, (g.conns.lookup conn).isSome → conn < g.seq
  index : Exact g.registry.capIndex g.registry.Offers

section Tidy

variable {platform} {g g' : Gateway ν} {op : Op (CallTable × Str) PendingCall}

/-- The connection of a session keeps it when a context is replaced by one of the same session. -/
theorem Tidy.sessions_insert (hg : Tidy g) {conn : ConnId} {c : Conn}
    (hconn : g.conns.lookup conn = some c) (c' : Conn) (hid : c'.ctx.sessionId = c.ctx.sessionId) :
    ∀ sessionId conn', g.sessions.lookup sessionId = some conn' →
      ∃ c, (g.conns.insert conn c').lookup conn' = some c ∧ c.ctx.sessionId = sessionId := by
  intro sessionId conn' hsession
  obtain ⟨c₁, hc₁, hid₁⟩ := hg.sessions sessionId conn' hsession
  by_cases heq : conn' = conn
  · subst heq
    obtain rfl : c₁ = c := Option.some.inj (hc₁.symm.trans hconn)
    exact ⟨c', AList.lookup_insert _, hid.trans hid₁⟩
  · exact ⟨c₁, by rw [AList.lookup_insert_ne heq, hc₁], hid₁⟩

theorem Tidy.bound_insert (hg : Tidy g) {conn : ConnId} {c : Conn}
    (hconn : g.conns.lookup conn = some c) (c' : Conn) :
    ∀ conn', ((g.conns.insert conn c').lookup conn').isSome → conn' < g.seq := by
  intro conn' h
  by_cases heq : conn' = conn
  · rw [heq]
    exact hg.bound conn (by rw [hconn]; rfl)
  · rw [AList.lookup_insert_ne heq] at h
    exact hg.bound conn' h

theorem Tidy.lookup_seq (hg : Tidy g) : g.conns.lookup g.seq = none := by
  cases hlookup : g.conns.lookup g.seq with
  | none => rfl
  | some c => exact absurd (hg.bound g.seq (by rw [hlookup]; rfl)) (Nat.lt_irrefl _)

/-- The sessions keep their connections, as the connection that is made is a new one. -/
theorem Tidy.sessions_connected (hg : Tidy g) (ctx : SessionCtx) :
    ∀ sessionId conn, (g.sessions.insert ctx.sessionId g.seq).lookup sessionId = some conn →
      ∃ c, (g.conns.insert g.seq { ctx }).lookup conn = some c ∧ c.ctx.sessionId = sessionId := by
  have hkept : ∀ sessionId conn, g.sessions.lookup sessionId = some conn →
      ∃ c, (g.conns.insert g.seq { ctx }).lookup conn = some c ∧ c.ctx.sessionId = sessionId := by
    intro sessionId conn hsession
    obtain ⟨c, hc, hcid⟩ := hg.sessions sessionId conn hsession
    refine ⟨c, ?_, hcid⟩
    rw [AList.lookup_insert_ne, hc]
    rintro rfl
    cases hg.lookup_seq.symm.trans hc
  exact AList.forall_lookup_insert hkept ⟨{ ctx }, AList.lookup_insert _, rfl⟩

theorem Tidy.effect (hg : Tidy g) (h : Effect g op g') : Tidy g' := by
  cases h with
  | connected ctx sent =>
    refine ⟨hg.sessions_connected ctx, fun conn hconn => ?_, hg.index⟩
    by_cases heq : conn = g.seq
    · exact heq ▸ Nat.lt_succ_self _
    · rw [AList.lookup_insert_ne heq] at hconn
      exact Nat.lt_succ_of_lt (hg.bound conn hconn)
  | context conn ctx ctx' hopen hid =>
    exact ⟨hg.sessions_insert hopen _ hid, hg.bound_insert hopen _, hg.index⟩
  | agent conn ctx ctx' record hopen hid =>
    exact ⟨hg.sessions_insert hopen _ hid, hg.bound_insert hopen _,
      AgentRegistry.exact_registerAgent hg.index _ _⟩
  | closed conn ctx hopen sessions registry _ _ _ _ _ hsessions hregistry =>
    have hkept := hg.sessions_insert hopen { ctx, connected := false } rfl
    refine ⟨?_, hg.bound_insert hopen _, ?_⟩
    · rcases hsessions with rfl | rfl
      · exact hkept
      · exact AList.forall_lookup_erase hkept ctx.sessionId
    · rcases hregistry with rfl | rfl
      · exact hg.index
      · exact AgentRegistry.exact_unregisterAgent hg.index _
  | _ => exact ⟨hg.sessions, hg.bound, hg.index⟩

end Tidy

/-! ## The closing of a connection -/

/-- What the closing of a connection does, if it returns. -/
structure Closed (conn : ConnId) (ctx : SessionCtx) (g g' : Gateway ν) : Prop where
  executors : g'.executors =
    if ctx.role = str "executor" then g.executors.filter (· ≠ conn) else g.executors
  tools : g'.toolRegistry =
    if ctx.role = str "executor" then g.toolRegistry.removeSource ctx.sessionId else g.toolRegistry
  registry : g'.registry =
    if ctx.role = str "agent" then g.registry.unregisterAgent ctx.sessionId else g.registry
  buffer : g'.cache.sessions.lookup ctx.sessionId =
    if ctx.role = str "agent" then none else g.cache.sessions.lookup ctx.sessionId
  sessions : g'.sessions = g.sessions.erase ctx.sessionId

variable {platform} {conn : ConnId} {ctx : SessionCtx} {g : Gateway ν}

/-- The closing leaves nothing of an executor exactly if the role was that of one, or there was nothing. -/
theorem Closed.leavesExecutor_iff {g' : Gateway ν} (h : Closed conn ctx g g') :
    ¬ LeavesExecutor conn ctx.sessionId g' ↔
      (LeavesExecutor conn ctx.sessionId g → ctx.role = str "executor") := by
  unfold LeavesExecutor
  rw [h.executors, h.tools]
  split_ifs with hrole
  · refine iff_of_true ?_ fun _ => hrole
    rintro (hmem | ⟨e, he, hsource⟩)
    · simpa using (List.mem_filter.1 hmem).2
    · exact absurd hsource (by simpa using (List.mem_filter.1 he).2)
  · simp [hrole]

theorem Closed.leavesAgent_iff {g' : Gateway ν} (h : Closed conn ctx g g') :
    ¬ LeavesAgent ctx.sessionId g' ↔ (LeavesAgent ctx.sessionId g → ctx.role = str "agent") := by
  unfold LeavesAgent
  rw [h.registry, h.buffer]
  split_ifs with hrole
  · refine iff_of_true ?_ fun _ => hrole
    rw [AgentRegistry.lookup_unregisterAgent]
    rintro (hrecord | hbuffer)
    · cases hrecord
    · cases hbuffer
  · simp [hrole]

theorem Closed.noTrace_iff_roleCovers {g' : Gateway ν} (h : Closed conn ctx g g') (hg : Tidy g) (hg' : Tidy g')
    (hopen : g.conns.lookup conn = some ⟨ctx, true⟩) :
    NoTrace conn ctx.sessionId g' ↔ RoleCovers conn ctx g := by
  have hsessions : ∀ k, g'.sessions.lookup k ≠ some conn := by
    intro k hk
    rw [h.sessions] at hk
    by_cases hid : k = ctx.sessionId
    · rw [hid, AList.lookup_erase] at hk
      cases hk
    · rw [AList.lookup_erase_ne hid] at hk
      obtain ⟨c, hc, rfl⟩ := hg.sessions k conn hk
      obtain rfl : c = ⟨ctx, true⟩ := Option.some.inj (hc.symm.trans hopen)
      exact hid rfl
  constructor
  · intro hnone
    refine ⟨h.leavesExecutor_iff.1 ?_, h.leavesAgent_iff.1 ?_⟩
    · rintro (hmem | ⟨e, he, hsource⟩)
      · exact hnone.executors hmem
      · exact hnone.tools e he hsource
    · rintro (hrecord | hbuffer)
      · rw [hnone.agents] at hrecord
        cases hrecord
      · rw [hnone.buffer] at hbuffer
        cases hbuffer
  · intro hcovers
    have hexecutor := h.leavesExecutor_iff.2 hcovers.executor
    have hagent := h.leavesAgent_iff.2 hcovers.agent
    simp only [LeavesExecutor, LeavesAgent, not_or, not_exists, not_and, Option.not_isSome_iff_eq_none]
      at hexecutor hagent
    refine ⟨hexecutor.1, hsessions, hexecutor.2, hagent.1, fun cap hmem => ?_, hagent.2⟩
    exact AgentRegistry.not_offers_of_lookup_none hagent.1 cap (((hg'.index cap).1 _).1 hmem)

/-! ## Runs -/

section Runs

variable [Double ν]

theorem closed_of_returns {now : Clock}
    (h : (handleConnectionClosed platform conn ctx now g).threw = false) :
    Closed conn ctx g (handleConnectionClosed platform conn ctx now g).state := by
  unfold handleConnectionClosed at h ⊢
  dsimp only at h ⊢
  split_ifs at h ⊢ with hrole
  · obtain ⟨cache, hstate, hbuffer⟩ := WsChatController.handleConnectionClosed_of_returns h
    rw [onController_state hstate]
    exact ⟨(if_pos hrole).symm, (if_pos hrole).symm, rfl, hbuffer, rfl⟩
  · obtain ⟨cache, hstate, hbuffer⟩ := WsChatController.handleConnectionClosed_of_returns h
    rw [onController_state hstate]
    exact ⟨(if_neg hrole).symm, (if_neg hrole).symm, rfl, hbuffer, rfl⟩

variable (platform) in
theorem tidy_run (data idx : Option Str) (l3 : L3ArchiveStore) (events : List (Event × Clock)) :
    Tidy (run platform (start platform data idx l3) events) := by
  refine Outcome.run_invariant Tidy ⟨?_, ?_, ?_⟩ fun g event _ h =>
    h.effect (effect_step platform event g)
  · intro sessionId conn h
    cases h
  · intro conn h
    cases h
  · refine InverseIndex.exact_empty.congr fun k d => iff_of_false id ?_
    rintro ⟨record, h, -⟩
    cases h

theorem run_append (g : Gateway ν) (events events' : List (Event × Clock)) :
    run platform g (events ++ events') = run platform (run platform g events) events' :=
  Outcome.run_append g events events'

/-- In every run, once the closing of an open connection has returned, nothing refers to the connection and
its session exactly if its role at the time covers what it had left. -/
theorem noTrace_close_iff (data idx : Option Str) (l3 : L3ArchiveStore) (events : List (Event × Clock))
    (hopen : (run platform (start platform data idx l3) events).openCtx conn = some ctx) (now : Clock)
    (hreturns : (step platform (.close conn, now)
      (run platform (start platform data idx l3) events)).threw = false) :
    NoTrace conn ctx.sessionId
        (run platform (start platform data idx l3) (events ++ [(.close conn, now)])) ↔
      RoleCovers conn ctx (run platform (start platform data idx l3) events) := by
  have htidy := tidy_run platform data idx l3 events
  have htidy' := tidy_run platform data idx l3 (events ++ [(.close conn, now)])
  rw [run_append] at htidy' ⊢
  generalize run platform (start platform data idx l3) events = g at *
  have hstep : step platform (.close conn, now) g = handleConnectionClosed platform conn ctx now g := by
    simp only [step, fromOpen_eq, hopen]
  rw [run, Outcome.run_cons, Outcome.run_nil, hstep] at htidy' ⊢
  rw [hstep] at hreturns
  exact (closed_of_returns hreturns).noTrace_iff_roleCovers htidy htidy' (openCtx_eq_some.1 hopen)

end Runs

/-! ## A connection with two roles -/

open Watched (executorJson solverJson solveGateway connects tells)

/-- The library as it behaves on the registrations. -/
def registerGateway : GatewayPlatform ℚ where
  toHost := solveGateway.toHost
  json := JsonLib.on Json.showRat [executorJson, solverJson, .object []]
  evpSha256 := solveGateway.evpSha256

/-- The run of a new gateway. -/
def registerRun (events : List (Event × Clock)) : Gateway ℚ :=
  run registerGateway (start registerGateway none none {}) events

/-- An executor that registers as an agent stays an executor when it is closed, with its tools. -/
theorem executor_outlives_agent :
    let events := [connects 1, tells 0 executorJson, tells 0 solverJson]
    (step registerGateway (.close 0, ⟨0, 0⟩) (registerRun events)).threw = false ∧
      0 ∈ (registerRun (events ++ [(.close 0, ⟨0, 0⟩)])).executors ∧
      ∃ ctx, (registerRun events).openCtx 0 = some ctx ∧
        ¬ NoTrace 0 ctx.sessionId (registerRun (events ++ [(.close 0, ⟨0, 0⟩)])) := by
  have hmem : 0 ∈ (registerRun ([connects 1, tells 0 executorJson, tells 0 solverJson] ++
      [(.close 0, ⟨0, 0⟩)])).executors := by decide +kernel
  exact ⟨by decide +kernel, hmem, _, rfl, fun h => h.executors hmem⟩

/-- An executor that is closed leaves nothing. -/
theorem noTrace_close_executor :
    ∃ ctx, (registerRun [connects 1, tells 0 executorJson]).openCtx 0 = some ctx ∧
      NoTrace 0 ctx.sessionId
        (registerRun ([connects 1, tells 0 executorJson] ++ [(.close 0, ⟨0, 0⟩)])) := by
  refine ⟨_, rfl, (noTrace_close_iff none none {} _ rfl ⟨0, 0⟩ (by decide +kernel)).2
    ⟨fun _ => rfl, ?_⟩⟩
  rintro (hrecord | hbuffer)
  · cases hrecord
  · cases hbuffer

end Gateway

end LlmGateway
