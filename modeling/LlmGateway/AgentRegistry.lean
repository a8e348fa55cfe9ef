import Mathlib.Data.List.Induction
import LlmGateway.Base
import LlmGateway.Lib.InverseIndex

/-!
# The agent registry

`AgentRegistry`: the record of each connected agent, and the index from capabilities to the sessions
that offer them.  A call is routed to the healthy agent of a capability with the fewest active calls,
the first one of several.

The index stays the inverse of the records: `exact_registerAgent`, `exact_unregisterAgent`.  A route is
the choice that it should be among the agents that the index lists: `chosen_route`.
-/

namespace LlmGateway

open InverseIndex

/-- A capability that an agent offers, with its weight in the routing. -/
structure AgentCapability where
  name : Str
  description : Str
  inputSchemaJson : Str
  outputSchemaJson : Str
  weight : Int32 := 1
  deriving DecidableEq

/-- What the registry knows of an agent. -/
structure AgentRecord where
  sessionId : Str
  agentName : Str
  capabilities : List AgentCapability
  peerAddr : Str
  registeredAtMs : Int64
  lastHeartbeatMs : Int64
  activeCalls : Int32 := 0
  healthy : Bool := true
  deriving DecidableEq

/-- The agents by session, and the sessions that offer each capability. -/
structure AgentRegistry where
  agents : UMap AgentRecord := ∅
  capIndex : UMap (List Str) := ∅

namespace AgentRegistry

/-- Register an agent under its session; an earlier record of the session is replaced. -/
def registerAgent (sessionId : Str) (record : AgentRecord) (s : AgentRegistry) : AgentRegistry :=
  let capIndex :=
    match s.agents.lookup sessionId with
    | some old => (old.capabilities.map AgentCapability.name).foldl (drop sessionId) s.capIndex
    | none => s.capIndex
  { agents := s.agents.insert sessionId record
    capIndex := (record.capabilities.map AgentCapability.name).foldl (add sessionId) capIndex }

/-- Drop a session from the list under a capability, and the list if nothing is left in it. -/
def leave (sessionId : Str) (capIndex : UMap (List Str)) (cap : Str) : UMap (List Str) :=
  match capIndex.lookup cap with
  | none => capIndex
  | some v =>
      let v := v.filter (· ≠ sessionId)
      if v = [] then capIndex.erase cap else capIndex.insert cap v

/-- Remove the agent of a session, and the session from its capabilities. -/
def unregisterAgent (sessionId : Str) (s : AgentRegistry) : AgentRegistry :=
  match s.agents.lookup sessionId with
  | none => s
  | some record =>
      { agents := s.agents.erase sessionId
        capIndex :=
          (record.capabilities.map AgentCapability.name).foldl (leave sessionId) s.capIndex }

/-- The better choice of the best record so far and the record of a session. -/
def better (agents : UMap AgentRecord) (best : Option AgentRecord) (sessionId : Str) :
    Option AgentRecord :=
  match agents.lookup sessionId with
  | none => best
  | some record =>
      if !record.healthy then best
      else
        match best with
        | none => some record
        | some b => if record.activeCalls < b.activeCalls then some record else best

/-- The best of the agents that offer a capability. -/
def route (capability : Str) (s : AgentRegistry) : Option AgentRecord :=
  match s.capIndex.lookup capability with
  | none => none
  | some sids => sids.foldl (better s.agents) none

/-- The agent of a session. -/
def find (sessionId : Str) (s : AgentRegistry) : Option AgentRecord := s.agents.lookup sessionId

/-- The names of the capabilities that the index lists. -/
def allCapabilities (s : AgentRegistry) : List Str := s.capIndex.keys

/-! ## The index and the records -/

/-- The record of the session has the capability. -/
def Offers (s : AgentRegistry) (sessionId cap : Str) : Prop :=
  ∃ record, s.agents.lookup sessionId = some record ∧
    cap ∈ record.capabilities.map AgentCapability.name

theorem offers_iff_of_lookup {s : AgentRegistry} {sessionId : Str} {record : AgentRecord}
    (h : s.agents.lookup sessionId = some record) (cap : Str) :
    s.Offers sessionId cap ↔ cap ∈ record.capabilities.map AgentCapability.name := by
  constructor
  · rintro ⟨record', h', hcap⟩
    obtain rfl : record = record' := Option.some.inj (h.symm.trans h')
    exact hcap
  · exact fun hcap => ⟨record, h, hcap⟩

theorem not_offers_of_lookup_none {s : AgentRegistry} {sessionId : Str}
    (h : s.agents.lookup sessionId = none) (cap : Str) : ¬ s.Offers sessionId cap := by
  rintro ⟨record, h', -⟩
  cases h.symm.trans h'

theorem exact_registerAgent {s : AgentRegistry} (h : Exact s.capIndex s.Offers) (sessionId : Str)
    (record : AgentRecord) :
    Exact (s.registerAgent sessionId record).capIndex (s.registerAgent sessionId record).Offers := by
  have hnew (d : Str) : (s.registerAgent sessionId record).Offers sessionId d ↔
      d ∈ record.capabilities.map AgentCapability.name :=
    offers_iff_of_lookup (AList.lookup_insert _) d
  have hother {k : Str} (hk : k ≠ sessionId) (d : Str) :
      (s.registerAgent sessionId record).Offers k d ↔ s.Offers k d := by
    show (∃ record', (s.agents.insert sessionId record).lookup k = some record' ∧ _) ↔ _
    rw [AList.lookup_insert_ne hk]
    rfl
  -- first the session is dropped from the lists of its old record
  have hdropped : Exact
      (match s.agents.lookup sessionId with
      | some old => (old.capabilities.map AgentCapability.name).foldl (drop sessionId) s.capIndex
      | none => s.capIndex) fun k d => k ≠ sessionId ∧ s.Offers k d := by
    cases hold : s.agents.lookup sessionId with
    | none =>
      refine h.congr fun k d => ⟨fun hk => ⟨?_, hk⟩, fun hk => hk.2⟩
      rintro rfl
      exact not_offers_of_lookup_none hold d hk
    | some old => exact h.drop fun d => (offers_iff_of_lookup hold d).1
  refine (hdropped.add (fun d hd => hd.1 rfl) _).congr fun k d => ?_
  by_cases hk : k = sessionId
  · subst hk
    rw [hnew]
    simp
  · rw [hother hk]
    simp [hk]

theorem listAt_leave (sessionId : Str) (capIndex : UMap (List Str)) (cap cap' : Str) :
    listAt (leave sessionId capIndex cap) cap' = listAt (drop sessionId capIndex cap) cap' := by
  rw [listAt_drop]
  unfold leave
  cases h : capIndex.lookup cap with
  | none =>
    by_cases hcap : cap' = cap
    · subst hcap
      simp [listAt, h]
    · simp [hcap]
  | some v =>
    dsimp only
    split_ifs with hempty hcap hcap
    · rw [hcap, listAt, AList.lookup_erase, listAt, h, Option.getD_some, hempty]
      rfl
    · rw [listAt, AList.lookup_erase_ne hcap, listAt]
    · rw [listAt_insert, if_pos hcap, hcap, listAt, h, Option.getD_some]
    · rw [listAt_insert, if_neg hcap]

theorem listAt_foldl_leave (sessionId : Str) (caps : List Str) (capIndex : UMap (List Str))
    (cap : Str) :
    listAt (caps.foldl (leave sessionId) capIndex) cap =
      listAt (caps.foldl (drop sessionId) capIndex) cap := by
  induction caps generalizing capIndex with
  | nil => rfl
  | cons c caps ih =>
      rw [List.foldl_cons, List.foldl_cons, ih, listAt_foldl_drop, listAt_foldl_drop, listAt_leave]

theorem lookup_unregisterAgent (s : AgentRegistry) (sessionId : Str) :
    (s.unregisterAgent sessionId).agents.lookup sessionId = none := by
  unfold unregisterAgent
  split
  · next h => exact h
  · exact AList.lookup_erase _ _

theorem exact_unregisterAgent {s : AgentRegistry} (h : Exact s.capIndex s.Offers) (sessionId : Str) :
    Exact (s.unregisterAgent sessionId).capIndex (s.unregisterAgent sessionId).Offers := by
  unfold unregisterAgent
  cases hold : s.agents.lookup sessionId with
  | none => exact h
  | some record =>
    have hdropped := h.drop (k := sessionId) fun d => (offers_iff_of_lookup hold d).1
    have hoffers (k d : Str) : k ≠ sessionId ∧ s.Offers k d ↔
        Offers { s with agents := s.agents.erase sessionId } k d := by
      by_cases hk : k = sessionId
      · subst hk
        simp [Offers]
      · simp [Offers, hk, AList.lookup_erase_ne hk]
    intro d
    rw [listAt_foldl_leave]
    exact (hdropped.congr hoffers) d

/-! ## The choice of a route -/

/-- The choice among the records of some sessions: a healthy one with the fewest calls, if there is a
healthy one. -/
def Chosen (agents : UMap AgentRecord) (sids : List Str) : Option AgentRecord → Prop
  | none => ∀ sid ∈ sids, ∀ record, agents.lookup sid = some record → record.healthy = false
  | some best =>
      (∃ sid ∈ sids, agents.lookup sid = some best) ∧ best.healthy = true ∧
        ∀ sid ∈ sids, ∀ record, agents.lookup sid = some record → record.healthy = true →
          best.activeCalls.toInt ≤ record.activeCalls.toInt

/-- A choice stays one, if the record of the session is not a better one. -/
theorem Chosen.skip {agents : UMap AgentRecord} {sids : List Str} {best : Option AgentRecord}
    (h : Chosen agents sids best) {sid : Str}
    (hsid : ∀ record, agents.lookup sid = some record → record.healthy = true →
      ∃ b, best = some b ∧ b.activeCalls.toInt ≤ record.activeCalls.toInt) :
    Chosen agents (sids ++ [sid]) best := by
  cases best with
  | none =>
    intro other hother record hrecord
    rcases List.mem_append.1 hother with hother | hother
    · exact h other hother record hrecord
    · rw [List.mem_singleton.1 hother] at hrecord
      by_contra hhealthy
      obtain ⟨b, hb, -⟩ := hsid record hrecord (Bool.not_eq_false _ ▸ hhealthy)
      cases hb
  | some b =>
    obtain ⟨⟨s, hs, hb⟩, hhealthy, hle⟩ := h
    refine ⟨⟨s, List.mem_append_left _ hs, hb⟩, hhealthy, fun other hother record hrecord hup => ?_⟩
    rcases List.mem_append.1 hother with hother | hother
    · exact hle other hother record hrecord hup
    · rw [List.mem_singleton.1 hother] at hrecord
      obtain ⟨b', hb', hle'⟩ := hsid record hrecord hup
      rwa [Option.some.inj hb']

/-- A healthy record is the choice, if it has fewer calls than the one so far. -/
theorem Chosen.replace {agents : UMap AgentRecord} {sids : List Str} {best : Option AgentRecord}
    (h : Chosen agents sids best) {sid : Str} {record : AgentRecord}
    (hrecord : agents.lookup sid = some record) (hhealthy : record.healthy = true)
    (hless : ∀ b, best = some b → record.activeCalls.toInt < b.activeCalls.toInt) :
    Chosen agents (sids ++ [sid]) (some record) := by
  refine ⟨⟨sid, List.mem_append_right _ List.mem_cons_self, hrecord⟩, hhealthy,
    fun other hother record' hrecord' hup => ?_⟩
  rcases List.mem_append.1 hother with hother | hother
  · cases best with
    | none =>
      rw [h other hother record' hrecord'] at hup
      cases hup
    | some b => exact (Int.le_of_lt (hless b rfl)).trans (h.2.2 other hother record' hrecord' hup)
  · rw [List.mem_singleton.1 hother, hrecord, Option.some.injEq] at hrecord'
    rw [hrecord']

theorem Chosen.better {agents : UMap AgentRecord} {sids : List Str} {best : Option AgentRecord}
    (h : Chosen agents sids best) (sid : Str) :
    Chosen agents (sids ++ [sid]) (better agents best sid) := by
  unfold AgentRegistry.better
  cases hlookup : agents.lookup sid with
  | none =>
    refine h.skip fun record hrecord _ => ?_
    cases hlookup.symm.trans hrecord
  | some record =>
    have hsame {record' : AgentRecord} (hrecord' : agents.lookup sid = some record') :
        record = record' := Option.some.inj (hlookup.symm.trans hrecord')
    dsimp only
    split_ifs with hhealthy
    · refine h.skip fun record' hrecord' hup => ?_
      rw [hsame hrecord', hup] at hhealthy
      cases hhealthy
    · have hup : record.healthy = true := by simpa using hhealthy
      cases best with
      | none => exact h.replace hlookup hup fun b hb => by cases hb
      | some b =>
        dsimp only
        split_ifs with hless
        · refine h.replace hlookup hup fun b' hb' => ?_
          rw [← Option.some.inj hb']
          exact Int32.lt_iff_toInt_lt.1 hless
        · refine h.skip fun record' hrecord' _ => ⟨b, rfl, ?_⟩
          rw [Int32.lt_iff_toInt_lt] at hless
          rw [← hsame hrecord']
          omega

theorem chosen_foldl_better (agents : UMap AgentRecord) (sids : List Str) :
    Chosen agents sids (sids.foldl (AgentRegistry.better agents) none) := by
  induction sids using List.reverseRecOn with
  | nil => exact fun sid hsid => absurd hsid List.not_mem_nil
  | append_singleton sids sid ih =>
      rw [List.foldl_append]
      exact ih.better sid

/-- A route is the choice among the sessions that the index lists under the capability. -/
theorem chosen_route (s : AgentRegistry) (capability : Str) :
    Chosen s.agents (listAt s.capIndex capability) (s.route capability) := by
  unfold route listAt
  cases s.capIndex.lookup capability with
  | none => exact fun sid hsid => absurd hsid List.not_mem_nil
  | some sids => exact chosen_foldl_better s.agents sids

/-! ## Runs -/

/-- A call that changes the registry. -/
inductive Op
  | registerAgent (sessionId : Str) (record : AgentRecord)
  | unregisterAgent (sessionId : Str)
  deriving DecidableEq

/-- What the call does. -/
def perform (s : AgentRegistry) : Op → AgentRegistry
  | .registerAgent sessionId record => s.registerAgent sessionId record
  | .unregisterAgent sessionId => s.unregisterAgent sessionId

/-- The registry after some operations, from the empty one on. -/
def performAll (ops : List Op) : AgentRegistry := ops.foldl perform {}

/-- A healthy agent that is registered for a capability. -/
def Capable (s : AgentRegistry) (capability sessionId : Str) (record : AgentRecord) : Prop :=
  s.find sessionId = some record ∧ record.healthy = true ∧
    capability ∈ record.capabilities.map AgentCapability.name

theorem exact_performAll (ops : List Op) : Exact (performAll ops).capIndex (performAll ops).Offers := by
  induction ops using List.reverseRecOn with
  | nil =>
    refine exact_empty.congr fun k d => ⟨False.elim, ?_⟩
    exact not_offers_of_lookup_none (AList.lookup_empty k) d
  | append_singleton ops op ih =>
    rw [performAll, List.foldl_append, ← performAll]
    cases op with
    | registerAgent sessionId record => exact exact_registerAgent ih sessionId record
    | unregisterAgent sessionId => exact exact_unregisterAgent ih sessionId

section Routes

variable {s : AgentRegistry} (h : Exact s.capIndex s.Offers)

include h

/-- With an exact index a session is listed under a capability exactly if its record has it. -/
theorem mem_listAt_iff {sessionId : Str} {record : AgentRecord} (hrecord : s.find sessionId = some record)
    (capability : Str) : sessionId ∈ listAt s.capIndex capability ↔
      capability ∈ record.capabilities.map AgentCapability.name :=
  ((h capability).1 sessionId).trans (offers_iff_of_lookup hrecord capability)

theorem route_eq_none_iff (capability : Str) :
    s.route capability = none ↔ ∀ sessionId record, ¬s.Capable capability sessionId record := by
  have hchosen := chosen_route s capability
  constructor
  · rintro hnone sessionId record ⟨hrecord, hhealthy, hcap⟩
    rw [hnone] at hchosen
    have hlisted := (mem_listAt_iff h hrecord capability).2 hcap
    rw [hchosen sessionId hlisted record hrecord] at hhealthy
    exact Bool.false_ne_true hhealthy
  · intro hnobody
    cases hroute : s.route capability with
    | none => rfl
    | some best =>
      rw [hroute] at hchosen
      obtain ⟨⟨sessionId, hlisted, hbest⟩, hhealthy, -⟩ := hchosen
      exact absurd ⟨hbest, hhealthy, (mem_listAt_iff h hbest capability).1 hlisted⟩
        (hnobody sessionId best)

end Routes

end AgentRegistry

end LlmGateway
