import LlmGateway.AgentRegistry
import LlmGateway.Lib.Outcome

/-!
# The capabilities that are advertised

`all_capabilities` lists the keys of the index, also those with an empty list.  `unregister_agent` takes the list
out when its last session leaves.  `register_agent`, for a session that is registered already, leaves the lists of
the old record empty, so a capability that the new record lacks stays in the answer, with nobody behind it.

The index is exact all the same (`exact_performAll`), so a state advertises the capabilities that are offered
exactly if no list is empty (`advertises_iff_noneEmpty`).  `advertises_iff`: this holds all along a run exactly
if no agent drops a capability that nobody else offers.
-/

namespace LlmGateway

open InverseIndex

namespace AgentRegistry

/-- The capabilities listed are those of the registered agents, each once. -/
def Advertises (s : AgentRegistry) : Prop :=
  s.allCapabilities.Nodup ∧ ∀ cap, cap ∈ s.allCapabilities ↔ ∃ sessionId, s.Offers sessionId cap

/-- A session that registers again keeps its capabilities, except those that another session offers. -/
def KeepsCapabilities (s : AgentRegistry) : Op → Prop
  | .registerAgent sessionId record => ∀ cap, s.Offers sessionId cap →
      cap ∈ record.capabilities.map AgentCapability.name ∨ ∃ other, other ≠ sessionId ∧ s.Offers other cap
  | .unregisterAgent _ => True

/-- No list of the index is empty. -/
def NoneEmpty (capIndex : UMap (List Str)) : Prop := ∀ cap, cap ∈ capIndex → listAt capIndex cap ≠ []

variable {s : AgentRegistry}

theorem mem_of_listAt {capIndex : UMap (List Str)} {cap sessionId : Str}
    (h : sessionId ∈ listAt capIndex cap) : cap ∈ capIndex := by
  by_contra hnone
  rw [listAt, AList.lookup_eq_none.2 hnone] at h
  cases h

/-- With an exact index, what is listed is what is offered if no list is empty. -/
theorem advertises_iff_noneEmpty (h : Exact s.capIndex s.Offers) : s.Advertises ↔ NoneEmpty s.capIndex := by
  constructor
  · rintro ⟨-, hlisted⟩ cap hcap hempty
    obtain ⟨sessionId, hoffers⟩ := (hlisted cap).1 hcap
    have hmem := ((h cap).1 sessionId).2 hoffers
    rw [hempty] at hmem
    cases hmem
  · intro hne
    refine ⟨AList.keys_nodup s.capIndex, fun cap => ⟨fun hcap => ?_, ?_⟩⟩
    · obtain ⟨sessionId, hmem⟩ := List.exists_mem_of_ne_nil _ (hne cap hcap)
      exact ⟨sessionId, ((h cap).1 sessionId).1 hmem⟩
    · rintro ⟨sessionId, hoffers⟩
      exact mem_of_listAt (((h cap).1 sessionId).2 hoffers)

/-! ## Leaving -/

theorem noneEmpty_leave (sessionId : Str) {capIndex : UMap (List Str)} (h : NoneEmpty capIndex) (cap : Str) :
    NoneEmpty (leave sessionId capIndex cap) := by
  unfold leave
  cases hcap : capIndex.lookup cap with
  | none => exact h
  | some v =>
    dsimp only
    split_ifs with hempty
    · intro cap' hcap'
      rw [AList.mem_erase] at hcap'
      rw [listAt, AList.lookup_erase_ne hcap'.1]
      exact h cap' hcap'.2
    · intro cap' hcap'
      rw [listAt_insert]
      split_ifs with heq
      · exact hempty
      · exact h cap' ((AList.mem_insert _).1 hcap' |>.resolve_left heq)

theorem noneEmpty_unregisterAgent (h : NoneEmpty s.capIndex) (sessionId : Str) :
    NoneEmpty (s.unregisterAgent sessionId).capIndex := by
  unfold unregisterAgent
  cases s.agents.lookup sessionId with
  | none => exact h
  | some record =>
    dsimp only
    generalize record.capabilities.map AgentCapability.name = caps
    generalize s.capIndex = capIndex at h
    induction caps generalizing capIndex with
    | nil => exact h
    | cons cap caps ih => exact ih _ (noneEmpty_leave sessionId h cap)

/-! ## Registering -/

variable (sessionId : Str) (record : AgentRecord)

/-- A registration takes no list out of the index, and adds the lists of the new record. -/
theorem mem_capIndex_registerAgent (cap : Str) (h : Exact s.capIndex s.Offers) :
    cap ∈ (s.registerAgent sessionId record).capIndex ↔
      cap ∈ record.capabilities.map AgentCapability.name ∨ cap ∈ s.capIndex := by
  unfold registerAgent
  rw [mem_foldl_add]
  refine or_congr_right ?_
  cases hold : s.agents.lookup sessionId with
  | none => rfl
  | some old =>
    dsimp only
    rw [mem_foldl_drop, or_iff_right_iff_imp]
    intro hcap
    exact mem_of_listAt (((h cap).1 sessionId).2 ⟨old, hold, hcap⟩)

/-- Who offers a capability after a registration. -/
theorem offers_registerAgent_iff (other cap : Str) : (s.registerAgent sessionId record).Offers other cap ↔
    if other = sessionId then cap ∈ record.capabilities.map AgentCapability.name else s.Offers other cap := by
  split_ifs with hother
  · rw [hother]
    exact offers_iff_of_lookup (AList.lookup_insert _) cap
  · unfold Offers registerAgent
    rw [AList.lookup_insert_ne hother]

/-- After a registration the capabilities listed are those offered, if they were before and the session drops
none that nobody else offers, and only then. -/
theorem advertises_registerAgent_iff (h : Exact s.capIndex s.Offers) (hs : s.Advertises) :
    (s.registerAgent sessionId record).Advertises ↔ s.KeepsCapabilities (.registerAgent sessionId record) := by
  have hlisted : ∀ cap, cap ∈ (s.registerAgent sessionId record).allCapabilities ↔
      cap ∈ record.capabilities.map AgentCapability.name ∨ ∃ other, s.Offers other cap := by
    intro cap
    rw [← hs.2 cap]
    exact mem_capIndex_registerAgent sessionId record cap h
  have hothers : ∀ {other cap}, other ≠ sessionId →
      ((s.registerAgent sessionId record).Offers other cap ↔ s.Offers other cap) := by
    intro other cap hother
    rw [offers_registerAgent_iff, if_neg hother]
  have hself : ∀ cap, (s.registerAgent sessionId record).Offers sessionId cap ↔
      cap ∈ record.capabilities.map AgentCapability.name := by
    intro cap
    rw [offers_registerAgent_iff, if_pos rfl]
  constructor
  · -- what the session offered is still listed, so somebody offers it
    rintro ⟨-, hadv⟩ cap hcap
    obtain ⟨other, hoffers⟩ := (hadv cap).1 ((hlisted cap).2 (Or.inr ⟨sessionId, hcap⟩))
    by_cases hother : other = sessionId
    · rw [hother, hself] at hoffers
      exact Or.inl hoffers
    · exact Or.inr ⟨other, hother, (hothers hother).1 hoffers⟩
  · intro hkeeps
    refine ⟨AList.keys_nodup _, fun cap => ?_⟩
    rw [hlisted]
    constructor
    · rintro (hcap | ⟨other, hoffers⟩)
      · exact ⟨sessionId, (hself cap).2 hcap⟩
      · by_cases hother : other = sessionId
        · rw [hother] at hoffers
          rcases hkeeps cap hoffers with hcap | ⟨other', hother', hoffers'⟩
          · exact ⟨sessionId, (hself cap).2 hcap⟩
          · exact ⟨other', (hothers hother').2 hoffers'⟩
        · exact ⟨other, (hothers hother).2 hoffers⟩
    · rintro ⟨other, hoffers⟩
      by_cases hother : other = sessionId
      · rw [hother, hself] at hoffers
        exact Or.inl hoffers
      · exact Or.inr ⟨other, (hothers hother).1 hoffers⟩

/-! ## Runs -/

theorem exact_perform (h : Exact s.capIndex s.Offers) (op : Op) :
    Exact (s.perform op).capIndex (s.perform op).Offers := by
  cases op with
  | registerAgent sessionId record => exact exact_registerAgent h sessionId record
  | unregisterAgent sessionId => exact exact_unregisterAgent h sessionId

/-- One operation keeps the capabilities listed those that are offered exactly if it drops none. -/
theorem advertises_perform_iff (h : Exact s.capIndex s.Offers) (hs : s.Advertises) (op : Op) :
    (s.perform op).Advertises ↔ s.KeepsCapabilities op := by
  cases op with
  | registerAgent sessionId record => exact advertises_registerAgent_iff sessionId record h hs
  | unregisterAgent sessionId =>
    refine iff_of_true ?_ trivial
    have hne := noneEmpty_unregisterAgent ((advertises_iff_noneEmpty h).1 hs) sessionId
    exact (advertises_iff_noneEmpty (exact_unregisterAgent h sessionId)).2 hne

theorem performAll_eq_run (ops : List Op) :
    performAll ops = Outcome.run (fun op s => .ok (perform s op)) {} ops := rfl

/-- All along a run of registrations and unregistrations the capabilities listed are those of the registered
agents, each once, exactly if no session registers again without a capability that only it offers. -/
theorem advertises_iff (ops : List Op) :
    (∀ pre, pre <+: ops → (performAll pre).Advertises) ↔
      ∀ pre op post, ops = pre ++ op :: post → (performAll pre).KeepsCapabilities op := by
  have hnobody : ∀ cap, ¬∃ sessionId, ({} : AgentRegistry).Offers sessionId cap := by
    rintro cap ⟨sessionId, hoffers⟩
    exact not_offers_of_lookup_none (AList.lookup_empty sessionId) cap hoffers
  simp only [performAll_eq_run]
  refine Outcome.run_holds_iff (I := fun s : AgentRegistry => Exact s.capIndex s.Offers ∧ s.Advertises) (fun s hs => hs.2)
    ⟨exact_performAll [], List.nodup_nil, fun cap => iff_of_false List.not_mem_nil (hnobody cap)⟩
    (fun s op _ hs hkeeps => ⟨exact_perform hs.1 op, (advertises_perform_iff hs.1 hs.2 op).2 hkeeps⟩)
    fun s op _ hs hadv => (advertises_perform_iff hs.1 hs.2 op).1 hadv

/-- An agent with one capability. -/
def agentWith (cap : Str) : AgentRecord where
  sessionId := str "1-0"
  agentName := str "agent"
  capabilities := [⟨cap, [], [], [], 1⟩]
  peerAddr := []
  registeredAtMs := 0
  lastHeartbeatMs := 0

/-- The agent registers with `search`, then with `solve`: both are listed, and nobody offers `search`. -/
theorem search_still_advertised :
    let s := performAll [.registerAgent (str "1-0") (agentWith (str "search")),
      .registerAgent (str "1-0") (agentWith (str "solve"))]
    str "search" ∈ s.allCapabilities ∧ s.route (str "search") = none ∧ ¬s.Advertises := by
  have hlisted : str "search" ∈ (performAll [.registerAgent (str "1-0") (agentWith (str "search")),
      .registerAgent (str "1-0") (agentWith (str "solve"))]).allCapabilities := by decide +kernel
  refine ⟨hlisted, by decide +kernel, fun h => ?_⟩
  obtain ⟨sessionId, record, hrecord, hcap⟩ := (h.2 _).1 hlisted
  have hagents : (performAll [.registerAgent (str "1-0") (agentWith (str "search")),
      .registerAgent (str "1-0") (agentWith (str "solve"))]).agents =
      ((∅ : UMap AgentRecord).insert (str "1-0") (agentWith (str "search"))).insert (str "1-0")
        (agentWith (str "solve")) := rfl
  rw [hagents, AList.insert_insert] at hrecord
  by_cases hsession : sessionId = str "1-0"
  · rw [hsession, AList.lookup_insert, Option.some.injEq] at hrecord
    rw [← hrecord] at hcap
    revert hcap
    decide +kernel
  · rw [AList.lookup_insert_ne hsession, AList.lookup_empty] at hrecord
    cases hrecord

end AgentRegistry

end LlmGateway
