import Mathlib.Data.Fintype.EquivFin
import LlmGateway.CallAnswers
import LlmGateway.Lib.EvenSpread

/-!
# The rotation of the executors

A tool call goes to the next executor that has the tool.  One index counts for all tools, and a call takes
it modulo the number of the executors for its own tool.  So the calls for other tools move the index between
two calls for a tool, and these may go to the same executor again and again.

The index before the calls of a round decides which executors get them (`fair_prefixes_iff`).  All sequences
of calls are fair to the executors of a tool exactly if there is at most one (`forall_fair_iff`).
-/

namespace LlmGateway

variable {ν : Type}

open Spread

namespace Gateway

open WsChatController (wsSend wsSend_state)

/-- The arguments of `route_tool_call`. -/
structure ToolRequest where
  sender : ConnId
  requestId : Str
  callId : Str
  name : Str
  arguments : Str

/-- The executors that are connected and have the tool. -/
def capable (name : Str) (g : Gateway ν) : List ConnId :=
  g.pruneExecutors.executors.filter fun e => ((g.tools.lookup e).getD []).any (· = name)

section Routes

variable (platform : GatewayPlatform ν)

/-- A tool call of a client. -/
def routeRequest (r : ToolRequest) (g : Gateway ν) : Outcome (Gateway ν) :=
  routeToolCall platform r.sender r.requestId r.callId r.name r.arguments g

/-- The state after some calls. -/
def routeAll (g : Gateway ν) (rs : List ToolRequest) : Gateway ν := Outcome.run (routeRequest platform) g rs

/-- The states before the calls for a tool. -/
def statesBefore (name : Str) (g : Gateway ν) : List ToolRequest → List (Gateway ν)
  | [] => []
  | r :: rs =>
      (if r.name = name then [g] else []) ++ statesBefore name (routeRequest platform r g).state rs

/-- The executors that the calls for a tool go to. -/
def receivers (name : Str) (g : Gateway ν) (rs : List ToolRequest) : List ConnId :=
  (statesBefore platform name g rs).filterMap (selectExecutor name)

/-- The values of `exec_rr_idx_` before the calls for a tool. -/
def indicesBefore (name : Str) (g : Gateway ν) (rs : List ToolRequest) : List ℕ :=
  (statesBefore platform name g rs).map execRrIdx

/-- Of the `m` calls for the tool, each of its `p` executors got `m / p`, rounded down or up. -/
def Fair (name : Str) (g : Gateway ν) (rs : List ToolRequest) : Prop :=
  ∀ e ∈ g.capable name,
    (receivers platform name g rs).count e =
        rs.countP (·.name = name) / (g.capable name).length ∨
      (receivers platform name g rs).count e =
        (rs.countP (·.name = name) + (g.capable name).length - 1) / (g.capable name).length

end Routes

/-! ## One call -/

theorem executorPool_of_capable {name : Str} {g : Gateway ν} (h : g.capable name ≠ []) :
    g.pruneExecutors.executorPool name = g.capable name := if_neg h

theorem executorPool_of_not_capable {name : Str} {g : Gateway ν} (h : g.capable name = []) :
    g.pruneExecutors.executorPool name = g.pruneExecutors.executors := if_pos h

/-- The executors, their tools and their connections are the same. -/
structure SameExecutors (g g' : Gateway ν) : Prop where
  executors : g'.pruneExecutors.executors = g.pruneExecutors.executors
  tools : g'.tools = g.tools

theorem SameExecutors.refl (g : Gateway ν) : SameExecutors g g := ⟨rfl, rfl⟩

theorem SameExecutors.trans {g₁ g₂ g₃ : Gateway ν} (h : SameExecutors g₁ g₂) (h' : SameExecutors g₂ g₃) :
    SameExecutors g₁ g₃ := ⟨h'.executors.trans h.executors, h'.tools.trans h.tools⟩

theorem SameExecutors.capable {g g' : Gateway ν} (h : SameExecutors g g') (name : Str) :
    g'.capable name = g.capable name := by
  unfold Gateway.capable
  rw [h.executors, h.tools]

theorem SameExecutors.executorPool {g g' : Gateway ν} (h : SameExecutors g g') (name : Str) :
    g'.pruneExecutors.executorPool name = g.pruneExecutors.executorPool name := by
  by_cases hc : g.capable name = []
  · rw [executorPool_of_not_capable hc, executorPool_of_not_capable ((h.capable name).trans hc),
      h.executors]
  · rw [executorPool_of_capable hc, executorPool_of_capable ((h.capable name).trans_ne hc), h.capable]

theorem sameExecutors_of_prune {g g' : Gateway ν} (hconns : g'.conns = g.conns)
    (htools : g'.tools = g.tools) (hexecutors : g'.executors = g.pruneExecutors.executors) :
    SameExecutors g g' := by
  have hconnected (e : ConnId) : g'.isConnected e = g.isConnected e := by
    unfold isConnected
    rw [hconns]
  refine ⟨?_, htools⟩
  show g'.executors.filter _ = _
  rw [hexecutors]
  show (g.executors.filter _).filter _ = _
  rw [List.filter_filter]
  exact List.filter_congr fun e _ => by rw [hconnected, Bool.and_self]

section Route

variable (platform : GatewayPlatform ν) (r : ToolRequest) (g : Gateway ν)

theorem sameExecutors_routeRequest : SameExecutors g (routeRequest platform r g).state := by
  unfold routeRequest routeToolCall
  split
  · obtain ⟨sent, hsent⟩ := wsSend_state platform r.sender (noExecutor r.requestId) g.pruneExecutors
    rw [hsent]
    exact sameExecutors_of_prune rfl rfl rfl
  · obtain ⟨sent, hsent⟩ := forwardTool_state platform _ r.requestId r.callId r.name r.arguments
      (registerTool r.sender r.requestId r.callId
        { g.pruneExecutors with execRrIdx := g.pruneExecutors.nextIdx r.name })
    rw [hsent]
    exact sameExecutors_of_prune rfl rfl rfl

theorem selectExecutor_eq_none_iff (name : Str) :
    g.selectExecutor name = none ↔ g.pruneExecutors.executorPool name = [] := by
  unfold selectExecutor nextIdx
  rw [List.getElem?_eq_none_iff]
  constructor
  · intro h
    by_contra hne
    exact absurd (Nat.mod_lt _ (List.length_pos_iff.2 hne)) (Nat.not_lt.2 h)
  · intro h
    rw [h]
    exact Nat.zero_le _

/-- The index takes one step modulo the size of the pool. -/
theorem execRrIdx_routeRequest {n : ℕ} (hn : (g.pruneExecutors.executorPool r.name).length = n)
    (hpos : 0 < n) : (routeRequest platform r g).state.execRrIdx = (g.execRrIdx + 1) % n := by
  unfold routeRequest routeToolCall
  split
  · next hnone =>
    rw [(selectExecutor_eq_none_iff g r.name).1 hnone] at hn
    exact absurd hn (Nat.ne_of_lt hpos)
  · obtain ⟨sent, hsent⟩ := forwardTool_state platform _ r.requestId r.callId r.name r.arguments
      (registerTool r.sender r.requestId r.callId
        { g.pruneExecutors with execRrIdx := g.pruneExecutors.nextIdx r.name })
    rw [hsent, ← hn]
    rfl

theorem selectExecutor_of_capable {name : Str} (h : g.capable name ≠ []) :
    g.selectExecutor name = (g.capable name)[(g.execRrIdx + 1) % (g.capable name).length]? := by
  unfold selectExecutor nextIdx
  rw [executorPool_of_capable h]
  rfl

/-- A call for a tool that an executor has goes to one that has it. -/
theorem exists_capable {name : Str} (h : g.capable name ≠ []) :
    ∃ e ∈ g.capable name, g.selectExecutor name = some e := by
  have hlt := Nat.mod_lt (g.execRrIdx + 1) (List.length_pos_iff.2 h)
  exact ⟨_, List.getElem_mem hlt, by rw [selectExecutor_of_capable g h, List.getElem?_eq_getElem hlt]⟩

/-- The message for the executor is queued, if it can be built. -/
theorem sent_routeRequest {e : ConnId} (h : g.selectExecutor r.name = some e) {args : Json ν}
    (hargs : platform.json.parse r.arguments = some args)
    (hdump : (platform.json.dump (toolCallJson r.requestId r.callId r.name args)).isSome) :
    (routeRequest platform r g).state.sent =
      g.sent ++ [(e, toolCallJson r.requestId r.callId r.name args)] := by
  obtain ⟨text, hdump⟩ := Option.isSome_iff_exists.1 hdump
  rw [routeRequest, routeToolCall, h]
  dsimp only
  rw [forwardTool, hargs]
  dsimp only
  rw [wsSend_of_dump_some platform hdump]
  rfl

end Route

/-! ## Sequences of calls -/

section Runs

variable (platform : GatewayPlatform ν) {name : Str}

theorem sameExecutors_routeAll (g : Gateway ν) (rs : List ToolRequest) :
    SameExecutors g (routeAll platform g rs) :=
  Outcome.run_invariant (SameExecutors g) (.refl g) fun g' r _ h =>
    h.trans (sameExecutors_routeRequest platform r g')

theorem statesBefore_append (g : Gateway ν) (rs rs' : List ToolRequest) :
    statesBefore platform name g (rs ++ rs') =
      statesBefore platform name g rs ++ statesBefore platform name (routeAll platform g rs) rs' := by
  induction rs generalizing g with
  | nil => rfl
  | cons r rs ih =>
    rw [List.cons_append, statesBefore, ih, statesBefore, List.append_assoc]
    rfl

theorem sameExecutors_statesBefore {g g' : Gateway ν} {rs : List ToolRequest}
    (h : g' ∈ statesBefore platform name g rs) : SameExecutors g g' := by
  induction rs generalizing g with
  | nil => cases h
  | cons r rs ih =>
    rcases List.mem_append.1 h with h | h
    · split_ifs at h
      · rw [List.mem_singleton.1 h]
        exact .refl g
      · cases h
    · exact (sameExecutors_routeRequest platform r g).trans (ih h)

theorem length_statesBefore (g : Gateway ν) (rs : List ToolRequest) :
    (statesBefore platform name g rs).length = rs.countP (·.name = name) := by
  induction rs generalizing g with
  | nil => rfl
  | cons r rs ih =>
    rw [statesBefore, List.length_append, ih, List.countP_cons, Nat.add_comm]
    by_cases hr : r.name = name <;> simp [hr]

theorem indicesBefore_append (g : Gateway ν) (rs rs' : List ToolRequest) :
    indicesBefore platform name g (rs ++ rs') =
      indicesBefore platform name g rs ++ indicesBefore platform name (routeAll platform g rs) rs' := by
  unfold indicesBefore
  rw [statesBefore_append, List.map_append]

theorem indicesBefore_singleton (r : ToolRequest) (g : Gateway ν) :
    indicesBefore platform name g [r] = if r.name = name then [g.execRrIdx] else [] := by
  unfold indicesBefore statesBefore
  split_ifs <;> rfl

/-- Calls for other tools. -/
theorem indicesBefore_of_others {rs : List ToolRequest} (h : ∀ r ∈ rs, r.name ≠ name) (g : Gateway ν) :
    indicesBefore platform name g rs = [] := by
  rw [indicesBefore, List.map_eq_nil_iff, ← List.length_eq_zero_iff, length_statesBefore,
    List.countP_eq_zero]
  intro r hr
  simpa using h r hr

theorem receivers_append (g : Gateway ν) (rs rs' : List ToolRequest) :
    receivers platform name g (rs ++ rs') =
      receivers platform name g rs ++ receivers platform name (routeAll platform g rs) rs' := by
  unfold receivers
  rw [statesBefore_append, List.filterMap_append]

variable {g : Gateway ν} (hne : g.capable name ≠ [])

include hne

theorem selectExecutor_of_mem_statesBefore {g' : Gateway ν} {rs : List ToolRequest}
    (h : g' ∈ statesBefore platform name g rs) :
    ∃ e ∈ g.capable name, g'.selectExecutor name = some e ∧
      (g.capable name)[(g'.execRrIdx + 1) % (g.capable name).length]? = some e := by
  have hcapable := (sameExecutors_statesBefore platform h).capable name
  obtain ⟨e, he, heq⟩ := exists_capable g' (hcapable.trans_ne hne)
  have hselect := selectExecutor_of_capable g' (hcapable.trans_ne hne)
  rw [hcapable] at he hselect
  exact ⟨e, he, heq, hselect.symm.trans heq⟩

theorem map_some_receivers (rs : List ToolRequest) :
    (receivers platform name g rs).map some = (indicesBefore platform name g rs).map
      fun i => (g.capable name)[(i + 1) % (g.capable name).length]? := by
  unfold receivers indicesBefore
  rw [List.map_map]
  have hselect : ∀ g' ∈ statesBefore platform name g rs, g'.selectExecutor name =
      (g.capable name)[(g'.execRrIdx + 1) % (g.capable name).length]? ∧ (g'.selectExecutor name).isSome := by
    intro g' hg'
    obtain ⟨e, -, heq, hget⟩ := selectExecutor_of_mem_statesBefore platform hne hg'
    exact ⟨heq.trans hget.symm, by rw [heq]; rfl⟩
  generalize statesBefore platform name g rs = gs at hselect
  induction gs with
  | nil => rfl
  | cons g' gs ih =>
    obtain ⟨⟨hget, hsome⟩, hgs⟩ := List.forall_mem_cons.1 hselect
    obtain ⟨e, heq⟩ := Option.isSome_iff_exists.1 hsome
    rw [List.filterMap_cons_some heq, List.map_cons, List.map_cons, ih hgs, ← heq, hget]
    rfl

theorem length_receivers (rs : List ToolRequest) :
    (receivers platform name g rs).length = rs.countP (·.name = name) := by
  have hlength := congrArg List.length (map_some_receivers platform hne rs)
  rw [List.length_map, List.length_map] at hlength
  rw [hlength, indicesBefore, List.length_map, length_statesBefore]

theorem mem_of_mem_receivers {rs : List ToolRequest} {e : ConnId}
    (h : e ∈ receivers platform name g rs) : e ∈ (g.capable name).toFinset := by
  obtain ⟨g', hg', heq⟩ := List.mem_filterMap.1 h
  obtain ⟨e', he', heq', -⟩ := selectExecutor_of_mem_statesBefore platform hne hg'
  rw [List.mem_toFinset, Option.some.inj (heq.symm.trans heq')]
  exact he'

theorem exists_prefix_of_receivers {rs : List ToolRequest} {es : List ConnId}
    (h : es <+: receivers platform name g rs) :
    ∃ pre, pre <+: rs ∧ receivers platform name g pre = es := by
  -- the prefix ends where enough calls for the tool have been made
  induction rs using List.reverseRecOn with
  | nil => exact ⟨[], List.prefix_rfl, (List.prefix_nil.1 h).symm⟩
  | append_singleton rs r ih =>
    by_cases hshort : es <+: receivers platform name g rs
    · obtain ⟨pre, hpre, heq⟩ := ih hshort
      exact ⟨pre, hpre.trans (List.prefix_append _ _), heq⟩
    · refine ⟨rs ++ [r], List.prefix_rfl, (h.eq_of_length_le ?_).symm⟩
      have hlt : (receivers platform name g rs).length < es.length := by
        refine Nat.lt_of_not_le fun hle => hshort ?_
        refine List.prefix_of_prefix_length_le h ?_ hle
        rw [receivers_append]
        exact List.prefix_append _ _
      rw [length_receivers platform hne, List.countP_append, ← length_receivers platform hne]
      have hone : [r].countP (·.name = name) ≤ 1 := List.countP_le_length
      omega

end Runs

section Fair

variable (platform : GatewayPlatform ν) {name : Str} {g : Gateway ν} (hnodup : g.executors.Nodup)

include hnodup

theorem nodup_capable (name : Str) : (g.capable name).Nodup := (hnodup.filter _).filter _

theorem card_capable (name : Str) : (g.capable name).toFinset.card = (g.capable name).length :=
  List.toFinset_card_of_nodup (nodup_capable hnodup name)

theorem fair_iff_evenSpread (hne : g.capable name ≠ []) (rs : List ToolRequest) :
    Fair platform name g rs ↔ EvenSpread (g.capable name).toFinset (receivers platform name g rs) := by
  unfold Fair EvenSpread
  rw [card_capable hnodup, length_receivers platform hne]
  simp only [List.mem_toFinset]

/-- The calls for a tool are fair all along exactly if in each round, the index before the calls has distinct
residues modulo the number of its executors. -/
theorem fair_prefixes_iff (hne : g.capable name ≠ []) (rs : List ToolRequest) :
    (∀ pre, pre <+: rs → Fair platform name g pre) ↔
      DistinctInRounds (g.capable name).length
        ((indicesBefore platform name g rs).map (· % (g.capable name).length)) := by
  have hpos := List.length_pos_iff.2 hne
  have hselect (i j : ℕ) : (g.capable name)[(i + 1) % (g.capable name).length]? =
      (g.capable name)[(j + 1) % (g.capable name).length]? ↔
        i % (g.capable name).length = j % (g.capable name).length := by
    rw [List.getElem?_inj (Nat.mod_lt _ hpos) (nodup_capable hnodup name)]
    exact ⟨Nat.ModEq.add_right_cancel' 1, Nat.ModEq.add_right 1⟩
  have hsome : DistinctInRounds (g.capable name).length (receivers platform name g rs) ↔
      DistinctInRounds (g.capable name).length ((receivers platform name g rs).map some) := by
    rw [← List.map_id (receivers platform name g rs), List.map_map]
    exact distinctInRounds_map_congr fun e e' => (Option.some_inj (a := e) (b := e')).symm
  rw [← distinctInRounds_map_congr hselect, ← map_some_receivers platform hne, ← hsome,
    ← card_capable hnodup, ← evenSpread_prefixes_iff fun e he => mem_of_mem_receivers platform hne he]
  · constructor
    · intro h es hes
      obtain ⟨pre, hpre, rfl⟩ := exists_prefix_of_receivers platform hne hes
      exact (fair_iff_evenSpread platform hnodup hne pre).1 (h pre hpre)
    · intro h pre hpre
      refine (fair_iff_evenSpread platform hnodup hne pre).2 (h _ ?_)
      obtain ⟨post, rfl⟩ := hpre
      rw [receivers_append]
      exact List.prefix_append _ _
  · rw [card_capable hnodup]
    exact hpos

end Fair

/-! ## Calls that are not interleaved, and calls that are -/

section Interleaving

variable (platform : GatewayPlatform ν) {name : Str}

theorem indicesBefore_of_all {g : Gateway ν} (hne : g.capable name ≠ []) {rs : List ToolRequest}
    (h : ∀ r ∈ rs, r.name = name) :
    (indicesBefore platform name g rs).map (· % (g.capable name).length) =
      (List.range rs.length).map fun k => (g.execRrIdx + k) % (g.capable name).length := by
  induction rs generalizing g with
  | nil => rfl
  | cons r rs ih =>
    obtain ⟨rfl, hrs⟩ := List.forall_mem_cons.1 h
    have hcapable := (sameExecutors_routeRequest platform r g).capable r.name
    have hidx := execRrIdx_routeRequest platform r g (congrArg List.length (executorPool_of_capable hne))
      (List.length_pos_iff.2 hne)
    have hrest := ih (hcapable.trans_ne hne) hrs
    rw [hcapable, hidx] at hrest
    have hcons : indicesBefore platform r.name g (r :: rs) =
        g.execRrIdx :: indicesBefore platform r.name (routeRequest platform r g).state rs := by
      rw [← List.singleton_append, indicesBefore_append, indicesBefore_singleton, if_pos rfl]
      rfl
    rw [hcons, List.map_cons, hrest, List.length_cons, List.range_succ_eq_map, List.map_cons, List.map_map]
    refine congrArg (_ :: ·) (List.map_congr_left fun k _ => ?_)
    rw [Nat.mod_add_mod, Nat.add_assoc, Nat.add_comm 1 k]
    rfl

/-- Calls for a tool with no calls for others between them are fair. -/
theorem fair_of_contiguous {g : Gateway ν} (hnodup : g.executors.Nodup)
    {before calls after : List ToolRequest} (hbefore : ∀ r ∈ before, r.name ≠ name)
    (hcalls : ∀ r ∈ calls, r.name = name) (hafter : ∀ r ∈ after, r.name ≠ name) :
    Fair platform name g (before ++ calls ++ after) := by
  by_cases hne : g.capable name = []
  · intro e he
    rw [hne] at he
    cases he
  · refine (fair_prefixes_iff platform hnodup hne _).2 ?_ _ List.prefix_rfl
    have hcapable := (sameExecutors_routeAll platform g before).capable name
    rw [indicesBefore_append, indicesBefore_append, indicesBefore_of_others platform hbefore,
      indicesBefore_of_others platform hafter, List.nil_append, List.append_nil, ← hcapable,
      indicesBefore_of_all platform (hcapable.trans_ne hne) hcalls]
    exact distinctInRounds_rotation _ _ _

theorem execRrIdx_routeAll_replicate {r : ToolRequest} {g : Gateway ν} {n : ℕ}
    (hn : (g.pruneExecutors.executorPool r.name).length = n) (hpos : 0 < n) (k : ℕ) :
    (routeAll platform g (List.replicate (k + 1) r)).execRrIdx = (g.execRrIdx + (k + 1)) % n := by
  induction k generalizing g with
  | zero => exact execRrIdx_routeRequest platform r g hn hpos
  | succ k ih =>
    have hpool := (sameExecutors_routeRequest platform r g).executorPool r.name
    have hrest := ih (g := (routeRequest platform r g).state) (by rw [hpool, hn])
    rw [execRrIdx_routeRequest platform r g hn hpos, Nat.mod_add_mod, Nat.add_assoc, Nat.add_comm 1] at hrest
    exact hrest

/-- No executor has all tools. -/
theorem exists_undeclared (g : Gateway ν) : ∃ name, g.capable name = [] := by
  obtain ⟨name, hname⟩ := Infinite.exists_notMem_finset
    (g.pruneExecutors.executors.flatMap fun e => (g.tools.lookup e).getD []).toFinset
  rw [List.mem_toFinset, List.mem_flatMap] at hname
  refine ⟨name, List.filter_eq_nil_iff.2 fun e he hany => hname ⟨e, he, ?_⟩⟩
  obtain ⟨t, ht, heq⟩ := List.any_eq_true.1 hany
  rw [← of_decide_eq_true heq]
  exact ht

/-- Calls for a tool that no executor has take the index anywhere. -/
theorem exists_steering {r : ToolRequest} {g : Gateway ν} (hr : g.capable r.name = []) {i : ℕ}
    (hidx : g.execRrIdx < g.pruneExecutors.executors.length) (hi : i < g.pruneExecutors.executors.length) :
    ∃ k, (routeAll platform g (List.replicate (k + 1) r)).execRrIdx = i := by
  have hn := congrArg List.length (executorPool_of_not_capable hr)
  obtain ⟨k, hk⟩ : ∃ k, g.execRrIdx + (k + 1) = g.pruneExecutors.executors.length + i :=
    ⟨g.pruneExecutors.executors.length + i - g.execRrIdx - 1, by omega⟩
  refine ⟨k, ?_⟩
  rw [execRrIdx_routeAll_replicate platform hn (by omega), hk, Nat.add_mod_left, Nat.mod_eq_of_lt hi]

/-- Two calls for a tool that two executors have: in between, the index is taken back to where it was. -/
theorem exists_not_fair {g : Gateway ν} (hnodup : g.executors.Nodup) (h : 1 < (g.capable name).length) :
    ∃ rs, ¬Fair platform name g rs := by
  obtain ⟨other, hother⟩ := exists_undeclared g
  have hne : g.capable name ≠ [] := List.ne_nil_of_length_pos (by omega)
  have hpos : 0 < (g.capable name).length := by omega
  have hle : (g.capable name).length ≤ g.pruneExecutors.executors.length := List.length_filter_le _ _
  let r : ToolRequest := ⟨0, [], [], name, []⟩
  have hsame := sameExecutors_routeAll platform g [r]
  have hfirst : (routeAll platform g [r]).execRrIdx = (g.execRrIdx + 1) % (g.capable name).length :=
    execRrIdx_routeRequest platform r g (congrArg List.length (executorPool_of_capable hne)) hpos
  obtain ⟨k, hback⟩ := exists_steering platform (r := ⟨0, [], [], other, []⟩)
    (i := g.execRrIdx % (g.capable name).length) ((hsame.capable other).trans hother)
    (by rw [hsame.executors, hfirst]; exact (Nat.mod_lt _ hpos).trans_le hle)
    (by rw [hsame.executors]; exact (Nat.mod_lt _ hpos).trans_le hle)
  have hothers : ∀ r' ∈ List.replicate (k + 1) (⟨0, [], [], other, []⟩ : ToolRequest), r'.name ≠ name := by
    intro r' hr' heq
    rw [List.eq_of_mem_replicate hr'] at heq
    exact hne (heq ▸ hother)
  by_contra! hfair
  have hdistinct := (fair_prefixes_iff platform hnodup hne
    ([r] ++ (List.replicate (k + 1) ⟨0, [], [], other, []⟩ ++ [r]))).1 fun pre _ => hfair pre
  rw [indicesBefore_append, indicesBefore_append, indicesBefore_of_others platform hothers,
    indicesBefore_singleton, indicesBefore_singleton, if_pos rfl, if_pos rfl, List.nil_append,
    hback] at hdistinct
  refine hdistinct 0 1 (g.execRrIdx % (g.capable name).length) Nat.zero_lt_one ?_ rfl ?_
  · rw [Nat.zero_div, Nat.div_eq_of_lt h]
  · exact congrArg some (Nat.mod_mod _ _)

/-- All sequences of calls are fair to the executors of a tool exactly if there is at most one. -/
theorem forall_fair_iff {g : Gateway ν} (hnodup : g.executors.Nodup) (name : Str) :
    (∀ rs, Fair platform name g rs) ↔ (g.capable name).length ≤ 1 := by
  refine ⟨fun hfair => ?_, fun h rs => ?_⟩
  · by_contra! h
    obtain ⟨rs, hrs⟩ := exists_not_fair platform hnodup h
    exact hrs (hfair rs)
  · by_cases hne : g.capable name = []
    · intro e he
      rw [hne] at he
      cases he
    · have hone : (g.capable name).length = 1 := le_antisymm h (List.length_pos_iff.2 hne)
      refine (fair_prefixes_iff platform hnodup hne rs).2 (fun i j a hij hround => ?_) rs List.prefix_rfl
      rw [hone, Nat.div_one, Nat.div_one] at hround
      exact absurd hround (Nat.ne_of_lt hij)

/-- A call for a tool that an executor has goes to an executor that has it, at any time. -/
def GoesToCapable (g : Gateway ν) : Prop :=
  ∀ rs r, g.capable r.name ≠ [] → ∃ e ∈ g.capable r.name,
    (routeAll platform g rs).selectExecutor r.name = some e ∧
    ∀ args, platform.json.parse r.arguments = some args →
      (platform.json.dump (toolCallJson r.requestId r.callId r.name args)).isSome →
      (routeRequest platform r (routeAll platform g rs)).state.sent =
        (routeAll platform g rs).sent ++ [(e, toolCallJson r.requestId r.callId r.name args)]

theorem goesToCapable (g : Gateway ν) : GoesToCapable platform g := by
  intro rs r hne
  have hcapable := (sameExecutors_routeAll platform g rs).capable r.name
  obtain ⟨e, he, heq⟩ := exists_capable (routeAll platform g rs) (hcapable.trans_ne hne)
  exact ⟨e, hcapable ▸ he, heq, fun args hargs hdump => sent_routeRequest platform r _ heq hargs hdump⟩

end Interleaving

/-- Calls go to executors that have their tools, all sequences of calls are fair exactly if no two executors
have the same tool, and one sequence is fair all along to the executors of a tool exactly if in each round of
calls for it the index before the calls has distinct residues. -/
theorem rotation_fair_iff (platform : GatewayPlatform ν) {g : Gateway ν} (hnodup : g.executors.Nodup) :
    GoesToCapable platform g ∧
      ((∀ name rs, Fair platform name g rs) ↔ ∀ name, (g.capable name).length ≤ 1) ∧
      ∀ name rs, g.capable name ≠ [] →
        ((∀ pre, pre <+: rs → Fair platform name g pre) ↔
          DistinctInRounds (g.capable name).length
            ((indicesBefore platform name g rs).map (· % (g.capable name).length))) :=
  ⟨goesToCapable platform g, forall_congr' fun name => forall_fair_iff platform hnodup name,
    fun _ rs hne => fair_prefixes_iff platform hnodup hne rs⟩

/-! ## Two executors with one tool -/

open Watched (executorJson solveGateway connects tells)

/-- A platform with the library on the values of the run. -/
def rotationGateway : GatewayPlatform ℚ where
  toHost := solveGateway.toHost
  json := JsonLib.on Json.showRat [executorJson, .object []]
  evpSha256 := solveGateway.evpSha256

/-- Two connections register the tool `run`. -/
def twoExecutors : Gateway ℚ :=
  run rotationGateway (start rotationGateway none none {})
    [connects 1, connects 2, tells 0 executorJson, tells 1 executorJson]

/-- A call for a tool with the arguments `{}`. -/
def requestFor (name : String) : ToolRequest := ⟨0, str "r", str "c", str name, str "{}"⟩

theorem rotation_fair_iff_twoExecutors :
    twoExecutors.executors.Nodup ∧
      ((∀ name rs, Fair rotationGateway name twoExecutors rs) ↔
        ∀ name, (twoExecutors.capable name).length ≤ 1) :=
  have hnodup : twoExecutors.executors.Nodup := by decide +kernel
  ⟨hnodup, (rotation_fair_iff rotationGateway hnodup).2.1⟩

/-- Calls for the tool, and for another in between. -/
def interleaved : List ToolRequest :=
  [requestFor "run", requestFor "walk", requestFor "run", requestFor "walk", requestFor "run"]

/-- With calls for another tool in between, all calls for the tool go to the second executor. -/
theorem interleaved_not_fair :
    twoExecutors.capable (str "run") = [0, 1] ∧
      receivers rotationGateway (str "run") twoExecutors interleaved = [1, 1, 1] ∧
      ¬Fair rotationGateway (str "run") twoExecutors interleaved := by
  have hcapable : twoExecutors.capable (str "run") = [0, 1] := by decide +kernel
  have hreceivers : receivers rotationGateway (str "run") twoExecutors interleaved = [1, 1, 1] := by
    decide +kernel
  refine ⟨hcapable, hreceivers, fun h => ?_⟩
  have hfirst := h 0 (by rw [hcapable]; exact List.mem_cons_self)
  rw [hreceivers, hcapable] at hfirst
  exact absurd hfirst (by decide)


end Gateway

end LlmGateway
