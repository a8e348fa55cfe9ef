import LlmGateway.LoadBalancer

/-!
# The router

`Router` keeps a load balancer for each model, and the one of the group `*` for the models that have no
healthy node of their own.  A pointer to a node is the key of its group and its position there.

A model that has a healthy node of its own is served as if there were no other models
(`route_spec`).
-/

namespace LlmGateway

/-- A load balancer for each route. -/
structure Router where
  lbs : UMap LoadBalancer := ∅

namespace Router

/-- Add a node to the balancer of a route. -/
def registerNode (routeKey : Str) (node : BackendNode) (r : Router) : Router :=
  { lbs := r.lbs.insert routeKey (((r.lbs.lookup routeKey).getD {}).addNode node) }

/-- `lbs_.find(key)`, and `pick` in what it finds. -/
def pickIn (key : Str) (r : Router) : Option (Str × ℕ) × Router :=
  match r.lbs.lookup key with
  | none => (none, r)
  | some lb => (lb.pick.1.map fun i => (key, i), { lbs := r.lbs.insert key lb.pick.2 })

/-- Pick a node of the model, or else of `*`. -/
def route (model : Str) (r : Router) : Option (Str × ℕ) × Router :=
  match r.pickIn model with
  | (some n, r) => (some n, r)
  | (none, r) => r.pickIn (str "*")

/-- The router after nodes were registered under the keys of groups. -/
def registered (regs : List (Str × BackendNode)) : Router :=
  regs.foldl (fun r p => r.registerNode p.1 p.2) {}

/-- The results of a sequence of calls of `route`. -/
def routes : List Str → Router → List (Option (Str × ℕ))
  | [], _ => []
  | model :: models, r => (r.route model).1 :: routes models (r.route model).2

/-- The router after a sequence of calls of `route`. -/
def afterRoutes (models : List Str) (r : Router) : Router := models.foldl (fun r model => (r.route model).2) r

/-! ## The groups -/

/-- The load balancer of a group. -/
def group (r : Router) (key : Str) : LoadBalancer := (r.lbs.lookup key).getD {}

theorem group_insert (r : Router) (key : Str) (lb : LoadBalancer) (key' : Str) :
    group { lbs := r.lbs.insert key lb } key' = if key' = key then lb else r.group key' := by
  unfold group
  by_cases h : key' = key
  · rw [if_pos h, h, AList.lookup_insert, Option.getD_some]
  · rw [if_neg h, AList.lookup_insert_ne h]

theorem fst_pickIn (key : Str) (r : Router) :
    (r.pickIn key).1 = (r.group key).pick.1.map fun i => (key, i) := by
  unfold pickIn group
  cases r.lbs.lookup key with
  | none => rfl
  | some lb => rfl

theorem group_pickIn (key : Str) (r : Router) (key' : Str) :
    (r.pickIn key).2.group key' = if key' = key then (r.group key).pick.2 else r.group key' := by
  unfold pickIn
  cases hlb : r.lbs.lookup key with
  | none =>
    dsimp only
    by_cases h : key' = key
    · rw [if_pos h, h, group, hlb]
      rfl
    · rw [if_neg h]
  | some lb =>
    have hgroup : r.group key = lb := by rw [group, hlb, Option.getD_some]
    dsimp only
    rw [group_insert, hgroup]

theorem route_of_some {model : Str} {r : Router} {i : ℕ} (h : (r.group model).pick.1 = some i) :
    r.route model = (some (model, i), (r.pickIn model).2) := by
  have hfst := r.fst_pickIn model
  rw [h, Option.map_some] at hfst
  unfold route
  generalize r.pickIn model = result at hfst ⊢
  obtain ⟨n, r'⟩ := result
  subst hfst
  rfl

theorem route_of_none {model : Str} {r : Router} (h : (r.group model).pick.1 = none) :
    r.route model = (r.pickIn model).2.pickIn (str "*") := by
  have hfst := r.fst_pickIn model
  rw [h, Option.map_none] at hfst
  unfold route
  generalize r.pickIn model = result at hfst ⊢
  obtain ⟨n, r'⟩ := result
  subst hfst
  rfl

@[simp]
theorem nodes_pickIn (key : Str) (r : Router) (key' : Str) :
    ((r.pickIn key).2.group key').nodes = (r.group key').nodes := by
  rw [group_pickIn]
  split_ifs with h
  · rw [LoadBalancer.nodes_pick, h]
  · rfl

@[simp]
theorem nodes_route (model : Str) (r : Router) (key : Str) :
    ((r.route model).2.group key).nodes = (r.group key).nodes := by
  cases h : (r.group model).pick.1 with
  | some i => rw [route_of_some h, nodes_pickIn]
  | none => rw [route_of_none h, nodes_pickIn, nodes_pickIn]

/-- A call for one model leaves the groups of the others alone, except for `*`. -/
theorem group_route_of_ne {model key : Str} (hkey : key ≠ model) (hdefault : key ≠ str "*") (r : Router) :
    (r.route model).2.group key = r.group key := by
  cases h : (r.group model).pick.1 with
  | some i => rw [route_of_some h, group_pickIn, if_neg hkey]
  | none => rw [route_of_none h, group_pickIn, if_neg hdefault, group_pickIn, if_neg hkey]

/-! ## One call -/

/-- A group has a healthy node. -/
def HasHealthy (lb : LoadBalancer) : Prop := ∃ n ∈ lb.nodes, n.healthy = true

theorem exists_pick {lb : LoadBalancer} (h : HasHealthy lb) : ∃ i, lb.pick.1 = some i := by
  obtain ⟨n, hn, hhealthy⟩ := h
  refine Option.ne_none_iff_exists'.1 fun hnone => ?_
  rw [lb.pick_eq_none_iff.1 hnone n hn] at hhealthy
  cases hhealthy

theorem pick_eq_none {lb : LoadBalancer} (h : ¬HasHealthy lb) : lb.pick.1 = none := by
  refine lb.pick_eq_none_iff.2 fun n hn => ?_
  by_contra hhealthy
  exact h ⟨n, hn, by simpa using hhealthy⟩

theorem hasHealthy_congr {lb lb' : LoadBalancer} (h : lb.nodes = lb'.nodes) :
    HasHealthy lb ↔ HasHealthy lb' := by
  rw [HasHealthy, HasHealthy, h]

theorem route_eq_none_iff (model : Str) (r : Router) :
    (r.route model).1 = none ↔ ¬HasHealthy (r.group model) ∧ ¬HasHealthy (r.group (str "*")) := by
  by_cases h : HasHealthy (r.group model)
  · obtain ⟨i, hi⟩ := exists_pick h
    rw [route_of_some hi]
    exact iff_of_false (by simp) fun hnot => hnot.1 h
  · rw [route_of_none (pick_eq_none h), fst_pickIn, Option.map_eq_none_iff]
    have hcongr := hasHealthy_congr (r.nodes_pickIn model (str "*"))
    constructor
    · intro hnone
      refine ⟨h, fun hdefault => ?_⟩
      obtain ⟨i, hi⟩ := exists_pick (hcongr.2 hdefault)
      rw [hnone] at hi
      cases hi
    · exact fun hnot => pick_eq_none fun hdefault => hnot.2 (hcongr.1 hdefault)

theorem mem_of_route {model key : Str} {r : Router} {i : ℕ} (h : (r.route model).1 = some (key, i)) :
    (∃ n, (r.group key).nodes[i]? = some n ∧ n.healthy = true) ∧
      (key = model ∨ key = str "*" ∧ ¬HasHealthy (r.group model)) := by
  by_cases hhealthy : HasHealthy (r.group model)
  · obtain ⟨j, hj⟩ := exists_pick hhealthy
    rw [route_of_some hj] at h
    cases h
    exact ⟨LoadBalancer.healthy_of_pick hj, .inl rfl⟩
  · rw [route_of_none (pick_eq_none hhealthy), fst_pickIn] at h
    obtain ⟨j, hj, heq⟩ := Option.map_eq_some_iff.1 h
    cases heq
    have hpick := LoadBalancer.healthy_of_pick hj
    rw [nodes_pickIn] at hpick
    exact ⟨hpick, .inr ⟨rfl, hhealthy⟩⟩

/-! ## Sequences of calls -/

theorem nodes_afterRoutes (models : List Str) (r : Router) (key : Str) :
    ((r.afterRoutes models).group key).nodes = (r.group key).nodes := by
  induction models generalizing r with
  | nil => rfl
  | cons model models ih =>
      rw [afterRoutes, List.foldl_cons, ← afterRoutes, ih, nodes_route]

/-- What the calls for one of the models return. -/
def resultsFor (model : Str) (models : List Str) (r : Router) : List (Option (Str × ℕ)) :=
  ((models.zip (r.routes models)).filter fun p => p.1 = model).map Prod.snd

theorem resultsFor_cons_self (model : Str) (models : List Str) (r : Router) :
    r.resultsFor model (model :: models) =
      (r.route model).1 :: (r.route model).2.resultsFor model models := by
  simp [resultsFor, routes]

theorem resultsFor_cons_of_ne {model other : Str} (h : other ≠ model) (models : List Str) (r : Router) :
    r.resultsFor model (other :: models) = (r.route other).2.resultsFor model models := by
  simp [resultsFor, routes, h]

/-- The results for a model depend on its group alone. -/
theorem resultsFor_eq {model : Str} (hdefault : model ≠ str "*") (models : List Str) {r r' : Router}
    (hgroup : r.group model = r'.group model) (hhealthy : HasHealthy (r.group model)) :
    r.resultsFor model models = r'.routes (models.filter fun m => m = model) := by
  induction models generalizing r r' with
  | nil => rfl
  | cons other models ih =>
      by_cases h : other = model
      · subst h
        obtain ⟨i, hi⟩ := exists_pick hhealthy
        have hroute := route_of_some hi
        have hroute' := route_of_some (hgroup ▸ hi)
        have hnext := (hasHealthy_congr (r.nodes_route other other)).2 hhealthy
        have hafter : (r.route other).2.group other = (r'.route other).2.group other := by
          rw [hroute, hroute']
          dsimp only
          rw [group_pickIn, group_pickIn, if_pos rfl, if_pos rfl, hgroup]
        rw [resultsFor_cons_self, List.filter_cons_of_pos (by simp), routes, ih hafter hnext, hroute, hroute']
      · have hnext := group_route_of_ne (Ne.symm h) hdefault r
        rw [resultsFor_cons_of_ne h, List.filter_cons_of_neg (by simpa using h)]
        exact ih (hnext.trans hgroup) (hnext ▸ hhealthy)

/-! ## Registration -/

/-- The nodes that were registered for a group. -/
def nodesOf (regs : List (Str × BackendNode)) (key : Str) : List BackendNode :=
  (regs.filter fun p => p.1 = key).map Prod.snd

theorem nodes_registered (regs : List (Str × BackendNode)) (key : Str) :
    ((registered regs).group key).nodes = nodesOf regs key := by
  induction regs using List.reverseRecOn with
  | nil => rfl
  | append_singleton regs p ih =>
      have hregister : registered (regs ++ [p]) = (registered regs).registerNode p.1 p.2 := by
        rw [registered, List.foldl_append]
        rfl
      rw [hregister, registerNode, group_insert, nodesOf, List.filter_append, List.map_append, ← nodesOf,
        ← ih]
      by_cases h : key = p.1
      · rw [if_pos h, List.filter_cons_of_pos (by simpa using h.symm), h]
        rfl
      · rw [if_neg h, List.filter_cons_of_neg (by simpa using Ne.symm h)]
        exact (List.append_nil _).symm

/-- A node that was registered for a group is healthy. -/
def Served (regs : List (Str × BackendNode)) (key : Str) : Prop := ∃ n ∈ nodesOf regs key, n.healthy = true

/-- After any calls: `route` fails exactly if neither group has a healthy node; it returns a healthy node
of the group of the model, or of `*` if that has none; and the results for a model with a healthy node of
its own are those that it would get alone. -/
theorem route_spec (regs : List (Str × BackendNode)) (models : List Str) :
    (∀ model, (((registered regs).afterRoutes models).route model).1 = none ↔
      ¬Served regs model ∧ ¬Served regs (str "*")) ∧
    (∀ model key i, (((registered regs).afterRoutes models).route model).1 = some (key, i) →
      (∃ n, (nodesOf regs key)[i]? = some n ∧ n.healthy = true) ∧
      (key = model ∨ key = str "*" ∧ ¬Served regs model)) ∧
    ∀ model, model ≠ str "*" → Served regs model →
      (registered regs).resultsFor model models =
        (registered regs).routes (models.filter fun m => m = model) := by
  have hnodes (key : Str) :
      (((registered regs).afterRoutes models).group key).nodes = nodesOf regs key := by
    rw [nodes_afterRoutes, nodes_registered]
  have hserved (key : Str) :
      HasHealthy (((registered regs).afterRoutes models).group key) ↔ Served regs key := by
    rw [HasHealthy, hnodes, Served]
  refine ⟨fun model => ?_, fun model key i h => ?_, fun model hdefault h => ?_⟩
  · rw [route_eq_none_iff, hserved, hserved]
  · have hmem := mem_of_route h
    rwa [hnodes, hserved] at hmem
  · refine resultsFor_eq hdefault models rfl ?_
    rwa [HasHealthy, nodes_registered]

end Router

end LlmGateway
