import Mathlib.Algebra.BigOperators.Group.Finset.Basic
import LlmGateway.Base
import LlmGateway.Lib.SmoothRoundRobin

/-!
# The load balancer

`LoadBalancer` of a group of backends: `pick` chooses a healthy node by smooth weighted round robin.  The
current weights are kept under the names of the nodes, and a pointer to a node is its position.

The weights and the current weights of the source are of type `int`.  `pickWith` leaves open what becomes of a
sum: `pick` keeps its 32 bits (`int`), and `pickWith id` is the pick in exact arithmetic, which is the same as
long as no sum leaves the range of `int` (`pickWith_int_eq`).

`pick_spec`: if the names are pairwise distinct, an exact pick is one of the library.
-/

namespace LlmGateway

open SmoothRoundRobin

/-- A backend of the configuration. -/
structure BackendNode where
  name : Str := []
  url : Str := []
  apiKey : Str := []
  model : Str := []
  weight : Int32 := 1
  healthy : Bool := true
  deriving DecidableEq

/-- The value of the weight. -/
def BackendNode.weightInt (n : BackendNode) : ℤ := n.weight.toInt

/-- The nodes of a group with the state of their rotation. -/
structure LoadBalancer where
  nodes : List BackendNode := []
  /-- `cw_`, by the values of its entries. -/
  cw : UMap ℤ := ∅

namespace LoadBalancer

/-- What an `int` keeps of the result of a sum. -/
def int (x : ℤ) : ℤ := x.bmod (2 ^ 32)

/-- `add_node`. -/
def addNode (node : BackendNode) (lb : LoadBalancer) : LoadBalancer :=
  { lb with nodes := lb.nodes ++ [node] }

/-- `cw_[name]`. -/
def cwAt (cw : UMap ℤ) (name : Str) : ℤ := (cw.lookup name).getD 0

/-- The variables of `pick`; the best node with its position and its name. -/
structure Scan where
  total : ℤ := 0
  best : Option (ℕ × Str) := none
  cw : UMap ℤ

section Pick

variable (wrap : ℤ → ℤ)

/-- The body of the loop of `pick`. -/
def visit (s : Scan) (p : BackendNode × ℕ) : Scan :=
  if p.1.healthy then
    let cw := s.cw.insert p.1.name (wrap (cwAt s.cw p.1.name + p.1.weightInt))
    { total := wrap (s.total + p.1.weightInt)
      best :=
        match s.best with
        | none => some (p.2, p.1.name)
        | some best => if cwAt cw best.2 < cwAt cw p.1.name then some (p.2, p.1.name) else some best
      cw }
  else s

/-- The loop of `pick`. -/
def scan (nodes : List BackendNode) (cw : UMap ℤ) : Scan := nodes.zipIdx.foldl (visit wrap) { cw }

/-- `pick`, where `wrap` says what becomes of a sum. -/
def pickWith (lb : LoadBalancer) : Option ℕ × LoadBalancer :=
  let s := scan wrap lb.nodes lb.cw
  match s.best with
  | none => (none, { lb with cw := s.cw })
  | some best =>
      (some best.1, { lb with cw := s.cw.insert best.2 (wrap (cwAt s.cw best.2 - s.total)) })

/-- The load balancer after a number of picks. -/
def afterWith (lb : LoadBalancer) : ℕ → LoadBalancer
  | 0 => lb
  | t + 1 => ((lb.afterWith t).pickWith wrap).2

/-- The position that pick number `t` returns. -/
def pickedWith (lb : LoadBalancer) (t : ℕ) : Option ℕ := ((lb.afterWith wrap t).pickWith wrap).1

end Pick

/-- `pick`. -/
def pick (lb : LoadBalancer) : Option ℕ × LoadBalancer := lb.pickWith int

/-- The load balancer after a number of picks. -/
def after (lb : LoadBalancer) (t : ℕ) : LoadBalancer := lb.afterWith int t

/-- The position that pick number `t` returns. -/
def picked (lb : LoadBalancer) (t : ℕ) : Option ℕ := lb.pickedWith int t

/-- The loop of `mark_unhealthy` and `mark_healthy`. -/
def markNode (healthy : Bool) (name : Str) : List BackendNode → List BackendNode
  | [] => []
  | n :: ns => if n.name = name then { n with healthy } :: ns else n :: markNode healthy name ns

/-- `mark_unhealthy`. -/
def markUnhealthy (name : Str) (lb : LoadBalancer) : LoadBalancer :=
  { lb with nodes := markNode false name lb.nodes }

/-- `mark_healthy`. -/
def markHealthy (name : Str) (lb : LoadBalancer) : LoadBalancer :=
  { lb with nodes := markNode true name lb.nodes }

/-! ## The loop -/

section Loop

variable {wrap : ℤ → ℤ}

theorem cwAt_insert (cw : UMap ℤ) (name : Str) (v : ℤ) (name' : Str) :
    cwAt (cw.insert name v) name' = if name' = name then v else cwAt cw name' := by
  unfold cwAt
  by_cases h : name' = name
  · rw [if_pos h, h, AList.lookup_insert, Option.getD_some]
  · rw [if_neg h, AList.lookup_insert_ne h]

@[simp]
theorem scan_nil (cw : UMap ℤ) : scan wrap [] cw = { cw } := rfl

theorem scan_concat (nodes : List BackendNode) (n : BackendNode) (cw : UMap ℤ) :
    scan wrap (nodes ++ [n]) cw = visit wrap (scan wrap nodes cw) (n, nodes.length) := by
  rw [scan, List.zipIdx_append, List.foldl_append]
  simp [scan]

/-- The weights of the healthy nodes. -/
def healthyTotal (nodes : List BackendNode) : ℤ :=
  ((nodes.filter BackendNode.healthy).map BackendNode.weightInt).sum

/-- What the loop adds under a name. -/
def gain (nodes : List BackendNode) (name : Str) : ℤ :=
  ((nodes.filter fun n => n.healthy ∧ n.name = name).map BackendNode.weightInt).sum

theorem healthyTotal_concat (nodes : List BackendNode) (n : BackendNode) :
    healthyTotal (nodes ++ [n]) = healthyTotal nodes + if n.healthy then n.weightInt else 0 := by
  rw [healthyTotal, List.filter_append, List.map_append, List.sum_append, ← healthyTotal]
  by_cases hn : n.healthy
  · simp [hn]
  · simp [hn]

theorem gain_concat (nodes : List BackendNode) (n : BackendNode) (name : Str) :
    gain (nodes ++ [n]) name =
      gain nodes name + if n.healthy ∧ n.name = name then n.weightInt else 0 := by
  rw [gain, List.filter_append, List.map_append, List.sum_append, ← gain]
  by_cases hn : n.healthy ∧ n.name = name
  · simp [hn]
  · rw [if_neg hn, List.filter_singleton, decide_eq_false hn]
    simp

theorem total_scan (nodes : List BackendNode) (cw : UMap ℤ) :
    (scan id nodes cw).total = healthyTotal nodes := by
  induction nodes using List.reverseRecOn with
  | nil => rfl
  | append_singleton nodes n ih =>
      rw [scan_concat, visit, healthyTotal_concat]
      by_cases hn : n.healthy
      · rw [if_pos hn, if_pos hn, ← ih]
        rfl
      · rw [if_neg hn, if_neg hn, ih, add_zero]

theorem cwAt_scan (nodes : List BackendNode) (cw : UMap ℤ) (name : Str) :
    cwAt (scan id nodes cw).cw name = cwAt cw name + gain nodes name := by
  induction nodes using List.reverseRecOn with
  | nil => simp [gain]
  | append_singleton nodes n ih =>
      rw [scan_concat, visit, gain_concat]
      by_cases hn : n.healthy
      · rw [if_pos hn]
        dsimp only
        rw [cwAt_insert]
        by_cases hname : name = n.name
        · rw [if_pos hname, if_pos ⟨hn, hname.symm⟩, ← hname, ih, add_assoc, id]
        · rw [if_neg hname, if_neg fun h => hname h.2.symm, ih, add_zero]
      · rw [if_neg hn, if_neg fun h => hn h.1, ih, add_zero]

theorem healthy_of_best_none {nodes : List BackendNode} {cw : UMap ℤ}
    (h : (scan wrap nodes cw).best = none) : ∀ n ∈ nodes, n.healthy = false := by
  induction nodes using List.reverseRecOn with
  | nil => simp
  | append_singleton nodes n ih =>
      rw [scan_concat, visit] at h
      split_ifs at h with hn
      · dsimp only at h
        split at h
        · cases h
        · split_ifs at h
      · intro m hm
        rcases List.mem_append.1 hm with hm | hm
        · exact ih h m hm
        · rw [List.mem_singleton.1 hm]
          exact Bool.eq_false_iff.2 hn

/-- The best node is a healthy one of the group. -/
theorem best_scan {nodes : List BackendNode} {cw : UMap ℤ} {best : ℕ × Str}
    (h : (scan wrap nodes cw).best = some best) :
    ∃ n, nodes[best.1]? = some n ∧ n.healthy = true ∧ n.name = best.2 := by
  induction nodes using List.reverseRecOn generalizing best with
  | nil => cases h
  | append_singleton nodes n ih =>
      have hold {best : ℕ × Str} (h : (scan wrap nodes cw).best = some best) :
          ∃ m, (nodes ++ [n])[best.1]? = some m ∧ m.healthy = true ∧ m.name = best.2 := by
        obtain ⟨m, hm, hrest⟩ := ih h
        refine ⟨m, ?_, hrest⟩
        rw [List.getElem?_append_left (List.getElem?_eq_some_iff.1 hm).1, hm]
      have hnew (hn : n.healthy = true) (h : some (nodes.length, n.name) = some best) :
          ∃ m, (nodes ++ [n])[best.1]? = some m ∧ m.healthy = true ∧ m.name = best.2 := by
        cases h
        exact ⟨n, List.getElem?_concat_length, hn, rfl⟩
      rw [scan_concat, visit] at h
      split_ifs at h with hn
      · dsimp only at h
        cases hbest : (scan wrap nodes cw).best with
        | none =>
          rw [hbest] at h
          exact hnew hn h
        | some best' =>
          rw [hbest] at h
          dsimp only at h
          split_ifs at h
          · exact hnew hn h
          · cases h
            exact hold hbest
      · exact hold h

/-- A healthy node and the best one before it are no better than the best one with it. -/
theorem le_best_concat {nodes : List BackendNode} {n : BackendNode} {cw : UMap ℤ} {best best' : ℕ × Str}
    (hn : n.healthy = true) (hbest : (scan wrap nodes cw).best = some best')
    (h : (scan wrap (nodes ++ [n]) cw).best = some best) :
    cwAt (scan wrap (nodes ++ [n]) cw).cw n.name ≤ cwAt (scan wrap (nodes ++ [n]) cw).cw best.2 ∧
      cwAt (scan wrap (nodes ++ [n]) cw).cw best'.2 ≤ cwAt (scan wrap (nodes ++ [n]) cw).cw best.2 := by
  rw [scan_concat, visit, if_pos hn, hbest] at h
  rw [scan_concat, visit, if_pos hn, hbest]
  dsimp only at h ⊢
  split_ifs at h with hlt
  · cases h
    exact ⟨le_rfl, hlt.le⟩
  · cases h
    exact ⟨not_lt.1 hlt, le_rfl⟩

/-- No healthy node has a larger current weight than the best one, as long as no node takes from what is kept
under the name of an earlier one. -/
theorem le_best {nodes : List BackendNode} {cw : UMap ℤ} {best : ℕ × Str}
    (hkept : ∀ pre n post, nodes = pre ++ n :: post → 0 ≤ n.weightInt ∨ ∀ m ∈ pre, m.name ≠ n.name)
    (h : (scan id nodes cw).best = some best) :
    ∀ n ∈ nodes, n.healthy = true →
      cwAt (scan id nodes cw).cw n.name ≤ cwAt (scan id nodes cw).cw best.2 := by
  induction nodes using List.reverseRecOn generalizing best with
  | nil => cases h
  | append_singleton nodes n ih =>
      have hprefix : ∀ pre m post, nodes = pre ++ m :: post → 0 ≤ m.weightInt ∨ ∀ m' ∈ pre, m'.name ≠ m.name :=
        fun pre m post hnodes => hkept pre m (post ++ [n]) (by rw [hnodes, List.append_assoc]; rfl)
      intro m hm hhealthy
      by_cases hn : n.healthy = true
      · have hcw (name : Str) : cwAt (scan id (nodes ++ [n]) cw).cw name =
            if name = n.name then cwAt (scan id nodes cw).cw n.name + n.weightInt
            else cwAt (scan id nodes cw).cw name := by
          rw [scan_concat, visit, if_pos hn]
          exact cwAt_insert ..
        cases hbest : (scan id nodes cw).best with
        | none =>
          rw [scan_concat, visit, if_pos hn, hbest] at h
          cases h
          rcases List.mem_append.1 hm with hm | hm
          · exact absurd hhealthy (Bool.eq_false_iff.1 (healthy_of_best_none hbest m hm))
          · rw [List.mem_singleton.1 hm]
        | some best' =>
          obtain ⟨hnew, hold⟩ := le_best_concat hn hbest h
          by_cases hname : m.name = n.name
          · rw [hname]
            exact hnew
          · have hm : m ∈ nodes := by
              rcases List.mem_append.1 hm with hm | hm
              · exact hm
              · exact absurd (congrArg BackendNode.name (List.mem_singleton.1 hm)) hname
            refine le_trans ?_ hold
            rw [hcw, hcw, if_neg hname]
            refine (ih hprefix hbest m hm hhealthy).trans ?_
            split_ifs with hsame
            · -- the best one so far has the name of the new node, which then only adds to it
              obtain ⟨b, hb, -, hbname⟩ := best_scan hbest
              rcases hkept nodes n [] rfl with hweight | hfresh
              · rw [hsame]
                linarith
              · exact absurd (hbname.trans hsame) (hfresh b (List.mem_of_getElem? hb))
            · exact le_rfl
      · rw [scan_concat, visit, if_neg hn] at h ⊢
        rcases List.mem_append.1 hm with hm | hm
        · exact ih hprefix h m hm hhealthy
        · rw [List.mem_singleton.1 hm] at hhealthy
          exact absurd hhealthy hn

/-! ## Distinct names -/

/-- The weight under a name. -/
def weightOf (nodes : List BackendNode) (name : Str) : ℤ :=
  ((nodes.filter fun n => n.name = name).map BackendNode.weightInt).sum

/-- The names of some nodes. -/
def names (nodes : List BackendNode) : Finset Str := (nodes.map BackendNode.name).toFinset

/-- The names of the healthy ones. -/
def healthyNames (nodes : List BackendNode) : Finset Str := names (nodes.filter BackendNode.healthy)

theorem mem_names {nodes : List BackendNode} {name : Str} :
    name ∈ names nodes ↔ ∃ n ∈ nodes, n.name = name := by
  rw [names, List.mem_toFinset, List.mem_map]

theorem mem_healthyNames {nodes : List BackendNode} {name : Str} :
    name ∈ healthyNames nodes ↔ ∃ n ∈ nodes, n.healthy = true ∧ n.name = name := by
  simp only [healthyNames, mem_names, List.mem_filter, and_assoc]

theorem healthyNames_subset (nodes : List BackendNode) : healthyNames nodes ⊆ names nodes := by
  intro name h
  obtain ⟨n, hn, -, hname⟩ := mem_healthyNames.1 h
  exact mem_names.2 ⟨n, hn, hname⟩

section Distinct

variable {nodes : List BackendNode} (hnames : (nodes.map BackendNode.name).Nodup)

include hnames

theorem eq_of_name_eq {n m : BackendNode} (hn : n ∈ nodes) (hm : m ∈ nodes) (h : n.name = m.name) :
    n = m :=
  List.inj_on_of_nodup_map hnames hn hm h

theorem filter_name_eq {n : BackendNode} (hn : n ∈ nodes) :
    (nodes.filter fun m => m.name = n.name) = [n] := by
  have hnodup : (nodes.filter fun m => m.name = n.name).Nodup := hnames.of_map.filter _
  refine List.perm_singleton.1 ((List.perm_ext_iff_of_nodup hnodup (List.nodup_singleton n)).2 ?_)
  intro m
  simp only [List.mem_filter, decide_eq_true_eq, List.mem_singleton]
  constructor
  · exact fun h => eq_of_name_eq hnames h.1 hn h.2
  · rintro rfl
    exact ⟨hn, rfl⟩

theorem weightOf_name {n : BackendNode} (hn : n ∈ nodes) : weightOf nodes n.name = n.weightInt := by
  rw [weightOf, filter_name_eq hnames hn]
  simp

/-- The loop adds the weights of the healthy nodes. -/
theorem gain_eq (name : Str) :
    gain nodes name = if name ∈ healthyNames nodes then weightOf nodes name else 0 := by
  by_cases h : name ∈ healthyNames nodes
  · obtain ⟨n, hn, hhealthy, rfl⟩ := mem_healthyNames.1 h
    have hfilter : (nodes.filter fun m => m.healthy ∧ m.name = n.name) = [n] := by
      simp only [Bool.decide_and, ← List.filter_filter, filter_name_eq hnames hn]
      simp [hhealthy]
    rw [if_pos h, weightOf_name hnames hn, gain, hfilter]
    simp
  · have hfilter : (nodes.filter fun m => m.healthy ∧ m.name = name) = [] := by
      refine List.filter_eq_nil_iff.2 fun n hn hname => h ?_
      exact mem_healthyNames.2 ⟨n, hn, by simpa using hname⟩
    rw [if_neg h, gain, hfilter]
    rfl

theorem sum_weightOf_healthy : ∑ name ∈ healthyNames nodes, weightOf nodes name = healthyTotal nodes := by
  have hnodup : ((nodes.filter BackendNode.healthy).map BackendNode.name).Nodup :=
    hnames.sublist (List.filter_sublist.map _)
  rw [healthyNames, names, List.sum_toFinset _ hnodup, List.map_map, healthyTotal]
  refine congrArg List.sum (List.map_congr_left fun n hn => ?_)
  exact weightOf_name hnames (List.mem_filter.1 hn).1

theorem sum_weightOf : ∑ name ∈ names nodes, weightOf nodes name = (nodes.map BackendNode.weightInt).sum := by
  rw [names, List.sum_toFinset _ hnames, List.map_map]
  exact congrArg List.sum (List.map_congr_left fun n hn => weightOf_name hnames hn)

theorem le_best_of_nodup {cw : UMap ℤ} {best : ℕ × Str} (h : (scan id nodes cw).best = some best) :
    ∀ n ∈ nodes, n.healthy = true →
      cwAt (scan id nodes cw).cw n.name ≤ cwAt (scan id nodes cw).cw best.2 := by
  refine le_best (fun pre n post hnodes => Or.inr fun m hm hname => ?_) h
  rw [hnodes, List.map_append, List.nodup_append] at hnames
  exact hnames.2.2 _ (List.mem_map_of_mem hm) _ (List.mem_map_of_mem List.mem_cons_self) hname

end Distinct

/-! ## A pick -/

@[simp]
theorem nodes_pickWith (lb : LoadBalancer) : (lb.pickWith wrap).2.nodes = lb.nodes := by
  unfold pickWith
  dsimp only
  split
  · rfl
  · rfl

/-- Nothing is picked exactly if no node is healthy. -/
theorem pickWith_eq_none_iff (lb : LoadBalancer) :
    (lb.pickWith wrap).1 = none ↔ ∀ n ∈ lb.nodes, n.healthy = false := by
  unfold pickWith
  dsimp only
  cases hbest : (scan wrap lb.nodes lb.cw).best with
  | none => exact iff_of_true rfl (healthy_of_best_none hbest)
  | some best =>
    refine iff_of_false (by simp) fun h => ?_
    obtain ⟨n, hn, hhealthy, -⟩ := best_scan hbest
    rw [h n (List.mem_of_getElem? hn)] at hhealthy
    cases hhealthy

/-- What is picked is a healthy node. -/
theorem healthy_of_pickWith {lb : LoadBalancer} {i : ℕ} (h : (lb.pickWith wrap).1 = some i) :
    ∃ n, lb.nodes[i]? = some n ∧ n.healthy = true := by
  unfold pickWith at h
  dsimp only at h
  cases hbest : (scan wrap lb.nodes lb.cw).best with
  | none =>
    rw [hbest] at h
    cases h
  | some best =>
    rw [hbest] at h
    obtain rfl : best.1 = i := Option.some.inj h
    obtain ⟨n, hn, hhealthy, -⟩ := best_scan hbest
    exact ⟨n, hn, hhealthy⟩

@[simp]
theorem nodes_pick (lb : LoadBalancer) : lb.pick.2.nodes = lb.nodes := lb.nodes_pickWith

theorem pick_eq_none_iff (lb : LoadBalancer) : lb.pick.1 = none ↔ ∀ n ∈ lb.nodes, n.healthy = false :=
  lb.pickWith_eq_none_iff

theorem healthy_of_pick {lb : LoadBalancer} {i : ℕ} (h : lb.pick.1 = some i) :
    ∃ n, lb.nodes[i]? = some n ∧ n.healthy = true :=
  healthy_of_pickWith h

/-- Without a healthy node the current weights stay as they are. -/
theorem cwAt_pick_of_none {lb : LoadBalancer} (h : ∀ n ∈ lb.nodes, n.healthy = false) (name : Str) :
    cwAt (lb.pickWith id).2.cw name = cwAt lb.cw name := by
  have hbest : (scan id lb.nodes lb.cw).best = none := by
    have hnone : (lb.pickWith id).1 = none := lb.pickWith_eq_none_iff.2 h
    unfold pickWith at hnone
    dsimp only at hnone
    split at hnone
    · next hbest => exact hbest
    · cases hnone
  have hgain : gain lb.nodes name = 0 := by
    have hfilter : (lb.nodes.filter fun n => n.healthy ∧ n.name = name) = [] :=
      List.filter_eq_nil_iff.2 fun n hn => by simp [h n hn]
    rw [gain, hfilter]
    rfl
  rw [pickWith, hbest]
  dsimp only
  rw [cwAt_scan, hgain, add_zero]

/-- With a healthy node, the best one is picked, and the total is taken from what is kept under its name. -/
theorem pick_best {lb : LoadBalancer} (hhealthy : ∃ n ∈ lb.nodes, n.healthy = true) :
    ∃ i n, (lb.pickWith id).1 = some i ∧ lb.nodes[i]? = some n ∧ n.healthy = true ∧
      (scan id lb.nodes lb.cw).best = some (i, n.name) ∧
      ∀ name, cwAt (lb.pickWith id).2.cw name =
        cwAt lb.cw name + gain lb.nodes name - if name = n.name then healthyTotal lb.nodes else 0 := by
  cases hbest : (scan id lb.nodes lb.cw).best with
  | none =>
    obtain ⟨n, hn, hhealthy⟩ := hhealthy
    rw [healthy_of_best_none hbest n hn] at hhealthy
    cases hhealthy
  | some best =>
    obtain ⟨n, hn, hup, hname⟩ := best_scan hbest
    have hpick : lb.pickWith id = (some best.1, { lb with
        cw := (scan id lb.nodes lb.cw).cw.insert best.2
          (cwAt (scan id lb.nodes lb.cw).cw best.2 - (scan id lb.nodes lb.cw).total) }) := by
      unfold pickWith
      dsimp only
      rw [hbest]
      rfl
    refine ⟨best.1, n, by rw [hpick], hn, hup, by rw [hname], fun name => ?_⟩
    rw [hpick, ← hname, ← total_scan lb.nodes lb.cw]
    dsimp only
    rw [cwAt_insert]
    by_cases heq : name = n.name
    · rw [if_pos heq, if_pos heq, heq, cwAt_scan]
    · rw [if_neg heq, if_neg heq, cwAt_scan, sub_zero]

/-- With distinct names and a healthy node, a pick is a pick of the group of names. -/
theorem pick_spec {lb : LoadBalancer} (hnames : (lb.nodes.map BackendNode.name).Nodup)
    (hhealthy : ∃ n ∈ lb.nodes, n.healthy = true) :
    ∃ i n, (lb.pickWith id).1 = some i ∧ lb.nodes[i]? = some n ∧
      Pick (weightOf lb.nodes) (healthyNames lb.nodes) n.name (cwAt lb.cw) (cwAt (lb.pickWith id).2.cw) := by
  obtain ⟨i, n, hpick, hn, hup, hbest, hcw⟩ := pick_best hhealthy
  have hmem : n.name ∈ healthyNames lb.nodes :=
    mem_healthyNames.2 ⟨n, List.mem_of_getElem? hn, hup, rfl⟩
  refine ⟨i, n, hpick, hn, hmem, fun name hname => ?_, fun name => ?_⟩
  · obtain ⟨m, hm, hmhealthy, rfl⟩ := mem_healthyNames.1 hname
    have hle := le_best_of_nodup hnames hbest m hm hmhealthy
    rw [cwAt_scan, cwAt_scan, gain_eq hnames, gain_eq hnames, if_pos hname, if_pos hmem] at hle
    exact hle
  · rw [hcw, gain_eq hnames, sum_weightOf_healthy hnames]

end Loop

/-! ## Sums in the range of `int` -/

theorem int_eq {v : ℤ} (h : -(2 ^ 31 - 1) ≤ v ∧ v ≤ 2 ^ 31 - 1) : int v = v :=
  Int.bmod_eq_of_le (by norm_num at *; omega) (by norm_num at *; omega)

theorem visit_int_eq {s : Scan} {p : BackendNode × ℕ}
    (htotal : -(2 ^ 31 - 1) ≤ (visit id s p).total ∧ (visit id s p).total ≤ 2 ^ 31 - 1)
    (hcw : ∀ name v, (visit id s p).cw.lookup name = some v → -(2 ^ 31 - 1) ≤ v ∧ v ≤ 2 ^ 31 - 1) :
    visit int s p = visit id s p := by
  unfold visit at htotal hcw ⊢
  split_ifs at htotal hcw ⊢ with hn
  · simp only [id_eq] at htotal hcw ⊢
    rw [int_eq htotal, int_eq (hcw p.1.name _ (AList.lookup_insert _))]
  · rfl

/-- A loop whose exact values stay in range computes these. -/
theorem scan_int_eq {nodes : List BackendNode} {cw : UMap ℤ}
    (h : ∀ k ≤ nodes.length,
      (-(2 ^ 31 - 1) ≤ (scan id (nodes.take k) cw).total ∧
        (scan id (nodes.take k) cw).total ≤ 2 ^ 31 - 1) ∧
      ∀ name v, (scan id (nodes.take k) cw).cw.lookup name = some v →
        -(2 ^ 31 - 1) ≤ v ∧ v ≤ 2 ^ 31 - 1) :
    scan int nodes cw = scan id nodes cw := by
  induction nodes using List.reverseRecOn with
  | nil => rfl
  | append_singleton nodes n ih =>
      have hall := h (nodes ++ [n]).length le_rfl
      rw [List.take_length, scan_concat] at hall
      rw [scan_concat, scan_concat, ih fun k hk => ?_]
      · exact visit_int_eq hall.1 hall.2
      · have hshort := h k (by rw [List.length_append]; omega)
        rw [List.take_append_of_le_length hk] at hshort
        exact hshort

/-- So does a pick. -/
theorem pickWith_int_eq {lb : LoadBalancer}
    (hscan : ∀ k ≤ lb.nodes.length,
      (-(2 ^ 31 - 1) ≤ (scan id (lb.nodes.take k) lb.cw).total ∧
        (scan id (lb.nodes.take k) lb.cw).total ≤ 2 ^ 31 - 1) ∧
      ∀ name v, (scan id (lb.nodes.take k) lb.cw).cw.lookup name = some v →
        -(2 ^ 31 - 1) ≤ v ∧ v ≤ 2 ^ 31 - 1)
    (hcw : ∀ name v, (lb.pickWith id).2.cw.lookup name = some v → -(2 ^ 31 - 1) ≤ v ∧ v ≤ 2 ^ 31 - 1) :
    lb.pickWith int = lb.pickWith id := by
  unfold pickWith at hcw ⊢
  dsimp only at hcw ⊢
  rw [scan_int_eq hscan]
  cases hbest : (scan id lb.nodes lb.cw).best with
  | none => rfl
  | some best =>
    rw [hbest] at hcw
    simp only [id_eq] at hcw ⊢
    rw [int_eq (hcw best.2 _ (AList.lookup_insert _))]

end LoadBalancer

end LlmGateway
