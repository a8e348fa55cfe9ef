import Mathlib.Algebra.Order.Field.Rat
import Mathlib.Data.Nat.Periodic
import Mathlib.Tactic.FieldSimp
import LlmGateway.LoadBalancer

/-!
# Runs of the load balancer

While all nodes are healthy, the picks of a load balancer in exact arithmetic are a rotation of the library
(`exists_rotation`): in each block of as many picks as the weights add up to, every node is picked as often
as its weight says (`exact_rotation`).

Nodes may also be added, and be marked unhealthy and healthy, between the picks.  Then the exact current
weights stay within bounds, also in the middle of a pick (`current_weights_bounded`).  So if the number of
nodes times their total weight is an `int`, no sum overflows, and the picks of the source are the rotation
(`rotation_of_distinct_names`).  Otherwise they may not be (`heavy_rotation`).
-/

namespace LlmGateway

open SmoothRoundRobin

namespace LoadBalancer

/-! ## All nodes are healthy -/

section Congr

variable (wrap : ℤ → ℤ)

theorem after_add (lb : LoadBalancer) (s t : ℕ) :
    lb.afterWith wrap (s + t) = (lb.afterWith wrap s).afterWith wrap t := by
  induction t with
  | zero => rfl
  | succ t ih => rw [← Nat.add_assoc, afterWith, ih, afterWith]

@[simp]
theorem nodes_after (lb : LoadBalancer) (t : ℕ) : (lb.afterWith wrap t).nodes = lb.nodes := by
  induction t with
  | zero => rfl
  | succ t ih => rw [afterWith, nodes_pickWith, ih]

/-- Of the current weights, the loop sees only what stands under the names. -/
theorem scan_congr (nodes : List BackendNode) {cw cw' : UMap ℤ}
    (h : ∀ name, cwAt cw name = cwAt cw' name) :
    (scan wrap nodes cw).total = (scan wrap nodes cw').total ∧
    (scan wrap nodes cw).best = (scan wrap nodes cw').best ∧
    ∀ name, cwAt (scan wrap nodes cw).cw name = cwAt (scan wrap nodes cw').cw name := by
  induction nodes using List.reverseRecOn with
  | nil => exact ⟨rfl, rfl, h⟩
  | append_singleton nodes n ih =>
      obtain ⟨htotal, hbest, hcw⟩ := ih
      rw [scan_concat, scan_concat]
      unfold visit
      split_ifs with hn
      · refine ⟨by rw [htotal], ?_, fun name => ?_⟩
        · simp only [hbest, cwAt_insert, hcw]
        · simp only [cwAt_insert, hcw]
      · exact ⟨htotal, hbest, hcw⟩

theorem pick_congr {lb lb' : LoadBalancer} (hnodes : lb.nodes = lb'.nodes)
    (h : ∀ name, cwAt lb.cw name = cwAt lb'.cw name) :
    (lb.pickWith wrap).1 = (lb'.pickWith wrap).1 ∧
      ∀ name, cwAt (lb.pickWith wrap).2.cw name = cwAt (lb'.pickWith wrap).2.cw name := by
  obtain ⟨htotal, hbest, hcw⟩ := scan_congr wrap lb.nodes h
  unfold pickWith
  dsimp only
  rw [← hnodes, ← hbest]
  cases (scan wrap lb.nodes lb.cw).best with
  | none => exact ⟨rfl, hcw⟩
  | some best =>
    refine ⟨rfl, fun name => ?_⟩
    dsimp only
    rw [cwAt_insert, cwAt_insert, hcw, hcw, htotal]

theorem after_congr {lb lb' : LoadBalancer} (hnodes : lb.nodes = lb'.nodes)
    (h : ∀ name, cwAt lb.cw name = cwAt lb'.cw name) (t : ℕ) :
    ∀ name, cwAt (lb.afterWith wrap t).cw name = cwAt (lb'.afterWith wrap t).cw name := by
  induction t with
  | zero => exact h
  | succ t ih => exact (pick_congr wrap (by rw [nodes_after, nodes_after, hnodes]) ih).2

theorem picked_congr {lb lb' : LoadBalancer} (hnodes : lb.nodes = lb'.nodes)
    (h : ∀ name, cwAt lb.cw name = cwAt lb'.cw name) (t : ℕ) :
    lb.pickedWith wrap t = lb'.pickedWith wrap t :=
  (pick_congr wrap (by rw [nodes_after, nodes_after, hnodes]) (after_congr wrap hnodes h t)).1

/-- How often the node at position `i` is picked by the picks from number `start` on, up to `stop`. -/
def timesPickedWith (lb : LoadBalancer) (i start stop : ℕ) : ℕ :=
  ((Finset.Ico start stop).filter fun t => lb.pickedWith wrap t = some i).card

end Congr

/-- How often `pick` returns the node at position `i`. -/
def timesPicked (lb : LoadBalancer) (i start stop : ℕ) : ℕ := lb.timesPickedWith int i start stop

theorem eq_of_getElem?_name {nodes : List BackendNode} (hnames : (nodes.map BackendNode.name).Nodup)
    {i j : ℕ} {n m : BackendNode} (hn : nodes[i]? = some n) (hm : nodes[j]? = some m)
    (h : n.name = m.name) : i = j := by
  have hi : i < (nodes.map BackendNode.name).length := by
    rw [List.length_map]
    exact (List.getElem?_eq_some_iff.1 hn).1
  refine (List.getElem?_inj hi hnames).1 ?_
  rw [List.getElem?_map, List.getElem?_map, hn, hm, Option.map_some, Option.map_some, h]

section Rotation

variable {lb : LoadBalancer} (hcw : lb.cw = ∅) (hnames : (lb.nodes.map BackendNode.name).Nodup)
  (hhealthy : ∀ n ∈ lb.nodes, n.healthy = true) (hweights : ∀ n ∈ lb.nodes, 0 ≤ n.weightInt) {W : ℕ}
  (hW : (lb.nodes.map BackendNode.weightInt).sum = W) (hpos : 1 ≤ W)

include hnames hhealthy hW hpos in
/-- Each pick is a pick among all names. -/
theorem pick_all (t : ℕ) : ∃ i n, lb.pickedWith id t = some i ∧ lb.nodes[i]? = some n ∧
    Pick (weightOf lb.nodes) (names lb.nodes) n.name (cwAt (lb.afterWith id t).cw)
      (cwAt (lb.afterWith id (t + 1)).cw) := by
  have hne : ∃ n ∈ lb.nodes, n.healthy = true := by
    obtain ⟨n, hn⟩ : ∃ n, n ∈ lb.nodes := by
      refine List.exists_mem_of_ne_nil _ fun hnil => ?_
      rw [hnil, List.map_nil, List.sum_nil] at hW
      omega
    exact ⟨n, hn, hhealthy n hn⟩
  have hall : healthyNames lb.nodes = names lb.nodes := by
    rw [healthyNames, List.filter_eq_self.2 hhealthy]
  have hnodes := nodes_after id lb t
  have hspec := pick_spec (hnodes ▸ hnames) (hnodes ▸ hne)
  rw [hnodes, hall] at hspec
  exact hspec

include hcw hnames hhealthy hweights hW hpos in
theorem exists_rotation : ∃ b : ℕ → Str,
    Rotation (weightOf lb.nodes) (names lb.nodes) b (fun t => cwAt (lb.afterWith id t).cw) ∧
    ∀ t i n, lb.nodes[i]? = some n → (lb.pickedWith id t = some i ↔ b t = n.name) := by
  choose i n hpicked hn hpick using pick_all hnames hhealthy hW hpos
  refine ⟨fun t => (n t).name, ⟨fun name hname => ?_, ?_, fun name _ => ?_, hpick⟩, fun t j m hm => ?_⟩
  · obtain ⟨m, hm, rfl⟩ := mem_names.1 hname
    rw [weightOf_name hnames hm]
    exact hweights m hm
  · rw [sum_weightOf hnames, hW]
    exact_mod_cast hpos
  · rw [afterWith, hcw]
    rfl
  · rw [hpicked]
    constructor
    · intro h
      rw [← Option.some.inj h, hn] at hm
      exact congrArg BackendNode.name (Option.some.inj hm)
    · intro h
      rw [eq_of_getElem?_name hnames (hn t) hm h]

include hcw hnames hhealthy hweights hW hpos in
/-- After a block nothing is left of the current weights, also under other names. -/
theorem cwAt_period (name : Str) : cwAt (lb.afterWith id W).cw name = 0 := by
  obtain ⟨b, hrot, -⟩ := exists_rotation hcw hnames hhealthy hweights hW hpos
  by_cases hname : name ∈ names lb.nodes
  · exact hrot.current_period (hW.symm.trans (sum_weightOf hnames).symm) hname
  · have hzero (t : ℕ) : cwAt (lb.afterWith id t).cw name = 0 := by
      induction t with
      | zero =>
          rw [afterWith, hcw]
          rfl
      | succ t ih =>
          have hne : name ≠ b t := fun h => hname (h ▸ (hrot.pick t).mem)
          rw [(hrot.pick t).apply, if_neg hname, if_neg hne, ih]
          rfl
    exact hzero W

include hcw hnames hhealthy hweights hW hpos in
theorem cwAt_after_mul (k : ℕ) (name : Str) : cwAt (lb.afterWith id (k * W)).cw name = 0 := by
  induction k generalizing name with
  | zero =>
      rw [Nat.zero_mul, afterWith, hcw]
      rfl
  | succ k ih =>
      have hstart (name : Str) : cwAt (lb.afterWith id (k * W)).cw name = cwAt lb.cw name := by
        rw [ih, hcw]
        rfl
      rw [Nat.succ_mul, after_add, after_congr id (nodes_after id lb _) hstart W name]
      exact cwAt_period hcw hnames hhealthy hweights hW hpos name

include hcw hnames hhealthy hweights hW hpos in
theorem periodic_picked (i : ℕ) : Function.Periodic (fun t => lb.pickedWith id t = some i) W := by
  intro t
  have hstart (name : Str) : cwAt (lb.afterWith id W).cw name = cwAt lb.cw name := by
    rw [cwAt_period hcw hnames hhealthy hweights hW hpos, hcw]
    rfl
  dsimp only
  rw [Nat.add_comm, pickedWith, after_add, ← pickedWith, picked_congr id (nodes_after id lb W) hstart]

end Rotation

/-- In exact arithmetic the node at a position is picked as often as its weight says, in every block of `W`
picks; then all current weights are zero again, and at no time is it ahead of its share by one pick or more. -/
theorem exact_rotation (lb : LoadBalancer) (hcw : lb.cw = ∅)
    (hnames : (lb.nodes.map BackendNode.name).Nodup) (hhealthy : ∀ n ∈ lb.nodes, n.healthy = true)
    (hweights : ∀ n ∈ lb.nodes, 0 ≤ n.weightInt) (W : ℕ)
    (hW : (lb.nodes.map BackendNode.weightInt).sum = W) (hpos : 1 ≤ W) :
    (∀ i n, lb.nodes[i]? = some n → ∀ start, (lb.timesPickedWith id i start (start + W) : ℤ) = n.weightInt) ∧
    (∀ k name, cwAt (lb.afterWith id (k * W)).cw name = 0) ∧
    ∀ i n, lb.nodes[i]? = some n → ∀ T : ℕ,
      (lb.timesPickedWith id i 0 T : ℚ) < (T : ℚ) * (n.weightInt : ℚ) / (W : ℚ) + 1 := by
  obtain ⟨b, hrot, hpicked⟩ := exists_rotation hcw hnames hhealthy hweights hW hpos
  have htotal : (W : ℤ) = ∑ name ∈ names lb.nodes, weightOf lb.nodes name :=
    hW.symm.trans (sum_weightOf hnames).symm
  have hmem {i : ℕ} {n : BackendNode} (hn : lb.nodes[i]? = some n) : n.name ∈ names lb.nodes :=
    mem_names.2 ⟨n, List.mem_of_getElem? hn, rfl⟩
  have hcount {i : ℕ} {n : BackendNode} (hn : lb.nodes[i]? = some n) (t : ℕ) :
      Nat.count (fun t => lb.pickedWith id t = some i) t = Nat.count (fun t => b t = n.name) t := by
    simp only [hpicked _ i n hn]
  refine ⟨fun i n hn start => ?_, cwAt_after_mul hcw hnames hhealthy hweights hW hpos,
    fun i n hn T => ?_⟩
  · rw [timesPickedWith, Nat.filter_Ico_card_eq_of_periodic start W _
      (periodic_picked hcw hnames hhealthy hweights hW hpos i), hcount hn,
      hrot.count_period htotal (hmem hn), weightOf_name hnames (List.mem_of_getElem? hn)]
  · have hlt := hrot.count_mul_lt T (hmem hn)
    rw [← htotal, weightOf_name hnames (List.mem_of_getElem? hn), ← hcount hn,
      Nat.count_eq_card_filter_range, Finset.range_eq_Ico] at hlt
    have hltq : (lb.timesPickedWith id i 0 T : ℚ) * W < T * n.weightInt + W := by exact_mod_cast hlt
    have hWq : (0 : ℚ) < W := by exact_mod_cast hpos
    rw [div_add_one hWq.ne', lt_div_iff₀ hWq]
    exact hltq

/-! ## Any operations -/

/-- A call of one of the operations. -/
inductive Op
  | addNode (node : BackendNode)
  | pick
  | markUnhealthy (name : Str)
  | markHealthy (name : Str)
  deriving DecidableEq

/-- The load balancer after an operation, where `wrap` says what becomes of a sum. -/
def applyWith (wrap : ℤ → ℤ) (lb : LoadBalancer) : Op → LoadBalancer
  | .addNode node => lb.addNode node
  | .pick => (lb.pickWith wrap).2
  | .markUnhealthy name => lb.markUnhealthy name
  | .markHealthy name => lb.markHealthy name

/-- A sequence of operations on a new load balancer. -/
def runWith (wrap : ℤ → ℤ) (ops : List Op) : LoadBalancer := ops.foldl (applyWith wrap) {}

/-- A sequence of operations of the source. -/
def run (ops : List Op) : LoadBalancer := runWith int ops

/-- The node that an operation adds. -/
def Op.added : Op → Option BackendNode
  | .addNode node => some node
  | _ => none

/-- The variables of the exact loop while an operation runs. -/
def scansDuring (lb : LoadBalancer) : Op → List Scan
  | .pick => (List.range (lb.nodes.length + 1)).map fun k => scan id (lb.nodes.take k) lb.cw
  | _ => []

/-- In exact arithmetic, no value of `cw_` or of `total` that an operation computes or leaves behind is
larger than `b`, or smaller than `-b`. -/
def ValuesWithin (lb : LoadBalancer) (op : Op) (b : ℤ) : Prop :=
  (∀ s ∈ lb.scansDuring op, (-b ≤ s.total ∧ s.total ≤ b) ∧
    ∀ name v, s.cw.lookup name = some v → -b ≤ v ∧ v ≤ b) ∧
  ∀ name v, (lb.applyWith id op).cw.lookup name = some v → -b ≤ v ∧ v ≤ b

/-- The invariant of the runs. -/
structure Sound (lb : LoadBalancer) : Prop where
  nodup : (lb.nodes.map BackendNode.name).Nodup
  weights : ∀ n ∈ lb.nodes, 0 ≤ n.weightInt
  bounded : Bounded (weightOf lb.nodes) (names lb.nodes) (cwAt lb.cw)
  others : ∀ name, name ∉ names lb.nodes → cwAt lb.cw name = 0

theorem Sound.weightOf_nonneg {lb : LoadBalancer} (h : lb.Sound) :
    ∀ name ∈ names lb.nodes, 0 ≤ weightOf lb.nodes name := by
  intro name hname
  obtain ⟨n, hn, rfl⟩ := mem_names.1 hname
  rw [weightOf_name h.nodup hn]
  exact h.weights n hn

/-- What the nodes bring into the invariant: their names and weights. -/
def shares (nodes : List BackendNode) : List (Str × ℤ) := nodes.map fun n => (n.name, n.weightInt)

theorem map_name_eq_of_shares {nodes nodes' : List BackendNode} (h : shares nodes = shares nodes') :
    nodes.map BackendNode.name = nodes'.map BackendNode.name := by
  have hmap := congrArg (List.map Prod.fst) h
  rw [shares, shares, List.map_map, List.map_map] at hmap
  exact hmap

theorem map_weight_eq_of_shares {nodes nodes' : List BackendNode} (h : shares nodes = shares nodes') :
    nodes.map BackendNode.weightInt = nodes'.map BackendNode.weightInt := by
  have hmap := congrArg (List.map Prod.snd) h
  rw [shares, shares, List.map_map, List.map_map] at hmap
  exact hmap

theorem weightOf_eq (nodes : List BackendNode) (name : Str) :
    weightOf nodes name = (((shares nodes).filter fun p => p.1 = name).map Prod.snd).sum := by
  simp only [weightOf, shares, List.filter_map, List.map_map]
  rfl

theorem nonneg_of_shares {nodes nodes' : List BackendNode} (h : shares nodes = shares nodes')
    (hweights : ∀ n ∈ nodes, 0 ≤ n.weightInt) : ∀ n ∈ nodes', 0 ≤ n.weightInt := by
  intro n hn
  have hmem := List.mem_map_of_mem (f := BackendNode.weightInt) hn
  rw [← map_weight_eq_of_shares h] at hmem
  obtain ⟨m, hm, hweight⟩ := List.mem_map.1 hmem
  exact hweight ▸ hweights m hm

@[simp]
theorem shares_markNode (healthy : Bool) (name : Str) (nodes : List BackendNode) :
    shares (markNode healthy name nodes) = shares nodes := by
  induction nodes with
  | nil => rfl
  | cons n nodes ih =>
      unfold markNode
      split_ifs
      · rfl
      · exact congrArg (List.cons _) ih

theorem Sound.of_shares {lb lb' : LoadBalancer} (h : lb.Sound) (hshares : shares lb.nodes = shares lb'.nodes)
    (hcw : lb'.cw = lb.cw) : lb'.Sound := by
  have hnames : names lb'.nodes = names lb.nodes := by
    rw [names, names, map_name_eq_of_shares hshares]
  refine ⟨map_name_eq_of_shares hshares ▸ h.nodup, nonneg_of_shares hshares h.weights, ?_, ?_⟩
  · have hweight : weightOf lb'.nodes = weightOf lb.nodes := by
      funext name
      rw [weightOf_eq, weightOf_eq, hshares]
    rw [hnames, hweight, hcw]
    exact h.bounded
  · rw [hnames, hcw]
    exact h.others

theorem Sound.addNode {lb : LoadBalancer} (h : lb.Sound) {node : BackendNode}
    (hname : node.name ∉ names lb.nodes) (hweight : 0 ≤ node.weightInt) : (lb.addNode node).Sound := by
  have hnew : node.name ∉ lb.nodes.map BackendNode.name := fun hmem => hname (List.mem_toFinset.2 hmem)
  have hnames : names (lb.nodes ++ [node]) = insert node.name (names lb.nodes) := by
    ext name
    simp [names]
  have hnodup : ((lb.nodes ++ [node]).map BackendNode.name).Nodup := by
    rw [List.map_append, List.map_singleton, ← List.concat_eq_append]
    exact List.Nodup.concat hnew h.nodup
  have hmem : node ∈ lb.nodes ++ [node] := List.mem_append_right _ (List.mem_singleton_self _)
  constructor
  · exact hnodup
  · intro n hn
    rcases List.mem_append.1 hn with hn | hn
    · exact h.weights n hn
    · exact List.mem_singleton.1 hn ▸ hweight
  · refine (congrArg (fun N => Bounded _ N _) hnames).mpr ?_
    refine h.bounded.add_member h.weightOf_nonneg hname ?_ (fun name hold => ?_) (h.others _ hname)
      fun _ _ => rfl
    · exact (weightOf_name hnodup hmem).symm ▸ hweight
    · obtain ⟨n, hn, rfl⟩ := mem_names.1 hold
      rw [weightOf_name h.nodup hn]
      exact weightOf_name hnodup (List.mem_append_left _ hn)
  · intro name hnot
    refine h.others name fun hold => hnot ?_
    rw [LoadBalancer.addNode, hnames]
    exact Finset.mem_insert_of_mem hold

theorem Sound.pick {lb : LoadBalancer} (h : lb.Sound) : (lb.pickWith id).2.Sound := by
  by_cases hhealthy : ∃ n ∈ lb.nodes, n.healthy = true
  · obtain ⟨i, n, -, -, hpick⟩ := pick_spec h.nodup hhealthy
    have hsub := healthyNames_subset lb.nodes
    constructor
    · rw [nodes_pickWith]
      exact h.nodup
    · rw [nodes_pickWith]
      exact h.weights
    · rw [nodes_pickWith]
      exact hpick.bounded hsub h.weightOf_nonneg h.bounded
    · rw [nodes_pickWith]
      intro name hname
      have hne : name ≠ n.name := fun heq => hname (heq ▸ hsub hpick.mem)
      rw [hpick.apply, if_neg fun hmem => hname (hsub hmem), if_neg hne, h.others name hname]
      rfl
  · simp only [not_exists, not_and, Bool.not_eq_true] at hhealthy
    have hcw := cwAt_pick_of_none hhealthy
    constructor
    · rw [nodes_pickWith]
      exact h.nodup
    · rw [nodes_pickWith]
      exact h.weights
    · rw [nodes_pickWith, funext hcw]
      exact h.bounded
    · rw [nodes_pickWith]
      intro name hname
      rw [hcw, h.others name hname]

theorem applyWith_of_added_none {lb : LoadBalancer} {op : Op} (h : op.added = none) :
    shares (lb.applyWith id op).nodes = shares lb.nodes := by
  cases op with
  | addNode node => cases h
  | pick => rw [applyWith, nodes_pickWith]
  | markUnhealthy name => exact shares_markNode false name lb.nodes
  | markHealthy name => exact shares_markNode true name lb.nodes

theorem runWith_concat (wrap : ℤ → ℤ) (ops : List Op) (op : Op) :
    runWith wrap (ops ++ [op]) = (runWith wrap ops).applyWith wrap op := by
  rw [runWith, List.foldl_append]
  rfl

/-- The names and weights are those of the nodes that were added. -/
theorem shares_run (ops : List Op) : shares (runWith id ops).nodes = shares (ops.filterMap Op.added) := by
  induction ops using List.reverseRecOn with
  | nil => rfl
  | append_singleton ops op ih =>
      have happend (nodes nodes' : List BackendNode) :
          shares (nodes ++ nodes') = shares nodes ++ shares nodes' := List.map_append
      rw [runWith_concat, List.filterMap_append, happend, ← ih]
      cases op with
      | addNode node => exact happend _ _
      | pick => rw [applyWith_of_added_none rfl]; exact (List.append_nil _).symm
      | markUnhealthy name => rw [applyWith_of_added_none rfl]; exact (List.append_nil _).symm
      | markHealthy name => rw [applyWith_of_added_none rfl]; exact (List.append_nil _).symm

theorem sound_run {ops : List Op} (hnames : ((ops.filterMap Op.added).map BackendNode.name).Nodup)
    (hweights : ∀ n ∈ ops.filterMap Op.added, 0 ≤ n.weightInt) : (runWith id ops).Sound := by
  induction ops using List.reverseRecOn with
  | nil =>
      refine ⟨List.nodup_nil, fun n hn => absurd hn List.not_mem_nil, ?_, fun _ _ => rfl⟩
      exact bounded_zero (fun name hname => absurd hname (Finset.notMem_empty name)) fun _ _ => rfl
  | append_singleton ops op ih =>
      rw [List.filterMap_append] at hweights
      rw [List.filterMap_append, List.map_append, List.nodup_append] at hnames
      have hsound := ih hnames.1 fun n hn => hweights n (List.mem_append_left _ hn)
      rw [runWith_concat]
      cases op with
      | addNode node =>
        refine hsound.addNode (fun hmem => ?_) ?_
        · rw [names, List.mem_toFinset, map_name_eq_of_shares (shares_run ops)] at hmem
          exact hnames.2.2 _ hmem _ (List.mem_singleton_self _) rfl
        · exact hweights node (List.mem_append_right _ (List.mem_singleton_self node))
      | pick => exact hsound.pick
      | markUnhealthy name => exact hsound.of_shares (shares_markNode false name _).symm rfl
      | markHealthy name => exact hsound.of_shares (shares_markNode true name _).symm rfl

/-! ## The values of an operation -/

/-- The weights that some of the nodes bring in. -/
theorem sum_weightInt_sublist {nodes nodes' : List BackendNode} (hweights : ∀ n ∈ nodes', 0 ≤ n.weightInt)
    (hsub : nodes.Sublist nodes') : 0 ≤ (nodes.map BackendNode.weightInt).sum ∧
      (nodes.map BackendNode.weightInt).sum ≤ (nodes'.map BackendNode.weightInt).sum := by
  constructor
  · refine List.sum_nonneg fun w hw => ?_
    obtain ⟨n, hn, rfl⟩ := List.mem_map.1 hw
    exact hweights n (hsub.subset hn)
  · refine (hsub.map BackendNode.weightInt).sum_le_sum fun w hw => ?_
    obtain ⟨n, hn, rfl⟩ := List.mem_map.1 hw
    exact hweights n hn

section Values

variable {lb : LoadBalancer} (h : lb.Sound)

include h

theorem Sound.sum_cwAt : (lb.nodes.map fun n => cwAt lb.cw n.name).sum = 0 := by
  have hsum := h.bounded.sum
  rw [names, List.sum_toFinset _ h.nodup, List.map_map] at hsum
  exact hsum

theorem Sound.total_nonneg : 0 ≤ (lb.nodes.map BackendNode.weightInt).sum :=
  List.sum_nonneg fun w hw => by
    obtain ⟨n, hn, rfl⟩ := List.mem_map.1 hw
    exact h.weights n hn

theorem Sound.total_le : (lb.nodes.map BackendNode.weightInt).sum ≤
    lb.nodes.length * (lb.nodes.map BackendNode.weightInt).sum := by
  have hnonneg := h.total_nonneg
  cases hnodes : lb.nodes with
  | nil => simp
  | cons n nodes =>
    rw [hnodes] at hnonneg
    have hlen : (1 : ℤ) ≤ (n :: nodes).length := by
      rw [List.length_cons]
      omega
    nlinarith

theorem Sound.sum_sublist {nodes : List BackendNode} (hsub : nodes.Sublist lb.nodes) :
    0 ≤ (nodes.map BackendNode.weightInt).sum ∧
      (nodes.map BackendNode.weightInt).sum ≤ (lb.nodes.map BackendNode.weightInt).sum :=
  sum_weightInt_sublist h.weights hsub

theorem Sound.cwAt_add (name : Str) {v : ℤ} (h₀ : 0 ≤ v)
    (hv : v ≤ (lb.nodes.map BackendNode.weightInt).sum) :
    -(lb.nodes.length * (lb.nodes.map BackendNode.weightInt).sum) ≤ cwAt lb.cw name + v ∧
      cwAt lb.cw name + v ≤ lb.nodes.length * (lb.nodes.map BackendNode.weightInt).sum := by
  have htotal := h.total_le
  have hnonneg := h.total_nonneg
  by_cases hname : name ∈ names lb.nodes
  · have hlow := h.bounded.neg_le hname
    have hhigh := h.bounded.le hname
    have hcard : (names lb.nodes).card = lb.nodes.length := by
      rw [names, List.toFinset_card_of_nodup h.nodup, List.length_map]
    rw [sum_weightOf h.nodup, hcard] at hlow hhigh
    constructor
    · linarith
    · linarith
  · rw [h.others name hname]
    constructor
    · linarith
    · linarith

theorem Sound.lookup_within {name : Str} {v : ℤ} (hv : lb.cw.lookup name = some v) :
    -(lb.nodes.length * (lb.nodes.map BackendNode.weightInt).sum) ≤ v ∧
      v ≤ lb.nodes.length * (lb.nodes.map BackendNode.weightInt).sum := by
  have hwithin := h.cwAt_add name le_rfl h.total_nonneg
  rw [cwAt, hv, Option.getD_some, add_zero] at hwithin
  exact hwithin

theorem Sound.scan_within {nodes : List BackendNode} (hsub : nodes.Sublist lb.nodes) :
    (-(lb.nodes.length * (lb.nodes.map BackendNode.weightInt).sum) ≤ (scan id nodes lb.cw).total ∧
      (scan id nodes lb.cw).total ≤ lb.nodes.length * (lb.nodes.map BackendNode.weightInt).sum) ∧
    ∀ name v, (scan id nodes lb.cw).cw.lookup name = some v →
      -(lb.nodes.length * (lb.nodes.map BackendNode.weightInt).sum) ≤ v ∧
        v ≤ lb.nodes.length * (lb.nodes.map BackendNode.weightInt).sum := by
  constructor
  · have hsum : 0 ≤ healthyTotal nodes ∧ healthyTotal nodes ≤ (lb.nodes.map BackendNode.weightInt).sum :=
      h.sum_sublist (List.filter_sublist.trans hsub)
    have htotal := h.total_le
    rw [total_scan]
    constructor
    · linarith
    · linarith
  · intro name v hv
    have hgain : 0 ≤ gain nodes name ∧ gain nodes name ≤ (lb.nodes.map BackendNode.weightInt).sum :=
      h.sum_sublist (List.filter_sublist.trans hsub)
    have hwithin := h.cwAt_add name hgain.1 hgain.2
    rw [← cwAt_scan, cwAt, hv, Option.getD_some] at hwithin
    exact hwithin

/-- The values of the next operation. -/
theorem Sound.valuesWithin (op : Op) (hafter : (lb.applyWith id op).Sound) :
    lb.ValuesWithin op ((lb.applyWith id op).nodes.length *
      ((lb.applyWith id op).nodes.map BackendNode.weightInt).sum) := by
  refine ⟨fun s hs => ?_, fun name v => hafter.lookup_within⟩
  cases op with
  | pick =>
    obtain ⟨k, -, rfl⟩ := List.mem_map.1 hs
    rw [applyWith, nodes_pickWith]
    exact h.scan_within (List.take_sublist k _)
  | addNode node => exact absurd hs List.not_mem_nil
  | markUnhealthy name => exact absurd hs List.not_mem_nil
  | markHealthy name => exact absurd hs List.not_mem_nil

end Values

theorem ValuesWithin.mono {lb : LoadBalancer} {op : Op} {b b' : ℤ} (h : lb.ValuesWithin op b) (hb : b ≤ b') :
    lb.ValuesWithin op b' := by
  refine ⟨fun s hs => ⟨?_, fun name v hv => ?_⟩, fun name v hv => ?_⟩
  · have htotal := (h.1 s hs).1
    exact ⟨by linarith, by linarith⟩
  · have hvalue := (h.1 s hs).2 name v hv
    exact ⟨by linarith, by linarith⟩
  · have hvalue := h.2 name v hv
    exact ⟨by linarith, by linarith⟩

/-! ## Sums that do not overflow -/

/-- An operation whose exact values are of type `int` computes these. -/
theorem ValuesWithin.applyWith_int_eq {lb : LoadBalancer} {op : Op} (h : lb.ValuesWithin op (2 ^ 31 - 1)) :
    lb.applyWith int op = lb.applyWith id op := by
  cases op with
  | pick =>
    have hscan : ∀ k ≤ lb.nodes.length, scan id (lb.nodes.take k) lb.cw ∈ lb.scansDuring .pick :=
      fun k hk => List.mem_map.2 ⟨k, List.mem_range.2 (by omega), rfl⟩
    exact congrArg Prod.snd (pickWith_int_eq (fun k hk => h.1 _ (hscan k hk)) h.2)
  | addNode node => rfl
  | markUnhealthy name => rfl
  | markHealthy name => rfl

/-- The largest value that the nodes allow. -/
def load (nodes : List BackendNode) : ℤ := nodes.length * (nodes.map BackendNode.weightInt).sum

theorem load_of_shares {nodes nodes' : List BackendNode} (h : shares nodes = shares nodes') :
    load nodes = load nodes' := by
  have hlength := congrArg List.length h
  rw [shares, shares, List.length_map, List.length_map] at hlength
  rw [load, load, hlength, map_weight_eq_of_shares h]

theorem load_append_le {nodes nodes' : List BackendNode} (h : ∀ n ∈ nodes ++ nodes', 0 ≤ n.weightInt) :
    load nodes ≤ load (nodes ++ nodes') := by
  have hsum {ns : List BackendNode} (hns : ∀ n ∈ ns, n ∈ nodes ++ nodes') :
      0 ≤ (ns.map BackendNode.weightInt).sum :=
    List.sum_nonneg fun w hw => by
      obtain ⟨n, hn, rfl⟩ := List.mem_map.1 hw
      exact h n (hns n hn)
  have hleft := hsum fun n hn => List.mem_append_left nodes' hn
  have hright := hsum fun n hn => List.mem_append_right nodes hn
  rw [load, load, List.map_append, List.sum_append, List.length_append, Nat.cast_add]
  nlinarith [Int.natCast_nonneg nodes.length, Int.natCast_nonneg nodes'.length]

/-- As long as the largest value is an `int`, the source computes the exact values. -/
theorem runWith_int_eq {ops : List Op} (hnames : ((ops.filterMap Op.added).map BackendNode.name).Nodup)
    (hweights : ∀ n ∈ ops.filterMap Op.added, 0 ≤ n.weightInt)
    (hload : load (ops.filterMap Op.added) ≤ 2 ^ 31 - 1) : runWith int ops = runWith id ops := by
  induction ops using List.reverseRecOn with
  | nil => rfl
  | append_singleton ops op ih =>
      have hafter : ((runWith id ops).applyWith id op).Sound :=
        runWith_concat id ops op ▸ sound_run hnames hweights
      have hshares := load_of_shares (shares_run (ops ++ [op]))
      rw [runWith_concat] at hshares
      rw [List.filterMap_append] at hnames hweights hload hshares
      rw [List.map_append, List.nodup_append] at hnames
      have hold : ∀ n ∈ ops.filterMap Op.added, 0 ≤ n.weightInt :=
        fun n hn => hweights n (List.mem_append_left _ hn)
      have hwithin := (sound_run hnames.1 hold).valuesWithin op hafter
      rw [← load, hshares] at hwithin
      rw [runWith_concat, runWith_concat, ih hnames.1 hold ((load_append_le hweights).trans hload),
        (hwithin.mono hload).applyWith_int_eq]

/-- Nodes with distinct names may come at any time, and be marked unhealthy and healthy at will: after each
operation the exact current weights add up to zero, and no value exceeds the number of nodes times their total
weight; so that the values are values of `int` if this product is, and the source computes them. -/
theorem current_weights_bounded (ops : List Op) (op : Op)
    (hnames : (((ops ++ [op]).filterMap Op.added).map BackendNode.name).Nodup)
    (hweights : ∀ n ∈ (ops ++ [op]).filterMap Op.added, 0 ≤ n.weightInt) :
    let lb := (runWith id ops).applyWith id op
    let n : ℤ := lb.nodes.length
    let W : ℤ := (lb.nodes.map BackendNode.weightInt).sum
    (lb.nodes.map fun n => cwAt lb.cw n.name).sum = 0 ∧
    (runWith id ops).ValuesWithin op (n * W) ∧
    (n * W ≤ 2 ^ 31 - 1 → (runWith id ops).ValuesWithin op (2 ^ 31 - 1) ∧ run (ops ++ [op]) = lb) := by
  have hafter : ((runWith id ops).applyWith id op).Sound :=
    runWith_concat id ops op ▸ sound_run hnames hweights
  have hbefore : (runWith id ops).Sound := by
    rw [List.filterMap_append] at hnames hweights
    rw [List.map_append, List.nodup_append] at hnames
    exact sound_run hnames.1 fun n hn => hweights n (List.mem_append_left _ hn)
  have hwithin := hbefore.valuesWithin op hafter
  refine ⟨hafter.sum_cwAt, hwithin, fun hle => ⟨hwithin.mono hle, ?_⟩⟩
  have hshares := load_of_shares (shares_run (ops ++ [op]))
  rw [runWith_concat, load] at hshares
  rw [run, runWith_int_eq hnames hweights (hshares ▸ hle), runWith_concat]

theorem weights_bounded_unhealthy :
    let ops := [.addNode { name := str "a", weight := 2 }, .addNode { name := str "b" }, .pick,
      .markUnhealthy (str "a")]
    (runWith id ops).ValuesWithin .pick 6 :=
  (current_weights_bounded _ .pick (by decide) (by decide)).2.1

/-! ## The rotation of the source -/

theorem Sound.afterWith {lb : LoadBalancer} (h : lb.Sound) (t : ℕ) : (lb.afterWith id t).Sound := by
  induction t with
  | zero => exact h
  | succ t ih => exact ih.pick

theorem Sound.pickWith_int_eq {lb : LoadBalancer} (h : lb.Sound) (hload : load lb.nodes ≤ 2 ^ 31 - 1) :
    lb.pickWith int = lb.pickWith id := by
  have hwithin := h.valuesWithin .pick h.pick
  rw [applyWith, nodes_pickWith, ← load] at hwithin
  have hvalues := hwithin.mono hload
  refine LoadBalancer.pickWith_int_eq (fun k hk => hvalues.1 _ ?_) hvalues.2
  exact List.mem_map.2 ⟨k, List.mem_range.2 (by omega), rfl⟩

theorem Sound.afterWith_int_eq {lb : LoadBalancer} (h : lb.Sound) (hload : load lb.nodes ≤ 2 ^ 31 - 1)
    (t : ℕ) : lb.afterWith int t = lb.afterWith id t := by
  induction t with
  | zero => rfl
  | succ t ih =>
      have hpick := (h.afterWith t).pickWith_int_eq (by rwa [nodes_after])
      rw [LoadBalancer.afterWith, LoadBalancer.afterWith, ih, hpick]

theorem Sound.pickedWith_int_eq {lb : LoadBalancer} (h : lb.Sound) (hload : load lb.nodes ≤ 2 ^ 31 - 1)
    (t : ℕ) : lb.pickedWith int t = lb.pickedWith id t := by
  rw [pickedWith, pickedWith, h.afterWith_int_eq hload,
    (h.afterWith t).pickWith_int_eq (by rwa [nodes_after])]

/-- If the number of nodes times their total weight is an `int`, the node at a position is picked as often as
its weight says, in every block of `W` picks; then all current weights are zero again, and at no time is it
ahead of its share by one pick or more. -/
theorem rotation_of_distinct_names (lb : LoadBalancer) (hcw : lb.cw = ∅)
    (hnames : (lb.nodes.map BackendNode.name).Nodup) (hhealthy : ∀ n ∈ lb.nodes, n.healthy = true)
    (hweights : ∀ n ∈ lb.nodes, 0 ≤ n.weightInt) (W : ℕ)
    (hW : (lb.nodes.map BackendNode.weightInt).sum = W) (hpos : 1 ≤ W)
    (hint : (lb.nodes.length : ℤ) * W ≤ 2 ^ 31 - 1) :
    (∀ i n, lb.nodes[i]? = some n → ∀ start, (lb.timesPicked i start (start + W) : ℤ) = n.weightInt) ∧
    (∀ k name, cwAt (lb.after (k * W)).cw name = 0) ∧
    ∀ i n, lb.nodes[i]? = some n → ∀ T : ℕ,
      (lb.timesPicked i 0 T : ℚ) < (T : ℚ) * (n.weightInt : ℚ) / (W : ℚ) + 1 := by
  have hzero (name : Str) : cwAt lb.cw name = 0 := by
    rw [hcw]
    rfl
  have hsound : lb.Sound := by
    refine ⟨hnames, hweights, ?_, fun name _ => hzero name⟩
    refine bounded_zero (fun name hname => ?_) fun name _ => hzero name
    obtain ⟨n, hn, rfl⟩ := mem_names.1 hname
    exact (weightOf_name hnames hn).symm ▸ hweights n hn
  have hload : load lb.nodes ≤ 2 ^ 31 - 1 := by rwa [load, hW]
  simp only [after, timesPicked, timesPickedWith, hsound.afterWith_int_eq hload,
    hsound.pickedWith_int_eq hload]
  exact exact_rotation lb hcw hnames hhealthy hweights W hW hpos

/-- Two nodes, one of them with twice the weight of the other. -/
def twoToOne : LoadBalancer where
  nodes := [{ name := str "a", weight := 2 }, { name := str "b" }]

theorem twoToOne_rotation : (twoToOne.timesPicked 0 0 3 : ℤ) = 2 :=
  (rotation_of_distinct_names twoToOne rfl (by decide) (by decide) (by decide) 3 rfl
    (by decide) (by decide)).1 0 _ rfl 0

/-- Two nodes of the largest weight. -/
def heavy : LoadBalancer where
  nodes := [{ name := str "a", weight := 2147483647 }, { name := str "b", weight := 2147483647 }]

/-- The sum of the weights overflows, and the first node has two turns before the second has one. -/
theorem heavy_rotation : heavy.cw = ∅ ∧ (heavy.nodes.map BackendNode.name).Nodup ∧
    (∀ n ∈ heavy.nodes, n.healthy = true ∧ n.weightInt = 2147483647) ∧
    (heavy.picked 0, heavy.picked 1, heavy.picked 2, heavy.picked 3) = (some 0, some 0, some 1, some 0) ∧
    ¬(heavy.timesPicked 0 0 2 : ℚ) < 2 * 2147483647 / 4294967294 + 1 := by
  have hpicked : (heavy.picked 0, heavy.picked 1, heavy.picked 2, heavy.picked 3) =
      (some 0, some 0, some 1, some 0) := by decide +kernel
  have htimes : heavy.timesPicked 0 0 2 = 2 := by decide +kernel
  refine ⟨rfl, by decide, by decide, hpicked, ?_⟩
  rw [htimes]
  norm_num

end LoadBalancer

end LlmGateway

