import LlmGateway.RoundRobin

/-!
# The names of the nodes

The current weights are kept under the names, so that nodes of one name share one.  Groups that differ in the
names only pick alike as long as the same nodes share a name (`Alike.picked_eq`).  But a node that shares its
name with another one may never have a turn again (`picked_of_shared`), so that the names make no difference,
whatever the weights are, exactly if they are pairwise distinct (`picked_alike_iff`).
-/

namespace LlmGateway

namespace LoadBalancer

/-- `add_node` for each of the nodes. -/
def build (nodes : List BackendNode) : LoadBalancer := nodes.foldl (fun lb node => lb.addNode node) {}

/-- The nodes under other names. -/
def withNames (nodes : List BackendNode) (names : List Str) : List BackendNode :=
  List.zipWith (fun n name => { n with name }) nodes names

theorem build_eq (nodes : List BackendNode) : build nodes = { nodes } := by
  induction nodes using List.reverseRecOn with
  | nil => rfl
  | append_singleton nodes n ih =>
      rw [build, List.foldl_append, ← build, ih]
      rfl

/-! ## The same nodes share a name -/

section Alike

variable {names : List (Str × Str)} (hnames : ∀ p ∈ names, ∀ q ∈ names, p.1 = q.1 ↔ p.2 = q.2)
  (wrap : ℤ → ℤ) {cw cw' : UMap ℤ}

/-- The current weights under corresponding names agree. -/
def Alike (names : List (Str × Str)) (cw cw' : UMap ℤ) : Prop :=
  ∀ p ∈ names, cwAt cw p.1 = cwAt cw' p.2

/-- The variables of the loops agree. -/
structure AlikeScan (names : List (Str × Str)) (s s' : Scan) : Prop where
  total : s.total = s'.total
  cw : Alike names s.cw s'.cw
  best : (s.best = none ∧ s'.best = none) ∨
    ∃ k, ∃ p ∈ names, s.best = some (k, p.1) ∧ s'.best = some (k, p.2)

/-- A node under the first of its two names. -/
def first (n : BackendNode × Str × Str) : BackendNode := { n.1 with name := n.2.1 }

/-- A node under the second of its two names. -/
def second (n : BackendNode × Str × Str) : BackendNode := { n.1 with name := n.2.2 }

theorem name_first (n : BackendNode × Str × Str) : (first n).name = n.2.1 := rfl

theorem name_second (n : BackendNode × Str × Str) : (second n).name = n.2.2 := rfl

theorem weightInt_first (n : BackendNode × Str × Str) : (first n).weightInt = n.1.weightInt := rfl

theorem weightInt_second (n : BackendNode × Str × Str) : (second n).weightInt = n.1.weightInt := rfl

include hnames

theorem Alike.insert (h : Alike names cw cw') {p : Str × Str} (hp : p ∈ names) (v : ℤ) :
    Alike names (cw.insert p.1 v) (cw'.insert p.2 v) := by
  intro q hq
  rw [cwAt_insert, cwAt_insert, h q hq]
  by_cases heq : q.1 = p.1
  · rw [if_pos heq, if_pos ((hnames q hq p hp).1 heq)]
  · rw [if_neg heq, if_neg fun hsnd => heq ((hnames q hq p hp).2 hsnd)]

theorem AlikeScan.step {s s' : Scan} (h : AlikeScan names s s') {n : BackendNode × Str × Str}
    (hn : n.2 ∈ names) (k : ℕ) : AlikeScan names (visit wrap s (first n, k)) (visit wrap s' (second n, k)) := by
  unfold visit
  by_cases hhealthy : n.1.healthy
  · have hinsert := h.cw.insert hnames hn (wrap (cwAt s.cw n.2.1 + n.1.weightInt))
    rw [if_pos (show (first n).healthy by exact hhealthy),
      if_pos (show (second n).healthy by exact hhealthy)]
    simp only [name_first, name_second, weightInt_first, weightInt_second, ← h.cw n.2 hn, ← h.total]
    refine ⟨rfl, hinsert, .inr ?_⟩
    rcases h.best with ⟨hbest, hbest'⟩ | ⟨k', p, hp, hbest, hbest'⟩
    · rw [hbest, hbest']
      exact ⟨k, n.2, hn, rfl, rfl⟩
    · rw [hbest, hbest']
      simp only [hinsert p hp, hinsert n.2 hn]
      split_ifs
      · exact ⟨k, n.2, hn, rfl, rfl⟩
      · exact ⟨k', p, hp, rfl, rfl⟩
  · rw [if_neg (show ¬(first n).healthy by exact hhealthy),
      if_neg (show ¬(second n).healthy by exact hhealthy)]
    exact h

theorem Alike.loop (h : Alike names cw cw') {nodes : List (BackendNode × Str × Str)}
    (hnodes : ∀ n ∈ nodes, n.2 ∈ names) :
    AlikeScan names (scan wrap (nodes.map first) cw) (scan wrap (nodes.map second) cw') := by
  induction nodes using List.reverseRecOn with
  | nil => exact ⟨rfl, h, .inl ⟨rfl, rfl⟩⟩
  | append_singleton nodes n ih =>
      have hn : n.2 ∈ names := hnodes n (List.mem_append_right _ (List.mem_singleton_self n))
      have hstep := (ih fun m hm => hnodes m (List.mem_append_left _ hm)).step hnames wrap hn nodes.length
      simp only [List.map_append, List.map_singleton, scan_concat, List.length_map]
      exact hstep

theorem Alike.pick_pick {nodes : List (BackendNode × Str × Str)} (hnodes : ∀ n ∈ nodes, n.2 ∈ names)
    {lb lb' : LoadBalancer} (hlb : lb.nodes = nodes.map first) (hlb' : lb'.nodes = nodes.map second)
    (h : Alike names lb.cw lb'.cw) : (lb.pickWith wrap).1 = (lb'.pickWith wrap).1 ∧
      Alike names (lb.pickWith wrap).2.cw (lb'.pickWith wrap).2.cw := by
  have hscan := h.loop hnames wrap hnodes
  unfold pickWith
  dsimp only
  rw [hlb, hlb']
  rcases hscan.best with ⟨hbest, hbest'⟩ | ⟨k, p, hp, hbest, hbest'⟩
  · rw [hbest, hbest']
    exact ⟨rfl, hscan.cw⟩
  · rw [hbest, hbest']
    dsimp only
    rw [hscan.total, hscan.cw p hp]
    exact ⟨rfl, hscan.cw.insert hnames hp _⟩

theorem Alike.after_after {nodes : List (BackendNode × Str × Str)} (hnodes : ∀ n ∈ nodes, n.2 ∈ names)
    {lb lb' : LoadBalancer} (hlb : lb.nodes = nodes.map first) (hlb' : lb'.nodes = nodes.map second)
    (h : Alike names lb.cw lb'.cw) (t : ℕ) : Alike names (lb.afterWith wrap t).cw (lb'.afterWith wrap t).cw := by
  induction t with
  | zero => exact h
  | succ t ih =>
      exact (ih.pick_pick hnames wrap hnodes ((nodes_after wrap lb t).trans hlb)
        ((nodes_after wrap lb' t).trans hlb')).2

theorem Alike.picked_eq {nodes : List (BackendNode × Str × Str)} (hnodes : ∀ n ∈ nodes, n.2 ∈ names)
    {lb lb' : LoadBalancer} (hlb : lb.nodes = nodes.map first) (hlb' : lb'.nodes = nodes.map second)
    (h : Alike names lb.cw lb'.cw) (t : ℕ) : lb.pickedWith wrap t = lb'.pickedWith wrap t :=
  ((h.after_after hnames wrap hnodes hlb hlb' t).pick_pick hnames wrap hnodes ((nodes_after wrap lb t).trans hlb)
    ((nodes_after wrap lb' t).trans hlb')).1

end Alike

/-! ## A name in two places -/

/-- The node at a position is picked again and again. -/
def PickedForever (lb : LoadBalancer) (i : ℕ) : Prop := ∀ start, ∃ t, start ≤ t ∧ lb.picked t = some i

theorem picked_mul_add {lb : LoadBalancer} {s : ℕ}
    (h : ∀ name, cwAt (lb.after s).cw name = cwAt lb.cw name) (m t : ℕ) :
    lb.picked (m * s + t) = lb.picked t := by
  have hadd (t : ℕ) : lb.picked (s + t) = lb.picked t := by
    rw [picked, pickedWith, after_add, ← pickedWith]
    exact picked_congr int (nodes_after int lb s) h t
  induction m with
  | zero => rw [Nat.zero_mul, Nat.zero_add]
  | succ m ih => rw [Nat.succ_mul, Nat.add_comm (m * s), Nat.add_assoc, hadd, ih]

theorem cwAt_empty (name : Str) : cwAt ∅ name = 0 := rfl

/-- Also among nodes that share names the best one is picked, as long as no weight is negative. -/
theorem pick_of_nonneg {lb : LoadBalancer} (hne : lb.nodes ≠ [])
    (hhealthy : ∀ n ∈ lb.nodes, n.healthy = true) (hweights : ∀ n ∈ lb.nodes, 0 ≤ n.weightInt) :
    ∃ k n, (lb.pickWith id).1 = some k ∧ lb.nodes[k]? = some n ∧
      (∀ m ∈ lb.nodes, cwAt lb.cw m.name + gain lb.nodes m.name ≤
        cwAt lb.cw n.name + gain lb.nodes n.name) ∧
      ∀ name, cwAt (lb.pickWith id).2.cw name =
        cwAt lb.cw name + gain lb.nodes name - if name = n.name then healthyTotal lb.nodes else 0 := by
  obtain ⟨node, hmem⟩ := List.exists_mem_of_ne_nil _ hne
  obtain ⟨k, n, hpick, hn, -, hbest, hcw⟩ := pick_best ⟨node, hmem, hhealthy node hmem⟩
  refine ⟨k, n, hpick, hn, fun m hm => ?_, hcw⟩
  have hkept : ∀ pre n post, lb.nodes = pre ++ n :: post → 0 ≤ n.weightInt ∨ ∀ m ∈ pre, m.name ≠ n.name :=
    fun pre n post hnodes => Or.inl (hweights n (by simp [hnodes]))
  have hle := le_best hkept hbest m hm (hhealthy m hm)
  rw [cwAt_scan, cwAt_scan] at hle
  exact hle

/-- Nodes of which those at two positions have the weight one, and the others none. -/
def loaded (names : List Str) (i j : ℕ) : List BackendNode :=
  names.mapIdx fun k name => { name, weight := (if k = i then 1 else 0) + if k = j then 1 else 0 }

section Loaded

variable {names : List Str} {i j : ℕ}

theorem toInt_turns (p q : Prop) [Decidable p] [Decidable q] :
    ((if p then 1 else 0) + (if q then 1 else 0) : Int32).toInt =
      (if p then 1 else 0) + if q then 1 else 0 := by
  split_ifs <;> rfl

theorem loaded_concat (names : List Str) (name : Str) (i j : ℕ) : loaded (names ++ [name]) i j =
    loaded names i j ++ [{ name, weight :=
      (if names.length = i then 1 else 0) + if names.length = j then 1 else 0 }] := by
  rw [loaded, List.mapIdx_append]
  simp [loaded]

theorem map_name_loaded (names : List Str) (i j : ℕ) :
    (loaded names i j).map BackendNode.name = names := by
  induction names using List.reverseRecOn with
  | nil => rfl
  | append_singleton names x ih => rw [loaded_concat, List.map_append, ih, List.map_singleton]

theorem getElem?_loaded {k : ℕ} {n : BackendNode} (h : (loaded names i j)[k]? = some n) :
    names[k]? = some n.name := by
  rw [← map_name_loaded names i j, List.getElem?_map, h]
  rfl

theorem healthy_loaded : ∀ n ∈ loaded names i j, n.healthy = true := by
  intro n hn
  obtain ⟨k, hk, rfl⟩ := List.mem_mapIdx.1 hn
  rfl

theorem weight_loaded : ∀ n ∈ loaded names i j, 0 ≤ n.weightInt := by
  intro n hn
  obtain ⟨k, hk, rfl⟩ := List.mem_mapIdx.1 hn
  rw [BackendNode.weightInt, toInt_turns]
  positivity

theorem ite_getElem?_concat (names : List Str) (x name : Str) (i : ℕ) :
    (if (names ++ [x])[i]? = some name then (1 : ℤ) else 0) =
      (if names[i]? = some name then 1 else 0) + if names.length = i ∧ x = name then 1 else 0 := by
  rcases lt_trichotomy i names.length with hi | hi | hi
  · simp [List.getElem?_append_left hi, hi.ne']
  · subst hi
    simp
  · have hnone : (names ++ [x])[i]? = none := List.getElem?_eq_none (by simpa using hi)
    simp [hnone, List.getElem?_eq_none hi.le, hi.ne]

theorem gain_loaded (names : List Str) (i j : ℕ) (name : Str) : gain (loaded names i j) name =
    (if names[i]? = some name then 1 else 0) + if names[j]? = some name then 1 else 0 := by
  induction names using List.reverseRecOn with
  | nil => simp [loaded, gain]
  | append_singleton names x ih =>
      rw [loaded_concat, gain_concat, ih, ite_getElem?_concat, ite_getElem?_concat, BackendNode.weightInt,
        toInt_turns]
      by_cases hx : x = name
      · simp only [hx, and_true, if_true]
        ring
      · simp [hx]

theorem healthyTotal_loaded (names : List Str) (i j : ℕ) : healthyTotal (loaded names i j) =
    (if i < names.length then 1 else 0) + if j < names.length then 1 else 0 := by
  have hconcat (n k : ℕ) :
      (if k < n + 1 then (1 : ℤ) else 0) = (if k < n then 1 else 0) + if n = k then 1 else 0 := by
    rcases lt_trichotomy k n with hk | hk | hk
    · simp [hk, hk.ne', hk.le]
    · simp [hk]
    · simp [hk.ne, Nat.not_lt.2 hk.le, Nat.not_le.2 hk]
  induction names using List.reverseRecOn with
  | nil => simp [loaded, healthyTotal]
  | append_singleton names x ih =>
      rw [loaded_concat, healthyTotal_concat, ih, if_pos rfl, List.length_append, List.length_singleton,
        hconcat, hconcat, BackendNode.weightInt, toInt_turns]
      ring

variable {a b : Str} (hi : names[i]? = some a) (hj : names[j]? = some b) {lb : LoadBalancer}
  (hlb : lb.nodes = loaded names i j)

include hi hj hlb

theorem gain_nodes (other : Str) :
    gain lb.nodes other = (if a = other then 1 else 0) + if b = other then 1 else 0 := by
  rw [hlb, gain_loaded, hi, hj]
  simp only [Option.some.injEq]

theorem healthyTotal_nodes : healthyTotal lb.nodes = 2 := by
  rw [hlb, healthyTotal_loaded, if_pos (List.getElem?_eq_some_iff.1 hi).1,
    if_pos (List.getElem?_eq_some_iff.1 hj).1]
  rfl

/-- A pick among the nodes of which two have a weight. -/
theorem pick_loaded : ∃ k name, (lb.pickWith id).1 = some k ∧ names[k]? = some name ∧
    (∀ other ∈ names, cwAt lb.cw other + ((if a = other then 1 else 0) + if b = other then 1 else 0) ≤
      cwAt lb.cw name + ((if a = name then 1 else 0) + if b = name then 1 else 0)) ∧
    ∀ other, cwAt (lb.pickWith id).2.cw other = cwAt lb.cw other +
      ((if a = other then 1 else 0) + if b = other then 1 else 0) - if other = name then 2 else 0 := by
  have hgain := gain_nodes hi hj hlb
  have htotal := healthyTotal_nodes hi hj hlb
  have hne : lb.nodes ≠ [] := by
    intro hnil
    rw [← map_name_loaded names i j, ← hlb, hnil] at hi
    cases hi
  obtain ⟨k, n, hpick, hn, hmax, happly⟩ :=
    pick_of_nonneg hne (hlb ▸ healthy_loaded) (hlb ▸ weight_loaded)
  rw [hlb] at hn
  refine ⟨k, n.name, hpick, getElem?_loaded hn, fun other hother => ?_, fun other => ?_⟩
  · rw [← map_name_loaded names i j, ← hlb] at hother
    obtain ⟨m, hm, rfl⟩ := List.mem_map.1 hother
    rw [← hgain, ← hgain]
    exact hmax m hm
  · rw [happly, hgain, htotal]

omit hi hj in
/-- The sums over some of the nodes. -/
theorem sum_sublist_loaded {nodes : List BackendNode} (hsub : nodes.Sublist lb.nodes) :
    0 ≤ (nodes.map BackendNode.weightInt).sum ∧
      (nodes.map BackendNode.weightInt).sum ≤ (lb.nodes.map BackendNode.weightInt).sum :=
  sum_weightInt_sublist (hlb ▸ weight_loaded) hsub

/-- From current weights of at most one, the sums of a pick are those of exact arithmetic. -/
theorem pick_loaded_int (hcw : ∀ name, -1 ≤ cwAt lb.cw name ∧ cwAt lb.cw name ≤ 1) :
    lb.pickWith int = lb.pickWith id := by
  have htotal : (lb.nodes.map BackendNode.weightInt).sum = 2 := by
    rw [← healthyTotal_nodes hi hj hlb, healthyTotal,
      List.filter_eq_self.2 (hlb ▸ healthy_loaded)]
  refine pickWith_int_eq (fun k hk => ⟨?_, fun name v hv => ?_⟩) fun name v hv => ?_
  · have hsum : 0 ≤ healthyTotal (lb.nodes.take k) ∧ healthyTotal (lb.nodes.take k) ≤ _ :=
      sum_sublist_loaded hlb (List.filter_sublist.trans (List.take_sublist k lb.nodes))
    rw [htotal] at hsum
    rw [total_scan]
    exact ⟨by linarith, by linarith⟩
  · have hvalue : v = cwAt lb.cw name + gain (lb.nodes.take k) name := by
      rw [← cwAt_scan, cwAt, hv, Option.getD_some]
    have hgain : 0 ≤ gain (lb.nodes.take k) name ∧ gain (lb.nodes.take k) name ≤ _ :=
      sum_sublist_loaded hlb (List.filter_sublist.trans (List.take_sublist k lb.nodes))
    rw [htotal] at hgain
    have hname := hcw name
    rw [hvalue]
    exact ⟨by linarith, by linarith⟩
  · obtain ⟨k, other, -, -, -, happly⟩ := pick_loaded hi hj hlb
    have hvalue : v = cwAt (lb.pickWith id).2.cw name := by
      rw [cwAt, hv, Option.getD_some]
    have hname := hcw name
    rw [hvalue, happly]
    split_ifs <;> exact ⟨by linarith, by linarith⟩

/-- If they share their name, every pick is the first one again. -/
theorem picked_loaded_of_eq (hcw : lb.cw = ∅) (hab : a = b) (t : ℕ) : lb.picked t = lb.picked 0 := by
  obtain ⟨k, name, -, -, hmax, happly⟩ := pick_loaded hi hj hlb
  have hname : name = a := by
    have hle := hmax a (List.mem_of_getElem? hi)
    by_contra hne
    rw [hcw, cwAt_empty, cwAt_empty, if_pos rfl, if_pos hab.symm, if_neg (Ne.symm hne),
      if_neg (hab ▸ Ne.symm hne)] at hle
    omega
  have hint := pick_loaded_int hi hj hlb fun name => by rw [hcw, cwAt_empty]; norm_num
  have hstart (other : Str) : cwAt (lb.after 1).cw other = cwAt lb.cw other := by
    rw [after, afterWith, afterWith, hint, happly, hname, hcw, ← hab]
    by_cases heq : a = other
    · rw [if_pos heq, if_pos heq.symm]
      rfl
    · rw [if_neg heq, if_neg (Ne.symm heq)]
      rfl
  rw [← picked_mul_add hstart t 0, Nat.mul_one, Nat.add_zero]

/-- If they do not, both have their turn in the first two picks, after which the current weights are zero. -/
theorem picked_loaded_of_ne (hcw : lb.cw = ∅) (hab : a ≠ b) : ∃ k k' name name',
    lb.picked 0 = some k ∧ lb.picked 1 = some k' ∧ names[k]? = some name ∧ names[k']? = some name' ∧
    (name = a ∧ name' = b ∨ name = b ∧ name' = a) ∧ ∀ other, cwAt (lb.after 2).cw other = 0 := by
  obtain ⟨k, name, hpick, hname, hmax, happly⟩ := pick_loaded hi hj hlb
  have hint := pick_loaded_int hi hj hlb fun name => by rw [hcw, cwAt_empty]; norm_num
  have hlb' : (lb.pickWith id).2.nodes = loaded names i j := (nodes_pickWith lb).trans hlb
  obtain ⟨k', name', hpick', hname', hmax', happly'⟩ := pick_loaded hi hj hlb'
  simp only [happly, hcw, cwAt_empty] at hmax hmax' happly'
  have ha := List.mem_of_getElem? hi
  have hb := List.mem_of_getElem? hj
  -- the one that was picked has lost its turn, and the other one has two by now
  have hfirst : name = a ∨ name = b := by
    by_contra hnot
    rw [not_or] at hnot
    have hle := hmax a ha
    simp only [hab.symm, Ne.symm hnot.1, Ne.symm hnot.2, if_true, if_false] at hle
    omega
  have hsecond : name = a ∧ name' = b ∨ name = b ∧ name' = a := by
    rcases hfirst with rfl | rfl
    · refine .inl ⟨rfl, ?_⟩
      by_contra hnot
      have hle := hmax' b hb
      grind
    · refine .inr ⟨rfl, ?_⟩
      by_contra hnot
      have hle := hmax' a ha
      grind
  have hint' := pick_loaded_int hi hj hlb' fun other => by
    rw [happly, hcw, cwAt_empty]
    grind
  have hone : lb.after 1 = (lb.pickWith id).2 := by
    rw [after, afterWith, afterWith, hint]
  refine ⟨k, k', name, name', ?_, ?_, hname, hname', hsecond, fun other => ?_⟩
  · rw [picked, pickedWith, afterWith, hint, hpick]
  · rw [picked, pickedWith, ← after, hone, hint', hpick']
  · rw [after, afterWith, ← after, hone, hint', happly']
    grind

end Loaded

/-- Each node that has a weight has its turn again and again, if the names are distinct. -/
theorem pickedForever_loaded {names : List Str} (hnodup : names.Nodup) {i j : ℕ} (hij : i ≠ j) {a b : Str}
    (hi : names[i]? = some a) (hj : names[j]? = some b) {lb : LoadBalancer}
    (hlb : lb.nodes = loaded names i j) (hcw : lb.cw = ∅) : lb.PickedForever i ∧ lb.PickedForever j := by
  have hposition {k l : ℕ} {name : Str} (hk : names[k]? = some name) (hl : names[l]? = some name) : k = l :=
    (List.getElem?_inj (List.getElem?_eq_some_iff.1 hk).1 hnodup).1 (hk.trans hl.symm)
  have hab : a ≠ b := fun h => hij (hposition hi (h ▸ hj))
  obtain ⟨k, l, name, other, hk, hl, hname, hother, hnames, hzero⟩ :=
    picked_loaded_of_ne hi hj hlb hcw hab
  have hstart (name : Str) : cwAt (lb.after 2).cw name = cwAt lb.cw name := by
    rw [hzero, hcw, cwAt_empty]
  have hforever (t : ℕ) {p : ℕ} (ht : lb.picked t = some p) : lb.PickedForever p :=
    fun start => ⟨start * 2 + t, by omega, (picked_mul_add hstart start t).trans ht⟩
  rcases hnames with ⟨rfl, rfl⟩ | ⟨rfl, rfl⟩
  · rw [hposition hi hname, hposition hj hother]
    exact ⟨hforever 0 hk, hforever 1 hl⟩
  · rw [hposition hi hother, hposition hj hname]
    exact ⟨hforever 1 hl, hforever 0 hk⟩

/-! ## Two groups -/

theorem withNames_loaded {names names' : List Str} (hlength : names.length = names'.length) (i j : ℕ) :
    withNames (loaded names i j) names' = loaded names' i j := by
  refine List.ext_getElem (by simp [withNames, loaded, hlength]) fun k h₁ h₂ => ?_
  simp [withNames, loaded]

theorem withNames_fst (nodes : List BackendNode) (ns : List (Str × Str)) :
    withNames nodes (ns.map Prod.fst) = (nodes.zip ns).map first := by
  rw [withNames, List.zipWith_map_right, List.zip_eq_zipWith, List.map_zipWith]
  rfl

theorem withNames_snd (nodes : List BackendNode) (ns : List (Str × Str)) :
    withNames nodes (ns.map Prod.snd) = (nodes.zip ns).map second := by
  rw [withNames, List.zipWith_map_right, List.zip_eq_zipWith, List.map_zipWith]
  rfl

/-- Under distinct names nothing depends on what the names are. -/
theorem picked_withNames_eq {names names' : List Str} (hnodup : names.Nodup) (hnodup' : names'.Nodup)
    (hlength : names.length = names'.length) (nodes : List BackendNode) (t : ℕ) :
    (build (withNames nodes names)).picked t = (build (withNames nodes names')).picked t := by
  have halike : ∀ p ∈ names.zip names', ∀ q ∈ names.zip names', p.1 = q.1 ↔ p.2 = q.2 := by
    intro p hp q hq
    obtain ⟨k, hk, rfl⟩ := List.mem_iff_getElem.1 hp
    obtain ⟨l, hl, rfl⟩ := List.mem_iff_getElem.1 hq
    rw [List.getElem_zip, List.getElem_zip, hnodup.getElem_inj_iff, hnodup'.getElem_inj_iff]
  have hfst : (names.zip names').map Prod.fst = names := List.map_fst_zip hlength.le
  have hsnd : (names.zip names').map Prod.snd = names' := List.map_snd_zip hlength.ge
  have hfirst := withNames_fst nodes (names.zip names')
  have hsecond := withNames_snd nodes (names.zip names')
  rw [hfst] at hfirst
  rw [hsnd] at hsecond
  rw [build_eq, build_eq, hfirst, hsecond]
  exact Alike.picked_eq halike int (fun n hn => (List.of_mem_zip hn).2) rfl rfl (fun _ _ => rfl) t

/-- There are as many distinct names as one likes. -/
theorem exists_nodup (n : ℕ) : ∃ names : List Str, names.Nodup ∧ names.length = n := by
  refine ⟨(List.range n).map fun k => List.replicate k 0, List.Nodup.map (fun k l h => ?_) List.nodup_range,
    by rw [List.length_map, List.length_range]⟩
  rw [← List.length_replicate (n := k) (a := (0 : UInt8)), h, List.length_replicate]

/-- Where two nodes share their name, there are weights with which one of them is left out. -/
theorem picked_of_shared {names : List Str} (hshared : ¬names.Nodup) : ∃ i j a, i ≠ j ∧
    names[i]? = some a ∧ names[j]? = some a ∧
    ¬((build (loaded names i j)).PickedForever i ∧ (build (loaded names i j)).PickedForever j) := by
  obtain ⟨i, j, hij, hj, heq⟩ : ∃ i j, i < j ∧ ∃ hj : j < names.length, names[i]? = names[j]? := by
    by_contra hnot
    refine hshared (List.nodup_iff_getElem?_ne_getElem?.2 fun i j hij hj heq => ?_)
    exact hnot ⟨i, j, hij, hj, heq⟩
  obtain ⟨a, ha⟩ : ∃ a, names[j]? = some a := ⟨names[j], List.getElem?_eq_getElem hj⟩
  refine ⟨i, j, a, hij.ne, heq.trans ha, ha, fun ⟨hfirst, hsecond⟩ => ?_⟩
  have hlb : (build (loaded names i j)).nodes = loaded names i j := by rw [build_eq]
  have hcw : (build (loaded names i j)).cw = ∅ := by rw [build_eq]
  have hsame := picked_loaded_of_eq (heq.trans ha) ha hlb hcw rfl
  obtain ⟨t, -, ht⟩ := hfirst 0
  obtain ⟨u, -, hu⟩ := hsecond 0
  rw [hsame] at ht hu
  exact hij.ne (Option.some.inj (ht.symm.trans hu))

/-- For all weights, two groups of the same nodes under the first and under the second names pick alike, and a
node of positive weight that has its turn again and again under some distinct names has so in both, exactly
if the names in both are distinct. -/
theorem picked_alike_iff (ns : List (Str × Str)) :
    (∀ nodes : List BackendNode, nodes.length = ns.length → (∀ n ∈ nodes, n.healthy = true) →
      (∀ t, (build (withNames nodes (ns.map Prod.fst))).picked t =
        (build (withNames nodes (ns.map Prod.snd))).picked t) ∧
      ∀ i n, nodes[i]? = some n → 0 < n.weight → ∀ names : List Str, names.Nodup →
        names.length = ns.length → (build (withNames nodes names)).PickedForever i →
        (build (withNames nodes (ns.map Prod.fst))).PickedForever i ∧
          (build (withNames nodes (ns.map Prod.snd))).PickedForever i) ↔
    (ns.map Prod.fst).Nodup ∧ (ns.map Prod.snd).Nodup := by
  constructor
  · intro h
    obtain ⟨names, hnodup, hlength⟩ := exists_nodup ns.length
    -- the nodes that a shared name leaves out have their turns under distinct names
    have hturns {i j : ℕ} (hij : i ≠ j) (hi : i < ns.length) (hj : j < ns.length) :
        ∀ k, k = i ∨ k = j → (build (withNames (loaded names i j) (ns.map Prod.fst))).PickedForever k ∧
          (build (withNames (loaded names i j) (ns.map Prod.snd))).PickedForever k := by
      have hforever := pickedForever_loaded hnodup hij (List.getElem?_eq_getElem (hlength ▸ hi))
        (List.getElem?_eq_getElem (hlength ▸ hj)) (congrArg LoadBalancer.nodes (build_eq (loaded names i j)))
        (congrArg LoadBalancer.cw (build_eq (loaded names i j)))
      intro k hk
      have hklt : k < names.length := by rcases hk with rfl | rfl <;> omega
      refine (h (loaded names i j) (by simp [loaded, hlength]) healthy_loaded).2 k _
        (List.getElem?_eq_getElem (by simpa [loaded] using hklt)) ?_ names hnodup hlength ?_
      · simp only [loaded, List.getElem_mapIdx]
        rcases hk with rfl | rfl
        · rw [if_pos rfl, if_neg hij]
          decide
        · rw [if_neg hij.symm, if_pos rfl]
          decide
      · rw [withNames_loaded rfl]
        rcases hk with rfl | rfl
        · exact hforever.1
        · exact hforever.2
    constructor
    · by_contra hshared
      obtain ⟨i, j, a, hij, hi, hj, hleft⟩ := picked_of_shared hshared
      have hlt {k : ℕ} (hk : (ns.map Prod.fst)[k]? = some a) : k < ns.length := by
        simpa using (List.getElem?_eq_some_iff.1 hk).1
      have hforever := hturns hij (hlt hi) (hlt hj)
      have hfirst : withNames (loaded names i j) (ns.map Prod.fst) = loaded (ns.map Prod.fst) i j :=
        withNames_loaded (by simp [hlength]) i j
      rw [hfirst] at hforever
      exact hleft ⟨(hforever i (.inl rfl)).1, (hforever j (.inr rfl)).1⟩
    · by_contra hshared
      obtain ⟨i, j, a, hij, hi, hj, hleft⟩ := picked_of_shared hshared
      have hlt {k : ℕ} (hk : (ns.map Prod.snd)[k]? = some a) : k < ns.length := by
        simpa using (List.getElem?_eq_some_iff.1 hk).1
      have hforever := hturns hij (hlt hi) (hlt hj)
      have hsecond : withNames (loaded names i j) (ns.map Prod.snd) = loaded (ns.map Prod.snd) i j :=
        withNames_loaded (by simp [hlength]) i j
      rw [hsecond] at hforever
      exact hleft ⟨(hforever i (.inl rfl)).2, (hforever j (.inr rfl)).2⟩
  · rintro ⟨hfst, hsnd⟩ nodes - -
    refine ⟨picked_withNames_eq hfst hsnd (by simp) nodes, fun i n _ _ names hnodup hlength h => ⟨?_, ?_⟩⟩
    · intro start
      obtain ⟨t, ht, hpicked⟩ := h start
      exact ⟨t, ht, (picked_withNames_eq hfst hnodup (by simp [hlength]) nodes t).trans hpicked⟩
    · intro start
      obtain ⟨t, ht, hpicked⟩ := h start
      exact ⟨t, ht, (picked_withNames_eq hsnd hnodup (by simp [hlength]) nodes t).trans hpicked⟩

/-- A node of weight one, and a second one under a name of its own or under none. -/
def pair (name : Str) : LoadBalancer := build [{}, { name }]

theorem picked_pair (t : ℕ) : (pair []).picked t = some 0 := by
  have hlb : (pair []).nodes = loaded [[], []] 0 1 := by decide
  have hi : ([[], []] : List Str)[0]? = some [] := rfl
  have hj : ([[], []] : List Str)[1]? = some [] := rfl
  rw [picked_loaded_of_eq hi hj hlb rfl rfl t]
  rfl

/-- Of two nodes without a name the second one is never picked; if it had a name, it would have its turn. -/
theorem picked_pair_ne :
    (¬∀ t, (pair []).picked t = (pair (str "b")).picked t) ∧ ∀ t, (pair []).picked t ≠ some 1 := by
  refine ⟨fun h => ?_, fun t h => ?_⟩
  · have hsecond : (pair (str "b")).picked 1 = some 1 := rfl
    rw [← h, picked_pair] at hsecond
    cases hsecond
  · rw [picked_pair] at h
    cases h

end LoadBalancer

end LlmGateway
