import Mathlib.Algebra.BigOperators.Group.Finset.Basic
import Mathlib.Data.Finset.Card
import Mathlib.Data.List.Basic
import Mathlib.Data.List.Count
import Mathlib.Logic.Relation
import Mathlib.Tactic.Common

/-!
# A depth-first walk that marks what it reaches

The walk visits the nodes of a graph `next`, keeps a list of visited nodes, and acts on a state on
the way: before it follows an edge into a node that the state admits, it marks that node
(`mark`), whether or not the node was visited before.  Each call carries a payload.

The walk tests the state that it is changing, so nothing can be said about it in general.  When
an invariant `I` of the marks fixes the admitted nodes to a set `A` (`Walk.Admits`), then

* the walk returns once its fuel exceeds the number of admitted nodes (`visit_isSome`), and more
  fuel makes no difference (`visit_of_le`);
* what it does is a list of marks (`visit_sweep`): each of them is on an edge into `A` from a node
  reached from the root, and every edge into `A` from a newly visited node is among them;
* from an empty visited list, exactly the nodes of `A` reachable from the root through `A` are
  marked (`exists_marks_iff_reach`).

What every mark keeps, every walk keeps (`visit_invariant`).

A walk marks a node once for each edge into it, visited or not.  `Walk.logged` is the walk that also lists
the nodes it marks; it walks as the walk does (`visit_logged`), and it lists no node twice exactly if no two
edges from nodes it reaches lead into one node of `A` (`nodup_logged_iff`).
-/

variable {κ ρ σ : Type*}

/-- A graph to walk and what the walk does to the state. -/
structure Walk (κ ρ σ : Type*) where
  /-- The successors of a node, in the order in which they are tried. -/
  next : κ → List κ
  /-- Whether the state lets the walk into a node. -/
  admits : σ → κ → Bool
  /-- Mark the second node on the way from the first one. -/
  mark : σ → κ → κ → ρ → σ
  /-- The payload of the call for the second node, out of the call for the first one. -/
  pass : κ → κ → ρ → ρ

namespace Walk

variable (W : Walk κ ρ σ)

/-- One mark of a walk: from a node, into a node, with a payload. -/
structure Mark (κ ρ : Type*) where
  src : κ
  dst : κ
  payload : ρ

/-- The state after a list of marks. -/
def marks (s : σ) (ms : List (Mark κ ρ)) : σ :=
  ms.foldl (fun s m => W.mark s m.src m.dst m.payload) s

theorem marks_append (s : σ) (ms ms' : List (Mark κ ρ)) :
    W.marks s (ms ++ ms') = W.marks (W.marks s ms) ms' := by
  simp [marks]

/-- An edge into `A`. -/
def Edge (A : κ → Prop) (a b : κ) : Prop := b ∈ W.next a ∧ A b

/-- `I` is kept by the marks on nodes of `A`, and where it holds the nodes of `A` are the admitted
ones. -/
structure Admits (I : σ → Prop) (A : κ → Prop) : Prop where
  admits_iff : ∀ {s}, I s → ∀ d, W.admits s d = true ↔ A d
  mark : ∀ {s}, I s → ∀ a d r, A d → I (W.mark s a d r)

variable {W} {I : σ → Prop} {A : κ → Prop}

theorem Admits.marks (h : W.Admits I A) {s : σ} (hs : I s) {ms : List (Mark κ ρ)}
    (hms : ∀ m ∈ ms, A m.dst) : I (W.marks s ms) := by
  induction ms generalizing s with
  | nil => exact hs
  | cons m ms ih =>
      have hm : I (W.mark s m.src m.dst m.payload) := h.mark hs _ _ _ (hms m (by simp))
      exact ih hm fun m' hm' => hms m' (by simp [hm'])

/-! ## What a walk does -/

variable (W A) in
/-- What a part of a walk below `root` does: it goes from `w` to `w'` by the marks `ms`. -/
structure Sweep (root : κ) (w w' : σ × List κ) (ms : List (Mark κ ρ)) : Prop where
  state : w'.1 = W.marks w.1 ms
  sound : ∀ m ∈ ms, Relation.ReflTransGen (W.Edge A) root m.src ∧ W.Edge A m.src m.dst
  mono : w.2 ⊆ w'.2
  visited : ∀ a ∈ w'.2, a ∈ w.2 ∨ Relation.ReflTransGen (W.Edge A) root a
  closed : ∀ a ∈ w'.2, a ∉ w.2 → ∀ b, W.Edge A a b → b ∈ w'.2 ∧ ∃ m ∈ ms, m.dst = b

theorem Sweep.refl (root : κ) (w : σ × List κ) : W.Sweep A root w w [] where
  state := rfl
  sound := by simp
  mono := List.Subset.refl _
  visited _ h := Or.inl h
  closed _ h h' := absurd h h'

theorem Sweep.trans {root : κ} {w w' w'' : σ × List κ} {ms ms' : List (Mark κ ρ)}
    (h : W.Sweep A root w w' ms) (h' : W.Sweep A root w' w'' ms') :
    W.Sweep A root w w'' (ms ++ ms') where
  state := by rw [h'.state, h.state, marks_append]
  sound m hm := by
    rcases List.mem_append.1 hm with hm | hm
    · exact h.sound m hm
    · exact h'.sound m hm
  mono := List.Subset.trans h.mono h'.mono
  visited a ha := by
    rcases h'.visited a ha with ha | ha
    · exact h.visited a ha
    · exact Or.inr ha
  closed a ha hn b hb := by
    by_cases ha' : a ∈ w'.2
    · obtain ⟨hb', m, hm, e⟩ := h.closed a ha' hn b hb
      exact ⟨h'.mono hb', m, List.mem_append_left _ hm, e⟩
    · obtain ⟨hb', m, hm, e⟩ := h'.closed a ha ha' b hb
      exact ⟨hb', m, List.mem_append_right _ hm, e⟩

/-- A sweep below a node reached from `root` is a sweep below `root`. -/
theorem Sweep.of_reach {root d : κ} {w w' : σ × List κ} {ms : List (Mark κ ρ)}
    (h : W.Sweep A d w w' ms) (hd : Relation.ReflTransGen (W.Edge A) root d) :
    W.Sweep A root w w' ms where
  state := h.state
  sound m hm := ⟨hd.trans (h.sound m hm).1, (h.sound m hm).2⟩
  mono := h.mono
  visited a ha := (h.visited a ha).imp_right hd.trans
  closed := h.closed

/-- A mark on an edge out of `root`. -/
theorem Sweep.mark {root d : κ} (w : σ × List κ) (r : ρ) (hd : W.Edge A root d) :
    W.Sweep A root w (W.mark w.1 root d r, w.2) [⟨root, d, r⟩] where
  state := rfl
  sound m hm := by
    obtain rfl := List.mem_singleton.1 hm
    exact ⟨.refl, hd⟩
  mono := List.Subset.refl _
  visited _ h := Or.inl h
  closed _ h h' := absurd h h'

/-- From an empty visited list the visited nodes are those reached from the root through `A`. -/
theorem Sweep.mem_visited_iff {k : κ} {s : σ} {w' : σ × List κ} {ms : List (Mark κ ρ)}
    (hs : W.Sweep A k (s, []) w' ms) (hk : k ∈ w'.2) (a : κ) :
    a ∈ w'.2 ↔ Relation.ReflTransGen (W.Edge A) k a := by
  refine ⟨fun ha => (hs.visited a ha).resolve_left (by simp), fun ha => ?_⟩
  induction ha with
  | refl => exact hk
  | tail _ hab ih => exact (hs.closed _ ih (by simp) _ hab).1

/-! ## The walk -/

variable [DecidableEq κ]

variable (W) in
/-- Visit `k` with payload `r`, from a state and a list of visited nodes. -/
def visit : ℕ → κ → ρ → σ × List κ → Option (σ × List κ)
  | 0, _, _, _ => none
  | n + 1, k, r, w =>
      if k ∈ w.2 then some w
      else
        (W.next k).foldlM (fun w d =>
          if W.admits w.1 d then visit n d (W.pass k d r) (W.mark w.1 k d r, w.2) else some w)
          (w.1, w.2 ++ [k])

variable (W) in
/-- What the loop of a visit to `k` does at the successor `d`. -/
def follow (n : ℕ) (k : κ) (r : ρ) (w : σ × List κ) (d : κ) : Option (σ × List κ) :=
  if W.admits w.1 d then W.visit n d (W.pass k d r) (W.mark w.1 k d r, w.2) else some w

theorem visit_succ (n : ℕ) (k : κ) (r : ρ) (w : σ × List κ) : W.visit (n + 1) k r w =
    if k ∈ w.2 then some w else (W.next k).foldlM (W.follow n k r) (w.1, w.2 ++ [k]) := rfl

theorem follow_pos {n : ℕ} {k d : κ} {r : ρ} {w : σ × List κ} (h : W.admits w.1 d = true) :
    W.follow n k r w d = W.visit n d (W.pass k d r) (W.mark w.1 k d r, w.2) := if_pos h

theorem follow_neg {n : ℕ} {k d : κ} {r : ρ} {w : σ × List κ} (h : ¬W.admits w.1 d = true) :
    W.follow n k r w d = some w := if_neg h

theorem foldlM_follow_cons {n : ℕ} {k d : κ} {ds : List κ} {r : ρ} {w w' : σ × List κ} :
    (d :: ds).foldlM (W.follow n k r) w = some w' ↔
      ∃ w₁, W.follow n k r w d = some w₁ ∧ ds.foldlM (W.follow n k r) w₁ = some w' := by
  rw [List.foldlM_cons, Option.bind_eq_bind, Option.bind_eq_some_iff]

/-- The loop over the successors `ds` of `k`: a sweep below `k` that marks and visits every admitted
successor, if the recursive calls are sweeps. -/
theorem sweep_loop (hA : W.Admits I A) {n : ℕ} {k : κ} {r : ρ}
    (ih : ∀ {d r' w w'}, I w.1 → W.visit n d r' w = some w' →
      d ∈ w'.2 ∧ ∃ ms, W.Sweep A d w w' ms) :
    ∀ (ds : List κ) {w w' : σ × List κ}, (∀ d ∈ ds, d ∈ W.next k) → I w.1 →
      ds.foldlM (W.follow n k r) w = some w' →
      ∃ ms, W.Sweep A k w w' ms ∧ ∀ d ∈ ds, A d → d ∈ w'.2 ∧ ∃ m ∈ ms, m.dst = d
  | [], w, w', _, _, h => by
      obtain rfl : w = w' := by simpa using h
      exact ⟨[], Sweep.refl k w, by simp⟩
  | d :: ds, w, w', hds, hI, h => by
      obtain ⟨w₁, h₁, h₂⟩ := foldlM_follow_cons.1 h
      have hds' : ∀ d' ∈ ds, d' ∈ W.next k := fun d' hd' => hds d' (by simp [hd'])
      by_cases had : W.admits w.1 d = true
      · -- the edge to `d` is marked and `d` is visited
        rw [follow_pos had] at h₁
        have hAd : A d := (hA.admits_iff hI d).1 had
        have hEd : W.Edge A k d := ⟨hds d (by simp), hAd⟩
        obtain ⟨hmem, ms₁, hs₁⟩ := ih (hA.mark hI k d r hAd) h₁
        have hs₁' : W.Sweep A k w w₁ (⟨k, d, r⟩ :: ms₁) :=
          (Sweep.mark w r hEd).trans (hs₁.of_reach (Relation.ReflTransGen.single hEd))
        have hI₁ : I w₁.1 := by
          rw [hs₁'.state]
          exact hA.marks hI fun m hm => (hs₁'.sound m hm).2.2
        obtain ⟨ms₂, hs₂, hall⟩ := sweep_loop hA ih ds hds' hI₁ h₂
        refine ⟨_, hs₁'.trans hs₂, fun d' hd' hAd' => ?_⟩
        rcases List.mem_cons.1 hd' with rfl | hd'
        · exact ⟨hs₂.mono hmem, ⟨k, d', r⟩, by simp, rfl⟩
        · obtain ⟨hv, m, hm, e⟩ := hall d' hd' hAd'
          exact ⟨hv, m, List.mem_append_right _ hm, e⟩
      · -- the state does not admit `d`, so `d` is not in `A`
        rw [follow_neg had] at h₁
        obtain rfl : w = w₁ := Option.some.inj h₁
        obtain ⟨ms, hs, hall⟩ := sweep_loop hA ih ds hds' hI h₂
        refine ⟨ms, hs, fun d' hd' hAd' => ?_⟩
        rcases List.mem_cons.1 hd' with rfl | hd'
        · exact absurd ((hA.admits_iff hI d').2 hAd') had
        · exact hall d' hd' hAd'

/-- A walk from `k` is a sweep below `k`, after which `k` is visited. -/
theorem visit_sweep (hA : W.Admits I A) {n : ℕ} {k : κ} {r : ρ} {w w' : σ × List κ} (hI : I w.1)
    (h : W.visit n k r w = some w') : k ∈ w'.2 ∧ ∃ ms, W.Sweep A k w w' ms := by
  induction n generalizing k r w w' with
  | zero => simp [visit] at h
  | succ n ih =>
      rw [visit_succ] at h
      split_ifs at h with hk
      · obtain rfl : w = w' := by simpa using h
        exact ⟨hk, [], Sweep.refl k w⟩
      · obtain ⟨ms, hs, hall⟩ := sweep_loop hA (fun hI h => ih hI h) (W.next k)
          (fun _ hd => hd) (show I (w.1, w.2 ++ [k]).1 from hI) h
        refine ⟨hs.mono (by simp), ms, hs.state, hs.sound, fun a ha => hs.mono (by simp [ha]),
          fun a ha => ?_, fun a ha hn b hb => ?_⟩
        · rcases hs.visited a ha with ha | ha
          · rcases List.mem_append.1 ha with ha | ha
            · exact Or.inl ha
            · exact Or.inr (by rw [List.mem_singleton.1 ha])
          · exact Or.inr ha
        · by_cases hak : a = k
          · subst hak
            exact hall b hb.1 hb.2
          · exact hs.closed a ha (by simp [hn, hak]) b hb

/-- From an empty visited list the marked nodes are those reachable from the root through `A`. -/
theorem exists_marks_iff_reach (hA : W.Admits I A) {n : ℕ} {k : κ} {r : ρ} {s : σ}
    {w' : σ × List κ} (hI : I s) (h : W.visit n k r (s, []) = some w') :
    ∃ ms, w'.1 = W.marks s ms ∧
      ∀ d, (∃ m ∈ ms, m.dst = d) ↔ Relation.TransGen (W.Edge A) k d := by
  obtain ⟨hk, ms, hs⟩ := visit_sweep hA hI h
  refine ⟨ms, hs.state, fun d => ⟨?_, fun hd => ?_⟩⟩
  · rintro ⟨m, hm, rfl⟩
    obtain ⟨hsrc, hedge⟩ := hs.sound m hm
    exact Relation.TransGen.tail' hsrc hedge
  · obtain ⟨a, ha, had⟩ := Relation.TransGen.tail'_iff.1 hd
    exact (hs.closed a ((hs.mem_visited_iff hk a).2 ha) (by simp) d had).2

/-- What every mark keeps, the walk keeps, if the payloads with which nodes are called satisfy `Q`. -/
theorem visit_invariant {J : σ → Prop} {Q : κ → ρ → Prop}
    (hmark : ∀ s a d r, J s → Q a r → d ∈ W.next a → J (W.mark s a d r))
    (hpass : ∀ a d r, Q a r → d ∈ W.next a → Q d (W.pass a d r))
    {n : ℕ} {k : κ} {r : ρ} {w w' : σ × List κ} (hJ : J w.1) (hQ : Q k r)
    (h : W.visit n k r w = some w') : J w'.1 := by
  induction n generalizing k r w w' with
  | zero => simp [visit] at h
  | succ n ih =>
      rw [visit_succ] at h
      split_ifs at h
      · obtain rfl : w = w' := by simpa using h
        exact hJ
      · have loop : ∀ (ds : List κ) (w₁ : σ × List κ), (∀ d ∈ ds, d ∈ W.next k) → J w₁.1 →
            ds.foldlM (W.follow n k r) w₁ = some w' → J w'.1 := by
          intro ds
          induction ds with
          | nil =>
            intro w₁ _ hJ₁ h₁
            obtain rfl : w₁ = w' := by simpa using h₁
            exact hJ₁
          | cons d ds ihds =>
              intro w₁ hds hJ₁ h₁
              obtain ⟨w₂, h₂, h₃⟩ := foldlM_follow_cons.1 h₁
              have hd : d ∈ W.next k := hds d (by simp)
              refine ihds w₂ (fun d' hd' => hds d' (by simp [hd'])) ?_ h₃
              by_cases had : W.admits w₁.1 d = true
              · rw [follow_pos had] at h₂
                exact ih (hmark _ _ _ _ hJ₁ hQ hd) (hpass _ _ _ hQ hd) h₂
              · rw [follow_neg had] at h₂
                obtain rfl : w₁ = w₂ := Option.some.inj h₂
                exact hJ₁
        exact loop (W.next k) (w.1, w.2 ++ [k]) (fun _ hd => hd) hJ h

/-! ## Termination -/

/-- The nodes of `A` that are not visited yet. -/
def unvisited (A : Finset κ) (vis : List κ) : Finset κ := A.filter fun a => a ∉ vis

theorem card_unvisited_le_card (A : Finset κ) (vis : List κ) : (unvisited A vis).card ≤ A.card :=
  Finset.card_filter_le _ _

theorem card_unvisited_le {A : Finset κ} {vis vis' : List κ} (h : vis ⊆ vis') :
    (unvisited A vis').card ≤ (unvisited A vis).card := by
  refine Finset.card_le_card fun a ha => ?_
  simp only [unvisited, Finset.mem_filter] at ha ⊢
  exact ⟨ha.1, fun hv => ha.2 (h hv)⟩

theorem card_unvisited_lt {A : Finset κ} {vis : List κ} {d : κ} (hd : d ∈ A) (hn : d ∉ vis) :
    (unvisited A (vis ++ [d])).card < (unvisited A vis).card := by
  refine Finset.card_lt_card (Finset.ssubset_iff_of_subset ?_ |>.2 ⟨d, ?_, ?_⟩)
  · intro a ha
    simp only [unvisited, Finset.mem_filter, List.mem_append, not_or] at ha ⊢
    exact ⟨ha.1, ha.2.1⟩
  · simp [unvisited, hd, hn]
  · simp [unvisited]

/-- The walk returns when its fuel exceeds the number of admitted nodes that are left by two. -/
theorem visit_isSome {A : Finset κ} (hA : W.Admits I (· ∈ A)) :
    ∀ (n : ℕ) {k : κ} {r : ρ} {w : σ × List κ}, I w.1 →
      k ∈ w.2 ∧ 1 ≤ n ∨ (unvisited A (w.2 ++ [k])).card + 2 ≤ n →
      (W.visit n k r w).isSome
  | 0, _, _, _, _, h => by omega
  | n + 1, k, r, w, hI, h => by
      rw [visit_succ]
      split_ifs with hk
      · rfl
      · have hn : (unvisited A (w.2 ++ [k])).card + 1 ≤ n := by
          rcases h with h | h
          · exact absurd h.1 hk
          · omega
        -- along the loop the visited list only grows, so the fuel stays sufficient
        have loop : ∀ (ds : List κ) (w₁ : σ × List κ), I w₁.1 → w.2 ++ [k] ⊆ w₁.2 →
            (ds.foldlM (W.follow n k r) w₁).isSome := by
          intro ds
          induction ds with
          | nil => intro w₁ _ _; rfl
          | cons d ds ih =>
              intro w₁ hI₁ hsub
              rw [List.foldlM_cons]
              by_cases had : W.admits w₁.1 d = true
              · rw [follow_pos had]
                have hAd : d ∈ A := (hA.admits_iff hI₁ d).1 had
                have hI₂ := hA.mark hI₁ k d r hAd
                have hsome : (W.visit n d (W.pass k d r) (W.mark w₁.1 k d r, w₁.2)).isSome := by
                  refine visit_isSome hA n hI₂ ?_
                  by_cases hd : d ∈ w₁.2
                  · exact Or.inl ⟨hd, by omega⟩
                  · have h₁ := card_unvisited_le (A := A) hsub
                    have h₂ := card_unvisited_lt hAd hd
                    exact Or.inr (by simp only; omega)
                obtain ⟨w₂, hw₂⟩ := Option.isSome_iff_exists.1 hsome
                obtain ⟨-, ms, hs⟩ := visit_sweep hA hI₂ hw₂
                rw [hw₂]
                refine ih w₂ ?_ (List.Subset.trans hsub hs.mono)
                rw [hs.state]
                exact hA.marks hI₂ fun m hm => (hs.sound m hm).2.2
              · rw [follow_neg had]
                exact ih w₁ hI₁ hsub
        exact loop _ _ hI (List.Subset.refl _)

/-- More fuel does not change what a walk that returned did. -/
theorem visit_of_le {n n' : ℕ} (hn : n ≤ n') {k : κ} {r : ρ} {w w' : σ × List κ}
    (h : W.visit n k r w = some w') : W.visit n' k r w = some w' := by
  induction n generalizing n' k r w w' with
  | zero => simp [visit] at h
  | succ n ih =>
      obtain ⟨n', rfl⟩ : ∃ m, n' = m + 1 := ⟨n' - 1, by omega⟩
      rw [visit_succ] at h ⊢
      split_ifs at h ⊢ with hk
      · exact h
      · generalize (w.1, w.2 ++ [k]) = w₁, W.next k = ds at h ⊢
        induction ds generalizing w₁ with
        | nil => exact h
        | cons d ds ihds =>
            obtain ⟨w₂, h₂, h₃⟩ := foldlM_follow_cons.1 h
            refine foldlM_follow_cons.2 ⟨w₂, ?_, ihds w₂ h₃⟩
            by_cases had : W.admits w₁.1 d = true
            · rw [follow_pos had] at h₂ ⊢
              exact ih (by omega) h₂
            · rw [follow_neg had] at h₂ ⊢
              exact h₂

/-! ## How often a node is marked -/

variable (W) in
/-- The walk that also lists the nodes it marks. -/
def logged : Walk κ ρ (σ × List κ) where
  next := W.next
  admits s d := W.admits s.1 d
  mark s a d r := (W.mark s.1 a d r, s.2 ++ [d])
  pass := W.pass

omit [DecidableEq κ] in
theorem logged_marks (s : σ × List κ) (ms : List (Mark κ ρ)) :
    W.logged.marks s ms = (W.marks s.1 ms, s.2 ++ ms.map Mark.dst) := by
  induction ms generalizing s with
  | nil => simp [marks]
  | cons m ms ih =>
      rw [marks, List.foldl_cons, ← marks, ih]
      simp [marks, logged]

omit [DecidableEq κ] in
theorem Admits.logged (hA : W.Admits I A) : W.logged.Admits (fun s => I s.1) A where
  admits_iff hI d := hA.admits_iff hI d
  mark hI a d r hd := hA.mark hI a d r hd

/-- Without its list the logged walk is the walk. -/
theorem visit_logged (n : ℕ) (k : κ) (r : ρ) (w : (σ × List κ) × List κ) :
    (W.logged.visit n k r w).map (fun w => (w.1.1, w.2)) = W.visit n k r (w.1.1, w.2) := by
  induction n generalizing k r w with
  | zero => rfl
  | succ n ih =>
      have hfollow : ∀ (w : (σ × List κ) × List κ) (d : κ),
          (W.logged.follow n k r w d).map (fun w => (w.1.1, w.2)) = W.follow n k r (w.1.1, w.2) d := by
        intro w d
        by_cases had : W.logged.admits w.1 d = true
        · have hvisit : W.follow n k r (w.1.1, w.2) d =
              W.visit n d (W.pass k d r) (W.mark w.1.1 k d r, w.2) := follow_pos had
          rw [follow_pos had, hvisit]
          exact ih d _ _
        · have hstay : W.follow n k r (w.1.1, w.2) d = some (w.1.1, w.2) := follow_neg had
          rw [follow_neg had, hstay]
          rfl
      have loop : ∀ (ds : List κ) (w : (σ × List κ) × List κ),
          (ds.foldlM (W.logged.follow n k r) w).map (fun w => (w.1.1, w.2)) =
            ds.foldlM (W.follow n k r) (w.1.1, w.2) := by
        intro ds
        induction ds with
        | nil => intro w; rfl
        | cons d ds ihds =>
            intro w
            rw [List.foldlM_cons, List.foldlM_cons, ← hfollow]
            cases W.logged.follow n k r w d with
            | none => rfl
            | some w₁ => exact ihds w₁
      rw [visit_succ, visit_succ]
      dsimp only
      split_ifs
      · rfl
      · exact loop (W.next k) (w.1, w.2 ++ [k])

variable [DecidablePred A]

variable (W A) in
/-- The successors in `A` of a list of nodes. -/
def into (as : List κ) : List κ := as.flatMap fun a => (W.next a).filter A

omit [DecidableEq κ] in
theorem into_append (as bs : List κ) : W.into A (as ++ bs) = W.into A as ++ W.into A bs :=
  List.flatMap_append

/-- The loop over the successors `ds` of a node lists those in `A`, and what the recursive calls list. -/
theorem loop_log (hA : W.Admits I A) {n : ℕ} {k : κ} {r : ρ}
    (ih : ∀ {d r' w w'}, I w.1.1 → W.logged.visit n d r' w = some w' →
      ∃ new, w'.2 = w.2 ++ new ∧ (w.2.Nodup → w'.2.Nodup) ∧ w'.1.2.Perm (w.1.2 ++ W.into A new)) :
    ∀ (ds : List κ) {w w' : (σ × List κ) × List κ}, I w.1.1 →
      ds.foldlM (W.logged.follow n k r) w = some w' →
      ∃ new, w'.2 = w.2 ++ new ∧ (w.2.Nodup → w'.2.Nodup) ∧
        w'.1.2.Perm (w.1.2 ++ ds.filter A ++ W.into A new)
  | [], w, w', _, h => by
      obtain rfl : w = w' := by simpa using h
      exact ⟨[], by simp, id, by simp [into]⟩
  | d :: ds, w, w', hI, h => by
      obtain ⟨w₁, h₁, h₂⟩ := foldlM_follow_cons.1 h
      by_cases had : W.logged.admits w.1 d = true
      · -- `d` is listed, then what its visit lists, then the rest
        rw [follow_pos had] at h₁
        have hAd : A d := (hA.admits_iff hI d).1 had
        have hI' : I (W.logged.mark w.1 k d r).1 := hA.mark hI k d r hAd
        obtain ⟨new₁, hnew₁, hnodup₁, hlog₁⟩ := ih hI' h₁
        have hI₁ : I w₁.1.1 := by
          obtain ⟨-, ms, hs⟩ := visit_sweep hA.logged hI' h₁
          rw [hs.state]
          exact hA.logged.marks hI' fun m hm => (hs.sound m hm).2.2
        obtain ⟨new₂, hnew₂, hnodup₂, hlog₂⟩ := loop_log hA ih ds hI₁ h₂
        refine ⟨new₁ ++ new₂, by rw [hnew₂, hnew₁, List.append_assoc], hnodup₂ ∘ hnodup₁, ?_⟩
        refine hlog₂.trans ?_
        rw [List.filter_cons, if_pos (decide_eq_true hAd), into_append, List.perm_iff_count]
        intro a
        have hcount := hlog₁.count_eq a
        simp only [logged, List.count_append, List.count_cons, List.count_nil] at hcount ⊢
        omega
      · -- the state does not admit `d`, so `d` is not in `A`
        rw [follow_neg had] at h₁
        obtain rfl : w = w₁ := Option.some.inj h₁
        have hAd : ¬A d := fun h => had ((hA.admits_iff hI d).2 h)
        obtain ⟨new, hnew, hnodup, hlog⟩ := loop_log hA ih ds hI h₂
        rw [List.filter_cons, if_neg (by simpa using hAd)]
        exact ⟨new, hnew, hnodup, hlog⟩

/-- A walk lists, up to order, the successors in `A` of the nodes that it visits first. -/
theorem visit_log (hA : W.Admits I A) {n : ℕ} {k : κ} {r : ρ} {w w' : (σ × List κ) × List κ}
    (hI : I w.1.1) (h : W.logged.visit n k r w = some w') :
    ∃ new, w'.2 = w.2 ++ new ∧ (w.2.Nodup → w'.2.Nodup) ∧ w'.1.2.Perm (w.1.2 ++ W.into A new) := by
  induction n generalizing k r w w' with
  | zero => simp [visit] at h
  | succ n ih =>
      rw [visit_succ] at h
      split_ifs at h with hk
      · obtain rfl : w = w' := by simpa using h
        exact ⟨[], by simp, id, by simp [into]⟩
      · obtain ⟨new, hnew, hnodup, hlog⟩ := loop_log hA (fun hI h => ih hI h) (W.next k)
          (show I (w.1, w.2 ++ [k]).1.1 from hI) h
        refine ⟨k :: new, by rw [hnew, List.append_assoc, List.singleton_append], fun hw => ?_, ?_⟩
        · exact hnodup (List.nodup_append.2 ⟨hw, List.nodup_singleton k, by
            rintro a ha b hb rfl
            exact hk (List.mem_singleton.1 hb ▸ ha)⟩)
        · rw [into, List.flatMap_cons, ← List.append_assoc]
          exact hlog

/-- From an empty visited list, no node is marked twice exactly if no node of `A` is a successor of two of the
nodes reached, or twice a successor of one. -/
theorem nodup_logged_iff (hA : W.Admits I A) {n : ℕ} {k : κ} {r : ρ} {s : σ}
    {w' : (σ × List κ) × List κ} (hI : I s) (h : W.logged.visit n k r ((s, []), []) = some w') :
    w'.1.2.Nodup ↔
      (∀ a, Relation.ReflTransGen (W.Edge A) k a → ((W.next a).filter A).Nodup) ∧
      ∀ a b d, Relation.ReflTransGen (W.Edge A) k a → Relation.ReflTransGen (W.Edge A) k b →
        W.Edge A a d → W.Edge A b d → a = b := by
  obtain ⟨new, hnew, hnodup, hlog⟩ := visit_log hA hI h
  obtain ⟨hk, ms, hs⟩ := visit_sweep hA.logged hI h
  have hreach : ∀ a, a ∈ new ↔ Relation.ReflTransGen (W.Edge A) k a := by
    intro a
    have hvisited : a ∈ w'.2 ↔ Relation.ReflTransGen (W.Edge A) k a := hs.mem_visited_iff hk a
    rw [← hvisited, hnew, List.nil_append]
  have hnew' : new.Nodup := by
    have hw' := hnodup List.nodup_nil
    rwa [hnew] at hw'
  rw [hlog.nodup_iff, List.nil_append, into, List.nodup_flatMap]
  simp only [hreach]
  refine and_congr_right fun _ => ⟨fun hdisj a b d ha hb had hbd => ?_, fun honce => ?_⟩
  · by_contra hab
    have : Std.Symm (Function.onFun List.Disjoint fun a => (W.next a).filter A) := ⟨fun _ _ h => h.symm⟩
    exact hdisj.forall ((hreach a).2 ha) ((hreach b).2 hb) hab (List.mem_filter.2 ⟨had.1, decide_eq_true had.2⟩)
      (List.mem_filter.2 ⟨hbd.1, decide_eq_true hbd.2⟩)
  · refine hnew'.pairwise_of_forall_ne fun a ha b hb hab d had hbd => hab ?_
    have hd : A d := of_decide_eq_true (List.mem_filter.1 had).2
    exact honce a b d ((hreach a).1 ha) ((hreach b).1 hb) ⟨(List.mem_filter.1 had).1, hd⟩
      ⟨(List.mem_filter.1 hbd).1, hd⟩

end Walk
