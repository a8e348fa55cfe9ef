import LlmGateway.Lib.AssocMap

/-!
# Inverse indexes

A relation `R` between keys and targets is looked up by target in a map from targets to lists of
keys.  `drop`, `dropFound` and `add` are the updates of one list for one key, as they are written
for a hash map of vectors; `Exact` says that the lists are the inverse of `R` and hold no key
twice.  Dropping a key from the lists of all its targets and adding it to the lists of new ones
keeps an index exact (`Exact.drop`, `Exact.dropFound`, `Exact.add`).

An index can also be built from the keys and their targets, pushing each key to the list of each of
its targets.  `exact_pushAll_iff` says when the result is exact.
-/

namespace InverseIndex

variable {δ κ : Type*} [DecidableEq δ]

/-- The list under a target, empty when the map has none. -/
def listAt (ix : AList fun _ : δ => List κ) (d : δ) : List κ := (ix.lookup d).getD []

/-- The lists are the inverse of `R`, without repetition. -/
def Exact (ix : AList fun _ : δ => List κ) (R : κ → δ → Prop) : Prop :=
  ∀ d, (∀ k, k ∈ listAt ix d ↔ R k d) ∧ (listAt ix d).Nodup

theorem listAt_insert (ix : AList fun _ : δ => List κ) (d d' : δ) (v : List κ) :
    listAt (ix.insert d v) d' = if d' = d then v else listAt ix d' := by
  by_cases h : d' = d
  · subst h
    simp [listAt]
  · simp [listAt, h]

theorem Exact.congr {ix : AList fun _ : δ => List κ} {R R' : κ → δ → Prop} (h : Exact ix R)
    (hR : ∀ k d, R k d ↔ R' k d) : Exact ix R' :=
  fun d => ⟨fun k => ((h d).1 k).trans (hR k d), (h d).2⟩

theorem exact_empty : Exact (∅ : AList fun _ : δ => List κ) fun _ _ => False := by
  intro d
  simp [listAt]

/-! ## Updates for one key -/

variable [DecidableEq κ]

/-- Drop `k` from the list under `d`, which is created when it is missing. -/
def drop (k : κ) (ix : AList fun _ : δ => List κ) (d : δ) : AList fun _ : δ => List κ :=
  ix.insert d ((listAt ix d).filter (· ≠ k))

/-- Drop `k` from the list under `d`, if there is one. -/
def dropFound (k : κ) (ix : AList fun _ : δ => List κ) (d : δ) : AList fun _ : δ => List κ :=
  match ix.lookup d with
  | some v => ix.insert d (v.filter (· ≠ k))
  | none => ix

/-- Add `k` at the end of the list under `d`, unless it is there. -/
def add (k : κ) (ix : AList fun _ : δ => List κ) (d : δ) : AList fun _ : δ => List κ :=
  ix.insert d (if k ∈ listAt ix d then listAt ix d else listAt ix d ++ [k])

theorem listAt_drop (k : κ) (ix : AList fun _ : δ => List κ) (d d' : δ) :
    listAt (drop k ix d) d' = if d' = d then (listAt ix d').filter (· ≠ k) else listAt ix d' := by
  rw [drop, listAt_insert]
  split_ifs with h
  · rw [h]
  · rfl

/-- The two ways of dropping leave the same lists. -/
theorem listAt_dropFound (k : κ) (ix : AList fun _ : δ => List κ) (d d' : δ) :
    listAt (dropFound k ix d) d' = listAt (drop k ix d) d' := by
  rw [listAt_drop]
  unfold dropFound
  cases h : ix.lookup d with
  | none =>
    by_cases hd : d' = d
    · subst hd
      simp [listAt, h]
    · simp [hd]
  | some v =>
    rw [listAt_insert]
    split_ifs with hd
    · subst hd
      simp [listAt, h]
    · rfl

theorem listAt_foldl_drop (k : κ) (ds : List δ) (ix : AList fun _ : δ => List κ) (d : δ) :
    listAt (ds.foldl (drop k) ix) d =
      if d ∈ ds then (listAt ix d).filter (· ≠ k) else listAt ix d := by
  induction ds generalizing ix with
  | nil => simp
  | cons d₀ ds ih =>
      rw [List.foldl_cons, ih, listAt_drop]
      by_cases h₀ : d = d₀ <;> by_cases h : d ∈ ds <;> simp [h₀, h]

theorem listAt_foldl_dropFound (k : κ) (ds : List δ) (ix : AList fun _ : δ => List κ) (d : δ) :
    listAt (ds.foldl (dropFound k) ix) d =
      if d ∈ ds then (listAt ix d).filter (· ≠ k) else listAt ix d := by
  induction ds generalizing ix with
  | nil => simp
  | cons d₀ ds ih =>
      rw [List.foldl_cons, ih, listAt_dropFound, listAt_drop]
      by_cases h₀ : d = d₀ <;> by_cases h : d ∈ ds <;> simp [h₀, h]

theorem listAt_add (k : κ) (ix : AList fun _ : δ => List κ) (d d' : δ) :
    listAt (add k ix d) d' =
      if d' = d ∧ k ∉ listAt ix d' then listAt ix d' ++ [k] else listAt ix d' := by
  rw [add, listAt_insert]
  by_cases hd : d' = d
  · subst hd
    by_cases hk : k ∈ listAt ix d' <;> simp [hk]
  · simp [hd]

theorem listAt_foldl_add (k : κ) (ds : List δ) (ix : AList fun _ : δ => List κ) (d : δ) :
    listAt (ds.foldl (add k) ix) d =
      if d ∈ ds ∧ k ∉ listAt ix d then listAt ix d ++ [k] else listAt ix d := by
  induction ds generalizing ix with
  | nil => simp
  | cons d₀ ds ih =>
      rw [List.foldl_cons, ih, listAt_add]
      by_cases hk : k ∈ listAt ix d
      · simp [hk]
      · by_cases h₀ : d = d₀
        · subst h₀
          simp [hk]
        · simp [h₀]

theorem mem_foldl_drop (k : κ) (ds : List δ) (ix : AList fun _ : δ => List κ) (d : δ) :
    d ∈ ds.foldl (drop k) ix ↔ d ∈ ds ∨ d ∈ ix := by
  induction ds generalizing ix with
  | nil => simp
  | cons d₀ ds ih =>
      rw [List.foldl_cons, ih, drop, AList.mem_insert, List.mem_cons]
      tauto

theorem mem_foldl_add (k : κ) (ds : List δ) (ix : AList fun _ : δ => List κ) (d : δ) :
    d ∈ ds.foldl (add k) ix ↔ d ∈ ds ∨ d ∈ ix := by
  induction ds generalizing ix with
  | nil => simp
  | cons d₀ ds ih =>
      rw [List.foldl_cons, ih, add, AList.mem_insert, List.mem_cons]
      tauto

/-- Dropping `k` from the lists of all its targets removes it from the relation. -/
theorem Exact.drop {ix : AList fun _ : δ => List κ} {R : κ → δ → Prop} (h : Exact ix R) {k : κ}
    {ds : List δ} (hds : ∀ d, R k d → d ∈ ds) :
    Exact (ds.foldl (drop k) ix) fun k' d => k' ≠ k ∧ R k' d := by
  intro d
  rw [listAt_foldl_drop]
  split_ifs with hd
  · refine ⟨fun k' => ?_, (h d).2.filter _⟩
    rw [List.mem_filter, (h d).1 k', decide_eq_true_iff, and_comm]
  · refine ⟨fun k' => ?_, (h d).2⟩
    rw [(h d).1 k']
    refine ⟨fun hR => ⟨?_, hR⟩, fun hR => hR.2⟩
    rintro rfl
    exact hd (hds d hR)

theorem Exact.dropFound {ix : AList fun _ : δ => List κ} {R : κ → δ → Prop} (h : Exact ix R)
    {k : κ} {ds : List δ} (hds : ∀ d, R k d → d ∈ ds) :
    Exact (ds.foldl (dropFound k) ix) fun k' d => k' ≠ k ∧ R k' d := by
  intro d
  rw [listAt_foldl_dropFound, ← listAt_foldl_drop]
  exact h.drop hds d

/-- Adding a key without targets to the lists of `ds` gives it the targets `ds`. -/
theorem Exact.add {ix : AList fun _ : δ => List κ} {R : κ → δ → Prop} (h : Exact ix R) {k : κ}
    (hk : ∀ d, ¬ R k d) (ds : List δ) :
    Exact (ds.foldl (add k) ix) fun k' d => R k' d ∨ k' = k ∧ d ∈ ds := by
  intro d
  have hkd : k ∉ listAt ix d := fun hm => hk d (((h d).1 k).1 hm)
  rw [listAt_foldl_add]
  split_ifs with hd
  · refine ⟨fun k' => ?_, ?_⟩
    · rw [List.mem_append, (h d).1 k', List.mem_singleton]
      simp [hd.1]
    · rw [List.nodup_append]
      refine ⟨(h d).2, List.nodup_singleton k, fun a ha b hb => ?_⟩
      rw [List.mem_singleton.1 hb]
      rintro rfl
      exact hkd ha
  · have hd' : d ∉ ds := fun hm => hd ⟨hm, hkd⟩
    refine ⟨fun k' => ?_, (h d).2⟩
    rw [(h d).1 k']
    simp [hd']

/-! ## Building an index -/

omit [DecidableEq κ] in
/-- Push `k` to the end of the list under `d`. -/
def push (k : κ) (ix : AList fun _ : δ => List κ) (d : δ) : AList fun _ : δ => List κ :=
  ix.insert d (listAt ix d ++ [k])

omit [DecidableEq κ] in
/-- Push each key of a list to the lists of its targets. -/
def pushAll (l : List (κ × List δ)) (ix : AList fun _ : δ => List κ) : AList fun _ : δ => List κ :=
  l.foldl (fun ix p => p.2.foldl (push p.1) ix) ix

omit [DecidableEq κ] in
/-- What `pushAll` adds to the list under `d`. -/
def pushed (l : List (κ × List δ)) (d : δ) : List κ :=
  l.flatMap fun p => List.replicate (p.2.count d) p.1

omit [DecidableEq κ] in
theorem listAt_foldl_push (k : κ) (ds : List δ) (ix : AList fun _ : δ => List κ) (d : δ) :
    listAt (ds.foldl (push k) ix) d = listAt ix d ++ List.replicate (ds.count d) k := by
  induction ds generalizing ix with
  | nil => simp
  | cons d₀ ds ih =>
      rw [List.foldl_cons, ih, push, listAt_insert]
      by_cases h : d = d₀
      · subst h
        simp [List.replicate_succ]
      · simp [h, List.count_cons_of_ne (Ne.symm h)]

omit [DecidableEq κ] in
theorem listAt_pushAll (l : List (κ × List δ)) (ix : AList fun _ : δ => List κ) (d : δ) :
    listAt (pushAll l ix) d = listAt ix d ++ pushed l d := by
  induction l generalizing ix with
  | nil => simp [pushAll, pushed]
  | cons p l ih =>
      have step : pushAll (p :: l) ix = pushAll l (p.2.foldl (push p.1) ix) := rfl
      rw [step, ih, listAt_foldl_push, List.append_assoc]
      rfl

omit [DecidableEq κ] in
theorem mem_pushed {l : List (κ × List δ)} {d : δ} {k : κ} :
    k ∈ pushed l d ↔ ∃ ds, (k, ds) ∈ l ∧ d ∈ ds := by
  simp only [pushed, List.mem_flatMap, List.mem_replicate, ne_eq, List.count_eq_zero, not_not]
  constructor
  · rintro ⟨p, hp, hd, rfl⟩
    exact ⟨p.2, hp, hd⟩
  · rintro ⟨ds, hp, hd⟩
    exact ⟨(k, ds), hp, hd, rfl⟩

omit [DecidableEq κ] in
/-- A key is pushed twice to one list only if it has a target twice. -/
theorem nodup_pushed_iff {l : List (κ × List δ)} (hl : (l.map Prod.fst).Nodup) :
    (∀ d, (pushed l d).Nodup) ↔ ∀ p ∈ l, p.2.Nodup := by
  have hdisj (d : δ) : l.Pairwise (Function.onFun List.Disjoint
      fun p => List.replicate (p.2.count d) p.1) := by
    refine (List.pairwise_map.1 hl).imp fun hne => ?_
    intro k hk hk'
    exact hne ((List.eq_of_mem_replicate hk).symm.trans (List.eq_of_mem_replicate hk'))
  simp only [pushed, List.nodup_flatMap, List.nodup_replicate, hdisj, and_true]
  refine ⟨fun h p hp => List.nodup_iff_count_le_one.2 fun d => h d p hp, fun h d p hp => ?_⟩
  exact List.nodup_iff_count_le_one.1 (h p hp) d

omit [DecidableEq κ] in
/-- Pushing gives an exact index exactly when it starts from empty lists and no key has a target
twice. -/
theorem exact_pushAll_iff {l : List (κ × List δ)} (hl : (l.map Prod.fst).Nodup)
    (ix : AList fun _ : δ => List κ) :
    Exact (pushAll l ix) (fun k d => ∃ ds, (k, ds) ∈ l ∧ d ∈ ds) ↔
      (∀ d, listAt ix d = []) ∧ ∀ p ∈ l, p.2.Nodup := by
  rw [← nodup_pushed_iff hl]
  constructor
  · intro h
    have hnodup (d : δ) : (listAt ix d ++ pushed l d).Nodup := by
      rw [← listAt_pushAll]
      exact (h d).2
    refine ⟨fun d => List.eq_nil_iff_forall_not_mem.2 fun k hk => ?_,
      fun d => (List.nodup_append.1 (hnodup d)).2.1⟩
    -- a key that was there before is pushed once more
    have hmem : k ∈ listAt (pushAll l ix) d := by
      rw [listAt_pushAll]
      exact List.mem_append_left _ hk
    have hpush : k ∈ pushed l d := mem_pushed.2 (((h d).1 k).1 hmem)
    exact (List.nodup_append.1 (hnodup d)).2.2 k hk k hpush rfl
  · rintro ⟨hix, hnodup⟩ d
    rw [listAt_pushAll, hix d, List.nil_append]
    exact ⟨fun k => mem_pushed, hnodup d⟩

/-! ## What an index holds -/

section Within

omit [DecidableEq κ]

variable {P : δ → Prop} {Q : κ → Prop} {ix : AList fun _ : δ => List κ}

/-- Every target of the index satisfies `P`, and every key of its lists `Q`. -/
def Within (P : δ → Prop) (Q : κ → Prop) (ix : AList fun _ : δ => List κ) : Prop :=
  ∀ d v, ix.lookup d = some v → P d ∧ ∀ k ∈ v, Q k

theorem within_empty : Within P Q (∅ : AList fun _ : δ => List κ) := by
  intro d v hv
  cases hv

theorem Within.listAt (h : Within P Q ix) (d : δ) : ∀ k ∈ listAt ix d, Q k := by
  unfold InverseIndex.listAt
  cases hv : ix.lookup d with
  | none => simp
  | some v => exact (h d v hv).2

theorem Within.insert (h : Within P Q ix) {d : δ} {v : List κ} (hd : P d) (hv : ∀ k ∈ v, Q k) :
    Within P Q (ix.insert d v) :=
  AList.forall_lookup_insert h ⟨hd, hv⟩

theorem Within.push (h : Within P Q ix) {k : κ} {d : δ} (hk : Q k) (hd : P d) :
    Within P Q (push k ix d) :=
  h.insert hd (List.forall_mem_append.2 ⟨h.listAt d, by simpa using hk⟩)

variable [DecidableEq κ]

theorem Within.drop (h : Within P Q ix) (k : κ) {d : δ} (hd : P d) : Within P Q (drop k ix d) :=
  h.insert hd fun k' hk' => h.listAt d k' (List.mem_filter.1 hk').1

theorem Within.add (h : Within P Q ix) {k : κ} {d : δ} (hk : Q k) (hd : P d) :
    Within P Q (add k ix d) := by
  refine h.insert hd ?_
  split_ifs
  · exact h.listAt d
  · exact List.forall_mem_append.2 ⟨h.listAt d, by simpa using hk⟩

end Within

end InverseIndex
