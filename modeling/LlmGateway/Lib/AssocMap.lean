import Mathlib.Data.List.AList
import Mathlib.Tactic.Common

/-!
# Value updates of association lists

`AList` has insertion and erasure; a hash map updated in place also needs the update of the value
under one key (`modify`) and of every value at once (`mapVal`).  Both keep the keys and their
order.  `insertAll` inserts a list of pairs, one after the other; a map is rebuilt from its pairs
(`lookup_insertAll_perm`).
-/

namespace AList

variable {κ α : Type*}

/-- Apply `f` to every value. -/
def mapVal (f : κ → α → α) (m : AList fun _ : κ => α) : AList fun _ : κ => α where
  entries := m.entries.map fun p => ⟨p.1, f p.1 p.2⟩
  nodupKeys := by
    have h : (m.entries.map fun p => (⟨p.1, f p.1 p.2⟩ : Sigma fun _ : κ => α)).keys =
        m.entries.keys := by
      simp [List.keys]
    rw [List.NodupKeys, h]
    exact m.nodupKeys

@[simp]
theorem keys_mapVal (f : κ → α → α) (m : AList fun _ : κ => α) : (m.mapVal f).keys = m.keys := by
  simp [mapVal, keys, List.keys]

/-- The entries as pairs. -/
def pairs (m : AList fun _ : κ => α) : List (κ × α) := m.entries.map fun p => (p.1, p.2)

section Lookup

variable [DecidableEq κ]

theorem dlookup_map_val (f : κ → α → α) (k : κ) (l : List (Sigma fun _ : κ => α)) :
    (l.map fun p => (⟨p.1, f p.1 p.2⟩ : Sigma fun _ : κ => α)).dlookup k =
      (l.dlookup k).map (f k) := by
  induction l with
  | nil => rfl
  | cons p l ih =>
      obtain ⟨k', v⟩ := p
      by_cases h : k = k'
      · subst h
        simp
      · simp only [List.map_cons]
        rw [List.dlookup_cons_ne _ _ (by simpa using h), List.dlookup_cons_ne _ _ (by simpa using h),
          ih]

@[simp]
theorem lookup_mapVal (f : κ → α → α) (m : AList fun _ : κ => α) (k : κ) :
    (m.mapVal f).lookup k = (m.lookup k).map (f k) :=
  dlookup_map_val f k m.entries

/-- Apply `f` to the value under `k`, if there is one. -/
def modify (k : κ) (f : α → α) (m : AList fun _ : κ => α) : AList fun _ : κ => α :=
  m.mapVal fun k' v => if k' = k then f v else v

@[simp]
theorem keys_modify (k : κ) (f : α → α) (m : AList fun _ : κ => α) :
    (m.modify k f).keys = m.keys := by
  simp [modify]

@[simp]
theorem lookup_modify (k : κ) (f : α → α) (m : AList fun _ : κ => α) :
    (m.modify k f).lookup k = (m.lookup k).map f := by
  simp [modify]

@[simp]
theorem lookup_modify_ne {k k' : κ} (h : k' ≠ k) (f : α → α) (m : AList fun _ : κ => α) :
    (m.modify k f).lookup k' = m.lookup k' := by
  simp [modify, h]

theorem lookup_of_mem_entries {m : AList fun _ : κ => α} {p : Sigma fun _ : κ => α}
    (h : p ∈ m.entries) : m.lookup p.1 = some p.2 :=
  mem_lookup_iff.2 h

theorem mem_entries_of_lookup {m : AList fun _ : κ => α} {k : κ} {v : α}
    (h : m.lookup k = some v) : (⟨k, v⟩ : Sigma fun _ : κ => α) ∈ m.entries :=
  mem_lookup_iff.1 h

theorem eq_empty_of_lookup {m : AList fun _ : κ => α} (h : ∀ k, m.lookup k = none) : m = ∅ := by
  refine AList.ext (List.eq_nil_iff_forall_not_mem.2 fun p hp => ?_)
  have hp := lookup_of_mem_entries hp
  rw [h p.1] at hp
  cases hp

theorem lookup_insert_eq_update (m : AList fun _ : κ => α) (k₀ : κ) (v : α) (k : κ) :
    (m.insert k₀ v).lookup k = Function.update (fun k => m.lookup k) k₀ (some v) k := by
  by_cases hk : k = k₀
  · rw [hk, lookup_insert, Function.update_self]
  · rw [lookup_insert_ne hk, Function.update_of_ne hk]

theorem lookup_erase_eq_update (m : AList fun _ : κ => α) (k₀ k : κ) :
    (m.erase k₀).lookup k = Function.update (fun k => m.lookup k) k₀ none k := by
  by_cases hk : k = k₀
  · rw [hk, lookup_erase, Function.update_self]
  · rw [lookup_erase_ne hk, Function.update_of_ne hk]

theorem erase_of_lookup_none {m : AList fun _ : κ => α} {k : κ} (h : m.lookup k = none) :
    m.erase k = m :=
  AList.ext (List.kerase_of_notMem_keys (lookup_eq_none.1 h))

theorem perm_cons_kerase {l : List (Sigma fun _ : κ => α)} {k : κ} {v : α}
    (h : l.dlookup k = some v) : l.Perm (⟨k, v⟩ :: l.kerase k) := by
  induction l with
  | nil => cases h
  | cons p l ih =>
      obtain ⟨k', v'⟩ := p
      by_cases hk : k = k'
      · subst hk
        rw [List.dlookup_cons_eq, Option.some.injEq] at h
        have hkerase : (⟨k, v'⟩ :: l : List (Sigma fun _ : κ => α)).kerase k = l :=
          List.kerase_cons_eq rfl
        rw [hkerase, h]
      · rw [List.dlookup_cons_ne _ _ hk] at h
        have hkerase : (⟨k', v'⟩ :: l : List (Sigma fun _ : κ => α)).kerase k =
            ⟨k', v'⟩ :: l.kerase k := List.kerase_cons_ne hk
        rw [hkerase]
        exact ((ih h).cons _).trans (List.Perm.swap _ _ _)

/-- The entry of a key and the entries of the others. -/
theorem entries_perm_cons_erase {m : AList fun _ : κ => α} {k : κ} {v : α}
    (h : m.lookup k = some v) : m.entries.Perm (⟨k, v⟩ :: (m.erase k).entries) :=
  perm_cons_kerase h

/-! ## What holds of every entry -/

section Forall

variable {P : κ → α → Prop} {m : AList fun _ : κ => α} (h : ∀ k v, m.lookup k = some v → P k v)
include h

theorem forall_lookup_insert {k₀ : κ} {v₀ : α} (h₀ : P k₀ v₀) :
    ∀ k v, (m.insert k₀ v₀).lookup k = some v → P k v := by
  intro k v hv
  by_cases hk : k = k₀
  · rw [hk, lookup_insert, Option.some.injEq] at hv
    rw [hk, ← hv]
    exact h₀
  · rw [lookup_insert_ne hk] at hv
    exact h k v hv

theorem forall_lookup_erase (k₀ : κ) : ∀ k v, (m.erase k₀).lookup k = some v → P k v := by
  intro k v hv
  by_cases hk : k = k₀
  · rw [hk, lookup_erase] at hv
    cases hv
  · rw [lookup_erase_ne hk] at hv
    exact h k v hv

theorem forall_lookup_modify {k₀ : κ} {f : α → α} (hf : ∀ v, P k₀ v → P k₀ (f v)) :
    ∀ k v, (m.modify k₀ f).lookup k = some v → P k v := by
  intro k v hv
  by_cases hk : k = k₀
  · rw [hk, lookup_modify, Option.map_eq_some_iff] at hv
    obtain ⟨v₀, hv₀, rfl⟩ := hv
    rw [hk]
    exact hf v₀ (h k₀ v₀ hv₀)
  · rw [lookup_modify_ne hk] at hv
    exact h k v hv

end Forall

/-- What is there after an erasure was there before. -/
theorem lookup_of_lookup_erase {m : AList fun _ : κ => α} {k₀ k : κ} {v : α}
    (h : (m.erase k₀).lookup k = some v) : m.lookup k = some v :=
  forall_lookup_erase (fun _ _ hv => hv) k₀ k v h

/-! ## Rebuilding a map from its pairs -/

omit [DecidableEq κ] in
theorem map_fst_pairs (m : AList fun _ : κ => α) : m.pairs.map Prod.fst = m.keys := by
  simp [pairs, keys, List.keys]

theorem mem_pairs {m : AList fun _ : κ => α} {k : κ} {v : α} :
    (k, v) ∈ m.pairs ↔ m.lookup k = some v := by
  simp only [pairs, List.mem_map, Prod.mk.injEq]
  constructor
  · rintro ⟨p, hp, rfl, rfl⟩
    exact lookup_of_mem_entries hp
  · intro h
    exact ⟨⟨k, v⟩, mem_entries_of_lookup h, rfl, rfl⟩

/-- Insert the pairs of a list, from its head on. -/
def insertAll (l : List (κ × α)) (m : AList fun _ : κ => α) : AList fun _ : κ => α :=
  l.foldl (fun m p => m.insert p.1 p.2) m

theorem insertAll_cons (p : κ × α) (l : List (κ × α)) (m : AList fun _ : κ => α) :
    m.insertAll (p :: l) = (m.insert p.1 p.2).insertAll l := rfl

theorem lookup_insertAll_of_notMem {l : List (κ × α)} {k : κ} (h : k ∉ l.map Prod.fst)
    (m : AList fun _ : κ => α) : (m.insertAll l).lookup k = m.lookup k := by
  induction l generalizing m with
  | nil => rfl
  | cons p l ih =>
      simp only [List.map_cons, List.mem_cons, not_or] at h
      rw [insertAll_cons, ih h.2, lookup_insert_ne h.1]

theorem lookup_insertAll_of_mem {l : List (κ × α)} (hl : (l.map Prod.fst).Nodup) {k : κ} {v : α}
    (h : (k, v) ∈ l) (m : AList fun _ : κ => α) : (m.insertAll l).lookup k = some v := by
  induction l generalizing m with
  | nil => simp at h
  | cons p l ih =>
      simp only [List.map_cons, List.nodup_cons] at hl
      rw [insertAll_cons]
      rcases List.mem_cons.1 h with rfl | h
      · rw [lookup_insertAll_of_notMem hl.1, lookup_insert]
      · exact ih hl.2 h _

/-- A map is rebuilt from its pairs, in whichever order they are inserted. -/
theorem lookup_insertAll_perm {l : List (κ × α)} {m : AList fun _ : κ => α} (h : l.Perm m.pairs)
    (k : κ) : ((∅ : AList fun _ : κ => α).insertAll l).lookup k = m.lookup k := by
  have hl : (l.map Prod.fst).Nodup := by
    rw [(h.map Prod.fst).nodup_iff, map_fst_pairs]
    exact m.keys_nodup
  cases hk : m.lookup k with
  | none =>
    rw [lookup_insertAll_of_notMem, lookup_empty]
    rw [(h.map Prod.fst).mem_iff, map_fst_pairs, ← mem_keys]
    exact lookup_eq_none.1 hk
  | some v => exact lookup_insertAll_of_mem hl (h.mem_iff.2 (mem_pairs.2 hk)) _

/-- Of several pairs with one key the last one stays. -/
theorem lookup_insertAll (l : List (κ × α)) (m : AList fun _ : κ => α) (k : κ) :
    (m.insertAll l).lookup k = ((l.reverse.find? (·.1 = k)).map Prod.snd).or (m.lookup k) := by
  induction l generalizing m with
  | nil => rfl
  | cons p l ih =>
      rw [insertAll_cons, ih, List.reverse_cons, List.find?_append]
      cases l.reverse.find? (·.1 = k) with
      | none =>
        by_cases hp : p.1 = k
        · subst hp
          simp
        · simp [hp, lookup_insert_ne (Ne.symm hp)]
      | some q => simp

end Lookup

end AList
