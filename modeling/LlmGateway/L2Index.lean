import LlmGateway.L2Cascade

/-!
# The reverse index is exact

`run_revidx_exact`: after every sequence of calls from an empty store, the reverse index is the
inverse of `depends_on` over the present entries, and no list of it holds a key twice.

The calls that do not set or remove an entry change neither the index nor any `depends_on`
(`exact_of_sameDeps`); setting and removing rewrite the lists of the targets concerned, which is
`Exact.drop`, `Exact.dropFound` and `Exact.add` of the library.
-/

namespace LlmGateway

namespace L2PersistentCache

open InverseIndex

variable {ν : Type}

/-! ## Calls that change entries in place -/

section InPlace

variable {β : Type} {view : CacheEntry ν → β}

theorem lookup_get_view (hview : ∀ e, view e.touch = view e) (key : Str) (now : Int64)
    (s : L2PersistentCache ν) (k : Str) :
    ((get key now s).2.entries.lookup k).map view = (s.entries.lookup k).map view := by
  unfold get
  split
  · rfl
  · split_ifs
    · rfl
    · rfl
    · by_cases hk : k = key
      · subst hk
        simp [Function.comp_def, hview]
      · rw [AList.lookup_modify_ne hk]

theorem get_depRev (key : Str) (now : Int64) (s : L2PersistentCache ν) :
    (get key now s).2.depRev = s.depRev := by
  unfold get
  split
  · rfl
  · split_ifs <;> rfl

variable [Double ν]

theorem lookup_softInvalidate_view (lib : JsonLib ν) (hview : MarkBlind view) (key reason : Str)
    (s : L2PersistentCache ν) (k : Str) :
    ((softInvalidate lib key reason s).state.entries.lookup k).map view =
      (s.entries.lookup k).map view := by
  unfold softInvalidate
  split
  · rfl
  · rw [saveToDisk_entries]
    by_cases hk : k = key
    · subst hk
      simp [Function.comp_def, hview _ _ (sameData_downgrade reason _)]
    · rw [AList.lookup_modify_ne hk]

@[simp]
theorem softInvalidate_depRev (lib : JsonLib ν) (key reason : Str) (s : L2PersistentCache ν) :
    (softInvalidate lib key reason s).state.depRev = s.depRev := by
  unfold softInvalidate
  split <;> rfl

theorem lookup_applyConfidenceDecay_view (lib : JsonLib ν) (hview : MarkBlind view) (now : Int64)
    (s : L2PersistentCache ν) (k : Str) :
    ((applyConfidenceDecay lib now s).state.entries.lookup k).map view =
      (s.entries.lookup k).map view := by
  simp [applyConfidenceDecay, Function.comp_def, hview _ _ (sameData_decayed now _)]

end InPlace

theorem markBlind_dependsOn : MarkBlind fun e : CacheEntry ν => e.dependsOn := by
  intro e e' h
  simp only
  rw [h]

/-! ## Exactness -/

/-- The entry under `k` is present and depends on `d`. -/
def DependsOn (s : L2PersistentCache ν) (k d : Str) : Prop :=
  ∃ e, s.entries.lookup k = some e ∧ d ∈ e.dependsOn

/-- The reverse index is the inverse of `DependsOn`. -/
def RevidxExact (s : L2PersistentCache ν) : Prop := Exact s.depRev s.DependsOn

/-- An empty store, with any files. -/
theorem revidxExact_empty {data idx : Option Str} :
    RevidxExact ({ dataFile := data, revidxFile := idx } : L2PersistentCache ν) :=
  exact_empty.congr (by simp [DependsOn])

theorem dependsOn_iff_of_view {s s' : L2PersistentCache ν}
    (h : ∀ k, (s'.entries.lookup k).map CacheEntry.dependsOn =
      (s.entries.lookup k).map CacheEntry.dependsOn) (k d : Str) :
    s.DependsOn k d ↔ s'.DependsOn k d := by
  have iff (t : L2PersistentCache ν) :
      t.DependsOn k d ↔ ∃ ds, (t.entries.lookup k).map CacheEntry.dependsOn = some ds ∧ d ∈ ds := by
    simp [DependsOn]
  rw [iff s, iff s', h k]

theorem exact_of_sameDeps {s s' : L2PersistentCache ν} (hs : s.RevidxExact)
    (hrev : s'.depRev = s.depRev) (h : ∀ k, (s'.entries.lookup k).map CacheEntry.dependsOn =
      (s.entries.lookup k).map CacheEntry.dependsOn) : s'.RevidxExact := by
  unfold RevidxExact
  rw [hrev]
  exact hs.congr (dependsOn_iff_of_view h)

/-- Removing an entry and its edges. -/
theorem exact_erase {s : L2PersistentCache ν} (hs : s.RevidxExact) {k : Str} {e : CacheEntry ν}
    (he : s.entries.lookup k = some e) :
    RevidxExact { s with
      entries := s.entries.erase k
      depRev := e.dependsOn.foldl (dropFound k) s.depRev } := by
  have hds (d : Str) (h : s.DependsOn k d) : d ∈ e.dependsOn := by
    obtain ⟨e', he', hd⟩ := h
    rw [he, Option.some.injEq] at he'
    exact he' ▸ hd
  refine (hs.dropFound hds).congr fun k' d => ?_
  by_cases hk : k' = k
  · subst hk
    simp [DependsOn]
  · simp [DependsOn, hk]

/-- Setting an entry over the old edges of its key. -/
theorem exact_set (lib : JsonLib ν) {s : L2PersistentCache ν} (hs : s.RevidxExact) (k : Str)
    (e : CacheEntry ν) : (set lib k e s).state.RevidxExact := by
  unfold RevidxExact
  rw [set, save_depRev]
  refine (Exact.add (R := fun k' d => k' ≠ k ∧ s.DependsOn k' d) ?_ (fun d h => h.1 rfl)
    e.dependsOn).congr fun k' d => ?_
  · -- the edges of the other keys are left when those of `k` are dropped
    cases hk : s.entries.lookup k with
    | none =>
      refine hs.congr fun k' d => ⟨fun h => ⟨?_, h⟩, fun h => h.2⟩
      rintro rfl
      obtain ⟨e', he', -⟩ := h
      rw [hk] at he'
      cases he'
    | some old =>
      refine hs.drop ?_
      rintro d ⟨e', he', hd⟩
      rw [hk, Option.some.injEq] at he'
      exact he' ▸ hd
  · by_cases hk : k' = k
    · subst hk
      simp [DependsOn]
    · simp [DependsOn, hk]

theorem exact_purgeKey {s : L2PersistentCache ν} (hs : s.RevidxExact) (k : Str) :
    (purgeKey s k).RevidxExact := by
  unfold purgeKey
  split
  · next e he => exact exact_erase hs he
  · exact hs

theorem exact_foldl_purgeKey (ks : List Str) {s : L2PersistentCache ν} (hs : s.RevidxExact) :
    (ks.foldl purgeKey s).RevidxExact := by
  induction ks generalizing s with
  | nil => exact hs
  | cons k ks ih => exact ih (exact_purgeKey hs k)

variable [Double ν]

/-- Every call keeps the reverse index exact. -/
theorem exact_apply (lib : JsonLib ν) (s : L2PersistentCache ν) (op : Op ν) (hs : s.RevidxExact) :
    (op.apply lib s).state.RevidxExact := by
  cases op with
  | set key entry => exact exact_set lib hs key entry
  | get key now =>
    exact exact_of_sameDeps hs (get_depRev key now s)
      (lookup_get_view (fun _ => rfl) key now s)
  | remove key =>
    simp only [Op.apply, remove]
    split
    · next e he =>
      unfold RevidxExact DependsOn
      rw [save_depRev, save_entries]
      exact exact_erase hs he
    · exact exact_of_sameDeps hs (save_depRev lib s) (fun k => by rw [save_entries])
  | softInvalidate key reason =>
    exact exact_of_sameDeps hs (softInvalidate_depRev lib key reason s)
      (lookup_softInvalidate_view lib markBlind_dependsOn key reason s)
  | hardInvalidate key reason cascading =>
    exact exact_of_sameDeps hs (hardInvalidate_depRev lib key reason cascading s)
      (lookup_hardInvalidate_view lib markBlind_dependsOn key reason cascading s)
  | applyConfidenceDecay now =>
    exact exact_of_sameDeps hs rfl (lookup_applyConfidenceDecay_view lib markBlind_dependsOn now s)
  | purgeExpired now =>
    simp only [Op.apply, purgeExpired]
    split_ifs
    · exact hs
    · unfold RevidxExact DependsOn
      rw [save_depRev, save_entries]
      exact exact_foldl_purgeKey _ hs

theorem revidxExact_run (lib : JsonLib ν) {s : L2PersistentCache ν} (hs : s.RevidxExact)
    (ops : List (Op ν)) : (run lib s ops).RevidxExact :=
  Outcome.run_invariant RevidxExact hs fun s op _ h => exact_apply lib s op h

/-- After every sequence of calls from an empty store, the reverse index is exact. -/
theorem run_revidx_exact (lib : JsonLib ν) (ops : List (Op ν)) :
    let s := run lib {} ops
    ∀ d k, (k ∈ dependentsOf s d ↔ ∃ e, s.entries.lookup k = some e ∧ d ∈ e.dependsOn) ∧
      (dependentsOf s d).Nodup := by
  have h : (run lib {} ops).RevidxExact := revidxExact_run lib revidxExact_empty ops
  exact fun d k => ⟨(h d).1 k, (h d).2⟩

end L2PersistentCache

end LlmGateway
