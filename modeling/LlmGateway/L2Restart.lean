import LlmGateway.L2Files

/-!
# The next process

`exit_restores_iff`: the exit sequence saves the store, clears it and saves it once more, so the
next process finds nothing; it restores the store only if there was nothing in it.

`restart_revidxExact_iff`: for any two files, when the index that is loaded fits the entries that are
loaded.  The data file decides which entries are loaded (`fileEntry`).  A well-typed index file is
taken as it is; otherwise the lists before the first bad value are kept and every entry is pushed on
top of them, so the result is exact only if these lists are empty and no entry names a dependency
twice.  A missing index file is not rebuilt at all.
-/

namespace LlmGateway

namespace L2PersistentCache

open InverseIndex

variable {ν : Type}

/-! ## The exit sequence -/

/-- The end of the process: `CacheCoordinator::shutdown` is called from `main`, and the destructor of
the store calls `shutdown` again. -/
def exitSequence (lib : JsonLib ν) (s : L2PersistentCache ν) : Outcome (L2PersistentCache ν) :=
  (shutdown lib s).andThen (shutdown lib)

theorem shutdown_of_storable {lib : JsonLib ν} {s : L2PersistentCache ν} (h : Storable lib s) :
    ∃ text, lib.parse text = some (revidxJson s.depRev) ∧
      shutdown lib s = .ok
        { dataFile := (saveToDisk lib s).state.dataFile, revidxFile := some text } := by
  have hdisk : Storable lib (saveToDisk lib s).state := ⟨h.entries, h.revidx⟩
  obtain ⟨text, hparse, hrev⟩ := saveRevidx_of_storable hdisk
  refine ⟨text, hparse, ?_⟩
  rw [shutdown, save, Outcome.andThen_of_returns (saveToDisk_returns h), hrev]
  rfl

/-- The second shutdown saves an empty store, so that nothing is read back. -/
theorem restart_exitSequence [Double ν] (lib : JsonLib ν) {s : L2PersistentCache ν}
    (h : Storable lib s) (hnull : lib.RoundTrips (revidxJson ∅)) :
    (∀ k, (restart lib (exitSequence lib s).state).entries.lookup k = none) ∧
      ∀ d, (restart lib (exitSequence lib s).state).depRev.lookup d = none := by
  obtain ⟨text, -, hfirst⟩ := shutdown_of_storable h
  have hclear : Storable lib
      { dataFile := (saveToDisk lib s).state.dataFile, revidxFile := some text } :=
    ⟨fun _ _ he => (by cases he), hnull⟩
  obtain ⟨text', hparse, hsecond⟩ := shutdown_of_storable hclear
  rw [exitSequence, hfirst, Outcome.ok_andThen, hsecond]
  refine ⟨fun k => ?_, fun d => ?_⟩
  · rw [restart_entries]
    rfl
  · rw [restart_depRev]
    exact lookup_loadRevidx_save hparse _ d

/-- The next process restores the store that is held at the exit exactly if it is empty. -/
theorem exit_restores_iff [Double ν] (lib : JsonLib ν) (s : L2PersistentCache ν)
    (h : Storable lib s) (hnull : lib.RoundTrips (revidxJson ∅)) :
    ((∀ k, (restart lib (exitSequence lib s).state).entries.lookup k = s.entries.lookup k) ∧
      ∀ d, (restart lib (exitSequence lib s).state).depRev.lookup d = s.depRev.lookup d) ↔
    s.entries = ∅ ∧ s.depRev = ∅ := by
  have hnone := restart_exitSequence lib h hnull
  simp only [hnone]
  constructor
  · rintro ⟨hentries, hrev⟩
    exact ⟨AList.eq_empty_of_lookup fun k => (hentries k).symm,
      AList.eq_empty_of_lookup fun d => (hrev d).symm⟩
  · rintro ⟨h₁, h₂⟩
    simp [h₁, h₂]

theorem exit_restores_iff_note :
    ¬ ((∀ k, (restart noteLib (exitSequence noteLib (run noteLib {} noteOps)).state).entries.lookup k
        = (run noteLib {} noteOps).entries.lookup k) ∧
      ∀ d, (restart noteLib (exitSequence noteLib (run noteLib {} noteOps)).state).depRev.lookup d
        = (run noteLib {} noteOps).depRev.lookup d) := by
  rw [exit_restores_iff noteLib _ storable_noteRun storable_noteStart.revidx, noteRun_entries]
  rintro ⟨h, -⟩
  cases h

/-- The stored entry is gone after the restart. -/
theorem exitSequence_loses_note :
    Storable noteLib (run noteLib {} noteOps) ∧ noteLib.RoundTrips (revidxJson ∅) ∧
      (run noteLib {} noteOps).entries.lookup (str "note") = some noteEntry ∧
      (restart noteLib (exitSequence noteLib (run noteLib {} noteOps)).state).entries.lookup
        (str "note") = none := by
  refine ⟨storable_noteRun, storable_noteStart.revidx, ?_, ?_⟩
  · rw [noteRun_entries]
    rfl
  · exact (restart_exitSequence noteLib storable_noteRun storable_noteStart.revidx).1 _

/-! ## Loading any two files -/

section Recovery

variable (lib : JsonLib ν)

/-- The entry that a data file holds under a key: that of the last line that holds one with this
key. -/
def fileEntry [Double ν] (text k : Str) : Option (CacheEntry ν) :=
  (lineEntries lib text).reverse.find? (·.key = k)

/-- The values of an index file, if it is well formed. -/
def fileItems (idx : Str) : List (Str × Json ν) := ((lib.parse idx).map Json.items).getD []

/-- The values before the first one that is not a list of strings. -/
def typedLists : List (Str × Json ν) → List (Str × List Str)
  | [] => []
  | (k, v) :: rest =>
      match v.getStrings with
      | none => []
      | some xs => (k, xs) :: typedLists rest

/-- The list under a key; of several the last one counts. -/
def lastList (lists : List (Str × List Str)) (d : Str) : List Str :=
  ((lists.reverse.find? (·.1 = d)).map Prod.snd).getD []

/-- The index file is well formed, and all its values are lists of strings. -/
def WellTyped (idx : Str) : Prop :=
  ∃ rj, lib.parse idx = some rj ∧ ∀ p ∈ rj.items, p.2.getStrings.isSome

/-- What the two files have to hold for the loaded index to fit the loaded entries.  Without an index
file no entry may have dependencies.  A well-typed index file must be the index of the data file.
Any other index file must hold only empty lists before its first bad value, and the data file no
entry that names a dependency twice. -/
def IndexFits [Double ν] : Option Str → Option Str → Prop
  | none, _ => True
  | some text, none => ∀ k e, fileEntry lib text k = some e → e.dependsOn = []
  | some text, some idx =>
      (WellTyped lib idx →
        ∀ d, (∀ k, k ∈ lastList (typedLists (fileItems lib idx)) d ↔
            ∃ e, fileEntry lib text k = some e ∧ d ∈ e.dependsOn) ∧
          (lastList (typedLists (fileItems lib idx)) d).Nodup) ∧
      (¬ WellTyped lib idx →
        (∀ d, lastList (typedLists (fileItems lib idx)) d = []) ∧
          ∀ k e, fileEntry lib text k = some e → e.dependsOn.Nodup)

theorem lookup_loadedEntries [Double ν] (text k : Str) :
    (loadedEntries lib (some text)).lookup k = fileEntry lib text k := by
  simp only [loadedEntries, Option.map_some, Option.getD_some, AList.lookup_insertAll,
    ← List.map_reverse, List.find?_map, AList.lookup_empty, Option.or_none, Option.map_map]
  exact Option.map_id'

theorem storeLists_eq (items : List (Str × Json ν)) (m : UMap (List Str)) :
    storeLists items m =
      (m.insertAll (typedLists items), !items.all fun p => p.2.getStrings.isSome) := by
  induction items generalizing m with
  | nil => rfl
  | cons p items ih =>
      obtain ⟨k, v⟩ := p
      cases hv : v.getStrings with
      | none => simp [storeLists, typedLists, hv, AList.insertAll]
      | some xs => simp [storeLists, typedLists, hv, ih, AList.insertAll_cons]

/-- Every entry is loaded under its own key. -/
theorem restart_keysMatch [Double ν] (s : L2PersistentCache ν) : (restart lib s).KeysMatch := by
  intro k e he
  rw [restart_entries] at he
  cases hd : s.dataFile with
  | none =>
    rw [hd] at he
    cases he
  | some text =>
    rw [hd, lookup_loadedEntries] at he
    simpa using List.find?_some he

theorem listAt_insertAll (lists : List (Str × List Str)) (d : Str) :
    listAt ((∅ : UMap (List Str)).insertAll lists) d = lastList lists d := by
  rw [listAt, AList.lookup_insertAll, AList.lookup_empty, Option.or_none]
  rfl

theorem exact_rebuildRevidx_iff (entries : UMap (CacheEntry ν)) (depRev : UMap (List Str)) :
    Exact (rebuildRevidx entries depRev)
        (fun k d => ∃ e, entries.lookup k = some e ∧ d ∈ e.dependsOn) ↔
      (∀ d, listAt depRev d = []) ∧ ∀ k e, entries.lookup k = some e → e.dependsOn.Nodup := by
  have hpush : rebuildRevidx entries depRev =
      pushAll (entries.pairs.map fun p => (p.1, p.2.dependsOn)) depRev := by
    simp [rebuildRevidx, pushAll, AList.pairs, List.foldl_map]
  have hnodup : ((entries.pairs.map fun p => (p.1, p.2.dependsOn)).map Prod.fst).Nodup := by
    have hkeys := entries.keys_nodup
    rw [← AList.map_fst_pairs] at hkeys
    simpa [Function.comp_def] using hkeys
  have hmem (k : Str) (ds : List Str) :
      (k, ds) ∈ entries.pairs.map (fun p => (p.1, p.2.dependsOn)) ↔
        ∃ e, entries.lookup k = some e ∧ e.dependsOn = ds := by
    simp only [← AList.mem_pairs, List.mem_map, Prod.mk.injEq]
    constructor
    · rintro ⟨p, hp, rfl, rfl⟩
      exact ⟨p.2, hp, rfl⟩
    · rintro ⟨e, he, rfl⟩
      exact ⟨(k, e), he, rfl, rfl⟩
  have hdeps : (∀ p ∈ entries.pairs.map (fun p => (p.1, p.2.dependsOn)), p.2.Nodup) ↔
      ∀ k e, entries.lookup k = some e → e.dependsOn.Nodup := by
    constructor
    · intro h k e he
      exact h (k, e.dependsOn) ((hmem k e.dependsOn).2 ⟨e, he, rfl⟩)
    · intro h p hp
      obtain ⟨e, he, hds⟩ := (hmem p.1 p.2).1 hp
      exact hds ▸ h p.1 e he
  have hR (k d : Str) : (∃ ds, (k, ds) ∈ entries.pairs.map (fun p => (p.1, p.2.dependsOn)) ∧
      d ∈ ds) ↔ ∃ e, entries.lookup k = some e ∧ d ∈ e.dependsOn := by
    simp only [hmem]
    grind
  rw [← hdeps, ← exact_pushAll_iff hnodup, hpush]
  exact ⟨fun h => h.congr fun k d => (hR k d).symm, fun h => h.congr hR⟩

/-- A well-typed index file is taken as it is. -/
theorem loadRevidx_of_wellTyped {idx : Str} (h : WellTyped lib idx)
    (entries : UMap (CacheEntry ν)) :
    loadRevidx lib entries idx ∅ =
      (∅ : UMap (List Str)).insertAll (typedLists (fileItems lib idx)) := by
  obtain ⟨rj, hrj, hall⟩ := h
  have hall : (rj.items.all fun p => p.2.getStrings.isSome) = true := List.all_eq_true.2 hall
  simp only [loadRevidx, fileItems, hrj, storeLists_eq, hall]
  rfl

/-- Any other is stored up to its first bad value, and the entries are pushed on top. -/
theorem loadRevidx_of_not_wellTyped {idx : Str} (h : ¬ WellTyped lib idx)
    (entries : UMap (CacheEntry ν)) :
    loadRevidx lib entries idx ∅ = rebuildRevidx entries
      ((∅ : UMap (List Str)).insertAll (typedLists (fileItems lib idx))) := by
  cases hrj : lib.parse idx with
  | none =>
    simp only [loadRevidx, fileItems, hrj]
    rfl
  | some rj =>
    have hall : (rj.items.all fun p => p.2.getStrings.isSome) = false := by
      rw [Bool.eq_false_iff]
      exact fun hall => h ⟨rj, hrj, List.all_eq_true.1 hall⟩
    simp only [loadRevidx, fileItems, hrj, storeLists_eq, hall]
    rfl

/-- For any two files, the index that is loaded is exact if and only if the files fit. -/
theorem restart_revidxExact_iff [Double ν] (data idx : Option Str) :
    (restart lib { dataFile := data, revidxFile := idx }).RevidxExact ↔ IndexFits lib data idx := by
  rcases data with _ | text
  · exact iff_of_true revidxExact_empty trivial
  have hexact : (restart lib { dataFile := some text, revidxFile := idx }).RevidxExact ↔
      Exact (loadedRevidx lib (loadedEntries lib (some text)) idx)
        fun k d => ∃ e, fileEntry lib text k = some e ∧ d ∈ e.dependsOn := by
    unfold RevidxExact DependsOn
    simp only [restart_depRev, restart_entries, lookup_loadedEntries]
  rw [hexact]
  cases idx with
  | none =>
    -- no list is loaded, so that no entry may have a dependency
    simp only [loadedRevidx, IndexFits, Exact, listAt, AList.lookup_empty, Option.getD_none,
      List.not_mem_nil, false_iff, List.nodup_nil, and_true, not_exists, not_and]
    constructor
    · intro h k e he
      exact List.eq_nil_iff_forall_not_mem.2 fun d => h d k e he
    · intro h d k e he
      simp [h k e he]
  | some idx =>
    by_cases hwt : WellTyped lib idx
    · simp only [loadedRevidx, loadRevidx_of_wellTyped lib hwt, IndexFits, Exact, listAt_insertAll,
        hwt, true_implies, not_true_eq_false, false_implies, and_true]
    · have hrebuild := exact_rebuildRevidx_iff (loadedEntries lib (some text))
        ((∅ : UMap (List Str)).insertAll (typedLists (fileItems lib idx)))
      simp only [lookup_loadedEntries, listAt_insertAll] at hrebuild
      simp only [loadedRevidx, loadRevidx_of_not_wellTyped lib hwt, IndexFits, hrebuild, hwt,
        false_implies, not_false_eq_true, true_implies, true_and]

end Recovery

theorem lineEntries_note : lineEntries noteLib (dataLines noteLib [noteEntry]).1 = [noteEntry] := by
  refine lineEntries_dataLines noteLib fun e he => ?_
  rw [List.mem_singleton.1 he]
  exact storable_noteRun.entries (str "note") noteEntry (by rw [noteRun_entries]; rfl)

/-- The data file that a save of `noteEntry` leaves, and no index file: nothing is rebuilt. -/
theorem restart_not_exact_note :
    ¬ (restart noteLib { dataFile := some (dataLines noteLib [noteEntry]).1 }).RevidxExact := by
  intro h
  have hfile : fileEntry noteLib (dataLines noteLib [noteEntry]).1 (str "note") = some noteEntry := by
    rw [fileEntry, lineEntries_note]
    rfl
  have hdep : (restart noteLib { dataFile := some (dataLines noteLib [noteEntry]).1 }).DependsOn
      (str "note") (str "source") := by
    refine ⟨noteEntry, ?_, by decide⟩
    rw [restart_entries, lookup_loadedEntries, hfile]
  have hmem := ((h (str "source")).1 (str "note")).2 hdep
  rw [restart_depRev] at hmem
  cases hmem

end L2PersistentCache

end LlmGateway
