import LlmGateway.L2Index
import LlmGateway.L2Lookup

/-!
# The two files

What a new process reads back from the data file and the index file.

`run_restart_mirrors`: during a run from a store without files, the files mirror the memory as long
as the JSON library can store its values: a new process finds the same entries, up to the access
counts that reads do not write, and the same index.  The invariant is `Mirrors`.  A call that saves
writes from the memory all that it changed (`mirrors_save`, `mirrors_saveToDisk`); `get` changes
access counts only (`apply_cases`).
-/

namespace LlmGateway

namespace L2PersistentCache

open InverseIndex

variable {ν : Type}

/-! ## Lines of the data file -/

theorem getlines_line (cur line rest : Str) (h : newline ∉ line) :
    getlines cur (line ++ newline :: rest) = (cur ++ line) :: getlines [] rest := by
  induction line generalizing cur with
  | nil => simp [getlines]
  | cons c cs ih =>
      simp only [List.mem_cons, not_or] at h
      have hc : c ≠ newline := Ne.symm h.1
      simp [getlines, hc, ih _ h.2]

section Load

variable [Double ν] (lib : JsonLib ν)

/-- The entries on the lines of a data file that hold one, in the order of the lines. -/
def lineEntries (text : Str) : List (CacheEntry ν) :=
  (getlines [] text).filterMap fun line =>
    if line = [] then none else (lib.parse line).bind CacheEntry.fromJson

theorem foldl_loadLine (lines : List Str) (m : UMap (CacheEntry ν)) :
    lines.foldl (loadLine lib) m =
      m.insertAll ((lines.filterMap fun line =>
        if line = [] then none else (lib.parse line).bind CacheEntry.fromJson).map
          fun e => (e.key, e)) := by
  induction lines generalizing m with
  | nil => rfl
  | cons line lines ih =>
      rw [List.foldl_cons, ih, loadLine]
      by_cases hl : line = []
      · simp [hl]
      · cases he : (lib.parse line).bind CacheEntry.fromJson with
        | none => simp [hl, he]
        | some e => simp [hl, he, AList.insertAll_cons]

/-- The entries that are loaded from a data file. -/
def loadedEntries (data : Option Str) : UMap (CacheEntry ν) :=
  (∅ : UMap (CacheEntry ν)).insertAll
    (((data.map (lineEntries lib)).getD []).map fun e => (e.key, e))

/-- The index that is loaded from an index file, next to the entries. -/
def loadedRevidx (entries : UMap (CacheEntry ν)) (idx : Option Str) : UMap (List Str) :=
  match idx with
  | none => ∅
  | some text => loadRevidx lib entries text ∅

theorem restart_entries (s : L2PersistentCache ν) :
    (restart lib s).entries = loadedEntries lib s.dataFile := by
  unfold restart loadFromDisk
  cases s.dataFile with
  | none => rfl
  | some text => rcases s.revidxFile with _ | idx <;> exact foldl_loadLine lib _ ∅

/-- Without a data file the index file is not read. -/
theorem restart_depRev (s : L2PersistentCache ν) :
    (restart lib s).depRev = match s.dataFile with
      | none => ∅
      | some _ => loadedRevidx lib (loadedEntries lib s.dataFile) s.revidxFile := by
  unfold restart loadFromDisk
  cases s.dataFile with
  | none => rfl
  | some text =>
    cases s.revidxFile with
    | none => rfl
    | some idx => exact congrArg (fun m => loadRevidx lib m idx ∅) (foldl_loadLine lib _ ∅)

end Load

/-! ## Reading back what was saved -/

/-- The JSON library can store every entry and the index. -/
structure Storable (lib : JsonLib ν) (s : L2PersistentCache ν) : Prop where
  entries : ∀ k e, s.entries.lookup k = some e → lib.RoundTrips e.toJson
  revidx : lib.RoundTrips (revidxJson s.depRev)

/-- Every entry is stored under its own key. -/
def KeysMatch (s : L2PersistentCache ν) : Prop :=
  ∀ k e, s.entries.lookup k = some e → e.key = k

theorem dataLines_of_roundTrips (lib : JsonLib ν) {es : List (CacheEntry ν)}
    (h : ∀ e ∈ es, lib.RoundTrips e.toJson) : (dataLines lib es).2 = false := by
  induction es with
  | nil => rfl
  | cons e es ih =>
      obtain ⟨text, hdump, -, -, -⟩ := h e (by simp)
      simp [dataLines, hdump, ih fun e he => h e (by simp [he])]

theorem mem_values {s : L2PersistentCache ν} {e : CacheEntry ν}
    (he : e ∈ s.entries.entries.map Sigma.snd) : ∃ k, s.entries.lookup k = some e := by
  obtain ⟨p, hp, rfl⟩ := List.mem_map.1 he
  exact ⟨p.1, AList.lookup_of_mem_entries hp⟩

theorem saveToDisk_returns {lib : JsonLib ν} {s : L2PersistentCache ν} (h : Storable lib s) :
    (saveToDisk lib s).threw = false := by
  refine dataLines_of_roundTrips lib fun e he => ?_
  obtain ⟨k, hk⟩ := mem_values he
  exact h.entries k e hk

theorem saveRevidx_of_storable {lib : JsonLib ν} {s : L2PersistentCache ν} (h : Storable lib s) :
    ∃ text, lib.parse text = some (revidxJson s.depRev) ∧
      saveRevidx lib s = .ok { s with revidxFile := some text } := by
  obtain ⟨text, hdump, hparse, -, -⟩ := h.revidx
  exact ⟨text, hparse, by simp [saveRevidx, hdump]⟩

section Read

variable [Double ν] (lib : JsonLib ν)

theorem lineEntries_dataLines {es : List (CacheEntry ν)} (h : ∀ e ∈ es, lib.RoundTrips e.toJson) :
    lineEntries lib (dataLines lib es).1 = es := by
  induction es with
  | nil => rfl
  | cons e es ih =>
      obtain ⟨text, hdump, hparse, hline, hne⟩ := h e (by simp)
      have ih := ih fun e he => h e (by simp [he])
      unfold lineEntries at ih ⊢
      simp only [dataLines, hdump]
      rw [getlines_line [] text _ hline, List.nil_append, List.filterMap_cons_some, ih]
      simp [hne, hparse, CacheEntry.fromJson_toJson]

/-- The data file that a save leaves holds the entries. -/
theorem lookup_loadedEntries_save {s : L2PersistentCache ν} (h : Storable lib s)
    (hkeys : s.KeysMatch) (k : Str) :
    (loadedEntries lib (saveToDisk lib s).state.dataFile).lookup k = s.entries.lookup k := by
  have hes : ∀ e ∈ s.entries.entries.map Sigma.snd, lib.RoundTrips e.toJson := by
    intro e he
    obtain ⟨k, hk⟩ := mem_values he
    exact h.entries k e hk
  have hpairs : (s.entries.entries.map Sigma.snd).map (fun e => (e.key, e)) = s.entries.pairs := by
    rw [AList.pairs, List.map_map]
    refine List.map_congr_left fun p hp => ?_
    simp [hkeys p.1 p.2 (AList.lookup_of_mem_entries hp)]
  simp only [loadedEntries, saveToDisk, Option.map_some, Option.getD_some]
  rw [lineEntries_dataLines lib hes, hpairs]
  exact AList.lookup_insertAll_perm (List.Perm.refl _) k

omit [Double ν] in
theorem storeLists_lists (ps : List (Str × List Str)) (m : UMap (List Str)) :
    storeLists (ps.map fun p => (p.1, Json.array (ν := ν) (p.2.map .string))) m =
      (m.insertAll ps, false) := by
  induction ps generalizing m with
  | nil => rfl
  | cons p ps ih => simp [storeLists, ih, AList.insertAll_cons]

omit [Double ν] in
theorem items_revidxJson (depRev : UMap (List Str)) :
    (revidxJson depRev : Json ν).items =
      (Json.members depRev.pairs).map fun p => (p.1, .array (p.2.map .string)) := by
  unfold revidxJson
  rcases depRev.pairs with _ | ⟨p, ps⟩
  · rfl
  · exact Json.members_map (fun v : List Str => Json.array (v.map .string)) (p :: ps)

omit [Double ν] in
/-- The index file that a save leaves holds the index, whatever the entries are. -/
theorem lookup_loadRevidx_save {lib : JsonLib ν} {depRev : UMap (List Str)} {text : Str}
    (h : lib.parse text = some (revidxJson depRev)) (entries : UMap (CacheEntry ν)) (d : Str) :
    (loadRevidx lib entries text ∅).lookup d = depRev.lookup d := by
  have hnodup : (depRev.pairs.map Prod.fst).Nodup := by
    rw [AList.map_fst_pairs]
    exact depRev.keys_nodup
  have hload : loadRevidx lib entries text ∅ =
      (∅ : UMap (List Str)).insertAll (Json.members depRev.pairs) := by
    simp [loadRevidx, h, items_revidxJson, storeLists_lists]
  rw [hload]
  exact AList.lookup_insertAll_perm (Json.members_perm hnodup) d

end Read

/-! ## The files mirror the memory -/

section Mirror

variable [Double ν] (lib : JsonLib ν)

/-- The files hold what the memory holds, up to access counts. -/
structure Mirrors (s : L2PersistentCache ν) : Prop where
  keys : s.KeysMatch
  data : ∀ k, ((loadedEntries lib s.dataFile).lookup k).map CacheEntry.forgetAccess =
    (s.entries.lookup k).map CacheEntry.forgetAccess
  revidx : ∀ entries d, (loadedRevidx lib entries s.revidxFile).lookup d = s.depRev.lookup d
  noData : s.dataFile = none → ∀ d, s.depRev.lookup d = none

theorem Mirrors.restart {lib : JsonLib ν} {s : L2PersistentCache ν} (h : Mirrors lib s) :
    (∀ k, ((restart lib s).entries.lookup k).map CacheEntry.forgetAccess =
      (s.entries.lookup k).map CacheEntry.forgetAccess) ∧
    ∀ d, (restart lib s).depRev.lookup d = s.depRev.lookup d := by
  refine ⟨fun k => by rw [restart_entries, h.data], fun d => ?_⟩
  rw [restart_depRev]
  cases hd : s.dataFile with
  | none => simp [h.noData hd d]
  | some text => exact h.revidx _ d

theorem mirrors_empty : Mirrors lib ({} : L2PersistentCache ν) where
  keys := by
    intro k e he
    cases he
  data _ := rfl
  revidx _ _ := rfl
  noData _ _ := rfl

/-- A save of both files. -/
theorem mirrors_save {s : L2PersistentCache ν} (hkeys : (save lib s).state.KeysMatch)
    (h : Storable lib (save lib s).state) : Mirrors lib (save lib s).state := by
  have hs : Storable lib s := by
    refine ⟨fun k e he => h.entries k e (by rw [save_entries, he]), ?_⟩
    rw [← save_depRev lib s]
    exact h.revidx
  have hks : s.KeysMatch := fun k e he => hkeys k e (by rw [save_entries, he])
  have hsave : (save lib s).state = (saveRevidx lib (saveToDisk lib s).state).state := by
    rw [save, Outcome.andThen_of_returns (saveToDisk_returns hs)]
  have hdisk : Storable lib (saveToDisk lib s).state := ⟨hs.entries, hs.revidx⟩
  obtain ⟨text, hparse, hrev⟩ := saveRevidx_of_storable hdisk
  rw [hsave, hrev]
  exact {
    keys := hks
    data := fun k => congrArg _ (lookup_loadedEntries_save lib hs hks k)
    revidx := fun entries d => lookup_loadRevidx_save hparse entries d
    noData := fun hnone => by cases hnone }

/-- A save of the data file, when the index file is up to date. -/
theorem mirrors_saveToDisk {s : L2PersistentCache ν} (hkeys : s.KeysMatch)
    (h : Storable lib (saveToDisk lib s).state)
    (hrev : ∀ entries d, (loadedRevidx lib entries s.revidxFile).lookup d = s.depRev.lookup d) :
    Mirrors lib (saveToDisk lib s).state where
  keys := hkeys
  data k := congrArg _ (lookup_loadedEntries_save lib ⟨h.entries, h.revidx⟩ hkeys k)
  revidx := hrev
  noData hnone := by cases hnone

/-- What a call does to the files: it saves both, it saves the entries and has not touched the index,
or it saves nothing and has changed access counts at most. -/
theorem apply_cases (op : Op ν) (s : L2PersistentCache ν) :
    (∃ t, op.apply lib s = save lib t) ∨
    (∃ t, op.apply lib s = saveToDisk lib t ∧ t.depRev = s.depRev ∧ t.revidxFile = s.revidxFile) ∨
    ((op.apply lib s).state.dataFile = s.dataFile ∧
      (op.apply lib s).state.revidxFile = s.revidxFile ∧
      (op.apply lib s).state.depRev = s.depRev ∧
      ∀ k, ((op.apply lib s).state.entries.lookup k).map CacheEntry.forgetAccess =
        (s.entries.lookup k).map CacheEntry.forgetAccess) := by
  have unchanged (t : L2PersistentCache ν) : t.dataFile = t.dataFile ∧
      t.revidxFile = t.revidxFile ∧ t.depRev = t.depRev ∧
      ∀ k, (t.entries.lookup k).map CacheEntry.forgetAccess =
        (t.entries.lookup k).map CacheEntry.forgetAccess := ⟨rfl, rfl, rfl, fun _ => rfl⟩
  cases op with
  | set key entry => exact Or.inl ⟨_, rfl⟩
  | get key now =>
    have hfiles : (get key now s).2.dataFile = s.dataFile ∧
        (get key now s).2.revidxFile = s.revidxFile := by
      unfold get
      split
      · exact ⟨rfl, rfl⟩
      · split_ifs <;> exact ⟨rfl, rfl⟩
    exact Or.inr (Or.inr ⟨hfiles.1, hfiles.2, get_depRev key now s,
      lookup_get_view (fun _ => rfl) key now s⟩)
  | remove key =>
    simp only [Op.apply, remove]
    split
    · exact Or.inl ⟨_, rfl⟩
    · exact Or.inl ⟨_, rfl⟩
  | softInvalidate key reason =>
    simp only [Op.apply, softInvalidate]
    split
    · exact Or.inr (Or.inr (unchanged s))
    · exact Or.inr (Or.inl ⟨_, rfl, rfl, rfl⟩)
  | hardInvalidate key reason cascading =>
    simp only [Op.apply, hardInvalidate]
    split
    · exact Or.inr (Or.inr (unchanged s))
    · exact Or.inl ⟨_, rfl⟩
  | applyConfidenceDecay now => exact Or.inr (Or.inl ⟨_, rfl, rfl, rfl⟩)
  | purgeExpired now =>
    simp only [Op.apply, purgeExpired]
    split_ifs
    · exact Or.inr (Or.inr (unchanged s))
    · exact Or.inl ⟨_, rfl⟩

/-- Every `set` is called with the key of the entry, as the coordinator calls it. -/
def Op.OwnKey : Op ν → Prop
  | .set key entry => key = entry.key
  | _ => True

theorem keysMatch_apply (op : Op ν) (hop : op.OwnKey) {s : L2PersistentCache ν}
    (hs : s.KeysMatch) : (op.apply lib s).state.KeysMatch := by
  intro k e' he'
  rcases lookup_apply lib op s k e' he' with rfl | ⟨e, he, haged⟩
  · exact Eq.symm hop
  · rw [haged.key, hs k e he]

/-- Every call keeps the files mirroring the memory, if what it leaves can be stored. -/
theorem mirrors_apply (op : Op ν) (hop : op.OwnKey) {s : L2PersistentCache ν} (hs : Mirrors lib s)
    (h : Storable lib (op.apply lib s).state) : Mirrors lib (op.apply lib s).state := by
  have hkeys := keysMatch_apply lib op hop hs.keys
  rcases apply_cases lib op s with ⟨t, ht⟩ | ⟨t, ht, hdep, hfile⟩ | ⟨hdata, hfile, hdep, hview⟩
  · rw [ht] at hkeys h ⊢
    exact mirrors_save lib hkeys h
  · rw [ht] at hkeys h ⊢
    refine mirrors_saveToDisk lib hkeys h fun entries d => ?_
    rw [hfile, hdep]
    exact hs.revidx entries d
  · exact {
      keys := hkeys
      data := fun k => by rw [hdata, hview, hs.data]
      revidx := fun entries d => by rw [hfile, hdep, hs.revidx]
      noData := fun hnone d => by rw [hdep, hs.noData (hdata ▸ hnone)] }

theorem mirrors_run (ops : List (Op ν)) (hops : ∀ op ∈ ops, op.OwnKey) {s : L2PersistentCache ν}
    (hs : Mirrors lib s) (h : ∀ pre, pre <+: ops → Storable lib (run lib s pre)) :
    Mirrors lib (run lib s ops) := by
  induction ops generalizing s with
  | nil => exact hs
  | cons op ops ih =>
      have hstep : Storable lib (op.apply lib s).state := h [op] (by simp)
      refine ih (fun o ho => hops o (by simp [ho])) (mirrors_apply lib op (hops op (by simp)) hs hstep)
        fun pre hpre => ?_
      exact h (op :: pre) (by simpa using hpre)

/-- In every run from a store without files, the files mirror the memory as long as the library can
store what the memory holds. -/
theorem run_restart_mirrors (ops : List (Op ν)) (hops : ∀ op ∈ ops, op.OwnKey)
    (h : ∀ pre, pre <+: ops → Storable lib (run lib {} pre)) :
    let s := run lib {} ops
    (∀ k, ((restart lib s).entries.lookup k).map CacheEntry.forgetAccess =
      (s.entries.lookup k).map CacheEntry.forgetAccess) ∧
    ∀ d, (restart lib s).depRev.lookup d = s.depRev.lookup d :=
  (mirrors_run lib ops hops (mirrors_empty lib) h).restart

end Mirror

/-- An entry that depends on another key. -/
def noteEntry : CacheEntry ℚ :=
  { CacheEntry.empty with
    key := str "note"
    output := str "one\ntwo"
    dependsOn := [str "source"] }

/-- The index with the one edge of `noteEntry`. -/
def noteRevidx : UMap (List Str) := AList.singleton (str "source") [str "note"]

/-- The library on the values of a store with `noteEntry`. -/
def noteLib : JsonLib ℚ :=
  JsonLib.on Json.showRat [revidxJson ∅, revidxJson noteRevidx, noteEntry.toJson]

/-- The run that stores `noteEntry`. -/
def noteOps : List (Op ℚ) := [.set (str "note") noteEntry]

theorem noteRun_entries : (run noteLib {} noteOps).entries = AList.singleton (str "note") noteEntry :=
  save_entries noteLib _

theorem noteRun_depRev : (run noteLib {} noteOps).depRev = noteRevidx :=
  save_depRev noteLib _

theorem storable_noteStart : Storable noteLib {} where
  entries _ _ he := by cases he
  revidx := JsonLib.on_roundTrips [] _ (by decide) (by decide) (by decide)

theorem storable_noteRun : Storable noteLib (run noteLib {} noteOps) where
  entries k e he := by
    rw [noteRun_entries] at he
    have hmem := List.mem_singleton.1 (AList.mem_entries_of_lookup he)
    cases hmem
    exact JsonLib.on_roundTrips [revidxJson ∅, revidxJson noteRevidx] [] (by decide +kernel)
      (by decide +kernel) (by decide +kernel)
  revidx := by
    rw [noteRun_depRev]
    exact JsonLib.on_roundTrips [revidxJson ∅] _ (by decide) (by decide) (by decide)

theorem run_restart_mirrors_note :
    ((restart noteLib (run noteLib {} noteOps)).entries.lookup (str "note")).map
        CacheEntry.forgetAccess = some noteEntry.forgetAccess ∧
      (restart noteLib (run noteLib {} noteOps)).depRev.lookup (str "source") =
        some [str "note"] := by
  have h := run_restart_mirrors noteLib noteOps (by simp [noteOps, Op.OwnKey, noteEntry])
    fun pre hpre => by
      rcases List.prefix_cons_iff.1 hpre with rfl | ⟨t, rfl, ht⟩
      · exact storable_noteStart
      · rw [List.prefix_nil.1 ht]
        exact storable_noteRun
  refine ⟨(h.1 _).trans ?_, (h.2 _).trans ?_⟩
  · rw [noteRun_entries]
    rfl
  · rw [noteRun_depRev]
    rfl

end L2PersistentCache

end LlmGateway
