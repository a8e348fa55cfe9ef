import LlmGateway.GatewayCache
import LlmGateway.Utf8Json

/-!
# Valid text in the caches

A save prints every entry, and `archive_session` prints the turns of a session.  The JSON library refuses
to print a string that is not valid UTF-8: `save_to_disk` then stops at the entry, after it has truncated
the file, and `archive_session` throws before it releases the session.

`ValidTexts` says that the caches hold valid text only.  Then a save returns with a line for every entry
(`save_of_valid`), and archiving releases the session (`archiveSession_of_valid`).  The operations keep
it as long as what they are given is valid, and a new process finds it, whatever the files hold
(`validTexts_init`).
-/

namespace LlmGateway

open InverseIndex

variable {ν : Type}

/-! ## The persistent cache -/

namespace L2PersistentCache

/-- Every key and every entry is valid text. -/
def ValidEntries (m : UMap (CacheEntry ν)) : Prop :=
  ∀ k e, m.lookup k = some e → Utf8.Valid k ∧ e.Valid

/-- All text of the store is valid UTF-8. -/
structure ValidTexts (s : L2PersistentCache ν) : Prop where
  entries : ValidEntries s.entries
  depRev : Within Utf8.Valid Utf8.Valid s.depRev

theorem ValidEntries.insert {m : UMap (CacheEntry ν)} (h : ValidEntries m) {key : Str}
    {e : CacheEntry ν} (hkey : Utf8.Valid key) (he : e.Valid) : ValidEntries (m.insert key e) :=
  AList.forall_lookup_insert h ⟨hkey, he⟩

theorem ValidEntries.modify {m : UMap (CacheEntry ν)} (h : ValidEntries m)
    {f : CacheEntry ν → CacheEntry ν} (hf : ∀ e : CacheEntry ν, e.Valid → (f e).Valid) (key : Str) :
    ValidEntries (m.modify key f) :=
  AList.forall_lookup_modify h fun e he => ⟨he.1, hf e he.2⟩

/-! ### Saving -/

theorem valid_revidxJson {depRev : UMap (List Str)} (h : Within Utf8.Valid Utf8.Valid depRev) :
    (revidxJson depRev : Json ν).Valid := by
  unfold revidxJson
  split
  · exact Json.valid_null
  · refine Json.valid_object_members fun p hp => ?_
    obtain ⟨⟨d, v⟩, hmem, rfl⟩ := List.mem_map.1 hp
    obtain ⟨hd, hv⟩ := h d v (AList.mem_pairs.1 hmem)
    exact ⟨hd, Json.valid_array_string.2 hv⟩

section Save

variable {lib : JsonLib ν} (hlib : lib.Strict)

/-- The store after a save that returned has a line for every entry in its data file. -/
def HasLines (lib : JsonLib ν) (s : L2PersistentCache ν) : Prop :=
  ∃ lines : List Str, s.dataFile = some (lines.flatMap fun line => line ++ [newline]) ∧
    List.Forall₂ (fun e line => lib.dump e.toJson = some line)
      (s.entries.entries.map Sigma.snd) lines

include hlib

theorem dataLines_of_valid {es : List (CacheEntry ν)} (h : ∀ e ∈ es, e.Valid) :
    ∃ lines : List Str, dataLines lib es = (lines.flatMap fun line => line ++ [newline], false) ∧
      List.Forall₂ (fun e line => lib.dump e.toJson = some line) es lines := by
  induction es with
  | nil => exact ⟨[], rfl, .nil⟩
  | cons e es ih =>
      obtain ⟨lines, hlines, hall⟩ := ih fun e he => h e (by simp [he])
      have hdump := (hlib.dump_isSome e.toJson).2 (CacheEntry.valid_toJson (h e (by simp)))
      obtain ⟨line, hline⟩ := Option.isSome_iff_exists.1 hdump
      refine ⟨line :: lines, ?_, .cons hline hall⟩
      simp [dataLines, hline, hlines]

/-- A save of valid text returns, and writes a line for every entry. -/
theorem save_of_valid {s : L2PersistentCache ν} (h : s.ValidTexts) :
    (save lib s).threw = false ∧ HasLines lib (save lib s).state := by
  have hentries : ∀ e ∈ s.entries.entries.map Sigma.snd, e.Valid := by
    intro e he
    obtain ⟨k, hk⟩ := mem_values he
    exact (h.entries k e hk).2
  obtain ⟨lines, hlines, hall⟩ := dataLines_of_valid hlib hentries
  have hdisk : saveToDisk lib s =
      .ok { s with dataFile := some (lines.flatMap fun line => line ++ [newline]) } := by
    rw [saveToDisk, hlines]
    rfl
  obtain ⟨text, htext⟩ := Option.isSome_iff_exists.1
    ((hlib.dump_isSome (revidxJson s.depRev)).2 (valid_revidxJson h.depRev))
  rw [save, hdisk, Outcome.ok_andThen, saveRevidx]
  simp only [htext]
  exact ⟨rfl, lines, rfl, hall⟩

end Save

/-! ### Operations -/

/-- The reason is valid text, or that of an entry. -/
def ReasonRef.Valid : ReasonRef → Prop
  | .caller reason => Utf8.Valid reason
  | .entry _ => True

theorem ReasonRef.Valid.read {reason : ReasonRef} (h : reason.Valid) {m : UMap (CacheEntry ν)}
    (hm : ValidEntries m) : Utf8.Valid (reason.read m) := by
  cases reason with
  | caller reason => exact h
  | entry key =>
    rw [ReasonRef.read]
    cases hk : m.lookup key with
    | none => exact Utf8.valid_nil
    | some e => exact (hm key e hk).2 _ (by simp [CacheEntry.strings])

theorem valid_upstreamReason {key reason : Str} (hkey : Utf8.Valid key) (hreason : Utf8.Valid reason) :
    Utf8.Valid (upstreamReason key reason) :=
  (((valid_str _).append hkey).append (valid_str _)).append hreason

section Operations

variable [Double ν]

/-- What a cascade writes is made of keys of the index, reasons of entries and the reason it is called
with. -/
theorem ValidEntries.cascade {depRev : UMap (List Str)} (hdep : Within Utf8.Valid Utf8.Valid depRev)
    {m : UMap (CacheEntry ν)} (hm : ValidEntries m) {key reason : Str} (hkey : Utf8.Valid key)
    (hreason : Utf8.Valid reason) : ValidEntries (cascade depRev m key reason) := by
  obtain ⟨visited, hw⟩ := cascadeInvalidateInternal_eq_cascade depRev m key reason le_rfl
  rw [cascadeInvalidateInternal_eq_visit] at hw
  generalize L2PersistentCache.cascade depRev m key reason = m' at hw ⊢
  have hroot : Utf8.Valid key ∧ (ReasonRef.caller reason).Valid := ⟨hkey, hreason⟩
  refine Walk.visit_invariant (J := ValidEntries)
    (Q := fun k reason => Utf8.Valid k ∧ ReasonRef.Valid reason) ?_ ?_ hm hroot hw
  · intro m a d r hm ⟨ha, hr⟩ _
    exact hm.modify (fun e he => he.withReason _ _ (valid_upstreamReason ha (hr.read hm))) d
  · intro a d r _ hd
    exact ⟨hdep.listAt a d hd, trivial⟩

omit [Double ν] in
theorem ValidTexts.get {s : L2PersistentCache ν} (h : s.ValidTexts) (key : Str) (now : Int64) :
    (get key now s).2.ValidTexts := by
  rw [get_eq]
  split
  · exact h
  · exact ⟨h.entries.modify (fun e he => he.touch) key, h.depRev⟩

omit [Double ν] in
/-- `set` saves what it builds in memory. -/
theorem ValidTexts.set (lib : JsonLib ν) {s : L2PersistentCache ν} (h : s.ValidTexts) {key : Str}
    {e : CacheEntry ν} (hkey : Utf8.Valid key) (he : e.Valid) :
    ∃ t : L2PersistentCache ν, t.ValidTexts ∧ set lib key e s = save lib t := by
  refine ⟨_, ⟨h.entries.insert hkey he, ?_⟩, rfl⟩
  refine List.foldlRecOn _ _ ?_ fun ix hix d hd => hix.add hkey (he.dependsOn d hd)
  split
  · next old hold =>
    have hold := (h.entries key old hold).2
    exact List.foldlRecOn _ _ h.depRev fun ix hix d hd => hix.drop key (hold.dependsOn d hd)
  · exact h.depRev

omit [Double ν] in
theorem ValidTexts.save (lib : JsonLib ν) {s : L2PersistentCache ν} (h : s.ValidTexts) :
    (save lib s).state.ValidTexts where
  entries := by
    rw [save_entries]
    exact h.entries
  depRev := by
    rw [save_depRev]
    exact h.depRev

theorem ValidTexts.hardInvalidate (lib : JsonLib ν) {s : L2PersistentCache ν} (h : s.ValidTexts)
    {key reason : Str} (hreason : Utf8.Valid reason) (cascading : Bool) :
    (hardInvalidate lib key reason cascading s).state.ValidTexts := by
  unfold L2PersistentCache.hardInvalidate
  split
  · exact h
  · next e he =>
    have hkey := (h.entries key e he).1
    have hmark := h.entries.modify (fun e he => he.withReason .INVALIDATED (Double.lit 0) hreason) key
    refine ValidTexts.save lib ⟨?_, h.depRev⟩
    split_ifs
    · exact hmark.cascade h.depRev hkey hreason
    · exact hmark

end Operations

/-! ### Loading -/

section Load

variable [Double ν] {lib : JsonLib ν} (hlib : lib.Strict)

include hlib

theorem valid_lineEntries (text : Str) : ∀ e ∈ lineEntries lib text, e.Valid := by
  intro e he
  obtain ⟨line, -, hline⟩ := List.mem_filterMap.1 he
  split_ifs at hline
  obtain ⟨j, hj, he⟩ := Option.bind_eq_some_iff.1 hline
  exact CacheEntry.valid_fromJson (hlib.parse line j hj) he

theorem valid_loadedEntries (data : Option Str) : ValidEntries (loadedEntries lib data) := by
  have h : ∀ e ∈ (data.map (lineEntries lib)).getD [], e.Valid := by
    cases data with
    | none => simp
    | some text => exact valid_lineEntries hlib text
  have hempty : ValidEntries (∅ : UMap (CacheEntry ν)) := fun k e he => by cases he
  refine List.foldlRecOn _ _ hempty fun m hm p hp => ?_
  obtain ⟨e, he, rfl⟩ := List.mem_map.1 hp
  exact hm.insert (h e he).key (h e he)

omit [Double ν] hlib in
theorem within_storeLists {items : List (Str × Json ν)}
    (h : ∀ p ∈ items, Utf8.Valid p.1 ∧ p.2.Valid) {m : UMap (List Str)}
    (hm : Within Utf8.Valid Utf8.Valid m) :
    Within Utf8.Valid Utf8.Valid (storeLists items m).1 := by
  induction items generalizing m with
  | nil => exact hm
  | cons p items ih =>
      obtain ⟨k, v⟩ := p
      have hp := h (k, v) (by simp)
      unfold storeLists
      split
      · exact hm
      · next xs hxs =>
        exact ih (fun q hq => h q (by simp [hq])) (hm.insert hp.1 (hp.2.getStrings hxs))

omit [Double ν] hlib in
theorem within_rebuildRevidx {m : UMap (CacheEntry ν)} (hm : ValidEntries m)
    {depRev : UMap (List Str)} (h : Within Utf8.Valid Utf8.Valid depRev) :
    Within Utf8.Valid Utf8.Valid (rebuildRevidx m depRev) := by
  refine List.foldlRecOn _ _ h fun ix hix p hp => ?_
  obtain ⟨hkey, he⟩ := hm p.1 p.2 (AList.lookup_of_mem_entries hp)
  exact List.foldlRecOn _ _ hix fun ix hix d hd => hix.push hkey (he.dependsOn d hd)

/-- A new process finds valid text, whatever the files hold. -/
theorem validTexts_restart (s : L2PersistentCache ν) : (restart lib s).ValidTexts where
  entries := by
    rw [restart_entries]
    exact valid_loadedEntries hlib _
  depRev := by
    rw [restart_depRev]
    split
    · exact within_empty
    · unfold loadedRevidx
      split
      · exact within_empty
      · unfold loadRevidx
        have hentries := valid_loadedEntries hlib s.dataFile
        split
        · exact within_rebuildRevidx hentries within_empty
        · next rj hrj =>
          have hstored := within_storeLists (hlib.parse _ rj hrj).items within_empty
          dsimp only
          split_ifs
          · exact within_rebuildRevidx hentries hstored
          · exact hstored

end Load

end L2PersistentCache

/-! ## The coordinator -/

namespace CacheCoordinator

/-- All text of the caches and the session buffers is valid UTF-8, as is the name of the archive's
directory. -/
structure ValidTexts (c : CacheCoordinator ν) : Prop where
  l1 : ∀ k e, c.l1.find k = some e → e.Valid
  l2 : c.l2.ValidTexts
  baseDir : Utf8.Valid c.l3.baseDir
  sessions : ∀ id sb, c.sessions.lookup id = some sb → sb.Valid

/-! ### References -/

theorem valid_padded (width : ℕ) (n : ℤ) : Utf8.Valid (L3ArchiveStore.padded width n) := by
  refine Utf8.Valid.append (Utf8.valid_ascii fun b hb => ?_) (valid_str _)
  rw [List.eq_of_mem_replicate hb]
  decide

theorem valid_refOf (host : Host) (key : Str) (tsMs : Int64) {s : L3ArchiveStore}
    (h : Utf8.Valid s.baseDir) : Utf8.Valid (s.refOf host key tsMs) := by
  unfold L3ArchiveStore.refOf L3ArchiveStore.makeKeyPath L3ArchiveStore.hex
  dsimp only
  exact (valid_str _).append ((((((((h.append (valid_str _)).append (valid_padded _ _)).append
    (valid_padded _ _)).append (valid_padded _ _)).append (valid_str _)).append
    (valid_str _)).append (valid_str _)))

theorem valid_l2Entry (platform : Platform ν) (now : Clock) {l3 : L3ArchiveStore}
    (hl3 : Utf8.Valid l3.baseDir) {e : CacheEntry ν} (he : e.Valid) :
    (l2Entry platform now l3 e).Valid := by
  unfold l2Entry
  split_ifs
  · intro s hs
    have hs' : s = [] ∨ s = l3.refOf platform.toHost e.key now.wall ∨ s ∈ e.strings := by
      simp only [CacheEntry.strings, List.cons_append, List.nil_append, List.mem_cons] at hs ⊢
      tauto
    rcases hs' with rfl | rfl | hs'
    · exact Utf8.valid_nil
    · exact valid_refOf _ _ _ hl3
    · exact he s hs'
  · exact he

theorem valid_stamped (now : Clock) {e : CacheEntry ν} (he : e.Valid) : (stamped now e).Valid := by
  unfold stamped
  split_ifs
  · exact he
  · exact he

/-! ### Operations -/

section Operations

theorem write_sessions (platform : Platform ν) (entry : CacheEntry ν) (now : Clock)
    (c : CacheCoordinator ν) : (write platform entry now c).state.sessions = c.sessions := by
  simp only [write, Outcome.map_state]
  split_ifs <;> rfl

theorem ValidTexts.write (platform : Platform ν) {entry : CacheEntry ν} (hentry : entry.Valid)
    (now : Clock) {c : CacheCoordinator ν} (h : c.ValidTexts) :
    (write platform entry now c).state.ValidTexts where
  l1 := by
    rw [write_l1]
    split_ifs
    · exact L1Store.forall_find_set h.l1 (valid_stamped now hentry)
    · exact h.l1
  l2 := by
    rw [write_l2]
    obtain ⟨t, ht, hset⟩ := h.l2.set platform.json hentry.key
      (valid_l2Entry platform now h.baseDir (valid_stamped now hentry))
    rw [hset]
    exact ht.save platform.json
  baseDir := by
    rw [write_l3]
    split_ifs
    · exact h.baseDir
    · exact h.baseDir
  sessions := by
    rw [write_sessions]
    exact h.sessions

theorem ValidTexts.appendTurn {sessionId : Str} (hid : Utf8.Valid sessionId) {turn : SessionTurn ν}
    (hturn : turn.Valid) {c : CacheCoordinator ν} (h : c.ValidTexts) :
    (appendTurn sessionId turn c).ValidTexts where
  l1 := h.l1
  l2 := h.l2
  baseDir := h.baseDir
  sessions := by
    have hsession : ((c.sessions.lookup sessionId).getD { sessionId }).Valid := by
      cases hlookup : c.sessions.lookup sessionId with
      | none => exact ⟨hid, by simp⟩
      | some sb => exact h.sessions sessionId sb hlookup
    exact AList.forall_lookup_insert h.sessions (hsession.append hturn)

theorem ValidTexts.closeSession {c : CacheCoordinator ν} (h : c.ValidTexts) (sessionId : Str) :
    (closeSession sessionId c).ValidTexts where
  l1 := h.l1
  l2 := h.l2
  baseDir := h.baseDir
  sessions := AList.forall_lookup_erase h.sessions sessionId

theorem ValidTexts.archiveSession (platform : Platform ν) (sessionId : Str) (now : Clock)
    {c : CacheCoordinator ν} (h : c.ValidTexts) :
    (archiveSession platform sessionId now c).state.ValidTexts := by
  unfold CacheCoordinator.archiveSession
  split
  · exact h
  · split_ifs
    · exact h.closeSession sessionId
    · split
      · exact h
      · next text _ =>
        have hput : ({ c with
            l3 := c.l3.put platform.toHost (str "session:" ++ sessionId) text now.wall } :
            CacheCoordinator ν).ValidTexts := ⟨h.l1, h.l2, h.baseDir, h.sessions⟩
        exact hput.closeSession sessionId

/-- Archiving a session of valid text returns, and releases the buffer. -/
theorem archiveSession_of_valid {platform : Platform ν} (hlib : platform.json.Strict)
    {c : CacheCoordinator ν} (h : c.ValidTexts) (sessionId : Str) (now : Clock) :
    (archiveSession platform sessionId now c).threw = false ∧
      (archiveSession platform sessionId now c).state.sessions.lookup sessionId = none := by
  unfold CacheCoordinator.archiveSession
  split
  · next hnone => exact ⟨rfl, hnone⟩
  · next sb hsb =>
    have hdump := (hlib.dump_isSome sb.toJson).2
      (SessionBuffer.valid_toJson (h.sessions sessionId sb hsb))
    split_ifs
    · exact ⟨rfl, AList.lookup_erase _ _⟩
    · split
      · next hthrow =>
        rw [hthrow] at hdump
        cases hdump
      · exact ⟨rfl, AList.lookup_erase _ _⟩

variable [Double ν]

/-- A query answers with valid text, and touches and promotes entries only. -/
theorem ValidTexts.query {c : CacheCoordinator ν} (h : c.ValidTexts)
    (agentId capability inputHash sessionId : Str) (now : Clock) :
    (∀ r, (query agentId capability inputHash sessionId now c).1 = some r → r.entry.Valid) ∧
      (query agentId capability inputHash sessionId now c).2.ValidTexts := by
  have hcases := query_cases agentId capability inputHash sessionId now c
  generalize CacheCoordinator.query agentId capability inputHash sessionId now c = r at hcases
  generalize cacheKey agentId capability inputHash = key at hcases
  have hl1 := L1Store.forall_find_get h.l1 key (fun e he => he.touch) now.steady
  have hl2 {k : Str} {e : CacheEntry ν} (he : c.l2.live k now.wall = some e) : e.touch.Valid :=
    (h.l2.entries k e (L2PersistentCache.live_eq_some.1 he).1).2.touch
  cases hcases with
  | l1 e hlive =>
    refine ⟨fun r hr => ?_, hl1, h.l2, h.baseDir, h.sessions⟩
    cases hr
    exact (h.l1 key e (L1Store.live_eq_some.1 hlive).1).touch
  | session e k _ _ hlive =>
    refine ⟨fun r hr => ?_, hl1, h.l2.get k now.wall, h.baseDir, h.sessions⟩
    cases hr
    exact hl2 hlive
  | l2 e _ _ hlive =>
    refine ⟨fun r hr => ?_, L1Store.forall_find_set hl1 (hl2 hlive), h.l2.get key now.wall, h.baseDir,
      h.sessions⟩
    cases hr
    exact hl2 hlive
  | miss =>
    refine ⟨fun r hr => ?_, hl1, h.l2, h.baseDir, h.sessions⟩
    cases hr

theorem ValidTexts.invalidate (platform : Platform ν) {reason : Str} (hreason : Utf8.Valid reason)
    (key : Str) (cascading : Bool) {c : CacheCoordinator ν} (h : c.ValidTexts) :
    (invalidate platform key reason cascading c).state.ValidTexts where
  l1 := L1Store.forall_find_invalidate h.l1 key
  l2 := h.l2.hardInvalidate platform.json hreason cascading
  baseDir := h.baseDir
  sessions := h.sessions

theorem validTexts_init {platform : Platform ν} (hlib : platform.json.Strict)
    (data idx : Option Str) {l3 : L3ArchiveStore} (hl3 : Utf8.Valid l3.baseDir) :
    (init platform data idx l3).ValidTexts where
  l1 _ _ he := by cases he
  l2 := L2PersistentCache.validTexts_restart hlib _
  baseDir := hl3
  sessions _ _ hsb := by cases hsb

/-- Which calls the cache answers. -/
theorem query_isSome_iff (agentId capability inputHash sessionId : Str) (now : Clock)
    (c : CacheCoordinator ν) :
    (query agentId capability inputHash sessionId now c).1.isSome ↔
      (c.l1.live (cacheKey agentId capability inputHash) now.steady).isSome ∨
        (c.sessionEntry capability sessionId now).isSome ∨
        (c.l2.live (cacheKey agentId capability inputHash) now.wall).isSome := by
  rw [query_fst]
  rcases c.l1.live (cacheKey agentId capability inputHash) now.steady with _ | e
  · rcases c.sessionEntry capability sessionId now with _ | e
    · simp
    · simp
  · simp

end Operations

end CacheCoordinator

end LlmGateway
