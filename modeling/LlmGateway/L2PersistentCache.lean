import LlmGateway.CacheEntry
import LlmGateway.Lib.InverseIndex
import LlmGateway.Lib.MarkingWalk
import LlmGateway.Lib.Outcome

/-!
# The persistent cache

`L2PersistentCache`: the entries, the reverse index from a key to the entries that depend on it,
and the two files, one JSON line per entry and one JSON object for the index.  Every operation is
given with its saves; a save throws when the library cannot dump a value, which leaves the memory
as it is.

The cascade walks the reverse index by recursion.  `cascadeInvalidateInternal` has the depth of the
recursion as fuel, and `cascade_isSome` shows that a depth of two more than the number of entries
is never used up, which `cascade` relies on.  The reason of a recursive call is a reference to the
`invalid_reason` of the entry it is called for, so it is read again at each use (`ReasonRef`).
-/

namespace LlmGateway

open InverseIndex

variable {ν : Type}

/-- Below this confidence an answer counts as stale. -/
def kConfidenceFresh [Double ν] : ν := Double.lit (7 / 10)

/-- Below this confidence an entry is marked `STALE`. -/
def kConfidenceStale [Double ν] : ν := Double.lit (3 / 10)

/-- The persistent cache with its reverse index, and what its files hold. -/
structure L2PersistentCache (ν : Type) where
  entries : UMap (CacheEntry ν) := ∅
  depRev : UMap (List Str) := ∅
  /-- The text of `data_file_`, if the file exists. -/
  dataFile : Option Str := none
  /-- The text of `revidx_file_`, if the file exists. -/
  revidxFile : Option Str := none

namespace L2PersistentCache

/-! ## Files -/

section Files

variable (lib : JsonLib ν)

/-- The lines of the data file, up to the first entry that cannot be dumped, and whether there is
one. -/
def dataLines : List (CacheEntry ν) → Str × Bool
  | [] => ([], false)
  | e :: es =>
      match lib.dump e.toJson with
      | none => ([], true)
      | some text => (text ++ newline :: (dataLines es).1, (dataLines es).2)

/-- Write the data file; a value that cannot be printed ends it early. -/
def saveToDisk (s : L2PersistentCache ν) : Outcome (L2PersistentCache ν) :=
  let written := dataLines lib (s.entries.entries.map Sigma.snd)
  ⟨{ s with dataFile := some written.1 }, written.2⟩

/-- The object that `rj[k] = v` builds; it stays `null` when there is no list. -/
def revidxJson (depRev : UMap (List Str)) : Json ν :=
  match depRev.pairs with
  | [] => .null
  | ps => .object (Json.members (ps.map fun p => (p.1, .array (p.2.map .string))))

/-- The file is truncated before the object is dumped. -/
def saveRevidx (s : L2PersistentCache ν) : Outcome (L2PersistentCache ν) :=
  match lib.dump (revidxJson s.depRev) with
  | some text => .ok { s with revidxFile := some text }
  | none => .throw { s with revidxFile := some [] }

/-- `save_to_disk(); save_revidx();` -/
def save (s : L2PersistentCache ν) : Outcome (L2PersistentCache ν) :=
  (saveToDisk lib s).andThen (saveRevidx lib)

/-- The lines that `std::getline` yields, where `cur` is the part of the current line already read. -/
def getlines (cur : Str) : Str → List Str
  | [] => if cur = [] then [] else [cur]
  | c :: cs => if c = newline then cur :: getlines [] cs else getlines (cur ++ [c]) cs

/-- Read one line of the data file; a line that does not parse to an entry is skipped. -/
def loadLine [Double ν] (m : UMap (CacheEntry ν)) (line : Str) : UMap (CacheEntry ν) :=
  if line = [] then m
  else
    match (lib.parse line).bind CacheEntry.fromJson with
    | some e => m.insert e.key e
    | none => m

/-- Store the lists of the index file one after the other, up to the first value that is not a list of
strings, and whether there is one. -/
def storeLists : List (Str × Json ν) → UMap (List Str) → UMap (List Str) × Bool
  | [], m => (m, false)
  | (k, v) :: rest, m =>
      match v.getStrings with
      | none => (m, true)
      | some xs => storeLists rest (m.insert k xs)

/-- The rebuild of the index: each entry is pushed to the list of each of its dependencies. -/
def rebuildRevidx (entries : UMap (CacheEntry ν)) (depRev : UMap (List Str)) : UMap (List Str) :=
  entries.entries.foldl (fun m p => p.2.dependsOn.foldl (push p.1) m) depRev

/-- Read the text of the index file, after the entries. -/
def loadRevidx (entries : UMap (CacheEntry ν)) (text : Str) (depRev : UMap (List Str)) :
    UMap (List Str) :=
  match lib.parse text with
  | none => rebuildRevidx entries depRev
  | some rj =>
      let stored := storeLists rj.items depRev
      if stored.2 then rebuildRevidx entries stored.1 else stored.1

/-- Read the data file, and then the index. -/
def loadFromDisk [Double ν] (s : L2PersistentCache ν) : L2PersistentCache ν :=
  match s.dataFile with
  | none => s
  | some text =>
      let entries := (getlines [] text).foldl (loadLine lib) s.entries
      match s.revidxFile with
      | none => { s with entries }
      | some idx => { s with entries, depRev := loadRevidx lib entries idx s.depRev }

/-- A new process: `init` starts with an empty memory and reads the files. -/
def restart [Double ν] (s : L2PersistentCache ν) : L2PersistentCache ν :=
  loadFromDisk lib { dataFile := s.dataFile, revidxFile := s.revidxFile }

/-- Save and clear the memory. -/
def shutdown (s : L2PersistentCache ν) : Outcome (L2PersistentCache ν) :=
  (save lib s).andThen fun s => .ok { s with entries := ∅, depRev := ∅ }

end Files

/-! ## Cascade -/

/-- A reason passed by reference: the caller's string, or the `invalid_reason` of an entry. -/
inductive ReasonRef where
  | caller (reason : Str)
  | entry (key : Str)

/-- The string that the reference denotes now. -/
def ReasonRef.read (entries : UMap (CacheEntry ν)) : ReasonRef → Str
  | .caller reason => reason
  | .entry key => ((entries.lookup key).map CacheEntry.invalidReason).getD []

section Cascade

/-- Whether the entry under a key is present and not yet `INVALIDATED`. -/
def cascadesInto (entries : UMap (CacheEntry ν)) (key : Str) : Bool :=
  match entries.lookup key with
  | none => false
  | some e => e.status ≠ .INVALIDATED

theorem cascadesInto_iff {entries : UMap (CacheEntry ν)} {key : Str} :
    cascadesInto entries key = true ↔
      ∃ e, entries.lookup key = some e ∧ e.status ≠ .INVALIDATED := by
  unfold cascadesInto
  rcases entries.lookup key with _ | e <;> simp

/-- The keys that the cascade can enter. -/
def liveKeys (entries : UMap (CacheEntry ν)) : Finset Str :=
  entries.keys.toFinset.filter fun k => cascadesInto entries k

theorem mem_liveKeys {entries : UMap (CacheEntry ν)} {key : Str} :
    key ∈ liveKeys entries ↔ cascadesInto entries key = true := by
  simp only [liveKeys, Finset.mem_filter, List.mem_toFinset]
  refine ⟨fun h => h.2, fun h => ⟨?_, h⟩⟩
  obtain ⟨e, he, -⟩ := cascadesInto_iff.1 h
  exact AList.mem_keys.1 (AList.lookup_isSome.1 (by rw [he]; rfl))

variable [Double ν]

/-- What the cascade does to a dependent. -/
def downgrade (reason : Str) (e : CacheEntry ν) : CacheEntry ν :=
  { e with
    status := .STALE
    confidence := Double.mul e.confidence (Double.lit (3 / 10))
    invalidReason := reason }

/-- The reason written to the dependents of `key`. -/
def upstreamReason (key reason : Str) : Str := str "上游 " ++ key ++ str " 已失效: " ++ reason

/-- The recursion of the cascade, up to a depth. -/
def cascadeInvalidateInternal (depRev : UMap (List Str)) :
    ℕ → Str → ReasonRef → UMap (CacheEntry ν) × List Str → Option (UMap (CacheEntry ν) × List Str)
  | 0, _, _, _ => none
  | depth + 1, key, reason, w =>
      if key ∈ w.2 then some w
      else
        let w := (w.1, w.2 ++ [key])
        match depRev.lookup key with
        | none => some w
        | some rev =>
            rev.foldlM (fun w depKey =>
              if cascadesInto w.1 depKey then
                let entries := w.1.modify depKey (downgrade (upstreamReason key (reason.read w.1)))
                cascadeInvalidateInternal depRev depth depKey (.entry depKey) (entries, w.2)
              else some w) w

/-- The cascade as a marking walk over the reverse index. -/
def cascadeWalk (depRev : UMap (List Str)) : Walk Str ReasonRef (UMap (CacheEntry ν)) where
  next := listAt depRev
  admits := cascadesInto
  mark entries key depKey reason :=
    entries.modify depKey (downgrade (upstreamReason key (reason.read entries)))
  pass _ depKey _ := .entry depKey

theorem cascadeInvalidateInternal_eq_visit (depRev : UMap (List Str)) (depth : ℕ) (key : Str)
    (reason : ReasonRef) (w : UMap (CacheEntry ν) × List Str) :
    cascadeInvalidateInternal depRev depth key reason w =
      (cascadeWalk depRev).visit depth key reason w := by
  induction depth generalizing key reason w with
  | zero => rfl
  | succ depth ih =>
      rw [cascadeInvalidateInternal, Walk.visit]
      by_cases hk : key ∈ w.2
      · rw [if_pos hk, if_pos hk]
      · rw [if_neg hk, if_neg hk]
        simp only [ih, cascadeWalk, listAt]
        rcases depRev.lookup key with _ | rev <;> rfl

theorem cascadesInto_modify (entries : UMap (CacheEntry ν)) (key depKey : Str) (reason : Str)
    (h : cascadesInto entries depKey = true) :
    cascadesInto (entries.modify depKey (downgrade reason)) key = cascadesInto entries key := by
  by_cases hk : key = depKey
  · subst hk
    obtain ⟨e, he, -⟩ := cascadesInto_iff.1 h
    rw [h]
    exact cascadesInto_iff.2 ⟨downgrade reason e, by simp [he], by simp [downgrade]⟩
  · simp [cascadesInto, hk]

/-- Downgrading a live entry changes neither the keys nor which entries are live. -/
theorem cascadeWalk_admits (depRev : UMap (List Str)) (entries : UMap (CacheEntry ν)) :
    (cascadeWalk depRev : Walk Str ReasonRef (UMap (CacheEntry ν))).Admits
      (fun m => m.keys = entries.keys ∧ ∀ k, cascadesInto m k = cascadesInto entries k)
      (fun k => cascadesInto entries k = true) where
  admits_iff := by
    rintro m ⟨-, hm⟩ d
    simp [cascadeWalk, hm]
  mark := by
    rintro m ⟨hkeys, hm⟩ a d r hd
    refine ⟨by simp [cascadeWalk, hkeys], fun k => ?_⟩
    rw [← hm k]
    exact cascadesInto_modify m k d _ (by rw [hm]; exact hd)

/-- The recursion is never deeper than the number of entries plus two. -/
theorem cascade_isSome (depRev : UMap (List Str)) (entries : UMap (CacheEntry ν)) (key : Str)
    (reason : ReasonRef) {depth : ℕ} (h : entries.keys.length + 2 ≤ depth) :
    (cascadeInvalidateInternal depRev depth key reason (entries, [])).isSome := by
  rw [cascadeInvalidateInternal_eq_visit]
  have hA := cascadeWalk_admits depRev entries
  simp only [← mem_liveKeys] at hA
  refine Walk.visit_isSome hA depth ⟨rfl, fun _ => rfl⟩ (Or.inr ?_)
  have h₁ := Walk.card_unvisited_le_card (liveKeys entries) ([] ++ [key])
  have h₂ : (liveKeys entries).card ≤ entries.keys.toFinset.card := Finset.card_filter_le _ _
  have h₃ : entries.keys.toFinset.card ≤ entries.keys.length := List.toFinset_card_le _
  simp only
  omega

/-- The entries after the cascade from `key`. -/
def cascade (depRev : UMap (List Str)) (entries : UMap (CacheEntry ν)) (key reason : Str) :
    UMap (CacheEntry ν) :=
  ((cascadeInvalidateInternal depRev (entries.keys.length + 2) key (.caller reason)
    (entries, [])).get (cascade_isSome depRev entries key (.caller reason) le_rfl)).1

end Cascade

/-! ## Operations -/

section Operations

variable [Double ν] (lib : JsonLib ν)

/-- Read a key: an entry that is invalidated or expired is not returned. -/
def get (key : Str) (now : Int64) (s : L2PersistentCache ν) :
    Option (CacheEntry ν) × L2PersistentCache ν :=
  match s.entries.lookup key with
  | none => (none, s)
  | some e =>
      if e.expiresAtMs < now then (none, s)
      else if e.status = .INVALIDATED then (none, s)
      else (some e.touch, { s with entries := s.entries.modify key CacheEntry.touch })

/-- Set a key, and its edges in the reverse index. -/
def set (key : Str) (entry : CacheEntry ν) (s : L2PersistentCache ν) :
    Outcome (L2PersistentCache ν) :=
  let depRev :=
    match s.entries.lookup key with
    | some old => old.dependsOn.foldl (drop key) s.depRev
    | none => s.depRev
  save lib { s with
    entries := s.entries.insert key entry
    depRev := entry.dependsOn.foldl (add key) depRev }

/-- Remove a key, and its edges in the reverse index. -/
def remove (key : Str) (s : L2PersistentCache ν) : Outcome (L2PersistentCache ν) :=
  match s.entries.lookup key with
  | some e =>
      save lib { s with
        entries := s.entries.erase key
        depRev := e.dependsOn.foldl (dropFound key) s.depRev }
  | none => save lib s

/-- Mark an entry as stale. -/
def softInvalidate (key reason : Str) (s : L2PersistentCache ν) : Outcome (L2PersistentCache ν) :=
  match s.entries.lookup key with
  | none => .ok s
  | some _ => saveToDisk lib { s with entries := s.entries.modify key (downgrade reason) }

/-- What hard invalidation does to the entry itself. -/
def invalidated (reason : Str) (e : CacheEntry ν) : CacheEntry ν :=
  { e with status := .INVALIDATED, invalidReason := reason, confidence := Double.lit 0 }

/-- Mark an entry as invalidated, and those that depend on it if asked to. -/
def hardInvalidate (key reason : Str) (cascading : Bool) (s : L2PersistentCache ν) :
    Outcome (L2PersistentCache ν) :=
  match s.entries.lookup key with
  | none => .ok s
  | some _ =>
      let entries := s.entries.modify key (invalidated reason)
      save lib { s with
        entries := if cascading then cascade s.depRev entries key reason else entries }

/-- The decay of one entry at time `now`. -/
def decayed (now : Int64) (e : CacheEntry ν) : CacheEntry ν :=
  if e.status = .INVALIDATED then e
  else
    let days := Double.div (Double.lit (now.toInt - e.createdAtMs.toInt : ℤ))
      (Double.mul (Double.lit 1000) (Double.lit 86400))
    let newConf := Double.mul e.confidence
      (Double.pow (Double.sub (Double.lit 1) e.confidenceDecay) days)
    let e := if Double.lt newConf kConfidenceStale then
        { e with status := .STALE, invalidReason := str "置信度衰减至 " ++ Double.toString newConf }
      else e
    { e with confidence := newConf }

/-- Lower the confidence of all entries by their age. -/
def applyConfidenceDecay (now : Int64) (s : L2PersistentCache ν) :
    Outcome (L2PersistentCache ν) :=
  saveToDisk lib { s with entries := s.entries.mapVal fun _ => decayed now }

omit [Double ν] in
/-- The keys that depend on a key. -/
def dependentsOf (s : L2PersistentCache ν) (key : Str) : List Str := listAt s.depRev key

/-- Whether `purge_expired` removes the entry. -/
def purges (now : Int64) (e : CacheEntry ν) : Bool :=
  e.status = .INVALIDATED ∧ e.createdAtMs + e.baseTtlSeconds.toInt64 * 1000 * 2 < now

/-- Remove one entry and its edges from memory. -/
def purgeKey (s : L2PersistentCache ν) (key : Str) : L2PersistentCache ν :=
  match s.entries.lookup key with
  | some e =>
      { s with
        entries := s.entries.erase key
        depRev := e.dependsOn.foldl (dropFound key) s.depRev }
  | none => s

/-- The keys that `purge_expired` collects. -/
def toRemove (now : Int64) (s : L2PersistentCache ν) : List Str :=
  (s.entries.entries.filter fun p => purges now p.2).map Sigma.fst

/-- Remove the entries that were collected, if there are any, and save. -/
def purgeExpired (now : Int64) (s : L2PersistentCache ν) : Outcome (L2PersistentCache ν) :=
  if toRemove now s = [] then .ok s
  else save lib ((toRemove now s).foldl purgeKey s)

/-- A call of one of the operations, with the time at which the wall clock is read. -/
inductive Op (ν : Type) where
  | set (key : Str) (entry : CacheEntry ν)
  | get (key : Str) (now : Int64)
  | remove (key : Str)
  | softInvalidate (key reason : Str)
  | hardInvalidate (key reason : Str) (cascading : Bool)
  | applyConfidenceDecay (now : Int64)
  | purgeExpired (now : Int64)

/-- What a call does to the store. -/
def Op.apply : Op ν → L2PersistentCache ν → Outcome (L2PersistentCache ν)
  | .set key entry, s => L2PersistentCache.set lib key entry s
  | .get key now, s => .ok (L2PersistentCache.get key now s).2
  | .remove key, s => L2PersistentCache.remove lib key s
  | .softInvalidate key reason, s => L2PersistentCache.softInvalidate lib key reason s
  | .hardInvalidate key reason cascading, s =>
      L2PersistentCache.hardInvalidate lib key reason cascading s
  | .applyConfidenceDecay now, s => L2PersistentCache.applyConfidenceDecay lib now s
  | .purgeExpired now, s => L2PersistentCache.purgeExpired lib now s

/-- A sequence of calls.  A call that throws leaves its state to the next one. -/
def run (s : L2PersistentCache ν) (ops : List (Op ν)) : L2PersistentCache ν :=
  Outcome.run (Op.apply lib) s ops

end Operations

/-! ## Saves leave the memory alone -/

section Saves

variable (lib : JsonLib ν) (s : L2PersistentCache ν)

@[simp]
theorem saveToDisk_entries : (saveToDisk lib s).state.entries = s.entries := rfl

@[simp]
theorem saveRevidx_entries : (saveRevidx lib s).state.entries = s.entries := by
  unfold saveRevidx
  split <;> rfl

@[simp]
theorem saveRevidx_depRev : (saveRevidx lib s).state.depRev = s.depRev := by
  unfold saveRevidx
  split <;> rfl

@[simp]
theorem save_entries : (save lib s).state.entries = s.entries :=
  Outcome.view_andThen L2PersistentCache.entries rfl (saveRevidx_entries lib)

@[simp]
theorem save_depRev : (save lib s).state.depRev = s.depRev :=
  Outcome.view_andThen L2PersistentCache.depRev rfl (saveRevidx_depRev lib)

end Saves

end L2PersistentCache

end LlmGateway
