import LlmGateway.L2Cascade

/-!
# The entry under one key

What the calls do to the entry under one key: `get_fst` says which entry a read returns, and
`lookup_apply` that a call either sets the entry or leaves it with its data.  What can change without
a `set` is the status, the confidence, the reason and the access count (`Aged`), and the status only
becomes `STALE` or `INVALIDATED`.
-/

namespace LlmGateway

variable {ν : Type}

/-- The entry without what changes while it is stored. -/
def CacheEntry.record [Double ν] (e : CacheEntry ν) : CacheEntry ν :=
  { e with
    status := .FRESH
    confidence := Double.lit 0
    invalidReason := []
    accessCount := 0 }

namespace L2PersistentCache

/-! ## Reads -/

/-- The entry under a key that a read finds. -/
def live (s : L2PersistentCache ν) (key : Str) (now : Int64) : Option (CacheEntry ν) :=
  (s.entries.lookup key).filter fun e => !e.expired now && e.status ≠ .INVALIDATED

theorem live_eq_some {s : L2PersistentCache ν} {key : Str} {now : Int64} {e : CacheEntry ν} :
    s.live key now = some e ↔
      s.entries.lookup key = some e ∧ e.expired now = false ∧ e.status ≠ .INVALIDATED := by
  simp [live, Option.filter_eq_some_iff]

/-- A read returns the live entry, touched, and touches it. -/
theorem get_eq (key : Str) (now : Int64) (s : L2PersistentCache ν) :
    get key now s = match s.live key now with
      | none => (none, s)
      | some e => (some e.touch, { s with entries := s.entries.modify key CacheEntry.touch }) := by
  cases hk : s.entries.lookup key with
  | none => simp [get, live, hk]
  | some e =>
    by_cases hexp : e.expiresAtMs < now
    · have hlive : s.live key now = none := by simp [live, hk, CacheEntry.expired, hexp]
      simp [get, hk, hexp, hlive]
    · by_cases hst : e.status = .INVALIDATED
      · have hlive : s.live key now = none := by simp [live, hk, hst]
        simp [get, hk, hst, hlive]
      · have hlive : s.live key now = some e := by
          simp [live, hk, CacheEntry.expired, hexp, hst]
        simp [get, hk, hexp, hst, hlive]

theorem get_fst (key : Str) (now : Int64) (s : L2PersistentCache ν) :
    (get key now s).1 = (s.live key now).map CacheEntry.touch := by
  rw [get_eq]
  rcases s.live key now with _ | e <;> rfl

theorem get_of_live_none {key : Str} {now : Int64} {s : L2PersistentCache ν}
    (h : s.live key now = none) : get key now s = (none, s) := by
  rw [get_eq, h]

/-! ## Aging -/

variable [Double ν]

/-- `e'` is `e` some calls later. -/
structure Aged (e e' : CacheEntry ν) : Prop where
  record : e'.record = e.record
  status : e'.status = e.status ∨ e'.status = .STALE ∨ e'.status = .INVALIDATED

theorem Aged.refl (e : CacheEntry ν) : Aged e e := ⟨rfl, Or.inl rfl⟩

theorem Aged.trans {e e' e'' : CacheEntry ν} (h : Aged e e') (h' : Aged e' e'') : Aged e e'' where
  record := h'.record.trans h.record
  status := by
    rcases h'.status with hst | hst
    · rw [hst]
      exact h.status
    · exact Or.inr hst

theorem Aged.key {e e' : CacheEntry ν} (h : Aged e e') : e'.key = e.key := by
  show e'.record.key = e.record.key
  rw [h.record]

theorem Aged.expired {e e' : CacheEntry ν} (h : Aged e e') (now : Int64) :
    e'.expired now = e.expired now := by
  show e'.record.expired now = e.record.expired now
  rw [h.record]

theorem aged_touch (e : CacheEntry ν) : Aged e e.touch := ⟨rfl, Or.inl rfl⟩

theorem aged_of_sameData {e e' : CacheEntry ν} (h : SameData e e')
    (hst : e'.status = e.status ∨ e'.status = .STALE ∨ e'.status = .INVALIDATED) : Aged e e' where
  record := by
    rw [h]
    rfl
  status := hst

theorem aged_downgrade (reason : Str) (e : CacheEntry ν) : Aged e (downgrade reason e) :=
  aged_of_sameData (sameData_downgrade reason e) (Or.inr (Or.inl rfl))

theorem aged_invalidated (reason : Str) (e : CacheEntry ν) : Aged e (invalidated reason e) :=
  aged_of_sameData (sameData_invalidated reason e) (Or.inr (Or.inr rfl))

theorem aged_decayed (now : Int64) (e : CacheEntry ν) : Aged e (decayed now e) := by
  refine aged_of_sameData (sameData_decayed now e) ?_
  unfold decayed
  split
  · exact Or.inl rfl
  · dsimp only
    split
    · exact Or.inr (Or.inl rfl)
    · exact Or.inl rfl

/-- The entries of the second map are aged entries of the first. -/
def AgedFrom (m m' : UMap (CacheEntry ν)) : Prop :=
  ∀ k e', m'.lookup k = some e' → ∃ e, m.lookup k = some e ∧ Aged e e'

theorem AgedFrom.refl (m : UMap (CacheEntry ν)) : AgedFrom m m :=
  fun _ e' he' => ⟨e', he', Aged.refl e'⟩

theorem AgedFrom.trans {m m' m'' : UMap (CacheEntry ν)} (h : AgedFrom m m')
    (h' : AgedFrom m' m'') : AgedFrom m m'' := by
  intro k e'' he''
  obtain ⟨e', he', haged'⟩ := h' k e'' he''
  obtain ⟨e, he, haged⟩ := h k e' he'
  exact ⟨e, he, haged.trans haged'⟩

theorem agedFrom_modify {f : CacheEntry ν → CacheEntry ν} (hf : ∀ e, Aged e (f e)) (key : Str)
    (m : UMap (CacheEntry ν)) : AgedFrom m (m.modify key f) := by
  refine AList.forall_lookup_modify (AgedFrom.refl m) ?_
  rintro e' ⟨e, he, haged⟩
  exact ⟨e, he, haged.trans (hf e')⟩

theorem agedFrom_erase (key : Str) (m : UMap (CacheEntry ν)) : AgedFrom m (m.erase key) :=
  AList.forall_lookup_erase (AgedFrom.refl m) key

theorem agedFrom_cascade (depRev : UMap (List Str)) (m : UMap (CacheEntry ν)) (key reason : Str) :
    AgedFrom m (cascade depRev m key reason) := by
  obtain ⟨ms, hms, -⟩ := cascade_marks depRev m key reason
  rw [hms]
  clear hms
  induction ms generalizing m with
  | nil => exact AgedFrom.refl m
  | cons a ms ih => exact (agedFrom_modify (aged_downgrade _) a.dst m).trans (ih _)

omit [Double ν] in
theorem lookup_purgeKey (s : L2PersistentCache ν) (key k : Str) :
    (purgeKey s key).entries.lookup k = if k = key then none else s.entries.lookup k := by
  unfold purgeKey
  split_ifs with hk
  · subst hk
    split
    · exact AList.lookup_erase k s.entries
    · assumption
  · split
    · exact AList.lookup_erase_ne hk
    · rfl

omit [Double ν] in
theorem lookup_purgeKeys (ks : List Str) (s : L2PersistentCache ν) (k : Str) :
    (ks.foldl purgeKey s).entries.lookup k = if k ∈ ks then none else s.entries.lookup k := by
  induction ks generalizing s with
  | nil => simp
  | cons key ks ih =>
      rw [List.foldl_cons, ih, lookup_purgeKey]
      by_cases hk : k ∈ ks <;> by_cases hkey : k = key <;> simp [hk, hkey]

omit [Double ν] in
/-- A purge keeps the entries that it does not remove. -/
theorem lookup_foldl_purgeKey (ks : List Str) {s : L2PersistentCache ν} {k : Str}
    {e : CacheEntry ν} (he : (ks.foldl purgeKey s).entries.lookup k = some e) :
    s.entries.lookup k = some e := by
  rw [lookup_purgeKeys] at he
  split_ifs at he
  exact he

theorem agedFrom_purgeKeys (ks : List Str) (s : L2PersistentCache ν) :
    AgedFrom s.entries (ks.foldl purgeKey s).entries :=
  fun _ e' he' => ⟨e', lookup_foldl_purgeKey ks he', Aged.refl e'⟩

/-- A call sets the entry under a key, or ages or removes it. -/
theorem lookup_apply (lib : JsonLib ν) (op : Op ν) (s : L2PersistentCache ν) (k : Str)
    (e' : CacheEntry ν) (he' : (op.apply lib s).state.entries.lookup k = some e') :
    op = .set k e' ∨ ∃ e, s.entries.lookup k = some e ∧ Aged e e' := by
  cases op with
  | set key entry =>
    rw [Op.apply, set, save_entries] at he'
    by_cases hk : k = key
    · subst hk
      simp only [AList.lookup_insert, Option.some.injEq] at he'
      exact Or.inl (by rw [he'])
    · rw [AList.lookup_insert_ne hk] at he'
      exact Or.inr ⟨e', he', Aged.refl e'⟩
  | get key now =>
    rw [Op.apply, Outcome.ok_state, get_eq] at he'
    split at he'
    · exact Or.inr (AgedFrom.refl _ k e' he')
    · exact Or.inr (agedFrom_modify aged_touch key _ k e' he')
  | remove key =>
    simp only [Op.apply, remove] at he'
    split at he'
    · rw [save_entries] at he'
      exact Or.inr (agedFrom_erase key _ k e' he')
    · rw [save_entries] at he'
      exact Or.inr (AgedFrom.refl _ k e' he')
  | softInvalidate key reason =>
    simp only [Op.apply, softInvalidate] at he'
    split at he'
    · exact Or.inr (AgedFrom.refl _ k e' he')
    · exact Or.inr (agedFrom_modify (aged_downgrade reason) key _ k e' he')
  | hardInvalidate key reason cascading =>
    simp only [Op.apply, hardInvalidate] at he'
    have hmark := agedFrom_modify (aged_invalidated reason) key s.entries
    split at he'
    · exact Or.inr (AgedFrom.refl _ k e' he')
    · rw [save_entries] at he'
      split_ifs at he'
      · exact Or.inr (hmark.trans (agedFrom_cascade _ _ key reason) k e' he')
      · exact Or.inr (hmark k e' he')
  | applyConfidenceDecay now =>
    simp only [Op.apply, applyConfidenceDecay, saveToDisk_entries, AList.lookup_mapVal,
      Option.map_eq_some_iff] at he'
    obtain ⟨e, he, rfl⟩ := he'
    exact Or.inr ⟨e, he, aged_decayed now e⟩
  | purgeExpired now =>
    simp only [Op.apply, purgeExpired] at he'
    split_ifs at he'
    · exact Or.inr (AgedFrom.refl _ k e' he')
    · rw [save_entries] at he'
      exact Or.inr (agedFrom_purgeKeys _ s k e' he')

/-- A run sets the entry under a key at some point and ages it from then on, or only ages it. -/
theorem lookup_run (lib : JsonLib ν) (ops : List (Op ν)) (s : L2PersistentCache ν) (k : Str)
    (e' : CacheEntry ν) (he' : (run lib s ops).entries.lookup k = some e') :
    ∃ e, (Op.set k e ∈ ops ∨ s.entries.lookup k = some e) ∧ Aged e e' := by
  induction ops generalizing s with
  | nil => exact ⟨e', Or.inr he', Aged.refl e'⟩
  | cons op ops ih =>
      obtain ⟨e, hset | he, haged⟩ := ih (op.apply lib s).state he'
      · exact ⟨e, Or.inl (List.mem_cons_of_mem _ hset), haged⟩
      · rcases lookup_apply lib op s k e he with rfl | ⟨e₀, he₀, haged₀⟩
        · exact ⟨e, Or.inl List.mem_cons_self, haged⟩
        · exact ⟨e₀, Or.inr he₀, haged₀.trans haged⟩

end L2PersistentCache

end LlmGateway
