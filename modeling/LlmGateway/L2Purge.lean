import LlmGateway.L2Lookup

/-!
# What a purge leaves

A read that finds an entry past its TTL returns nothing and leaves the entry to `purge_expired`.  That
operation looks for entries of twice the age, but only among those that are `INVALIDATED`: an entry that simply
grows old is kept, in memory and in the file, through every purge (`lookup_run_purges`), though no read returns
it any more (`get_of_outlived`).

`purgeExpired_dropsOutlived_iff`: a purge removes the outlived entries, and only these, exactly if all of them
are `INVALIDATED` and, for every `INVALIDATED` entry, the 64 bits of the sum that it compares with the clock tell
whether the entry is outlived.  They do unless the time of creation is at the edge of the range
(`pastTwiceTtl_iff`), which a time read from a file can be.
-/

namespace LlmGateway

namespace L2PersistentCache

open InverseIndex

variable {ν : Type}

/-- The entry is older than twice its TTL. -/
def Outlived (now : Int64) (e : CacheEntry ν) : Prop :=
  e.createdAtMs.toInt + e.baseTtlSeconds.toInt * 1000 * 2 < now.toInt

instance (now : Int64) (e : CacheEntry ν) : Decidable (Outlived now e) := inferInstanceAs (Decidable (_ < _))

/-- From `s` to `s'` the outlived entries are gone, and the others are kept with their data and their places in
the reverse index. -/
structure DropsOutlived (now : Int64) (s s' : L2PersistentCache ν) : Prop where
  dropped : ∀ k e, s'.entries.lookup k = some e → ¬Outlived now e
  kept : ∀ k e, s.entries.lookup k = some e → ¬Outlived now e →
    s'.entries.lookup k = some e ∧ ∀ d, k ∈ listAt s'.depRev d ↔ k ∈ listAt s.depRev d

variable {now : Int64} {s : L2PersistentCache ν} {k : Str} {e : CacheEntry ν}

/-- The age test of `purge_expired`, with the 64 bits of its sum. -/
def PastTwiceTtl (now : Int64) (e : CacheEntry ν) : Prop :=
  e.createdAtMs + e.baseTtlSeconds.toInt64 * 1000 * 2 < now

theorem purges_iff : purges now e = true ↔ e.status = .INVALIDATED ∧ PastTwiceTtl now e := by
  simp [purges, PastTwiceTtl]

/-- A sum that fits 64 bits is compared as it is. -/
theorem pastTwiceTtl_iff (hlo : -2 ^ 63 ≤ e.createdAtMs.toInt + e.baseTtlSeconds.toInt * 1000 * 2)
    (hhi : e.createdAtMs.toInt + e.baseTtlSeconds.toInt * 1000 * 2 < 2 ^ 63) :
    PastTwiceTtl now e ↔ Outlived now e := by
  have httl : (e.baseTtlSeconds.toInt64 * 1000 * 2).toInt = e.baseTtlSeconds.toInt * 1000 * 2 := by
    have hmin := Int32.le_toInt e.baseTtlSeconds
    have hmax := Int32.toInt_lt e.baseTtlSeconds
    have htwo : (2 : Int64).toInt = 2 := rfl
    rw [Int64.toInt_mul, CacheEntry.toInt_ttlMs, htwo]
    exact Int.bmod_eq_of_le (by norm_num at *; omega) (by norm_num at *; omega)
  rw [PastTwiceTtl, Outlived, Int64.lt_iff_toInt_lt, Int64.toInt_add, httl,
    Int.bmod_eq_of_le (by norm_num at *; omega) (by norm_num at *; omega)]

theorem mem_toRemove_iff :
    k ∈ toRemove now s ↔ ∃ e, s.entries.lookup k = some e ∧ purges now e = true := by
  rw [toRemove, List.mem_map]
  constructor
  · rintro ⟨p, hp, rfl⟩
    obtain ⟨hmem, hpurges⟩ := List.mem_filter.1 hp
    exact ⟨p.2, AList.lookup_of_mem_entries hmem, hpurges⟩
  · rintro ⟨e, he, hpurges⟩
    exact ⟨⟨k, e⟩, List.mem_filter.2 ⟨AList.mem_entries_of_lookup he, hpurges⟩, rfl⟩

/-! ## Removing some keys -/

theorem mem_listAt_purgeKey (s : L2PersistentCache ν) {key k : Str} (hk : k ≠ key) (d : Str) :
    k ∈ listAt (purgeKey s key).depRev d ↔ k ∈ listAt s.depRev d := by
  unfold purgeKey
  split
  · rw [listAt_foldl_dropFound]
    split_ifs
    · simp [hk]
    · rfl
  · rfl

theorem mem_listAt_purgeKeys (ks : List Str) (s : L2PersistentCache ν) (hk : k ∉ ks) (d : Str) :
    k ∈ listAt (ks.foldl purgeKey s).depRev d ↔ k ∈ listAt s.depRev d := by
  induction ks generalizing s with
  | nil => rfl
  | cons key ks ih =>
      obtain ⟨hkey, hks⟩ := not_or.1 (List.mem_cons.not.1 hk)
      rw [List.foldl_cons, ih _ hks, mem_listAt_purgeKey s hkey]

/-! ## A purge -/

variable (lib : JsonLib ν)

/-- A purge keeps the entries that are not both outlived and `INVALIDATED`. -/
theorem lookup_purgeExpired (now : Int64) (s : L2PersistentCache ν) (k : Str) :
    (purgeExpired lib now s).state.entries.lookup k =
      (s.entries.lookup k).filter fun e => !purges now e := by
  have hkeys : (purgeExpired lib now s).state.entries.lookup k =
      if k ∈ toRemove now s then none else s.entries.lookup k := by
    unfold purgeExpired
    split_ifs with hnone hk hk
    · simp [hnone] at hk
    · rfl
    · rw [save_entries, lookup_purgeKeys, if_pos hk]
    · rw [save_entries, lookup_purgeKeys, if_neg hk]
  rw [hkeys]
  cases he : s.entries.lookup k with
  | none => simp
  | some e =>
    have hmem : k ∈ toRemove now s ↔ purges now e = true := by
      rw [mem_toRemove_iff, he]
      simp
    by_cases hpurges : purges now e = true <;> simp [hmem, hpurges, Option.filter_some]

theorem mem_listAt_purgeExpired (hk : k ∉ toRemove now s) (d : Str) :
    k ∈ listAt (purgeExpired lib now s).state.depRev d ↔ k ∈ listAt s.depRev d := by
  unfold purgeExpired
  split_ifs
  · rfl
  · rw [save_depRev]
    exact mem_listAt_purgeKeys _ s hk d

/-- An entry that `purge_expired` does not collect is kept. -/
theorem lookup_purgeExpired_kept (he : s.entries.lookup k = some e) (h : purges now e = false) :
    (purgeExpired lib now s).state.entries.lookup k = some e := by
  rw [lookup_purgeExpired, he, Option.filter_some, if_pos]
  simp [h]

/-- An entry that it collects is gone. -/
theorem lookup_purgeExpired_dropped (he : s.entries.lookup k = some e) (h : purges now e = true) :
    (purgeExpired lib now s).state.entries.lookup k = none := by
  rw [lookup_purgeExpired, he, Option.filter_some, if_neg]
  simp [h]

/-- A purge drops the outlived entries and no others exactly if the outlived entries are `INVALIDATED`, and the
sum of every `INVALIDATED` entry tells whether it is outlived. -/
theorem purgeExpired_dropsOutlived_iff (now : Int64) (s : L2PersistentCache ν) :
    DropsOutlived now s (purgeExpired lib now s).state ↔
      ∀ k e, s.entries.lookup k = some e →
        (Outlived now e → e.status = .INVALIDATED) ∧
        (e.status = .INVALIDATED →
          (e.createdAtMs + e.baseTtlSeconds.toInt64 * 1000 * 2 < now ↔ Outlived now e)) := by
  constructor
  · intro h k e he
    have collected (hold : Outlived now e) : purges now e = true := by
      by_contra hkept
      exact h.dropped k e (lookup_purgeExpired_kept lib he (Bool.eq_false_iff.2 hkept)) hold
    refine ⟨fun hold => (purges_iff.1 (collected hold)).1, fun hst => ⟨fun hpast => ?_, fun hold => ?_⟩⟩
    · by_contra hyoung
      have hkept := (h.kept k e he hyoung).1
      rw [lookup_purgeExpired_dropped lib he (purges_iff.2 ⟨hst, hpast⟩)] at hkept
      cases hkept
    · exact (purges_iff.1 (collected hold)).2
  · intro h
    have kept {k : Str} {e : CacheEntry ν} (he : s.entries.lookup k = some e) (hyoung : ¬Outlived now e) :
        purges now e = false := by
      refine Bool.eq_false_iff.2 fun hpurges => hyoung ?_
      obtain ⟨hst, hpast⟩ := purges_iff.1 hpurges
      exact ((h k e he).2 hst).1 hpast
    refine ⟨fun k e he hold => ?_, fun k e he hyoung =>
      ⟨lookup_purgeExpired_kept lib he (kept he hyoung), mem_listAt_purgeExpired lib fun hmem => ?_⟩⟩
    · rw [lookup_purgeExpired, Option.filter_eq_some_iff] at he
      obtain ⟨he, hkept⟩ := he
      have hst := (h k e he).1 hold
      have hpurges : purges now e = true := purges_iff.2 ⟨hst, ((h k e he).2 hst).2 hold⟩
      simp [hpurges] at hkept
    · obtain ⟨e', he', hpurges⟩ := mem_toRemove_iff.1 hmem
      obtain rfl : e = e' := Option.some.inj (he.symm.trans he')
      rw [kept he hyoung] at hpurges
      cases hpurges

variable [Double ν]

/-- An entry that is not `INVALIDATED` outlasts every purge. -/
theorem lookup_run_purges (he : s.entries.lookup k = some e) (hlive : e.status ≠ .INVALIDATED)
    (times : List Int64) : (run lib s (times.map .purgeExpired)).entries.lookup k = some e := by
  induction times generalizing s with
  | nil => exact he
  | cons t times ih =>
      have hkept : purges t e = false := by
        simp [Bool.eq_false_iff, purges_iff, hlive]
      exact ih (lookup_purgeExpired_kept lib he hkept)

omit [Double ν] in
/-- No read returns an outlived entry whose TTL is not negative. -/
theorem get_of_outlived (he : s.entries.lookup k = some e) (hold : Outlived now e)
    (httl : 0 ≤ e.baseTtlSeconds.toInt) {later : Int64} (hlater : now.toInt ≤ later.toInt) :
    get k later s = (none, s) := by
  unfold Outlived at hold
  have hcreated := Int64.le_toInt e.createdAtMs
  have hdeadline : e.deadlineMs = e.createdAtMs.toInt + e.baseTtlSeconds.toInt * 1000 := rfl
  have hover : e.Overdue later := by
    unfold CacheEntry.Overdue
    omega
  have hexpired : e.expired later = true := CacheEntry.expired_of_overdue hover (by omega)
  exact get_of_live_none (by simp [live, he, hexpired])

/-- An entry that is never invalidated, a year after it was set. -/
theorem purgeExpired_keeps_outlived :
    let s := run (JsonLib.on Json.showRat []) {} [.set (str "a") (CacheEntry.empty : CacheEntry ℚ)]
    Outlived 31536000000 (CacheEntry.empty : CacheEntry ℚ) ∧
      (purgeExpired (JsonLib.on Json.showRat []) 31536000000 s).state.entries.lookup (str "a") =
        some CacheEntry.empty ∧
      ¬DropsOutlived 31536000000 s (purgeExpired (JsonLib.on Json.showRat []) 31536000000 s).state := by
  refine ⟨by decide, by decide +kernel, fun h => ?_⟩
  exact h.dropped (str "a") CacheEntry.empty (by decide +kernel) (by decide)

/-- An entry that was invalidated young, with the last time that 64 bits hold as its time of creation: the sum
overflows, and the entry is dropped. -/
theorem purgeExpired_drops_young :
    let e : CacheEntry ℚ := { CacheEntry.empty with createdAtMs := 9223372036854775807, status := .INVALIDATED }
    let s := run (JsonLib.on Json.showRat []) {} [.set (str "a") e]
    ¬Outlived 31536000000 e ∧
      (purgeExpired (JsonLib.on Json.showRat []) 31536000000 s).state.entries.lookup (str "a") = none := by
  refine ⟨by decide, by decide +kernel⟩

end L2PersistentCache

end LlmGateway
