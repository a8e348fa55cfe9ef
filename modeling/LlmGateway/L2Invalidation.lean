import LlmGateway.L2Index
import LlmGateway.L2Lookup

/-!
# Invalidations in sequence

What a sequence of calls makes of an invalidation.

`status_run_hardInvalidate`: after hard invalidations with cascade of a list of keys, an entry is
`INVALIDATED` if it is in the list, else `STALE` if it was downstream of a present key of the list
before the first of them, and else as before; so the order does not matter (`status_run_perm`).  Each
invalidation closes its key to the later cascades, but what the key led to is marked from the key
itself.

`hardInvalidate_no_fresh_iff`: when a hard invalidation with cascade leaves no dependent `FRESH`.  It
does nothing for a key that is not present, and the cascade stops at entries that are `INVALIDATED`
already, whether or not what depends on them was marked.

`get_after_hardInvalidate`: an invalidated entry is not returned until it is set again, unless it is
soft-invalidated in between, which turns it into a `STALE` one.
-/

namespace LlmGateway

namespace L2PersistentCache

open InverseIndex GuardedPath

variable {ν : Type}

/-- The status of the entry under a key. -/
def statusOf (s : L2PersistentCache ν) (d : Str) : Option CacheStatus :=
  (s.entries.lookup d).map CacheEntry.status

/-- The entry under a key is present and not `INVALIDATED`. -/
def Live (s : L2PersistentCache ν) (d : Str) : Prop :=
  ∃ e, s.entries.lookup d = some e ∧ e.status ≠ .INVALIDATED

theorem any_dependsOn_iff {s : L2PersistentCache ν} {k d : Str} :
    ((s.entries.lookup k).any fun e => e.dependsOn.any (· = d)) = true ↔ s.DependsOn k d := by
  unfold DependsOn
  cases s.entries.lookup k with
  | none => simp
  | some e => simp

instance (s : L2PersistentCache ν) (k d : Str) : Decidable (s.DependsOn k d) :=
  decidable_of_iff _ any_dependsOn_iff

theorem live_iff_statusOf {s : L2PersistentCache ν} {d : Str} :
    s.Live d ↔ ∃ st, s.statusOf d = some st ∧ st ≠ .INVALIDATED := by
  unfold Live statusOf
  constructor
  · rintro ⟨e, he, hst⟩
    exact ⟨e.status, by rw [he, Option.map_some], hst⟩
  · rintro ⟨st, hst, hne⟩
    obtain ⟨e, he, rfl⟩ := Option.map_eq_some_iff.1 hst
    exact ⟨e, he, hne⟩

theorem downstream_iff_guarded {s : L2PersistentCache ν} {k d : Str} :
    s.Downstream k d ↔ Guarded (fun a b => b ∈ listAt s.depRev a) s.Live k d := Iff.rfl

/-! ## Several cascades -/

/-- One of the keys of a list is present, and `d` is downstream of it. -/
def DownstreamOf (s : L2PersistentCache ν) (ks : List Str) (d : Str) : Prop :=
  ∃ k, (k ∈ ks ∧ k ∈ s.entries) ∧ s.Downstream k d

theorem DownstreamOf.live {s : L2PersistentCache ν} {ks : List Str} {d : Str}
    (h : s.DownstreamOf ks d) : s.Live d := by
  obtain ⟨k, -, hdown⟩ := h
  exact (downstream_iff_guarded.1 hdown).open_end

/-- A key that is not present leads nowhere. -/
theorem downstreamOf_cons_of_absent {s : L2PersistentCache ν} {k d : Str}
    (hk : s.entries.lookup k = none) (ks : List Str) :
    s.DownstreamOf (k :: ks) d ↔ s.DownstreamOf ks d := by
  have habsent : k ∉ s.entries := AList.lookup_eq_none.1 hk
  constructor
  · rintro ⟨x, ⟨hx, hin⟩, h⟩
    rcases List.mem_cons.1 hx with rfl | hx
    · exact absurd hin habsent
    · exact ⟨x, ⟨hx, hin⟩, h⟩
  · rintro ⟨x, ⟨hx, hin⟩, h⟩
    exact ⟨x, ⟨List.mem_cons_of_mem _ hx, hin⟩, h⟩

variable [Double ν] (lib : JsonLib ν)

theorem hardInvalidate_of_absent {s : L2PersistentCache ν} {k : Str}
    (hk : s.entries.lookup k = none) (reason : Str) (cascading : Bool) :
    (hardInvalidate lib k reason cascading s).state = s := by
  simp [hardInvalidate, hk]

open scoped Classical in
/-- The statuses after one hard invalidation with cascade. -/
theorem statusOf_hardInvalidate {s : L2PersistentCache ν} {k : Str} {e : CacheEntry ν}
    (hk : s.entries.lookup k = some e) (reason d : Str) :
    (hardInvalidate lib k reason true s).state.statusOf d =
      if d = k then some .INVALIDATED
      else if s.Downstream k d then some .STALE
      else s.statusOf d := by
  unfold statusOf
  split_ifs with hd hdown
  · rw [hd, lookup_hardInvalidate_cascade lib reason hk]
    rfl
  · obtain ⟨e₀, he₀, -⟩ := (downstream_iff_guarded.1 hdown).open_end
    obtain ⟨e', he', hst, -⟩ := lookup_hardInvalidate_downstream lib reason hk hd hdown he₀
    rw [he', Option.map_some, hst]
  · rw [lookup_hardInvalidate_other lib reason hk hd hdown]

/-- A hard invalidation with cascade closes its key and no other. -/
theorem live_hardInvalidate {s : L2PersistentCache ν} {k : Str} {e : CacheEntry ν}
    (hk : s.entries.lookup k = some e) (reason : Str) :
    (hardInvalidate lib k reason true s).state.Live = Closing s.Live k := by
  funext d
  refine propext ?_
  unfold Closing
  rw [live_iff_statusOf, live_iff_statusOf, statusOf_hardInvalidate lib hk]
  by_cases hd : d = k
  · simp [hd]
  · by_cases hdown : s.Downstream k d
    · have hlive := live_iff_statusOf.1 (downstream_iff_guarded.1 hdown).open_end
      simp [hd, hdown, hlive]
    · simp [hd, hdown]

/-- A sequence of hard invalidations with cascade, each of a key for a reason. -/
def invalidations (ks : List (Str × Str)) : List (Op ν) :=
  ks.map fun k => .hardInvalidate k.1 k.2 true

/-- Invalidating one key leaves, with the rest of a list, what was downstream of them all. -/
theorem downstreamOf_hardInvalidate {s : L2PersistentCache ν} {k d : Str} {e : CacheEntry ν}
    (hk : s.entries.lookup k = some e) (reason : Str) (ks : List Str) (hd : d ≠ k) :
    (s.Downstream k d ∨ (hardInvalidate lib k reason true s).state.DownstreamOf ks d) ↔
      s.DownstreamOf (k :: ks) d := by
  have hmem (x : Str) :
      x ∈ (hardInvalidate lib k reason true s).state.entries ↔ x ∈ s.entries := by
    rw [AList.mem_keys, keys_hardInvalidate, ← AList.mem_keys]
  have hpresent : k ∈ s.entries := AList.lookup_isSome.1 (by rw [hk]; rfl)
  unfold DownstreamOf
  simp only [hmem, downstream_iff_guarded, hardInvalidate_depRev, live_hardInvalidate lib hk]
  have hclose := guarded_close_or_iff (R := fun a b => b ∈ listAt s.depRev a) (A := s.Live)
    (fun x => x ∈ ks ∧ x ∈ s.entries) hd
  rw [guarded_close_iff hd] at hclose
  rw [hclose]
  constructor
  · rintro (h | ⟨x, hx, h⟩)
    · exact ⟨k, ⟨List.mem_cons_self, hpresent⟩, h⟩
    · exact ⟨x, ⟨List.mem_cons_of_mem _ hx.1, hx.2⟩, h⟩
  · rintro ⟨x, ⟨hx, hin⟩, h⟩
    rcases List.mem_cons.1 hx with rfl | hx
    · exact Or.inl h
    · exact Or.inr ⟨x, ⟨hx, hin⟩, h⟩

open scoped Classical in
/-- The statuses after several hard invalidations with cascade. -/
theorem status_run_hardInvalidate (s : L2PersistentCache ν) (ks : List (Str × Str)) (d : Str) :
    (run lib s (invalidations ks)).statusOf d =
      if d ∈ ks.map Prod.fst then (s.statusOf d).map fun _ => .INVALIDATED
      else if s.DownstreamOf (ks.map Prod.fst) d then some .STALE
      else s.statusOf d := by
  induction ks generalizing s with
  | nil =>
      have hnone : ¬ s.DownstreamOf [] d := by
        rintro ⟨k, ⟨hk, -⟩, -⟩
        cases hk
      simp [invalidations, run, hnone]
  | cons k ks ih =>
      have hstep : run lib s (invalidations (k :: ks)) =
          run lib (hardInvalidate lib k.1 k.2 true s).state (invalidations ks) := rfl
      rw [hstep, ih, List.map_cons]
      cases hk : s.entries.lookup k.1 with
      | none =>
        rw [hardInvalidate_of_absent lib hk]
        simp only [downstreamOf_cons_of_absent hk, List.mem_cons]
        by_cases hd : d = k.1
        · have hnone : s.statusOf d = none := by rw [hd, statusOf, hk, Option.map_none]
          have hdown : ¬ s.DownstreamOf (ks.map Prod.fst) d := by
            intro h
            obtain ⟨st, hst, -⟩ := live_iff_statusOf.1 h.live
            rw [hnone] at hst
            cases hst
          simp [hnone, hdown]
        · simp [hd]
      | some e =>
        by_cases hd : d = k.1
        · -- the key stays `INVALIDATED`, since no later cascade enters it
          have hdown : ¬ (hardInvalidate lib k.1 k.2 true s).state.DownstreamOf
              (ks.map Prod.fst) d := by
            intro h
            have hlive := h.live
            rw [live_hardInvalidate lib hk] at hlive
            exact hlive.2 hd
          have hstatus : s.statusOf d = some e.status := by rw [hd, statusOf, hk, Option.map_some]
          have hmem : d ∈ k.1 :: ks.map Prod.fst := by rw [hd]; exact List.mem_cons_self
          rw [statusOf_hardInvalidate lib hk, if_pos hd, if_neg hdown, hstatus, if_pos hmem]
          split_ifs
          · rfl
          · rfl
        · have hiff := downstreamOf_hardInvalidate lib hk k.2 (ks.map Prod.fst) hd
          rw [statusOf_hardInvalidate lib hk, if_neg hd, ← hiff]
          simp only [List.mem_cons, hd, false_or]
          by_cases hdown : s.Downstream k.1 d
          · obtain ⟨st, hst, -⟩ :=
              live_iff_statusOf.1 (downstream_iff_guarded.1 hdown).open_end
            simp [hdown, hst]
          · simp [hdown]

/-- The order of hard invalidations with cascade does not matter to the statuses. -/
theorem status_run_perm (s : L2PersistentCache ν) (ks ks' : List (Str × Str))
    (hperm : (ks.map Prod.fst).Perm (ks'.map Prod.fst)) (d : Str) :
    (run lib s (invalidations ks)).statusOf d = (run lib s (invalidations ks')).statusOf d := by
  have hmem (k : Str) : k ∈ ks.map Prod.fst ↔ k ∈ ks'.map Prod.fst := hperm.mem_iff
  have hdown : s.DownstreamOf (ks.map Prod.fst) d = s.DownstreamOf (ks'.map Prod.fst) d := by
    simp only [DownstreamOf, hmem]
  rw [status_run_hardInvalidate, status_run_hardInvalidate, hdown]
  simp only [hmem]

/-- Two entries that depend on each other, in both orders. -/
theorem status_run_perm_cycleStore :
    (run (JsonLib.on Json.showRat []) cycleStore (invalidations
        [(str "a", str "edited"), (str "b", str "moved")])).statusOf (str "c") =
      (run (JsonLib.on Json.showRat []) cycleStore (invalidations
        [(str "b", str "moved"), (str "a", str "edited")])).statusOf (str "c") :=
  status_run_perm (JsonLib.on Json.showRat []) cycleStore
    [(str "a", str "edited"), (str "b", str "moved")]
    [(str "b", str "moved"), (str "a", str "edited")]
    (List.Perm.swap (str "b") (str "a") []) (str "c")

/-! ## What a cascade leaves fresh -/

theorem dependsOn_hardInvalidate (s : L2PersistentCache ν) (k reason : Str)
    (cascading : Bool) (d x : Str) :
    (hardInvalidate lib k reason cascading s).state.DependsOn d x ↔ s.DependsOn d x :=
  (dependsOn_iff_of_view
    (lookup_hardInvalidate_view lib markBlind_dependsOn k reason cascading s) d x).symm

/-- A hard invalidation with cascade leaves no dependent of its key `FRESH` exactly if each one that
was `FRESH` is downstream of the key, which is present, or is the entry under the key itself. -/
theorem hardInvalidate_no_fresh_iff (s : L2PersistentCache ν) (k reason : Str) :
    let s' := (hardInvalidate lib k reason true s).state
    (∀ d, Relation.TransGen s'.DependsOn d k → s'.statusOf d ≠ some .FRESH) ↔
      ∀ d, Relation.TransGen s.DependsOn d k → s.statusOf d = some .FRESH →
        k ∈ s.entries ∧ (d = k ∨ s.Downstream k d) := by
  have hdeps : (hardInvalidate lib k reason true s).state.DependsOn = s.DependsOn := by
    funext d x
    exact propext (dependsOn_hardInvalidate lib s k reason true d x)
  dsimp only
  rw [hdeps]
  refine forall_congr' fun d => forall_congr' fun _ => ?_
  cases hk : s.entries.lookup k with
  | none =>
    have habsent : k ∉ s.entries := AList.lookup_eq_none.1 hk
    rw [hardInvalidate_of_absent lib hk]
    simp [habsent]
  | some e =>
    have hpresent : k ∈ s.entries := AList.lookup_isSome.1 (by rw [hk]; rfl)
    rw [statusOf_hardInvalidate lib hk]
    by_cases hd : d = k
    · simp [hd, hpresent]
    · by_cases hdown : s.Downstream k d
      · simp [hd, hdown, hpresent]
      · simp [hd, hdown]

/-- Three entries, each of which depends on the one before. -/
def chainOps : List (Op ℚ) :=
  [.set (str "a") CacheEntry.empty,
    .set (str "b") { CacheEntry.empty with dependsOn := [str "a"] },
    .set (str "c") { CacheEntry.empty with dependsOn := [str "b"] }]

/-- The chain after the entry in the middle was invalidated alone. -/
def brokenChain : L2PersistentCache ℚ :=
  run (JsonLib.on Json.showRat []) {} (chainOps ++ [.hardInvalidate (str "b") (str "moved") false])

/-- The cascade stops at the invalidated entry in the middle; and there is none from a key that was
never cached. -/
theorem hardInvalidate_leaves_fresh :
    (Relation.TransGen (hardInvalidate (JsonLib.on Json.showRat []) (str "a") (str "edited") true
        brokenChain).state.DependsOn (str "c") (str "a") ∧
      (hardInvalidate (JsonLib.on Json.showRat []) (str "a") (str "edited") true
        brokenChain).state.statusOf (str "c") = some .FRESH) ∧
    let s := run (JsonLib.on Json.showRat []) {} [chainOps.getLast (by decide)]
    str "b" ∉ s.entries ∧
      Relation.TransGen (hardInvalidate (JsonLib.on Json.showRat []) (str "b") (str "edited") true
        s).state.DependsOn (str "c") (str "b") ∧
      (hardInvalidate (JsonLib.on Json.showRat []) (str "b") (str "edited") true
        s).state.statusOf (str "c") = some .FRESH := by
  refine ⟨⟨?_, by decide⟩, by decide, .single (by decide), by decide⟩
  have hcb : brokenChain.DependsOn (str "c") (str "b") := by decide
  have hba : brokenChain.DependsOn (str "b") (str "a") := by decide
  rw [← dependsOn_hardInvalidate] at hcb hba
  exact .tail (.single hcb) hba

/-! ## Invalidated entries -/

theorem not_live_hardInvalidate {s : L2PersistentCache ν} {k : Str} (hk : ¬ s.Live k)
    (key reason : Str) (cascading : Bool) :
    ¬ (hardInvalidate lib key reason cascading s).state.Live k := by
  cases he : s.entries.lookup key with
  | none =>
    rw [hardInvalidate_of_absent lib he]
    exact hk
  | some e =>
    cases cascading with
    | true =>
      rw [live_hardInvalidate lib he]
      exact fun h => hk h.1
    | false =>
      rintro ⟨e', he', hst⟩
      rw [hardInvalidate_entries lib reason false he, if_neg Bool.false_ne_true] at he'
      by_cases hkey : k = key
      · rw [hkey, AList.lookup_modify, he, Option.map_some, Option.some.injEq] at he'
        exact hst (by rw [← he']; rfl)
      · rw [AList.lookup_modify_ne hkey] at he'
        exact hk ⟨e', he', hst⟩

/-- The key that a hard invalidation names is not live afterwards. -/
theorem not_live_hardInvalidate_self (s : L2PersistentCache ν) (k reason : Str)
    (cascading : Bool) {e : CacheEntry ν} (he : s.entries.lookup k = some e) :
    ¬ (hardInvalidate lib k reason cascading s).state.Live k := by
  cases cascading with
  | true =>
    rw [live_hardInvalidate lib he]
    exact fun h => h.2 rfl
  | false =>
    rintro ⟨e', he', hst⟩
    rw [hardInvalidate_entries lib reason false he, if_neg Bool.false_ne_true,
      AList.lookup_modify, he, Option.map_some, Option.some.injEq] at he'
    exact hst (by rw [← he']; rfl)

theorem not_live_hardInvalidate_key (s : L2PersistentCache ν) (k reason : Str) (cascading : Bool) :
    ¬ (hardInvalidate lib k reason cascading s).state.Live k := by
  cases he : s.entries.lookup k with
  | none =>
    rw [hardInvalidate_of_absent lib he]
    rintro ⟨e, he', -⟩
    rw [he] at he'
    cases he'
  | some e => exact not_live_hardInvalidate_self lib s k reason cascading he

omit [Double ν] in
/-- What comes from the entry that was there, and is `INVALIDATED` if that was, is not live if that was
not. -/
theorem not_live_of_lookup {s s' : L2PersistentCache ν} {k : Str} (hk : ¬ s.Live k)
    (h : ∀ e', s'.entries.lookup k = some e' → ∃ e, s.entries.lookup k = some e ∧
      (e.status = .INVALIDATED → e'.status = .INVALIDATED)) : ¬ s'.Live k := by
  rintro ⟨e', he', hst'⟩
  obtain ⟨e, he, hst⟩ := h e' he'
  exact hk ⟨e, he, fun hinv => hst' (hst hinv)⟩

theorem decayed_of_invalidated {e : CacheEntry ν} (h : e.status = .INVALIDATED) (now : Int64) :
    decayed now e = e := by
  rw [decayed, if_pos h]

omit [Double ν] in
theorem not_live_get {s : L2PersistentCache ν} {k : Str} (hk : ¬ s.Live k) (key : Str)
    (now : Int64) : ¬ (get key now s).2.Live k := by
  refine not_live_of_lookup hk fun e' he' => ?_
  rw [get_eq] at he'
  split at he'
  · exact ⟨e', he', id⟩
  · by_cases hkey : k = key
    · rw [hkey, AList.lookup_modify, Option.map_eq_some_iff] at he'
      obtain ⟨e, he, rfl⟩ := he'
      exact ⟨e, hkey ▸ he, id⟩
    · rw [AList.lookup_modify_ne hkey] at he'
      exact ⟨e', he', id⟩

/-- No call but `set` and `soft_invalidate` of the key itself makes a key live. -/
theorem not_live_apply {s : L2PersistentCache ν} {k : Str} (hk : ¬ s.Live k) {op : Op ν}
    (hset : ∀ entry, op ≠ .set k entry) (hsoft : ∀ reason, op ≠ .softInvalidate k reason) :
    ¬ (op.apply lib s).state.Live k := by
  cases op with
  | set key entry =>
    have hkey : k ≠ key := fun h => hset entry (by rw [h])
    refine not_live_of_lookup hk fun e' he' => ?_
    rw [Op.apply, set, save_entries, AList.lookup_insert_ne hkey] at he'
    exact ⟨e', he', id⟩
  | get key now => exact not_live_get hk key now
  | remove key =>
    refine not_live_of_lookup hk fun e' he' => ?_
    simp only [Op.apply, remove] at he'
    split at he'
    · rw [save_entries] at he'
      exact ⟨e', AList.lookup_of_lookup_erase he', id⟩
    · rw [save_entries] at he'
      exact ⟨e', he', id⟩
  | softInvalidate key reason =>
    -- the one call without a guard; it is not on this key
    have hkey : k ≠ key := fun h => hsoft reason (by rw [h])
    refine not_live_of_lookup hk fun e' he' => ?_
    simp only [Op.apply, softInvalidate] at he'
    split at he'
    · exact ⟨e', he', id⟩
    · rw [saveToDisk_entries, AList.lookup_modify_ne hkey] at he'
      exact ⟨e', he', id⟩
  | hardInvalidate key reason cascading => exact not_live_hardInvalidate lib hk key reason cascading
  | applyConfidenceDecay now =>
    refine not_live_of_lookup hk fun e' he' => ?_
    simp only [Op.apply, applyConfidenceDecay, saveToDisk_entries, AList.lookup_mapVal,
      Option.map_eq_some_iff] at he'
    obtain ⟨e, he, rfl⟩ := he'
    exact ⟨e, he, fun hst => by rw [decayed_of_invalidated hst]; exact hst⟩
  | purgeExpired now =>
    refine not_live_of_lookup hk fun e' he' => ?_
    simp only [Op.apply, purgeExpired] at he'
    split_ifs at he'
    · exact ⟨e', he', id⟩
    · rw [save_entries] at he'
      exact ⟨e', lookup_foldl_purgeKey _ he', id⟩

omit [Double ν] in
/-- A read returns nothing for a key that is not live. -/
theorem get_of_not_live {s : L2PersistentCache ν} {k : Str} (hk : ¬ s.Live k) (now : Int64) :
    (get k now s).1 = none := by
  rw [get_fst, Option.map_eq_none_iff, Option.eq_none_iff_forall_ne_some]
  intro e he
  obtain ⟨hlookup, -, hst⟩ := live_eq_some.1 he
  exact hk ⟨e, hlookup, hst⟩

/-- After a hard invalidation of a present key no read returns its entry, in every run that neither sets
nor soft-invalidates the key. -/
theorem get_after_hardInvalidate (s : L2PersistentCache ν) (k reason : Str) (cascading : Bool)
    (e : CacheEntry ν) (he : s.entries.lookup k = some e) (ops : List (Op ν))
    (hset : ∀ entry, .set k entry ∉ ops) (hsoft : ∀ reason, .softInvalidate k reason ∉ ops)
    (now : Int64) :
    (get k now (run lib (hardInvalidate lib k reason cascading s).state ops)).1 = none := by
  have hlive : ¬ (run lib (hardInvalidate lib k reason cascading s).state ops).Live k := by
    refine Outcome.run_invariant (fun s : L2PersistentCache ν => ¬ s.Live k)
      (not_live_hardInvalidate_self lib s k reason cascading he) fun s op hop hs => ?_
    refine not_live_apply lib hs (fun entry hentry => ?_) fun reason hreason => ?_
    · exact hset entry (hentry ▸ hop)
    · exact hsoft reason (hreason ▸ hop)
  exact get_of_not_live hlive now

/-- The chain after the first entry was invalidated with all that depends on it. -/
theorem get_after_hardInvalidate_chain :
    (get (str "a") 100000 (run (JsonLib.on Json.showRat [])
      (hardInvalidate (JsonLib.on Json.showRat []) (str "a") (str "edited") true
        (run (JsonLib.on Json.showRat []) {} chainOps)).state
      [.applyConfidenceDecay 1000, .hardInvalidate (str "b") (str "moved") true])).1 = none := by
  have hpresent : ((run (JsonLib.on Json.showRat []) {} chainOps).entries.lookup
      (str "a")).isSome := by decide
  obtain ⟨e, he⟩ := Option.isSome_iff_exists.1 hpresent
  exact get_after_hardInvalidate (JsonLib.on Json.showRat []) _ (str "a") (str "edited") true e he
    [.applyConfidenceDecay 1000, .hardInvalidate (str "b") (str "moved") true]
    (fun entry h => by simp at h) (fun reason h => by simp at h) 100000

/-- A soft invalidation makes an invalidated entry readable again. -/
theorem get_after_softInvalidate :
    str "a" ∈ (run (JsonLib.on Json.showRat []) {} chainOps).entries ∧
      (get (str "a") 100000 (run (JsonLib.on Json.showRat [])
        (hardInvalidate (JsonLib.on Json.showRat []) (str "a") (str "edited") true
          (run (JsonLib.on Json.showRat []) {} chainOps)).state
        [.softInvalidate (str "a") (str "old")])).1.isSome := by
  decide

end L2PersistentCache

end LlmGateway
