import LlmGateway.CoordinatorRuns

/-!
# Expired and stale answers

Three laws about what queries answer in the course of a run, and where the local cache breaks them.

`run_query_unexpired_iff`: the deadlines are times of the wall clock, and the persistent cache judges
them by it; the local cache judges them by the steady clock.  So no answer is overdue exactly when
each copy that is asked for has passed its test on the steady clock by the time its deadline has
passed on the wall clock, and no entry that the persistent cache answers with has a deadline before
the times that 64 bits can tell.

`query_after_invalidate_iff`: a cascade marks the entries that depend on a key in the persistent cache,
and they stay marked until they are written again, so every answer from there is stale
(`spent_run`).  The local cache is not told, and its answers are never stale: a dependent is answered
as fresh exactly when the local cache has a live copy of it.

`query_flag_iff`: whether a hit is flagged as stale depends on what answers.  The local cache never
flags, the session flags entries that are `STALE`, and the exact lookup also those whose confidence is
low.
-/

namespace LlmGateway

namespace CacheCoordinator

open L2PersistentCache (Aged)

variable {ν : Type} [Double ν] (platform : Platform ν)

/-! ## Expiry -/

/-- The entry of the persistent cache that a query comes to when the local cache does not answer: that
of the session, or else the one under the key. -/
def reached (agentId capability inputHash sessionId : Str) (now : Clock) (c : CacheCoordinator ν) :
    Option (CacheEntry ν) :=
  (c.sessionEntry capability sessionId now).or
    (c.l2.live (cacheKey agentId capability inputHash) now.wall)

omit [Double ν] in
theorem reached_unexpired {agentId capability inputHash sessionId : Str} {now : Clock}
    {c : CacheCoordinator ν} {e : CacheEntry ν}
    (h : c.reached agentId capability inputHash sessionId now = some e) :
    e.expired now.wall = false := by
  rcases Option.or_eq_some_iff.1 h with hs | ⟨-, hlive⟩
  · obtain ⟨turn, -, hlive⟩ := Option.bind_eq_some_iff.1 hs
    exact (L2PersistentCache.live_eq_some.1 hlive).2.1
  · exact (L2PersistentCache.live_eq_some.1 hlive).2.1

/-- A query that the local cache does not answer reports the entry that it comes to. -/
theorem query_entry_of_l1_none {agentId capability inputHash sessionId : Str} {now : Clock}
    {c : CacheCoordinator ν}
    (hl1 : c.l1.live (cacheKey agentId capability inputHash) now.steady = none) :
    (query agentId capability inputHash sessionId now c).1.map (·.entry) =
      (c.reached agentId capability inputHash sessionId now).map CacheEntry.touch := by
  rw [query_fst, hl1, reached]
  cases c.sessionEntry capability sessionId now with
  | none =>
    rw [Option.none_or]
    cases c.l2.live (cacheKey agentId capability inputHash) now.wall <;> rfl
  | some e => rfl

/-- A query answers nothing overdue exactly if the copy under its key is not live when it should not
be, and the entry it comes to otherwise has a deadline that 64 bits can tell. -/
theorem query_unexpired_iff (agentId capability inputHash sessionId : Str) (now : Clock)
    (c : CacheCoordinator ν) :
    (∀ r, (query agentId capability inputHash sessionId now c).1 = some r →
      ¬r.entry.Overdue now.wall) ↔
    (∀ e, c.l1.find (cacheKey agentId capability inputHash) = some e →
      e.Overdue now.wall → e.expired now.steady) ∧
    (c.l1.live (cacheKey agentId capability inputHash) now.steady = none →
      ∀ e, c.reached agentId capability inputHash sessionId now = some e → -2 ^ 63 ≤ e.deadlineMs) := by
  cases hl1 : c.l1.live (cacheKey agentId capability inputHash) now.steady with
  | none =>
    have hcopy : ∀ e, c.l1.find (cacheKey agentId capability inputHash) = some e →
        e.Overdue now.wall → e.expired now.steady := by
      intro e he _
      by_contra hsteady
      have hlive := L1Store.live_eq_some.2 ⟨he, Bool.eq_false_iff.2 hsteady⟩
      rw [hl1] at hlive
      cases hlive
    have hentry : (query agentId capability inputHash sessionId now c).1.map QueryResult.entry =
        (c.reached agentId capability inputHash sessionId now).map CacheEntry.touch :=
      query_entry_of_l1_none hl1
    constructor
    · refine fun h => ⟨hcopy, fun _ e he => ?_⟩
      rw [he, Option.map_some, Option.map_eq_some_iff] at hentry
      obtain ⟨r, hr, hre⟩ := hentry
      have hfresh := h r hr
      rw [hre, CacheEntry.overdue_touch, CacheEntry.overdue_iff_of_unexpired (reached_unexpired he)]
        at hfresh
      exact not_lt.1 hfresh
    · rintro ⟨-, h⟩ r hr
      rw [hr, Option.map_some, eq_comm, Option.map_eq_some_iff] at hentry
      obtain ⟨e, he, hre⟩ := hentry
      rw [← hre, CacheEntry.overdue_touch,
        CacheEntry.overdue_iff_of_unexpired (reached_unexpired he), not_lt]
      exact h rfl e he
  | some e =>
    obtain ⟨hfind, hsteady⟩ := L1Store.live_eq_some.1 hl1
    rw [query_fst, hl1]
    constructor
    · refine fun h => ⟨fun e' he' hover => ?_, fun hnone => by cases hnone⟩
      obtain rfl : e' = e := Option.some.inj (he'.symm.trans hfind)
      have hfresh := h _ rfl
      rw [CacheEntry.overdue_touch] at hfresh
      exact absurd hover hfresh
    · rintro ⟨h, -⟩ r hr
      rw [Option.some.injEq] at hr
      rw [← hr, CacheEntry.overdue_touch]
      intro hover
      rw [h e hfind hover] at hsteady
      cases hsteady

/-- No query of a run answers anything overdue exactly if at each query the copy under its key fails the
test on the steady clock whenever its deadline has passed on the wall clock, and the entry that the
query comes to without a live copy has a deadline that 64 bits can tell. -/
theorem run_query_unexpired_iff (c : CacheCoordinator ν) (ops : List (Op ν × Clock)) :
    (∀ pre agentId capability inputHash sessionId now,
      pre ++ [(.query agentId capability inputHash sessionId, now)] <+: ops →
      ∀ r, (query agentId capability inputHash sessionId now (run platform c pre)).1 = some r →
        ¬r.entry.Overdue now.wall) ↔
    ∀ pre agentId capability inputHash sessionId now,
      pre ++ [(.query agentId capability inputHash sessionId, now)] <+: ops →
      (∀ e, (run platform c pre).l1.find (cacheKey agentId capability inputHash) = some e →
        e.Overdue now.wall → e.expired now.steady) ∧
      ((run platform c pre).l1.live (cacheKey agentId capability inputHash) now.steady = none →
        ∀ e, (run platform c pre).reached agentId capability inputHash sessionId now = some e →
          -2 ^ 63 ≤ e.deadlineMs) := by
  simp only [query_unexpired_iff]

/-- An entry that lives for five minutes is still answered after six. -/
theorem query_expired_answer :
    (upClock 0).Le (upClock 360) ∧
      ∃ r, (query (str "any") (str "search") (str "1") (str "s") (upClock 360)
          (run upPlatform {} [(.write (answer "1" (str "first") []), upClock 0)])).1 = some r ∧
        r.entry.Overdue (upClock 360).wall := by
  have hlive : (run upPlatform {} [(.write (answer "1" (str "first") []), upClock 0)]).l1.live
      (searchKey "1") (upClock 360).steady =
        some (stamped (upClock 0) (answer "1" (str "first") [])) := by
    refine L1Store.live_eq_some.2 ⟨?_, by decide⟩
    rw [run, Outcome.run_cons, Outcome.run_nil, Op.apply, write_l1, if_pos (by decide)]
    exact L1Store.find_set_self _ _ _
  refine ⟨by decide, ⟨(stamped (upClock 0) (answer "1" (str "first") [])).touch, .L1, false⟩, ?_, ?_⟩
  · rw [query_fst, ← searchKey, hlive]
  · decide

/-! ## Staleness -/

/-- The entry `d` depends on `k`, through entries that are present and not `INVALIDATED`. -/
inductive DependsThrough (s : L2PersistentCache ν) (k : Str) : Str → Prop
  | direct {d : Str} (h : s.DependsOn d k) : DependsThrough s k d
  | link {b d : Str} {e : CacheEntry ν} (hb : DependsThrough s k b)
      (he : s.entries.lookup b = some e) (hst : e.status ≠ .INVALIDATED) (h : s.DependsOn d b) :
      DependsThrough s k d

/-- The entry under a key, if there is one, is marked. -/
def Spent (s : L2PersistentCache ν) (d : Str) : Prop :=
  ∀ e, s.entries.lookup d = some e → e.status = .STALE ∨ e.status = .INVALIDATED

omit [Double ν] in
theorem revEdge_of_dependsOn {s : L2PersistentCache ν} (hs : s.RevidxExact) {b d : Str}
    {e : CacheEntry ν} (he : s.entries.lookup d = some e) (hst : e.status ≠ .INVALIDATED)
    (h : s.DependsOn d b) : s.RevEdge b d :=
  ⟨((hs b).1 d).2 h, e, he, hst⟩

omit [Double ν] in
/-- A live dependent is downstream in the reverse index, when that is exact. -/
theorem downstream_of_dependsThrough {s : L2PersistentCache ν} (hs : s.RevidxExact) {k d : Str}
    (h : DependsThrough s k d) {e : CacheEntry ν} (he : s.entries.lookup d = some e)
    (hst : e.status ≠ .INVALIDATED) : s.Downstream k d := by
  induction h generalizing e with
  | direct h => exact .single (revEdge_of_dependsOn hs he hst h)
  | link _ heb hstb h ih => exact (ih heb hstb).tail (revEdge_of_dependsOn hs he hst h)

/-- The cascade marks every dependent that was not yet invalidated. -/
theorem spent_hardInvalidate (lib : JsonLib ν) {s : L2PersistentCache ν} (hs : s.RevidxExact)
    {k : Str} (reason : Str) {e : CacheEntry ν} (he : s.entries.lookup k = some e) {d : Str}
    (hd : DependsThrough s k d) : Spent (s.hardInvalidate lib k reason true).state d := by
  intro e' he'
  by_cases hk : d = k
  · subst hk
    rw [L2PersistentCache.lookup_hardInvalidate_cascade lib reason he, Option.some.injEq] at he'
    exact Or.inr (by rw [← he']; rfl)
  by_cases hdown : s.Downstream k d
  · obtain ⟨e₀, he₀⟩ : ∃ e₀, s.entries.lookup d = some e₀ := by
      obtain ⟨a, -, -, e₀, he₀, -⟩ := Relation.TransGen.tail'_iff.1 hdown
      exact ⟨e₀, he₀⟩
    obtain ⟨e₁, he₁, hst, -⟩ :=
      L2PersistentCache.lookup_hardInvalidate_downstream lib reason he hk hdown he₀
    rw [he₁, Option.some.injEq] at he'
    exact Or.inl (he' ▸ hst)
  · -- a dependent that the cascade does not reach was invalidated before
    rw [L2PersistentCache.lookup_hardInvalidate_other lib reason he hk hdown] at he'
    by_contra hst
    rw [not_or] at hst
    exact hdown (downstream_of_dependsThrough hs hd he' hst.2)

/-- An entry stays marked until it is written again. -/
theorem spent_run {c : CacheCoordinator ν} {d : Str} (hc : Spent c.l2 d)
    {ops : List (Op ν × Clock)}
    (hops : ∀ op ∈ ops, ∀ entry, op.1 = .write entry → entry.key ≠ d) :
    Spent (run platform c ops).l2 d := by
  refine Outcome.run_invariant (fun c : CacheCoordinator ν => Spent c.l2 d) hc
    fun c op hop hc e' he' => ?_
  rcases lookup_apply platform op.1 op.2 c d e' he' with ⟨entry, hentry, hkey, -⟩ | ⟨e, he, haged⟩
  · exact absurd hkey.symm (hops op hop entry hentry)
  · rcases haged.status with hst | hst
    · rw [hst]
      exact hc e he
    · exact hst

/-- While an entry is marked, it is answered as fresh exactly if the local cache has a live copy. -/
theorem query_stale_iff {c : CacheCoordinator ν} (hkeyed : Keyed c) {d : Str} (hd : Spent c.l2 d)
    (agentId capability inputHash sessionId : Str) (now : Clock) :
    (∀ r, (query agentId capability inputHash sessionId now c).1 = some r → r.entry.key = d →
      r.stale = true) ↔
    ¬ (cacheKey agentId capability inputHash = d ∧ (c.l1.live d now.steady).isSome) := by
  rw [query_fst]
  generalize cacheKey agentId capability inputHash = key
  -- what the persistent cache answers for `d` is `STALE`
  have stale {k : Str} {e : CacheEntry ν} (hlive : c.l2.live k now.wall = some e)
      (hkey : e.key = d) : e.status = .STALE := by
    obtain ⟨hlookup, -, hst⟩ := L2PersistentCache.live_eq_some.1 hlive
    have hk : k = d := (hkeyed.2 k e hlookup).symm.trans hkey
    exact (hd e (hk ▸ hlookup)).resolve_right hst
  cases hl1 : c.l1.live key now.steady with
  | none =>
    refine iff_of_true (fun r hr hkey => ?_) ?_
    · cases hs : c.sessionEntry capability sessionId now with
      | none =>
        rw [hs] at hr
        obtain ⟨e, hl2, rfl⟩ := Option.map_eq_some_iff.1 hr
        simp [staleEntry, stale hl2 hkey]
      | some e =>
        rw [hs, Option.some.injEq] at hr
        obtain ⟨turn, -, hl2⟩ := Option.bind_eq_some_iff.1 hs
        rw [← hr] at hkey ⊢
        exact decide_eq_true (stale hl2 hkey)
    · rintro ⟨rfl, hlive⟩
      rw [hl1] at hlive
      cases hlive
  | some e =>
    have hekey : e.key = key := hkeyed.1 key e (L1Store.live_eq_some.1 hl1).1
    constructor
    · rintro h ⟨rfl, -⟩
      have hstale := h _ rfl hekey
      cases hstale
    · intro h r hr hkey
      rw [Option.some.injEq] at hr
      rw [← hr] at hkey
      have hkd : key = d := hekey.symm.trans hkey
      exact absurd ⟨hkd, by rw [← hkd, hl1]; rfl⟩ h

/-- After an invalidation with cascade, and until the dependent is written again, a query answers it
as stale, if at all, exactly if it does not find a live copy in the local cache under its key. -/
theorem query_after_invalidate_iff (data idx : Option Str) (l3 : L3ArchiveStore)
    (hstart : (init platform data idx l3).l2.RevidxExact) (pre : List (Op ν × Clock))
    (k reason : Str) (e : CacheEntry ν)
    (he : (run platform (init platform data idx l3) pre).l2.entries.lookup k = some e) (d : Str)
    (hd : DependsThrough (run platform (init platform data idx l3) pre).l2 k d)
    (ops : List (Op ν × Clock))
    (hops : ∀ op ∈ ops, ∀ entry, op.1 = .write entry → entry.key ≠ d)
    (agentId capability inputHash sessionId : Str) (now : Clock) :
    let c := run platform (invalidate platform k reason true
      (run platform (init platform data idx l3) pre)).state ops
    (∀ r, (query agentId capability inputHash sessionId now c).1 = some r → r.entry.key = d →
      r.stale = true) ↔
    ¬ (cacheKey agentId capability inputHash = d ∧ (c.l1.live d now.steady).isSome) := by
  have hexact := revidxExact_run platform hstart pre
  have hkeyed := keyed_run platform (keyed_init platform data idx l3) pre
  generalize run platform (init platform data idx l3) pre = c₀ at he hd hexact hkeyed
  have hkeyed' : Keyed (invalidate platform k reason true c₀).state :=
    keyed_apply platform (.invalidate k reason true) now hkeyed
  have hspent : Spent (invalidate platform k reason true c₀).state.l2 d :=
    spent_hardInvalidate platform.json hexact reason he hd
  exact query_stale_iff (keyed_run platform hkeyed' ops) (spent_run platform hspent hops)
    agentId capability inputHash sessionId now

/-- A search, and a second one whose answer depends on it. -/
def searched : CacheCoordinator ℚ :=
  run upPlatform (init upPlatform none none {})
    [(.write (answer "1" (str "first") []), upClock 0),
      (.write (answer "2" (str "second") [searchKey "1"]), upClock 1)]

theorem searched_lookup :
    searched.l2.entries.lookup (searchKey "1") =
        some (stamped (upClock 0) (answer "1" (str "first") [])) ∧
      searched.l2.entries.lookup (searchKey "2") =
        some (stamped (upClock 1) (answer "2" (str "second") [searchKey "1"])) := by
  simp only [searched, run, Outcome.run_cons, Outcome.run_nil, Op.apply, write_entries]
  constructor
  · rw [AList.lookup_insert_ne (by decide)]
    exact AList.lookup_insert _
  · exact AList.lookup_insert _

theorem searched_dependsThrough :
    DependsThrough searched.l2 (searchKey "1") (searchKey "2") :=
  .direct ⟨_, searched_lookup.2, by decide⟩

theorem query_after_invalidate_iff_searched :
    let c := run upPlatform (invalidate upPlatform (searchKey "1") (str "edited") true searched).state []
    (∀ r, (query (str "any") (str "search") (str "2") (str "s") (upClock 3) c).1 = some r →
      r.entry.key = searchKey "2" → r.stale = true) ↔
    ¬ (searchKey "2" = searchKey "2" ∧ (c.l1.live (searchKey "2") (upClock 3).steady).isSome) :=
  query_after_invalidate_iff upPlatform none none {} L2PersistentCache.revidxExact_empty _
    (searchKey "1") (str "edited") _ searched_lookup.1 (searchKey "2") searched_dependsThrough []
    (by simp) (str "any") (str "search") (str "2") (str "s") (upClock 3)

/-- After the first search is invalidated, the second is still answered as fresh. -/
theorem query_fresh_dependent :
    searchKey "1" ∈ searched.l2.entries ∧
      DependsThrough searched.l2 (searchKey "1") (searchKey "2") ∧
      ∃ r, (query (str "any") (str "search") (str "2") (str "s") (upClock 3)
          (invalidate upPlatform (searchKey "1") (str "edited") true searched).state).1 = some r ∧
        r.entry.key = searchKey "2" ∧ r.stale = false := by
  have hfind : (invalidate upPlatform (searchKey "1") (str "edited") true searched).state.l1.find
      (searchKey "2") = some (stamped (upClock 1) (answer "2" (str "second") [searchKey "1"])) := by
    rw [invalidate, Outcome.map_state, L1Store.find_invalidate, if_neg (by decide)]
    simp only [searched, run, Outcome.run_cons, Outcome.run_nil, Op.apply, write_l1]
    rw [if_pos (by decide)]
    exact L1Store.find_set_self _ _ _
  have hlive := L1Store.live_eq_some.2 ⟨hfind, (by decide : CacheEntry.expired (upClock 3).steady
    (stamped (upClock 1) (answer "2" (str "second") [searchKey "1"])) = false)⟩
  refine ⟨AList.lookup_isSome.1 (by rw [searched_lookup.1]; rfl), searched_dependsThrough,
    ⟨(stamped (upClock 1) (answer "2" (str "second") [searchKey "1"])).touch, .L1, false⟩, ?_,
    by decide, rfl⟩
  rw [query_fst, ← searchKey, hlive]

/-! ## The flag of each layer -/

/-- What happens to the caches: an operation of the coordinator, or a soft invalidation, which is an
operation of the persistent cache alone. -/
inductive CacheEvent (ν : Type) where
  | op (op : Op ν)
  | softInvalidate (key reason : Str)

/-- What an event does. -/
def CacheEvent.apply : CacheEvent ν → Clock → CacheCoordinator ν → Outcome (CacheCoordinator ν)
  | .op o, now, c => o.apply platform now c
  | .softInvalidate key reason, _, c =>
      (c.l2.softInvalidate platform.json key reason).map fun l2 => { c with l2 }

/-- A sequence of events, each with what the clocks show. -/
def runEvents (c : CacheCoordinator ν) (events : List (CacheEvent ν × Clock)) :
    CacheCoordinator ν :=
  Outcome.run (fun event c => event.1.apply platform event.2 c) c events

theorem keyed_runEvents {c : CacheCoordinator ν} (hc : Keyed c)
    (events : List (CacheEvent ν × Clock)) : Keyed (runEvents platform c events) := by
  refine Outcome.run_invariant Keyed hc fun c event _ hc => ?_
  obtain ⟨event, now⟩ := event
  cases event with
  | op o => exact keyed_apply platform o now hc
  | softInvalidate key reason =>
    exact keyed_l2Apply platform.json hc (.softInvalidate key reason) fun _ _ h => by cases h

/-- In every reachable state, a hit is flagged as the entry of the persistent cache under its key calls
for exactly if that entry is neither `STALE` nor below the threshold when the local cache answers, and
is `STALE` if it is below the threshold when the session answers. -/
theorem query_flag_iff (data idx : Option Str) (l3 : L3ArchiveStore)
    (events : List (CacheEvent ν × Clock)) (agentId capability inputHash sessionId : Str)
    (now : Clock) :
    let c := runEvents platform (init platform data idx l3) events
    let key := cacheKey agentId capability inputHash
    (∀ r e, (query agentId capability inputHash sessionId now c).1 = some r →
      c.l2.entries.lookup r.entry.key = some e →
      (r.stale = true ↔ e.status = .STALE ∨ Double.lt e.confidence kConfidenceFresh)) ↔
    ((c.l1.live key now.steady).isSome → ∀ e, c.l2.entries.lookup key = some e →
      ¬ (e.status = .STALE ∨ Double.lt e.confidence kConfidenceFresh)) ∧
    (c.l1.live key now.steady = none → ∀ e, c.sessionEntry capability sessionId now = some e →
      Double.lt e.confidence kConfidenceFresh → e.status = .STALE) := by
  have hkeyed := keyed_runEvents platform (keyed_init platform data idx l3) events
  generalize runEvents platform (init platform data idx l3) events = c at hkeyed
  dsimp only
  rw [query_fst]
  generalize cacheKey agentId capability inputHash = key
  cases hl1 : c.l1.live key now.steady with
  | none =>
    simp only [Option.isSome_none, Bool.false_eq_true, false_implies, true_and, true_implies]
    cases hs : c.sessionEntry capability sessionId now with
    | none =>
      -- the answer is the entry itself, with its flag
      refine iff_of_true (fun r e hr he => ?_) fun e he => by cases he
      obtain ⟨e₂, hl2, rfl⟩ := Option.map_eq_some_iff.1 hr
      have he₂ := (L2PersistentCache.live_eq_some.1 hl2).1
      have hkey : e₂.touch.key = key := hkeyed.2 key e₂ he₂
      rw [hkey, he₂, Option.some.injEq] at he
      rw [← he]
      exact decide_eq_true_iff
    | some e₂ =>
      obtain ⟨turn, -, hl2⟩ := Option.bind_eq_some_iff.1 hs
      have he₂ := (L2PersistentCache.live_eq_some.1 hl2).1
      have hkey : e₂.touch.key = turn.cacheKey := hkeyed.2 turn.cacheKey e₂ he₂
      constructor
      · intro h e he hlow
        have hflag := h _ e₂ rfl (by rw [hkey, he₂])
        rw [Option.some.injEq] at he
        rw [← he] at hlow ⊢
        exact decide_eq_true_iff.1 (hflag.2 (Or.inr hlow))
      · intro h r e hr he
        rw [Option.some.injEq] at hr
        rw [← hr, hkey, he₂, Option.some.injEq] at he
        rw [← hr, ← he]
        refine decide_eq_true_iff.trans ⟨Or.inl, fun hstale => ?_⟩
        exact hstale.elim id (h e₂ rfl)
  | some e₁ =>
    have hkey : e₁.touch.key = key := hkeyed.1 key e₁ (L1Store.live_eq_some.1 hl1).1
    simp only [Option.isSome_some, true_implies, reduceCtorEq, false_implies, and_true]
    constructor
    · intro h e he hstale
      have hflag := h _ e rfl (by rw [hkey, he])
      cases hflag.2 hstale
    · intro h r e hr he
      rw [Option.some.injEq] at hr
      rw [← hr, hkey] at he
      rw [← hr]
      exact iff_of_false Bool.false_ne_true (h e he)

/-- After a soft invalidation of the search. -/
def softened : CacheCoordinator ℚ :=
  runEvents upPlatform (init upPlatform none none {})
    [(.op (.write (answer "1" (str "first") [])), upClock 0),
      (.softInvalidate (searchKey "1") (str "old"), upClock 1)]

/-- After a search that was answered with low confidence, and a turn of a session that refers to it. -/
def doubted : CacheCoordinator ℚ :=
  runEvents upPlatform (init upPlatform none none {})
    [(.op (.write { answer "1" (str "first") [] with confidence := 1 / 2 }), upClock 0),
      (.op (.appendTurn (str "s")
        { callId := str "c1"
          agentId := str "any"
          capability := str "search"
          inputSummary := []
          outputSummary := str "first"
          cacheKey := searchKey "1"
          timestampMs := 0
          confidence := 1 / 2 }), upClock 0)]

/-- The local cache does not see a soft invalidation, and the session does not see low confidence. -/
theorem query_flag_differs :
    (∃ r e, (query (str "any") (str "search") (str "1") (str "s") (upClock 2) softened).1 = some r ∧
      softened.l2.entries.lookup r.entry.key = some e ∧ r.stale = false ∧ e.status = .STALE) ∧
    ∃ r e, (query (str "any") (str "search") (str "2") (str "s") (upClock 2) doubted).1 = some r ∧
      doubted.l2.entries.lookup r.entry.key = some e ∧ r.stale = false ∧
      Double.lt e.confidence kConfidenceFresh := by
  constructor
  · have h : ((query (str "any") (str "search") (str "1") (str "s") (upClock 2) softened).1.bind
        fun r => (softened.l2.entries.lookup r.entry.key).map fun e => (r.stale, e.status)) =
          some (false, .STALE) := by
      decide +kernel
    obtain ⟨r, hr, h⟩ := Option.bind_eq_some_iff.1 h
    obtain ⟨e, he, h⟩ := Option.map_eq_some_iff.1 h
    rw [Prod.mk.injEq] at h
    exact ⟨r, e, hr, he, h⟩
  · have h : ((query (str "any") (str "search") (str "2") (str "s") (upClock 2) doubted).1.bind
        fun r => (doubted.l2.entries.lookup r.entry.key).map fun e =>
          (r.stale, Double.lt e.confidence kConfidenceFresh)) = some (false, true) := by
      decide +kernel
    obtain ⟨r, hr, h⟩ := Option.bind_eq_some_iff.1 h
    obtain ⟨e, he, h⟩ := Option.map_eq_some_iff.1 h
    rw [Prod.mk.injEq] at h
    exact ⟨r, e, hr, he, h⟩

end CacheCoordinator

end LlmGateway
