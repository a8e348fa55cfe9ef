import LlmGateway.CoordinatorRuns

/-!
# What a hit is

A query has three ways to answer: with the copy of the local cache under the key that it composes, with
the entry of the persistent cache under the key of the session's newest turn of the capability, and
with the entry of the persistent cache under the composed key.  The second is not an exact hit; the
source returns it as context.

`query_hit_sound` says so for every run, and `query_answers_iff` says when a query answers with a given
live entry.  Composed keys whose hashes have one length differ where the hashes do (`cacheKey_eq_iff`).
-/

namespace LlmGateway

namespace CacheCoordinator

variable {ν : Type}

/-! ## Keys -/

theorem cacheKey_eq (agentId capability inputHash : Str) :
    cacheKey agentId capability inputHash =
      str "agent:" ++ (agentId ++ str ":" ++ capability) ++ (str ":" ++ inputHash) := by
  simp only [cacheKey, List.append_assoc]

/-- Composed keys with hashes of one length. -/
theorem cacheKey_eq_iff {agentId agentId' capability capability' inputHash inputHash' : Str}
    (hlength : inputHash.length = inputHash'.length) :
    cacheKey agentId capability inputHash = cacheKey agentId' capability' inputHash' ↔
      agentId ++ str ":" ++ capability = agentId' ++ str ":" ++ capability' ∧
        inputHash = inputHash' := by
  rw [cacheKey_eq, cacheKey_eq]
  constructor
  · intro h
    obtain ⟨hcall, hhash⟩ := List.append_inj' h (by simp [hlength])
    exact ⟨List.append_cancel_left hcall, List.append_cancel_left hhash⟩
  · rintro ⟨hcall, rfl⟩
    rw [hcall]

/-! ## Hits -/

theorem sessionEntry_of_newest {capability sessionId : Str} (now : Clock) {c : CacheCoordinator ν}
    {sb : SessionBuffer ν} {turn : SessionTurn ν} (hsb : c.sessions.lookup sessionId = some sb)
    (hturn : sb.newest capability = some turn) :
    c.sessionEntry capability sessionId now = c.l2.live turn.cacheKey now.wall := by
  rw [sessionEntry, hsb, Option.bind_some, hturn, Option.bind_some]

theorem sessionEntry_eq_some {capability sessionId : Str} {now : Clock} {c : CacheCoordinator ν}
    {e : CacheEntry ν} (h : c.sessionEntry capability sessionId now = some e) :
    ∃ sb turn, c.sessions.lookup sessionId = some sb ∧ sb.newest capability = some turn ∧
      c.l2.live turn.cacheKey now.wall = some e := by
  obtain ⟨turn, hturn, hlive⟩ := Option.bind_eq_some_iff.1 h
  obtain ⟨sb, hsb, hnewest⟩ := Option.bind_eq_some_iff.1 hturn
  exact ⟨sb, turn, hsb, hnewest, hlive⟩

variable [Double ν]

/-- A hit is stored under the composed key, or under that of the newest turn of the capability. -/
theorem query_hit {c : CacheCoordinator ν} (hkeyed : Keyed c)
    {agentId capability inputHash sessionId : Str} {now : Clock} {r : QueryResult ν}
    (hr : (query agentId capability inputHash sessionId now c).1 = some r) :
    (r.entry.key = cacheKey agentId capability inputHash ∧
      ∃ e, (c.l1.find (cacheKey agentId capability inputHash) = some e ∨
          c.l2.entries.lookup (cacheKey agentId capability inputHash) = some e) ∧
        r.entry = e.touch) ∨
    (c.l1.live (cacheKey agentId capability inputHash) now.steady = none ∧
      ∃ sb turn e, c.sessions.lookup sessionId = some sb ∧ sb.newest capability = some turn ∧
        r.entry.key = turn.cacheKey ∧ r.layer = .L2 ∧
        c.l2.entries.lookup turn.cacheKey = some e ∧ r.entry = e.touch) := by
  rw [query_fst] at hr
  generalize cacheKey agentId capability inputHash = key at hr ⊢
  cases hl1 : c.l1.live key now.steady with
  | none =>
    rw [hl1] at hr
    cases hs : c.sessionEntry capability sessionId now with
    | none =>
      rw [hs] at hr
      obtain ⟨e, hl2, rfl⟩ := Option.map_eq_some_iff.1 hr
      have he := (L2PersistentCache.live_eq_some.1 hl2).1
      exact Or.inl ⟨hkeyed.2 key e he, e, Or.inr he, rfl⟩
    | some e =>
      rw [hs, Option.some.injEq] at hr
      obtain ⟨sb, turn, hsb, hturn, hl2⟩ := sessionEntry_eq_some hs
      have he := (L2PersistentCache.live_eq_some.1 hl2).1
      rw [← hr]
      exact Or.inr ⟨rfl, sb, turn, e, hsb, hturn, hkeyed.2 _ e he, rfl, he, rfl⟩
  | some e =>
    rw [hl1, Option.some.injEq] at hr
    have he := (L1Store.live_eq_some.1 hl1).1
    rw [← hr]
    exact Or.inl ⟨hkeyed.1 key e he, e, Or.inl he, rfl⟩

/-- A hit with a live entry of the persistent cache is that entry, or the copy of it in the local cache. -/
theorem query_entry {c : CacheCoordinator ν} (hkeyed : Keyed c) {k : Str} {now : Clock} {e : CacheEntry ν}
    (hk : c.l2.live k now.wall = some e) {agentId capability inputHash sessionId : Str}
    {r : QueryResult ν} (hr : (query agentId capability inputHash sessionId now c).1 = some r)
    (hkey : r.entry.key = k) :
    r.entry = ((c.l1.live (cacheKey agentId capability inputHash) now.steady).getD e).touch := by
  rw [query_fst] at hr
  generalize cacheKey agentId capability inputHash = key at hr ⊢
  -- two live entries of one key are the same
  have same {k' : Str} {e' : CacheEntry ν} (hl2 : c.l2.live k' now.wall = some e') (he' : e'.key = k) :
      e' = e := by
    have hk' : k' = k := (hkeyed.2 k' e' (L2PersistentCache.live_eq_some.1 hl2).1).symm.trans he'
    rw [hk', hk, Option.some.injEq] at hl2
    exact hl2.symm
  cases hl1 : c.l1.live key now.steady with
  | none =>
    rw [hl1] at hr
    cases hs : c.sessionEntry capability sessionId now with
    | none =>
      rw [hs] at hr
      obtain ⟨e', hl2, rfl⟩ := Option.map_eq_some_iff.1 hr
      rw [Option.getD_none, ← same hl2 hkey]
    | some e' =>
      rw [hs, Option.some.injEq] at hr
      obtain ⟨sb, turn, -, -, hl2⟩ := sessionEntry_eq_some hs
      rw [← hr] at hkey ⊢
      rw [Option.getD_none, ← same hl2 hkey]
  | some e' =>
    rw [hl1, Option.some.injEq] at hr
    rw [← hr]
    rfl

/-- When a query answers with a live entry of the persistent cache. -/
theorem query_answers_iff {c : CacheCoordinator ν} (hkeyed : Keyed c) {k : Str} {now : Clock}
    (hk : (c.l2.live k now.wall).isSome) (agentId capability inputHash sessionId : Str) :
    (∃ r, (query agentId capability inputHash sessionId now c).1 = some r ∧ r.entry.key = k) ↔
      (cacheKey agentId capability inputHash = k ∧
        ((c.l1.live k now.steady).isSome ∨ c.sessionEntry capability sessionId now = none)) ∨
      (c.l1.live (cacheKey agentId capability inputHash) now.steady = none ∧
        ∃ sb turn, c.sessions.lookup sessionId = some sb ∧ sb.newest capability = some turn ∧
          turn.cacheKey = k) := by
  rw [query_fst]
  generalize cacheKey agentId capability inputHash = key
  cases hl1 : c.l1.live key now.steady with
  | none =>
    cases hs : c.sessionEntry capability sessionId now with
    | none =>
      constructor
      · rintro ⟨r, hr, rfl⟩
        obtain ⟨e, hl2, rfl⟩ := Option.map_eq_some_iff.1 hr
        have he : e.key = key := hkeyed.2 key e (L2PersistentCache.live_eq_some.1 hl2).1
        exact Or.inl ⟨he.symm, Or.inr rfl⟩
      · rintro (⟨rfl, -⟩ | ⟨-, sb, turn, hsb, hturn, rfl⟩)
        · obtain ⟨e, hl2⟩ := Option.isSome_iff_exists.1 hk
          rw [hl2]
          exact ⟨_, rfl, hkeyed.2 key e (L2PersistentCache.live_eq_some.1 hl2).1⟩
        · -- the entry of the newest turn would be live
          rw [← sessionEntry_of_newest now hsb hturn, hs] at hk
          cases hk
    | some e =>
      obtain ⟨sb, turn, hsb, hturn, hl2⟩ := sessionEntry_eq_some hs
      have he : e.key = turn.cacheKey := hkeyed.2 _ e (L2PersistentCache.live_eq_some.1 hl2).1
      constructor
      · rintro ⟨r, hr, rfl⟩
        rw [Option.some.injEq] at hr
        rw [← hr]
        exact Or.inr ⟨rfl, sb, turn, hsb, hturn, he.symm⟩
      · rintro (⟨rfl, h | h⟩ | ⟨-, sb', turn', hsb', hturn', rfl⟩)
        · rw [hl1] at h
          cases h
        · cases h
        · rw [hsb, Option.some.injEq] at hsb'
          subst hsb'
          rw [hturn, Option.some.injEq] at hturn'
          subst hturn'
          exact ⟨_, rfl, he⟩
  | some e =>
    have he : e.key = key := hkeyed.1 key e (L1Store.live_eq_some.1 hl1).1
    constructor
    · rintro ⟨r, hr, rfl⟩
      rw [Option.some.injEq] at hr
      have hkey : r.entry.key = key := by
        rw [← hr]
        exact he
      refine Or.inl ⟨hkey.symm, Or.inl ?_⟩
      rw [hkey, hl1]
      rfl
    · rintro (⟨rfl, -⟩ | ⟨h, -⟩)
      · exact ⟨_, rfl, he⟩
      · cases h

/-- In every reachable state a hit is stored under the composed key, and then not under the key that
a call with another input composes; or it is the entry of the newest turn of the capability. -/
theorem query_hit_sound (platform : Platform ν) (data idx : Option Str) (l3 : L3ArchiveStore)
    (ops : List (Op ν × Clock)) (agentId capability inputHash sessionId : Str) (now : Clock)
    (r : QueryResult ν)
    (hr : (query agentId capability inputHash sessionId now
      (run platform (init platform data idx l3) ops)).1 = some r) :
    let c := run platform (init platform data idx l3) ops
    let key := cacheKey agentId capability inputHash
    (r.entry.key = key ∧
      (∃ e, (c.l1.find key = some e ∨ c.l2.entries.lookup key = some e) ∧ r.entry = e.touch) ∧
      ∀ agentId' capability' inputHash', inputHash'.length = inputHash.length →
        inputHash' ≠ inputHash → r.entry.key ≠ cacheKey agentId' capability' inputHash') ∨
    (c.l1.live key now.steady = none ∧
      ∃ sb turn e, c.sessions.lookup sessionId = some sb ∧ sb.newest capability = some turn ∧
        r.entry.key = turn.cacheKey ∧ r.layer = .L2 ∧
        c.l2.entries.lookup turn.cacheKey = some e ∧ r.entry = e.touch) := by
  have hkeyed := keyed_run platform (keyed_init platform data idx l3) ops
  rcases query_hit hkeyed hr with ⟨hkey, hstored⟩ | hsession
  · refine Or.inl ⟨hkey, hstored, fun agentId' capability' inputHash' hlength hne hkey' => ?_⟩
    rw [hkey, cacheKey_eq_iff hlength.symm] at hkey'
    exact hne hkey'.2.symm
  · exact Or.inr hsession

/-- A search that is asked again is answered with its own entry. -/
theorem query_hit_sound_search :
    let c := run upPlatform (init upPlatform none none {})
      [(.write (answer "1" (str "first") []), upClock 0)]
    ∃ r, (query (str "any") (str "search") (str "1") (str "s") (upClock 1) c).1 = some r ∧
      ((r.entry.key = searchKey "1" ∧
        (∃ e, (c.l1.find (searchKey "1") = some e ∨ c.l2.entries.lookup (searchKey "1") = some e) ∧
          r.entry = e.touch) ∧
        ∀ agentId' capability' inputHash', inputHash'.length = (str "1").length →
          inputHash' ≠ str "1" → r.entry.key ≠ cacheKey agentId' capability' inputHash') ∨
      (c.l1.live (searchKey "1") (upClock 1).steady = none ∧
        ∃ sb turn e, c.sessions.lookup (str "s") = some sb ∧
          sb.newest (str "search") = some turn ∧ r.entry.key = turn.cacheKey ∧ r.layer = .L2 ∧
          c.l2.entries.lookup turn.cacheKey = some e ∧ r.entry = e.touch)) := by
  have hit : (query (str "any") (str "search") (str "1") (str "s") (upClock 1)
      (run upPlatform (init upPlatform none none {})
        [(.write (answer "1" (str "first") []), upClock 0)])).1.isSome := by decide +kernel
  obtain ⟨r, hr⟩ := Option.isSome_iff_exists.1 hit
  exact ⟨r, hr, query_hit_sound upPlatform none none {} _ _ _ _ _ (upClock 1) r hr⟩

end CacheCoordinator

end LlmGateway
