import LlmGateway.CacheCoordinator
import LlmGateway.L2Restart

/-!
# Runs of the coordinator

What an operation does to each layer.  On the persistent cache it is a run of that cache's own calls
(`exists_run_l2`); a copy of the local cache was there before, or comes from the persistent cache, or
is the entry being written (`find_apply`).

So what holds of every stored entry and does not depend on what changes while an entry is stored is
an invariant as soon as it holds of what is written (`stored_apply`): in particular every entry is
stored under its own key (`keyed_run`).
-/

namespace LlmGateway

namespace CacheCoordinator

open L2PersistentCache (Aged)

variable {ν : Type}

/-! ## One operation -/

section Step

variable (platform : Platform ν)

theorem stamped_key (now : Clock) (entry : CacheEntry ν) : (stamped now entry).key = entry.key := by
  unfold stamped
  split_ifs <;> rfl

theorem stamped_output (now : Clock) (entry : CacheEntry ν) :
    (stamped now entry).output = entry.output := by
  unfold stamped
  split_ifs <;> rfl

theorem write_l2 (entry : CacheEntry ν) (now : Clock) (c : CacheCoordinator ν) :
    (write platform entry now c).state.l2 = (c.l2.set platform.json entry.key
      (l2Entry platform now c.l3 (stamped now entry))).state := by
  simp only [write, Outcome.map_state, stamped_key]
  split_ifs <;> rfl

theorem write_entries (entry : CacheEntry ν) (now : Clock) (c : CacheCoordinator ν) :
    (write platform entry now c).state.l2.entries =
      c.l2.entries.insert entry.key (l2Entry platform now c.l3 (stamped now entry)) := by
  rw [write_l2, L2PersistentCache.set, L2PersistentCache.save_entries]

theorem write_l1 (entry : CacheEntry ν) (now : Clock) (c : CacheCoordinator ν) :
    (write platform entry now c).state.l1 =
      if entry.output.length < 4096 then c.l1.set entry.key (stamped now entry) else c.l1 := by
  simp only [write, Outcome.map_state, stamped_output, stamped_key]
  split_ifs <;> rfl

theorem write_l3 (entry : CacheEntry ν) (now : Clock) (c : CacheCoordinator ν) :
    (write platform entry now c).state.l3 =
      if 2048 < entry.output.length then c.l3.put platform.toHost entry.key entry.output now.wall
      else c.l3 := by
  simp only [write, Outcome.map_state, stamped_output, stamped_key]
  split_ifs <;> rfl

/-- Archiving a session changes neither cache. -/
theorem archiveSession_caches (sessionId : Str) (now : Clock) (c : CacheCoordinator ν) :
    (archiveSession platform sessionId now c).state.l1 = c.l1 ∧
      (archiveSession platform sessionId now c).state.l2 = c.l2 := by
  unfold archiveSession
  split
  · exact ⟨rfl, rfl⟩
  · split_ifs
    · exact ⟨rfl, rfl⟩
    · split
      · exact ⟨rfl, rfl⟩
      · exact ⟨rfl, rfl⟩

variable [Double ν]

/-- The entries that an operation sets in the persistent cache. -/
def Op.Sets (op : Op ν) (now : Clock) (c : CacheCoordinator ν) : L2PersistentCache.Op ν → Prop
  | .set key entry => ∃ e, op = .write e ∧ key = e.key ∧
      entry = l2Entry platform now c.l3 (stamped now e)
  | _ => True

/-- What an operation does to the persistent cache is a run of its calls. -/
theorem exists_run_l2 (op : Op ν) (now : Clock) (c : CacheCoordinator ν) :
    ∃ ops, (∀ o ∈ ops, op.Sets platform now c o) ∧
      (op.apply platform now c).state.l2 = L2PersistentCache.run platform.json c.l2 ops := by
  cases op with
  | query agentId capability inputHash sessionId =>
    have h := query_cases agentId capability inputHash sessionId now c
    simp only [Op.apply, Outcome.ok_state]
    generalize query agentId capability inputHash sessionId now c = r at h
    cases h with
    | l1 e h => exact ⟨[], by simp, rfl⟩
    | session e k h hs hl => exact ⟨[.get k now.wall], by simp [Op.Sets], rfl⟩
    | l2 e h hs hl => exact ⟨[.get _ now.wall], by simp [Op.Sets], rfl⟩
    | miss h hs hl => exact ⟨[], by simp, rfl⟩
  | write entry =>
    refine ⟨[.set entry.key (l2Entry platform now c.l3 (stamped now entry))], ?_, ?_⟩
    · intro o ho
      rw [List.mem_singleton.1 ho]
      exact ⟨entry, rfl, rfl, rfl⟩
    · exact write_l2 platform entry now c
  | invalidate key reason cascading =>
    exact ⟨[.hardInvalidate key reason cascading], by simp [Op.Sets], rfl⟩
  | appendTurn sessionId turn => exact ⟨[], by simp, rfl⟩
  | closeSession sessionId => exact ⟨[], by simp, rfl⟩
  | archiveSession sessionId =>
    exact ⟨[], by simp, (archiveSession_caches platform sessionId now c).2⟩
  | applyConfidenceDecay => exact ⟨[.applyConfidenceDecay now.wall], by simp [Op.Sets], rfl⟩
  | purgeExpired => exact ⟨[.purgeExpired now.wall], by simp [Op.Sets], rfl⟩

/-- The entry under a key of the persistent cache after an operation. -/
theorem lookup_apply (op : Op ν) (now : Clock) (c : CacheCoordinator ν) (k : Str)
    (e' : CacheEntry ν) (he' : (op.apply platform now c).state.l2.entries.lookup k = some e') :
    (∃ entry, op = .write entry ∧ k = entry.key ∧
        Aged (l2Entry platform now c.l3 (stamped now entry)) e') ∨
      ∃ e, c.l2.entries.lookup k = some e ∧ Aged e e' := by
  obtain ⟨ops, hops, hl2⟩ := exists_run_l2 platform op now c
  rw [hl2] at he'
  obtain ⟨e, hset | he, haged⟩ := L2PersistentCache.lookup_run platform.json ops c.l2 k e' he'
  · obtain ⟨entry, rfl, rfl, rfl⟩ := hops _ hset
    exact Or.inl ⟨entry, rfl, rfl, haged⟩
  · exact Or.inr ⟨e, he, haged⟩

theorem find_get_aged {key k : Str} {now : Int64} {l1 : L1Store ν} {e' : CacheEntry ν}
    (he' : (l1.get key now).2.find k = some e') : ∃ e, l1.find k = some e ∧ Aged e e' := by
  refine L1Store.forall_find_get (P := fun k e' => ∃ e, l1.find k = some e ∧ Aged e e')
    (fun _ e he => ⟨e, he, Aged.refl e⟩) key ?_ now k e' he'
  rintro e' ⟨e, he, haged⟩
  exact ⟨e, he, haged.trans (L2PersistentCache.aged_touch e')⟩

/-- The copy under a key of the local cache after a query: it was there before, or it is promoted. -/
theorem find_query (agentId capability inputHash sessionId : Str) (now : Clock)
    (c : CacheCoordinator ν) (k : Str) (e' : CacheEntry ν)
    (he' : (query agentId capability inputHash sessionId now c).2.l1.find k = some e') :
    ∃ e, (c.l1.find k = some e ∨ c.l2.entries.lookup k = some e) ∧ Aged e e' := by
  have h := query_cases agentId capability inputHash sessionId now c
  generalize cacheKey agentId capability inputHash = key at h
  have hget (he' : (c.l1.get key now.steady).2.find k = some e') :
      ∃ e, (c.l1.find k = some e ∨ c.l2.entries.lookup k = some e) ∧ Aged e e' := by
    obtain ⟨e, he, haged⟩ := find_get_aged he'
    exact ⟨e, Or.inl he, haged⟩
  generalize query agentId capability inputHash sessionId now c = r at h he'
  cases h with
  | l1 e h => exact hget he'
  | session e k h hs hl => exact hget he'
  | l2 e h hs hl =>
    by_cases hk : k = key
    · subst hk
      rw [L1Store.find_set_self, Option.some.injEq] at he'
      subst he'
      exact ⟨e, Or.inr (L2PersistentCache.live_eq_some.1 hl).1, L2PersistentCache.aged_touch e⟩
    · exact hget (L1Store.find_of_find_set hk he')
  | miss h hs hl => exact hget he'

/-- The copy under a key of the local cache after an operation. -/
theorem find_apply (op : Op ν) (now : Clock) (c : CacheCoordinator ν) (k : Str) (e' : CacheEntry ν)
    (he' : (op.apply platform now c).state.l1.find k = some e') :
    (∃ entry, op = .write entry ∧ k = entry.key ∧ entry.output.length < 4096 ∧
        e' = stamped now entry) ∨
      ∃ e, (c.l1.find k = some e ∨ c.l2.entries.lookup k = some e) ∧ Aged e e' := by
  have same (he' : c.l1.find k = some e') :
      ∃ e, (c.l1.find k = some e ∨ c.l2.entries.lookup k = some e) ∧ Aged e e' :=
    ⟨e', Or.inl he', Aged.refl e'⟩
  cases op with
  | query agentId capability inputHash sessionId =>
    exact Or.inr (find_query agentId capability inputHash sessionId now c k e' he')
  | write entry =>
    rw [Op.apply, write_l1] at he'
    split_ifs at he' with hsmall
    · by_cases hk : k = entry.key
      · subst hk
        rw [L1Store.find_set_self, Option.some.injEq] at he'
        exact Or.inl ⟨entry, rfl, rfl, hsmall, he'.symm⟩
      · exact Or.inr (same (L1Store.find_of_find_set hk he'))
    · exact Or.inr (same he')
  | invalidate key reason cascading =>
    have hfind := c.l1.find_invalidate key k
    rw [Op.apply, invalidate, Outcome.map_state, hfind] at he'
    split_ifs at he'
    exact Or.inr (same he')
  | appendTurn sessionId turn => exact Or.inr (same he')
  | closeSession sessionId => exact Or.inr (same he')
  | archiveSession sessionId =>
    rw [Op.apply, (archiveSession_caches platform sessionId now c).1] at he'
    exact Or.inr (same he')
  | applyConfidenceDecay => exact Or.inr (same he')
  | purgeExpired => exact Or.inr (same he')

end Step

/-! ## Stored entries -/

/-- `P` holds of every copy of the local cache and every entry of the persistent cache. -/
def Stored (P : Str → CacheEntry ν → Prop) (c : CacheCoordinator ν) : Prop :=
  (∀ k e, c.l1.find k = some e → P k e) ∧ ∀ k e, c.l2.entries.lookup k = some e → P k e

section Stored

variable [Double ν] (platform : Platform ν) {P : Str → CacheEntry ν → Prop}

theorem stored_apply (hP : ∀ k e e', Aged e e' → P k e → P k e') {op : Op ν} {now : Clock}
    {c : CacheCoordinator ν}
    (hwrite : ∀ entry, op = .write entry →
      (entry.output.length < 4096 → P entry.key (stamped now entry)) ∧
        P entry.key (l2Entry platform now c.l3 (stamped now entry)))
    (hc : Stored P c) : Stored P (op.apply platform now c).state := by
  constructor
  · intro k e' he'
    rcases find_apply platform op now c k e' he' with ⟨entry, rfl, rfl, hsmall, rfl⟩ | ⟨e, he, haged⟩
    · exact (hwrite entry rfl).1 hsmall
    · exact hP k e e' haged (he.elim (hc.1 k e) (hc.2 k e))
  · intro k e' he'
    rcases lookup_apply platform op now c k e' he' with ⟨entry, rfl, rfl, haged⟩ | ⟨e, he, haged⟩
    · exact hP _ _ e' haged (hwrite entry rfl).2
    · exact hP k e e' haged (hc.2 k e he)

end Stored

/-- Every entry is stored under its own key. -/
def Keyed : CacheCoordinator ν → Prop := Stored fun k e => e.key = k

theorem l2Entry_key (platform : Platform ν) (now : Clock) (l3 : L3ArchiveStore)
    (e : CacheEntry ν) : (l2Entry platform now l3 e).key = e.key := by
  unfold l2Entry
  split_ifs <;> rfl

variable [Double ν]

theorem keyed_init (platform : Platform ν) (data idx : Option Str) (l3 : L3ArchiveStore) :
    Keyed (init platform data idx l3) :=
  ⟨fun _ _ he => (by cases he), L2PersistentCache.restart_keysMatch platform.json _⟩

theorem keyed_apply (platform : Platform ν) (op : Op ν) (now : Clock) {c : CacheCoordinator ν}
    (hc : Keyed c) : Keyed (op.apply platform now c).state := by
  have hP (k : Str) (e e' : CacheEntry ν) (haged : Aged e e') (hk : e.key = k) : e'.key = k :=
    haged.key.trans hk
  refine stored_apply platform hP (fun entry _ => ?_) hc
  rw [l2Entry_key, stamped_key]
  exact ⟨fun _ => rfl, rfl⟩

theorem keyed_run (platform : Platform ν) {c : CacheCoordinator ν} (hc : Keyed c)
    (ops : List (Op ν × Clock)) : Keyed (run platform c ops) :=
  Outcome.run_invariant Keyed hc fun _ op _ h => keyed_apply platform op.1 op.2 h

/-- A call of the persistent cache that sets no entry, whoever makes it. -/
theorem keyed_l2Apply (lib : JsonLib ν) {c : CacheCoordinator ν} (hc : Keyed c)
    (op : L2PersistentCache.Op ν) (hset : ∀ key entry, op ≠ .set key entry) :
    Keyed { c with l2 := (op.apply lib c.l2).state } := by
  refine ⟨hc.1, fun k' e' he' => ?_⟩
  rcases L2PersistentCache.lookup_apply lib op c.l2 k' e' he' with h | ⟨e, he, haged⟩
  · exact absurd h (hset k' e')
  · exact haged.key.trans (hc.2 k' e he)

/-- Every run leaves the reverse index of the persistent cache exact. -/
theorem revidxExact_run (platform : Platform ν) {c : CacheCoordinator ν} (hc : c.l2.RevidxExact)
    (ops : List (Op ν × Clock)) : (run platform c ops).l2.RevidxExact := by
  refine Outcome.run_invariant (fun c : CacheCoordinator ν => c.l2.RevidxExact) hc fun c op _ h => ?_
  obtain ⟨l2Ops, -, hl2⟩ := exists_run_l2 platform op.1 op.2 c
  rw [hl2]
  exact L2PersistentCache.revidxExact_run platform.json h l2Ops

/-! ## A machine for concrete runs -/

/-- The key of a search with one input. -/
def searchKey (input : String) : Str := cacheKey (str "any") (str "search") (str input)

/-- What a search agent answered. -/
def answer (input : String) (output : Str) (dependsOn : List Str) : CacheEntry ℚ :=
  { CacheEntry.empty with
    key := searchKey input
    output
    confidence := 9 / 10
    dependsOn }

/-- The clocks of a machine that had been up for five seconds on 14 November 2023, `seconds` later. -/
def upClock (seconds : ℕ) : Clock where
  wall := 1700000000000 + 1000 * Int64.ofNat seconds
  steady := 5000 + 1000 * Int64.ofNat seconds

/-- The platform on the first search. -/
def upPlatform : Platform ℚ where
  hash key := if key = searchKey "1" then 4649522625730031710 else 0
  localtime _ := ⟨123, 10, 14⟩
  json := JsonLib.on Json.showRat []

end CacheCoordinator

end LlmGateway
