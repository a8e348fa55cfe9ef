import LlmGateway.CoordinatorRuns
import LlmGateway.L2Invalidation
import LlmGateway.Lib.Threads

/-!
# Queries and invalidations at the same time

`query` and `invalidate` as the store operations that they perform, each of which holds the mutex of its
store; between two of them any other thread can run.  A thread that runs alone does what the operation
does (`alone_query`, `alone_invalidate`).

An invalidation clears the local cache first and the persistent cache second.  Once it has returned, no
query that begins later answers with the entry of its key (`answers_after_invalidate`), in every run in
which no query that began before sets the key in the local cache after the invalidation has cleared it.
The source has nothing to keep a query from doing so: it reads the persistent cache, and promotes what it
has read whenever it runs next.

The invariant from the return on is that the local cache has no copy of the key and the persistent cache
no live entry, and that no later query holds the entry.
-/

namespace LlmGateway

namespace CacheCoordinator

open L2PersistentCache (Aged)
open Threads (Program System Action Holds)

variable {ν : Type}

/-- A call of the coordinator. -/
inductive CacheCall where
  | query (agentId capability inputHash sessionId : Str)
  | invalidate (key reason : Str) (cascading : Bool)

/-- What a call has still to do. -/
inductive CacheThread (ν : Type) where
  /-- L1 get. -/
  | askL1 (key capability sessionId : Str)
  /-- L2 get of the entry that the session leads to. -/
  | askSession (key capability sessionId : Str)
  /-- L2 get. -/
  | askL2 (key : Str)
  /-- L1 set. -/
  | promote (key : Str) (e : CacheEntry ν)
  | answered (r : Option (QueryResult ν))
  /-- L1 invalidate. -/
  | clearL1 (key reason : Str) (cascading : Bool)
  /-- L2 hard_invalidate. -/
  | clearL2 (key reason : Str) (cascading : Bool)
  | returned

/-- A call begins with its first store operation. -/
def CacheCall.start : CacheCall → CacheThread ν
  | .query agentId capability inputHash sessionId =>
      .askL1 (cacheKey agentId capability inputHash) capability sessionId
  | .invalidate key reason cascading => .clearL1 key reason cascading

variable [Double ν] (platform : Platform ν)

namespace CacheThread

/-- The next store operation of a thread. -/
def advance (now : Clock) : CacheThread ν → CacheCoordinator ν → CacheThread ν × CacheCoordinator ν
  | .askL1 key capability sessionId, c =>
      let r := queryL1 key now c
      (if r.1.isSome then .answered r.1 else .askSession key capability sessionId, r.2)
  | .askSession key capability sessionId, c =>
      let r := querySession capability sessionId now c
      (if r.1.isSome then .answered r.1 else .askL2 key, r.2)
  | .askL2 key, c =>
      let l2 := c.l2.get key now.wall
      let c := { c with l2 := l2.2 }
      match l2.1 with
      | none => (.answered none, c)
      | some e => if e.status = .INVALIDATED then (.answered none, c) else (.promote key e, c)
  | .promote key e, c => (.answered (some ⟨e, .L2, staleEntry e⟩), { c with l1 := c.l1.set key e })
  | .clearL1 key reason cascading, c =>
      (.clearL2 key reason cascading, { c with l1 := c.l1.invalidate key })
  | .clearL2 key reason cascading, c =>
      (.returned, { c with l2 := (c.l2.hardInvalidate platform.json key reason cascading).state })
  | .answered r, c => (.answered r, c)
  | .returned, c => (.returned, c)

end CacheThread

/-- Queries and invalidations as threads. -/
def cacheProgram : Program CacheCall (CacheThread ν) (CacheCoordinator ν) Clock where
  start := CacheCall.start
  advance now t c := t.advance platform now c

/-! ## One thread alone -/

/-- A thread and the caches after `n` operations that no other thread comes between. -/
def alone (now : Clock) (n : ℕ) (t : CacheThread ν) (c : CacheCoordinator ν) :
    CacheThread ν × CacheCoordinator ν :=
  (fun p => p.1.advance platform now p.2)^[n] (t, c)

theorem alone_succ (now : Clock) (n : ℕ) (t : CacheThread ν) (c : CacheCoordinator ν) :
    alone platform now (n + 1) t c =
      alone platform now n (t.advance platform now c).1 (t.advance platform now c).2 :=
  Function.iterate_succ_apply _ n (t, c)

theorem alone_answered (now : Clock) (n : ℕ) (r : Option (QueryResult ν)) (c : CacheCoordinator ν) :
    alone platform now n (.answered r) c = (.answered r, c) := by
  induction n with
  | zero => rfl
  | succ n ih => rw [alone_succ, CacheThread.advance, ih]

/-- A query that runs alone answers what `query` answers, and leaves the caches as `query` does. -/
theorem alone_query (agentId capability inputHash sessionId : Str) (now : Clock)
    (c : CacheCoordinator ν) :
    let r := query agentId capability inputHash sessionId now c
    alone platform now 4 (CacheCall.query agentId capability inputHash sessionId).start c =
      (.answered r.1, r.2) := by
  dsimp only
  rw [CacheCall.start, query]
  generalize cacheKey agentId capability inputHash = key
  rw [alone_succ, CacheThread.advance]
  dsimp only
  by_cases h1 : (queryL1 key now c).1.isSome
  · rw [if_pos h1, if_pos h1]
    exact alone_answered platform now 3 _ _
  · rw [if_neg h1, if_neg h1, alone_succ, CacheThread.advance]
    dsimp only
    by_cases hs : (querySession capability sessionId now (queryL1 key now c).2).1.isSome
    · rw [if_pos hs, if_pos hs]
      exact alone_answered platform now 2 _ _
    · rw [if_neg hs, if_neg hs]
      generalize (querySession capability sessionId now (queryL1 key now c).2).2 = c₂
      rw [alone_succ, CacheThread.advance, queryL2]
      dsimp only
      cases (c₂.l2.get key now.wall).1 with
      | none => exact alone_answered platform now 1 _ _
      | some e =>
        dsimp only
        split_ifs with hst
        · exact alone_answered platform now 1 _ _
        · rfl

theorem alone_invalidate (key reason : Str) (cascading : Bool) (now : Clock)
    (c : CacheCoordinator ν) :
    alone platform now 2 (CacheCall.invalidate key reason cascading).start c =
      (.returned, (invalidate platform key reason cascading c).state) := rfl

/-! ## One operation of one thread -/

section Advance

/-- What a thread and the caches can become. -/
inductive Advances (now : Clock) (c : CacheCoordinator ν) :
    CacheThread ν → CacheThread ν × CacheCoordinator ν → Prop
  | hitL1 (key capability sessionId : Str) (e : CacheEntry ν)
      (h : c.l1.live key now.steady = some e) :
      Advances now c (.askL1 key capability sessionId)
        (.answered (some ⟨e.touch, .L1, false⟩), { c with l1 := (c.l1.get key now.steady).2 })
  | missL1 (key capability sessionId : Str) :
      Advances now c (.askL1 key capability sessionId)
        (.askSession key capability sessionId, { c with l1 := (c.l1.get key now.steady).2 })
  | hitSession (key capability sessionId k : Str) (e : CacheEntry ν)
      (h : c.l2.live k now.wall = some e) :
      Advances now c (.askSession key capability sessionId)
        (.answered (some ⟨e.touch, .L2, e.status = .STALE⟩),
          { c with l2 := (c.l2.get k now.wall).2 })
  | missSession (key capability sessionId : Str) :
      Advances now c (.askSession key capability sessionId) (.askL2 key, c)
  | hitL2 (key : Str) (e : CacheEntry ν) (h : c.l2.live key now.wall = some e) :
      Advances now c (.askL2 key)
        (.promote key e.touch, { c with l2 := (c.l2.get key now.wall).2 })
  | missL2 (key : Str) : Advances now c (.askL2 key) (.answered none, c)
  | promote (key : Str) (e : CacheEntry ν) :
      Advances now c (.promote key e)
        (.answered (some ⟨e, .L2, staleEntry e⟩), { c with l1 := c.l1.set key e })
  | clearL1 (key reason : Str) (cascading : Bool) :
      Advances now c (.clearL1 key reason cascading)
        (.clearL2 key reason cascading, { c with l1 := c.l1.invalidate key })
  | clearL2 (lib : JsonLib ν) (key reason : Str) (cascading : Bool) :
      Advances now c (.clearL2 key reason cascading)
        (.returned, { c with l2 := (c.l2.hardInvalidate lib key reason cascading).state })
  | answered (r : Option (QueryResult ν)) : Advances now c (.answered r) (.answered r, c)
  | returned : Advances now c .returned (.returned, c)

theorem advance_cases (now : Clock) (t : CacheThread ν) (c : CacheCoordinator ν) :
    Advances now c t (t.advance platform now c) := by
  cases t with
  | askL1 key capability sessionId =>
    rw [CacheThread.advance, queryL1]
    simp only [L1Store.get_fst]
    cases h : c.l1.live key now.steady with
    | none => exact .missL1 key capability sessionId
    | some e => exact .hitL1 key capability sessionId e h
  | askSession key capability sessionId =>
    rw [CacheThread.advance]
    cases hs : c.sessionEntry capability sessionId now with
    | none =>
      rw [querySession_of_none hs]
      exact .missSession key capability sessionId
    | some e =>
      obtain ⟨k, hl, hq⟩ := querySession_of_some hs
      rw [hq]
      exact .hitSession key capability sessionId k e hl
  | askL2 key =>
    rw [CacheThread.advance]
    cases hl : c.l2.live key now.wall with
    | none =>
      simp only [L2PersistentCache.get_of_live_none hl]
      exact .missL2 key
    | some e =>
      have hst : ¬ e.touch.status = .INVALIDATED := (L2PersistentCache.live_eq_some.1 hl).2.2
      simp only [L2PersistentCache.get_fst, hl, Option.map_some]
      rw [if_neg hst]
      exact .hitL2 key e hl
  | promote key e => exact .promote key e
  | answered r => exact .answered r
  | clearL1 key reason cascading => exact .clearL1 key reason cascading
  | clearL2 key reason cascading => exact .clearL2 platform.json key reason cascading
  | returned => exact .returned

/-- The thread holds an entry only under its own key. -/
def CacheThread.Keyed : CacheThread ν → Prop
  | .promote key e => e.key = key
  | _ => True

/-- The thread is about to set `k` in the local cache. -/
def CacheThread.Promotes (k : Str) : CacheThread ν → Prop
  | .promote key _ => key = k
  | _ => False

/-- The thread neither holds nor has answered the entry of `k`. -/
def CacheThread.Avoids (k : Str) : CacheThread ν → Prop
  | .promote key _ => key ≠ k
  | .answered (some r) => r.entry.key ≠ k
  | _ => True

variable (now : Clock) {t : CacheThread ν} {c : CacheCoordinator ν} {k : Str}

omit [Double ν] in
theorem keyed_l1Get (hc : Keyed c) (key : Str) (now : Int64) :
    Keyed { c with l1 := (c.l1.get key now).2 } :=
  ⟨L1Store.forall_find_get hc.1 key (fun _ he => he) now, hc.2⟩

theorem keyed_advance (hc : Keyed c) (ht : t.Keyed) :
    Keyed (t.advance platform now c).2 ∧ (t.advance platform now c).1.Keyed := by
  have hget (k' : Str) : Keyed { c with l2 := (c.l2.get k' now.wall).2 } :=
    keyed_l2Apply platform.json hc (.get k' now.wall) fun _ _ h => by cases h
  have h := advance_cases platform now t c
  generalize t.advance platform now c = r at h
  cases h with
  | hitL1 key capability sessionId e h => exact ⟨keyed_l1Get hc key now.steady, trivial⟩
  | missL1 key capability sessionId => exact ⟨keyed_l1Get hc key now.steady, trivial⟩
  | hitSession key capability sessionId k' e h => exact ⟨hget k', trivial⟩
  | missSession key capability sessionId => exact ⟨hc, trivial⟩
  | hitL2 key e h => exact ⟨hget key, hc.2 key e (L2PersistentCache.live_eq_some.1 h).1⟩
  | missL2 key => exact ⟨hc, trivial⟩
  | promote key e => exact ⟨⟨L1Store.forall_find_set hc.1 ht, hc.2⟩, trivial⟩
  | clearL1 key reason cascading =>
    exact ⟨⟨L1Store.forall_find_invalidate hc.1 key, hc.2⟩, trivial⟩
  | clearL2 lib key reason cascading =>
    refine ⟨keyed_l2Apply lib hc (.hardInvalidate key reason cascading) ?_, trivial⟩
    exact fun _ _ h => by cases h
  | answered r => exact ⟨hc, trivial⟩
  | returned => exact ⟨hc, trivial⟩

/-- Only a promotion brings a copy into the local cache. -/
theorem find_advance (hnone : c.l1.find k = none) (ht : ¬ t.Promotes k) :
    (t.advance platform now c).2.l1.find k = none := by
  have hget (key : Str) : (c.l1.get key now.steady).2.find k = none := by
    rw [L1Store.find_get]
    split_ifs with hk
    · rw [Option.map_eq_none_iff, Option.eq_none_iff_forall_ne_some]
      intro e he
      rw [← hk] at he
      rw [(L1Store.live_eq_some.1 he).1] at hnone
      cases hnone
    · exact hnone
  have h := advance_cases platform now t c
  generalize t.advance platform now c = r at h
  cases h with
  | hitL1 key capability sessionId e h => exact hget key
  | missL1 key capability sessionId => exact hget key
  | promote key e =>
    have hne : k ≠ key := fun hk => ht hk.symm
    rw [Option.eq_none_iff_forall_ne_some]
    intro e' he'
    rw [L1Store.find_of_find_set hne he'] at hnone
    cases hnone
  | clearL1 key reason cascading =>
    rw [L1Store.find_invalidate]
    split_ifs
    · rfl
    · exact hnone
  | hitSession => exact hnone
  | missSession => exact hnone
  | hitL2 => exact hnone
  | missL2 => exact hnone
  | clearL2 => exact hnone
  | answered => exact hnone
  | returned => exact hnone

/-- No operation of a query or an invalidation makes an entry live. -/
theorem not_live_advance (hk : ¬ c.l2.Live k) : ¬ (t.advance platform now c).2.l2.Live k := by
  have hget (key : Str) : ¬ (c.l2.get key now.wall).2.Live k :=
    L2PersistentCache.not_live_get hk key now.wall
  have h := advance_cases platform now t c
  generalize t.advance platform now c = r at h
  cases h with
  | hitSession key capability sessionId k' e h => exact hget k'
  | hitL2 key e h => exact hget key
  | clearL2 lib key reason cascading =>
    exact L2PersistentCache.not_live_hardInvalidate lib hk key reason cascading
  | hitL1 => exact hk
  | missL1 => exact hk
  | missSession => exact hk
  | missL2 => exact hk
  | promote => exact hk
  | clearL1 => exact hk
  | answered => exact hk
  | returned => exact hk

/-- A thread that avoids a key goes on doing so, as long as neither cache gives it the entry. -/
theorem avoids_advance (hc : Keyed c) (hnone : c.l1.find k = none) (hk : ¬ c.l2.Live k)
    (ht : t.Keyed) (havoids : t.Avoids k) : (t.advance platform now c).1.Avoids k := by
  have hlive {key : Str} {e : CacheEntry ν} (h : c.l2.live key now.wall = some e) : key ≠ k := by
    rintro rfl
    obtain ⟨he, -, hst⟩ := L2PersistentCache.live_eq_some.1 h
    exact hk ⟨e, he, hst⟩
  have h := advance_cases platform now t c
  generalize t.advance platform now c = r at h
  cases h with
  | hitL1 key capability sessionId e h =>
    have he := (L1Store.live_eq_some.1 h).1
    intro hkey
    rw [← (hc.1 key e he).symm.trans hkey, he] at hnone
    cases hnone
  | hitSession key capability sessionId k' e h =>
    have hkey : e.key = k' := hc.2 k' e (L2PersistentCache.live_eq_some.1 h).1
    exact fun hek => hlive h (hkey.symm.trans hek)
  | hitL2 key e h => exact hlive h
  | promote key e => exact fun hek => havoids (ht.symm.trans hek)
  | answered r => exact havoids
  | missL1 => trivial
  | missSession => trivial
  | missL2 => trivial
  | clearL1 => trivial
  | clearL2 => trivial
  | returned => trivial

end Advance

/-! ## Interleavings -/

/-- The caches as a run of the coordinator leaves them, before any thread begins. -/
def idle (data idx : Option Str) (l3 : L3ArchiveStore) (ops : List (Op ν × Clock)) :
    System (CacheThread ν) (CacheCoordinator ν) where
  shared := CacheCoordinator.run platform (init platform data idx l3) ops

/-- One of the first `n` threads performs its next operation, and sets `k` in the local cache. -/
def PromotesEarly (n : ℕ) (k : Str) (s : System (CacheThread ν) (CacheCoordinator ν))
    (act : Action CacheCall Clock) : Prop :=
  ∃ i < n, ∃ now t, act = .resume i now ∧ s.threads[i]? = some t ∧ t.Promotes k

/-- The threads of the cache after some turns. -/
abbrev runThreads (s : System (CacheThread ν) (CacheCoordinator ν))
    (acts : List (Action CacheCall Clock)) : System (CacheThread ν) (CacheCoordinator ν) :=
  Threads.run (cacheProgram platform) s acts

theorem holds_keyed (data idx : Option Str) (l3 : L3ArchiveStore) (ops : List (Op ν × Clock))
    (acts : List (Action CacheCall Clock)) :
    Holds Keyed (fun _ t => t.Keyed)
      (runThreads platform (idle platform data idx l3 ops) acts) := by
  have hstart : Holds Keyed (fun _ t => t.Keyed) (idle platform data idx l3 ops) :=
    ⟨keyed_run platform (keyed_init platform data idx l3) ops, fun i t h => by cases h⟩
  refine hstart.run (fun i call => ?_) (fun _ _ => True) (fun i now t c hc ht _ => ?_) ?_
  · cases call <;> trivial
  · exact keyed_advance platform now hc ht
  · exact fun _ _ _ _ _ _ => trivial

omit [Double ν] in
theorem CacheThread.Avoids.not_promotes {t : CacheThread ν} {k : Str} (h : t.Avoids k) :
    ¬ t.Promotes k := by
  intro hpro
  cases t with
  | promote key e => exact h hpro
  | askL1 => exact hpro
  | askSession => exact hpro
  | askL2 => exact hpro
  | answered => exact hpro
  | clearL1 => exact hpro
  | clearL2 => exact hpro
  | returned => exact hpro

/-- The local cache has no copy of `k`, and the persistent cache no live entry. -/
structure Cleared (k : Str) (c : CacheCoordinator ν) : Prop where
  keyed : Keyed c
  copy : c.l1.find k = none
  entry : ¬ c.l2.Live k

/-- From the return of an invalidation on, no thread that begins then holds or answers the entry. -/
theorem holds_cleared {n : ℕ} {k : Str} {s : System (CacheThread ν) (CacheCoordinator ν)}
    (h : Holds (Cleared k) (fun i t => t.Keyed ∧ (n ≤ i → t.Avoids k)) s)
    {acts : List (Action CacheCall Clock)}
    (hacts : ∀ pre act, pre ++ [act] <+: acts →
      ¬ PromotesEarly n k (runThreads platform s pre) act) :
    Holds (Cleared k) (fun i t => t.Keyed ∧ (n ≤ i → t.Avoids k)) (runThreads platform s acts) := by
  refine h.run (fun i call => ?_) (fun t i => i < n → ¬ t.Promotes k)
    (fun i now t c hc ht hallowed => ?_) fun pre i now hpre t ht hi hpro => ?_
  · cases call with
    | query => exact ⟨trivial, fun _ => trivial⟩
    | invalidate => exact ⟨trivial, fun _ => trivial⟩
  · have hpro : ¬ t.Promotes k := by
      rcases Nat.lt_or_ge i n with hi | hi
      · exact hallowed hi
      · exact (ht.2 hi).not_promotes
    obtain ⟨hkeyed, hthread⟩ := keyed_advance platform now hc.keyed ht.1
    refine ⟨⟨hkeyed, find_advance platform now hc.copy hpro,
      not_live_advance platform now hc.entry⟩, hthread, fun hi => ?_⟩
    exact avoids_advance platform now hc.keyed hc.copy hc.entry ht.1 (ht.2 hi)
  · exact hacts pre _ hpre ⟨i, hi, now, t, rfl, ht, hpro⟩

/-- Once an invalidation has returned, no query that begins later answers with the entry of its key, in
every run in which no query that began before the return sets the key in the local cache after the
invalidation has cleared it there. -/
theorem answers_after_invalidate (data idx : Option Str) (l3 : L3ArchiveStore)
    (ops : List (Op ν × Clock)) (before : List (Action CacheCall Clock)) (i : ℕ) (k reason : Str)
    (cascading : Bool) (now now' : Clock) (mid after : List (Action CacheCall Clock)) :
    let s := runThreads platform (idle platform data idx l3 ops) before
    let cleared := Threads.step (cacheProgram platform) s (.resume i now)
    let waiting := runThreads platform cleared mid
    let returned := Threads.step (cacheProgram platform) waiting (.resume i now')
    s.threads[i]? = some (.clearL1 k reason cascading) →
    waiting.threads[i]? = some (.clearL2 k reason cascading) →
    (∀ pre act, pre ++ [act] <+: mid →
      ¬ PromotesEarly returned.threads.length k (runThreads platform cleared pre) act) →
    (∀ pre act, pre ++ [act] <+: after →
      ¬ PromotesEarly returned.threads.length k (runThreads platform returned pre) act) →
    ∀ j r, returned.threads.length ≤ j →
      (runThreads platform returned after).threads[j]? = some (.answered (some r)) →
      r.entry.key ≠ k := by
  intro s cleared waiting returned hclear hwait hmid hafter j r hj hr
  have hs : Holds Keyed (fun _ t => t.Keyed) s := holds_keyed platform data idx l3 ops before
  have hcleared : Holds (fun c => Keyed c ∧ c.l1.find k = none) (fun _ t => t.Keyed) cleared := by
    obtain ⟨hkeyed, hthread⟩ :=
      keyed_advance platform now hs.shared (hs.threads i _ hclear)
    refine hs.resume hclear now ⟨hkeyed, ?_⟩ hthread fun _ _ _ hj => hj
    show (s.shared.l1.invalidate k).find k = none
    rw [L1Store.find_invalidate, if_pos rfl]
  have hwaiting : Holds (fun c => Keyed c ∧ c.l1.find k = none) (fun _ t => t.Keyed) waiting := by
    refine hcleared.run (fun i call => ?_) (fun t _ => ¬ t.Promotes k)
      (fun i now t c hc ht hpro => ?_) fun pre i now hpre t ht hpro => ?_
    · cases call <;> trivial
    · obtain ⟨hkeyed, hthread⟩ := keyed_advance platform now hc.1 ht
      exact ⟨⟨hkeyed, find_advance platform now hc.2 hpro⟩, hthread⟩
    · have hi := Threads.lt_length_of_prefix ((List.prefix_append _ _).trans hpre) ht
      exact hmid pre _ hpre ⟨i, hi.trans_le (Threads.length_step_le _), now, t, rfl, ht, hpro⟩
  have hreturned : Holds (Cleared k)
      (fun i t => t.Keyed ∧ (returned.threads.length ≤ i → t.Avoids k)) returned := by
    obtain ⟨hkeyed, hthread⟩ :=
      keyed_advance platform now' hwaiting.shared.1
        (hwaiting.threads i _ hwait)
    refine hwaiting.resume hwait now' ⟨hkeyed, hwaiting.shared.2, ?_⟩ ⟨hthread, fun _ => trivial⟩ ?_
    · exact L2PersistentCache.not_live_hardInvalidate_key platform.json waiting.shared.l2 k reason
        cascading
    · -- every thread that is there began before the return
      intro j t hj ht
      obtain ⟨hlt, -⟩ := List.getElem?_eq_some_iff.1 hj
      have hle : waiting.threads.length ≤ returned.threads.length := Threads.length_step_le _
      exact ⟨ht, fun hge => by omega⟩
  have hend := holds_cleared platform hreturned hafter
  exact (hend.threads j _ hr).2 hj

/-! ## Two searches -/

/-- The answer of a thread, if it has one. -/
def CacheThread.answer : CacheThread ν → Option (QueryResult ν)
  | .answered r => r
  | _ => none

/-- Whether a thread has nothing left to do. -/
def CacheThread.finished : CacheThread ν → Bool
  | .answered _ => true
  | .returned => true
  | _ => false

omit [Double ν] in
theorem CacheThread.eq_answered {t : CacheThread ν} {r : QueryResult ν} (h : t.answer = some r) :
    t = .answered (some r) := by
  cases t with
  | answered r' =>
    have hr : r' = some r := h
    rw [hr]
  | askL1 => cases h
  | askSession => cases h
  | askL2 => cases h
  | promote => cases h
  | clearL1 => cases h
  | clearL2 => cases h
  | returned => cases h

/-- The caches with the answers of two searches. -/
def twoSearches : System (CacheThread ℚ) (CacheCoordinator ℚ) :=
  idle upPlatform none none {}
    [(.write (answer "1" (str "first") []), upClock 0),
      (.write (answer "2" (str "second") []), upClock 0)]

/-- The first search is invalidated, and then the second one is asked for. -/
theorem answers_after_invalidate_twoSearches :
    ∃ r, (runThreads upPlatform twoSearches
      [.spawn (.invalidate (searchKey "1") (str "edited") true), .resume 0 (upClock 1),
        .resume 0 (upClock 1), .spawn (.query (str "any") (str "search") (str "2") (str "s")),
        .resume 1 (upClock 2)]).threads[1]? = some (.answered (some r)) ∧
      r.entry.key ≠ searchKey "1" := by
  have hanswer : ((runThreads upPlatform twoSearches
      [.spawn (.invalidate (searchKey "1") (str "edited") true), .resume 0 (upClock 1),
        .resume 0 (upClock 1), .spawn (.query (str "any") (str "search") (str "2") (str "s")),
        .resume 1 (upClock 2)]).threads[1]?.bind CacheThread.answer).isSome := by
    decide +kernel
  obtain ⟨r, hr⟩ := Option.isSome_iff_exists.1 hanswer
  obtain ⟨t, ht, hr⟩ := Option.bind_eq_some_iff.1 hr
  rw [CacheThread.eq_answered hr] at ht
  refine ⟨r, ht, ?_⟩
  refine answers_after_invalidate upPlatform none none {} _
    [.spawn (.invalidate (searchKey "1") (str "edited") true)] 0 (searchKey "1") (str "edited") true
    (upClock 1) (upClock 1) []
    [.spawn (.query (str "any") (str "search") (str "2") (str "s")), .resume 1 (upClock 2)]
    rfl rfl ?_ ?_ 1 r le_rfl ht
  · intro pre act hpre
    have hnil := List.prefix_nil.1 hpre
    exact absurd hnil (by simp)
  · -- the only thread there is when the invalidation returns has finished
    rintro pre act hpre ⟨i, hi, now, t, rfl, -, -⟩
    have hmem := hpre.subset (List.mem_append_right pre List.mem_cons_self)
    simp only [List.mem_cons, reduceCtorEq, Action.resume.injEq, List.not_mem_nil, or_false,
      false_or] at hmem
    rw [hmem.1] at hi
    exact absurd hi (by decide)

/-- A query for the first search reads the persistent cache between the two halves of an
invalidation. -/
def race : System (CacheThread ℚ) (CacheCoordinator ℚ) :=
  runThreads upPlatform twoSearches
    [.spawn (.invalidate (searchKey "1") (str "edited") true), .resume 0 (upClock 1),
      .spawn (.query (str "any") (str "search") (str "1") (str "s")), .resume 1 (upClock 1),
      .resume 1 (upClock 1), .resume 1 (upClock 1), .resume 0 (upClock 1), .resume 1 (upClock 1)]

/-- After both have finished, a new query answers with the invalidated entry, and as fresh. -/
theorem query_after_race :
    (∀ t ∈ race.threads, t.finished = true) ∧
      ∃ r, (runThreads upPlatform race
        [.spawn (.query (str "any") (str "search") (str "1") (str "s")),
          .resume 2 (upClock 2)]).threads[2]? = some (.answered (some r)) ∧
        r.entry.key = searchKey "1" ∧ r.stale = false := by
  refine ⟨by decide +kernel, ?_⟩
  have hanswer : ((runThreads upPlatform race
      [.spawn (.query (str "any") (str "search") (str "1") (str "s")),
        .resume 2 (upClock 2)]).threads[2]?.bind CacheThread.answer).map
          (fun r => (r.entry.key, r.stale)) = some (searchKey "1", false) := by
    decide +kernel
  obtain ⟨r, hr, h⟩ := Option.map_eq_some_iff.1 hanswer
  obtain ⟨t, ht, hr⟩ := Option.bind_eq_some_iff.1 hr
  rw [CacheThread.eq_answered hr] at ht
  rw [Prod.mk.injEq] at h
  exact ⟨r, ht, h⟩

end CacheCoordinator

end LlmGateway
