import LlmGateway.L1CacheStore
import LlmGateway.Lib.LruMap

/-!
# The local cache is a least-recently-used map

`refines_lru`: in every run with a maximal size of at least one, the operations of `L1CacheStore` are
defined and answer as those of an ideal least-recently-used map do (`ideal`), the list and the map agree, and
the list is in the order of the last uses.

A hit counts the access in the entry that is held, and returns it counted.  So what is found is the value
last set up to its access count, which the hits since have raised (`lastSet`).
-/

namespace LlmGateway

variable {ν : Type}

namespace L1CacheStore

open LruMap (ByRecency Recent)

/-! ## Runs -/

/-- A call of the store. -/
inductive Op (ν : Type) where
  | get (key : Str) (now : Int64)
  | set (key : Str) (entry : CacheEntry ν)
  | invalidate (key : Str)
  | size
  | clear
  | setMaxSize (sz : ℕ)
  deriving DecidableEq

/-- What an operation returns. -/
inductive Answer (ν : Type) where
  | done
  | entry (e : Option (CacheEntry ν))
  | size (n : ℕ)
  deriving DecidableEq

/-- The calls of a run and what they returned, the latest first. -/
abbrev Trace (ν : Type) := List (Op ν × Answer ν)

/-- What a call does and returns. -/
def perform : Op ν → L1CacheStore ν → Option (Answer ν × L1CacheStore ν)
  | .get key now, s => (s.get key now).map fun r => (.entry r.1, r.2)
  | .set key entry, s => (s.set key entry).map fun s => (.done, s)
  | .invalidate key, s => (s.invalidate key).map fun s => (.done, s)
  | .size, s => some (.size s.size, s)
  | .clear, s => some (.done, s.clear)
  | .setMaxSize sz, s => (s.setMaxSize sz).map fun s => (.done, s)

/-- One more call; `none` if it is not defined. -/
def step (r : L1CacheStore ν × Trace ν) (op : Op ν) : Option (L1CacheStore ν × Trace ν) :=
  (perform op r.1).map fun p => (p.2, (op, p.1) :: r.2)

/-- The store and the trace after some calls from the start of the process on. -/
def run (ops : List (Op ν)) : Option (L1CacheStore ν × Trace ν) := ops.foldlM step ({}, [])

/-! ## The ideal map -/

/-- What the calls do to a least-recently-used map, where `hit` is what a hit does to the entry. -/
def ideal (hit : CacheEntry ν → CacheEntry ν) :
    Op ν → LruMap Str (CacheEntry ν) → Answer ν × LruMap Str (CacheEntry ν)
  | .get key now, m =>
      match m.find key with
      | none => (.entry none, m)
      | some e =>
          if e.expired now then (.entry none, m.remove key)
          else (.entry (some (hit e)), m.toFront key (hit e))
  | .set key entry, m => (.done, m.put key entry)
  | .invalidate key, m => (.done, m.remove key)
  | .size, m => (.size m.items.length, m)
  | .clear, m => (.done, m.clear)
  | .setMaxSize sz, m => (.done, m.resize sz)

/-- One more call of the ideal map. -/
def idealStep (hit : CacheEntry ν → CacheEntry ν) (r : LruMap Str (CacheEntry ν) × Trace ν) (op : Op ν) :
    LruMap Str (CacheEntry ν) × Trace ν :=
  ((ideal hit op r.1).2, (op, (ideal hit op r.1).1) :: r.2)

/-- The ideal map and its answers after some calls. -/
def idealRun (hit : CacheEntry ν → CacheEntry ν) (ops : List (Op ν)) :
    LruMap Str (CacheEntry ν) × Trace ν :=
  ops.foldl (idealStep hit) ({ capacity := 4096 }, [])

/-- The keys that were set or hit, the latest first. -/
def uses : Trace ν → List Str
  | [] => []
  | (.set key _, _) :: trace => key :: uses trace
  | (.get key _, .entry (some _)) :: trace => key :: uses trace
  | _ :: trace => uses trace

/-- The value that was last set under a key, and the hits since; `none` once the key was invalidated, the
store cleared, or the key not found. -/
def lastSet (key : Str) : Trace ν → Option (CacheEntry ν × ℕ)
  | [] => none
  | (.set key' entry, _) :: trace => if key' = key then some (entry, 0) else lastSet key trace
  | (.get key' _, .entry (some _)) :: trace =>
      if key' = key then (lastSet key trace).map fun p => (p.1, p.2 + 1) else lastSet key trace
  | (.get key' _, .entry none) :: trace => if key' = key then none else lastSet key trace
  | (.invalidate key', _) :: trace => if key' = key then none else lastSet key trace
  | (.clear, _) :: _ => none
  | _ :: trace => lastSet key trace

/-! ## The simulation -/

/-- The store represents the map, which is what the trace makes of it. -/
structure Refines (s : L1CacheStore ν) (m : LruMap Str (CacheEntry ν)) (trace : Trace ν) : Prop where
  agree : s.lru.Agree
  map : s.lru.lru s.maxSize = m
  positive : 0 < s.maxSize
  recent : Recent (uses trace) m
  values : ∀ key e, m.find key = some e → ∃ e₀ n, lastSet key trace = some (e₀, n) ∧
    e = CacheEntry.touch^[n] e₀

theorem refines_start : Refines ({} : L1CacheStore ν) { capacity := 4096 } [] where
  agree := IndexedList.agree_empty
  map := rfl
  positive := Nat.succ_pos 4095
  recent := ⟨List.nodup_nil, Nat.zero_le _, List.Pairwise.nil⟩
  values _ _ h := by cases h

/-- The call is defined, answers as that of the ideal map, and keeps the representation. -/
def Simulated (op : Op ν) (s : L1CacheStore ν) (m : LruMap Str (CacheEntry ν)) (trace : Trace ν) : Prop :=
  ∃ answer s', perform op s = some (answer, s') ∧ answer = (ideal CacheEntry.touch op m).1 ∧
    Refines s' (ideal CacheEntry.touch op m).2 ((op, answer) :: trace)

section Step

variable {s : L1CacheStore ν} {m : LruMap Str (CacheEntry ν)} {trace : Trace ν} (h : Refines s m trace)

include h

theorem Refines.find (key : Str) : m.find key = s.lru.find key := by
  rw [← h.map, IndexedList.find_lru]

/-- The element of a key that is held. -/
theorem Refines.node {key : Str} {it : ℕ} (hit : s.lru.map.lookup key = some it) :
    ∃ node ∈ s.lru.list, s.lru.deref it = some node ∧ node.key = key ∧ m.find key = some node.val := by
  rw [h.find]
  exact h.agree.deref_of_lookup hit

theorem Refines.get (key : Str) (now : Int64) : Simulated (.get key now) s m trace := by
  cases hit : s.lru.map.lookup key with
  | none =>
    have hfind : m.find key = none := by
      rw [h.find]
      exact h.agree.find_of_lookup_none hit
    simp only [Simulated, perform, L1CacheStore.get, ideal, hit, hfind]
    refine ⟨_, _, rfl, rfl, h.agree, h.map, h.positive, h.recent, fun key' e he => ?_⟩
    have hne : key ≠ key' := by
      rintro rfl
      rw [hfind] at he
      cases he
    simpa [lastSet, hne] using h.values key' e he
  | some it =>
    obtain ⟨node, hmem, hderef, rfl, hfind⟩ := h.node hit
    simp only [Simulated, perform, L1CacheStore.get, ideal, hit, hderef, hfind]
    split_ifs with hexpired
    · refine ⟨_, _, rfl, rfl, h.agree.eraseAt hmem, ?_, h.positive, h.recent.remove _, fun key' e he => ?_⟩
      · rw [← h.map]
        exact h.agree.lru_eraseAt _ hmem
      · rw [LruMap.find_remove] at he
        split_ifs at he with hkey
        simpa [lastSet, Ne.symm hkey] using h.values key' e he
    · refine ⟨_, _, rfl, rfl, h.agree.toFront hmem _, ?_, h.positive,
        h.recent.toFront (LruMap.mem_keys_of_find hfind) _, fun key' e he => ?_⟩
      · rw [← h.map]
        exact h.agree.lru_toFront _ hmem _
      · by_cases hkey : key' = node.key
        · subst hkey
          rw [LruMap.find_toFront_self, Option.some.injEq] at he
          obtain ⟨e₀, n, hlast, hvalue⟩ := h.values _ _ hfind
          refine ⟨e₀, n + 1, by simp [lastSet, hlast], ?_⟩
          rw [← he, hvalue, Function.iterate_succ_apply']
        · rw [LruMap.find_toFront_ne hkey] at he
          simpa [lastSet, Ne.symm hkey] using h.values key' e he

theorem Refines.set (key : Str) (entry : CacheEntry ν) : Simulated (.set key entry) s m trace := by
  have hpositive : 0 < m.capacity := h.map ▸ h.positive
  have hvalues : ∀ key' e, (m.put key entry).find key' = some e →
      ∃ e₀ n, lastSet key' ((.set key entry, .done) :: trace) = some (e₀, n) ∧ e = CacheEntry.touch^[n] e₀ := by
    intro key' e he
    by_cases hkey : key' = key
    · subst hkey
      rw [LruMap.find_put_self, Option.some.injEq] at he
      exact ⟨entry, 0, by simp [lastSet], he.symm⟩
    · simpa [lastSet, Ne.symm hkey] using h.values key' e (h.recent.find_of_find_put hkey he)
  cases hit : s.lru.map.lookup key with
  | none =>
    have hevict : (s.lru.evict fun size => s.maxSize ≤ size).isSome :=
      s.lru.evict_isSome (decide_eq_false (Nat.not_le.2 h.positive))
    obtain ⟨lru, hlru⟩ := Option.isSome_iff_exists.1 hevict
    obtain ⟨hagree, hprefix, -⟩ := h.agree.evict hlru
    have hlist : lru.list = s.lru.list.take (s.maxSize - 1) := by
      refine IndexedList.evict_list (fun n => ?_) hlru
      have hmax := h.positive
      rw [decide_eq_true_iff]
      omega
    simp only [Simulated, perform, L1CacheStore.set, ideal, hit, hlru, Option.map_some]
    refine ⟨_, _, rfl, rfl, hagree.pushFront (h.agree.lookup_of_sublist hagree hprefix.subset hit) entry, ?_,
      h.positive, h.recent.put hpositive key entry, hvalues⟩
    rw [← h.map]
    exact h.agree.lru_pushFront_eq_put s.maxSize hit hlist entry
  | some it =>
    obtain ⟨node, hmem, hderef, rfl, hfind⟩ := h.node hit
    simp only [Simulated, perform, L1CacheStore.set, ideal, hit, hderef, Option.map_some]
    refine ⟨_, _, rfl, rfl, h.agree.toFront hmem fun _ => entry, ?_, h.positive,
      h.recent.put hpositive _ entry, hvalues⟩
    rw [← h.map]
    exact h.agree.lru_toFront_eq_put _ hmem _

theorem Refines.invalidate (key : Str) : Simulated (.invalidate key) s m trace := by
  have hvalues : ∀ key' e, (m.remove key).find key' = some e →
      ∃ e₀ n, lastSet key' ((.invalidate key, .done) :: trace) = some (e₀, n) ∧
        e = CacheEntry.touch^[n] e₀ := by
    intro key' e he
    rw [LruMap.find_remove] at he
    split_ifs at he with hkey
    simpa [lastSet, Ne.symm hkey] using h.values key' e he
  cases hit : s.lru.map.lookup key with
  | none =>
    simp only [Simulated, perform, L1CacheStore.invalidate, ideal, hit, Option.map_some]
    refine ⟨_, _, rfl, rfl, h.agree, ?_, h.positive, h.recent.remove key, hvalues⟩
    have hnew : key ∉ m.keys := h.map ▸ h.agree.notMem_keys_lru s.maxSize hit
    rw [h.map, LruMap.remove_of_notMem hnew]
  | some it =>
    obtain ⟨node, hmem, hderef, rfl, hfind⟩ := h.node hit
    simp only [Simulated, perform, L1CacheStore.invalidate, ideal, hit, hderef, Option.map_some]
    refine ⟨_, _, rfl, rfl, h.agree.eraseAt hmem, ?_, h.positive, h.recent.remove _, hvalues⟩
    rw [← h.map]
    exact h.agree.lru_eraseAt _ hmem

theorem Refines.clear : Simulated .clear s m trace := by
  refine ⟨_, _, rfl, rfl, IndexedList.agree_clear _, ?_, h.positive, h.recent.clear, fun key e he => ?_⟩
  · rw [ideal, ← h.map]
    rfl
  · cases he

theorem Refines.size : Simulated .size s m trace := by
  have hsize : s.size = m.items.length := by
    rw [L1CacheStore.size, h.agree.length_map_keys, ← h.map, IndexedList.length_lru]
  exact ⟨_, _, rfl, by rw [ideal, hsize], h.agree, h.map, h.positive, h.recent, h.values⟩

theorem Refines.setMaxSize {sz : ℕ} (hsz : 0 < sz) : Simulated (.setMaxSize sz) s m trace := by
  have hevict : (s.lru.evict fun size => sz < size).isSome := s.lru.evict_isSome (by simp)
  obtain ⟨lru, hlru⟩ := Option.isSome_iff_exists.1 hevict
  obtain ⟨hagree, -, -⟩ := h.agree.evict hlru
  have hlist : lru.list = s.lru.list.take sz := IndexedList.evict_list (fun n => by simp) hlru
  simp only [Simulated, perform, L1CacheStore.setMaxSize, ideal, hlru, Option.map_some]
  refine ⟨_, _, rfl, rfl, hagree, ?_, hsz, h.recent.resize sz, fun key e he => ?_⟩
  · have hitems := IndexedList.lru_take s.maxSize hlist
    rw [LruMap.resize, ← h.map]
    exact congrArg (LruMap.mk · sz) hitems
  · exact h.values key e (h.recent.find_of_sublist (List.take_sublist sz _) he)

theorem Refines.simulated {op : Op ν} (hop : ∀ sz, op = .setMaxSize sz → 0 < sz) : Simulated op s m trace := by
  cases op with
  | get key now => exact h.get key now
  | set key entry => exact h.set key entry
  | invalidate key => exact h.invalidate key
  | size => exact h.size
  | clear => exact h.clear
  | setMaxSize sz => exact h.setMaxSize (hop sz rfl)

end Step

/-- The run of the store and that of the ideal map. -/
theorem refines_run {ops : List (Op ν)} (hops : ∀ sz, .setMaxSize sz ∈ ops → 0 < sz) :
    ∃ r, run ops = some r ∧ r.2 = (idealRun CacheEntry.touch ops).2 ∧
      Refines r.1 (idealRun CacheEntry.touch ops).1 r.2 := by
  induction ops using List.reverseRecOn with
  | nil => exact ⟨_, rfl, rfl, refines_start⟩
  | append_singleton ops op ih =>
      obtain ⟨⟨s, trace⟩, hrun, htrace, hs⟩ := ih fun sz hsz => hops sz (List.mem_append_left _ hsz)
      dsimp only at htrace hs
      have hop : ∀ sz, op = .setMaxSize sz → 0 < sz := by
        rintro sz rfl
        exact hops sz (List.mem_append_right _ (List.mem_singleton_self _))
      obtain ⟨answer, s', hperform, hanswer, hs'⟩ := hs.simulated hop
      refine ⟨(s', (op, answer) :: trace), ?_, ?_, ?_⟩
      · rw [run, List.foldlM_append, ← run, hrun]
        simp [step, hperform]
      · rw [idealRun, List.foldl_append, ← idealRun, htrace, hanswer]
        rfl
      · rw [idealRun, List.foldl_append, ← idealRun]
        exact hs'

/-- In every run with a maximal size of at least one, the store is defined and answers as the ideal map does,
whose hits count the access.  Then the list and the map agree, the list is not longer than the maximal size
and in the order of the last uses, and what a read finds is the value last set, up to the accesses that were
counted since. -/
theorem refines_lru (ops : List (Op ν)) (hops : ∀ sz, .setMaxSize sz ∈ ops → 0 < sz) :
    ∃ s trace, run ops = some (s, trace) ∧ trace = (idealRun CacheEntry.touch ops).2 ∧
      s.lru.Agree ∧ s.lru.list.length ≤ s.maxSize ∧
      ByRecency (uses trace) (s.lru.list.map ListNode.key) ∧
      ∀ key now e, (s.get key now).map Prod.fst = some (some e) →
        ∃ e₀ n, lastSet key trace = some (e₀, n) ∧ e = CacheEntry.touch^[n + 1] e₀ := by
  obtain ⟨⟨s, trace⟩, hrun, htrace, hs⟩ := refines_run hops
  dsimp only at htrace hs
  refine ⟨s, trace, hrun, htrace, hs.agree, ?_, ?_, fun key now e he => ?_⟩
  · have hroom := hs.recent.room
    rw [← hs.map, IndexedList.length_lru] at hroom
    exact hroom
  · have horder := hs.recent.order
    rw [← hs.map, IndexedList.keys_lru] at horder
    exact horder
  · obtain ⟨answer, s', hperform, hanswer, -⟩ := hs.get key now
    obtain ⟨r, hr, hr₁⟩ := Option.map_eq_some_iff.1 he
    simp only [perform, hr, Option.map_some, hr₁, Option.some.injEq, Prod.mk.injEq] at hperform
    rw [← hperform.1, ideal] at hanswer
    cases hfind : (idealRun CacheEntry.touch ops).1.find key with
    | none => simp [hfind] at hanswer
    | some held =>
      obtain ⟨e₀, n, hlast, hvalue⟩ := hs.values key held hfind
      refine ⟨e₀, n, hlast, ?_⟩
      simp only [hfind] at hanswer
      split_ifs at hanswer
      · cases hanswer
      · rw [Function.iterate_succ_apply', ← hvalue]
        simpa using hanswer

/-- Two writes into a store with one place, and a read of the second. -/
def crowded : List (Op ℚ) :=
  [.setMaxSize 1, .set (str "a") CacheEntry.empty, .set (str "b") CacheEntry.empty, .get (str "b") 0]

theorem refines_lru_crowded :
    ∃ s trace, run crowded = some (s, trace) ∧ trace = (idealRun CacheEntry.touch crowded).2 ∧
      s.lru.Agree ∧ s.lru.list.length ≤ s.maxSize ∧
      ByRecency (uses trace) (s.lru.list.map ListNode.key) ∧
      ∀ key now e, (s.get key now).map Prod.fst = some (some e) →
        ∃ e₀ n, lastSet key trace = some (e₀, n) ∧ e = CacheEntry.touch^[n + 1] e₀ := by
  refine refines_lru crowded fun sz hsz => ?_
  simp only [crowded, List.mem_cons, Op.setMaxSize.injEq, reduceCtorEq, List.not_mem_nil, or_false] at hsz
  omega

/-- The entry that is read is not the one that was set: its access is counted.  So the store does not answer
as a map does whose hits return what was set. -/
theorem read_counts_access :
    ∃ s trace, run [.set (str "a") CacheEntry.empty, .get (str "a") 0] = some (s, trace) ∧
      trace.head? = some (.get (str "a") 0, .entry (some (CacheEntry.touch (CacheEntry.empty : CacheEntry ℚ)))) ∧
      CacheEntry.touch CacheEntry.empty ≠ (CacheEntry.empty : CacheEntry ℚ) ∧
      trace ≠ (idealRun id [.set (str "a") CacheEntry.empty, .get (str "a") 0]).2 := by
  refine ⟨_, _, rfl, by decide +kernel, by decide +kernel, by decide +kernel⟩

end L1CacheStore

end LlmGateway
