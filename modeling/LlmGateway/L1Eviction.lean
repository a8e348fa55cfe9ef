import LlmGateway.Lib.Outcome
import LlmGateway.L1Refinement

/-!
# When the evictions of the local cache are defined

`set` makes room as long as `lru_.size() >= max_size_`, and `set_max_size` as long as
`lru_.size() > max_size_`.  Both loops pop the back, so each ends or comes to the empty list.  With a maximal
size of zero the loop of `set` does not stop at the empty list, and takes its back.

`evictions_safe_iff`: a run of operations is defined exactly if no `set` comes after a `set_max_size` to zero,
before the next `set_max_size`.
-/

namespace LlmGateway

variable {ν : Type}

namespace L1CacheStore

/-- The maximal size after an operation. -/
def resized (maxSize : ℕ) : Op ν → ℕ
  | .setMaxSize sz => sz
  | _ => maxSize

/-- The maximal size after some operations from the start of the process on. -/
def capacity (ops : List (Op ν)) : ℕ := ops.foldl resized 4096

/-- The list and the map agree, and the store is not larger than it may be. -/
structure Sized (s : L1CacheStore ν) : Prop where
  agree : s.lru.Agree
  room : s.lru.list.length ≤ s.maxSize

theorem sized_start : Sized ({} : L1CacheStore ν) := ⟨IndexedList.agree_empty, Nat.zero_le _⟩

section Step

variable {s s' : L1CacheStore ν} (h : s.Sized)

include h

theorem Sized.eraseAt {node : ListNode Str (CacheEntry ν)} (hmem : node ∈ s.lru.list) :
    Sized { s with lru := s.lru.eraseAt node node.key } where
  agree := h.agree.eraseAt hmem
  room := (List.length_filter_le _ _).trans h.room

theorem Sized.toFront {node : ListNode Str (CacheEntry ν)} (hmem : node ∈ s.lru.list)
    (f : CacheEntry ν → CacheEntry ν) : Sized { s with lru := s.lru.toFront node f } where
  agree := h.agree.toFront hmem f
  room := by
    have hlt : (s.lru.list.filter (·.id ≠ node.id)).length < s.lru.list.length :=
      List.length_filter_lt_length_iff_exists.2 ⟨node, hmem, by simp⟩
    exact (Nat.succ_le_of_lt hlt).trans h.room

/-- An operation is defined, unless it is a `set` and there is no room at all. -/
theorem Sized.perform_isSome_iff (op : Op ν) :
    (perform op s).isSome ↔ ∀ key entry, op = .set key entry → s.maxSize ≠ 0 := by
  cases op with
  | get key now =>
    simp only [reduceCtorEq, false_implies, implies_true, iff_true, perform, L1CacheStore.get]
    cases hit : s.lru.map.lookup key with
    | none => rfl
    | some it =>
      obtain ⟨node, -, hderef, -⟩ := h.agree.deref_of_lookup hit
      simp only [hderef]
      split_ifs
      · rfl
      · rfl
  | set key entry =>
    simp only [Op.set.injEq, and_imp, perform, L1CacheStore.set]
    cases hit : s.lru.map.lookup key with
    | none =>
      simp only [Option.isSome_map]
      by_cases hzero : s.maxSize = 0
      · -- the store is empty, and the loop takes the back of the empty list
        have hlist : s.lru.list = [] := List.length_eq_zero_iff.1 (Nat.le_zero.1 (hzero ▸ h.room))
        simp [hzero, IndexedList.evict, hlist, IndexedList.evictBack]
      · have hevict : (s.lru.evict fun size => s.maxSize ≤ size).isSome :=
          s.lru.evict_isSome (decide_eq_false (Nat.not_le.2 (Nat.pos_of_ne_zero hzero)))
        simp [hevict, hzero]
    | some it =>
      obtain ⟨node, hmem, hderef, -⟩ := h.agree.deref_of_lookup hit
      have hpos : 0 < s.maxSize := (List.length_pos_of_mem hmem).trans_le h.room
      simp [hderef, hpos.ne']
  | invalidate key =>
    simp only [reduceCtorEq, false_implies, implies_true, iff_true, perform, L1CacheStore.invalidate]
    cases hit : s.lru.map.lookup key with
    | none => rfl
    | some it =>
      obtain ⟨node, -, hderef, -⟩ := h.agree.deref_of_lookup hit
      simp only [hderef]
      rfl
  | size => simp [perform]
  | clear => simp [perform]
  | setMaxSize sz =>
    have hevict : (s.lru.evict fun size => sz < size).isSome := s.lru.evict_isSome (by simp)
    simp [perform, L1CacheStore.setMaxSize, hevict]

theorem Sized.perform {op : Op ν} {answer : Answer ν} (hop : perform op s = some (answer, s')) :
    Sized s' ∧ s'.maxSize = resized s.maxSize op := by
  cases op with
  | get key now =>
    simp only [L1CacheStore.perform, L1CacheStore.get] at hop
    cases hit : s.lru.map.lookup key with
    | none =>
      simp only [hit, Option.map_some, Option.some.injEq, Prod.mk.injEq] at hop
      exact hop.2 ▸ ⟨h, rfl⟩
    | some it =>
      obtain ⟨node, hmem, hderef, rfl, -⟩ := h.agree.deref_of_lookup hit
      simp only [hit, hderef] at hop
      split_ifs at hop
      · simp only [Option.map_some, Option.some.injEq, Prod.mk.injEq] at hop
        exact hop.2 ▸ ⟨h.eraseAt hmem, rfl⟩
      · simp only [Option.map_some, Option.some.injEq, Prod.mk.injEq] at hop
        exact hop.2 ▸ ⟨h.toFront hmem _, rfl⟩
  | set key entry =>
    simp only [L1CacheStore.perform, L1CacheStore.set] at hop
    cases hit : s.lru.map.lookup key with
    | none =>
      simp only [hit, Option.map_map, Option.map_eq_some_iff] at hop
      obtain ⟨lru, hlru, hop⟩ := hop
      obtain ⟨hagree, hprefix, hroom⟩ := h.agree.evict hlru
      cases hop
      refine ⟨⟨hagree.pushFront (h.agree.lookup_of_sublist hagree hprefix.subset hit) entry, ?_⟩, rfl⟩
      exact Nat.succ_le_of_lt (Nat.not_le.1 (of_decide_eq_false hroom))
    | some it =>
      obtain ⟨node, hmem, hderef, rfl, -⟩ := h.agree.deref_of_lookup hit
      simp only [hit, hderef, Option.map_some, Option.some.injEq, Prod.mk.injEq] at hop
      exact hop.2 ▸ ⟨h.toFront hmem _, rfl⟩
  | invalidate key =>
    simp only [L1CacheStore.perform, L1CacheStore.invalidate] at hop
    cases hit : s.lru.map.lookup key with
    | none =>
      simp only [hit, Option.map_some, Option.some.injEq, Prod.mk.injEq] at hop
      exact hop.2 ▸ ⟨h, rfl⟩
    | some it =>
      obtain ⟨node, hmem, hderef, rfl, -⟩ := h.agree.deref_of_lookup hit
      simp only [hit, hderef, Option.map_some, Option.some.injEq, Prod.mk.injEq] at hop
      exact hop.2 ▸ ⟨h.eraseAt hmem, rfl⟩
  | size =>
    simp only [L1CacheStore.perform, Option.some.injEq, Prod.mk.injEq] at hop
    exact hop.2 ▸ ⟨h, rfl⟩
  | clear =>
    simp only [L1CacheStore.perform, Option.some.injEq, Prod.mk.injEq] at hop
    exact hop.2 ▸ ⟨⟨IndexedList.agree_clear _, Nat.zero_le _⟩, rfl⟩
  | setMaxSize sz =>
    simp only [L1CacheStore.perform, L1CacheStore.setMaxSize, Option.map_map, Option.map_eq_some_iff] at hop
    obtain ⟨lru, hlru, hop⟩ := hop
    obtain ⟨hagree, -, hroom⟩ := h.agree.evict hlru
    cases hop
    exact ⟨⟨hagree, Nat.not_lt.1 (of_decide_eq_false hroom)⟩, rfl⟩

end Step

theorem run_append_singleton (ops : List (Op ν)) (op : Op ν) :
    run (ops ++ [op]) = (run ops).bind fun r => step r op := by
  rw [run, List.foldlM_append, ← run]
  simp

theorem capacity_append_singleton (ops : List (Op ν)) (op : Op ν) :
    capacity (ops ++ [op]) = resized (capacity ops) op := by
  simp [capacity]

theorem sized_run {ops : List (Op ν)} {s : L1CacheStore ν} {trace : Trace ν} (h : run ops = some (s, trace)) :
    Sized s ∧ s.maxSize = capacity ops := by
  induction ops using List.reverseRecOn generalizing s trace with
  | nil =>
    cases h
    exact ⟨sized_start, rfl⟩
  | append_singleton ops op ih =>
    rw [run_append_singleton, Option.bind_eq_some_iff] at h
    obtain ⟨⟨s₀, trace₀⟩, hrun, hstep⟩ := h
    obtain ⟨hs₀, hsize⟩ := ih hrun
    obtain ⟨⟨answer, s₁⟩, hop, hs₁⟩ := Option.map_eq_some_iff.1 hstep
    cases hs₁
    rw [capacity_append_singleton, ← hsize]
    exact hs₀.perform hop

theorem run_isSome_iff (ops : List (Op ν)) : (run ops).isSome ↔
    ∀ pre op post, ops = pre ++ op :: post → ∀ key entry, op = .set key entry → capacity pre ≠ 0 := by
  induction ops using List.reverseRecOn with
  | nil => simp [run]
  | append_singleton ops op ih =>
    rw [Outcome.forall_step_append_singleton
      (P := fun pre op => ∀ key entry, op = .set key entry → capacity pre ≠ 0), ← ih, run_append_singleton]
    cases hrun : run ops with
    | none => simp
    | some r =>
      obtain ⟨s, trace⟩ := r
      obtain ⟨hs, hsize⟩ := sized_run hrun
      simp only [Option.bind_some, step, Option.isSome_map, hs.perform_isSome_iff op, hsize, Option.isSome_some,
        true_and]

/-- A run is defined exactly if each `set` finds a maximal size that is not zero.  Then no eviction takes the
back of an empty list, and every loop ends. -/
theorem evictions_safe_iff (ops : List (Op ν)) : (run ops).isSome ↔
    ∀ pre key entry post, ops = pre ++ .set key entry :: post → capacity pre ≠ 0 := by
  rw [run_isSome_iff]
  constructor
  · exact fun h pre key entry post hops => h pre _ post hops key entry rfl
  · rintro h pre _ post hops key entry rfl
    exact h pre key entry post hops

/-- A store without any room takes the back of its empty list at the first `set`. -/
theorem set_without_room :
    run [.setMaxSize 0, .set (str "a") (CacheEntry.empty : CacheEntry ℚ)] = none ∧
      ¬∀ ops : List (Op ℚ), (run ops).isSome := by
  have hnone : run [.setMaxSize 0, .set (str "a") (CacheEntry.empty : CacheEntry ℚ)] = none := by decide +kernel
  refine ⟨hnone, fun h => ?_⟩
  have hsome := h [.setMaxSize 0, .set (str "a") CacheEntry.empty]
  rw [hnone] at hsome
  cases hsome

end L1CacheStore

end LlmGateway
