import LlmGateway.CacheEntry
import LlmGateway.Lib.IndexedList

/-!
# The local cache

`L1CacheStore`: a least-recently-used store of entries.  The operations of the class follow iterators
and pop the back of the list, so they return `none` where the source has no defined behaviour: at a
dangling iterator, and at the back of an empty list.

In a store whose list and map agree and that may hold an entry (`L1CacheStore.Valid`) this does not
happen.  `L1Store` is the type of these stores; its operations are total, and `get_fst`, `find_get`,
`find_set_self`, `find_of_find_set` and `find_invalidate` say what they do.  Expiry is judged by the
steady clock.
-/

namespace LlmGateway

variable {ν : Type}

/-- The local cache, the last used entry first. -/
structure L1CacheStore (ν : Type) where
  /-- `lru_` and `map_`. -/
  lru : IndexedList Str (CacheEntry ν) := {}
  maxSize : ℕ := 4096

namespace L1CacheStore

/-- Read a key: an expired entry is removed, another one is touched and moves to the front. -/
def get (key : Str) (now : Int64) (s : L1CacheStore ν) :
    Option (Option (CacheEntry ν) × L1CacheStore ν) :=
  match s.lru.map.lookup key with
  | none => some (none, s)
  | some it =>
      match s.lru.deref it with
      | none => none
      | some node =>
          if node.val.expired now then some (none, { s with lru := s.lru.eraseAt node key })
          else some (some node.val.touch, { s with lru := s.lru.toFront node CacheEntry.touch })

/-- Set a key; a new one may push the last used one out. -/
def set (key : Str) (entry : CacheEntry ν) (s : L1CacheStore ν) : Option (L1CacheStore ν) :=
  match s.lru.map.lookup key with
  | some it =>
      match s.lru.deref it with
      | none => none
      | some node => some { s with lru := s.lru.toFront node fun _ => entry }
  | none =>
      (s.lru.evict fun size => s.maxSize ≤ size).map fun lru =>
        { s with lru := lru.pushFront key entry }

/-- Remove a key. -/
def invalidate (key : Str) (s : L1CacheStore ν) : Option (L1CacheStore ν) :=
  match s.lru.map.lookup key with
  | none => some s
  | some it =>
      match s.lru.deref it with
      | none => none
      | some node => some { s with lru := s.lru.eraseAt node key }

/-- The number of keys. -/
def size (s : L1CacheStore ν) : ℕ := s.lru.map.keys.length

/-- Remove all. -/
def clear (s : L1CacheStore ν) : L1CacheStore ν := { s with lru := s.lru.clear }

/-- Change the bound, and remove what is above it. -/
def setMaxSize (sz : ℕ) (s : L1CacheStore ν) : Option (L1CacheStore ν) :=
  (s.lru.evict fun size => sz < size).map fun lru => { lru, maxSize := sz }

/-! ## Valid stores -/

/-- The list and the map agree, and the store may hold an entry. -/
def Valid (s : L1CacheStore ν) : Prop := s.lru.Agree ∧ 0 < s.maxSize

/-- The copy under a key, expired or not. -/
def find (s : L1CacheStore ν) (key : Str) : Option (CacheEntry ν) := s.lru.find key

/-- The copy under a key that a read finds. -/
def live (s : L1CacheStore ν) (key : Str) (now : Int64) : Option (CacheEntry ν) :=
  (s.find key).filter fun e => !e.expired now

theorem get_spec {s : L1CacheStore ν} (hs : s.Valid) (key : Str) (now : Int64) :
    ∃ r, s.get key now = some r ∧ r.1 = (s.live key now).map CacheEntry.touch ∧ r.2.Valid ∧
      ∀ k, r.2.find k = if k = key then (s.live key now).map CacheEntry.touch else s.find k := by
  unfold get
  cases hk : s.lru.map.lookup key with
  | none =>
    have hnone : s.find key = none := hs.1.find_of_lookup_none hk
    refine ⟨_, rfl, by simp [live, hnone], hs, fun k => ?_⟩
    split_ifs with h
    · rw [h, live, hnone]
      rfl
    · rfl
  | some it =>
    obtain ⟨node, hmem, hderef, rfl, hfind⟩ := hs.1.deref_of_lookup hk
    have hfind : s.find node.key = some node.val := hfind
    simp only [hderef]
    by_cases hexp : node.val.expired now
    · have hlive : s.live node.key now = none := by simp [live, hfind, hexp]
      rw [if_pos hexp, hlive]
      exact ⟨_, rfl, rfl, ⟨hs.1.eraseAt hmem, hs.2⟩, hs.1.find_eraseAt hmem⟩
    · have hlive : s.live node.key now = some node.val := by simp [live, hfind, hexp]
      rw [if_neg hexp, hlive]
      exact ⟨_, rfl, rfl, ⟨hs.1.toFront hmem CacheEntry.touch, hs.2⟩,
        hs.1.find_toFront hmem CacheEntry.touch⟩

theorem set_spec {s : L1CacheStore ν} (hs : s.Valid) (key : Str) (entry : CacheEntry ν) :
    ∃ s', s.set key entry = some s' ∧ s'.Valid ∧ s'.find key = some entry ∧
      ∀ k e, k ≠ key → s'.find k = some e → s.find k = some e := by
  unfold set
  cases hk : s.lru.map.lookup key with
  | none =>
    have hevict : (s.lru.evict fun size => s.maxSize ≤ size).isSome :=
      s.lru.evict_isSome (decide_eq_false (Nat.not_le.2 hs.2))
    obtain ⟨lru, hlru⟩ := Option.isSome_iff_exists.1 hevict
    obtain ⟨hagree, hprefix, -⟩ := hs.1.evict hlru
    have hnone : lru.map.lookup key = none := hs.1.lookup_of_sublist hagree hprefix.subset hk
    simp only [hlru, Option.map_some]
    refine ⟨_, rfl, ⟨hagree.pushFront hnone entry, hs.2⟩, ?_, fun k e hne he => ?_⟩
    · exact (lru.find_pushFront key key entry).trans (if_pos rfl)
    · rw [find, IndexedList.find_pushFront, if_neg hne] at he
      exact hs.1.find_of_sublist hagree hprefix.subset he
  | some it =>
    obtain ⟨node, hmem, hderef, rfl, -⟩ := hs.1.deref_of_lookup hk
    simp only [hderef]
    refine ⟨_, rfl, ⟨hs.1.toFront hmem fun _ => entry, hs.2⟩, ?_, fun k e hne he => ?_⟩
    · exact (hs.1.find_toFront hmem _ node.key).trans (if_pos rfl)
    · have hfind := hs.1.find_toFront hmem (fun _ => entry) k
      rw [if_neg hne] at hfind
      exact hfind.symm.trans he

theorem invalidate_spec {s : L1CacheStore ν} (hs : s.Valid) (key : Str) :
    ∃ s', s.invalidate key = some s' ∧ s'.Valid ∧
      ∀ k, s'.find k = if k = key then none else s.find k := by
  unfold invalidate
  cases hk : s.lru.map.lookup key with
  | none =>
    refine ⟨s, rfl, hs, fun k => ?_⟩
    split_ifs with h
    · rw [h]
      exact hs.1.find_of_lookup_none hk
    · rfl
  | some it =>
    obtain ⟨node, hmem, hderef, rfl, -⟩ := hs.1.deref_of_lookup hk
    simp only [hderef]
    exact ⟨_, rfl, ⟨hs.1.eraseAt hmem, hs.2⟩, hs.1.find_eraseAt hmem⟩

end L1CacheStore

/-- A store whose operations are defined. -/
def L1Store (ν : Type) := { s : L1CacheStore ν // s.Valid }

namespace L1Store

/-- The result of an operation that is defined, with what is known about it. -/
def defined {α : Type} {P : α → Prop} : (o : Option α) → (∃ a, o = some a ∧ P a) → { a // P a }
  | some a, h => ⟨a, by
      obtain ⟨a', ha, hP⟩ := h
      rw [Option.some.inj ha]
      exact hP⟩
  | none, h => absurd h (by simp)

/-- The store at the start of the process. -/
def empty : L1Store ν := ⟨{}, IndexedList.agree_empty, Nat.succ_pos 4095⟩

/-- `get`, which is defined for such a store. -/
def get (key : Str) (now : Int64) (s : L1Store ν) : Option (CacheEntry ν) × L1Store ν :=
  let r := defined (s.1.get key now) (L1CacheStore.get_spec s.2 key now)
  (r.1.1, ⟨r.1.2, r.2.2.1⟩)

/-- `set`, which is defined for such a store. -/
def set (key : Str) (entry : CacheEntry ν) (s : L1Store ν) : L1Store ν :=
  let r := defined (s.1.set key entry) (L1CacheStore.set_spec s.2 key entry)
  ⟨r.1, r.2.1⟩

/-- `invalidate`, which is defined for such a store. -/
def invalidate (key : Str) (s : L1Store ν) : L1Store ν :=
  let r := defined (s.1.invalidate key) (L1CacheStore.invalidate_spec s.2 key)
  ⟨r.1, r.2.1⟩

/-- The copy under a key, expired or not. -/
def find (s : L1Store ν) (key : Str) : Option (CacheEntry ν) := s.1.find key

/-- The copy under a key that a read finds. -/
def live (s : L1Store ν) (key : Str) (now : Int64) : Option (CacheEntry ν) := s.1.live key now

theorem live_eq_some {s : L1Store ν} {key : Str} {now : Int64} {e : CacheEntry ν} :
    s.live key now = some e ↔ s.find key = some e ∧ e.expired now = false := by
  simp [live, find, L1CacheStore.live, Option.filter_eq_some_iff]

/-- A read returns the live copy, touched. -/
theorem get_fst (key : Str) (now : Int64) (s : L1Store ν) :
    (s.get key now).1 = (s.live key now).map CacheEntry.touch :=
  (defined (s.1.get key now) (L1CacheStore.get_spec s.2 key now)).2.1

/-- A read drops an expired copy and touches a live one. -/
theorem find_get (key : Str) (now : Int64) (s : L1Store ν) (k : Str) :
    (s.get key now).2.find k =
      if k = key then (s.live key now).map CacheEntry.touch else s.find k :=
  (defined (s.1.get key now) (L1CacheStore.get_spec s.2 key now)).2.2.2 k

@[simp]
theorem find_set_self (key : Str) (entry : CacheEntry ν) (s : L1Store ν) :
    (s.set key entry).find key = some entry :=
  (defined (s.1.set key entry) (L1CacheStore.set_spec s.2 key entry)).2.2.1

/-- Setting a key can only evict other copies. -/
theorem find_of_find_set {key k : Str} {entry e : CacheEntry ν} {s : L1Store ν} (hne : k ≠ key)
    (he : (s.set key entry).find k = some e) : s.find k = some e :=
  (defined (s.1.set key entry) (L1CacheStore.set_spec s.2 key entry)).2.2.2 k e hne he

theorem find_invalidate (key : Str) (s : L1Store ν) (k : Str) :
    (s.invalidate key).find k = if k = key then none else s.find k :=
  (defined (s.1.invalidate key) (L1CacheStore.invalidate_spec s.2 key)).2.2 k

/-! ### What holds of every copy -/

section Forall

variable {P : Str → CacheEntry ν → Prop} {s : L1Store ν} (h : ∀ k e, s.find k = some e → P k e)
include h

theorem forall_find_get (key : Str) (htouch : ∀ e : CacheEntry ν, P key e → P key e.touch)
    (now : Int64) : ∀ k e, (s.get key now).2.find k = some e → P k e := by
  intro k e' he'
  rw [find_get] at he'
  split_ifs at he' with hk
  · obtain ⟨e, he, rfl⟩ := Option.map_eq_some_iff.1 he'
    rw [hk]
    exact htouch e (h key e (live_eq_some.1 he).1)
  · exact h k e' he'

theorem forall_find_set {key : Str} {entry : CacheEntry ν} (hentry : P key entry) :
    ∀ k e, (s.set key entry).find k = some e → P k e := by
  intro k e he
  by_cases hk : k = key
  · rw [hk, find_set_self, Option.some.injEq] at he
    rw [hk, ← he]
    exact hentry
  · exact h k e (find_of_find_set hk he)

theorem forall_find_invalidate (key : Str) :
    ∀ k e, (s.invalidate key).find k = some e → P k e := by
  intro k e he
  rw [find_invalidate] at he
  split_ifs at he
  exact h k e he

end Forall

end L1Store

end LlmGateway
