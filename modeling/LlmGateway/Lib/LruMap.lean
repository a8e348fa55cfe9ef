import Mathlib.Data.Finset.Card
import LlmGateway.Lib.IndexedList

/-!
# Least-recently-used maps

`LruMap` is what a least-recently-used store is for: a map of bounded size that holds its keys in the order
of their last use, the latest first, and gives up the ones at the end.

`Recent` says that it does, against a list of all uses, the latest first: no key is held twice, there is
room, and each key was used after the keys behind it.  Under it a key that is held is given up only after as
many other keys were used as the map holds (`Recent.find_put`).

A list with a map of iterators represents such a map (`IndexedList.lru`).
-/

/-- A map with its keys in the order of their last use, and the number of keys that it may hold. -/
structure LruMap (κ α : Type*) where
  items : List (κ × α) := []
  capacity : ℕ
  deriving DecidableEq

namespace LruMap

variable {κ α : Type*} [DecidableEq κ]

/-! ## Operations -/

omit [DecidableEq κ] in
/-- The keys, the last used first. -/
def keys (m : LruMap κ α) : List κ := m.items.map Prod.fst

/-- The value under a key. -/
def find (m : LruMap κ α) (k : κ) : Option α := (m.items.find? (·.1 = k)).map Prod.snd

/-- Remove a key. -/
def remove (k : κ) (m : LruMap κ α) : LruMap κ α := { m with items := m.items.filter (·.1 ≠ k) }

/-- Use a key that is held, which gets a value. -/
def toFront (k : κ) (v : α) (m : LruMap κ α) : LruMap κ α :=
  { m with items := (k, v) :: m.items.filter (·.1 ≠ k) }

/-- Store a value.  A new key needs a place: the keys that were not used for the longest time go. -/
def put (k : κ) (v : α) (m : LruMap κ α) : LruMap κ α :=
  if k ∈ m.keys then m.toFront k v else { m with items := (k, v) :: m.items.take (m.capacity - 1) }

omit [DecidableEq κ] in
/-- The empty map of the same capacity. -/
def clear (m : LruMap κ α) : LruMap κ α := { m with items := [] }

omit [DecidableEq κ] in
/-- Change the number of keys that may be held; the keys that are too many go. -/
def resize (n : ℕ) (m : LruMap κ α) : LruMap κ α where
  items := m.items.take n
  capacity := n

/-! ## What is found -/

theorem find_eq_none_iff {m : LruMap κ α} {k : κ} : m.find k = none ↔ k ∉ m.keys := by
  rw [find, Option.map_eq_none_iff, List.find?_eq_none]
  constructor
  · intro h hk
    obtain ⟨p, hp, rfl⟩ := List.mem_map.1 hk
    exact h p hp (by simp)
  · intro h p hp hkey
    exact h (of_decide_eq_true hkey ▸ List.mem_map_of_mem hp)

theorem find_eq_some_iff {m : LruMap κ α} (hm : m.keys.Nodup) {k : κ} {v : α} :
    m.find k = some v ↔ (k, v) ∈ m.items := by
  unfold find
  rw [Option.map_eq_some_iff]
  constructor
  · rintro ⟨p, hp, rfl⟩
    have hkey : p.1 = k := by simpa using List.find?_some hp
    rw [← hkey]
    exact List.mem_of_find?_eq_some hp
  · intro hmem
    obtain ⟨p, hp⟩ : ∃ p, m.items.find? (·.1 = k) = some p := by
      rw [← Option.isSome_iff_exists, List.find?_isSome]
      exact ⟨(k, v), hmem, by simp⟩
    have hkey : p.1 = k := by simpa using List.find?_some hp
    rw [List.inj_on_of_nodup_map hm (List.mem_of_find?_eq_some hp) hmem hkey] at hp
    exact ⟨(k, v), hp, rfl⟩

theorem mem_keys_of_find {m : LruMap κ α} {k : κ} {v : α} (h : m.find k = some v) : k ∈ m.keys := by
  by_contra hk
  rw [find_eq_none_iff.2 hk] at h
  cases h

theorem remove_of_notMem {m : LruMap κ α} {k : κ} (h : k ∉ m.keys) : m.remove k = m := by
  have hitems : m.items.filter (·.1 ≠ k) = m.items := by
    rw [List.filter_eq_self]
    intro p hp
    exact decide_eq_true fun hkey => h (hkey ▸ List.mem_map_of_mem hp)
  rw [remove, hitems]

@[simp]
theorem find_toFront_self (k : κ) (v : α) (m : LruMap κ α) : (m.toFront k v).find k = some v := by
  simp [find, toFront]

theorem find_remove (k k' : κ) (m : LruMap κ α) :
    (m.remove k).find k' = if k' = k then none else m.find k' := by
  split_ifs with hk
  · simp [find_eq_none_iff, keys, remove, hk]
  · have hkey : (fun p : κ × α => decide (decide (p.1 ≠ k) = true ∧ decide (p.1 = k') = true)) =
        fun p => decide (p.1 = k') := by
      funext p
      by_cases hp : p.1 = k'
      · simp [hp, hk]
      · simp [hp]
    rw [find, remove, List.find?_filter, hkey, find]

theorem find_toFront_ne {k k' : κ} (hk : k' ≠ k) (v : α) (m : LruMap κ α) :
    (m.toFront k v).find k' = m.find k' := by
  have hremove := find_remove k k' m
  rw [if_neg hk] at hremove
  rw [← hremove]
  simp [find, toFront, remove, Ne.symm hk]

@[simp]
theorem find_put_self (k : κ) (v : α) (m : LruMap κ α) : (m.put k v).find k = some v := by
  unfold put
  split_ifs
  · exact find_toFront_self k v m
  · simp [find]

/-! ## The order of the last uses -/

/-- The uses after the last one of `k`, in a list of uses with the latest first. -/
def usedSince (k : κ) (uses : List κ) : List κ := uses.takeWhile (· ≠ k)

theorem usedSince_cons_ne {k k' : κ} (h : k' ≠ k) (uses : List κ) :
    usedSince k (k' :: uses) = k' :: usedSince k uses := by
  simp [usedSince, h]

/-- Each key was used after the keys behind it. -/
def ByRecency (uses keys : List κ) : Prop := keys.Pairwise fun k k' => k ∈ usedSince k' uses

theorem byRecency_toFront {uses keys : List κ} (h : ByRecency uses keys) (k : κ) :
    ByRecency (k :: uses) (k :: keys.filter (· ≠ k)) := by
  refine List.pairwise_cons.2 ⟨fun k' hk' => ?_, ?_⟩
  · have hne : k ≠ k' := Ne.symm (of_decide_eq_true (List.mem_filter.1 hk').2)
    rw [usedSince_cons_ne hne]
    exact List.mem_cons_self
  · refine (h.filter _).imp_of_mem fun {a b} _ hb hab => ?_
    have hne : k ≠ b := Ne.symm (of_decide_eq_true (List.mem_filter.1 hb).2)
    rw [usedSince_cons_ne hne]
    exact List.mem_cons_of_mem k hab

/-- What holds of the map after the uses. -/
structure Recent (uses : List κ) (m : LruMap κ α) : Prop where
  nodup : m.keys.Nodup
  room : m.items.length ≤ m.capacity
  order : ByRecency uses m.keys

variable {uses : List κ} {m : LruMap κ α}

omit [DecidableEq κ] in
theorem keys_sublist {l : List (κ × α)} (h : l.Sublist m.items) : (l.map Prod.fst).Sublist m.keys :=
  h.map Prod.fst

theorem Recent.sublist (h : Recent uses m) {l : List (κ × α)} (hl : l.Sublist m.items) {n : ℕ}
    (hn : l.length ≤ n) : Recent uses ⟨l, n⟩ where
  nodup := h.nodup.sublist (keys_sublist hl)
  room := hn
  order := List.Pairwise.sublist (keys_sublist hl) h.order

theorem Recent.find_of_sublist (h : Recent uses m) {l : List (κ × α)} (hl : l.Sublist m.items) {n : ℕ} {k : κ}
    {v : α} (hfind : find ⟨l, n⟩ k = some v) : m.find k = some v :=
  (find_eq_some_iff h.nodup).2
    (hl.subset ((find_eq_some_iff (m := ⟨l, n⟩) (h.nodup.sublist (keys_sublist hl))).1 hfind))

theorem keys_toFront (k : κ) (v : α) (m : LruMap κ α) :
    (m.toFront k v).keys = k :: m.keys.filter (· ≠ k) := by
  simp [keys, toFront, List.filter_map, Function.comp_def]

theorem Recent.toFront (h : Recent uses m) {k : κ} (hk : k ∈ m.keys) (v : α) :
    Recent (k :: uses) (m.toFront k v) where
  nodup := by
    rw [keys_toFront, List.nodup_cons]
    exact ⟨by simp, h.nodup.filter _⟩
  room := by
    have hlen : (m.toFront k v).items.length = (m.toFront k v).keys.length := (List.length_map _).symm
    rw [hlen, keys_toFront, List.length_cons]
    have hlt : (m.keys.filter (· ≠ k)).length < m.keys.length :=
      List.length_filter_lt_length_iff_exists.2 ⟨k, hk, by simp⟩
    have hkeys : m.keys.length = m.items.length := List.length_map _
    have hroom := h.room
    simp only [LruMap.toFront]
    omega
  order := by
    rw [keys_toFront]
    exact byRecency_toFront h.order k

theorem Recent.remove (h : Recent uses m) (k : κ) : Recent uses (m.remove k) :=
  h.sublist List.filter_sublist ((List.length_filter_le _ _).trans h.room)

theorem Recent.clear (h : Recent uses m) : Recent uses m.clear :=
  h.sublist (List.nil_sublist _) (Nat.zero_le _)

theorem Recent.resize (h : Recent uses m) (n : ℕ) : Recent uses (m.resize n) :=
  h.sublist (List.take_sublist n _) (List.length_take_le n _)

theorem Recent.put (h : Recent uses m) (hcapacity : 0 < m.capacity) (k : κ) (v : α) :
    Recent (k :: uses) (m.put k v) := by
  unfold LruMap.put
  split_ifs with hk
  · exact h.toFront hk v
  · have hrest : Recent uses ⟨m.items.take (m.capacity - 1), m.capacity - 1⟩ :=
      h.sublist (List.take_sublist _ _) (List.length_take_le _ _)
    have hnew : k ∉ (m.items.take (m.capacity - 1)).map Prod.fst := fun hmem =>
      hk ((keys_sublist (List.take_sublist _ _)).subset hmem)
    refine ⟨List.nodup_cons.2 ⟨hnew, hrest.nodup⟩, ?_, ?_⟩
    · have hroom := hrest.room
      simp only [List.length_cons] at hroom ⊢
      omega
    · have hfilter : (m.items.take (m.capacity - 1)).map Prod.fst =
          ((m.items.take (m.capacity - 1)).map Prod.fst).filter (· ≠ k) := by
        rw [eq_comm, List.filter_eq_self]
        intro a ha
        exact decide_eq_true fun heq => hnew (heq ▸ ha)
      show ByRecency (k :: uses) (k :: (m.items.take (m.capacity - 1)).map Prod.fst)
      rw [hfilter]
      exact byRecency_toFront hrest.order k

/-- Storing a value under a key changes no other value. -/
theorem Recent.find_of_find_put (h : Recent uses m) {k k' : κ} (hne : k' ≠ k) {v v' : α}
    (hfind : (m.put k v).find k' = some v') : m.find k' = some v' := by
  unfold LruMap.put at hfind
  split_ifs at hfind with hk
  · rwa [find_toFront_ne hne] at hfind
  · refine h.find_of_sublist (n := m.capacity) (List.take_sublist (m.capacity - 1) m.items) ?_
    simpa [find, Ne.symm hne] using hfind

/-- A store that gives up a key gives up the one behind all others: so many other keys were used since. -/
theorem Recent.find_put (h : Recent uses m) {k k' : κ} (hne : k ≠ k') (v : α) {v' : α}
    (hfind : m.find k' = some v') :
    (m.put k v).find k' = some v' ∨ m.capacity ≤ (usedSince k' (k :: uses)).toFinset.card := by
  unfold LruMap.put
  split_ifs with hk
  · left
    rw [find_toFront_ne (Ne.symm hne), hfind]
  · have hmem := (find_eq_some_iff h.nodup).1 hfind
    rw [← List.take_append_drop (m.capacity - 1) m.items] at hmem
    rcases List.mem_append.1 hmem with hmem | hmem
    · left
      have hnodup : ((m.items.take (m.capacity - 1)).map Prod.fst).Nodup :=
        h.nodup.sublist (keys_sublist (List.take_sublist _ _))
      have htake := (find_eq_some_iff (m := ⟨m.items.take (m.capacity - 1), m.capacity⟩) hnodup).2 hmem
      simpa [find, hne] using htake
    · -- the keys before it and the new one are distinct, and all were used since
      right
      have hlen : m.capacity - 1 < m.items.length := by
        by_contra hle
        rw [List.drop_of_length_le (Nat.le_of_not_lt hle)] at hmem
        cases hmem
      have hsplit : m.keys = (m.items.take (m.capacity - 1)).map Prod.fst ++
          (m.items.drop (m.capacity - 1)).map Prod.fst := by
        rw [← List.map_append, List.take_append_drop]
        rfl
      have horder := h.order
      rw [ByRecency, hsplit, List.pairwise_append] at horder
      have hused : ∀ a ∈ (m.items.take (m.capacity - 1)).map Prod.fst, a ∈ usedSince k' uses :=
        fun a ha => horder.2.2 a ha k' (List.mem_map_of_mem hmem)
      have hnodup : (k :: (m.items.take (m.capacity - 1)).map Prod.fst).Nodup :=
        List.nodup_cons.2 ⟨fun hmem => hk ((keys_sublist (List.take_sublist _ _)).subset hmem),
          h.nodup.sublist (keys_sublist (List.take_sublist _ _))⟩
      have hsub : (k :: (m.items.take (m.capacity - 1)).map Prod.fst).toFinset ⊆
          (usedSince k' (k :: uses)).toFinset := by
        intro a ha
        rw [List.mem_toFinset] at ha ⊢
        rw [usedSince_cons_ne hne]
        rcases List.mem_cons.1 ha with rfl | ha
        · exact List.mem_cons_self
        · exact List.mem_cons_of_mem k (hused a ha)
      have hcard := Finset.card_le_card hsub
      rw [List.toFinset_card_of_nodup hnodup, List.length_cons, List.length_map, List.length_take] at hcard
      omega

end LruMap

/-! ## Representation by a list with a map of iterators -/

namespace IndexedList

variable {κ α : Type*} [DecidableEq κ] {s : IndexedList κ α} (capacity : ℕ)

omit [DecidableEq κ] in
/-- The map that the list holds. -/
def lru (s : IndexedList κ α) : LruMap κ α where
  items := s.list.map fun n => (n.key, n.val)
  capacity := capacity

omit [DecidableEq κ] in
theorem keys_lru (s : IndexedList κ α) : (s.lru capacity).keys = s.list.map ListNode.key := by
  simp [lru, LruMap.keys]

theorem find_lru (s : IndexedList κ α) (k : κ) : (s.lru capacity).find k = s.find k := by
  simp [lru, LruMap.find, find, List.find?_map, Function.comp_def]

/-- Erasing an element by its iterator is erasing it by its key. -/
theorem Agree.filter_id (h : Agree s) {n : ListNode κ α} (hn : n ∈ s.list) :
    s.list.filter (·.id ≠ n.id) = s.list.filter (·.key ≠ n.key) := by
  refine List.filter_congr fun n' hn' => ?_
  have hiff : n'.id = n.id ↔ n'.key = n.key :=
    ⟨fun hid => by rw [h.eq_of_id hn' hn hid], fun hkey => by rw [h.eq_of_key hn' hn hkey]⟩
  simp [hiff]

theorem Agree.lru_eraseAt (h : Agree s) {n : ListNode κ α} (hn : n ∈ s.list) :
    (s.eraseAt n n.key).lru capacity = (s.lru capacity).remove n.key := by
  rw [IndexedList.eraseAt, h.filter_id hn, LruMap.remove, lru, lru, List.filter_map]
  rfl

theorem Agree.lru_toFront (h : Agree s) {n : ListNode κ α} (hn : n ∈ s.list) (f : α → α) :
    (s.toFront n f).lru capacity = (s.lru capacity).toFront n.key (f n.val) := by
  rw [IndexedList.toFront, h.filter_id hn, LruMap.toFront, lru, lru, List.filter_map]
  rfl

omit [DecidableEq κ] in
theorem length_lru (s : IndexedList κ α) : (s.lru capacity).items.length = s.list.length :=
  List.length_map _

omit [DecidableEq κ] in
theorem lru_take {s' : IndexedList κ α} {n : ℕ} (h : s'.list = s.list.take n) :
    (s'.lru capacity).items = (s.lru capacity).items.take n := by
  simp [lru, h, List.map_take]

omit [DecidableEq κ] in
theorem mem_keys_lru {n : ListNode κ α} (hn : n ∈ s.list) : n.key ∈ (s.lru capacity).keys := by
  rw [keys_lru]
  exact List.mem_map_of_mem hn

/-- A key without an iterator is not held. -/
theorem Agree.notMem_keys_lru (h : Agree s) {k : κ} (hk : s.map.lookup k = none) :
    k ∉ (s.lru capacity).keys := by
  rw [← LruMap.find_eq_none_iff, find_lru]
  exact h.find_of_lookup_none hk

/-- Changing an element and moving it to the front stores a value under its key. -/
theorem Agree.lru_toFront_eq_put (h : Agree s) {n : ListNode κ α} (hn : n ∈ s.list) (f : α → α) :
    (s.toFront n f).lru capacity = (s.lru capacity).put n.key (f n.val) := by
  rw [LruMap.put, if_pos (mem_keys_lru capacity hn), h.lru_toFront capacity hn]

/-- Making a place and pushing an element to the front stores a value under a new key. -/
theorem Agree.lru_pushFront_eq_put (h : Agree s) {s' : IndexedList κ α} {k : κ} (hk : s.map.lookup k = none)
    (hlist : s'.list = s.list.take (capacity - 1)) (v : α) :
    (s'.pushFront k v).lru capacity = (s.lru capacity).put k v := by
  have hitems := lru_take capacity hlist
  rw [LruMap.put, if_neg (h.notMem_keys_lru capacity hk)]
  simpa [lru, IndexedList.pushFront] using hitems

/-- The map of the iterators has as many keys as the list elements. -/
theorem Agree.length_map_keys (h : Agree s) : s.map.keys.length = s.list.length := by
  have hperm : s.map.keys.Perm (s.list.map ListNode.key) := by
    refine (List.perm_ext_iff_of_nodup s.map.keys_nodup h.keys).2 fun k => ?_
    rw [← AList.mem_keys, ← AList.lookup_isSome, h.find_isSome_iff, Option.isSome_iff_exists]
    simp [h.find_eq_some]
  rw [hperm.length_eq, List.length_map]

end IndexedList
