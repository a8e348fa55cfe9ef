import LlmGateway.Lib.AssocMap

/-!
# A list with a map of iterators

The usual representation of a least-recently-used store: a linked list of the elements, and a map
from keys to iterators into the list.  An iterator stays valid while its element is moved within the
list; it is modelled by a number that no other element gets (`Node.id`).

`Agree` says that the list and the map describe the same elements.  It is kept by moving an element
to the front, by pushing a new one, by erasing one and by evicting from the back, and under it the
content of the store is what the list holds under each key (`find`).  An eviction leaves as many elements
from the front as are not too many (`evict_list`).
-/

/-- An element of the list. -/
structure ListNode (κ α : Type*) where
  /-- The iterator to the element. -/
  id : ℕ
  key : κ
  val : α
  deriving DecidableEq

/-- A list of nodes, and a map from keys to their iterators. -/
structure IndexedList (κ α : Type*) where
  list : List (ListNode κ α) := []
  map : AList fun _ : κ => ℕ := ∅
  /-- The iterator that the next new element gets. -/
  fresh : ℕ := 0

namespace IndexedList

variable {κ α : Type*} [DecidableEq κ]

/-! ## Operations -/

omit [DecidableEq κ] in
/-- The element an iterator points to; `none` if it dangles. -/
def deref (s : IndexedList κ α) (it : ℕ) : Option (ListNode κ α) := s.list.find? (·.id = it)

/-- Erase an element from the list and a key from the map. -/
def eraseAt (s : IndexedList κ α) (n : ListNode κ α) (key : κ) : IndexedList κ α :=
  { s with
    list := s.list.filter (·.id ≠ n.id)
    map := s.map.erase key }

omit [DecidableEq κ] in
/-- Update the value of an element and move it to the front. -/
def toFront (s : IndexedList κ α) (n : ListNode κ α) (f : α → α) : IndexedList κ α :=
  { s with list := { n with val := f n.val } :: s.list.filter (·.id ≠ n.id) }

/-- Insert a new element at the front. -/
def pushFront (s : IndexedList κ α) (key : κ) (val : α) : IndexedList κ α where
  list := ⟨s.fresh, key, val⟩ :: s.list
  map := s.map.insert key s.fresh
  fresh := s.fresh + 1

/-- Pop the back as long as the length is `full`, on the reversed list; `none` if the back of an empty
list is taken. -/
def evictBack (full : ℕ → Bool) :
    List (ListNode κ α) → (AList fun _ : κ => ℕ) →
      Option (List (ListNode κ α) × AList fun _ : κ => ℕ)
  | [], m => if full 0 then none else some ([], m)
  | n :: rev, m =>
      if full (rev.length + 1) then evictBack full rev (m.erase n.key) else some (n :: rev, m)

/-- Evict from the back as long as the length is `full`. -/
def evict (s : IndexedList κ α) (full : ℕ → Bool) : Option (IndexedList κ α) :=
  (evictBack full s.list.reverse s.map).map fun r => { s with list := r.1.reverse, map := r.2 }

omit [DecidableEq κ] in
/-- Forget all elements. -/
def clear (s : IndexedList κ α) : IndexedList κ α := { fresh := s.fresh }

/-- Pop the back; `none` if the list is empty. -/
def popBack (s : IndexedList κ α) : Option (IndexedList κ α) :=
  match s.list.getLast? with
  | none => none
  | some n => some { s with list := s.list.dropLast, map := s.map.erase n.key }

/-- The value under a key. -/
def find (s : IndexedList κ α) (k : κ) : Option α := (s.list.find? (·.key = k)).map ListNode.val

/-! ## Agreement of the list and the map -/

/-- The list and the map describe the same elements. -/
structure Agree (s : IndexedList κ α) : Prop where
  ids : (s.list.map ListNode.id).Nodup
  keys : (s.list.map ListNode.key).Nodup
  bound : ∀ n ∈ s.list, n.id < s.fresh
  map_iff : ∀ k it, s.map.lookup k = some it ↔ ∃ n ∈ s.list, n.key = k ∧ n.id = it

theorem agree_empty : Agree ({} : IndexedList κ α) where
  ids := List.nodup_nil
  keys := List.nodup_nil
  bound _ h := by cases h
  map_iff k it := by simp

theorem agree_clear (s : IndexedList κ α) : Agree s.clear where
  ids := List.nodup_nil
  keys := List.nodup_nil
  bound _ h := by cases h
  map_iff k it := by simp [clear]

section Agree

variable {s : IndexedList κ α}

theorem Agree.eq_of_id (h : Agree s) {n n' : ListNode κ α} (hn : n ∈ s.list) (hn' : n' ∈ s.list)
    (hid : n.id = n'.id) : n = n' :=
  List.inj_on_of_nodup_map h.ids hn hn' hid

theorem Agree.eq_of_key (h : Agree s) {n n' : ListNode κ α} (hn : n ∈ s.list) (hn' : n' ∈ s.list)
    (hkey : n.key = n'.key) : n = n' :=
  List.inj_on_of_nodup_map h.keys hn hn' hkey

theorem Agree.find_eq_some (h : Agree s) {k : κ} {v : α} :
    s.find k = some v ↔ ∃ n ∈ s.list, n.key = k ∧ n.val = v := by
  unfold find
  rw [Option.map_eq_some_iff]
  constructor
  · rintro ⟨n, hn, rfl⟩
    exact ⟨n, List.mem_of_find?_eq_some hn, by simpa using List.find?_some hn, rfl⟩
  · rintro ⟨n, hn, rfl, rfl⟩
    obtain ⟨n', hn'⟩ : ∃ n', s.list.find? (·.key = n.key) = some n' := by
      rw [← Option.isSome_iff_exists, List.find?_isSome]
      exact ⟨n, hn, by simp⟩
    have hkey : n'.key = n.key := by simpa using List.find?_some hn'
    rw [h.eq_of_key (List.mem_of_find?_eq_some hn') hn hkey] at hn'
    exact ⟨n, hn', rfl⟩

/-- A key without an iterator has no value. -/
theorem Agree.find_of_lookup_none (h : Agree s) {k : κ} (hk : s.map.lookup k = none) :
    s.find k = none := by
  rw [Option.eq_none_iff_forall_ne_some]
  intro v hv
  obtain ⟨n, hn, hkey, -⟩ := h.find_eq_some.1 hv
  have hlookup := (h.map_iff k n.id).2 ⟨n, hn, hkey, rfl⟩
  rw [hk] at hlookup
  cases hlookup

/-- An iterator of the map points to the element of its key. -/
theorem Agree.deref_of_lookup (h : Agree s) {k : κ} {it : ℕ} (hk : s.map.lookup k = some it) :
    ∃ n ∈ s.list, s.deref it = some n ∧ n.key = k ∧ s.find k = some n.val := by
  obtain ⟨n, hn, hkey, hid⟩ := (h.map_iff k it).1 hk
  refine ⟨n, hn, ?_, hkey, h.find_eq_some.2 ⟨n, hn, hkey, rfl⟩⟩
  obtain ⟨n', hn'⟩ : ∃ n', s.list.find? (·.id = it) = some n' := by
    rw [← Option.isSome_iff_exists, List.find?_isSome]
    exact ⟨n, hn, by simpa using hid⟩
  have hid' : n'.id = it := by simpa using List.find?_some hn'
  rw [deref, hn', h.eq_of_id (List.mem_of_find?_eq_some hn') hn (hid'.trans hid.symm)]

theorem Agree.find_isSome_iff (h : Agree s) (k : κ) :
    (s.map.lookup k).isSome ↔ (s.find k).isSome := by
  cases hk : s.map.lookup k with
  | none => simp [h.find_of_lookup_none hk]
  | some it =>
    obtain ⟨n, -, -, -, hfind⟩ := h.deref_of_lookup hk
    simp [hfind]

theorem Agree.eraseAt (h : Agree s) {n : ListNode κ α} (hn : n ∈ s.list) :
    Agree (s.eraseAt n n.key) where
  ids := h.ids.sublist (List.filter_sublist.map _)
  keys := h.keys.sublist (List.filter_sublist.map _)
  bound n' hn' := h.bound n' (List.mem_of_mem_filter hn')
  map_iff k it := by
    by_cases hk : k = n.key
    · subst hk
      simp only [IndexedList.eraseAt, AList.lookup_erase, reduceCtorEq, false_iff]
      rintro ⟨n', hn', hkey, -⟩
      have hmem := List.mem_filter.1 hn'
      have heq := h.eq_of_key hmem.1 hn hkey
      simp [heq] at hmem
    · rw [IndexedList.eraseAt, AList.lookup_erase_ne hk, h.map_iff]
      constructor
      · rintro ⟨n', hn', rfl, rfl⟩
        refine ⟨n', List.mem_filter.2 ⟨hn', ?_⟩, rfl, rfl⟩
        have hne : n'.id ≠ n.id := fun hid => hk (by rw [h.eq_of_id hn' hn hid])
        simpa using hne
      · rintro ⟨n', hn', rfl, rfl⟩
        exact ⟨n', List.mem_of_mem_filter hn', rfl, rfl⟩

theorem Agree.mem_eraseAt (h : Agree s) {n n' : ListNode κ α} (hn : n ∈ s.list) :
    n' ∈ (s.eraseAt n n.key).list ↔ n' ∈ s.list ∧ n'.key ≠ n.key := by
  simp only [IndexedList.eraseAt, List.mem_filter, ne_eq, decide_not, Bool.not_eq_true',
    decide_eq_false_iff_not]
  refine and_congr_right fun hn' => not_congr ⟨fun hid => ?_, fun hkey => ?_⟩
  · rw [h.eq_of_id hn' hn hid]
  · rw [h.eq_of_key hn' hn hkey]

theorem Agree.find_eraseAt (h : Agree s) {n : ListNode κ α} (hn : n ∈ s.list) (k : κ) :
    (s.eraseAt n n.key).find k = if k = n.key then none else s.find k := by
  ext v
  rw [(h.eraseAt hn).find_eq_some]
  split_ifs with hk
  · subst hk
    simp only [h.mem_eraseAt hn, iff_false]
    rintro ⟨n', ⟨-, hne⟩, hkey, -⟩
    exact hne hkey
  · rw [h.find_eq_some]
    simp only [h.mem_eraseAt hn]
    constructor
    · rintro ⟨n', ⟨hn', -⟩, hkey, hval⟩
      exact ⟨n', hn', hkey, hval⟩
    · rintro ⟨n', hn', rfl, hval⟩
      exact ⟨n', ⟨hn', hk⟩, rfl, hval⟩

theorem Agree.toFront (h : Agree s) {n : ListNode κ α} (hn : n ∈ s.list) (f : α → α) :
    Agree (s.toFront n f) where
  ids := by
    refine List.nodup_cons.2 ⟨?_, h.ids.sublist (List.filter_sublist.map _)⟩
    simp
  keys := by
    refine List.nodup_cons.2 ⟨?_, h.keys.sublist (List.filter_sublist.map _)⟩
    rw [List.mem_map]
    rintro ⟨n', hn', hkey⟩
    exact ((h.mem_eraseAt hn).1 hn').2 hkey
  bound n' hn' := by
    rcases List.mem_cons.1 hn' with rfl | hn'
    · exact h.bound n hn
    · exact h.bound n' (List.mem_of_mem_filter hn')
  map_iff k it := by
    refine (h.map_iff k it).trans ⟨?_, ?_⟩
    · rintro ⟨n', hn', rfl, rfl⟩
      by_cases hkey : n'.key = n.key
      · refine ⟨_, List.mem_cons_self, hkey.symm, ?_⟩
        rw [h.eq_of_key hn' hn hkey]
      · exact ⟨n', List.mem_cons_of_mem _ ((h.mem_eraseAt hn).2 ⟨hn', hkey⟩), rfl, rfl⟩
    · rintro ⟨n', hn', rfl, rfl⟩
      rcases List.mem_cons.1 hn' with rfl | hn'
      · exact ⟨n, hn, rfl, rfl⟩
      · exact ⟨n', ((h.mem_eraseAt hn).1 hn').1, rfl, rfl⟩

theorem Agree.find_toFront (h : Agree s) {n : ListNode κ α} (hn : n ∈ s.list) (f : α → α) (k : κ) :
    (s.toFront n f).find k = if k = n.key then some (f n.val) else s.find k := by
  by_cases hk : k = n.key
  · subst hk
    simp [find, IndexedList.toFront]
  · have herase := h.find_eraseAt hn k
    rw [if_neg hk] at herase ⊢
    rw [← herase]
    simp [find, IndexedList.toFront, IndexedList.eraseAt, Ne.symm hk]

theorem Agree.pushFront (h : Agree s) {k : κ} (hk : s.map.lookup k = none) (v : α) :
    Agree (s.pushFront k v) where
  ids := by
    refine List.nodup_cons.2 ⟨?_, h.ids⟩
    rw [List.mem_map]
    rintro ⟨n, hn, hid⟩
    exact Nat.ne_of_lt (h.bound n hn) hid
  keys := by
    refine List.nodup_cons.2 ⟨?_, h.keys⟩
    rw [List.mem_map]
    rintro ⟨n, hn, hkey⟩
    have hlookup := (h.map_iff k n.id).2 ⟨n, hn, hkey, rfl⟩
    rw [hk] at hlookup
    cases hlookup
  bound n hn := by
    rcases List.mem_cons.1 hn with rfl | hn
    · exact Nat.lt_succ_self _
    · exact Nat.lt_succ_of_lt (h.bound n hn)
  map_iff k' it := by
    by_cases hk' : k' = k
    · subst hk'
      simp only [IndexedList.pushFront, AList.lookup_insert, Option.some.injEq]
      constructor
      · rintro rfl
        exact ⟨_, List.mem_cons_self, rfl, rfl⟩
      · rintro ⟨n, hn, hkey, rfl⟩
        rcases List.mem_cons.1 hn with rfl | hn
        · rfl
        · have hlookup := (h.map_iff k' n.id).2 ⟨n, hn, hkey, rfl⟩
          rw [hk] at hlookup
          cases hlookup
    · rw [IndexedList.pushFront, AList.lookup_insert_ne hk', h.map_iff]
      constructor
      · rintro ⟨n, hn, hkey, hid⟩
        exact ⟨n, List.mem_cons_of_mem _ hn, hkey, hid⟩
      · rintro ⟨n, hn, rfl, rfl⟩
        rcases List.mem_cons.1 hn with rfl | hn
        · exact absurd rfl hk'
        · exact ⟨n, hn, rfl, rfl⟩

omit [DecidableEq κ] in
theorem find_pushFront [DecidableEq κ] (s : IndexedList κ α) (k k' : κ) (v : α) :
    (s.pushFront k v).find k' = if k' = k then some v else s.find k' := by
  by_cases hk : k' = k
  · subst hk
    simp [find, IndexedList.pushFront]
  · simp [find, IndexedList.pushFront, hk, Ne.symm hk]

end Agree

/-! ## Eviction -/

section Evict

variable {full : ℕ → Bool}

/-- Popping the back is erasing the last element. -/
theorem Agree.popBack {l : List (ListNode κ α)} {n : ListNode κ α} {m : AList fun _ : κ => ℕ}
    {fresh : ℕ} (h : Agree ⟨l ++ [n], m, fresh⟩) : Agree ⟨l, m.erase n.key, fresh⟩ := by
  have hl : (l ++ [n]).filter (·.id ≠ n.id) = l := by
    have hids := h.ids
    rw [List.map_append, List.nodup_append] at hids
    have hself : ∀ n' ∈ l, n'.id ≠ n.id := fun n' hn' =>
      hids.2.2 n'.id (List.mem_map_of_mem hn') n.id (by simp)
    rw [List.filter_append, List.filter_eq_self.2 (by simpa using hself)]
    simp
  have herase := h.eraseAt (n := n) (by simp)
  rw [IndexedList.eraseAt, hl] at herase
  exact herase

theorem evictBack_spec {rev : List (ListNode κ α)} {m : AList fun _ : κ => ℕ} {fresh : ℕ}
    (h : Agree ⟨rev.reverse, m, fresh⟩) {r : List (ListNode κ α) × AList fun _ : κ => ℕ}
    (hr : evictBack full rev m = some r) :
    Agree ⟨r.1.reverse, r.2, fresh⟩ ∧ r.1 <:+ rev ∧ full r.1.length = false := by
  induction rev generalizing m with
  | nil =>
      unfold evictBack at hr
      split_ifs at hr with hfull
      cases hr
      exact ⟨h, List.suffix_refl _, by simpa using hfull⟩
  | cons n rev ih =>
      unfold evictBack at hr
      split_ifs at hr with hfull
      · rw [List.reverse_cons] at h
        obtain ⟨hagree, hsuffix, hlen⟩ := ih h.popBack hr
        exact ⟨hagree, hsuffix.trans (List.suffix_cons n rev), hlen⟩
      · cases hr
        exact ⟨h, List.suffix_refl _, by simpa using hfull⟩

theorem evictBack_isSome (h₀ : full 0 = false) (rev : List (ListNode κ α))
    (m : AList fun _ : κ => ℕ) : (evictBack full rev m).isSome := by
  induction rev generalizing m with
  | nil => simp [evictBack, h₀]
  | cons n rev ih =>
      unfold evictBack
      split_ifs
      · exact ih _
      · rfl

/-- The loop never takes the back of an empty list, if the empty list is not full. -/
theorem evict_isSome (s : IndexedList κ α) (h₀ : full 0 = false) : (s.evict full).isSome := by
  simpa [evict] using evictBack_isSome h₀ s.list.reverse s.map

theorem Agree.evict {s s' : IndexedList κ α} (h : Agree s) (hs : s.evict full = some s') :
    Agree s' ∧ s'.list <+: s.list ∧ full s'.list.length = false := by
  obtain ⟨r, hr, rfl⟩ := Option.map_eq_some_iff.1 hs
  have h' : Agree ⟨s.list.reverse.reverse, s.map, s.fresh⟩ := by
    rw [List.reverse_reverse]
    exact h
  obtain ⟨hagree, hsuffix, hlen⟩ := evictBack_spec h' hr
  refine ⟨hagree, ?_, by rwa [List.length_reverse]⟩
  rw [← List.reverse_suffix, List.reverse_reverse]
  exact hsuffix

/-- The elements that are left, on the reversed list. -/
theorem evictBack_eq_drop {m : ℕ} (hfull : ∀ n, full n = true ↔ m < n) {rev : List (ListNode κ α)}
    {map : AList fun _ : κ => ℕ} {r : List (ListNode κ α) × AList fun _ : κ => ℕ}
    (hr : evictBack full rev map = some r) : r.1 = rev.drop (rev.length - m) := by
  induction rev generalizing map with
  | nil =>
      unfold evictBack at hr
      split_ifs at hr
      cases hr
      exact List.drop_nil.symm
  | cons n rev ih =>
      unfold evictBack at hr
      split_ifs at hr with hn
      · have hlt := (hfull _).1 hn
        have hsucc : (n :: rev).length - m = rev.length - m + 1 := by
          rw [List.length_cons]
          omega
        rw [ih hr, hsucc, List.drop_succ_cons]
      · have hle : ¬m < rev.length + 1 := fun hlt => hn ((hfull _).2 hlt)
        have hzero : (n :: rev).length - m = 0 := by
          rw [List.length_cons]
          omega
        cases hr
        rw [hzero, List.drop_zero]

/-- An eviction leaves as many elements from the front as are not too many. -/
theorem evict_list {s s' : IndexedList κ α} {m : ℕ} (hfull : ∀ n, full n = true ↔ m < n)
    (hs : s.evict full = some s') : s'.list = s.list.take m := by
  obtain ⟨r, hr, rfl⟩ := Option.map_eq_some_iff.1 hs
  have hdrop := evictBack_eq_drop hfull hr
  rw [List.length_reverse] at hdrop
  show r.1.reverse = s.list.take m
  rw [hdrop, List.reverse_drop, List.reverse_reverse, List.length_reverse]
  rcases Nat.le_total m s.list.length with hle | hle
  · rw [Nat.sub_sub_self hle]
  · rw [Nat.sub_eq_zero_of_le hle, Nat.sub_zero, List.take_length, List.take_of_length_le hle]

theorem popBack_spec {s : IndexedList κ α} (h : Agree s) (hne : s.list ≠ []) :
    ∃ s', s.popBack = some s' ∧ Agree s' ∧ s'.list = s.list.take (s.list.length - 1) := by
  obtain ⟨l, n, hl⟩ : ∃ l n, s.list = l ++ [n] := ⟨_, _, (List.dropLast_append_getLast hne).symm⟩
  obtain ⟨list, map, fresh⟩ := s
  obtain rfl : list = l ++ [n] := hl
  exact ⟨⟨l, map.erase n.key, fresh⟩, by simp [popBack], h.popBack, by simp⟩

theorem Agree.find_of_sublist {s s' : IndexedList κ α} (h : Agree s) (h' : Agree s')
    (hsub : s'.list ⊆ s.list) {k : κ} {v : α} (hv : s'.find k = some v) : s.find k = some v := by
  obtain ⟨n, hn, hkey, hval⟩ := h'.find_eq_some.1 hv
  exact h.find_eq_some.2 ⟨n, hsub hn, hkey, hval⟩

/-- A key without an iterator does not get one from an eviction. -/
theorem Agree.lookup_of_sublist {s s' : IndexedList κ α} (h : Agree s) (h' : Agree s')
    (hsub : s'.list ⊆ s.list) {k : κ} (hk : s.map.lookup k = none) : s'.map.lookup k = none := by
  rw [← Option.not_isSome_iff_eq_none, h'.find_isSome_iff, Option.isSome_iff_exists]
  rintro ⟨v, hv⟩
  have hfind := h.find_of_sublist h' hsub hv
  rw [h.find_of_lookup_none hk] at hfind
  cases hfind

end Evict

end IndexedList
