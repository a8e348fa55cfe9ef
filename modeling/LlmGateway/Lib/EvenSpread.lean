import Mathlib.Data.Finset.Card
import Mathlib.Data.Nat.ModEq

/-!
# Sequences that are spread evenly over a set

The elements of a list come from a set of `n`.  The list is spread evenly if every element of the set occurs
in it as often as the length divided by `n`, rounded down or up.  All prefixes of a list are spread evenly
exactly if in each of its rounds, the blocks of `n` positions from the start, no element occurs twice
(`evenSpread_prefixes_iff`).
-/

namespace Spread

variable {α : Type*} [DecidableEq α] {s : Finset α}

/-- Every element of the set occurs as often as the others, up to one. -/
def EvenSpread (s : Finset α) (xs : List α) : Prop :=
  ∀ a ∈ s, xs.count a = xs.length / s.card ∨ xs.count a = (xs.length + s.card - 1) / s.card

/-- No element occurs twice in a round. -/
def DistinctInRounds (n : ℕ) (xs : List α) : Prop :=
  ∀ i j a, i < j → i / n = j / n → xs[i]? = some a → xs[j]? ≠ some a

omit [DecidableEq α] in
theorem distinctInRounds_map {β : Type*} {f : α → β} {n : ℕ} {xs : List α} :
    DistinctInRounds n (xs.map f) ↔
      ∀ i j x y, i < j → i / n = j / n → xs[i]? = some x → xs[j]? = some y → f x ≠ f y := by
  simp only [DistinctInRounds, List.getElem?_map]
  constructor
  · intro h i j x y hij hround hi hj heq
    refine h i j (f x) hij hround ?_ ?_
    · rw [hi, Option.map_some]
    · rw [hj, Option.map_some, heq]
  · intro h i j b hij hround hi hj
    obtain ⟨x, hx, rfl⟩ := Option.map_eq_some_iff.1 hi
    obtain ⟨y, hy, heq⟩ := Option.map_eq_some_iff.1 hj
    exact h i j x y hij hround hx hy heq.symm

omit [DecidableEq α] in
/-- What is distinct depends only on which elements the map keeps apart. -/
theorem distinctInRounds_map_congr {β γ : Type*} {f : α → β} {g : α → γ}
    (h : ∀ x y, f x = f y ↔ g x = g y) {n : ℕ} {xs : List α} :
    DistinctInRounds n (xs.map f) ↔ DistinctInRounds n (xs.map g) := by
  simp only [distinctInRounds_map, ne_eq, h]

/-- Steps by one, modulo the length of the rounds. -/
theorem distinctInRounds_rotation (a m n : ℕ) :
    DistinctInRounds n ((List.range m).map fun k => (a + k) % n) := by
  rw [distinctInRounds_map]
  intro i j x y hij hround hi hj heq
  obtain ⟨hx, rfl⟩ := List.getElem?_eq_some_iff.1 hi
  obtain ⟨hy, rfl⟩ := List.getElem?_eq_some_iff.1 hj
  rw [List.getElem_range, List.getElem_range] at heq
  have hmod : i % n = j % n := Nat.ModEq.add_left_cancel' a heq
  have hi := Nat.div_add_mod i n
  have hj := Nat.div_add_mod j n
  rw [hround, hmod] at hi
  omega

/-- The elements of the round that is not complete. -/
def lastRound (n : ℕ) (xs : List α) : List α := xs.drop (n * (xs.length / n))

omit [DecidableEq α] in
theorem length_lastRound (n : ℕ) (xs : List α) : (lastRound n xs).length = xs.length % n := by
  have := Nat.div_add_mod xs.length n
  rw [lastRound, List.length_drop]
  omega

omit [DecidableEq α] in
theorem mem_lastRound {n : ℕ} {xs : List α} {a : α} :
    a ∈ lastRound n xs ↔ ∃ i, n * (xs.length / n) ≤ i ∧ xs[i]? = some a := by
  unfold lastRound
  rw [List.mem_iff_getElem?]
  constructor
  · rintro ⟨i, hi⟩
    rw [List.getElem?_drop] at hi
    exact ⟨_, Nat.le_add_right _ i, hi⟩
  · rintro ⟨i, hle, hi⟩
    refine ⟨i - n * (xs.length / n), ?_⟩
    rw [List.getElem?_drop, Nat.add_sub_cancel' hle, hi]

omit [DecidableEq α] in
theorem distinctInRounds_concat {n : ℕ} (hn : 0 < n) {xs : List α} {a : α} :
    DistinctInRounds n (xs ++ [a]) ↔ DistinctInRounds n xs ∧ a ∉ lastRound n xs := by
  have hlast : (xs ++ [a])[xs.length]? = some a := List.getElem?_concat_length
  constructor
  · refine fun h => ⟨fun i j b hij hround hi hj => ?_, fun hmem => ?_⟩
    · have hlt : j < xs.length := (List.getElem?_eq_some_iff.1 hj).1
      refine h i j b hij hround ?_ ?_
      · rw [List.getElem?_append_left (hij.trans hlt), hi]
      · rw [List.getElem?_append_left hlt, hj]
    · obtain ⟨i, hle, hi⟩ := mem_lastRound.1 hmem
      have hlt : i < xs.length := (List.getElem?_eq_some_iff.1 hi).1
      refine h i xs.length a hlt ?_ ?_ hlast
      · refine le_antisymm (Nat.div_le_div_right hlt.le) ?_
        rw [Nat.le_div_iff_mul_le hn, Nat.mul_comm]
        exact hle
      · rw [List.getElem?_append_left hlt, hi]
  · rintro ⟨h, hnot⟩ i j b hij hround hi hj
    have hlt : j < (xs ++ [a]).length := (List.getElem?_eq_some_iff.1 hj).1
    rw [List.length_append, List.length_singleton] at hlt
    rcases Nat.lt_succ_iff_lt_or_eq.1 hlt with hlt | rfl
    · rw [List.getElem?_append_left (hij.trans hlt)] at hi
      rw [List.getElem?_append_left hlt] at hj
      exact h i j b hij hround hi hj
    · obtain rfl : a = b := Option.some.inj (hlast.symm.trans hj)
      rw [List.getElem?_append_left hij] at hi
      refine hnot (mem_lastRound.2 ⟨i, ?_, hi⟩)
      rw [← hround]
      exact Nat.mul_div_le i n

section Concat

variable {n : ℕ} {xs : List α} {x : α}

omit [DecidableEq α]

theorem length_concat_div (n : ℕ) (hn : 0 < n) (xs : List α) (x : α) :
    (xs ++ [x]).length / n = (xs.length % n + 1) / n + xs.length / n := by
  have hmod := Nat.div_add_mod xs.length n
  rw [← Nat.add_mul_div_left _ _ hn, List.length_append, List.length_singleton]
  congr 1
  omega

/-- An element that does not complete the round. -/
theorem length_div_of_lt (h : xs.length % n + 1 < n) : (xs ++ [x]).length / n = xs.length / n := by
  rw [length_concat_div n (by omega), Nat.div_eq_of_lt h, Nat.zero_add]

/-- An element that completes the round. -/
theorem length_div_of_eq (h : xs.length % n + 1 = n) : (xs ++ [x]).length / n = xs.length / n + 1 := by
  rw [length_concat_div n (by omega), h, Nat.div_self (by omega), Nat.add_comm]

theorem lastRound_of_lt (h : xs.length % n + 1 < n) :
    lastRound n (xs ++ [x]) = lastRound n xs ++ [x] := by
  unfold lastRound
  rw [length_div_of_lt h, List.drop_append_of_le_length (Nat.mul_div_le _ _)]

theorem lastRound_of_eq (h : xs.length % n + 1 = n) : lastRound n (xs ++ [x]) = [] := by
  have hmod := Nat.div_add_mod xs.length n
  unfold lastRound
  rw [length_div_of_eq h, Nat.mul_add, List.drop_eq_nil_iff, List.length_append, List.length_singleton]
  omega

end Concat

/-- The complete rounds have every element once, and the last one has none twice. -/
theorem count_of_distinctInRounds {xs : List α} (hxs : ∀ x ∈ xs, x ∈ s)
    (h : DistinctInRounds s.card xs) (hs : 0 < s.card) :
    (lastRound s.card xs).Nodup ∧
      ∀ a ∈ s, xs.count a = xs.length / s.card + (lastRound s.card xs).count a := by
  induction xs using List.reverseRecOn with
  | nil => simp [lastRound]
  | append_singleton xs x ih =>
    obtain ⟨hdistinct, hnot⟩ := (distinctInRounds_concat hs).1 h
    obtain ⟨hnodup, hcount⟩ := ih (fun y hy => hxs y (List.mem_append_left _ hy)) hdistinct
    have hround : (lastRound s.card xs ++ [x]).Nodup := by
      rw [← List.concat_eq_append, List.nodup_concat]
      exact ⟨hnot, hnodup⟩
    have hsum (a : α) (ha : a ∈ s) :
        (xs ++ [x]).count a = xs.length / s.card + (lastRound s.card xs ++ [x]).count a := by
      rw [List.count_append, List.count_append, hcount a ha, Nat.add_assoc]
    have hlt : xs.length % s.card < s.card := Nat.mod_lt _ hs
    rcases Nat.lt_or_eq_of_le (Nat.succ_le_of_lt hlt) with hlt | hfull
    · rw [lastRound_of_lt hlt, length_div_of_lt hlt]
      exact ⟨hround, hsum⟩
    · rw [lastRound_of_eq hfull, length_div_of_eq hfull]
      refine ⟨List.nodup_nil, fun a ha => ?_⟩
      -- the round is complete, so it has every element of the set
      have hsub : (lastRound s.card xs ++ [x]).toFinset ⊆ s := by
        intro y hy
        rcases List.mem_append.1 (List.mem_toFinset.1 hy) with hy | hy
        · exact hxs y (List.mem_append_left _ (List.mem_of_mem_drop hy))
        · exact hxs y (List.mem_append_right _ hy)
      have heq : (lastRound s.card xs ++ [x]).toFinset = s := by
        refine Finset.eq_of_subset_of_card_le hsub ?_
        rw [List.toFinset_card_of_nodup hround, List.length_append, length_lastRound]
        exact hfull.ge
      have hmem : a ∈ lastRound s.card xs ++ [x] := by
        rw [← List.mem_toFinset, heq]
        exact ha
      rw [hsum a ha, List.count_eq_one_of_mem hround hmem, List.count_nil]

theorem evenSpread_of_distinctInRounds {xs : List α} (hxs : ∀ x ∈ xs, x ∈ s)
    (h : DistinctInRounds s.card xs) : EvenSpread s xs := by
  intro a ha
  have hs : 0 < s.card := Finset.card_pos.2 ⟨a, ha⟩
  obtain ⟨hnodup, hcount⟩ := count_of_distinctInRounds hxs h hs
  rw [hcount a ha]
  by_cases hmem : a ∈ lastRound s.card xs
  · right
    have hpos : 0 < xs.length % s.card := by
      rw [← length_lastRound]
      exact List.length_pos_of_mem hmem
    have hmod := Nat.div_add_mod xs.length s.card
    have hlt := Nat.mod_lt xs.length hs
    rw [List.count_eq_one_of_mem hnodup hmem]
    refine ((Nat.div_eq_iff hs).2 ?_).symm
    rw [Nat.add_mul, Nat.mul_comm]
    omega
  · left
    rw [List.count_eq_zero.2 hmem, Nat.add_zero]

theorem distinctInRounds_of_evenSpread {xs : List α} (hxs : ∀ x ∈ xs, x ∈ s)
    (h : ∀ ys, ys <+: xs → EvenSpread s ys) (hs : 0 < s.card) : DistinctInRounds s.card xs := by
  induction xs using List.reverseRecOn with
  | nil =>
    intro i j a _ _ hi
    cases hi
  | append_singleton xs x ih =>
    have hxs' : ∀ y ∈ xs, y ∈ s := fun y hy => hxs y (List.mem_append_left _ hy)
    have hdistinct := ih hxs' fun ys hys => h ys (hys.trans (List.prefix_append _ _))
    refine (distinctInRounds_concat hs).2 ⟨hdistinct, fun hmem => ?_⟩
    obtain ⟨hnodup, hcount⟩ := count_of_distinctInRounds hxs' hdistinct hs
    have hx : x ∈ s := hxs x (List.mem_append_right _ List.mem_cons_self)
    have htwice : (xs ++ [x]).count x = xs.length / s.card + 2 := by
      rw [List.count_append, hcount x hx, List.count_eq_one_of_mem hnodup hmem, List.count_singleton_self]
    have hmod := Nat.div_add_mod xs.length s.card
    have hlt := Nat.mod_lt xs.length hs
    have hle : ((xs ++ [x]).length + s.card - 1) / s.card ≤ xs.length / s.card + 1 := by
      refine Nat.lt_succ_iff.1 ((Nat.div_lt_iff_lt_mul hs).2 ?_)
      rw [List.length_append, List.length_singleton, Nat.succ_mul, Nat.add_mul, Nat.mul_comm]
      omega
    have hfloor : (xs ++ [x]).length / s.card ≤ ((xs ++ [x]).length + s.card - 1) / s.card :=
      Nat.div_le_div_right (by omega)
    rcases h _ List.prefix_rfl x hx with heven | heven <;> omega

/-- The list is spread evenly all along exactly if its rounds have no element twice. -/
theorem evenSpread_prefixes_iff {xs : List α} (hxs : ∀ x ∈ xs, x ∈ s) (hs : 0 < s.card) :
    (∀ ys, ys <+: xs → EvenSpread s ys) ↔ DistinctInRounds s.card xs := by
  refine ⟨fun h => distinctInRounds_of_evenSpread hxs h hs, fun h ys hys => ?_⟩
  refine evenSpread_of_distinctInRounds (fun x hx => hxs x (hys.subset hx)) ?_
  intro i j a hij hround hi hj
  obtain ⟨zs, rfl⟩ := hys
  have hlt : j < ys.length := (List.getElem?_eq_some_iff.1 hj).1
  refine h i j a hij hround ?_ ?_
  · rw [List.getElem?_append_left (hij.trans hlt), hi]
  · rw [List.getElem?_append_left hlt, hj]

end Spread
