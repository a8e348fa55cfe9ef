import Mathlib.Algebra.BigOperators.Ring.Finset
import Mathlib.Algebra.Order.BigOperators.Group.Finset
import Mathlib.Data.Nat.Count
import Mathlib.Tactic.Linarith
import Mathlib.Tactic.LinearCombination
import Mathlib.Tactic.Ring

/-!
# Smooth weighted round robin

Each member of a group has a weight `w i` and a current weight `c i`.  A pick adds to the current weights
of the members that take part their weights, chooses one of those whose current weight is largest then,
and takes the total from it (`Pick`).

If the members that take part change from pick to pick, the current weights still stay within bounds
that depend on the group alone (`Pick.bounded`, `Bounded.le`).  The invariant is about the sums over
all subsets of the group: the sum over `k` of `n` members never falls below `-k * (n - k)` totals.

If all take part in every pick (`Rotation`), then in each period every member is chosen as often as its
weight says (`Rotation.count_period`), and at no time more often than that by one or more
(`Rotation.count_mul_lt`).
-/

namespace SmoothRoundRobin

open Finset

variable {ι : Type*} [DecidableEq ι] {w c c' : ι → ℤ} {N H : Finset ι} {b : ι}

/-- A pick among `H` that chooses `b`. -/
structure Pick (w : ι → ℤ) (H : Finset ι) (b : ι) (c c' : ι → ℤ) : Prop where
  mem : b ∈ H
  max : ∀ j ∈ H, c j + w j ≤ c b + w b
  apply : ∀ i, c' i = c i + (if i ∈ H then w i else 0) - if i = b then ∑ j ∈ H, w j else 0

theorem Pick.sum (h : Pick w H b c c') (A : Finset ι) :
    ∑ i ∈ A, c' i = ∑ i ∈ A, c i + ∑ i ∈ A ∩ H, w i - if b ∈ A then ∑ j ∈ H, w j else 0 := by
  rw [sum_congr rfl fun i _ => h.apply i, sum_sub_distrib, sum_add_distrib, sum_ite_mem,
    sum_ite_eq' A b]

/-! ## Any members take part -/

/-- The current weights add up to zero, and the sum over `k` of them is not too small. -/
structure Bounded (w : ι → ℤ) (N : Finset ι) (c : ι → ℤ) : Prop where
  sum : ∑ i ∈ N, c i = 0
  low : ∀ A ⊆ N, -((#A : ℤ) * (#N - #A) * ∑ i ∈ N, w i) ≤ ∑ i ∈ A, c i

omit [DecidableEq ι] in
theorem bounded_zero (hw : ∀ i ∈ N, 0 ≤ w i) (hc : ∀ i ∈ N, c i = 0) : Bounded w N c where
  sum := sum_eq_zero hc
  low A hA := by
    rw [sum_eq_zero fun i hi => hc i (hA hi), neg_nonpos]
    have hcard : (#A : ℤ) ≤ #N := by exact_mod_cast card_le_card hA
    exact mul_nonneg (mul_nonneg (by positivity) (by omega)) (sum_nonneg hw)

/-- If `j` is not better than `b`, swapping is no loss: `j` joins `A`, and `b` leaves it. -/
theorem Bounded.two_mul_sum (h : Bounded w N c) {A : Finset ι} (hA : A ⊆ N) {j : ι} (hj : j ∈ N)
    (hjA : j ∉ A) (hb : b ∈ A) :
    -(2 * ((#A : ℤ) * (#N - #A) - 1) * ∑ i ∈ N, w i) ≤ 2 * ∑ i ∈ A, c i + c j - c b := by
  have herase := h.low (A.erase b) ((erase_subset b A).trans hA)
  have hinsert := h.low (insert j A) (insert_subset hj hA)
  have hpos : 0 < #A := card_pos.2 ⟨b, hb⟩
  have hcard : ((#A - 1 : ℕ) : ℤ) = #A - 1 := by omega
  rw [card_erase_of_mem hb, hcard, ← sub_eq_of_eq_add (sum_erase_add A c hb).symm] at herase
  rw [card_insert_of_notMem hjA, sum_insert hjA] at hinsert
  push_cast at hinsert
  linear_combination herase + hinsert

/-- A pick among any members of the group keeps the bounds. -/
theorem Pick.bounded (h : Pick w H b c c') (hH : H ⊆ N) (hw : ∀ i ∈ N, 0 ≤ w i)
    (hc : Bounded w N c) : Bounded w N c' := by
  constructor
  · rw [h.sum, hc.sum, inter_eq_right.2 hH, if_pos (hH h.mem)]
    ring
  · intro A hA
    rw [h.sum]
    have hlow := hc.low A hA
    by_cases hb : b ∈ A
    · rw [if_pos hb]
      have hsplit := sum_sdiff_eq_sub (f := w) (inter_subset_right : A ∩ H ⊆ H)
      rcases (H \ (A ∩ H)).eq_empty_or_nonempty with hempty | ⟨j, hj⟩
      · rw [hempty, sum_empty] at hsplit
        linarith
      · obtain ⟨hjH, hjA⟩ := mem_sdiff.1 hj
        have hjA : j ∉ A := fun hmem => hjA (mem_inter.2 ⟨hmem, hjH⟩)
        have htwo := hc.two_mul_sum hA (hH hjH) hjA hb
        have hmax := h.max j hjH
        -- the members outside `A` and `b` are different members of the group
        have htotal : w b + ∑ i ∈ H \ (A ∩ H), w i ≤ ∑ i ∈ N, w i := by
          have hnot : b ∉ H \ (A ∩ H) := fun hmem =>
            (mem_sdiff.1 hmem).2 (mem_inter.2 ⟨hb, h.mem⟩)
          rw [← sum_insert hnot]
          exact sum_le_sum_of_subset_of_nonneg
            (insert_subset (hH h.mem) (sdiff_subset.trans hH)) fun i hi _ => hw i hi
        have hwb := hw b (hH h.mem)
        have hwj := hw j (hH hjH)
        linarith
    · rw [if_neg hb, sub_zero]
      have hnonneg : 0 ≤ ∑ i ∈ A ∩ H, w i :=
        sum_nonneg fun i hi => hw i (hA (mem_inter.1 hi).1)
      linarith

omit [DecidableEq ι] in
theorem Bounded.neg_le (h : Bounded w N c) {i : ι} (hi : i ∈ N) :
    -(((#N : ℤ) - 1) * ∑ j ∈ N, w j) ≤ c i := by
  have hlow := h.low {i} (singleton_subset_iff.2 hi)
  rw [card_singleton, sum_singleton] at hlow
  linear_combination hlow

theorem Bounded.le (h : Bounded w N c) {i : ι} (hi : i ∈ N) :
    c i ≤ ((#N : ℤ) - 1) * ∑ j ∈ N, w j := by
  have hlow := h.low (N.erase i) (erase_subset i N)
  have hpos : 0 < #N := card_pos.2 ⟨i, hi⟩
  have hcard : ((#N - 1 : ℕ) : ℤ) = #N - 1 := by omega
  rw [card_erase_of_mem hi, hcard, ← sub_eq_of_eq_add (sum_erase_add N c hi).symm, h.sum] at hlow
  linear_combination hlow

/-- A new member comes with the current weight zero. -/
theorem Bounded.add_member {w' : ι → ℤ} (h : Bounded w N c) (hw : ∀ i ∈ N, 0 ≤ w i) {k : ι} (hk : k ∉ N)
    (hwk : 0 ≤ w' k) (hw' : ∀ i ∈ N, w' i = w i) (hck : c' k = 0) (hc' : ∀ i ∈ N, c' i = c i) :
    Bounded w' (insert k N) c' := by
  have hW : ∑ i ∈ N, w i ≤ ∑ i ∈ insert k N, w' i := by
    rw [sum_insert hk, sum_congr rfl hw']
    linarith
  have hW₀ : 0 ≤ ∑ i ∈ N, w i := sum_nonneg hw
  constructor
  · rw [sum_insert hk, hck, sum_congr rfl hc', h.sum, add_zero]
  · intro A hA
    have hsub : A.erase k ⊆ N := by
      rw [← erase_insert hk]
      exact erase_subset_erase k hA
    have hlow := h.low (A.erase k) hsub
    have hcard : (#(A.erase k) : ℤ) ≤ #N := by exact_mod_cast card_le_card hsub
    rw [card_insert_of_notMem hk]
    push_cast
    have hsum : ∑ i ∈ A, c' i = ∑ i ∈ A.erase k, c i := by
      rw [← sum_congr rfl fun i hi => hc' i (hsub hi)]
      exact (sum_erase A hck).symm
    rw [hsum]
    refine le_trans (neg_le_neg ?_) hlow
    by_cases hkA : k ∈ A
    · have hpos : 0 < #A := card_pos.2 ⟨k, hkA⟩
      have hcard' : ((#A - 1 : ℕ) : ℤ) = #A - 1 := by omega
      rw [card_erase_of_mem hkA, hcard'] at hcard ⊢
      have hle : ((#A : ℤ) - 1) * (#N - (#A - 1)) ≤ #A * (#N + 1 - #A) := by nlinarith
      exact mul_le_mul hle hW hW₀ (mul_nonneg (by positivity) (by omega))
    · rw [erase_eq_of_notMem hkA] at hcard ⊢
      have hle : (#A : ℤ) * (#N - #A) ≤ #A * (#N + 1 - #A) := by nlinarith
      exact mul_le_mul hle hW hW₀ (mul_nonneg (by positivity) (by omega))

/-! ## All members take part -/

/-- The picks of a group all of whose members take part, from the start on. -/
structure Rotation (w : ι → ℤ) (N : Finset ι) (b : ℕ → ι) (c : ℕ → ι → ℤ) : Prop where
  weights : ∀ i ∈ N, 0 ≤ w i
  total : 0 < ∑ i ∈ N, w i
  start : ∀ i ∈ N, c 0 i = 0
  pick : ∀ t, Pick w N (b t) (c t) (c (t + 1))

namespace Rotation

variable {b : ℕ → ι} {c : ℕ → ι → ℤ}

theorem sum_eq_zero (h : Rotation w N b c) (t : ℕ) : ∑ i ∈ N, c t i = 0 := by
  induction t with
  | zero => exact Finset.sum_eq_zero h.start
  | succ t ih =>
      rw [(h.pick t).sum, ih, inter_self, if_pos (h.pick t).mem]
      ring

/-- The one that is chosen has a positive current weight, so that taking the total leaves more than minus
the total. -/
theorem neg_total_lt (h : Rotation w N b c) (t : ℕ) {i : ι} (hi : i ∈ N) :
    -∑ j ∈ N, w j < c t i := by
  induction t with
  | zero =>
      rw [h.start i hi]
      linarith [h.total]
  | succ t ih =>
      rw [(h.pick t).apply, if_pos hi]
      by_cases hb : i = b t
      · have hpos : 0 < ∑ j ∈ N, (c t j + w j) := by
          rw [sum_add_distrib, h.sum_eq_zero t, zero_add]
          exact h.total
        obtain ⟨j, hj, hlt⟩ := exists_lt_of_sum_lt (f := fun _ => (0 : ℤ)) (by simpa using hpos)
        have hmax := (h.pick t).max j hj
        rw [if_pos hb, hb]
        linarith
      · rw [if_neg hb, sub_zero]
        linarith [h.weights i hi]

theorem current_eq (h : Rotation w N b c) (t : ℕ) {i : ι} (hi : i ∈ N) :
    c t i = t * w i - (∑ j ∈ N, w j) * Nat.count (fun t => b t = i) t := by
  induction t with
  | zero => simp [h.start i hi]
  | succ t ih =>
      rw [(h.pick t).apply, if_pos hi, ih, Nat.count_succ]
      by_cases hb : b t = i
      · rw [if_pos hb.symm, if_pos hb]
        push_cast
        ring
      · rw [if_neg (Ne.symm hb), if_neg hb]
        push_cast
        ring

theorem count_mul_lt (h : Rotation w N b c) (t : ℕ) {i : ι} (hi : i ∈ N) :
    (Nat.count (fun t => b t = i) t : ℤ) * ∑ j ∈ N, w j < t * w i + ∑ j ∈ N, w j := by
  have hlt := h.neg_total_lt t hi
  rw [h.current_eq t hi] at hlt
  linear_combination hlt

theorem sum_count (h : Rotation w N b c) (t : ℕ) : ∑ i ∈ N, Nat.count (fun t => b t = i) t = t := by
  induction t with
  | zero => simp
  | succ t ih =>
      simp only [Nat.count_succ]
      rw [sum_add_distrib, ih, sum_ite_eq N (b t), if_pos (h.pick t).mem]

/-- In a period every member is chosen as often as its weight says. -/
theorem count_period (h : Rotation w N b c) {W : ℕ} (hW : (W : ℤ) = ∑ j ∈ N, w j) {i : ι} (hi : i ∈ N) :
    (Nat.count (fun t => b t = i) W : ℤ) = w i := by
  have hle : ∀ j ∈ N, (Nat.count (fun t => b t = j) W : ℤ) ≤ w j := by
    intro j hj
    have hlt := h.count_mul_lt W hj
    rw [← hW] at hlt
    have hpos : (0 : ℤ) < W := hW ▸ h.total
    have hlt : (Nat.count (fun t => b t = j) W : ℤ) < w j + 1 := by nlinarith
    omega
  have hsum : ∑ j ∈ N, (Nat.count (fun t => b t = j) W : ℤ) = ∑ j ∈ N, w j := by
    rw [← hW, ← Nat.cast_sum, h.sum_count]
  exact (sum_eq_sum_iff_of_le hle).1 hsum i hi

theorem current_period (h : Rotation w N b c) {W : ℕ} (hW : (W : ℤ) = ∑ j ∈ N, w j) {i : ι}
    (hi : i ∈ N) : c W i = 0 := by
  rw [h.current_eq W hi, h.count_period hW hi, ← hW, sub_self]

end Rotation

end SmoothRoundRobin
