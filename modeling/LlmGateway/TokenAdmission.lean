import LlmGateway.AuthManager

/-!
# Whom a token bucket lets pass

The bucket of a key holds one number, which is brought up to date and clipped when somebody asks
(`TokenBucket.consume`), also if he is turned away.  It decides as if all windows that end now were looked
at: who asks passes exactly if the bound `C + r * d` holds for each of them with him as well
(`consume_iff_windows`).
-/

namespace LlmGateway

open TokenBucket

section Bucket

variable {K : Type*} [Field K] [LinearOrder K] [IsStrictOrderedRing K] {C r created : K}

/-- How many pass from a time on. -/
def passedSince (C r created s : K) (times : List K) : ℕ :=
  ((TokenBucket.new C r created).served times).countP (s ≤ ·)

/-- How many pass in a window. -/
def passedIn (C r created start stop : K) (times : List K) : ℕ :=
  ((TokenBucket.new C r created).served times).countP fun now => start ≤ now ∧ now ≤ stop

/-- The call at `t` passes, after calls at the given times. -/
def admits (C r created : K) (times : List K) (t : K) : Bool :=
  (((TokenBucket.new C r created).serve times).consume 1 t).1

theorem admits_iff (hr : 0 ≤ r) {times : List K} (htimes : (created :: times).Pairwise (· ≤ ·)) {t : K}
    (ht : ∀ now ∈ created :: times, now ≤ t) :
    admits C r created times t = true ↔ ∀ s, created ≤ s → s ≤ t →
      (passedSince C r created s times : K) ≤ C + r * (t - s) - 1 := by
  rw [admits, fst_consume_one, le_level_serve hr htimes ht]
  simp only [passedSince, le_sub_iff_add_le]

/-- There is never less than no token. -/
theorem level_nonneg (hC : 0 ≤ C) (hr : 0 ≤ r) {times : List K}
    (htimes : (created :: times).Pairwise (· ≤ ·)) {t : K} (ht : ∀ now ∈ created :: times, now ≤ t) :
    0 ≤ ((TokenBucket.new C r created).serve times).level t := by
  induction times using List.reverseRecOn generalizing t with
  | nil =>
    have hgain : 0 ≤ (t - created) * r := mul_nonneg (sub_nonneg.2 (ht created List.mem_cons_self)) hr
    exact le_min hC (add_nonneg hC hgain)
  | append_singleton times now ih =>
    rw [← List.cons_append] at htimes ht
    obtain ⟨htimes, -, hbefore⟩ := List.pairwise_append.1 htimes
    have hnow := ih htimes fun t' ht' => hbefore t' ht' now (List.mem_singleton_self now)
    have hgain : 0 ≤ (t - now) * (TokenBucket.new C r created).rate :=
      mul_nonneg (sub_nonneg.2 (ht now (List.mem_append_right _ (List.mem_singleton_self now)))) hr
    rw [serve_concat, le_level_consume, capacity_serve, rate_serve]
    refine ⟨hC, ?_⟩
    split_ifs with hpass
    · have hone := (fst_consume_one now _).1 hpass
      linarith
    · linarith

/-- From a time on no more pass than the capacity, and what comes in meanwhile. -/
theorem passedSince_le (hC : 0 ≤ C) (hr : 0 ≤ r) {times : List K}
    (htimes : (created :: times).Pairwise (· ≤ ·)) {t : K} (ht : ∀ now ∈ created :: times, now ≤ t)
    {s : K} (hs : s ≤ t) : (passedSince C r created s times : K) ≤ C + r * (t - s) := by
  have hall := (le_level_serve hr htimes ht 0).1 (level_nonneg hC hr htimes ht)
  simp only [add_zero] at hall
  rcases le_total created s with hle | hle
  · exact hall s hle hs
  · have hcount : passedSince C r created s times ≤ passedSince C r created created times := by
      refine List.countP_mono_left fun now hnow _ => decide_eq_true ?_
      exact (List.pairwise_cons.1 htimes).1 now (served_subset _ _ hnow)
    have hcreated := hall created le_rfl (ht created List.mem_cons_self)
    have hlonger : r * (t - created) ≤ r * (t - s) := mul_le_mul_of_nonneg_left (by linarith) hr
    have hcount : (passedSince C r created s times : K) ≤ passedSince C r created created times := by
      exact_mod_cast hcount
    exact (hcount.trans hcreated).trans (by linarith)

theorem passedIn_le (hC : 0 ≤ C) (hr : 0 ≤ r) {times : List K}
    (htimes : (created :: times).Pairwise (· ≤ ·)) (start : K) {d : K} (hd : 0 ≤ d) :
    (passedIn C r created start (start + d) times : K) ≤ C + r * d := by
  induction times using List.reverseRecOn with
  | nil =>
    have hgain : 0 ≤ r * d := mul_nonneg hr hd
    change ((0 : ℕ) : K) ≤ C + r * d
    rw [Nat.cast_zero]
    linarith
  | append_singleton times now ih =>
    have htimes' := htimes
    rw [← List.cons_append] at htimes'
    obtain ⟨hsorted, -, hbefore⟩ := List.pairwise_append.1 htimes'
    have hlast : ∀ t' ∈ created :: (times ++ [now]), t' ≤ now := by
      intro t' ht'
      rw [← List.cons_append] at ht'
      rcases List.mem_append.1 ht' with ht' | ht'
      · exact hbefore t' ht' now (List.mem_singleton_self now)
      · exact (List.mem_singleton.1 ht').le
    by_cases hin : start ≤ now ∧ now ≤ start + d
    · -- all that pass until now and not before the window pass in it
      have hcount : passedIn C r created start (start + d) (times ++ [now]) ≤
          passedSince C r created start (times ++ [now]) := by
        refine List.countP_mono_left fun t' _ ht' => decide_eq_true ?_
        exact (of_decide_eq_true ht').1
      have hsince := passedSince_le hC hr htimes hlast hin.1
      have hshorter : r * (now - start) ≤ r * d := mul_le_mul_of_nonneg_left (by linarith) hr
      have hcount : (passedIn C r created start (start + d) (times ++ [now]) : K) ≤
          passedSince C r created start (times ++ [now]) := by
        exact_mod_cast hcount
      exact (hcount.trans hsince).trans (by linarith)
    · have hsame : passedIn C r created start (start + d) (times ++ [now]) =
          passedIn C r created start (start + d) times := by
        rw [passedIn, served_concat, List.countP_append, ← passedIn]
        split_ifs
        · rw [List.countP_singleton, decide_eq_false hin, if_neg Bool.false_ne_true, add_zero]
        · rw [List.countP_nil, add_zero]
      rw [hsame]
      exact ih hsorted

/-- A call passes exactly if the bound `C + r * d` holds for every window that ends with it and holds it.
So no window has more than the bound allows, and who is turned away is one too many for some window. -/
theorem consume_iff_windows (hC : 0 ≤ C) (hr : 0 ≤ r) {times : List K}
    (htimes : (created :: times).Pairwise (· ≤ ·)) :
    (∀ t, (∀ now ∈ created :: times, now ≤ t) →
      (admits C r created times t = true ↔ ∀ s, created ≤ s → s ≤ t →
        (passedSince C r created s times : K) ≤ C + r * (t - s) - 1)) ∧
    (∀ start d, 0 ≤ d → (passedIn C r created start (start + d) times : K) ≤ C + r * d) ∧
    (∀ t, (∀ now ∈ created :: times, now ≤ t) → admits C r created times t = false →
      ∃ s, created ≤ s ∧ s ≤ t ∧ C + r * (t - s) < passedSince C r created s times + 1) := by
  refine ⟨fun t ht => admits_iff hr htimes ht, fun start d hd => passedIn_le hC hr htimes start hd,
    fun t ht hrefused => ?_⟩
  by_contra hnone
  have hadmitted : admits C r created times t = true := by
    refine (admits_iff hr htimes ht).2 fun s hs hst => ?_
    by_contra hlt
    exact hnone ⟨s, hs, hst, by linarith⟩
  rw [hrefused] at hadmitted
  exact Bool.false_ne_true hadmitted

end Bucket

/-- A bucket of two that gains one in a second: of three who ask at once two pass, and the third is one too
many for the window of length zero. -/
theorem consume_windows_burst :
    admits 2 1 0 [0] (0 : ℚ) = true ∧ admits 2 1 0 [0, 0] (0 : ℚ) = false ∧
      ∃ s : ℚ, 0 ≤ s ∧ s ≤ 0 ∧ 2 + 1 * (0 - s) < passedSince 2 1 0 s [0, 0] + 1 := by
  have hrefused : admits 2 1 0 [0, 0] (0 : ℚ) = false := by decide +kernel
  have hsorted : ([0, 0, 0] : List ℚ).Pairwise (· ≤ ·) := by decide
  refine ⟨by decide +kernel, hrefused, ?_⟩
  exact (consume_iff_windows (by norm_num) (by norm_num) hsorted).2.2 0 (by simp) hrefused

end LlmGateway
