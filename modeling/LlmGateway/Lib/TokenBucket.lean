import Mathlib.Algebra.Order.Field.Basic
import Mathlib.Data.List.Induction
import Mathlib.Tactic.Linarith

/-!
# Token buckets

A bucket holds at most `capacity` tokens and gains `rate` of them in a unit of time.  Who wants to pass takes
one out; the bucket is only brought up to date when somebody asks (`consume`).

In a window of time of length `d` a bucket lets at most `capacity + rate * d` pass (`grants_le_window`),
and a full one lets as many pass at once as it holds (`grants_replicate`).

What a new bucket holds is what the tightest window leaves: there are `x` tokens in it exactly if in every
window that ends now `x` more could pass (`le_level_serve`).
-/

/-- A bucket that fills at a rate up to its capacity. -/
structure TokenBucket (K : Type*) where
  capacity : K
  rate : K
  tokens : K
  last : K

namespace TokenBucket

variable {K : Type*} [Field K] [LinearOrder K]

/-- A full bucket. -/
def new (capacity rate now : K) : TokenBucket K where
  capacity := capacity
  rate := rate
  tokens := capacity
  last := now

/-- Fill up for the time that has passed, and take the cost if it is there. -/
def consume (cost now : K) (b : TokenBucket K) : Bool × TokenBucket K :=
  let elapsed := now - b.last
  let tokens := min b.capacity (b.tokens + elapsed * b.rate)
  if tokens < cost then (false, { b with tokens, last := now })
  else (true, { b with tokens := tokens - cost, last := now })

/-- How many of those pass who ask at the given times. -/
def grants : List K → TokenBucket K → ℕ
  | [], _ => 0
  | now :: times, b =>
    (if (b.consume 1 now).1 then 1 else 0) + grants times (b.consume 1 now).2

/-- What there is in the bucket once it is brought up to date. -/
def level (now : K) (b : TokenBucket K) : K := min b.capacity (b.tokens + (now - b.last) * b.rate)

/-- The bucket after somebody asked at each of the given times. -/
def serve (times : List K) (b : TokenBucket K) : TokenBucket K :=
  times.foldl (fun b now => (b.consume 1 now).2) b

/-- The times of those who pass. -/
def served : List K → TokenBucket K → List K
  | [], _ => []
  | now :: times, b =>
    if (b.consume 1 now).1 then now :: served times (b.consume 1 now).2
    else served times (b.consume 1 now).2

@[simp]
theorem capacity_consume (cost now : K) (b : TokenBucket K) :
    (b.consume cost now).2.capacity = b.capacity := by
  unfold consume
  dsimp only
  split_ifs
  · rfl
  · rfl

@[simp]
theorem rate_consume (cost now : K) (b : TokenBucket K) : (b.consume cost now).2.rate = b.rate := by
  unfold consume
  dsimp only
  split_ifs
  · rfl
  · rfl

@[simp]
theorem last_consume (cost now : K) (b : TokenBucket K) : (b.consume cost now).2.last = now := by
  unfold consume
  dsimp only
  split_ifs
  · rfl
  · rfl

/-- A token that passes is taken out of the bucket. -/
theorem tokens_consume (cost now : K) (b : TokenBucket K) : (b.consume cost now).2.tokens =
    min b.capacity (b.tokens + (now - b.last) * b.rate) -
      if (b.consume cost now).1 then cost else 0 := by
  unfold consume
  by_cases h : min b.capacity (b.tokens + (now - b.last) * b.rate) < cost
  · simp [h]
  · simp [h]

theorem fst_consume (cost now : K) (b : TokenBucket K) :
    (b.consume cost now).1 = true ↔ cost ≤ min b.capacity (b.tokens + (now - b.last) * b.rate) := by
  unfold consume
  dsimp only
  split_ifs with h
  · exact iff_of_false (by simp) (not_le.2 h)
  · exact iff_of_true rfl (not_lt.1 h)

theorem grants_of_capacity_lt {b : TokenBucket K} (h : b.capacity < 1) (times : List K) :
    b.grants times = 0 := by
  induction times generalizing b with
  | nil => rfl
  | cons now times ih =>
      have hfalse : ¬(b.consume 1 now).1 = true := fun hpass =>
        absurd ((fst_consume 1 now b).1 hpass) (not_le.2 (min_lt_of_left_lt h))
      rw [grants, if_neg hfalse, ih (by rwa [capacity_consume])]

section Window

variable [IsStrictOrderedRing K] {b : TokenBucket K}

theorem tokens_consume_nonneg (hcapacity : 0 ≤ b.capacity) (hrate : 0 ≤ b.rate) (htokens : 0 ≤ b.tokens)
    {now : K} (hnow : b.last ≤ now) : 0 ≤ (b.consume 1 now).2.tokens := by
  rw [tokens_consume]
  split_ifs with hpass
  · exact sub_nonneg.2 ((fst_consume 1 now b).1 hpass)
  · rw [sub_zero]
    exact le_min hcapacity (add_nonneg htokens (mul_nonneg (sub_nonneg.2 hnow) hrate))

/-- No more pass than there are tokens now and come in until then. -/
theorem grants_le {times : List K} {stop : K} (hcapacity : 0 ≤ b.capacity) (hrate : 0 ≤ b.rate)
    (htokens : 0 ≤ b.tokens) (hsorted : (b.last :: times).Pairwise (· ≤ ·)) (hlast : b.last ≤ stop)
    (hstop : ∀ now ∈ times, now ≤ stop) :
    (b.grants times : K) ≤ b.tokens + (stop - b.last) * b.rate := by
  induction times generalizing b with
  | nil =>
      rw [grants, Nat.cast_zero]
      exact add_nonneg htokens (mul_nonneg (sub_nonneg.2 hlast) hrate)
  | cons now times ih =>
      obtain ⟨hnow, hsorted⟩ := List.pairwise_cons.1 hsorted
      have hnow := hnow now List.mem_cons_self
      have hrest := ih (b := (b.consume 1 now).2) (by rwa [capacity_consume]) (by rwa [rate_consume])
        (tokens_consume_nonneg hcapacity hrate htokens hnow) (by rwa [last_consume])
        (by rw [last_consume]; exact hstop now List.mem_cons_self)
        (fun t ht => hstop t (List.mem_cons_of_mem now ht))
      rw [tokens_consume, rate_consume, last_consume] at hrest
      have hmin := min_le_right b.capacity (b.tokens + (now - b.last) * b.rate)
      rw [grants]
      push_cast
      linarith

/-- In a window of length `d` at most the capacity, and what comes in meanwhile. -/
theorem grants_le_window {times : List K} {start d : K} (hcapacity : 0 ≤ b.capacity) (hrate : 0 ≤ b.rate)
    (htokens : 0 ≤ b.tokens) (hsorted : (b.last :: times).Pairwise (· ≤ ·)) (hd : 0 ≤ d)
    (hwindow : ∀ now ∈ times, start ≤ now ∧ now ≤ start + d) :
    (b.grants times : K) ≤ b.capacity + b.rate * d := by
  cases times with
  | nil =>
    rw [grants, Nat.cast_zero]
    exact add_nonneg hcapacity (mul_nonneg hrate hd)
  | cons now times =>
    obtain ⟨hnow, hsorted⟩ := List.pairwise_cons.1 hsorted
    have hnow := hnow now List.mem_cons_self
    have hstart := hwindow now List.mem_cons_self
    have hrest : ((b.consume 1 now).2.grants times : K) ≤ (b.consume 1 now).2.tokens +
        (start + d - (b.consume 1 now).2.last) * (b.consume 1 now).2.rate :=
      grants_le (by rwa [capacity_consume]) (by rwa [rate_consume])
        (tokens_consume_nonneg hcapacity hrate htokens hnow) (by rwa [last_consume])
        (by rw [last_consume]; exact hstart.2) (fun t ht => (hwindow t (List.mem_cons_of_mem now ht)).2)
    rw [tokens_consume, rate_consume, last_consume] at hrest
    have hmin := min_le_left b.capacity (b.tokens + (now - b.last) * b.rate)
    have hlate : (start + d - now) * b.rate ≤ d * b.rate := by
      exact mul_le_mul_of_nonneg_right (by linarith) hrate
    rw [grants]
    push_cast
    linarith

/-- As many pass at once as there are tokens at that time. -/
theorem grants_replicate {now : K} {n : ℕ}
    (hn : (n : K) ≤ min b.capacity (b.tokens + (now - b.last) * b.rate)) :
    b.grants (List.replicate n now) = n := by
  induction n generalizing b with
  | zero => rfl
  | succ n ih =>
      have hpass : (b.consume 1 now).1 = true := by
        rw [fst_consume]
        refine le_trans ?_ hn
        push_cast
        linarith [Nat.cast_nonneg (α := K) n]
      push_cast at hn
      rw [List.replicate_succ, grants, if_pos hpass, ih, add_comm]
      rw [capacity_consume, tokens_consume, last_consume, rate_consume, sub_self, zero_mul, add_zero,
        if_pos hpass]
      exact le_min (by linarith [min_le_left b.capacity (b.tokens + (now - b.last) * b.rate)])
        (by linarith)

end Window

/-! ## Admission -/

theorem serve_concat (times : List K) (now : K) (b : TokenBucket K) :
    (b.serve (times ++ [now])) = ((b.serve times).consume 1 now).2 := by
  rw [serve, List.foldl_append]
  rfl

theorem served_concat (times : List K) (now : K) (b : TokenBucket K) :
    b.served (times ++ [now]) =
      b.served times ++ if ((b.serve times).consume 1 now).1 then [now] else [] := by
  induction times generalizing b with
  | nil =>
    rw [List.nil_append, served, served]
    rfl
  | cons first times ih =>
    rw [List.cons_append, served, served, ih]
    by_cases hfirst : (b.consume 1 first).1 = true
    · rw [if_pos hfirst, if_pos hfirst]
      rfl
    · rw [if_neg hfirst, if_neg hfirst]
      rfl

theorem served_subset (times : List K) (b : TokenBucket K) : b.served times ⊆ times := by
  induction times generalizing b with
  | nil => exact List.Subset.refl _
  | cons now times ih =>
    rw [served]
    split_ifs
    · exact List.cons_subset_cons now (ih _)
    · exact List.subset_cons_of_subset now (ih _)

@[simp]
theorem capacity_serve (times : List K) (b : TokenBucket K) :
    (b.serve times).capacity = b.capacity := by
  induction times using List.reverseRecOn with
  | nil => rfl
  | append_singleton times now ih => rw [serve_concat, capacity_consume, ih]

@[simp]
theorem rate_serve (times : List K) (b : TokenBucket K) : (b.serve times).rate = b.rate := by
  induction times using List.reverseRecOn with
  | nil => rfl
  | append_singleton times now ih => rw [serve_concat, rate_consume, ih]

/-- Somebody passes exactly if there is a token. -/
theorem fst_consume_one (now : K) (b : TokenBucket K) : (b.consume 1 now).1 = true ↔ 1 ≤ b.level now :=
  fst_consume 1 now b

/-- The last call counts for the windows that began before it. -/
theorem countP_append_of_le {s now : K} (hs : s ≤ now) (times : List K) (pass : Bool) :
    ((times ++ if pass then [now] else []).countP (s ≤ ·) : K) =
      times.countP (s ≤ ·) + if pass then 1 else 0 := by
  rw [List.countP_append, Nat.cast_add]
  split_ifs
  · rw [List.countP_singleton, decide_eq_true hs, if_pos rfl, Nat.cast_one]
  · rw [List.countP_nil, Nat.cast_zero]

omit [Field K] in
theorem countP_append_of_lt {s now : K} (hs : now < s) {times : List K} (htimes : ∀ t ∈ times, t ≤ now)
    (pass : Bool) : (times ++ if pass then [now] else []).countP (s ≤ ·) = 0 := by
  refine List.countP_eq_zero.2 fun t ht => ?_
  have ht : t ≤ now := by
    rcases List.mem_append.1 ht with ht | ht
    · exact htimes t ht
    · split_ifs at ht with h
      · exact (List.mem_singleton.1 ht).le
      · exact absurd ht List.not_mem_nil
  simpa using ht.trans_lt hs

section Level

variable [IsStrictOrderedRing K] {C r created : K}

/-- The level now and the level at a later time, if somebody asks now. -/
theorem le_level_consume (b : TokenBucket K) {now : K} (t x : K) :
    x ≤ (b.consume 1 now).2.level t ↔ x ≤ b.capacity ∧
      x + (if (b.consume 1 now).1 then 1 else 0) - (t - now) * b.rate ≤ b.level now := by
  rw [level, le_min_iff, capacity_consume, rate_consume, last_consume, tokens_consume, ← level]
  refine and_congr_right fun _ => ?_
  constructor
  · intro h
    linarith
  · intro h
    linarith

/-- A bucket that nobody has asked yet is full. -/
theorem le_level_new (hr : 0 ≤ r) {t : K} (ht : created ≤ t) (x : K) :
    x ≤ (new C r created).level t ↔ ∀ s, created ≤ s → s ≤ t → x ≤ C + r * (t - s) := by
  have hcreated : 0 ≤ r * (t - created) := mul_nonneg hr (sub_nonneg.2 ht)
  change x ≤ min C (C + (t - created) * r) ↔ _
  rw [min_eq_left (by linarith)]
  constructor
  · intro hx s _ hs
    have hgain : 0 ≤ r * (t - s) := mul_nonneg hr (sub_nonneg.2 hs)
    linarith
  · intro h
    have hnow := h t ht le_rfl
    rwa [sub_self, mul_zero, add_zero] at hnow

/-- There are `x` tokens in a bucket exactly if in every window since it was made `x` more could pass. -/
theorem le_level_serve (hr : 0 ≤ r) {times : List K} {t : K}
    (htimes : (created :: times).Pairwise (· ≤ ·)) (ht : ∀ now ∈ created :: times, now ≤ t) (x : K) :
    x ≤ ((new C r created).serve times).level t ↔ ∀ s, created ≤ s → s ≤ t →
      (((new C r created).served times).countP (s ≤ ·) : K) + x ≤ C + r * (t - s) := by
  induction times using List.reverseRecOn generalizing t x with
  | nil =>
    simp only [served, List.countP_nil, Nat.cast_zero, zero_add]
    exact le_level_new hr (ht created List.mem_cons_self) x
  | append_singleton times now ih =>
    rw [← List.cons_append] at htimes ht
    have hbefore : ∀ t' ∈ created :: times, t' ≤ now := fun t' ht' =>
      (List.pairwise_append.1 htimes).2.2 t' ht' now (List.mem_singleton_self now)
    have hnow : now ≤ t := ht now (List.mem_append_right _ (List.mem_singleton_self now))
    have hcreated : created ≤ now := hbefore created List.mem_cons_self
    rw [serve_concat, le_level_consume, capacity_serve, rate_serve,
      ih (List.pairwise_append.1 htimes).1 hbefore, served_concat]
    change x ≤ C ∧ (∀ s, created ≤ s → s ≤ now → _ + (_ - (t - now) * r) ≤ _) ↔ _
    constructor
    · rintro ⟨hx, h⟩ s hs hst
      rcases le_or_gt s now with hle | hlt
      · rw [countP_append_of_le hle]
        linarith [h s hs hle]
      · have hgain : 0 ≤ r * (t - s) := mul_nonneg hr (sub_nonneg.2 hst)
        rw [countP_append_of_lt hlt fun t' ht' => hbefore t' (List.mem_cons_of_mem _ (served_subset _ _ ht')),
          Nat.cast_zero]
        linarith
    · intro h
      constructor
      · have hend := h t (hcreated.trans hnow) le_rfl
        rw [sub_self, mul_zero, add_zero] at hend
        exact (le_add_of_nonneg_left (Nat.cast_nonneg _)).trans hend
      · intro s hs hle
        have hwindow := h s hs (hle.trans hnow)
        rw [countP_append_of_le hle] at hwindow
        linarith

end Level

end TokenBucket
