import LlmGateway.L2Cascade
import Mathlib.Analysis.SpecialFunctions.Pow.Real

/-!
# Repeated decay

A call of `apply_confidence_decay` multiplies the stored confidence by a factor for the whole time since the
entry was made (`decayFactor`), and stores the product.  The next call starts from that product, so the time
before the first call counts again.  `background_maintenance` calls it once a minute.

With exact arithmetic (the real numbers for `double`), a list of calls multiplies by the product of the factors
(`confidence_decays`), and what is `STALE` afterwards is read off the last confidence (`status_decays`).  So
the calls before the last one make no difference exactly if their factors are 1 (`decaysByTime_iff`).
-/

namespace LlmGateway

/-- Exact real arithmetic. -/
noncomputable instance : Double ℝ where
  lit q := q
  mul := (· * ·)
  sub := (· - ·)
  div := (· / ·)
  pow := Real.rpow
  lt x y := by classical exact decide (x < y)
  trunc x := by classical exact if x < 0 then ⌈x⌉ else ⌊x⌋
  toString x := Double.toString ((⌊x * 10 ^ 6⌋ : ℚ) / 10 ^ 6)

namespace L2PersistentCache

/-- The days since the entry was made. -/
noncomputable def daysOld (e : CacheEntry ℝ) (now : Int64) : ℝ :=
  (now.toInt - e.createdAtMs.toInt : ℤ) / (1000 * 86400)

/-- The factor by which a call at time `now` multiplies the confidence. -/
noncomputable def decayFactor (e : CacheEntry ℝ) (now : Int64) : ℝ := (1 - e.confidenceDecay) ^ daysOld e now

/-- The entry after calls at the given times. -/
noncomputable def decays (ts : List Int64) (e : CacheEntry ℝ) : CacheEntry ℝ :=
  ts.foldl (fun e t => decayed t e) e

/-- The daily rate is a rate, and the times are after the entry was made. -/
structure DecaysAt (e : CacheEntry ℝ) (ts : List Int64) : Prop where
  nonneg : 0 ≤ e.confidenceDecay
  lt_one : e.confidenceDecay < 1
  after : ∀ t ∈ ts, e.createdAtMs.toInt ≤ t.toInt

theorem DecaysAt.mono {e : CacheEntry ℝ} {ts ts' : List Int64} (h : DecaysAt e ts) (hts : ts' ⊆ ts) :
    DecaysAt e ts' :=
  ⟨h.nonneg, h.lt_one, fun t ht => h.after t (hts ht)⟩

variable {e : CacheEntry ℝ} {now : Int64} {ts : List Int64}

/-! ## One call -/

theorem confidence_decayed (h : e.status ≠ .INVALIDATED) :
    (decayed now e).confidence = e.confidence * decayFactor e now := by
  unfold decayed
  rw [if_neg h]
  simp [Double.mul, Double.pow, Double.sub, Double.div, Double.lit, decayFactor, daysOld]

/-- A call marks an entry `STALE` if the new confidence is below the bound, and never unmarks it. -/
theorem status_decayed (h : e.status ≠ .INVALIDATED) :
    (decayed now e).status = .STALE ↔ e.status = .STALE ∨ (decayed now e).confidence < 3 / 10 := by
  have hlt : ∀ x : ℝ, Double.lt x kConfidenceStale = true ↔ x < 3 / 10 := by
    intro x
    simp [Double.lt, kConfidenceStale, Double.lit]
  unfold decayed
  rw [if_neg h]
  dsimp only
  split_ifs with hstale
  · simpa using Or.inr ((hlt _).1 hstale)
  · rw [hlt] at hstale
    exact (or_iff_left hstale).symm

theorem not_invalidated_decayed (h : e.status ≠ .INVALIDATED) : (decayed now e).status ≠ .INVALIDATED := by
  unfold decayed
  rw [if_neg h]
  dsimp only
  split_ifs
  · simp
  · exact h

/-- A call leaves the rate and the time of creation, so the factors of the later calls. -/
theorem decayFactor_decayed (t : Int64) : decayFactor (decayed t e) now = decayFactor e now := by
  rw [sameData_decayed t e]
  rfl

/-- The factor is positive and at most 1. -/
theorem decayFactor_pos (h : DecaysAt e ts) : 0 < decayFactor e now :=
  Real.rpow_pos_of_pos (sub_pos.2 h.lt_one) _

theorem daysOld_nonneg (h : DecaysAt e ts) (hnow : now ∈ ts) : 0 ≤ daysOld e now := by
  have hage : (0 : ℝ) ≤ (now.toInt - e.createdAtMs.toInt : ℤ) := by
    exact_mod_cast Int.sub_nonneg.2 (h.after now hnow)
  exact div_nonneg hage (by norm_num)

theorem daysOld_eq_zero_iff : daysOld e now = 0 ↔ now = e.createdAtMs := by
  rw [daysOld, div_eq_zero_iff, or_iff_left (by norm_num), Int.cast_eq_zero, sub_eq_zero, Int64.toInt_inj]

theorem decayFactor_le_one (h : DecaysAt e ts) (hnow : now ∈ ts) : decayFactor e now ≤ 1 :=
  Real.rpow_le_one (sub_nonneg.2 h.lt_one.le) (sub_le_self 1 h.nonneg) (daysOld_nonneg h hnow)

/-- The factor is 1 only without decay, or at the time of creation. -/
theorem decayFactor_eq_one_iff (h : DecaysAt e ts) (hnow : now ∈ ts) :
    decayFactor e now = 1 ↔ e.confidenceDecay = 0 ∨ now = e.createdAtMs := by
  constructor
  · intro hone
    by_contra hnot
    obtain ⟨hrate, hcreated⟩ := not_or.1 hnot
    have hbase : 1 - e.confidenceDecay < 1 := sub_lt_self 1 (lt_of_le_of_ne h.nonneg (Ne.symm hrate))
    have hdays : 0 < daysOld e now :=
      lt_of_le_of_ne (daysOld_nonneg h hnow) fun h0 => hcreated (daysOld_eq_zero_iff.1 h0.symm)
    have hlt : decayFactor e now < 1 := Real.rpow_lt_one (sub_nonneg.2 h.lt_one.le) hbase hdays
    exact hlt.ne hone
  · rintro (hrate | hcreated)
    · rw [decayFactor, hrate, sub_zero, Real.one_rpow]
    · rw [decayFactor, daysOld_eq_zero_iff.2 hcreated, Real.rpow_zero]

/-! ## A list of calls -/

/-- The factor of a list of calls. -/
noncomputable def decayProduct (e : CacheEntry ℝ) (ts : List Int64) : ℝ := (ts.map (decayFactor e)).prod

theorem sameData_decays (ts : List Int64) (e : CacheEntry ℝ) : SameData e (decays ts e) := by
  induction ts generalizing e with
  | nil => exact SameData.refl e
  | cons t ts ih => exact (sameData_decayed t e).trans (ih _)

theorem decays_append (t : Int64) : decays (ts ++ [t]) e = decayed t (decays ts e) := by
  rw [decays, List.foldl_append]
  rfl

theorem not_invalidated_decays (h : e.status ≠ .INVALIDATED) : (decays ts e).status ≠ .INVALIDATED := by
  induction ts generalizing e with
  | nil => exact h
  | cons t ts ih => exact ih (not_invalidated_decayed h)

/-- A list of calls multiplies the confidence by the product of the factors. -/
theorem confidence_decays (h : e.status ≠ .INVALIDATED) :
    (decays ts e).confidence = e.confidence * decayProduct e ts := by
  induction ts generalizing e with
  | nil => simp [decays, decayProduct]
  | cons t ts ih =>
      have hfactors : decayFactor (decayed t e) = decayFactor e := funext fun now => decayFactor_decayed t
      have hstep : (decays ts (decayed t e)).confidence = (decayed t e).confidence * decayProduct e ts := by
        rw [ih (not_invalidated_decayed h), decayProduct, hfactors, decayProduct]
      rw [decays, List.foldl_cons, ← decays, hstep, confidence_decayed h, decayProduct, decayProduct,
        List.map_cons, List.prod_cons, mul_assoc]

theorem decayProduct_pos (h : DecaysAt e ts) : 0 < decayProduct e ts := by
  refine List.prod_pos fun x hx => ?_
  obtain ⟨t, -, rfl⟩ := List.mem_map.1 hx
  exact decayFactor_pos h

theorem decayProduct_le_one (h : DecaysAt e ts) : decayProduct e ts ≤ 1 := by
  induction ts with
  | nil => simp [decayProduct]
  | cons t ts ih =>
      have hts : DecaysAt e ts := h.mono (List.subset_cons_self t ts)
      rw [decayProduct, List.map_cons, List.prod_cons, ← decayProduct]
      exact mul_le_one₀ (decayFactor_le_one h (by simp)) (decayProduct_pos hts).le (ih hts)

/-- The product is 1 only if every factor is. -/
theorem decayProduct_eq_one_iff (h : DecaysAt e ts) :
    decayProduct e ts = 1 ↔ e.confidenceDecay = 0 ∨ ∀ t ∈ ts, t = e.createdAtMs := by
  induction ts with
  | nil => simp [decayProduct]
  | cons t ts ih =>
      have hts : DecaysAt e ts := h.mono (List.subset_cons_self t ts)
      have hfactor : decayFactor e t ≤ 1 := decayFactor_le_one h (by simp)
      have hboth : decayFactor e t * decayProduct e ts = 1 ↔ decayFactor e t = 1 ∧ decayProduct e ts = 1 := by
        constructor
        · intro hprod
          have hone : decayFactor e t = 1 := by
            refine le_antisymm hfactor ?_
            rw [← hprod]
            exact mul_le_of_le_one_right (decayFactor_pos h).le (decayProduct_le_one hts)
          rw [hone, one_mul] at hprod
          exact ⟨hone, hprod⟩
        · rintro ⟨hone, hprod⟩
          rw [hone, hprod, one_mul]
      rw [decayProduct, List.map_cons, List.prod_cons, ← decayProduct, hboth, ih hts,
        decayFactor_eq_one_iff h (by simp), List.forall_mem_cons]
      tauto

/-- After a list of calls an entry is `STALE` if it was before, or the last confidence is below the bound. -/
theorem status_decays (h : DecaysAt e (ts ++ [now])) (hlive : e.status ≠ .INVALIDATED) :
    (decays (ts ++ [now]) e).status = .STALE ↔
      e.status = .STALE ∨ (decays (ts ++ [now]) e).confidence < 3 / 10 := by
  induction ts using List.reverseRecOn generalizing now with
  | nil => exact status_decayed hlive
  | append_singleton ts t ih =>
      have hbefore : DecaysAt e (ts ++ [t]) := h.mono (List.subset_append_left _ _)
      have hlive' : (decays (ts ++ [t]) e).status ≠ .INVALIDATED := not_invalidated_decays hlive
      have hfactor : decayFactor (decays (ts ++ [t]) e) now = decayFactor e now := by
        rw [sameData_decays (ts ++ [t]) e]
        rfl
      -- what was below the bound stays below it
      have hlow : (decays (ts ++ [t]) e).confidence < 3 / 10 →
          (decayed now (decays (ts ++ [t]) e)).confidence < 3 / 10 := by
        intro hconf
        rw [confidence_decayed hlive', hfactor]
        have hpos : 0 < decayFactor e now := decayFactor_pos h
        have hone : decayFactor e now ≤ 1 := decayFactor_le_one h (by simp)
        nlinarith
      rw [decays_append, status_decayed hlive', ih hbefore]
      tauto

/-! ## The store -/

/-- The calls at the times `ts` before the last call at time `now` make no difference to the confidence of a
live entry, and to whether it is `STALE`. -/
def DecaysByTime (lib : JsonLib ℝ) (s : L2PersistentCache ℝ) (ts : List Int64) (now : Int64) : Prop :=
  ∀ k e, s.entries.lookup k = some e → e.status ≠ .INVALIDATED → ∃ e₁ e₂,
    (run lib s ((ts ++ [now]).map .applyConfidenceDecay)).entries.lookup k = some e₁ ∧
    (run lib s [.applyConfidenceDecay now]).entries.lookup k = some e₂ ∧
    e₁.confidence = e₂.confidence ∧ (e₁.status = .STALE ↔ e₂.status = .STALE)

variable (lib : JsonLib ℝ)

theorem lookup_run_decay (s : L2PersistentCache ℝ) (ts : List Int64) (k : Str) :
    (run lib s (ts.map .applyConfidenceDecay)).entries.lookup k = (s.entries.lookup k).map (decays ts) := by
  induction ts generalizing s with
  | nil => exact Option.map_id'.symm
  | cons t ts ih =>
      have hcall : (applyConfidenceDecay lib t s).state.entries.lookup k =
          (s.entries.lookup k).map (decayed t) := by
        rw [applyConfidenceDecay, saveToDisk_entries, AList.lookup_mapVal]
      rw [List.map_cons, run, Outcome.run_cons, ← run, ih]
      rw [Op.apply, hcall, Option.map_map]
      rfl

/-- For an entry, the earlier calls make no difference exactly if it has nothing to lose, or loses nothing by
them. -/
theorem decays_agree_iff (h : DecaysAt e (ts ++ [now])) (hlive : e.status ≠ .INVALIDATED) :
    ((decays (ts ++ [now]) e).confidence = (decays [now] e).confidence ∧
      ((decays (ts ++ [now]) e).status = .STALE ↔ (decays [now] e).status = .STALE)) ↔
      e.confidence = 0 ∨ e.confidenceDecay = 0 ∨ ∀ t ∈ ts, t = e.createdAtMs := by
  have hts : DecaysAt e ts := h.mono (List.subset_append_left _ _)
  have hnow : DecaysAt e ([] ++ [now]) := h.mono (List.subset_append_right _ _)
  have hconf : (decays (ts ++ [now]) e).confidence = (decays [now] e).confidence ↔
      e.confidence = 0 ∨ decayProduct e ts = 1 := by
    rw [confidence_decays hlive, confidence_decays hlive]
    have hpos : decayFactor e now ≠ 0 := (decayFactor_pos h).ne'
    simp only [decayProduct, List.map_append, List.map_cons, List.map_nil, List.prod_append,
      List.prod_cons, List.prod_nil, mul_one]
    rw [← mul_assoc, mul_left_inj' hpos, mul_right_eq_self₀]
    exact or_comm
  have hstatus : (decays (ts ++ [now]) e).confidence = (decays [now] e).confidence →
      ((decays (ts ++ [now]) e).status = .STALE ↔ (decays [now] e).status = .STALE) := by
    intro hsame
    have hlast := status_decays hnow hlive
    rw [List.nil_append] at hlast
    rw [status_decays h hlive, hlast, hsame]
  rw [and_iff_left_of_imp hstatus, hconf, decayProduct_eq_one_iff hts]

/-- On a store whose entries have a rate from 0 to 1, and with calls after the entries were made, the decay
depends only on the time of the last call exactly if each live entry has the confidence 0, or no decay, or was
made at the time of every earlier call. -/
theorem decaysByTime_iff (s : L2PersistentCache ℝ) (ts : List Int64) (now : Int64)
    (hs : ∀ k e, s.entries.lookup k = some e → DecaysAt e (ts ++ [now])) :
    DecaysByTime lib s ts now ↔ ∀ k e, s.entries.lookup k = some e → e.status ≠ .INVALIDATED →
      e.confidence = 0 ∨ e.confidenceDecay = 0 ∨ ∀ t ∈ ts, t = e.createdAtMs := by
  have hlast : ∀ k, (run lib s [.applyConfidenceDecay now]).entries.lookup k =
      (s.entries.lookup k).map (decays [now]) := lookup_run_decay lib s [now]
  refine forall₂_congr fun k e => forall₂_congr fun he hlive => ?_
  rw [← decays_agree_iff (hs k e he) hlive, lookup_run_decay, hlast, he]
  simp

/-- A store with an entry that was made at time 0 with confidence 1 and the default rate. -/
noncomputable def dailyStore : L2PersistentCache ℝ :=
  run (JsonLib.on Double.toString []) {} [.set (str "a") { CacheEntry.empty with confidence := 1 }]

theorem lookup_dailyStore (k : Str) : dailyStore.entries.lookup k =
    if k = str "a" then some { CacheEntry.empty with confidence := 1 } else none := by
  have hentries : dailyStore.entries = AList.insert (str "a") { CacheEntry.empty with confidence := 1 } ∅ :=
    save_entries _ _
  rw [hentries]
  split_ifs with hk
  · rw [hk, AList.lookup_insert]
  · rw [AList.lookup_insert_ne hk]
    rfl

theorem decaysAt_dailyStore (k : Str) (e : CacheEntry ℝ) (he : dailyStore.entries.lookup k = some e) :
    DecaysAt e ([86400000] ++ [172800000]) := by
  rw [lookup_dailyStore] at he
  split_ifs at he
  obtain rfl := Option.some.inj he
  refine ⟨?_, ?_, fun t ht => ?_⟩
  · simp only [CacheEntry.empty, Double.lit]
    norm_num
  · simp only [CacheEntry.empty, Double.lit]
    norm_num
  · rcases List.mem_cons.1 ht with rfl | ht
    · decide
    · rw [List.mem_singleton.1 ht]
      decide

theorem decaysByTime_dailyStore :
    DecaysByTime (JsonLib.on Double.toString []) dailyStore [86400000] 172800000 ↔
      ∀ k e, dailyStore.entries.lookup k = some e → e.status ≠ .INVALIDATED →
        e.confidence = 0 ∨ e.confidenceDecay = 0 ∨ ∀ t ∈ [86400000], t = e.createdAtMs :=
  decaysByTime_iff (JsonLib.on Double.toString []) dailyStore [86400000] 172800000 decaysAt_dailyStore

/-- After `n` days the factor of the default rate is a power of 49/50. -/
theorem decayFactor_daily {e : CacheEntry ℝ} {now : Int64} {n : ℕ} (hrate : e.confidenceDecay = 2 / 100)
    (hnow : now.toInt - e.createdAtMs.toInt = n * 86400000) : decayFactor e now = (49 / 50) ^ n := by
  have hdays : daysOld e now = n := by
    rw [daysOld, hnow]
    push_cast
    ring
  rw [decayFactor, hdays, Real.rpow_natCast, hrate]
  norm_num

/-- A call after one day and one after two take the entry three days down, and a single call after two days
takes it two days down. -/
theorem decay_daily :
    ((run (JsonLib.on Double.toString []) dailyStore
        [.applyConfidenceDecay 86400000, .applyConfidenceDecay 172800000]).entries.lookup
      (str "a")).map CacheEntry.confidence = some ((49 / 50) ^ 3) ∧
    ((run (JsonLib.on Double.toString []) dailyStore
        [.applyConfidenceDecay 172800000]).entries.lookup (str "a")).map CacheEntry.confidence =
      some ((49 / 50) ^ 2) ∧
    ¬DecaysByTime (JsonLib.on Double.toString []) dailyStore [86400000] 172800000 := by
  have hentry := lookup_dailyStore (str "a")
  rw [if_pos rfl] at hentry
  generalize he : ({ CacheEntry.empty with confidence := 1 } : CacheEntry ℝ) = e at hentry
  have hlive : e.status ≠ .INVALIDATED := by
    rw [← he]
    decide
  have hconf : e.confidence = 1 := by rw [← he]
  have hrate : e.confidenceDecay = 2 / 100 := by
    rw [← he]
    simp [CacheEntry.empty, Double.lit]
  have hcreated : e.createdAtMs = 0 := by rw [← he]; rfl
  have hone : decayFactor e 86400000 = (49 / 50) ^ 1 :=
    decayFactor_daily hrate (by rw [hcreated]; decide)
  have htwo : decayFactor e 172800000 = (49 / 50) ^ 2 :=
    decayFactor_daily hrate (by rw [hcreated]; decide)
  have hboth : (decays [86400000, 172800000] e).confidence = (49 / 50) ^ 3 := by
    rw [confidence_decays hlive, hconf]
    simp only [decayProduct, List.map_cons, List.map_nil, List.prod_cons, List.prod_nil, hone, htwo]
    norm_num
  have hlast : (decays [172800000] e).confidence = (49 / 50) ^ 2 := by
    rw [confidence_decays hlive, hconf]
    simp only [decayProduct, List.map_cons, List.map_nil, List.prod_cons, List.prod_nil, htwo]
    norm_num
  have hrun := lookup_run_decay (JsonLib.on Double.toString []) dailyStore [86400000, 172800000] (str "a")
  have hrun' := lookup_run_decay (JsonLib.on Double.toString []) dailyStore [172800000] (str "a")
  rw [hentry, Option.map_some] at hrun hrun'
  refine ⟨?_, ?_, fun h => ?_⟩
  · rw [← hboth]
    exact congrArg (Option.map CacheEntry.confidence) hrun
  · rw [← hlast]
    exact congrArg (Option.map CacheEntry.confidence) hrun'
  · obtain ⟨e₁, e₂, he₁, he₂, hsame, -⟩ := h (str "a") e hentry hlive
    obtain rfl : decays [86400000, 172800000] e = e₁ := Option.some.inj (hrun.symm.trans he₁)
    obtain rfl : decays [172800000] e = e₂ := Option.some.inj (hrun'.symm.trans he₂)
    rw [hboth, hlast] at hsame
    norm_num at hsame

end L2PersistentCache

end LlmGateway
