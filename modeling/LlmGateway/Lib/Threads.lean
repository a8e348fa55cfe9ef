import Mathlib.Data.List.Basic
import Mathlib.Tactic.Common

/-!
# Threads over a shared state

Each call of a system is a thread, which performs its atomic operations on the shared state one by one.
At every step either a call begins or one of the threads performs its next operation, so a list of these
actions is an interleaving of any number of calls (`run`).

An invariant of such a system has a part about the shared state and a part about each thread, which may
depend on the number of the thread (`Holds`).  It suffices to look at one operation of one thread
(`Holds.resume`), and `Holds.run` is induction over an interleaving.  `countP_run` counts threads: what is paid
and what the threads still owe is no more than what was due.
-/

namespace Threads

variable {κ τ σ ι : Type*}

/-- The thread of each call, and the next operation of a thread, which can read `ι` of the
surroundings. -/
structure Program (κ τ σ ι : Type*) where
  start : κ → τ
  advance : ι → τ → σ → τ × σ

/-- The shared state, and the threads in the order in which they began. -/
structure System (τ σ : Type*) where
  shared : σ
  threads : List τ := []

/-- A call begins in a thread of its own, or a thread has a turn. -/
inductive Action (κ ι : Type*) where
  | spawn (call : κ)
  | resume (i : ℕ) (x : ι)

/-- What an action does. -/
def step (p : Program κ τ σ ι) (s : System τ σ) : Action κ ι → System τ σ
  | .spawn call => { s with threads := s.threads ++ [p.start call] }
  | .resume i x =>
      match s.threads[i]? with
      | none => s
      | some t =>
          { shared := (p.advance x t s.shared).2
            threads := s.threads.set i (p.advance x t s.shared).1 }

/-- The threads after some actions. -/
def run (p : Program κ τ σ ι) (s : System τ σ) (acts : List (Action κ ι)) : System τ σ :=
  acts.foldl (step p) s

section Run

variable {p : Program κ τ σ ι} {s : System τ σ}

@[simp]
theorem run_nil : run p s [] = s := rfl

@[simp]
theorem run_cons (act : Action κ ι) (acts : List (Action κ ι)) :
    run p s (act :: acts) = run p (step p s act) acts := rfl

theorem step_resume {i : ℕ} {t : τ} (ht : s.threads[i]? = some t) (x : ι) :
    step p s (.resume i x) =
      { shared := (p.advance x t s.shared).2
        threads := s.threads.set i (p.advance x t s.shared).1 } := by
  simp only [step, ht]

theorem run_append (acts acts' : List (Action κ ι)) :
    run p s (acts ++ acts') = run p (run p s acts) acts' :=
  List.foldl_append

theorem length_step_le (act : Action κ ι) : s.threads.length ≤ (step p s act).threads.length := by
  cases act with
  | spawn call => simp [step]
  | resume i x =>
    rw [step]
    split
    · exact Nat.le_refl _
    · simp

/-- Threads do not disappear. -/
theorem length_run_le (acts : List (Action κ ι)) :
    s.threads.length ≤ (run p s acts).threads.length := by
  induction acts generalizing s with
  | nil => exact Nat.le_refl _
  | cons act acts ih => exact Nat.le_trans (length_step_le act) ih

/-- What runs in the middle of an interleaving is there at its end. -/
theorem lt_length_of_prefix {pre acts : List (Action κ ι)} (hpre : pre <+: acts) {i : ℕ} {t : τ}
    (ht : (run p s pre).threads[i]? = some t) : i < (run p s acts).threads.length := by
  obtain ⟨rest, rfl⟩ := hpre
  obtain ⟨hi, -⟩ := List.getElem?_eq_some_iff.1 ht
  rw [run_append]
  exact Nat.lt_of_lt_of_le hi (length_run_le rest)

end Run

/-! ## Invariants -/

/-- A property of the shared state and one of every thread. -/
structure Holds (I : σ → Prop) (T : ℕ → τ → Prop) (s : System τ σ) : Prop where
  shared : I s.shared
  threads (i : ℕ) (t : τ) : s.threads[i]? = some t → T i t

section Holds

variable {p : Program κ τ σ ι} {s : System τ σ} {I : σ → Prop} {T : ℕ → τ → Prop}

theorem Holds.spawn (h : Holds I T s) {call : κ} (ht : T s.threads.length (p.start call)) :
    Holds I T (step p s (.spawn call)) where
  shared := h.shared
  threads i t hi := by
    rcases Nat.lt_trichotomy i s.threads.length with hlt | heq | hgt
    · rw [step, List.getElem?_append_left hlt] at hi
      exact h.threads i t hi
    · rw [step, heq, List.getElem?_concat_length, Option.some.injEq] at hi
      rw [← hi, heq]
      exact ht
    · rw [step, List.getElem?_eq_none (by simp; omega)] at hi
      cases hi

/-- An operation of one thread, from what holds before it to what holds after it. -/
theorem Holds.resume {I' : σ → Prop} {T' : ℕ → τ → Prop} (h : Holds I T s) {i : ℕ} {t : τ}
    (ht : s.threads[i]? = some t) (x : ι) (hshared : I' (p.advance x t s.shared).2)
    (hthread : T' i (p.advance x t s.shared).1)
    (hothers : ∀ j t', s.threads[j]? = some t' → T j t' → T' j t') :
    Holds I' T' (step p s (.resume i x)) := by
  rw [step_resume ht]
  refine ⟨hshared, fun j t' hj => ?_⟩
  by_cases hji : j = i
  · obtain ⟨hlt, -⟩ := List.getElem?_eq_some_iff.1 ht
    rw [hji, List.getElem?_set_self hlt, Option.some.injEq] at hj
    rw [← hj, hji]
    exact hthread
  · rw [List.getElem?_set_ne (Ne.symm hji)] at hj
    exact hothers j t' hj (h.threads j t' hj)

/-- Induction over an interleaving, each of whose operations is `Allowed` where it is performed. -/
theorem Holds.run (h : Holds I T s) (hstart : ∀ i call, T i (p.start call))
    (Allowed : τ → ℕ → Prop)
    (hop : ∀ i x t c, I c → T i t → Allowed t i →
      I (p.advance x t c).2 ∧ T i (p.advance x t c).1)
    {acts : List (Action κ ι)}
    (hacts : ∀ pre i x, pre ++ [.resume i x] <+: acts → ∀ t,
      (Threads.run p s pre).threads[i]? = some t → Allowed t i) :
    Holds I T (Threads.run p s acts) := by
  induction acts generalizing s with
  | nil => exact h
  | cons act acts ih =>
      have hrest (pre : List (Action κ ι)) (i : ℕ) (x : ι) (hpre : pre ++ [.resume i x] <+: acts) :
          ∀ t, (Threads.run p (step p s act) pre).threads[i]? = some t → Allowed t i :=
        hacts (act :: pre) i x (by simpa using hpre)
      refine ih ?_ hrest
      cases act with
      | spawn call => exact h.spawn (hstart _ call)
      | resume i x =>
        cases ht : s.threads[i]? with
        | none =>
          rw [show step p s (.resume i x) = s by simp only [step, ht]]
          exact h
        | some t =>
          obtain ⟨hI, hT⟩ :=
            hop i x t s.shared h.shared (h.threads i t ht) (hacts [] i x (by simp) t ht)
          exact h.resume ht x hI hT fun _ _ _ hj => hj

end Holds

/-! ## Counting threads -/

section Counting

variable {p : Program κ τ σ ι} {s : System τ σ} (owes : τ → Bool)

theorem countP_resume {i : ℕ} {t : τ} (ht : s.threads[i]? = some t) (x : ι) :
    (step p s (.resume i x)).threads.countP owes + (owes t).toNat =
      s.threads.countP owes + (owes (p.advance x t s.shared).1).toNat := by
  obtain ⟨hlt, ht'⟩ := List.getElem?_eq_some_iff.1 ht
  have hle : (if owes s.threads[i] then 1 else 0) ≤ s.threads.countP owes :=
    List.boole_getElem_le_countP hlt
  rw [step_resume ht]
  dsimp only
  rw [List.countP_set hlt]
  rw [ht'] at hle ⊢
  cases hold : owes t <;> cases hnew : owes (p.advance x t s.shared).1 <;>
    simp only [hold, if_true, if_false, Bool.false_eq_true, Bool.toNat_true, Bool.toNat_false] at hle ⊢ <;>
    omega

/-- A thread that owes nothing at its start owes no more than becomes due in its operations. -/
theorem countP_run (paid due : σ → ℕ) (hstart : ∀ call, owes (p.start call) = false)
    (hadvance : ∀ x t c, paid (p.advance x t c).2 + (owes (p.advance x t c).1).toNat + due c ≤
      paid c + (owes t).toNat + due (p.advance x t c).2)
    (h : paid s.shared + s.threads.countP owes ≤ due s.shared) (acts : List (Action κ ι)) :
    paid (run p s acts).shared + (run p s acts).threads.countP owes ≤ due (run p s acts).shared := by
  induction acts generalizing s with
  | nil => exact h
  | cons act acts ih =>
      refine ih ?_
      cases act with
      | spawn call =>
        rw [step, List.countP_append, List.countP_singleton, hstart]
        exact h
      | resume i x =>
        cases ht : s.threads[i]? with
        | none =>
          rw [show step p s (.resume i x) = s by simp only [step, ht]]
          exact h
        | some t =>
          have hcount := countP_resume (p := p) owes ht x
          have hpaid := hadvance x t s.shared
          rw [step_resume ht] at hcount ⊢
          dsimp only at hcount ⊢
          omega

end Counting

end Threads
