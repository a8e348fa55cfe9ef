import Mathlib.Data.List.Induction
import Mathlib.Tactic.Common

/-!
# Operations that can throw

An operation on a state either returns or throws; in both cases it leaves a state, and a throw does
not undo what was done before it.  `Outcome` is the state together with how the operation ended,
and `andThen` is sequencing: what follows a throw is not run.

A system whose operations can throw goes on after a throw: `run` performs one operation after the
other, each on the state that the last one left.  `run_invariant` is induction over a run, and
`run_holds_iff` says when a property holds all along one.
-/

/-- The state an operation leaves, and whether it threw. -/
structure Outcome (σ : Type*) where
  state : σ
  threw : Bool

namespace Outcome

variable {σ τ ι α : Type*}

/-- The operation returned. -/
def ok (s : σ) : Outcome σ := ⟨s, false⟩

/-- The operation threw an exception. -/
def throw (s : σ) : Outcome σ := ⟨s, true⟩

/-- Run `f` from the state left by `o`, unless `o` threw. -/
def andThen (o : Outcome σ) (f : σ → Outcome σ) : Outcome σ :=
  if o.threw then o else f o.state

@[simp]
theorem ok_state (s : σ) : (ok s).state = s := rfl

@[simp]
theorem ok_andThen (s : σ) (f : σ → Outcome σ) : (ok s).andThen f = f s := rfl

theorem andThen_of_returns {o : Outcome σ} (h : o.threw = false) (f : σ → Outcome σ) :
    o.andThen f = f o.state := by
  simp [andThen, h]

/-- What neither part changes, the sequence does not change, whether or not the first part throws. -/
theorem view_andThen (view : σ → α) {o : Outcome σ} {f : σ → Outcome σ} {a : α}
    (ho : view o.state = a) (hf : ∀ s, view (f s).state = view s) :
    view (o.andThen f).state = a := by
  unfold andThen
  split_ifs
  · exact ho
  · rw [hf, ho]

/-- What both parts preserve, the sequence preserves, whether or not the first part throws. -/
theorem state_andThen (P : σ → Prop) {o : Outcome σ} {f : σ → Outcome σ} (ho : P o.state)
    (hf : ∀ s, P s → P (f s).state) : P (o.andThen f).state := by
  unfold andThen
  split_ifs
  · exact ho
  · exact hf _ ho

/-- The operation of a part of the state, as an operation of the whole. -/
def map (f : σ → τ) (o : Outcome σ) : Outcome τ := ⟨f o.state, o.threw⟩

@[simp]
theorem map_state (f : σ → τ) (o : Outcome σ) : (o.map f).state = f o.state := rfl

/-! ## Runs -/

/-- Perform a list of operations, each on the state that the last one left. -/
def run (step : ι → σ → Outcome σ) (s : σ) (ops : List ι) : σ :=
  ops.foldl (fun s op => (step op s).state) s

section Run

variable {step : ι → σ → Outcome σ}

@[simp]
theorem run_nil (s : σ) : run step s [] = s := rfl

@[simp]
theorem run_cons (s : σ) (op : ι) (ops : List ι) :
    run step s (op :: ops) = run step (step op s).state ops := rfl

theorem run_append (s : σ) (ops ops' : List ι) :
    run step s (ops ++ ops') = run step (run step s ops) ops' :=
  List.foldl_append

/-- What every operation of a run preserves holds at its end. -/
theorem run_invariant (P : σ → Prop) {s : σ} (hs : P s) {ops : List ι}
    (h : ∀ s, ∀ op ∈ ops, P s → P (step op s).state) : P (run step s ops) := by
  induction ops generalizing s with
  | nil => exact hs
  | cons op ops ih =>
      have hop : P (step op s).state := h s op (by simp) hs
      exact ih hop fun s op' hop' => h s op' (by simp [hop'])

/-- What every operation that meets the condition `C` preserves holds all along a run of such operations. -/
theorem run_invariant_of {I : σ → Prop} {C : σ → ι → Prop} {s : σ} (hs : I s) {ops : List ι}
    (hstep : ∀ s, ∀ op ∈ ops, I s → C s op → I (step op s).state)
    (hC : ∀ pre op post, ops = pre ++ op :: post → C (run step s pre) op) {pre : List ι}
    (hpre : pre <+: ops) : I (run step s pre) := by
  induction pre using List.reverseRecOn with
  | nil => exact hs
  | append_singleton pre op ih =>
      obtain ⟨post, hpost⟩ := hpre
      have hops : ops = pre ++ op :: post := by rw [← hpost, List.append_assoc]; rfl
      rw [run_append, run_cons, run_nil]
      exact hstep _ op (by simp [hops]) (ih ⟨op :: post, hops.symm⟩) (hC pre op post hops)

/-- `P` holds all along a run exactly if every operation meets the condition `C` in the state that it
finds, where `I` is an invariant under `C` from which `P` follows. -/
theorem run_holds_iff {I P : σ → Prop} {C : σ → ι → Prop} (hP : ∀ s, I s → P s) {s : σ} (hs : I s)
    {ops : List ι} (hstep : ∀ s, ∀ op ∈ ops, I s → C s op → I (step op s).state)
    (hconv : ∀ s, ∀ op ∈ ops, I s → P (step op s).state → C s op) :
    (∀ pre, pre <+: ops → P (run step s pre)) ↔
      ∀ pre op post, ops = pre ++ op :: post → C (run step s pre) op := by
  constructor
  · intro h pre op post hops
    -- the operations before `op` meet the condition, so that `op` finds the invariant
    have hI : ∀ pre', pre' <+: pre → I (run step s pre') := by
      intro pre' hpre'
      induction pre' using List.reverseRecOn with
      | nil => exact hs
      | append_singleton pre' op' ih =>
          have hprefix : pre' ++ [op'] <+: ops :=
            hpre'.trans (hops ▸ List.prefix_append pre (op :: post))
          have hmem : op' ∈ ops := hprefix.subset (by simp)
          have hbefore := ih ((List.prefix_append pre' [op']).trans hpre')
          have hafter := h _ hprefix
          rw [run_append, run_cons, run_nil] at hafter ⊢
          exact hstep _ op' hmem hbefore (hconv _ op' hmem hbefore hafter)
    have hafter := h (pre ++ [op]) (by rw [hops]; exact ⟨post, by simp⟩)
    rw [run_append, run_cons, run_nil] at hafter
    exact hconv _ op (by simp [hops]) (hI pre (List.prefix_refl pre)) hafter
  · exact fun h pre hpre => hP _ (run_invariant_of hs hstep h hpre)

/-- The steps of a list and the one after them. -/
theorem forall_step_append_singleton {P : List ι → ι → Prop} {ops : List ι} {o : ι} :
    (∀ pre op post, ops ++ [o] = pre ++ op :: post → P pre op) ↔
      (∀ pre op post, ops = pre ++ op :: post → P pre op) ∧ P ops o := by
  constructor
  · intro h
    refine ⟨fun pre op post hops => h pre op (post ++ [o]) (by simp [hops]), h ops o [] rfl⟩
  · rintro ⟨hops, ho⟩ pre op post heq
    rcases List.eq_nil_or_concat post with rfl | ⟨post, o', rfl⟩
    · obtain ⟨rfl, hlast⟩ := List.append_inj' heq rfl
      rwa [← List.singleton_inj.1 hlast]
    · rw [List.concat_eq_append, ← List.cons_append, ← List.append_assoc] at heq
      exact hops pre op post (List.append_inj' heq rfl).1

/-- The steps of a list, by their positions. -/
theorem forall_step_of_take {P : List ι → ι → Prop} {ops : List ι}
    (h : ∀ i : Fin ops.length, P (ops.take i) ops[i]) (pre : List ι) (op : ι) (post : List ι)
    (hops : ops = pre ++ op :: post) : P pre op := by
  subst hops
  have hlt : pre.length < (pre ++ op :: post).length := by simp
  have hi := h ⟨pre.length, hlt⟩
  simpa using hi

end Run

end Outcome
