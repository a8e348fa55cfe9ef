import Mathlib.Data.List.Perm.Basic
import LlmGateway.Lib.Threads

/-!
# Effects of threads

What a thread knows of the shared state stays true if no operation of another one makes it false
(`Stable.run`).

If each thread takes effect in one of its operations, and the order of the effects makes no difference, then
what is shared is at any time the result of the effects of those threads that have taken effect
(`TakesEffect.run`).

A thread that gets nearer to its end with each of its own operations, and is put back by another one only where
that one leaves the busy part of its call, gets there (`Progresses.finishes`).
-/

namespace Threads

variable {κ τ σ ι : Type*} {p : Program κ τ σ ι} {s : System τ σ}

/-! ## What a thread knows -/

/-- What each thread knows of the shared state is true whatever the threads do. -/
structure Stable (p : Program κ τ σ ι) (R : τ → σ → Prop) : Prop where
  start : ∀ call c, R (p.start call) c
  self : ∀ x t c, R t c → R (p.advance x t c).1 (p.advance x t c).2
  others : ∀ x t c u, R t c → R u c → R u (p.advance x t c).2

section Stable

variable {R : τ → σ → Prop}

theorem Stable.step (h : Stable p R) (hs : ∀ t ∈ s.threads, R t s.shared) (act : Action κ ι) :
    ∀ t ∈ (step p s act).threads, R t (step p s act).shared := by
  cases act with
  | spawn call =>
    intro t ht
    rcases List.mem_append.1 ht with ht | ht
    · exact hs t ht
    · rw [List.mem_singleton.1 ht]
      exact h.start call _
  | resume i x =>
    cases hi : s.threads[i]? with
    | none => simpa only [Threads.step, hi] using hs
    | some t =>
      have ht := hs t (List.mem_of_getElem? hi)
      rw [step_resume hi]
      intro u hu
      rcases List.mem_or_eq_of_mem_set hu with hu | rfl
      · exact h.others x t s.shared u ht (hs u hu)
      · exact h.self x t s.shared ht

theorem Stable.run (h : Stable p R) (hs : ∀ t ∈ s.threads, R t s.shared) (acts : List (Action κ ι)) :
    ∀ t ∈ (run p s acts).threads, R t (run p s acts).shared := by
  induction acts generalizing s with
  | nil => exact hs
  | cons act acts ih => exact ih (h.step hs act)

end Stable

/-! ## The calls of the threads -/

/-- The call that an action begins. -/
def Action.begins : Action κ ι → Option κ
  | .spawn call => some call
  | .resume _ _ => none

/-- The calls that begin. -/
def begun (acts : List (Action κ ι)) : List κ := acts.filterMap Action.begins

/-- If a thread keeps its call, the threads are those of the calls that began. -/
theorem map_call_run {call : τ → κ} (hstart : ∀ k, call (p.start k) = k)
    (hadvance : ∀ x t c, call (p.advance x t c).1 = call t) (acts : List (Action κ ι)) :
    (run p s acts).threads.map call = s.threads.map call ++ begun acts := by
  induction acts generalizing s with
  | nil => exact (List.append_nil _).symm
  | cons act acts ih =>
    rw [run_cons, ih]
    cases act with
    | spawn k =>
      rw [step, List.map_append, List.map_singleton, hstart, List.append_assoc]
      rfl
    | resume i x =>
      change _ = _ ++ begun acts
      congr 1
      cases hi : s.threads[i]? with
      | none => simp only [step, hi]
      | some t =>
        obtain ⟨hlt, hget⟩ := List.getElem?_eq_some_iff.1 hi
        rw [step_resume hi, List.map_set, hadvance, ← List.map_set, ← hget, List.set_getElem_self]

/-! ## Effects that commute -/

section Effects

variable {α ε : Type*} {effect : τ → Option ε} {op : α → ε → α} {read : σ → α} {R : τ → σ → Prop}

/-- The thread takes effect in one operation, which changes what is read by the effect, and no other one
changes it. -/
structure TakesEffect (p : Program κ τ σ ι) (R : τ → σ → Prop) (effect : τ → Option ε) (op : α → ε → α)
    (read : σ → α) : Prop where
  start : ∀ call, effect (p.start call) = none
  before : ∀ x t c, R t c → effect t = none →
    read (p.advance x t c).2 = (effect (p.advance x t c).1).toList.foldl op (read c)
  after : ∀ x t c, R t c → ∀ e, effect t = some e →
    effect (p.advance x t c).1 = some e ∧ read (p.advance x t c).2 = read c

theorem filterMap_set (effect : τ → Option ε) {threads : List τ} {i : ℕ} {t : τ} (ht : threads[i]? = some t) (t' : τ) :
    ((effect t).toList ++ (threads.set i t').filterMap effect).Perm
      ((effect t').toList ++ threads.filterMap effect) := by
  obtain ⟨hi, hget⟩ := List.getElem?_eq_some_iff.1 ht
  have hsplit : threads.take i ++ t :: threads.drop (i + 1) = threads := by
    rw [← hget, List.getElem_cons_drop, List.take_append_drop]
  have hset : threads.set i t' = threads.take i ++ t' :: threads.drop (i + 1) := by
    rw [List.set_eq_take_append_cons_drop, if_pos hi]
  have hcons (u : τ) (l : List τ) : (u :: l).filterMap effect = (effect u).toList ++ l.filterMap effect := by
    cases hu : effect u with
    | none => rw [List.filterMap_cons_none hu]; rfl
    | some e => rw [List.filterMap_cons_some hu]; rfl
  rw [hset]
  conv_rhs => rw [← hsplit]
  rw [List.filterMap_append, List.filterMap_append, hcons, hcons]
  generalize (threads.take i).filterMap effect = l₁
  generalize (threads.drop (i + 1)).filterMap effect = l₂
  have hout := (List.perm_append_comm_assoc l₁ (effect t').toList l₂).append_left (effect t).toList
  have hin := (List.perm_append_comm_assoc (effect t).toList l₁ l₂).append_left (effect t').toList
  exact hout.trans ((List.perm_append_comm_assoc ..).trans hin)

variable [RightCommutative op]

theorem TakesEffect.step (h : TakesEffect p R effect op read) (hR : ∀ t ∈ s.threads, R t s.shared) {v : α}
    (hread : read s.shared = (s.threads.filterMap effect).foldl op v) (act : Action κ ι) :
    read (step p s act).shared = ((step p s act).threads.filterMap effect).foldl op v := by
  cases act with
  | spawn call =>
    rw [Threads.step, List.filterMap_append, List.filterMap_cons_none (h.start call), List.filterMap_nil,
      List.append_nil, ← hread]
  | resume i x =>
    cases hi : s.threads[i]? with
    | none => simpa only [Threads.step, hi] using hread
    | some t =>
      have hperm := filterMap_set effect hi (p.advance x t s.shared).1
      have ht := hR t (List.mem_of_getElem? hi)
      rw [step_resume hi]
      dsimp only
      cases heffect : effect t with
      | none =>
        rw [heffect, Option.toList_none, List.nil_append] at hperm
        rw [h.before x t _ ht heffect, hread, ← List.foldl_append]
        exact (List.perm_append_comm.trans hperm.symm).foldl_eq v
      | some e =>
        obtain ⟨hsame, hunread⟩ := h.after x t _ ht e heffect
        rw [heffect, hsame] at hperm
        rw [hunread, hread]
        exact ((List.perm_append_left_iff _).1 hperm).symm.foldl_eq v

theorem TakesEffect.run (h : TakesEffect p R effect op read) (hstable : Stable p R)
    (hR : ∀ t ∈ s.threads, R t s.shared) {v : α}
    (hread : read s.shared = (s.threads.filterMap effect).foldl op v) (acts : List (Action κ ι)) :
    read (run p s acts).shared = ((run p s acts).threads.filterMap effect).foldl op v := by
  induction acts generalizing s with
  | nil => exact hread
  | cons act acts ih => exact ih (hstable.step hR act) (h.step hR hread act)

end Effects

/-! ## Progress -/

section Progress

variable {finished busy : τ → Bool} {rank : τ → σ → ℕ} {Works : ι → Prop}

/-- A thread that is not finished has a rank, which gets smaller with each operation of its own that works.
Another one raises it only by an operation with which that one ceases to be busy, and by one. -/
structure Progresses (p : Program κ τ σ ι) (finished busy : τ → Bool) (rank : τ → σ → ℕ) (Works : ι → Prop) :
    Prop where
  stays : ∀ x t c, finished t = true → finished (p.advance x t c).1 = true
  self : ∀ x t c, Works x → finished t = false →
    rank (p.advance x t c).1 (p.advance x t c).2 + 1 ≤ rank t c
  others : ∀ x t c u, rank u (p.advance x t c).2 + (busy (p.advance x t c).1).toNat ≤ rank u c + (busy t).toNat

/-- An operation of the thread. -/
def isTurn (i : ℕ) : Action κ ι → Bool
  | .spawn _ => false
  | .resume j _ => j = i

/-- The action begins a thread. -/
def isSpawn : Action κ ι → Bool
  | .spawn _ => true
  | .resume _ _ => false

/-- How many of the other threads are busy. -/
def othersBusy (busy : τ → Bool) (i : ℕ) (threads : List τ) : ℕ := (threads.eraseIdx i).countP busy

theorem countP_eq_othersBusy (busy : τ → Bool) {i : ℕ} {threads : List τ} {t : τ} (ht : threads[i]? = some t) :
    threads.countP busy = othersBusy busy i threads + (busy t).toNat := by
  obtain ⟨hi, rfl⟩ := List.getElem?_eq_some_iff.1 ht
  rw [othersBusy, ← (List.getElem_cons_eraseIdx_perm hi).countP_eq busy, List.countP_cons]
  cases busy threads[i] <;> rfl

theorem Progresses.step (h : Progresses p finished busy rank Works) {i : ℕ} {t : τ}
    (ht : s.threads[i]? = some t) {act : Action κ ι} (hworks : ∀ x, act = .resume i x → Works x) :
    ∃ t', (step p s act).threads[i]? = some t' ∧ (finished t = true → finished t' = true) ∧
      (finished t = false →
        rank t' (step p s act).shared + othersBusy busy i (step p s act).threads + (isTurn i act).toNat ≤
          rank t s.shared + othersBusy busy i s.threads + (isSpawn act).toNat) := by
  obtain ⟨hi, -⟩ := List.getElem?_eq_some_iff.1 ht
  have hbefore := countP_eq_othersBusy busy ht
  cases act with
  | spawn call =>
    have hget : (s.threads ++ [p.start call])[i]? = some t := (List.getElem?_append_left hi).trans ht
    refine ⟨t, hget, id, fun _ => ?_⟩
    have hone : [p.start call].countP busy ≤ 1 := List.countP_le_length
    have hafter := countP_eq_othersBusy busy hget
    rw [List.countP_append] at hafter
    rw [Threads.step]
    dsimp only [isTurn, isSpawn, Bool.toNat_false, Bool.toNat_true]
    omega
  | resume j x =>
    cases hj : s.threads[j]? with
    | none =>
      have hne : j ≠ i := by
        rintro rfl
        rw [ht] at hj
        cases hj
      have hsame : Threads.step p s (.resume j x) = s := by simp only [Threads.step, hj]
      rw [hsame, isTurn, decide_eq_false hne]
      exact ⟨t, ht, id, fun _ => Nat.le_refl _⟩
    | some u =>
      have hcount := countP_resume (p := p) busy hj x
      rw [step_resume hj] at hcount ⊢
      dsimp only at hcount ⊢
      by_cases hji : j = i
      · subst hji
        rw [ht, Option.some_inj] at hj
        subst hj
        have hget := List.getElem?_set_self (a := (p.advance x t s.shared).1) hi
        refine ⟨_, hget, h.stays x t _, fun hbusy => ?_⟩
        have hself := h.self x t s.shared (hworks x rfl) hbusy
        have hafter := countP_eq_othersBusy busy hget
        rw [isTurn, decide_eq_true rfl]
        dsimp only [isSpawn, Bool.toNat_false, Bool.toNat_true]
        omega
      · have hget := (List.getElem?_set_ne (a := (p.advance x u s.shared).1) hji).trans ht
        refine ⟨t, hget, id, fun _ => ?_⟩
        have hothers := h.others x u s.shared t
        have hafter := countP_eq_othersBusy busy hget
        rw [isTurn, decide_eq_false hji]
        dsimp only [isSpawn, Bool.toNat_false]
        omega

theorem Progresses.run (h : Progresses p finished busy rank Works) {i : ℕ} {t : τ}
    (ht : s.threads[i]? = some t) {acts : List (Action κ ι)} (hworks : ∀ x, .resume i x ∈ acts → Works x) :
    ∃ t', (run p s acts).threads[i]? = some t' ∧ (finished t = true → finished t' = true) ∧
      (finished t' = true ∨
        rank t' (run p s acts).shared + othersBusy busy i (run p s acts).threads + acts.countP (isTurn i) ≤
          rank t s.shared + othersBusy busy i s.threads + acts.countP isSpawn) := by
  induction acts generalizing s t with
  | nil => exact ⟨t, ht, id, .inr (Nat.le_refl _)⟩
  | cons act acts ih =>
    obtain ⟨t', ht', hstays, hdecrease⟩ := h.step ht fun x hx => hworks x (hx ▸ List.mem_cons_self)
    obtain ⟨t'', ht'', hstays', hrun⟩ := ih ht' fun x hx => hworks x (List.mem_cons_of_mem _ hx)
    refine ⟨t'', ht'', fun hfinished => hstays' (hstays hfinished), ?_⟩
    by_cases hfinished : finished t = true
    · exact .inl (hstays' (hstays hfinished))
    · rcases hrun with hdone | hle
      · exact .inl hdone
      · have hone := hdecrease (by simpa using hfinished)
        rw [run_cons, List.countP_cons, List.countP_cons]
        refine .inr ?_
        cases hturn : isTurn i act <;> cases hspawn : isSpawn act <;>
          simp only [hturn, hspawn, Bool.toNat_true, Bool.toNat_false, if_true, if_false,
            Bool.false_eq_true] at hone ⊢ <;>
          omega

/-- A thread that has as many turns as its rank allows for is finished. -/
theorem Progresses.finishes (h : Progresses p finished busy rank Works) {i : ℕ} {t : τ}
    (ht : s.threads[i]? = some t) {acts : List (Action κ ι)} (hworks : ∀ x, .resume i x ∈ acts → Works x)
    (hpositive : ∀ t c, finished t = false → 0 < rank t c)
    (hturns : rank t s.shared + othersBusy busy i s.threads + acts.countP isSpawn ≤ acts.countP (isTurn i)) :
    ∃ t', (Threads.run p s acts).threads[i]? = some t' ∧ finished t' = true := by
  obtain ⟨t', ht', -, hdone | hle⟩ := h.run ht hworks
  · exact ⟨t', ht', hdone⟩
  · refine ⟨t', ht', ?_⟩
    by_contra hnot
    have hrank := hpositive t' (Threads.run p s acts).shared (by simpa using hnot)
    omega

end Progress

end Threads
