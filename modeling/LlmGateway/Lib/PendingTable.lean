import Mathlib.Data.List.Induction
import Mathlib.Data.List.Basic
import Mathlib.Logic.Function.Basic
import Mathlib.Tactic.Common

/-!
# Tables of waiting callers

A call is registered under a key, and its caller waits there until an answer takes the entry.  A key can
be registered again while a caller waits under it, which then waits no longer.

A `Ledger` has the table, and the calls that are outstanding: those that were registered and whose
entry was not taken.  Every entry belongs to an outstanding call (`Backed.step`).  The converse, that every
outstanding call has its entry and shares its key with no call of another owner (`Owned`), is kept by
whatever does not register a key that a call of another owner is outstanding under (`Owned.step`).

The second part is about the history of a table.  If each answer was accepted or refused according to the
table (`History.Sound`), then no more answers were accepted than calls registered.
-/

namespace PendingTable

variable {κ ι γ δ : Type*} [DecidableEq κ]

/-- What is done to a table. -/
inductive Op (κ ι : Type*) where
  | register (call : ι)
  | take (k : κ)
  | skip

/-- How calls are kept: under which key, and who waits. -/
structure Keeping (ι κ γ : Type*) where
  key : ι → κ
  caller : ι → γ

/-- What an operation does to the table. -/
def Op.apply (K : Keeping ι κ γ) : Op κ ι → (κ → Option γ) → κ → Option γ
  | .register call, table => Function.update table (K.key call) (some (K.caller call))
  | .take k, table => Function.update table k none
  | .skip, table => table

/-- Whoever waits after an operation has waited before, or has been registered. -/
theorem Op.apply_eq_some {K : Keeping ι κ γ} {op : Op κ ι} {table : κ → Option γ} {k : κ} {c : γ}
    (h : op.apply K table k = some c) :
    table k = some c ∨ ∃ call, op = .register call ∧ K.key call = k ∧ K.caller call = c := by
  cases op with
  | register call =>
    have h : Function.update table (K.key call) (some (K.caller call)) k = some c := h
    by_cases heq : k = K.key call
    · rw [heq, Function.update_self, Option.some.injEq] at h
      exact Or.inr ⟨call, rfl, heq.symm, h⟩
    · rw [Function.update_of_ne heq] at h
      exact Or.inl h
  | take k' =>
    have h : Function.update table k' none k = some c := h
    by_cases heq : k = k'
    · rw [heq, Function.update_self] at h
      cases h
    · rw [Function.update_of_ne heq] at h
      exact Or.inl h
  | skip => exact Or.inl h

theorem isSome_update (table : κ → Option γ) (k k' : κ) (c : Option γ) :
    (Function.update table k c k').isSome = if k = k' then c.isSome else (table k').isSome := by
  by_cases hk : k = k'
  · rw [if_pos hk, hk, Function.update_self]
  · rw [if_neg hk, Function.update_of_ne (Ne.symm hk)]

/-! ## Outstanding calls -/

/-- A table, and the items that are outstanding. -/
structure Ledger (κ ι γ : Type*) where
  table : κ → Option γ
  outstanding : List ι

namespace Ledger

variable [DecidableEq γ] (K : Keeping ι κ γ)

/-- The calls that are outstanding afterwards.  Taking an entry settles the calls of the caller that
waited there. -/
def settle (op : Op κ ι) (L : Ledger κ ι γ) : List ι :=
  match op with
  | .register call => L.outstanding ++ [call]
  | .take k =>
      L.outstanding.filter fun call => ¬ (K.key call = k ∧ L.table k = some (K.caller call))
  | .skip => L.outstanding

/-- The table and the outstanding items after an operation. -/
def step (op : Op κ ι) (L : Ledger κ ι γ) : Ledger κ ι γ where
  table := op.apply K L.table
  outstanding := L.settle K op

/-- Every entry belongs to an outstanding call. -/
def Backed (L : Ledger κ ι γ) : Prop :=
  ∀ k c, L.table k = some c → ∃ call ∈ L.outstanding, K.key call = k ∧ K.caller call = c

/-- Every outstanding call has its entry, and the calls under one key have one owner, as far as the keys
in `P` are concerned. -/
structure Owned (owner : ι → δ) (P : κ → Prop) (L : Ledger κ ι γ) : Prop where
  entry : ∀ call ∈ L.outstanding, P (K.key call) → L.table (K.key call) = some (K.caller call)
  apart : ∀ call ∈ L.outstanding, ∀ call' ∈ L.outstanding, P (K.key call) →
    K.key call = K.key call' → owner call = owner call'

variable {K}

theorem Backed.step {L : Ledger κ ι γ} (h : L.Backed K) (op : Op κ ι) : (L.step K op).Backed K := by
  intro k c hk
  rcases Op.apply_eq_some hk with hold | ⟨call, rfl, hkey, hcaller⟩
  · obtain ⟨call, hcall, hkey, hcaller⟩ := h k c hold
    cases op with
    | register call' => exact ⟨call, List.mem_append_left _ hcall, hkey, hcaller⟩
    | take k' =>
      refine ⟨call, List.mem_filter.2 ⟨hcall, decide_eq_true ?_⟩, hkey, hcaller⟩
      -- the entry that was taken is gone
      rintro ⟨rfl, -⟩
      have hk : Function.update L.table (K.key call) none k = some c := hk
      rw [hkey, Function.update_self] at hk
      cases hk
    | skip => exact ⟨call, hcall, hkey, hcaller⟩
  · exact ⟨call, List.mem_append_right _ List.mem_cons_self, hkey, hcaller⟩

/-- Whatever is outstanding afterwards was so before, or has been registered. -/
theorem mem_settle {op : Op κ ι} {L : Ledger κ ι γ} {call : ι} (h : call ∈ L.settle K op) :
    call ∈ L.outstanding ∨ op = .register call := by
  cases op with
  | register call' =>
    rcases List.mem_append.1 h with h | h
    · exact Or.inl h
    · exact Or.inr (by rw [List.mem_singleton.1 h])
  | take k => exact Or.inl (List.mem_filter.1 h).1
  | skip => exact Or.inl h

omit [DecidableEq κ] [DecidableEq γ] in
theorem Owned.of_nil {L : Ledger κ ι γ} (h : L.outstanding = []) (owner : ι → δ) (P : κ → Prop) :
    L.Owned K owner P := by
  constructor
  · rw [h]
    exact fun _ hmem => absurd hmem List.not_mem_nil
  · rw [h]
    exact fun _ hmem => absurd hmem List.not_mem_nil

/-- Calls stay with their owners, unless a call of another owner comes under a key that is in use. -/
theorem Owned.step {owner : ι → δ} {P : κ → Prop} {L : Ledger κ ι γ} (h : L.Owned K owner P)
    (op : Op κ ι) (hcaller : ∀ call call', owner call = owner call' → K.caller call = K.caller call')
    (hop : ∀ call, op = .register call → P (K.key call) → ∀ call' ∈ L.outstanding,
      K.key call' = K.key call → owner call' = owner call) :
    (L.step K op).Owned K owner P := by
  cases op with
  | register call =>
    have hother := hop call rfl
    have hmem {call' : ι} (h' : call' ∈ (L.step K (.register call)).outstanding) :
        call' ∈ L.outstanding ∨ call' = call := by
      rcases List.mem_append.1 h' with h' | h'
      · exact Or.inl h'
      · exact Or.inr (List.mem_singleton.1 h')
    constructor
    · intro call' h' hP
      show Function.update L.table (K.key call) (some (K.caller call)) (K.key call') = _
      by_cases heq : K.key call' = K.key call
      · rw [heq, Function.update_self]
        rcases hmem h' with h' | rfl
        · rw [hcaller call' call (hother (heq ▸ hP) call' h' heq)]
        · rfl
      · rw [Function.update_of_ne heq]
        rcases hmem h' with h' | rfl
        · exact h.entry call' h' hP
        · exact absurd rfl heq
    · intro call₁ h₁ call₂ h₂ hP hkey
      rcases hmem h₁ with hold₁ | rfl
      · rcases hmem h₂ with hold₂ | rfl
        · exact h.apart call₁ hold₁ call₂ hold₂ hP hkey
        · exact hother (hkey ▸ hP) call₁ hold₁ hkey
      · rcases hmem h₂ with hold₂ | rfl
        · exact (hother hP call₂ hold₂ hkey.symm).symm
        · rfl
  | take k =>
    constructor
    · intro call hcall hP
      obtain ⟨hcall, hstays⟩ := List.mem_filter.1 hcall
      have hentry := h.entry call hcall hP
      show Function.update L.table k none (K.key call) = _
      by_cases heq : K.key call = k
      · exact absurd ⟨heq, heq ▸ hentry⟩ (of_decide_eq_true hstays)
      · rw [Function.update_of_ne heq, hentry]
    · exact fun call₁ h₁ call₂ h₂ =>
        h.apart call₁ (List.mem_filter.1 h₁).1 call₂ (List.mem_filter.1 h₂).1
  | skip => exact h

end Ledger

/-! ## Histories -/

/-- An operation on a table as it went. -/
inductive Entry (κ : Type*) where
  | registered (k : κ)
  | accepted (k : κ)
  | refused (k : κ)
  | forwarded (k : κ)
  deriving DecidableEq

namespace History

/-- Whether a caller waits under a key after an operation. -/
def waitingAfter (k : κ) (b : Bool) : Entry κ → Bool
  | .registered k' => if k' = k then true else b
  | .accepted k' => if k' = k then false else b
  | _ => b

/-- Whether a caller waits under a key. -/
def waiting (k : κ) (log : List (Entry κ)) : Bool := log.foldl (waitingAfter k) false

/-- Answers are accepted where a caller waits, and refused where none does. -/
structure Sound (log : List (Entry κ)) : Prop where
  accepted (pre post : List (Entry κ)) (k : κ) :
    log = pre ++ .accepted k :: post → waiting k pre = true
  refused (pre post : List (Entry κ)) (k : κ) :
    log = pre ++ .refused k :: post → waiting k pre = false

theorem waiting_concat (k : κ) (log : List (Entry κ)) (e : Entry κ) :
    waiting k (log ++ [e]) = waitingAfter k (waiting k log) e := by
  rw [waiting, List.foldl_append]
  rfl

omit [DecidableEq κ] in
theorem eq_or_prefix_of_concat_eq {log pre post : List (Entry κ)} {e e' : Entry κ}
    (h : log ++ [e] = pre ++ e' :: post) : (log = pre ∧ e = e') ∨ ∃ post', log = pre ++ e' :: post' := by
  induction post using List.reverseRecOn with
  | nil =>
      obtain ⟨hlog, he⟩ := List.append_inj' h rfl
      exact Or.inl ⟨hlog, List.head_eq_of_cons_eq he⟩
  | append_singleton post e'' _ =>
      rw [← List.cons_append, ← List.append_assoc] at h
      exact Or.inr ⟨post, (List.append_inj' h rfl).1⟩

theorem Sound.concat {log : List (Entry κ)} (h : Sound log) {e : Entry κ}
    (haccepted : ∀ k, e = .accepted k → waiting k log = true)
    (hrefused : ∀ k, e = .refused k → waiting k log = false) : Sound (log ++ [e]) := by
  constructor
  · intro pre post k heq
    rcases eq_or_prefix_of_concat_eq heq with ⟨rfl, he⟩ | ⟨post', hlog⟩
    · exact haccepted k he
    · exact h.accepted pre post' k hlog
  · intro pre post k heq
    rcases eq_or_prefix_of_concat_eq heq with ⟨rfl, he⟩ | ⟨post', hlog⟩
    · exact hrefused k he
    · exact h.refused pre post' k hlog

theorem Sound.register {log : List (Entry κ)} (h : Sound log) (k : κ) : Sound (log ++ [.registered k]) :=
  h.concat (fun _ he => by cases he) (fun _ he => by cases he)

theorem Sound.accept {log : List (Entry κ)} (h : Sound log) {k : κ} (hwaits : waiting k log = true) :
    Sound (log ++ [.accepted k]) := by
  refine h.concat (fun k' he => ?_) (fun _ he => by cases he)
  cases he
  exact hwaits

theorem Sound.refuse {log : List (Entry κ)} (h : Sound log) {k : κ} (hnone : waiting k log = false) :
    Sound (log ++ [.refused k]) := by
  refine h.concat (fun _ he => by cases he) (fun k' he => ?_)
  cases he
  exact hnone

theorem Sound.forward {log : List (Entry κ)} (h : Sound log) (k : κ) : Sound (log ++ [.forwarded k]) :=
  h.concat (fun _ he => by cases he) (fun _ he => by cases he)

theorem Sound.of_append {log log' : List (Entry κ)} (h : Sound (log ++ log')) : Sound log where
  accepted pre post k hlog := h.accepted pre (post ++ log') k (by rw [hlog]; simp)
  refused pre post k hlog := h.refused pre (post ++ log') k (by rw [hlog]; simp)

/-- Under every key no more answers are accepted than calls registered, and one fewer while a caller
waits. -/
theorem Sound.count_accepted {log : List (Entry κ)} (h : Sound log) (k : κ) :
    log.count (.accepted k) + (waiting k log).toNat ≤ log.count (.registered k) := by
  induction log using List.reverseRecOn with
  | nil => exact Nat.le_refl _
  | append_singleton log e ih =>
      have ih := ih h.of_append
      rw [waiting_concat, List.count_append, List.count_append]
      cases e with
      | registered k' =>
        by_cases hk : k' = k
        · subst hk
          simp [waitingAfter]
          omega
        · simpa [waitingAfter, hk] using ih
      | accepted k' =>
        by_cases hk : k' = k
        · subst hk
          have hwaits := h.accepted log [] k' rfl
          rw [hwaits] at ih
          simpa [waitingAfter] using ih
        · simpa [waitingAfter, hk] using ih
      | refused k' => simpa [waitingAfter] using ih
      | forwarded k' => simpa [waitingAfter] using ih

/-- Of the answers to one key between two registrations, the first one is accepted if a caller waits, and
no other. -/
theorem Sound.count_accepted_between {pre mid : List (Entry κ)} (h : Sound (pre ++ mid)) {k : κ}
    (hmid : .registered k ∉ mid) :
    mid.count (.accepted k) + (waiting k (pre ++ mid)).toNat = (waiting k pre).toNat := by
  induction mid using List.reverseRecOn with
  | nil => rw [List.append_nil, List.count_nil, Nat.zero_add]
  | append_singleton mid e ih =>
      rw [List.mem_append, not_or] at hmid
      rw [← List.append_assoc] at h ⊢
      have ih := ih h.of_append hmid.1
      rw [waiting_concat, List.count_append]
      cases e with
      | registered k' =>
        have hk : k' ≠ k := by
          rintro rfl
          exact hmid.2 List.mem_cons_self
        simpa [waitingAfter, hk] using ih
      | accepted k' =>
        by_cases hk : k' = k
        · subst hk
          have hwaits := h.accepted (pre ++ mid) [] k' rfl
          rw [hwaits] at ih
          simpa [waitingAfter] using ih
        · simpa [waitingAfter, hk] using ih
      | refused k' => simpa [waitingAfter] using ih
      | forwarded k' => simpa [waitingAfter] using ih

/-- Of the answers that come between two registrations, exactly one is accepted if a caller waits. -/
theorem Sound.count_accepted_eq_one {pre mid : List (Entry κ)} (h : Sound (pre ++ mid)) {k : κ}
    (hmid : .registered k ∉ mid) (hwaits : waiting k pre = true)
    (hanswer : .accepted k ∈ mid ∨ .refused k ∈ mid) : mid.count (.accepted k) = 1 := by
  have hcount := h.count_accepted_between hmid
  rw [hwaits, Bool.toNat_true] at hcount
  refine Nat.le_antisymm (by omega) (List.count_pos_iff.2 ?_)
  rcases hanswer with hmem | hmem
  · exact hmem
  · -- a refusal means that the caller has waited no longer
    obtain ⟨mid₁, mid₂, rfl⟩ := List.append_of_mem hmem
    rw [List.mem_append, not_or] at hmid
    have hsound : Sound (pre ++ mid₁) := by
      rw [← List.append_assoc] at h
      exact h.of_append
    have hbefore := hsound.count_accepted_between hmid.1
    rw [h.refused (pre ++ mid₁) mid₂ k (List.append_assoc _ _ _).symm, hwaits] at hbefore
    have hpos : 0 < mid₁.count (.accepted k) := by
      rw [Bool.toNat_true, Bool.toNat_false] at hbefore
      omega
    exact List.mem_append_left _ (List.count_pos_iff.1 hpos)

end History

end PendingTable
