import Mathlib.Data.Set.Finite.Basic
import Mathlib.Logic.Relation
import Mathlib.Order.WellFoundedSet
import Mathlib.Tactic.Common

/-!
# Tasks that depend on others

A finite set of tasks, where `dep a b` says that `b` needs `a`, and no task needs itself, directly or not.
A task can have a result (`settled`), and a settled task can be a success (`done`).  A task is due if it has
no result and all that it needs is done.

Each task that is held up waits for one that settled without success, or for a due one:
`exists_due_iff` says that something is due exactly if some open task needs no such one, directly or not.

Tasks can be executed in rounds: in each one all that are due settle.  `mem_settledAfter_iff` says which have
settled after some rounds, by the lengths of the chains of needs.
-/

namespace DependencyOrder

open Relation

variable {α : Type*}

/-- No task needs itself. -/
def Acyclic (dep : α → α → Prop) : Prop := ∀ a, ¬TransGen dep a a

/-- What a success needs, directly or not, are successes. -/
theorem done_of_transGen {dep : α → α → Prop} {done : α → Prop}
    (hclosed : ∀ b, done b → ∀ a, dep a b → done a) {a b : α} (h : TransGen dep a b)
    (hb : ∀ a, dep a b → done a) : done a := by
  induction h using TransGen.head_induction_on with
  | single hab => exact hb _ hab
  | head hac _ ih => exact hclosed _ ih _ hac

section Minimal

variable {dep : α → α → Prop} (hacyclic : Acyclic dep)
include hacyclic

/-- Among finitely many tasks there is one that needs no other one of them. -/
theorem exists_minimal {s : Set α} (hfinite : s.Finite) (hs : s.Nonempty) :
    ∃ b ∈ s, ∀ a ∈ s, ¬TransGen dep a b := by
  have : IsStrictOrder α (TransGen dep) :=
    { irrefl := hacyclic, trans := fun _ _ _ => TransGen.trans }
  have hwf : s.WellFoundedOn (TransGen dep) := hfinite.wellFoundedOn
  obtain ⟨b, hb⟩ := hs
  obtain ⟨⟨m, hm⟩, -, hmin⟩ := hwf.has_min Set.univ ⟨⟨b, hb⟩, trivial⟩
  exact ⟨m, hm, fun a ha => hmin ⟨a, ha⟩ trivial⟩

/-- Something is due exactly if some open task needs no task, directly or not, that settled without success. -/
theorem exists_due_iff {nodes : Set α} (hfinite : nodes.Finite) (hnodes : ∀ a b, dep a b → a ∈ nodes)
    (settled : α → Prop) {done : α → Prop} (hclosed : ∀ b, done b → ∀ a, dep a b → done a) :
    (∃ b ∈ nodes, ¬settled b ∧ ∀ a, dep a b → done a) ↔
      ∃ b ∈ nodes, ¬settled b ∧ ∀ a, TransGen dep a b → settled a → done a := by
  constructor
  · rintro ⟨b, hb, hopen, hneeds⟩
    exact ⟨b, hb, hopen, fun a ha _ => done_of_transGen hclosed ha hneeds⟩
  · rintro ⟨b, hb, hopen, hneeds⟩
    -- a minimal one of the open tasks that need no failed one
    have hsub : {b ∈ nodes | ¬settled b ∧ ∀ a, TransGen dep a b → settled a → done a} ⊆ nodes := fun _ h => h.1
    obtain ⟨m, ⟨hm, hmopen, hmneeds⟩, hmin⟩ :=
      exists_minimal hacyclic (hfinite.subset hsub) ⟨b, hb, hopen, hneeds⟩
    refine ⟨m, hm, hmopen, fun a ha => ?_⟩
    by_contra hdone
    have hsettled : ¬settled a := fun h => hdone (hmneeds a (.single ha) h)
    exact hmin a ⟨hnodes a m ha, hsettled, fun c hc => hmneeds c (hc.tail ha)⟩ (.single ha)

end Minimal

/-! ## Rounds -/

section Rounds

variable {dep : α → α → Prop}

/-- The chains of needs that start at the task have at most so many tasks. -/
def Within (dep : α → α → Prop) : ℕ → α → Prop
  | 0, _ => False
  | k + 1, b => ∀ a, dep a b → Within dep k a

theorem within_iff {k : ℕ} {b : α} : Within dep k b ↔
    ∀ rest : List α, List.IsChain (fun b a => dep a b) (b :: rest) → rest.length < k := by
  induction k generalizing b with
  | zero => exact iff_of_false id fun h => Nat.not_lt_zero _ (h [] (.singleton b))
  | succ k ih =>
    constructor
    · intro h rest hchain
      cases rest with
      | nil => exact Nat.zero_lt_succ k
      | cons a rest =>
        obtain ⟨hdep, hchain⟩ := List.isChain_cons_cons.1 hchain
        exact Nat.succ_lt_succ (ih.1 (h a hdep) rest hchain)
    · intro h a hdep
      refine ih.2 fun rest hchain => ?_
      exact Nat.lt_of_succ_lt_succ (h (a :: rest) (List.isChain_cons_cons.2 ⟨hdep, hchain⟩))

theorem Within.succ {k : ℕ} {b : α} (h : Within dep k b) : Within dep (k + 1) b :=
  within_iff.2 fun rest hchain => (within_iff.1 h rest hchain).trans (Nat.lt_succ_self k)

/-- A chain of needs has no task twice, so none is longer than the list of the tasks. -/
theorem within_length (hacyclic : Acyclic dep) {nodes : List α} (hnodes : ∀ a b, dep a b → a ∈ nodes) {b : α}
    (hb : b ∈ nodes) : Within dep nodes.length b := by
  refine within_iff.2 fun rest hchain => ?_
  have hpairwise : (b :: rest).Pairwise fun b a => TransGen dep a b := by
    have : IsTrans α fun b a => TransGen dep a b := ⟨fun _ _ _ h h' => h'.trans h⟩
    have htrans : List.IsChain (fun b a => TransGen dep a b) (b :: rest) :=
      hchain.imp fun c a h => (TransGen.single h : TransGen dep a c)
    exact htrans.pairwise
  have hnodup : (b :: rest).Nodup := by
    refine List.Pairwise.imp (fun {c a} h heq => ?_) hpairwise
    rw [heq] at h
    exact hacyclic a h
  have hsub : b :: rest ⊆ nodes := by
    intro a ha
    rcases List.mem_cons.1 ha with rfl | ha
    · exact hb
    · obtain ⟨c, hc, -⟩ := TransGen.head'_iff.1 ((List.pairwise_cons.1 hpairwise).1 a ha)
      exact hnodes a c hc
  exact (List.subperm_of_subset hnodup hsub).length_le

/-- What has settled after some rounds, if just the tasks of `ok` are successes. -/
def settledAfter (nodes : Set α) (dep : α → α → Prop) (ok : α → Prop) : ℕ → Set α
  | 0 => ∅
  | k + 1 => settledAfter nodes dep ok k ∪ {b ∈ nodes | ∀ a, dep a b → a ∈ settledAfter nodes dep ok k ∧ ok a}

/-- A task settles in the round of the longest chain of its needs, if all of them are successes. -/
theorem mem_settledAfter_iff {nodes : Set α} (hnodes : ∀ a b, dep a b → a ∈ nodes) {ok : α → Prop} {k : ℕ}
    {b : α} : b ∈ settledAfter nodes dep ok k ↔
      b ∈ nodes ∧ Within dep k b ∧ ∀ a, TransGen dep a b → ok a := by
  induction k generalizing b with
  | zero => exact iff_of_false id fun h => h.2.1
  | succ k ih =>
    rw [settledAfter, Set.mem_union, ih]
    constructor
    · rintro (⟨hb, hwithin, hok⟩ | ⟨hb, hdone⟩)
      · exact ⟨hb, hwithin.succ, hok⟩
      · refine ⟨hb, fun a ha => (ih.1 (hdone a ha).1).2.1, fun a ha => ?_⟩
        obtain ⟨c, hac, hcb⟩ := TransGen.tail'_iff.1 ha
        rcases Relation.reflTransGen_iff_eq_or_transGen.1 hac with rfl | hac
        · exact (hdone _ hcb).2
        · exact (ih.1 (hdone c hcb).1).2.2 a hac
    · rintro ⟨hb, hwithin, hok⟩
      refine Or.inr ⟨hb, fun a ha => ⟨ih.2 ⟨hnodes a b ha, hwithin a ha, fun c hc => ?_⟩, hok a (.single ha)⟩⟩
      exact hok c (hc.tail ha)

end Rounds

end DependencyOrder
