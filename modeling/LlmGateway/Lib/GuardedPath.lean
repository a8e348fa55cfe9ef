import Mathlib.Logic.Relation
import Mathlib.Tactic.Common

/-!
# Paths into open nodes

A graph `R` and the set `A` of its open nodes.  A guarded path has at least one edge, and every node
after its first one is open (`Guarded`).

When a node `k` closes, a path that came through it is lost, but what it led to is still reached from
`k` itself (`Guarded.cut`).  So a node other than `k` is reached from `k` as before
(`guarded_close_iff`), and closing `k` loses nothing that is reached from a set of starting points, as
long as `k` is added to them (`guarded_close_or_iff`).
-/

namespace GuardedPath

variable {κ : Type*} {R : κ → κ → Prop} {A : κ → Prop} {k x d : κ}

/-- A path from a node whose later nodes are open. -/
def Guarded (R : κ → κ → Prop) (A : κ → Prop) : κ → κ → Prop :=
  Relation.TransGen fun a b => R a b ∧ A b

/-- The open nodes after `k` is closed. -/
def Closing (A : κ → Prop) (k : κ) : κ → Prop := fun b => A b ∧ b ≠ k

theorem Guarded.open_end (h : Guarded R A x d) : A d := by
  obtain ⟨a, -, -, hd⟩ := Relation.TransGen.tail'_iff.1 h
  exact hd

theorem Guarded.mono {A' : κ → Prop} (hA : ∀ b, A b → A' b) (h : Guarded R A x d) :
    Guarded R A' x d :=
  Relation.TransGen.mono (fun _ b hb => ⟨hb.1, hA b hb.2⟩) x d h

theorem Guarded.of_closing (h : Guarded R (Closing A k) x d) : Guarded R A x d :=
  h.mono fun _ hb => hb.1

/-- A path ends at `k`, or avoids it, or can be cut short at it. -/
theorem Guarded.cut (h : Guarded R A x d) (k : κ) :
    d = k ∨ Guarded R (Closing A k) x d ∨ Guarded R (Closing A k) k d := by
  induction h with
  | @single b hb =>
      by_cases hk : b = k
      · exact Or.inl hk
      · exact Or.inr (Or.inl (.single ⟨hb.1, hb.2, hk⟩))
  | @tail b c _ hc ih =>
      by_cases hk : c = k
      · exact Or.inl hk
      · have hedge : R b c ∧ Closing A k c := ⟨hc.1, hc.2, hk⟩
        rcases ih with rfl | hx | hk
        · exact Or.inr (Or.inr (.single hedge))
        · exact Or.inr (Or.inl (hx.tail hedge))
        · exact Or.inr (Or.inr (hk.tail hedge))

/-- Closing the node that a path starts at changes nothing. -/
theorem guarded_close_iff (hd : d ≠ k) : Guarded R (Closing A k) k d ↔ Guarded R A k d := by
  constructor
  · exact Guarded.of_closing
  · intro h
    rcases h.cut k with hk | hk | hk
    · exact absurd hk hd
    · exact hk
    · exact hk

/-- Closing a node loses nothing that is reached from it or from one of the nodes of `S`. -/
theorem guarded_close_or_iff (S : κ → Prop) (hd : d ≠ k) :
    (Guarded R (Closing A k) k d ∨ ∃ x, S x ∧ Guarded R (Closing A k) x d) ↔
      Guarded R A k d ∨ ∃ x, S x ∧ Guarded R A x d := by
  rw [guarded_close_iff hd]
  constructor
  · rintro (h | ⟨x, hx, h⟩)
    · exact Or.inl h
    · exact Or.inr ⟨x, hx, h.of_closing⟩
  · rintro (h | ⟨x, hx, h⟩)
    · exact Or.inl h
    · rcases h.cut k with hk | hx' | hk
      · exact absurd hk hd
      · exact Or.inr ⟨x, hx, hx'⟩
      · exact Or.inl hk.of_closing

end GuardedPath
