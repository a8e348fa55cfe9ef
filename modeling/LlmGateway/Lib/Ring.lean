import Mathlib.Algebra.BigOperators.Group.Finset.Basic
import Mathlib.Algebra.Order.BigOperators.Group.Finset
import Mathlib.Data.Fintype.Basic
import Mathlib.Data.List.GetD
import Mathlib.Data.Nat.ModEq
import Mathlib.Tactic.Common

/-!
# A ring of slots

An array of `n` slots that are written in turn and read in turn, at the positions of two counters that only
grow; `slot` is the slot of a position.  A slot that holds nothing has the value `blank`.

`Holds` says what the slots hold from the position of the reader on.  A write adds to it as long as there is a
free slot (`Holds.write`), and a read takes the first value (`Holds.read`).  A writer that goes once around the
ring without a read comes to a slot that is in use (`Filled.next`); what it overwrites is lost, which a weight
of the values shows (`total_update`).
-/

namespace Ring

variable {α : Type*} {n : ℕ} [NeZero n]

/-- The slot of a position. -/
def slot (n : ℕ) [NeZero n] (k : ℕ) : Fin n := Fin.ofNat n k

theorem slot_eq_iff {k k' : ℕ} : slot n k = slot n k' ↔ k % n = k' % n := by
  rw [slot, slot, Fin.ext_iff]
  rfl

theorem slot_add_congr {k k' : ℕ} (h : slot n k = slot n k') (i : ℕ) : slot n (k + i) = slot n (k' + i) := by
  rw [slot_eq_iff] at h ⊢
  rw [Nat.add_mod, h, ← Nat.add_mod]

/-- Positions that are less than a round apart have distinct slots. -/
theorem slot_add_inj {r i j : ℕ} (hi : i < n) (hj : j < n) : slot n (r + i) = slot n (r + j) ↔ i = j := by
  refine ⟨fun h => ?_, fun h => h ▸ rfl⟩
  have hmod : (r + i) % n = (r + j) % n := slot_eq_iff.1 h
  have hij : i % n = j % n := Nat.ModEq.add_left_cancel' r hmod
  rwa [Nat.mod_eq_of_lt hi, Nat.mod_eq_of_lt hj] at hij

theorem slot_add_self (r : ℕ) : slot n (r + n) = slot n r := by
  rw [slot_eq_iff, Nat.add_mod_right]

/-! ## What the slots hold -/

/-- From the position `r` on, the slots hold the values `xs`, and then nothing. -/
structure Holds (blank : α) (slots : Fin n → α) (r : ℕ) (xs : List α) : Prop where
  room : xs.length ≤ n
  slots_eq : ∀ i < n, slots (slot n (r + i)) = xs.getD i blank

variable {blank : α} {slots : Fin n → α} {r : ℕ} {xs : List α}

theorem holds_nil (r : ℕ) : Holds blank (fun _ : Fin n => blank) r [] :=
  ⟨Nat.zero_le n, fun _ _ => rfl⟩

theorem Holds.congr (h : Holds blank slots r xs) {r' : ℕ} (hr : slot n r = slot n r') :
    Holds blank slots r' xs :=
  ⟨h.room, fun i hi => by rw [← slot_add_congr hr, h.slots_eq i hi]⟩

theorem Holds.write (h : Holds blank slots r xs) (hroom : xs.length < n) (x : α) :
    Holds blank (Function.update slots (slot n (r + xs.length)) x) r (xs ++ [x]) where
  room := by
    rw [List.length_append, List.length_singleton]
    exact hroom
  slots_eq i hi := by
    by_cases hlast : i = xs.length
    · subst hlast
      rw [Function.update_self]
      simp
    · rw [Function.update_of_ne fun h => hlast ((slot_add_inj hi hroom).1 h), h.slots_eq i hi]
      rcases Nat.lt_or_gt_of_ne hlast with hlt | hgt
      · rw [List.getD_append _ _ _ _ hlt]
      · rw [List.getD_eq_default _ _ hgt.le, List.getD_eq_default]
        rw [List.length_append, List.length_singleton]
        exact hgt

theorem Holds.head {x : α} (h : Holds blank slots r (x :: xs)) : slots (slot n r) = x :=
  h.slots_eq 0 (Nat.pos_of_neZero n)

theorem Holds.read {x : α} (h : Holds blank slots r (x :: xs)) :
    Holds blank (Function.update slots (slot n r) blank) (r + 1) xs where
  room := (Nat.le_succ _).trans h.room
  slots_eq i hi := by
    rw [Nat.add_assoc, Nat.add_comm 1 i]
    rcases Nat.lt_or_ge (i + 1) n with hlt | hge
    · have hne : slot n (r + (i + 1)) ≠ slot n r := fun heq =>
        Nat.succ_ne_zero i ((slot_add_inj (r := r) hlt (Nat.pos_of_neZero n)).1 heq)
      rw [Function.update_of_ne hne, h.slots_eq (i + 1) hlt]
      rfl
    · -- the last slot is the one that was read
      have hn : i + 1 = n := Nat.le_antisymm hi hge
      have hlen : xs.length ≤ i := Nat.le_of_succ_le_succ (h.room.trans hge)
      rw [hn, slot_add_self, Function.update_self, List.getD_eq_default _ _ hlen]

/-! ## A writer that is not followed -/

/-- The slots of the `k` positions from `r` on are in use. -/
def Filled (blank : α) (slots : Fin n → α) (r k : ℕ) : Prop := ∀ i < k, slots (slot n (r + i)) ≠ blank

theorem filled_zero (blank : α) (slots : Fin n → α) (r : ℕ) : Filled blank slots r 0 :=
  fun _ h => absurd h (Nat.not_lt_zero _)

theorem Filled.write {k : ℕ} (h : Filled blank slots r k) {x : α} (hx : x ≠ blank) :
    Filled blank (Function.update slots (slot n (r + k)) x) r (k + 1) := by
  intro i hi
  by_cases heq : slot n (r + i) = slot n (r + k)
  · rwa [heq, Function.update_self]
  · rw [Function.update_of_ne heq]
    have hne : i ≠ k := fun hik => heq (hik ▸ rfl)
    exact h i (Nat.lt_of_le_of_ne (Nat.le_of_lt_succ hi) hne)

/-- After a round the next slot is in use. -/
theorem Filled.next {k : ℕ} (h : Filled blank slots r k) (hk : n ≤ k) : slots (slot n (r + k)) ≠ blank := by
  have hback : slot n (r + k) = slot n (r + (k - n)) := by
    rw [← slot_add_self (r + (k - n)), Nat.add_assoc, Nat.sub_add_cancel hk]
  rw [hback]
  exact h (k - n) (Nat.sub_lt (hk.trans_lt' (Nat.pos_of_neZero n)) (Nat.pos_of_neZero n))

/-! ## Weights -/

section Weight

variable (weight : α → ℕ)

omit [NeZero n] in
/-- The weight of all slots. -/
def total (slots : Fin n → α) : ℕ := ∑ i, weight (slots i)

omit [NeZero n] in
/-- A write adds the weight of the new value and takes away that of the old one. -/
theorem total_update (slots : Fin n → α) (i : Fin n) (x : α) :
    total weight (Function.update slots i x) + weight (slots i) = total weight slots + weight x := by
  have hsame : ∀ j ∈ Finset.univ.erase i, weight (Function.update slots i x j) = weight (slots j) :=
    fun j hj => by rw [Function.update_of_ne (Finset.ne_of_mem_erase hj)]
  rw [total, total, ← Finset.add_sum_erase _ _ (Finset.mem_univ i),
    ← Finset.add_sum_erase _ (fun j => weight (slots j)) (Finset.mem_univ i), Function.update_self,
    Finset.sum_congr rfl hsame]
  omega

end Weight

end Ring
