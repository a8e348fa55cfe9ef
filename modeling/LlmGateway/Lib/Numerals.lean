import Mathlib.Data.Fin.Basic
import Mathlib.Tactic.Common

/-!
# Numerals

Numbers in writing, as they stand in file names.  The digits of a number determine it, in every base up
to sixteen (`toDigits_injective`), and so does the decimal numeral of an integer, however many zeros
stand before it (`zeros_append_toString_inj`).
-/

namespace Numerals

theorem digitChar_inj {m n : ℕ} (hm : m < 16) (hn : n < 16)
    (h : Nat.digitChar m = Nat.digitChar n) : m = n := by
  have hfin : ∀ m n : Fin 16, Nat.digitChar m = Nat.digitChar n → m = n := by decide
  exact congrArg Fin.val (hfin ⟨m, hm⟩ ⟨n, hn⟩ h)

/-- A numeral of several digits is the numeral of the rest and the last digit. -/
theorem toDigits_of_le {b n : ℕ} (hb : 1 < b) (h : b ≤ n) :
    Nat.toDigits b n = Nat.toDigits b (n / b) ++ [Nat.digitChar (n % b)] := by
  rw [Nat.toDigits_eq_if hb, if_neg (Nat.not_lt.2 h)]

theorem length_toDigits_of_le {b n : ℕ} (hb : 1 < b) (h : b ≤ n) :
    1 < (Nat.toDigits b n).length := by
  have hpos : 0 < (Nat.toDigits b (n / b)).length := Nat.length_toDigits_pos
  rw [toDigits_of_le hb h, List.length_append, List.length_singleton]
  omega

theorem toDigits_injective {b : ℕ} (hb : 1 < b) (hb' : b ≤ 16) :
    Function.Injective (Nat.toDigits b) := by
  intro m
  induction m using Nat.strong_induction_on with
  | _ m ih =>
      intro n h
      have hlength := congrArg List.length h
      rcases Nat.lt_or_ge m b with hm | hm
      · rw [Nat.toDigits_of_lt_base hm] at h hlength
        have hn : n < b := by
          by_contra hn
          have hlong := length_toDigits_of_le hb (Nat.not_lt.1 hn)
          rw [← hlength] at hlong
          exact absurd hlong (by simp)
        rw [Nat.toDigits_of_lt_base hn, List.singleton_inj] at h
        exact digitChar_inj (by omega) (by omega) h
      · have hlong := length_toDigits_of_le hb hm
        have hn : b ≤ n := by
          by_contra hn
          rw [hlength, Nat.toDigits_of_lt_base (Nat.not_le.1 hn)] at hlong
          exact absurd hlong (by simp)
        rw [toDigits_of_le hb hm, toDigits_of_le hb hn] at h
        obtain ⟨hrest, hlast⟩ := List.append_inj' h rfl
        have hdiv : m / b = n / b := ih (m / b) (Nat.div_lt_self (by omega) hb) hrest
        have hm₀ : m % b < b := Nat.mod_lt m (by omega)
        have hn₀ : n % b < b := Nat.mod_lt n (by omega)
        have hmod : m % b = n % b :=
          digitChar_inj (by omega) (by omega) (List.singleton_inj.1 hlast)
        rw [← Nat.div_add_mod m b, ← Nat.div_add_mod n b, hdiv, hmod]

theorem mem_toDigits {b n : ℕ} (hb : 1 < b) {c : Char} (h : c ∈ Nat.toDigits b n) :
    ∃ d < b, c = Nat.digitChar d := by
  induction n using Nat.base_induction b hb with
  | single m hm =>
    rw [Nat.toDigits_of_lt_base hm, List.mem_singleton] at h
    exact ⟨m, hm, h⟩
  | digit m k hk hm ih =>
    rw [← Nat.toDigits_append_toDigits hb hm hk, Nat.toDigits_of_lt_base hk, List.mem_append,
      List.mem_singleton] at h
    rcases h with h | rfl
    · exact ih h
    · exact ⟨k, hk, rfl⟩

/-! ## Decimal numerals of integers -/

theorem toList_toString_ofNat (n : ℕ) : (toString (n : ℤ)).toList = Nat.toDigits 10 n :=
  Nat.toList_repr

theorem toList_toString_negSucc (n : ℕ) :
    (toString (Int.negSucc n)).toList = '-' :: Nat.toDigits 10 (n + 1) := by
  show ("-" ++ Nat.repr (n + 1)).toList = _
  rw [String.toList_append, Nat.toList_repr]
  rfl

/-- Reading a numeral gives the absolute value, since neither the sign nor the zeros count. -/
theorem ofDigitChars_zeros_append (k : ℕ) (n : ℤ) :
    Nat.ofDigitChars 10 (List.replicate k '0' ++ (toString n).toList) 0 = n.natAbs := by
  rw [Nat.ofDigitChars_append, Nat.ofDigitChars_replicate_zero, Nat.mul_zero]
  cases n with
  | ofNat n =>
    show Nat.ofDigitChars 10 (toString (n : ℤ)).toList 0 = n
    rw [toList_toString_ofNat, Nat.ofDigitChars_ten_toDigits]
  | negSucc n =>
    rw [toList_toString_negSucc, Nat.ofDigitChars_cons]
    exact Nat.ofDigitChars_ten_toDigits

theorem minus_notMem_toDigits (n : ℕ) : '-' ∉ Nat.toDigits 10 n := by
  intro h
  obtain ⟨d, hd, hc⟩ := mem_toDigits (by decide) h
  have hfin : ∀ d : Fin 10, '-' ≠ Nat.digitChar d := by decide
  exact hfin ⟨d, hd⟩ hc

/-- A numeral has a sign exactly if the number is negative. -/
theorem minus_mem_zeros_append (k : ℕ) (n : ℤ) :
    '-' ∈ List.replicate k '0' ++ (toString n).toList ↔ n < 0 := by
  have hzeros : '-' ∉ List.replicate k '0' := by simp [List.mem_replicate]
  rw [List.mem_append, or_iff_right hzeros]
  cases n with
  | ofNat n =>
    show '-' ∈ (toString (n : ℤ)).toList ↔ (n : ℤ) < 0
    rw [toList_toString_ofNat]
    exact iff_of_false (minus_notMem_toDigits n) (by omega)
  | negSucc n =>
    rw [toList_toString_negSucc]
    exact iff_of_true List.mem_cons_self (Int.negSucc_lt_zero n)

theorem zeros_append_toString_inj {k k' : ℕ} {m n : ℤ}
    (h : List.replicate k '0' ++ (toString m).toList =
      List.replicate k' '0' ++ (toString n).toList) : m = n := by
  have habs : m.natAbs = n.natAbs := by
    rw [← ofDigitChars_zeros_append k m, h, ofDigitChars_zeros_append]
  have hsign : m < 0 ↔ n < 0 := by
    rw [← minus_mem_zeros_append k m, h, minus_mem_zeros_append]
  omega

end Numerals
