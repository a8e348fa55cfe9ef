import Mathlib.Data.List.Infix

/-!
# Longest suffixes

`LongestSuffix P s l`: among the suffixes of `s` with the property `P`, `l` is the longest one.

A list that grows at its end can be cut down to this suffix step by step: if `P` is kept when the last element
goes, the longest suffix of `s ++ [x]` is that of `l ++ [x]`, where `l` is the longest suffix of `s`
(`LongestSuffix.snoc_iff`).  And a cut for two properties can be made one after the other, if the first one is
kept by the second cut (`LongestSuffix.and`).
-/

variable {α : Type*} {P Q : List α → Prop} {s l m : List α} {x : α}

/-- `l` is the longest suffix of `s` with `P`. -/
structure LongestSuffix (P : List α → Prop) (s l : List α) : Prop where
  suffix : l <:+ s
  holds : P l
  longest : ∀ l', l' <:+ s → P l' → l' <:+ l

namespace LongestSuffix

/-! ## Cutting at the front -/

theorem self (h : P s) : LongestSuffix P s s := ⟨List.suffix_rfl, h, fun _ hl _ => hl⟩

theorem congr (h : LongestSuffix P s l) (hPQ : ∀ m, P m ↔ Q m) : LongestSuffix Q s l :=
  ⟨h.suffix, (hPQ l).1 h.holds, fun l' hl' hQ => h.longest l' hl' ((hPQ l').2 hQ)⟩

/-- If the whole list does not have the property, its first element goes. -/
theorem cons (hx : ¬P (x :: s)) (h : LongestSuffix P s l) : LongestSuffix P (x :: s) l where
  suffix := h.suffix.trans (List.suffix_cons x s)
  holds := h.holds
  longest l' hl' hP := by
    rcases List.suffix_cons_iff.1 hl' with rfl | hl'
    · exact absurd hP hx
    · exact h.longest l' hl' hP

/-- A cut for `P`, then a cut for `Q` that keeps `P`, is a cut for both. -/
theorem and (h : LongestSuffix P s l) (h' : LongestSuffix Q l m) (hP : ∀ {l m}, m <:+ l → P l → P m) :
    LongestSuffix (fun l => P l ∧ Q l) s m where
  suffix := h'.suffix.trans h.suffix
  holds := ⟨hP h'.suffix h.holds, h'.holds⟩
  longest l' hl' hPQ := h'.longest l' (h.longest l' hl' hPQ.1) hPQ.2

/-! ## Growing at the end -/

/-- Only the longest suffix so far matters for the longest suffix later. -/
theorem snoc_iff (h : LongestSuffix P s l) (hP : ∀ {m y}, P (m ++ [y]) → P m) :
    LongestSuffix P (s ++ [x]) m ↔ LongestSuffix P (l ++ [x]) m := by
  have hsame : ∀ l', P l' → (l' <:+ s ++ [x] ↔ l' <:+ l ++ [x]) := by
    intro l' hl'
    rw [List.suffix_concat_iff, List.suffix_concat_iff]
    constructor
    · rintro (hnil | ⟨m, rfl, hm⟩)
      · exact Or.inl hnil
      · exact Or.inr ⟨m, rfl, h.longest m hm (hP hl')⟩
    · rintro (hnil | ⟨m, rfl, hm⟩)
      · exact Or.inl hnil
      · exact Or.inr ⟨m, rfl, hm.trans h.suffix⟩
  constructor
  · intro hm
    exact ⟨(hsame m hm.holds).1 hm.suffix, hm.holds,
      fun l' hl' hl'P => hm.longest l' ((hsame l' hl'P).2 hl') hl'P⟩
  · intro hm
    exact ⟨(hsame m hm.holds).2 hm.suffix, hm.holds,
      fun l' hl' hl'P => hm.longest l' ((hsame l' hl'P).1 hl') hl'P⟩

end LongestSuffix
