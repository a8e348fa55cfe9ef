import Mathlib.Tactic.Common

/-!
# UTF-8 text as a list of bytes

`Valid s` is the predicate of the core library, on lists: `s` is the encoding of some characters.
`valid_append_iff`: what follows a valid text is valid exactly if the whole is.

`valid_take_iff`: a valid text that is cut after `n` bytes stays valid exactly if no character lies
across the cut (`Boundary`).
-/

namespace Utf8

/-- The bytes encode a list of characters. -/
def Valid (s : List UInt8) : Prop := s.toByteArray.IsValidUTF8

theorem valid_iff {s : List UInt8} :
    Valid s ↔ ∃ cs : List Char, s = cs.flatMap String.utf8EncodeChar := by
  constructor
  · rintro ⟨cs, hcs⟩
    exact ⟨cs, List.toByteArray_inj.1 hcs⟩
  · rintro ⟨cs, rfl⟩
    exact ⟨cs, rfl⟩

theorem valid_toByteArray (s : String) : Valid s.toByteArray.data.toList := by
  have h : s.toByteArray.data.toList.toByteArray = s.toByteArray :=
    ByteArray.ext (List.data_toByteArray ..)
  rw [Valid, h]
  exact s.isValidUTF8

@[simp]
theorem valid_nil : Valid [] := valid_iff.2 ⟨[], rfl⟩

theorem Valid.append {s t : List UInt8} (hs : Valid s) (ht : Valid t) : Valid (s ++ t) := by
  rw [Valid, List.toByteArray_append]
  exact ByteArray.IsValidUTF8.append hs ht

theorem valid_encodeChar_append {c : Char} {t : List UInt8} :
    Valid (String.utf8EncodeChar c ++ t) ↔ Valid t := by
  rw [Valid, List.toByteArray_append, ← List.utf8Encode_singleton]
  exact ByteArray.isValidUTF8_utf8Encode_singleton_append_iff

/-- What follows a valid text. -/
theorem valid_append_iff {s t : List UInt8} (hs : Valid s) : Valid (s ++ t) ↔ Valid t := by
  obtain ⟨cs, rfl⟩ := valid_iff.1 hs
  clear hs
  induction cs with
  | nil => exact Iff.rfl
  | cons c cs ih => rw [List.flatMap_cons, List.append_assoc, valid_encodeChar_append, ih]

theorem valid_flatMap {α : Type*} {f : α → List UInt8} {xs : List α} (h : ∀ x ∈ xs, Valid (f x)) :
    Valid (xs.flatMap f) := by
  induction xs with
  | nil => exact valid_nil
  | cons x xs ih =>
      rw [List.flatMap_cons]
      exact (h x (by simp)).append (ih fun y hy => h y (by simp [hy]))

/-- A byte below 128 is a character. -/
theorem valid_singleton {b : UInt8} (hb : b < 128) : Valid [b] := by
  have h : ∀ n : Fin 128, [UInt8.ofNat n].toByteArray.IsValidUTF8 := by decide +kernel
  have hn : b.toNat < 128 := UInt8.lt_iff_toNat_lt.1 hb
  simpa [Valid] using h ⟨b.toNat, hn⟩

/-- A text of bytes below 128. -/
theorem valid_ascii {s : List UInt8} (h : ∀ b ∈ s, b < 128) : Valid s := by
  have hs : Valid (s.flatMap fun b => [b]) := valid_flatMap fun b hb => valid_singleton (h b hb)
  simpa using hs

/-- Check a text, byte by byte up to the first one that is not below 128. -/
def check : List UInt8 → Bool
  | [] => true
  | b :: s => if b < 128 then check s else (b :: s).toByteArray.IsValidUTF8

theorem check_iff {s : List UInt8} : check s = true ↔ Valid s := by
  induction s with
  | nil => simp [check]
  | cons b s ih =>
      rw [check]
      split_ifs with hb
      · rw [ih, ← valid_append_iff (valid_singleton hb), List.singleton_append]
      · exact decide_eq_true_iff

instance (s : List UInt8) : Decidable (Valid s) := decidable_of_iff _ check_iff

/-! ## Cuts -/

/-- The byte at `n`, if there is one, is the first byte of a character. -/
def Boundary (n : ℕ) (s : List UInt8) : Prop := ∀ b ∈ s[n]?, b.IsUTF8FirstByte

instance (n : ℕ) (s : List UInt8) : Decidable (Boundary n s) :=
  inferInstanceAs (Decidable (∀ b ∈ s[n]?, b.IsUTF8FirstByte))

theorem boundary_of_length_le {n : ℕ} {s : List UInt8} (h : s.length ≤ n) : Boundary n s := by
  intro b hb
  rw [List.getElem?_eq_none h] at hb
  cases hb

theorem boundary_append_add {n : ℕ} {s t : List UInt8} :
    Boundary (s.length + n) (s ++ t) ↔ Boundary n t := by
  rw [Boundary, List.getElem?_append_right (by omega), Nat.add_sub_cancel_left, Boundary]

/-- A valid text starts with the first byte of a character. -/
theorem Valid.boundary_zero {s : List UInt8} (hs : Valid s) : Boundary 0 s := by
  obtain ⟨cs, rfl⟩ := valid_iff.1 hs
  cases cs with
  | nil => exact boundary_of_length_le (by simp)
  | cons c cs =>
    have hpos : 0 < (String.utf8EncodeChar c).length := by
      rw [String.length_utf8EncodeChar]
      exact c.utf8Size_pos
    intro b hb
    rw [List.flatMap_cons, List.getElem?_append_left hpos, List.getElem?_eq_getElem hpos,
      Option.mem_some_iff] at hb
    rw [← hb]
    exact UInt8.isUTF8FirstByte_getElem_utf8EncodeChar.2 rfl

/-- Inside a character there is no boundary. -/
theorem not_boundary_encodeChar_append {c : Char} {n : ℕ} (t : List UInt8) (hpos : 0 < n)
    (hn : n < (String.utf8EncodeChar c).length) :
    ¬ Boundary n (String.utf8EncodeChar c ++ t) := by
  intro h
  have hfirst := h (String.utf8EncodeChar c)[n] (by
    rw [List.getElem?_append_left hn, List.getElem?_eq_getElem hn, Option.mem_some_iff])
  have hzero := UInt8.isUTF8FirstByte_getElem_utf8EncodeChar.1 hfirst
  omega

theorem valid_take_of_boundary {n : ℕ} {s : List UInt8} (hs : Valid s) (h : Boundary n s) :
    Valid (s.take n) := by
  obtain ⟨cs, rfl⟩ := valid_iff.1 hs
  clear hs
  induction cs generalizing n with
  | nil => simp
  | cons c cs ih =>
      rw [List.flatMap_cons] at h ⊢
      rcases Nat.lt_or_ge n (String.utf8EncodeChar c).length with hn | hn
      · -- the cut is not inside the first character, so it is before it
        rcases Nat.eq_zero_or_pos n with rfl | hpos
        · simp
        · exact absurd h (not_boundary_encodeChar_append _ hpos hn)
      · obtain ⟨m, rfl⟩ := Nat.exists_eq_add_of_le hn
        rw [List.take_length_add_append, valid_encodeChar_append]
        exact ih (boundary_append_add.1 h)

/-- A valid text stays valid when it is cut at a boundary, and only then. -/
theorem valid_take_iff {n : ℕ} {s : List UInt8} (hs : Valid s) :
    Valid (s.take n) ↔ Boundary n s := by
  constructor
  · intro htake
    have hdrop : Valid (s.drop n) := (valid_append_iff htake).1 (by rwa [List.take_append_drop])
    have hzero := hdrop.boundary_zero
    rwa [Boundary, List.getElem?_drop, Nat.add_zero] at hzero
  · exact valid_take_of_boundary hs

end Utf8
