import Mathlib.Data.List.Basic
import Mathlib.Data.List.Count
import Mathlib.Data.List.Infix
import Mathlib.Tactic.Common

/-!
# Texts with placeholders

A placeholder is a name between two brackets, where a name has no bracket in it.  `scan` cuts a text into its
placeholders and the other symbols, and `fill` puts texts in place of the placeholders, all at once: what is
put in is not scanned again.

The usual way to fill a template is to replace the placeholders of one name after the other (`replaceAll`).
For a single name this is `fill` (`replaceAll_placeholder`).  For the next name it goes over the texts that were
put in before, too: it fills the template further exactly as it should if these have not brought in another
placeholder of that name (`fill_fill`).
-/

namespace Template

variable {α : Type*} [DecidableEq α]

/-! ## Replacing a text -/

/-- Put `x` for each `p`, from left to right; the next `skip` symbols belong to a `p` that was replaced. -/
def replaceFrom (p x : List α) : ℕ → List α → List α
  | _, [] => []
  | skip + 1, _ :: s => replaceFrom p x skip s
  | 0, b :: s => if p <+: b :: s then x ++ replaceFrom p x (p.length - 1) s else b :: replaceFrom p x 0 s

/-- Replace every occurrence, from the left. -/
def replaceAll (p x s : List α) : List α := replaceFrom p x 0 s

section Replace

variable {p x : List α}

theorem replaceFrom_eq_drop (p x : List α) (skip : ℕ) (s : List α) :
    replaceFrom p x skip s = replaceAll p x (s.drop skip) := by
  induction s generalizing skip with
  | nil => rw [List.drop_nil, replaceAll, replaceFrom, replaceFrom]
  | cons b s ih =>
      cases skip with
      | zero => rfl
      | succ skip => rw [replaceFrom, ih, List.drop_succ_cons]

theorem replaceAll_nil (p x : List α) : replaceAll p x [] = [] := by
  rw [replaceAll, replaceFrom]

theorem replaceAll_append (hp : p ≠ []) (s : List α) : replaceAll p x (p ++ s) = x ++ replaceAll p x s := by
  obtain ⟨b, p', rfl⟩ := List.exists_cons_of_ne_nil hp
  have hstarts : b :: p' <+: b :: (p' ++ s) := ⟨s, rfl⟩
  rw [List.cons_append, replaceAll, replaceFrom, if_pos hstarts, replaceFrom_eq_drop]
  simp

theorem replaceAll_cons {b : α} {s : List α} (h : ¬p <+: b :: s) :
    replaceAll p x (b :: s) = b :: replaceAll p x s := by
  rw [replaceAll, replaceFrom, if_neg h]
  rfl

/-- Symbols at which no `p` can start stay. -/
theorem replaceAll_append_of_head {o : α} {p' : List α} (hp : p = o :: p') {u : List α} (hu : o ∉ u)
    (v : List α) : replaceAll p x (u ++ v) = u ++ replaceAll p x v := by
  induction u with
  | nil => rfl
  | cons b u ih =>
      obtain ⟨hb, hu⟩ := not_or.1 (List.mem_cons.not.1 hu)
      have hnot : ¬p <+: b :: (u ++ v) := by
        rw [hp, List.cons_prefix_cons]
        exact fun h => hb h.1
      rw [List.cons_append, replaceAll_cons hnot, ih hu, List.cons_append]

/-- A text without a `p` stays. -/
theorem replaceAll_of_not_infix {s : List α} (h : ¬p <:+: s) : replaceAll p x s = s := by
  induction s with
  | nil => exact replaceAll_nil p x
  | cons b s ih =>
      rw [replaceAll_cons fun hstarts => h hstarts.isInfix, ih fun hwithin => h (List.infix_cons hwithin)]

end Replace

/-! ## Placeholders -/

/-- The symbols of a text and its placeholders. -/
inductive Piece (α : Type*) where
  | symbol (b : α)
  | hole (name : List α)
  deriving DecidableEq

variable (o c : α)

/-- The pieces of a text.  Within brackets the state is the name up to here. -/
def scan : Option (List α) → List α → List (Piece α)
  | none, [] => []
  | none, b :: s => if b = o then scan (some []) s else .symbol b :: scan none s
  | some name, [] => .symbol o :: name.map .symbol
  | some name, b :: s =>
      if b = c then .hole name :: scan none s
      else if b = o then .symbol o :: (name.map .symbol ++ scan (some []) s)
      else scan (some (name ++ [b])) s

/-- A name between the marks. -/
def placeholder (name : List α) : List α := o :: (name ++ [c])

/-- The text of a piece, where `f` gives what is put in for a name. -/
def render (f : List α → Option (List α)) : Piece α → List α
  | .symbol b => [b]
  | .hole name => (f name).getD (placeholder o c name)

/-- Put a text for each placeholder that has one. -/
def fill (f : List α → Option (List α)) (t : List α) : List α := (scan o c none t).flatMap (render o c f)

/-- How often the placeholder of a name is in a text. -/
def holes (name t : List α) : ℕ := (scan o c none t).count (.hole name)

/-- A name has no bracket. -/
def IsName (name : List α) : Prop := o ∉ name ∧ c ∉ name

instance (name : List α) : Decidable (IsName o c name) := inferInstanceAs (Decidable (_ ∧ _))

variable {o c} {name : List α}

omit [DecidableEq α] in
theorem flatMap_render_symbols (f : List α → Option (List α)) (s : List α) :
    (s.map Piece.symbol).flatMap (render o c f) = s := by
  induction s with
  | nil => rfl
  | cons b s ih => rw [List.map_cons, List.flatMap_cons, ih, render, List.singleton_append]

/-- A name that is not closed yet. -/
theorem scan_name {acc : List α} (hname : IsName o c name) (s : List α) :
    scan o c (some acc) (name ++ c :: s) = .hole (acc ++ name) :: scan o c none s := by
  induction name generalizing acc with
  | nil => simp [scan]
  | cons b name ih =>
      have ho : b ≠ o := fun h => hname.1 (h ▸ List.mem_cons_self)
      have hc : b ≠ c := fun h => hname.2 (h ▸ List.mem_cons_self)
      rw [List.cons_append, scan, if_neg hc, if_neg ho, ih ⟨fun h => hname.1 (List.mem_cons_of_mem _ h),
        fun h => hname.2 (List.mem_cons_of_mem _ h)⟩]
      simp

/-- A placeholder cuts the scan of a text. -/
theorem scan_placeholder (hoc : o ≠ c) (hname : IsName o c name) (state : Option (List α)) (u v : List α) :
    scan o c state (u ++ (placeholder o c name ++ v)) =
      scan o c state u ++ .hole name :: scan o c none v := by
  have hafter : scan o c (some []) (name ++ c :: v) = .hole name :: scan o c none v := scan_name hname v
  induction u generalizing state with
  | nil =>
    have htext : placeholder o c name ++ v = o :: (name ++ c :: v) := by simp [placeholder]
    rw [List.nil_append, htext]
    cases state with
    | none => simp [scan, hafter]
    | some acc => simp [scan, hafter, hoc]
  | cons b u ih =>
    rw [List.cons_append]
    cases state with
    | none =>
      rw [scan, scan]
      split_ifs
      · exact ih _
      · rw [ih, List.cons_append]
    | some acc =>
      rw [scan, scan]
      split_ifs
      · rw [ih, List.cons_append]
      · rw [ih, List.cons_append, List.append_assoc]
      · exact ih _

theorem holes_placeholder (hoc : o ≠ c) (hname : IsName o c name) (u v : List α) :
    holes o c name (u ++ (placeholder o c name ++ v)) = holes o c name u + (1 + holes o c name v) := by
  rw [holes, scan_placeholder hoc hname, List.count_append, List.count_cons_self, Nat.add_comm _ 1]
  rfl

theorem fill_placeholder (hoc : o ≠ c) (hname : IsName o c name) (f : List α → Option (List α)) (u v : List α) :
    fill o c f (u ++ (placeholder o c name ++ v)) =
      fill o c f u ++ ((f name).getD (placeholder o c name) ++ fill o c f v) := by
  rw [fill, scan_placeholder hoc hname, List.flatMap_append, List.flatMap_cons]
  rfl

/-- Without anything to put in, the text stays. -/
theorem fill_none (t : List α) : fill o c (fun _ => none) t = t := by
  have hscan : ∀ (s : List α) (state : Option (List α)),
      (scan o c state s).flatMap (render o c fun _ => none) =
        (match state with | none => [] | some name => o :: name) ++ s := by
    intro s
    induction s with
    | nil =>
      intro state
      cases state with
      | none => rfl
      | some name => rw [scan, List.flatMap_cons, flatMap_render_symbols, render, List.append_nil,
          List.singleton_append]
    | cons b s ih =>
      intro state
      cases state with
      | none =>
        rw [scan]
        split_ifs with ho
        · rw [ih, ho]
          rfl
        · rw [List.flatMap_cons, ih]
          rfl
      | some name =>
        rw [scan]
        split_ifs with hc ho
        · rw [List.flatMap_cons, ih, hc, render]
          simp [placeholder]
        · rw [List.flatMap_cons, List.flatMap_append, flatMap_render_symbols, ih, ho, render]
          simp
        · rw [ih]
          simp
  exact hscan t none

/-- A text without a placeholder of the name stays. -/
theorem fill_of_holes_eq_zero {f : List α → Option (List α)} (hf : ∀ name', name' ≠ name → f name' = none)
    {t : List α} (h : holes o c name t = 0) : fill o c f t = t := by
  refine Eq.trans ?_ (fill_none (o := o) (c := c) t)
  refine List.flatMap_congr fun piece hpiece => ?_
  cases piece with
  | symbol b => rfl
  | hole name' =>
    have hne : name' ≠ name := by
      rintro rfl
      exact List.count_eq_zero.1 h hpiece
    rw [render, render, hf name' hne]

/-! ## One name after the other -/

/-- What a single name is filled with. -/
def single (name x : List α) (name' : List α) : Option (List α) := if name' = name then some x else none

theorem single_self (name x : List α) : single name x name = some x := if_pos rfl

theorem single_ne {name' : List α} (x : List α) (h : name' ≠ name) : single name x name' = none := if_neg h

omit [DecidableEq α] in
/-- Where a placeholder of another name starts, no placeholder of this name does. -/
theorem placeholder_prefix_iff (hname : IsName o c name) {name' : List α} (hname' : IsName o c name')
    (s : List α) : placeholder o c name <+: o :: (name' ++ c :: s) ↔ name = name' := by
  have hcons : placeholder o c name <+: o :: (name' ++ c :: s) ↔ name ++ [c] <+: name' ++ c :: s := by
    rw [placeholder, List.cons_prefix_cons, eq_self_iff_true, true_and]
  rw [hcons]
  constructor
  · rintro ⟨t, ht⟩
    rw [List.append_assoc, List.singleton_append] at ht
    clear hcons
    induction name generalizing name' with
    | nil =>
      cases name' with
      | nil => rfl
      | cons b name' =>
        obtain ⟨rfl, -⟩ := List.cons.inj ht
        exact absurd List.mem_cons_self hname'.2
    | cons b name ih =>
      cases name' with
      | nil =>
        obtain ⟨rfl, -⟩ := List.cons.inj ht
        exact absurd List.mem_cons_self hname.2
      | cons b' name' =>
        obtain ⟨rfl, htail⟩ := List.cons.inj ht
        rw [ih ⟨fun h => hname.1 (List.mem_cons_of_mem _ h), fun h => hname.2 (List.mem_cons_of_mem _ h)⟩
          ⟨fun h => hname'.1 (List.mem_cons_of_mem _ h), fun h => hname'.2 (List.mem_cons_of_mem _ h)⟩ htail]
  · rintro rfl
    exact ⟨s, by simp⟩

omit [DecidableEq α] in
/-- Where the brackets are opened again before they are closed, no placeholder starts. -/
theorem not_placeholder_prefix_of_open (hoc : o ≠ c) (hname : IsName o c name) {acc : List α}
    (hacc : IsName o c acc) (s : List α) : ¬placeholder o c name <+: o :: (acc ++ o :: s) := by
  rintro ⟨t, ht⟩
  have hstarts : name ++ [c] <+: acc ++ o :: s := ⟨t, by simpa [placeholder] using ht⟩
  rcases Nat.lt_or_ge acc.length (name ++ [c]).length with hlt | hge
  · -- the second opening bracket would be in the name
    have hopen : acc ++ [o] <+: name ++ [c] := by
      refine List.prefix_of_prefix_length_le ⟨s, by simp⟩ hstarts ?_
      rw [List.length_append, List.length_singleton]
      exact hlt
    rcases List.mem_append.1 (hopen.subset (List.mem_append_right _ (List.mem_singleton_self o))) with h | h
    · exact hname.1 h
    · exact hoc (List.mem_singleton.1 h)
  · have hclose : name ++ [c] <+: acc :=
      List.prefix_of_prefix_length_le hstarts (List.prefix_append _ _) hge
    exact hacc.2 (hclose.subset (List.mem_append_right _ (List.mem_singleton_self c)))

/-- A bracket that closes the name. -/
theorem replaceAll_close_self (x s : List α) :
    replaceAll (placeholder o c name) x (o :: (name ++ c :: s)) = x ++ replaceAll (placeholder o c name) x s := by
  have htext : o :: (name ++ c :: s) = placeholder o c name ++ s := by simp [placeholder]
  rw [htext, replaceAll_append (by simp [placeholder])]

section Brackets

variable (hoc : o ≠ c) (hname : IsName o c name) {acc : List α} (hacc : IsName o c acc)
include hoc hacc

/-- A name that is not closed. -/
theorem replaceAll_unclosed (x : List α) : replaceAll (placeholder o c name) x (o :: acc) = o :: acc := by
  refine replaceAll_of_not_infix ?_
  rintro ⟨u, v, huv⟩
  have hclose : c ∈ o :: acc := by
    rw [← huv]
    simp [placeholder]
  exact (List.mem_cons.1 hclose).elim (fun h => hoc h.symm) hacc.2

include hname

/-- A bracket that closes another name. -/
theorem replaceAll_close_ne (hne : acc ≠ name) (x s : List α) :
    replaceAll (placeholder o c name) x (o :: (acc ++ c :: s)) =
      placeholder o c acc ++ replaceAll (placeholder o c name) x s := by
  have hnot : ¬placeholder o c name <+: o :: (acc ++ c :: s) := fun h =>
    hne ((placeholder_prefix_iff hname hacc s).1 h).symm
  have hstays := replaceAll_append_of_head (x := x) (p := placeholder o c name) rfl (u := acc ++ [c])
    (by simpa [hacc.1] using hoc) s
  rw [List.append_assoc, List.singleton_append] at hstays
  rw [replaceAll_cons hnot, hstays]
  simp [placeholder]

/-- A bracket that opens another name. -/
theorem replaceAll_open (x s : List α) : replaceAll (placeholder o c name) x (o :: (acc ++ o :: s)) =
    o :: (acc ++ replaceAll (placeholder o c name) x (o :: s)) := by
  have hstays := replaceAll_append_of_head (x := x) (p := placeholder o c name) rfl hacc.1 (o :: s)
  rw [replaceAll_cons (not_placeholder_prefix_of_open hoc hname hacc s), hstays]

end Brackets

/-- Replacing goes through a text as the scan does. -/
theorem replaceAll_eq_flatMap_scan (hoc : o ≠ c) (hname : IsName o c name) (x s : List α) :
    replaceAll (placeholder o c name) x s = (scan o c none s).flatMap (render o c (single name x)) ∧
      ∀ acc, IsName o c acc → replaceAll (placeholder o c name) x (o :: (acc ++ s)) =
        (scan o c (some acc) s).flatMap (render o c (single name x)) := by
  induction s with
  | nil =>
    refine ⟨replaceAll_nil _ _, fun acc hacc => ?_⟩
    rw [List.append_nil, replaceAll_unclosed hoc hacc, scan, List.flatMap_cons, flatMap_render_symbols, render,
      List.singleton_append]
  | cons b s ih =>
    have hopen := ih.2 [] ⟨List.not_mem_nil, List.not_mem_nil⟩
    rw [List.nil_append] at hopen
    constructor
    · rw [scan]
      split_ifs with ho
      · rw [ho, hopen]
      · have hstays := replaceAll_append_of_head (x := x) (p := placeholder o c name) rfl (u := [b])
          (fun h => ho (List.mem_singleton.1 h).symm) s
        rw [List.singleton_append] at hstays
        rw [hstays, ih.1, List.flatMap_cons, render]
    · intro acc hacc
      rw [scan]
      split_ifs with hclose ho
      · rw [hclose, List.flatMap_cons, render, ← ih.1]
        by_cases heq : acc = name
        · rw [heq, replaceAll_close_self, single_self, Option.getD_some]
        · rw [replaceAll_close_ne hoc hname hacc heq, single_ne x heq, Option.getD_none]
      · rw [ho, replaceAll_open hoc hname hacc, hopen, List.flatMap_cons, List.flatMap_append,
          flatMap_render_symbols, render, List.singleton_append]
      · have hacc' : IsName o c (acc ++ [b]) := by
          simp only [IsName, List.mem_append, List.mem_singleton, not_or]
          exact ⟨⟨hacc.1, fun h => ho h.symm⟩, hacc.2, fun h => hclose h.symm⟩
        have hnext := ih.2 (acc ++ [b]) hacc'
        rwa [List.append_assoc, List.singleton_append] at hnext

/-- Replacing the placeholders of a single name is filling them. -/
theorem replaceAll_placeholder (hoc : o ≠ c) (hname : IsName o c name) (x t : List α) :
    replaceAll (placeholder o c name) x t = fill o c (single name x) t :=
  (replaceAll_eq_flatMap_scan hoc hname x t).1

/-- The placeholders of a name that is not filled are still there. -/
theorem count_le_holes (hoc : o ≠ c) (hname : IsName o c name) {f : List α → Option (List α)}
    (hf : f name = none) (u : List α) (ps : List (Piece α)) :
    ps.count (.hole name) ≤ holes o c name (u ++ ps.flatMap (render o c f)) := by
  induction ps generalizing u with
  | nil => exact Nat.zero_le _
  | cons piece ps ih =>
      rw [List.flatMap_cons]
      by_cases hpiece : piece = .hole name
      · have hrest := ih []
        rw [List.nil_append] at hrest
        rw [hpiece, List.count_cons_self, render, hf, Option.getD_none, holes_placeholder hoc hname]
        omega
      · rw [List.count_cons_of_ne hpiece, ← List.append_assoc]
        exact ih _

/-- Filling one more name, where the texts that were put in have no placeholder of it. -/
theorem fill_flatMap (hoc : o ≠ c) (hname : IsName o c name) {f : List α → Option (List α)}
    (hf : f name = none) (x u : List α) (ps : List (Piece α))
    (hcount : holes o c name (u ++ ps.flatMap (render o c f)) = ps.count (.hole name)) :
    fill o c (single name x) (u ++ ps.flatMap (render o c f)) =
      u ++ ps.flatMap (render o c (Function.update f name (some x))) := by
  have hsingle : ∀ name', name' ≠ name → single name x name' = none := fun _ h => single_ne x h
  induction ps generalizing u with
  | nil => exact fill_of_holes_eq_zero hsingle hcount
  | cons piece ps ih =>
      rw [List.flatMap_cons, List.flatMap_cons] at *
      by_cases hpiece : piece = .hole name
      · have hrest := count_le_holes hoc hname hf [] ps
        rw [List.nil_append] at hrest
        rw [hpiece, render, hf, Option.getD_none] at hcount ⊢
        rw [holes_placeholder hoc hname, List.count_cons_self] at hcount
        have hu : holes o c name u = 0 := by omega
        have hps := ih [] (by rw [List.nil_append]; omega)
        rw [List.nil_append, List.nil_append] at hps
        rw [fill_placeholder hoc hname, fill_of_holes_eq_zero hsingle hu, single_self, hps, render,
          Function.update_self]
      · have hsame : render o c (Function.update f name (some x)) piece = render o c f piece := by
          cases piece with
          | symbol b => rfl
          | hole name' =>
            have hne : name' ≠ name := fun h => hpiece (h ▸ rfl)
            rw [render, render, Function.update_of_ne hne]
        rw [List.count_cons_of_ne hpiece, ← List.append_assoc] at hcount
        rw [hsame, ← List.append_assoc, ih _ hcount, List.append_assoc]

/-- Filling one more name is filling it with the others, if the texts that were put in before have not brought
in its placeholder. -/
theorem fill_fill (hoc : o ≠ c) (hname : IsName o c name) {f : List α → Option (List α)}
    (hf : f name = none) (x t : List α) (hholes : holes o c name (fill o c f t) = holes o c name t) :
    fill o c (single name x) (fill o c f t) = fill o c (Function.update f name (some x)) t :=
  fill_flatMap hoc hname hf x [] _ hholes

end Template
