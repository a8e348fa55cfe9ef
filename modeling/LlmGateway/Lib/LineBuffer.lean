import Mathlib.Data.List.Basic

/-!
# Buffered lines

A reader that gets its input in chunks, handles every line that is complete and keeps what is left for
the next chunk.  `cut` gives the lines and the rest of a text, and `feed` handles a chunk, with an
operation on lines that can fail.

The rest of a text is what the next line starts with (`cut_append`), so two chunks do what the text of
both does (`feed_append`), and how a text is cut into chunks does not matter (`feed_flatten`).
-/

namespace LineBuffer

variable {α σ : Type*} [DecidableEq α] (sep : α)

/-- The lines that end in a separator, and what is left after the last one. -/
def cut : List α → List (List α) × List α
  | [] => ([], [])
  | c :: cs =>
      if c = sep then ([] :: (cut cs).1, (cut cs).2)
      else
        match (cut cs).1 with
        | [] => ([], c :: (cut cs).2)
        | line :: lines => ((c :: line) :: lines, (cut cs).2)

variable {sep}

theorem cut_of_notMem {s : List α} (h : sep ∉ s) : cut sep s = ([], s) := by
  induction s with
  | nil => rfl
  | cons c cs ih =>
      rw [List.mem_cons, not_or] at h
      rw [cut, if_neg (Ne.symm h.1), ih h.2]

theorem cut_append_cons {line : List α} (h : sep ∉ line) (s : List α) :
    cut sep (line ++ sep :: s) = (line :: (cut sep s).1, (cut sep s).2) := by
  induction line with
  | nil => rw [List.nil_append, cut, if_pos rfl]
  | cons c line ih =>
      rw [List.mem_cons, not_or] at h
      rw [List.cons_append, cut, if_neg (Ne.symm h.1), ih h.2]

/-- Induction over the lines of a text. -/
@[elab_as_elim]
theorem line_induction (sep : α) {P : List α → Prop} (s : List α) (rest : ∀ s, sep ∉ s → P s)
    (line : ∀ l s, sep ∉ l → P s → P (l ++ sep :: s)) : P s := by
  induction hn : s.length using Nat.strongRecOn generalizing s with
  | ind n ih =>
      by_cases h : sep ∈ s
      · obtain ⟨l, s', rfl, hl⟩ := List.eq_append_cons_of_mem h
        have hlt : s'.length < n := by
          rw [← hn, List.length_append, List.length_cons]
          omega
        exact line l s' hl (ih s'.length hlt s' rfl)
      · exact rest s h

/-- A text that is continued: its rest becomes the start of the next line. -/
theorem cut_append (s t : List α) :
    cut sep (s ++ t) =
      ((cut sep s).1 ++ (cut sep ((cut sep s).2 ++ t)).1, (cut sep ((cut sep s).2 ++ t)).2) := by
  induction s using line_induction sep with
  | rest s h => rw [cut_of_notMem h, List.nil_append]
  | line l s hl ih =>
      rw [List.append_assoc, List.cons_append, cut_append_cons hl, cut_append_cons hl, ih,
        List.cons_append]

/-- The rest is what comes after the last separator. -/
theorem cut_rest (sep : α) (s : List α) :
    ∃ pre, s = pre ++ (cut sep s).2 ∧ sep ∉ (cut sep s).2 ∧
      (pre = [] ∨ pre.getLast? = some sep) := by
  induction s using line_induction sep with
  | rest s h =>
      rw [cut_of_notMem h]
      exact ⟨[], rfl, h, Or.inl rfl⟩
  | line l s hl ih =>
      obtain ⟨pre, hs, hsep, hpre⟩ := ih
      rw [cut_append_cons hl]
      refine ⟨l ++ sep :: pre, ?_, hsep, Or.inr ?_⟩
      · rw [List.append_assoc, List.cons_append, ← hs]
      · rw [List.getLast?_append, List.getLast?_cons]
        rcases hpre with rfl | hpre
        · rfl
        · rw [hpre]
          rfl

/-! ## Readers -/

variable (sep) (f : σ → List α → Option σ)

/-- Handle a chunk, after what was left of the ones before. -/
def feed (b : List α × σ) (chunk : List α) : Option (List α × σ) :=
  let r := cut sep (b.1 ++ chunk)
  (r.1.foldlM f b.2).map fun s => (r.2, s)

theorem feed_append (b : List α × σ) (chunk chunk' : List α) :
    feed sep f b (chunk ++ chunk') = (feed sep f b chunk).bind fun b => feed sep f b chunk' := by
  unfold feed
  rw [← List.append_assoc, cut_append]
  dsimp only
  rw [List.foldlM_append]
  cases h : (cut sep (b.1 ++ chunk)).1.foldlM f b.2 with
  | none => rfl
  | some s => rfl

/-- Between two chunks no separator is buffered, and a chunk of nothing does nothing. -/
theorem feed_nil {b : List α × σ} (h : sep ∉ b.1) : feed sep f b [] = some b := by
  unfold feed
  rw [List.append_nil, cut_of_notMem h]
  rfl

theorem feed_flatten {b : List α × σ} (h : sep ∉ b.1) (chunks : List (List α)) :
    chunks.foldlM (feed sep f) b = feed sep f b chunks.flatten := by
  induction chunks generalizing b with
  | nil => exact (feed_nil sep f h).symm
  | cons chunk chunks ih =>
      rw [List.foldlM_cons, List.flatten_cons, feed_append]
      cases hb : feed sep f b chunk with
      | none => rfl
      | some b' =>
        obtain ⟨s, -, rfl⟩ := Option.map_eq_some_iff.1 hb
        obtain ⟨-, -, hsep, -⟩ := cut_rest sep (b.1 ++ chunk)
        exact ih hsep

end LineBuffer
