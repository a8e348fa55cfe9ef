import LlmGateway.Lib.LuaPattern

/-!
# Finding a pattern

`string.match` and `string.gmatch` of Lua 5.3, for the matcher of `LuaPattern`.

The rules say what the matcher does at the head of a pattern: a text without special characters
(`doMatch_literal`), a parenthesis (`doMatch_open`, `doMatch_close`), and an item that is repeated
(`doMatch_plus`).  A repetition takes all that it can, and does not give any of it back if what follows in the
pattern cannot start with it.
-/

namespace LuaPattern

/-- `push_captures`: the captures, or the whole match if there are none. -/
def pushCaptures (src : Text) (s : ℕ) (m : Match) : Option (List Text) :=
  (List.range (max 1 m.2.length)).mapM (captureText src ((src.drop s).take (m.1 - s)) m.2)

/-- The loop of `str_find_aux`, over `n` positions. -/
def findLoop (src p : Text) : ℕ → ℕ → Option (Option (ℕ × Match))
  | 0, _ => some none
  | n + 1, s =>
      match doMatch src (p.length + 1) 199 p s [] with
      | none => none
      | some (some m) => some (some (s, m))
      | some none => findLoop src p n (s + 1)

/-- `string.match(src, pattern)`.  The inner `none` is `nil`. -/
def strMatch (src pattern : Text) : Option (Option (List Text)) :=
  let anchor := pattern.head? = some 94
  (findLoop src (if anchor then pattern.tail else pattern) (if anchor then 1 else src.length + 1) 0).bind
    fun
    | none => some none
    | some (s, m) => (pushCaptures src s m).map some

/-- The calls of `gmatch_aux` from `s` on, where `last` is the end of the last match. -/
def gmatchLoop (src p : Text) : ℕ → ℕ → Option ℕ → Option (List (List Text))
  | 0, _, _ => some []
  | n + 1, s, last =>
      if src.length < s then some []
      else
        match doMatch src (p.length + 1) 199 p s [] with
        | none => none
        | some res =>
            match res.filter fun m => some m.1 ≠ last with
            | some m =>
                (pushCaptures src s m).bind fun texts => (gmatchLoop src p n m.1 (some m.1)).map (texts :: ·)
            | none => gmatchLoop src p n (s + 1) last

/-- What `string.gmatch(src, pattern)` iterates over.  Each position is tried twice at most. -/
def gmatch (src pattern : Text) : Option (List (List Text)) :=
  gmatchLoop src pattern (2 * src.length + 2) 0 none

/-! ## The head of a pattern -/

/-- An item of a pattern, which matches the bytes of a class. -/
structure IsItem (item : Text) (ok : UInt8 → Bool) : Prop where
  classEnd : ∀ p, LuaPattern.classEnd (item ++ p) = some p
  single : ∀ src s, singleMatch src s item = (src[s]?).any ok
  notOpen : item.head? ≠ some 40
  notClose : item.head? ≠ some 41
  notEnd : item.head? ≠ some 36
  escape : item.head? = some 37 → ∃ cl, item = [37, cl] ∧ cl ≠ 98 ∧ cl ≠ 102 ∧ isDigit cl = false

/-- An item starts like nothing else that the matcher looks for. -/
theorem IsItem.exists_cons {item : Text} {ok : UInt8 → Bool} (hitem : IsItem item ok) :
    ∃ c q, item = c :: q ∧ c ≠ 40 ∧ c ≠ 41 ∧ c ≠ 36 ∧ ∀ p, ¬(c = 37 ∧ (q ++ p).head? = some 98) ∧
      ¬(c = 37 ∧ (q ++ p).head? = some 102) ∧ ¬(c = 37 ∧ (q ++ p).head?.any isDigit = true) := by
  obtain ⟨c, q, rfl⟩ : ∃ c q, item = c :: q := by
    refine List.exists_cons_of_ne_nil ?_
    rintro rfl
    cases hitem.classEnd []
  refine ⟨c, q, rfl, fun h => hitem.notOpen (congrArg some h), fun h => hitem.notClose (congrArg some h),
    fun h => hitem.notEnd (congrArg some h), fun p => ?_⟩
  by_cases hc : c = 37
  · obtain ⟨cl, hcl, h98, h102, hdigit⟩ := hitem.escape (congrArg some hc)
    cases hcl
    simp [h98, h102, hdigit]
  · simp [hc]

/-- What can follow an item that is not repeated. -/
def NotRepeated (p : Text) : Prop := ∀ c ∈ p.head?, c ∉ ([63, 43, 42, 45] : Text)

instance (p : Text) : Decidable (NotRepeated p) := inferInstanceAs (Decidable (∀ c ∈ p.head?, _))

theorem isItem_alnum : IsItem [37, 119] isAlnum where
  classEnd p := by simp [LuaPattern.classEnd]
  single src s := by
    rw [singleMatch]
    cases src[s]? with
    | none => rfl
    | some c => simp [matchClass, toLower, isUpper, classOf]
  notOpen := by decide
  notClose := by decide
  notEnd := by decide
  escape _ := ⟨119, rfl, by decide, by decide, by decide⟩

section Rules

variable {src p : Text} {n depth s : ℕ} {caps : List Capture}

theorem doMatch_nil : doMatch src (n + 1) depth [] s caps = some (some (s, caps)) := rfl

theorem doMatch_open (hp : p.head? ≠ some 41) (hcaps : caps.length < 32) :
    doMatch src (n + 1) (depth + 1) (40 :: p) s caps =
      doMatch src n depth p s (caps ++ [⟨s, .unfinished⟩]) := by
  rw [doMatch]
  simp [hp, Nat.not_le.2 hcaps]

theorem doMatch_close : doMatch src (n + 1) (depth + 1) (41 :: p) s caps =
    (closeCapture s caps).bind fun caps => doMatch src n depth p s caps := by
  rw [doMatch]
  simp

/-- A text without special characters matches itself. -/
theorem doMatch_literal {t : Text} (ht : Plain t) (hp : NotRepeated p) :
    doMatch src (n + t.length) depth (t ++ p) s caps =
      if t <+: src.drop s then doMatch src n depth p (s + t.length) caps else some none := by
  induction t generalizing s with
  | nil => simp
  | cons c t ih =>
    have hc : c ∉ specials := ht c List.mem_cons_self
    have hne : ∀ c' ∈ specials, c ≠ c' := fun c' hc' h => hc (h ▸ hc')
    have hitem : (c :: (t ++ p)).take ((c :: (t ++ p)).length - (t ++ p).length) = [c] := by simp
    have hhead : ∀ c' ∈ ([63, 43, 42, 45] : Text), (t ++ p).head? ≠ some c' := by
      intro c' hc' hhead
      cases t with
      | nil => exact hp c' hhead hc'
      | cons d t =>
        have hspecial : ∀ c' ∈ ([63, 43, 42, 45] : Text), c' ∈ specials := by decide +kernel
        have hd : d = c' := Option.some.inj hhead
        exact ht d (List.mem_cons_of_mem _ List.mem_cons_self) (hd ▸ hspecial c' hc')
    have hrest := ih (fun c' hc' => ht c' (List.mem_cons_of_mem _ hc')) (s := s + 1)
    rw [List.length_cons, ← Nat.add_assoc, List.cons_append, doMatch]
    simp only [hne 40 (by decide), hne 41 (by decide), hne 36 (by decide), hne 37 (by decide), if_false,
      false_and, classEnd_of_notMem hc, Option.bind_some, hitem, hhead 63 (by decide), hhead 43 (by decide),
      hhead 42 (by decide), hhead 45 (by decide), Nat.add_zero, singleMatch_of_notMem src s hc,
      decide_eq_true_eq, hrest, cons_prefix_drop_iff]
    by_cases hhere : src[s]? = some c
    · rw [if_pos hhere]
      simp only [hhere, true_and, Nat.add_assoc, Nat.add_comm 1]
    · rw [if_neg hhere]
      simp [hhere]

/-- From the highest number down, if only that one can go on. -/
theorem tryDown_of_forall_lt {next : ℕ → Option (Option Match)} {n : ℕ} (h : ∀ i < n, next i = some none) :
    tryDown next n = next n := by
  cases n with
  | zero => rfl
  | succ n =>
    have hbelow : tryDown next n = some none := by
      induction n with
      | zero => exact h 0 Nat.one_pos
      | succ n ih =>
        rw [tryDown, h (n + 1) (Nat.lt_succ_self _)]
        exact ih fun i hi => h i (hi.trans (Nat.lt_succ_self _))
    rw [tryDown]
    split
    · next heq => rw [heq, hbelow]
    · rfl

/-- How many matches of an item `max_expand` counts. -/
theorem length_takeWhile_range (ok : UInt8 → Bool) (l : Text) :
    ((List.range l.length).takeWhile fun i => (l[i]?).any ok).length = (l.takeWhile ok).length := by
  induction l with
  | nil => rfl
  | cons c l ih =>
    rw [List.length_cons, List.range_succ_eq_map, List.takeWhile_cons, List.takeWhile_cons]
    simp only [List.getElem?_cons_zero, Option.any_some]
    split_ifs
    · rw [List.length_cons, List.takeWhile_map, List.length_map, List.length_cons, ← ih]
      rfl
    · rfl

/-- A repetition is tried from all that it can take down to one byte. -/
theorem doMatch_plus_eq {item : Text} {ok : UInt8 → Bool} (hitem : IsItem item ok) :
    doMatch src (n + 1) (depth + 1) (item ++ 43 :: p) s caps =
      if (src.drop s).takeWhile ok = [] then some none
      else
        tryDown (fun i => doMatch src n depth p (s + 1 + i) caps)
          (((src.drop s).takeWhile ok).length - 1) := by
  obtain ⟨c, q, rfl, h40, h41, h36, hescape⟩ := hitem.exists_cons
  have hend : classEnd (c :: (q ++ 43 :: p)) = some (43 :: p) := hitem.classEnd (43 :: p)
  have htake : (c :: (q ++ 43 :: p)).take ((c :: (q ++ 43 :: p)).length - (43 :: p).length) = c :: q := by
    rw [← List.cons_append, List.length_append, Nat.add_sub_cancel, List.take_left]
  rw [List.cons_append, doMatch]
  simp only [h40, h41, h36, if_false, false_and, hend, Option.bind_some, htake, hitem.single, List.head?_cons,
    Nat.succ_ne_zero, Nat.add_sub_cancel, List.tail_cons, Option.some.injEq]
  rw [if_neg (hescape _).1, if_neg (hescape _).2.1, if_neg (hescape _).2.2, if_neg (by decide), if_pos trivial,
    Nat.add_zero]
  cases hc : src[s]? with
  | none =>
    rw [List.drop_eq_nil_of_le (List.getElem?_eq_none_iff.1 hc)]
    rfl
  | some c' =>
    obtain ⟨hlt, hget⟩ := List.getElem?_eq_some_iff.1 hc
    rw [List.drop_eq_getElem_cons hlt, hget, List.takeWhile_cons, Option.any_some]
    cases hok : ok c' with
    | false => simp
    | true =>
      have hcount := length_takeWhile_range ok (src.drop (s + 1))
      have hsame : (fun i => ((src.drop (s + 1))[i]?).any ok) = fun i => (src[s + (i + 1)]?).any ok := by
        funext i
        rw [List.getElem?_drop, Nat.add_assoc, Nat.add_comm 1]
      rw [hsame, List.length_drop] at hcount
      simp only [if_true, reduceCtorEq, if_false]
      rw [hcount, List.length_cons, Nat.add_sub_cancel]

theorem add_length_takeWhile {ok : UInt8 → Bool} (h : (src.drop s).takeWhile ok ≠ []) :
    s + 1 + (((src.drop s).takeWhile ok).length - 1) = s + ((src.drop s).takeWhile ok).length := by
  have hpos := List.length_pos_of_ne_nil h
  omega

/-- A repetition takes all that it can, if what follows cannot start with any of it. -/
theorem doMatch_plus {item : Text} {ok : UInt8 → Bool} (hitem : IsItem item ok)
    (hnext : ∀ s c, src[s]? = some c → ok c = true → doMatch src n depth p s caps = some none) :
    doMatch src (n + 1) (depth + 1) (item ++ 43 :: p) s caps =
      if (src.drop s).takeWhile ok = [] then some none
      else doMatch src n depth p (s + ((src.drop s).takeWhile ok).length) caps := by
  rw [doMatch_plus_eq hitem]
  refine if_ctx_congr Iff.rfl (fun _ => rfl) fun hne => ?_
  rw [tryDown_of_forall_lt, add_length_takeWhile hne]
  -- a smaller number leaves a byte of the class to what follows
  intro i hi
  have hlt : i + 1 < ((src.drop s).takeWhile ok).length := by omega
  have hbyte : src[s + 1 + i]? = some ((src.drop s).takeWhile ok)[i + 1] := by
    rw [Nat.add_assoc, Nat.add_comm 1, ← List.getElem?_drop, (List.takeWhile_prefix ok).getElem hlt]
    exact List.getElem?_eq_getElem _
  exact hnext _ _ hbyte (List.all_eq_true.1 List.all_takeWhile _ (List.getElem_mem hlt))

/-- It also takes all that it can if what follows then matches. -/
theorem doMatch_plus_of_matches {item : Text} {ok : UInt8 → Bool} (hitem : IsItem item ok)
    (hnext : doMatch src n depth p (s + ((src.drop s).takeWhile ok).length) caps ≠ some none) :
    doMatch src (n + 1) (depth + 1) (item ++ 43 :: p) s caps =
      if (src.drop s).takeWhile ok = [] then some none
      else doMatch src n depth p (s + ((src.drop s).takeWhile ok).length) caps := by
  rw [doMatch_plus_eq hitem]
  refine if_ctx_congr Iff.rfl (fun _ => rfl) fun hne => ?_
  rw [← add_length_takeWhile hne] at hnext ⊢
  cases hcount : ((src.drop s).takeWhile ok).length - 1 with
  | zero => rfl
  | succ i =>
    rw [hcount] at hnext
    rw [tryDown]
    split
    · next heq => exact absurd heq hnext
    · rfl

end Rules

/-! ## All positions -/

section Positions

variable {src p : Text} {res : ℕ → Option Match}
  (h : ∀ s ≤ src.length, doMatch src (p.length + 1) 199 p s [] = some (res s))
include h

/-- The first position that matches is found. -/
theorem findLoop_eq {n s : ℕ} (hn : s + n ≤ src.length + 1) :
    findLoop src p n s = some ((List.range' s n).findSome? fun s => (res s).map fun m => (s, m)) := by
  induction n generalizing s with
  | zero => rfl
  | succ n ih =>
    rw [findLoop, h s (by omega), List.range'_succ, List.findSome?_cons]
    cases res s with
    | none => exact ih (by omega)
    | some m => rfl

/-- Without an anchor all positions are tried. -/
theorem strMatch_eq (hanchor : p.head? ≠ some 94) : strMatch src p =
    match (List.range' 0 (src.length + 1)).findSome? fun s => (res s).map fun m => (s, m) with
    | none => some none
    | some (s, m) => (pushCaptures src s m).map some := by
  rw [strMatch]
  simp only [hanchor, if_false]
  rw [findLoop_eq h (by omega), Option.bind_some]

/-- All that is iterated over are the captures of some match. -/
theorem exists_gmatchLoop (hcaptures : ∀ s m, res s = some m → (pushCaptures src s m).isSome) (n s : ℕ)
    (last : Option ℕ) : ∃ l, gmatchLoop src p n s last = some l ∧
      ∀ texts ∈ l, ∃ s m, res s = some m ∧ pushCaptures src s m = some texts := by
  induction n generalizing s last with
  | zero => exact ⟨[], rfl, fun texts hmem => nomatch hmem⟩
  | succ n ih =>
    rw [gmatchLoop]
    split_ifs with hend
    · exact ⟨[], rfl, fun texts hmem => nomatch hmem⟩
    · rw [h s (Nat.not_lt.1 hend)]
      dsimp only
      cases hres : (res s).filter fun m => some m.1 ≠ last with
      | none => exact ih (s + 1) last
      | some m =>
        obtain ⟨hm, -⟩ := Option.filter_eq_some_iff.1 hres
        obtain ⟨texts, htexts⟩ := Option.isSome_iff_exists.1 (hcaptures s m hm)
        obtain ⟨l, hl, hsound⟩ := ih m.1 (some m.1)
        refine ⟨texts :: l, by dsimp only; rw [htexts, Option.bind_some, hl]; rfl, fun texts' hmem => ?_⟩
        rcases List.mem_cons.1 hmem with rfl | hmem
        · exact ⟨s, m, hm, htexts⟩
        · exact hsound texts' hmem

end Positions

end LuaPattern
