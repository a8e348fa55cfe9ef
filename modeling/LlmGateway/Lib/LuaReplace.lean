import LlmGateway.Lib.LuaMatch

/-!
# Replacing by a function

`string.find` and `string.gsub` of Lua 5.3, the latter with a function as the replacement.

What `gsub` does with a pattern is a relation between the text that is left and what is added for it
(`Replaced`), where a step says what is replaced at the head of a text; the loop follows any derivation of the
relation (`gsubWith_of_replaced`).  The step of a pattern `literal(.-)close`, which takes what is between a text
and the next closing byte, is `betweenStep` (`gsubWith_between`).
-/

namespace LuaPattern

/-- `string.find(src, pattern)`: where the first match starts and ends, and the captures.  The inner `none` is
`nil`. -/
def strFind (src pattern : Text) : Option (Option (ℕ × ℕ × List Text)) :=
  let anchor := pattern.head? = some 94
  (findLoop src (if anchor then pattern.tail else pattern) (if anchor then 1 else src.length + 1) 0).bind fun found =>
    found.elim (some none) fun m =>
      ((List.range m.2.2.length).mapM (captureText src [] m.2.2)).map fun texts => some (m.1 + 1, m.2.1, texts)

/-- `string.find(src, text, 1, true)`, the offset of the first occurrence. -/
def findPlain (src text : Text) : Option ℕ :=
  (List.range (src.length + 1)).find? fun s => text.isPrefixOf (src.drop s)

/-- The loop of `str_gsub` for a function `fn` of the captures.  Its outer `none` is an error that it raises, the
inner one is `nil`, which keeps the match. -/
def gsubWithLoop (src p : Text) (fn : List Text → Option (Option Text)) (anchor : Bool) :
    ℕ → ℕ → Option ℕ → Option Text
  | 0, _, _ => none
  | n + 1, s, last =>
      (doMatch src (p.length + 1) 199 p s []).bind fun res =>
        (res.filter fun m => some m.1 ≠ last).elim
          (src[s]?.elim (some []) fun c =>
            if anchor then some (src.drop s) else (gsubWithLoop src p fn anchor n (s + 1) last).map (c :: ·))
          fun m =>
            ((pushCaptures src s m).bind fn).bind fun value =>
              let text := value.getD ((src.drop s).take (m.1 - s))
              if anchor then some (text ++ src.drop m.1)
              else (gsubWithLoop src p fn anchor n m.1 (some m.1)).map (text ++ ·)

/-- `string.gsub(src, pattern, fn)`. -/
def gsubWith (src pattern : Text) (fn : List Text → Option (Option Text)) : Option Text :=
  let anchor := pattern.head? = some 94
  gsubWithLoop src (if anchor then pattern.tail else pattern) fn anchor (2 * src.length + 2) 0 none

/-! ## Replacing step by step -/

/-- What is added for a text.  A step gives the replacement at the head of a text and what is left then. -/
inductive Replaced (step : Text → Option (Text × Text)) : Text → Text → Prop where
  | nil (hstep : step [] = none) : Replaced step [] []
  | skip {c : UInt8} {t t' : Text} (hstep : step (c :: t) = none) (h : Replaced step t t') :
      Replaced step (c :: t) (c :: t')
  | hit {t value rest t' : Text} (hstep : step t = some (value, rest)) (h : Replaced step rest t') :
      Replaced step t (value ++ t')

/-- The matches of a pattern and the values of a function for them are those of a step. -/
structure Implements (src p : Text) (fn : List Text → Option (Option Text))
    (step : Text → Option (Text × Text)) : Prop where
  skips : ∀ s ≤ src.length, step (src.drop s) = none →
    doMatch src (p.length + 1) 199 p s [] = some none
  hits : ∀ s ≤ src.length, ∀ value rest, step (src.drop s) = some (value, rest) →
    ∃ m, doMatch src (p.length + 1) 199 p s [] = some (some m) ∧ s < m.1 ∧ m.1 ≤ src.length ∧
      src.drop m.1 = rest ∧ (pushCaptures src s m).bind fn = some (some value)

section Steps

variable {src p t t' : Text} {fn : List Text → Option (Option Text)} {step : Text → Option (Text × Text)}

/-- The loop follows a derivation, each step of which takes a byte at least. -/
theorem gsubWithLoop_of_replaced (himpl : Implements src p fn step) (h : Replaced step t t') :
    ∀ {n s : ℕ} {last : Option ℕ}, s ≤ src.length → src.drop s = t → src.length < s + n →
      (∀ l ∈ last, l ≤ s) → gsubWithLoop src p fn false n s last = some t' := by
  induction h with
  | nil hstep =>
    intro n s last hs ht hn hlast
    have hn0 : n ≠ 0 := by omega
    obtain ⟨n, rfl⟩ := Nat.exists_eq_succ_of_ne_zero hn0
    have hend : src[s]? = none := by
      rw [List.getElem?_eq_none_iff]
      exact List.drop_eq_nil_iff.1 ht
    rw [gsubWithLoop, himpl.skips s hs (by rw [ht]; exact hstep), hend]
    rfl
  | @skip c t t' hstep h ih =>
    intro n s last hs ht hn hlast
    have hn0 : n ≠ 0 := by omega
    obtain ⟨n, rfl⟩ := Nat.exists_eq_succ_of_ne_zero hn0
    have hc : src[s]? = some c := by
      rw [← Nat.add_zero s, ← List.getElem?_drop, ht]
      rfl
    obtain ⟨hlt, -⟩ := List.getElem?_eq_some_iff.1 hc
    have hrest : src.drop (s + 1) = t := by rw [← List.drop_drop, ht]; rfl
    have hloop : gsubWithLoop src p fn false n (s + 1) last = some t' := ih hlt hrest (by omega)
      fun l hl => (hlast l hl).trans (Nat.le_succ s)
    rw [gsubWithLoop, himpl.skips s hs (by rw [ht]; exact hstep), hc, Option.bind_some, Option.filter_none,
      Option.elim_none, Option.elim_some, if_neg Bool.false_ne_true, hloop, Option.map_some]
  | @hit t value rest t' hstep h ih =>
    intro n s last hs ht hn hlast
    have hn0 : n ≠ 0 := by omega
    obtain ⟨n, rfl⟩ := Nat.exists_eq_succ_of_ne_zero hn0
    obtain ⟨m, hm, hlt, hle, hrest, hvalue⟩ := himpl.hits s hs value rest (by rw [ht]; exact hstep)
    -- a match that is not empty does not end where the last one did
    have hnew : some m.1 ≠ last := by
      intro hlast'
      have := hlast m.1 hlast'.symm
      omega
    have hloop : gsubWithLoop src p fn false n m.1 (some m.1) = some t' := ih hle hrest (by omega)
      fun l hl => (Option.some.inj hl).ge
    rw [gsubWithLoop, hm, Option.bind_some, Option.filter_some, if_pos (decide_eq_true hnew), Option.elim_some,
      hvalue, Option.bind_some]
    simp only [Bool.false_eq_true, if_false]
    rw [hloop]
    rfl

theorem gsubWith_of_replaced (hanchor : p.head? ≠ some 94) (himpl : Implements src p fn step)
    (h : Replaced step src t') : gsubWith src p fn = some t' := by
  rw [gsubWith]
  simp only [hanchor, decide_false, if_false]
  refine gsubWithLoop_of_replaced himpl h (Nat.zero_le _) rfl (by omega) fun l hl => ?_
  cases hl

end Steps

/-! ## Items that match a class -/

theorem isItem_dot : IsItem [46] fun _ => true where
  classEnd p := by simp [LuaPattern.classEnd]
  single src s := by
    rw [singleMatch]
    cases src[s]? with
    | none => rfl
    | some c => rfl
  notOpen := by decide
  notClose := by decide
  notEnd := by decide
  escape h := absurd h (by decide)

section Rules

variable {src p item : Text} {ok : UInt8 → Bool} {n depth s : ℕ} {caps : List Capture}

/-- An item that is the whole of a pattern. -/
theorem doMatch_item (hitem : IsItem item ok) : doMatch src (n + 2) depth item s caps =
    some (if (src[s]?).any ok then some (s + 1, caps) else none) := by
  obtain ⟨c, q, rfl, h40, h41, h36, hescape⟩ := hitem.exists_cons
  have hend : classEnd (c :: q) = some [] := by
    have := hitem.classEnd []
    rwa [List.append_nil] at this
  have hescape := hescape []
  rw [List.append_nil] at hescape
  rw [doMatch]
  simp only [h40, h41, h36, if_false, false_and, hend, Option.bind_some, List.length_nil, Nat.sub_zero,
    List.take_length, hitem.single, List.head?_nil, reduceCtorEq, doMatch_nil, Nat.add_zero]
  rw [if_neg hescape.1, if_neg hescape.2.1, if_neg hescape.2.2]
  split_ifs <;> rfl

/-- A lazy repetition is tried from nothing up. -/
theorem doMatch_minus_eq (hitem : IsItem item ok) :
    doMatch src (n + 1) (depth + 1) (item ++ 45 :: p) s caps =
      if (src[s]?).any ok then
        tryUp (fun i => doMatch src n depth p (s + i) caps) (fun i => (src[s + i]?).any ok) (src.length - s) 0
      else doMatch src n (depth + 1) p s caps := by
  obtain ⟨c, q, rfl, h40, h41, h36, hescape⟩ := hitem.exists_cons
  have hend : classEnd (c :: (q ++ 45 :: p)) = some (45 :: p) := hitem.classEnd (45 :: p)
  have htake : (c :: (q ++ 45 :: p)).take ((c :: (q ++ 45 :: p)).length - (45 :: p).length) = c :: q := by
    rw [← List.cons_append, List.length_append, Nat.add_sub_cancel, List.take_left]
  rw [List.cons_append, doMatch]
  simp only [h40, h41, h36, if_false, false_and, hend, Option.bind_some, htake, hitem.single, List.head?_cons,
    Nat.succ_ne_zero, Nat.add_sub_cancel, List.tail_cons, Option.some.injEq]
  rw [if_neg (hescape _).1, if_neg (hescape _).2.1, if_neg (hescape _).2.2, if_neg (by decide), if_neg (by decide),
    if_neg (by decide), if_pos trivial, Nat.add_zero]

/-- The first number that the rest goes on from is taken. -/
theorem tryUp_of_forall_lt {next : ℕ → Option (Option Match)} {one : ℕ → Bool} {j k n : ℕ} (hn : k ≤ n)
    (hbelow : ∀ i < k, next (j + i) = some none ∧ one (j + i) = true) (hk : next (j + k) ≠ some none) :
    tryUp next one n j = next (j + k) := by
  induction k generalizing j n with
  | zero =>
    cases n with
    | zero => rfl
    | succ n =>
      rw [tryUp]
      split
      · next heq => exact absurd heq hk
      · rfl
  | succ k ih =>
    obtain ⟨n, rfl⟩ := Nat.exists_eq_succ_of_ne_zero (Nat.ne_zero_of_lt hn)
    obtain ⟨hnext, hone⟩ := hbelow 0 k.succ_pos
    rw [Nat.add_zero] at hnext hone
    have hshift : ∀ i, j + (i + 1) = j + 1 + i := fun i => by omega
    rw [tryUp, hnext]
    simp only [hone, if_true]
    rw [hshift k] at hk ⊢
    refine ih (Nat.le_of_succ_le_succ hn) (fun i hi => ?_) hk
    rw [← hshift]
    exact hbelow (i + 1) (Nat.succ_lt_succ hi)

theorem tryUp_eq_none {next : ℕ → Option (Option Match)} {one : ℕ → Bool} (h : ∀ i, next i = some none)
    (n j : ℕ) : tryUp next one n j = some none := by
  induction n generalizing j with
  | zero => exact h j
  | succ n ih =>
    rw [tryUp, h j]
    simp only [ih (j + 1), ite_self]

end Rules

/-! ## Finding a byte of a class -/

theorem findLoop_item {item : Text} {ok : UInt8 → Bool} (hitem : IsItem item ok) {src : Text} {n s : ℕ}
    (hn : s + n = src.length + 1) : ∃ found, findLoop src item n s = some found ∧
      found.isSome = (src.drop s).any ok ∧ ∀ m ∈ found, m.2.2 = [] := by
  obtain ⟨c, q, hcons, -⟩ := hitem.exists_cons
  have hmatch : ∀ s, doMatch src (item.length + 1) 199 item s [] =
      some (if (src[s]?).any ok then some (s + 1, []) else none) := by
    intro s
    have hlength : item.length + 1 = q.length + 2 := by rw [hcons, List.length_cons]
    rw [hlength]
    exact doMatch_item hitem
  induction n generalizing s with
  | zero =>
    refine ⟨none, rfl, ?_, fun m hm => nomatch hm⟩
    rw [List.drop_eq_nil_of_le (by omega)]
    rfl
  | succ n ih =>
    rw [findLoop, hmatch]
    cases hc : src[s]? with
    | none =>
      have hend : src.length ≤ s := List.getElem?_eq_none_iff.1 hc
      obtain rfl : n = 0 := by omega
      refine ⟨none, rfl, ?_, fun m hm => nomatch hm⟩
      rw [List.drop_eq_nil_of_le hend]
      rfl
    | some b =>
      obtain ⟨hlt, hget⟩ := List.getElem?_eq_some_iff.1 hc
      rw [List.drop_eq_getElem_cons hlt, hget, List.any_cons]
      cases hok : ok b with
      | true =>
        refine ⟨some (s, s + 1, []), ?_, rfl, ?_⟩
        · rw [Option.any_some, if_pos hok]
        · rintro m ⟨⟩
          rfl
      | false =>
        obtain ⟨found, hfound, hany, hcaps⟩ := ih (s := s + 1) (by omega)
        refine ⟨found, ?_, hany, hcaps⟩
        rw [Option.any_some, if_neg (Bool.eq_false_iff.1 hok)]
        exact hfound

/-- Whether a byte of the class is found. -/
theorem isSome_strFind_item {item : Text} {ok : UInt8 → Bool} (hitem : IsItem item ok)
    (hanchor : item.head? ≠ some 94) (src : Text) :
    (strFind src item).map Option.isSome = some (src.any ok) := by
  obtain ⟨found, hfound, hany, hcaps⟩ := findLoop_item hitem (Nat.zero_add (src.length + 1))
  rw [strFind]
  simp only [hanchor, if_false]
  rw [hfound, Option.bind_some, ← List.drop_zero (l := src), ← hany]
  cases found with
  | none => rfl
  | some m =>
    rw [Option.elim_some, hcaps m rfl]
    rfl

theorem isSome_findPlain {src text : Text} : (findPlain src text).isSome = true ↔ text <:+: src := by
  rw [findPlain, List.find?_isSome]
  constructor
  · rintro ⟨s, -, hs⟩
    obtain ⟨rest, hrest⟩ := List.isPrefixOf_iff_prefix.1 hs
    exact ⟨src.take s, rest, by rw [List.append_assoc, hrest, List.take_append_drop]⟩
  · rintro ⟨front, rest, rfl⟩
    refine ⟨front.length, List.mem_range.2 ?_, List.isPrefixOf_iff_prefix.2 ?_⟩
    · simp only [List.length_append]
      omega
    · rw [List.append_assoc, List.drop_left]
      exact List.prefix_append _ _

/-! ## What is between a text and a closing byte -/

/-- The pattern `literal(.-)close`. -/
def between (literal : Text) (close : UInt8) : Text := literal ++ [40, 46, 45, 41, close]

/-- The step of this pattern, where `value` is the replacement for a capture. -/
def betweenStep (literal : Text) (close : UInt8) (value : Text → Text) (t : Text) : Option (Text × Text) :=
  if literal <+: t then
    let left := t.drop literal.length
    if close ∈ left then some (value (left.takeWhile (· ≠ close)), (left.dropWhile (· ≠ close)).tail)
    else none
  else none

section Between

variable {literal t t' rest body : Text} {close : UInt8} {value : Text → Text}

theorem forall_ne_of_notMem (hbody : close ∉ body) : ∀ c ∈ body, decide (c ≠ close) = true := by
  intro c hc
  rw [decide_eq_true_eq]
  rintro rfl
  exact hbody hc

/-- What is in front of the closing byte. -/
theorem takeWhile_append_close (hbody : close ∉ body) (rest : Text) :
    (body ++ close :: rest).takeWhile (· ≠ close) = body := by
  rw [List.takeWhile_append_of_pos (forall_ne_of_notMem hbody)]
  simp

theorem betweenStep_append (hbody : close ∉ body) :
    betweenStep literal close value (literal ++ (body ++ close :: rest)) = some (value body, rest) := by
  have hrest : (body ++ close :: rest).dropWhile (· ≠ close) = close :: rest := by
    rw [List.dropWhile_append_of_pos (forall_ne_of_notMem hbody)]
    simp
  rw [betweenStep, if_pos (List.prefix_append _ _), List.drop_left]
  dsimp only
  rw [if_pos (List.mem_append_right _ List.mem_cons_self), takeWhile_append_close hbody, hrest, List.tail_cons]

theorem betweenStep_of_not_start (h : ¬literal <+: t) : betweenStep literal close value t = none := if_neg h

theorem betweenStep_eq_some {new : Text} (h : betweenStep literal close value t = some (new, rest)) :
    ∃ body, close ∉ body ∧ t = literal ++ (body ++ close :: rest) ∧ new = value body := by
  by_cases hprefix : literal <+: t
  · obtain ⟨left, rfl⟩ := hprefix
    by_cases hclose : close ∈ left
    · obtain ⟨body, rest', rfl, hbody⟩ := List.eq_append_cons_of_mem hclose
      rw [betweenStep_append hbody] at h
      cases h
      exact ⟨body, hbody, rfl, rfl⟩
    · rw [betweenStep, if_pos (List.prefix_append _ _), List.drop_left] at h
      dsimp only at h
      rw [if_neg hclose] at h
      cases h
  · rw [betweenStep_of_not_start hprefix] at h
    cases h

theorem betweenStep_eq_none (h : betweenStep literal close value t = none) :
    ¬literal <+: t ∨ ∃ left, t = literal ++ left ∧ close ∉ left := by
  refine or_iff_not_imp_left.2 fun hprefix => ?_
  obtain ⟨left, rfl⟩ := not_not.1 hprefix
  refine ⟨left, rfl, fun hclose => ?_⟩
  obtain ⟨body, rest, rfl, hbody⟩ := List.eq_append_cons_of_mem hclose
  rw [betweenStep_append hbody] at h
  cases h

/-- A text that does not start like the pattern is passed over. -/
theorem Replaced.pass {first : UInt8} (hfirst : literal.head? = some first) (ht : first ∉ t)
    (h : Replaced (betweenStep literal close value) rest t') :
    Replaced (betweenStep literal close value) (t ++ rest) (t ++ t') := by
  induction t with
  | nil => exact h
  | cons c t ih =>
    obtain ⟨hc, ht⟩ := not_or.1 (List.mem_cons.not.1 ht)
    refine .skip (betweenStep_of_not_start fun hprefix => hc ?_) (ih ht)
    obtain ⟨literal, rfl⟩ : ∃ l, literal = first :: l := List.head?_eq_some_iff.1 hfirst
    exact (List.cons_prefix_cons.1 hprefix).1

/-- Nothing changes if all that can be captured is left as it is. -/
theorem Replaced.eq_self (h : Replaced (betweenStep literal close value) t t')
    (hvalue : ∀ body, body <:+: t → value body = literal ++ (body ++ [close])) : t' = t := by
  induction h with
  | nil => rfl
  | @skip c t t' hstep h ih =>
    rw [ih fun body hbody => hvalue body (hbody.trans (List.suffix_cons c t).isInfix)]
  | @hit t new rest t' hstep h ih =>
    obtain ⟨body, -, rfl, rfl⟩ := betweenStep_eq_some hstep
    have hrest : rest <:+ literal ++ (body ++ close :: rest) :=
      ((List.suffix_cons close rest).trans (List.suffix_append body _)).trans (List.suffix_append literal _)
    have hbody : body <:+: literal ++ (body ++ close :: rest) := ⟨literal, close :: rest, by simp⟩
    rw [ih fun b hb => hvalue b (hb.trans hrest.isInfix), hvalue body hbody]
    simp

theorem doMatch_between_eq {src : Text} {s : ℕ} (hliteral : Plain literal) :
    doMatch src ((between literal close).length + 1) 199 (between literal close) s [] =
      if literal <+: src.drop s then doMatch src 6 199 [40, 46, 45, 41, close] (s + literal.length) []
      else some none := by
  have hlength : (between literal close).length + 1 = 6 + literal.length := by
    rw [between, List.length_append]
    simp only [List.length_cons, List.length_nil]
    omega
  rw [hlength, between, doMatch_literal hliteral]
  exact fun c hc => by cases hc; decide

section Matching

variable {src : Text} {s : ℕ} (hclose : close ∉ specials)
include hclose

/-- Behind the capture only the closing byte goes on. -/
theorem doMatch_closing (depth i : ℕ) :
    doMatch src 4 (depth + 1) [41, close] (s + i) [⟨s, .unfinished⟩] =
      some (if src[s + i]? = some close then some (s + i + 1, [⟨s, .bytes i⟩]) else none) := by
  have hplain : Plain [close] := fun c hc => List.mem_singleton.1 hc ▸ hclose
  rw [doMatch_close]
  have hcapture : closeCapture (s + i) [⟨s, .unfinished⟩] = some [⟨s, .bytes i⟩] := by
    simp [closeCapture]
  rw [hcapture, Option.bind_some, doMatch_plain src hplain _ _ _ (by simp)]
  simp [cons_prefix_drop_iff]

theorem doMatch_lazy : doMatch src 6 199 [40, 46, 45, 41, close] s [] =
    if (src[s]?).any (fun _ => true) then
      tryUp (fun i => some (if src[s + i]? = some close then some (s + i + 1, [⟨s, .bytes i⟩]) else none))
        (fun i => (src[s + i]?).any fun _ => true) (src.length - s) 0
    else some (if src[s]? = some close then some (s + 1, [⟨s, .bytes 0⟩]) else none) := by
  have hnil : ([] : List Capture) ++ [⟨s, .unfinished⟩] = [⟨s, .unfinished⟩] := rfl
  have hlazy : doMatch src 5 198 ([46] ++ 45 :: [41, close]) s [⟨s, .unfinished⟩] = _ :=
    doMatch_minus_eq isItem_dot
  rw [doMatch_open (by simp) (by decide), hnil]
  refine hlazy.trans ?_
  simp only [doMatch_closing hclose]
  exact if_congr Iff.rfl rfl (doMatch_closing hclose 197 0)

theorem doMatch_lazy_of_mem (hsrc : src.drop s = body ++ close :: rest) (hbody : close ∉ body) :
    doMatch src 6 199 [40, 46, 45, 41, close] s [] =
      some (some (s + body.length + 1, [⟨s, .bytes body.length⟩])) := by
  have hat : ∀ i, src[s + i]? = (body ++ close :: rest)[i]? := fun i => by rw [← hsrc, List.getElem?_drop]
  have hlength : body.length ≤ src.length - s := by
    rw [← List.length_drop, hsrc, List.length_append]
    omega
  have hend : src[s + body.length]? = some close := by
    rw [hat, List.getElem?_append_right le_rfl, Nat.sub_self]
    rfl
  have hhead : (src[s]?).any (fun _ => true) = true := by
    have := hat 0
    rw [Nat.add_zero] at this
    rw [this]
    cases body <;> rfl
  rw [doMatch_lazy hclose, if_pos hhead, tryUp_of_forall_lt hlength, Nat.zero_add, if_pos hend]
  · -- a byte of the body does not close
    intro i hi
    have hbyte : src[s + i]? = some body[i] := by
      rw [hat, List.getElem?_append_left hi, List.getElem?_eq_getElem hi]
    rw [Nat.zero_add, hbyte]
    refine ⟨congrArg some (if_neg fun h => hbody ?_), rfl⟩
    exact Option.some.inj h ▸ List.getElem_mem hi
  · rw [Nat.zero_add, if_pos hend]
    exact fun h => nomatch h

theorem doMatch_lazy_of_notMem (hsrc : close ∉ src.drop s) :
    doMatch src 6 199 [40, 46, 45, 41, close] s [] = some none := by
  have hne : ∀ i, src[s + i]? ≠ some close := by
    intro i hi
    rw [← List.getElem?_drop] at hi
    exact hsrc (List.mem_of_getElem? hi)
  rw [doMatch_lazy hclose, tryUp_eq_none fun i => congrArg some (if_neg (hne i)),
    if_neg (c := src[s]? = some close) (hne 0), ite_self]

/-- The matcher goes by `betweenStep`. -/
theorem implements_between (hliteral : Plain literal) {fn : List Text → Option (Option Text)}
    (hfn : ∀ body, fn [body] = some (some (value body))) :
    Implements src (between literal close) fn (betweenStep literal close value) where
  skips s hs hstep := by
    rw [doMatch_between_eq hliteral]
    refine ite_eq_right_iff.2 fun hprefix => ?_
    obtain hprefix' | ⟨left, hleft, hnotMem⟩ := betweenStep_eq_none hstep
    · exact absurd hprefix hprefix'
    · refine doMatch_lazy_of_notMem hclose ?_
      rwa [← List.drop_drop, hleft, List.drop_left]
  hits s hs new rest hstep := by
    obtain ⟨body, hbody, hsrc, rfl⟩ := betweenStep_eq_some hstep
    have hleft : src.drop (s + literal.length) = body ++ close :: rest := by
      rw [← List.drop_drop, hsrc, List.drop_left]
    refine ⟨_, (doMatch_between_eq hliteral).trans ((if_pos ?_).trans (doMatch_lazy_of_mem hclose hleft hbody)),
      ?_, ?_, ?_, ?_⟩
    · rw [hsrc]
      exact List.prefix_append _ _
    · dsimp only
      omega
    · have hlength := congrArg List.length hsrc
      simp only [List.length_drop, List.length_append, List.length_cons] at hlength
      dsimp only
      omega
    · dsimp only
      rw [Nat.add_assoc, ← List.drop_drop, hleft]
      simp
    · have hcapture : pushCaptures src s (s + literal.length + body.length + 1,
          [⟨s + literal.length, .bytes body.length⟩]) =
            some [(src.drop (s + literal.length)).take body.length] := rfl
      rw [hcapture, hleft, List.take_left, Option.bind_some, hfn]

/-- What `gsub` makes of a text with such a pattern. -/
theorem gsubWith_between (hliteral : Plain literal) (hne : literal ≠ [])
    {fn : List Text → Option (Option Text)} (hfn : ∀ body, fn [body] = some (some (value body)))
    (h : Replaced (betweenStep literal close value) src t') :
    gsubWith src (between literal close) fn = some t' := by
  refine gsubWith_of_replaced ?_ (implements_between hclose hliteral hfn) h
  obtain ⟨c, l, rfl⟩ := List.exists_cons_of_ne_nil hne
  intro hhead
  cases hhead
  exact hliteral 94 List.mem_cons_self (by decide)

end Matching

end Between

end LuaPattern
