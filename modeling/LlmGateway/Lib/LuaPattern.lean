import LlmGateway.Lib.Template

/-!
# The patterns of Lua

`string.gsub` of Lua 5.3 with a string as the replacement: the matcher with its character classes, sets,
repetitions, captures, balanced matches and frontiers, on texts that are lists of bytes.  `none` is an error
that is raised, such as for a malformed pattern.

In a replacement a percent sign is an escape: `%%` is a percent sign, `%0` the match, `%1` to `%9` are the
captures, and anything else is an error (`addS`).

A pattern without special characters matches only itself (`doMatch_plain`), so that with it `gsub` replaces a
text (`gsub_of_literal`), but the replacement is still expanded.
-/

namespace LuaPattern

/-- A text is a list of bytes. -/
abbrev Text := List UInt8

/-! ## Character classes -/

/-- A decimal digit. -/
def isDigit (c : UInt8) : Bool := 48 ≤ c ∧ c ≤ 57

/-- A capital letter. -/
def isUpper (c : UInt8) : Bool := 65 ≤ c ∧ c ≤ 90

/-- A small letter. -/
def isLower (c : UInt8) : Bool := 97 ≤ c ∧ c ≤ 122

/-- A letter. -/
def isAlpha (c : UInt8) : Bool := isUpper c || isLower c

/-- A letter or a digit. -/
def isAlnum (c : UInt8) : Bool := isAlpha c || isDigit c

/-- A control character. -/
def isCntrl (c : UInt8) : Bool := c < 32 ∨ c = 127

/-- A character that is printed, other than a space. -/
def isGraph (c : UInt8) : Bool := 33 ≤ c ∧ c ≤ 126

/-- A punctuation character. -/
def isPunct (c : UInt8) : Bool := isGraph c && !isAlnum c

/-- A space. -/
def isSpace (c : UInt8) : Bool := c = 32 ∨ 9 ≤ c ∧ c ≤ 13

/-- A hexadecimal digit. -/
def isXdigit (c : UInt8) : Bool := isDigit c || (97 ≤ c ∧ c ≤ 102) || (65 ≤ c ∧ c ≤ 70)

/-- The small letter for a capital one. -/
def toLower (c : UInt8) : UInt8 := if isUpper c then c + 32 else c

/-- The class of a lower-case letter after the percent sign. -/
def classOf (letter c : UInt8) : Option Bool :=
  if letter = 97 then some (isAlpha c)
  else if letter = 99 then some (isCntrl c)
  else if letter = 100 then some (isDigit c)
  else if letter = 103 then some (isGraph c)
  else if letter = 108 then some (isLower c)
  else if letter = 112 then some (isPunct c)
  else if letter = 115 then some (isSpace c)
  else if letter = 117 then some (isUpper c)
  else if letter = 119 then some (isAlnum c)
  else if letter = 120 then some (isXdigit c)
  else if letter = 122 then some (c = 0)
  else none

/-- `match_class`: an upper-case letter is the complement, and what is no class stands for itself. -/
def matchClass (c cl : UInt8) : Bool :=
  match classOf (toLower cl) c with
  | none => cl = c
  | some res => if isUpper cl then !res else res

/-- The elements of a set: escapes, ranges and single characters. -/
def inSet (c : UInt8) : Text → Bool
  | [] => false
  | [a] => a = c
  | [a, b] => if a = 37 then matchClass c b else a = c || b = c
  | a :: b :: d :: set =>
      if a = 37 then matchClass c b || inSet c (d :: set)
      else if b = 45 then (a ≤ c && c ≤ d) || inSet c set
      else a = c || inSet c (b :: d :: set)

/-- `matchbracketclass`, between the brackets. -/
def matchSet (c : UInt8) : Text → Bool
  | 94 :: set => !inSet c set
  | set => inSet c set

/-- What follows the bracket that closes a set.  The first element of a set may be a closing bracket. -/
def setEnd : Bool → Text → Option Text
  | _, [] => none
  | first, [c] => if c = 93 ∧ !first then some [] else none
  | first, c :: e :: p =>
      if c = 93 ∧ !first then some (e :: p)
      else if c = 37 then setEnd false p
      else setEnd false (e :: p)

/-- `classEnd`: what follows the first item of a pattern. -/
def classEnd : Text → Option Text
  | [] => none
  | 37 :: p => if p = [] then none else some p.tail
  | 91 :: 94 :: p => setEnd true p
  | 91 :: p => setEnd true p
  | _ :: p => some p

/-- `singlematch`, of an item against the byte at `s`. -/
def singleMatch (src : Text) (s : ℕ) (item : Text) : Bool :=
  match src[s]? with
  | none => false
  | some c =>
      match item with
      | [] => false
      | 46 :: _ => true
      | 37 :: cl :: _ => matchClass c cl
      | 91 :: set => matchSet c set.dropLast
      | a :: _ => a = c

/-! ## Matching -/

/-- How far a capture goes. -/
inductive Extent where
  | unfinished
  | position
  | bytes (n : ℕ)
  deriving DecidableEq

/-- Where a capture starts, and how far it reaches. -/
structure Capture where
  start : ℕ
  extent : Extent
  deriving DecidableEq

/-- The end of a match and the captures. -/
abbrev Match := ℕ × List Capture

/-- `end_capture`: close the last capture that is open. -/
def closeCapture (s : ℕ) : List Capture → Option (List Capture)
  | [] => none
  | cap :: caps =>
      match closeCapture s caps with
      | some caps => some (cap :: caps)
      | none => if cap.extent = .unfinished then some ({ cap with extent := .bytes (s - cap.start) } :: caps) else none

/-- `matchbalance`, after the opening character. -/
def balanceEnd (src : Text) (x y : UInt8) : ℕ → ℕ → ℕ → Option ℕ
  | 0, _, _ => none
  | n + 1, s, depth =>
      match src[s]? with
      | none => none
      | some c =>
          if c = y then if depth = 1 then some (s + 1) else balanceEnd src x y n (s + 1) (depth - 1)
          else balanceEnd src x y n (s + 1) (if c = x then depth + 1 else depth)

/-- `max_expand`: from `i` matches of the item down. -/
def tryDown (next : ℕ → Option (Option Match)) : ℕ → Option (Option Match)
  | 0 => next 0
  | i + 1 =>
      match next (i + 1) with
      | some none => tryDown next i
      | res => res

/-- `min_expand`: one match of the item more each time. -/
def tryUp (next : ℕ → Option (Option Match)) (one : ℕ → Bool) : ℕ → ℕ → Option (Option Match)
  | 0, i => next i
  | n + 1, i =>
      match next i with
      | some none => if one i then tryUp next one n (i + 1) else some none
      | res => res

/-- `match`: the rest `p` of a pattern at `s`.  A nested call takes one from `depth` (`matchdepth`), and a
pattern with too many of them is an error.  Each call has a shorter pattern, so that `fuel` need not be more than
its length. -/
def doMatch (src : Text) : ℕ → ℕ → Text → ℕ → List Capture → Option (Option Match)
  | 0, _, _, _, _ => none
  | _ + 1, _, [], s, caps => some (some (s, caps))
  | fuel + 1, depth, c :: p, s, caps =>
      let nested p s caps := if depth = 0 then none else doMatch src fuel (depth - 1) p s caps
      if c = 40 then
        if 32 ≤ caps.length then none
        else if p.head? = some 41 then nested p.tail s (caps ++ [⟨s, .position⟩])
        else nested p s (caps ++ [⟨s, .unfinished⟩])
      else if c = 41 then (closeCapture s caps).bind fun caps => nested p s caps
      else if c = 36 ∧ p = [] then some (if s = src.length then some (s, caps) else none)
      else if c = 37 ∧ p.head? = some 98 then
        match p.tail with
        | x :: y :: p =>
            if src[s]? = some x then
              match balanceEnd src x y src.length (s + 1) 1 with
              | some s => doMatch src fuel depth p s caps
              | none => some none
            else some none
        | _ => none
      else if c = 37 ∧ p.head? = some 102 then
        if p.tail.head? ≠ some 91 then none
        else
          (classEnd p.tail).bind fun ep =>
            let set := ((p.tail.take (p.tail.length - ep.length)).drop 1).dropLast
            let previous := if s = 0 then 0 else src.getD (s - 1) 0
            if !matchSet previous set && matchSet (src.getD s 0) set then doMatch src fuel depth ep s caps
            else some none
      else if c = 37 ∧ p.head?.any isDigit then
        match p.head?.bind fun l => if l = 48 then none else caps[l.toNat - 49]? with
        | none => none
        | some ⟨_, .unfinished⟩ => none
        | some ⟨_, .position⟩ => some none
        | some ⟨start, .bytes n⟩ =>
            if (src.drop start).take n <+: src.drop s then doMatch src fuel depth p.tail (s + n) caps else some none
      else
        (classEnd (c :: p)).bind fun ep =>
          let item := (c :: p).take ((c :: p).length - ep.length)
          let one i := singleMatch src (s + i) item
          if ep.head? = some 63 then
            if one 0 then
              match nested ep.tail (s + 1) caps with
              | some none => doMatch src fuel depth ep.tail s caps
              | res => res
            else doMatch src fuel depth ep.tail s caps
          else if ep.head? = some 43 then
            if one 0 then
              tryDown (fun i => nested ep.tail (s + 1 + i) caps)
                (((List.range (src.length - (s + 1))).takeWhile fun i => one (i + 1)).length)
            else some none
          else if ep.head? = some 42 then
            if one 0 then
              tryDown (fun i => nested ep.tail (s + i) caps)
                (((List.range (src.length - s)).takeWhile one).length)
            else doMatch src fuel depth ep.tail s caps
          else if ep.head? = some 45 then
            if one 0 then tryUp (fun i => nested ep.tail (s + i) caps) one (src.length - s) 0
            else doMatch src fuel depth ep.tail s caps
          else if one 0 then doMatch src fuel depth ep (s + 1) caps
          else some none

/-! ## Replacing -/

/-- The text of a capture. -/
def captureText (src : Text) (whole : Text) (caps : List Capture) (l : ℕ) : Option Text :=
  match caps[l]? with
  | none => if l = 0 then some whole else none
  | some ⟨_, .unfinished⟩ => none
  | some ⟨start, .position⟩ => some ((toString (start + 1)).toByteArray.data.toList)
  | some ⟨start, .bytes n⟩ => some ((src.drop start).take n)

/-- `add_s`: the replacement for a match. -/
def addS (src whole : Text) (caps : List Capture) : Text → Option Text
  | [] => some []
  | [c] => if c = 37 then none else some [c]
  | c :: d :: repl =>
      if c ≠ 37 then (addS src whole caps (d :: repl)).map (c :: ·)
      else if d = 37 then (addS src whole caps repl).map (37 :: ·)
      else if d = 48 then (addS src whole caps repl).map (whole ++ ·)
      else if isDigit d then
        (captureText src whole caps (d.toNat - 49)).bind fun text =>
          (addS src whole caps repl).map (text ++ ·)
      else none

/-- The loop of `str_gsub` from `s` on, where `last` is the end of the last match. -/
def gsubLoop (src p repl : Text) (anchor : Bool) : ℕ → ℕ → Option ℕ → Option Text
  | 0, _, _ => none
  | n + 1, s, last =>
      match doMatch src (p.length + 1) 199 p s [] with
      | none => none
      | some res =>
          match res.filter fun m => some m.1 ≠ last with
          | some (e, caps) =>
              (addS src ((src.drop s).take (e - s)) caps repl).bind fun text =>
                if anchor then some (text ++ src.drop e)
                else (gsubLoop src p repl anchor n e (some e)).map (text ++ ·)
          | none =>
              match src[s]? with
              | none => some []
              | some c =>
                  if anchor then some (src.drop s)
                  else (gsubLoop src p repl anchor n (s + 1) last).map (c :: ·)

/-- `string.gsub(src, pattern, repl)`.  Each position is tried twice at most. -/
def gsub (src pattern repl : Text) : Option Text :=
  let anchor := pattern.head? = some 94
  gsubLoop src (if anchor then pattern.tail else pattern) repl anchor (2 * src.length + 2) 0 none

/-! ## Replacements -/

/-- The replacement for a match without captures. -/
def expand (whole repl : Text) : Option Text := addS [] whole [] repl

/-- Each percent sign starts an escape that a pattern without captures has. -/
def escaped : Text → Bool
  | [] => true
  | [c] => c ≠ 37
  | c :: d :: repl =>
      if c ≠ 37 then escaped (d :: repl) else (d = 37 || d = 48 || d = 49) && escaped repl

theorem addS_nil (src whole : Text) : ∀ repl : Text, addS src whole [] repl = expand whole repl
  | [] => rfl
  | [_] => rfl
  | c :: d :: repl => by
      have hlong := addS_nil src whole (d :: repl)
      have hshort := addS_nil src whole repl
      have hcapture : ∀ l, captureText src whole [] l = captureText [] whole [] l := fun _ => rfl
      unfold expand at *
      rw [addS, addS, hlong, hshort, hcapture]

/-- A text without percent signs is its own expansion. -/
theorem expand_of_notMem (whole : Text) {repl : Text} (h : 37 ∉ repl) : expand whole repl = some repl := by
  induction repl with
  | nil => rfl
  | cons c repl ih =>
      obtain ⟨hc, hrepl⟩ := not_or.1 (List.mem_cons.not.1 h)
      cases repl with
      | nil => simp [expand, addS, Ne.symm hc]
      | cons d repl =>
        have hrest := ih hrepl
        rw [expand] at hrest ⊢
        rw [addS, if_pos (Ne.symm hc), hrest, Option.map_some]

theorem isSome_expand (whole : Text) : ∀ repl : Text, (expand whole repl).isSome = escaped repl
  | [] => rfl
  | [c] => by by_cases hc : c = 37 <;> simp [expand, addS, escaped, hc]
  | c :: d :: repl => by
      have hlong := isSome_expand whole (d :: repl)
      have hshort := isSome_expand whole repl
      unfold expand at *
      rw [addS, escaped]
      split_ifs with hc hd hd' hdigit
      · rw [Option.isSome_map, hlong]
      · rw [Option.isSome_map, hshort, hd]
        rfl
      · rw [Option.isSome_map, hshort, hd']
        rfl
      · by_cases hone : d = 49
        · rw [hone, captureText]
          simp [hshort]
        · -- there are no captures, so that only the first one, the match, can be named
          have hpos : d.toNat - 49 ≠ 0 := by
            have hle : 48 ≤ d.toNat := UInt8.le_iff_toNat_le.1 (of_decide_eq_true hdigit).1
            have hne : d.toNat ≠ 48 := fun h => hd' (UInt8.toNat_inj.1 h)
            have hne' : d.toNat ≠ 49 := fun h => hone (UInt8.toNat_inj.1 h)
            omega
          simp [captureText, hd, hd', hone, hpos]
      · have hone : d ≠ 49 := by
          rintro rfl
          exact hdigit (by decide)
        simp [hd, hd', hone]

/-! ## Patterns without special characters -/

/-- The characters that have a meaning in patterns. -/
def specials : Text := [94, 36, 40, 41, 37, 46, 91, 42, 43, 45, 63]

/-- A pattern that has no special characters. -/
def Plain (p : Text) : Prop := ∀ c ∈ p, c ∉ specials

instance (p : Text) : Decidable (Plain p) := List.decidableBAll (· ∉ specials) p

theorem cons_prefix_drop_iff {src p : Text} {c : UInt8} {s : ℕ} :
    c :: p <+: src.drop s ↔ src[s]? = some c ∧ p <+: src.drop (s + 1) := by
  cases hc : src[s]? with
  | none =>
    rw [List.drop_eq_nil_of_le (List.getElem?_eq_none_iff.1 hc)]
    simp
  | some c' =>
    obtain ⟨hlt, hget⟩ := List.getElem?_eq_some_iff.1 hc
    rw [List.drop_eq_getElem_cons hlt, hget, List.cons_prefix_cons, Option.some.injEq, eq_comm]

/-- An item that is a single character, not a special one. -/
theorem singleMatch_of_notMem (src : Text) (s : ℕ) {c : UInt8} (hc : c ∉ specials) :
    singleMatch src s [c] = decide (src[s]? = some c) := by
  unfold singleMatch
  cases src[s]? with
  | none => simp
  | some c' =>
    dsimp only
    split
    · next h => cases h
    · next h =>
      cases h
      exact absurd (by decide) hc
    · next h => cases h
    · next h =>
      cases h
      exact absurd (by decide) hc
    · next h =>
      cases h
      simp [eq_comm]

theorem classEnd_of_notMem {c : UInt8} (hc : c ∉ specials) (p : Text) : classEnd (c :: p) = some p := by
  rw [classEnd.eq_def]
  split
  · next h => cases h
  · next h =>
    cases h
    exact absurd (by decide) hc
  · next h =>
    cases h
    exact absurd (by decide) hc
  · next h =>
    cases h
    exact absurd (by decide) hc
  · next h =>
    cases h
    rfl

/-- A pattern without special characters matches itself. -/
theorem doMatch_plain (src : Text) {p : Text} (hp : Plain p) (depth s : ℕ) (caps : List Capture) {fuel : ℕ}
    (hfuel : p.length < fuel) : doMatch src fuel depth p s caps =
      some (if p <+: src.drop s then some (s + p.length, caps) else none) := by
  induction p generalizing fuel s with
  | nil =>
    obtain ⟨fuel, rfl⟩ := Nat.exists_eq_succ_of_ne_zero (Nat.ne_zero_of_lt hfuel)
    simp [doMatch]
  | cons c p ih =>
    obtain ⟨fuel, rfl⟩ := Nat.exists_eq_succ_of_ne_zero (Nat.ne_zero_of_lt hfuel)
    have hc : c ∉ specials := hp c List.mem_cons_self
    have hrest := ih (fun c' hc' => hp c' (List.mem_cons_of_mem _ hc')) (s + 1)
      (Nat.lt_of_succ_lt_succ hfuel)
    have hitem : (c :: p).take ((c :: p).length - p.length) = [c] := by simp
    -- no repetition follows, for the next character is not a special one
    have hhead : ∀ c' ∈ specials, p.head? ≠ some c' := fun c' hc' hhead =>
      hp c' (List.mem_cons_of_mem _ (List.mem_of_mem_head? hhead)) hc'
    have h63 : p.head? ≠ some 63 := hhead 63 (by decide)
    have h43 : p.head? ≠ some 43 := hhead 43 (by decide)
    have h42 : p.head? ≠ some 42 := hhead 42 (by decide)
    have h45 : p.head? ≠ some 45 := hhead 45 (by decide)
    have hne : ∀ c' ∈ specials, c ≠ c' := fun c' hc' h => hc (h ▸ hc')
    rw [doMatch]
    simp only [hne 40 (by decide), hne 41 (by decide), hne 36 (by decide), hne 37 (by decide), if_false,
      false_and, classEnd_of_notMem hc, Option.bind_some, hitem, h63, h43, h42, h45, Nat.add_zero,
      singleMatch_of_notMem src s hc, decide_eq_true_eq, hrest, cons_prefix_drop_iff]
    by_cases hhere : src[s]? = some c
    · rw [if_pos hhere]
      simp only [hhere, true_and, List.length_cons, Nat.add_assoc, Nat.add_comm 1]
    · rw [if_neg hhere]
      simp [hhere]

/-- As a pattern, the text matches itself and nothing else in `src`. -/
def Literal (src p : Text) : Prop :=
  p.head? ≠ some 94 ∧ ∀ s ≤ src.length, doMatch src (p.length + 1) 199 p s [] =
    some (if p <+: src.drop s then some (s + p.length, []) else none)

instance (src p : Text) : Decidable (Literal src p) :=
  inferInstanceAs (Decidable (_ ∧ ∀ s ≤ src.length, _))

theorem literal_of_plain (src : Text) {p : Text} (hp : Plain p) : Literal src p :=
  ⟨fun h => hp 94 (List.mem_of_mem_head? h) (by decide),
    fun s _ => doMatch_plain src hp 199 s [] (Nat.lt_succ_self _)⟩

/-- What `gsub` does with a pattern that matches only itself. -/
def replaceExpanded (p repl src : Text) : Option Text :=
  if p <:+: src then (expand p repl).map fun text => Template.replaceAll p text src else some src

theorem replaceExpanded_of_expand {p repl text : Text} (h : expand p repl = some text) (src : Text) :
    replaceExpanded p repl src = some (Template.replaceAll p text src) := by
  rw [replaceExpanded, h]
  split_ifs with hwithin
  · rfl
  · rw [Template.replaceAll_of_not_infix hwithin]

theorem replaceExpanded_append {p : Text} (hne : p ≠ []) (repl src : Text) :
    replaceExpanded p repl (p ++ src) =
      (expand p repl).bind fun text => (replaceExpanded p repl src).map (text ++ ·) := by
  rw [replaceExpanded, if_pos (List.prefix_append p src).isInfix]
  cases hexpand : expand p repl with
  | none => rfl
  | some text => simp [replaceExpanded_of_expand hexpand, Template.replaceAll_append hne]

theorem replaceExpanded_cons {p src : Text} {c : UInt8} (hstarts : ¬p <+: c :: src) (repl : Text) :
    replaceExpanded p repl (c :: src) = (replaceExpanded p repl src).map (c :: ·) := by
  have hwithin : p <:+: c :: src ↔ p <:+: src := by
    rw [List.infix_cons_iff, or_iff_right hstarts]
  by_cases hlater : p <:+: src
  · rw [replaceExpanded, replaceExpanded, if_pos hlater, if_pos (hwithin.2 hlater), Option.map_map]
    refine Option.map_congr fun text _ => ?_
    exact Template.replaceAll_cons hstarts
  · rw [replaceExpanded, replaceExpanded, if_neg hlater, if_neg fun h => hlater (hwithin.1 h)]
    rfl

theorem gsubLoop_of_literal {src p : Text} (hp : Literal src p) (hne : p ≠ []) (repl : Text) {n s : ℕ}
    (hs : s ≤ src.length) (hn : src.length - s < n) {last : Option ℕ} (hlast : ∀ l ∈ last, l ≤ s) :
    gsubLoop src p repl false n s last = replaceExpanded p repl (src.drop s) := by
  induction n generalizing s last with
  | zero => exact absurd hn (Nat.not_lt_zero _)
  | succ n ih =>
    have hpos : 0 < p.length := List.length_pos_of_ne_nil hne
    rw [gsubLoop, hp.2 s hs]
    dsimp only
    by_cases hstarts : p <+: src.drop s
    · have hnew : some (s + p.length) ≠ last := by
        rintro rfl
        have hle := hlast _ rfl
        omega
      have hlen : p.length ≤ src.length - s := by
        have hle := hstarts.length_le
        rwa [List.length_drop] at hle
      have hwhole : (src.drop s).take (s + p.length - s) = p := by
        rw [Nat.add_sub_cancel_left]
        exact List.prefix_iff_eq_take.1 hstarts |>.symm
      have hsplit : src.drop s = p ++ src.drop (s + p.length) := by
        obtain ⟨v, hv⟩ := hstarts
        rw [← hv, ← List.drop_drop, ← hv, List.drop_left]
      have hafter : ∀ l ∈ some (s + p.length), l ≤ s + p.length := fun l hl => (Option.some.inj hl).ge
      rw [if_pos hstarts, Option.filter_some_pos (by simpa using hnew)]
      dsimp only
      rw [hwhole, addS_nil, ih (by omega) (by omega) hafter, hsplit, replaceExpanded_append hne]
      rfl
    · rw [if_neg hstarts, Option.filter_none]
      dsimp only
      cases hget : src[s]? with
      | none =>
        have hnil : src.drop s = [] := List.drop_eq_nil_of_le (List.getElem?_eq_none_iff.1 hget)
        rw [hnil, replaceExpanded, if_neg fun h => hne (List.infix_nil.1 h)]
      | some c =>
        obtain ⟨hlt, hc⟩ := List.getElem?_eq_some_iff.1 hget
        have hsplit : src.drop s = c :: src.drop (s + 1) := by rw [List.drop_eq_getElem_cons hlt, hc]
        rw [hsplit] at hstarts
        dsimp only
        rw [if_neg Bool.false_ne_true, ih hlt (by omega) fun l hl => (hlast l hl).trans (Nat.le_succ s), hsplit,
          replaceExpanded_cons hstarts]

/-- With a pattern that matches only itself, `gsub` replaces it by the expanded replacement. -/
theorem gsub_of_literal {src p : Text} (hp : Literal src p) (hne : p ≠ []) (repl : Text) :
    gsub src p repl = replaceExpanded p repl src := by
  have hlast : ∀ l ∈ (none : Option ℕ), l ≤ 0 := fun _ h => nomatch h
  have hloop := gsubLoop_of_literal hp hne repl (n := 2 * src.length + 2) (Nat.zero_le _) (by omega) hlast
  rw [gsub]
  simp only [hp.1, decide_false, if_false]
  exact hloop

end LuaPattern
