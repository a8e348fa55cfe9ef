import Mathlib.Data.List.TakeWhile
import LlmGateway.Json
import LlmGateway.PluginManager
import LlmGateway.Lib.LuaReplace
import LlmGateway.Lib.Numerals

/-!
# The translation plugin

`plugins/example_translate.lua`.  The hook works on the text of the messages, with a pattern, but what comes out is
the text of a value: `mark` of the value that went in (`onRequest_compact`).  It changes nothing but strings that are
members with a key that is, or ends in a quotation mark and, `content`.  The pattern stops at the first quotation
mark of such a string, also at one that is escaped, so that the Chinese that is behind it does not count.

Inside a string literal a quotation mark has a backslash in front of it, which `"content"` has not, so that the
pattern can only start at a key (`prefix_flatMap_escape`).
-/

namespace LlmGateway

namespace PromptTranslate

open LuaPattern

variable {ν : Type}

/-! ## The hook -/

/-- `"[\228-\233]"`. -/
def chinese : Str := [91, 228, 45, 233, 93]

/-- The pattern that the hook replaces. -/
def contentPattern : Str := str "\"content\":\"(.-)\""

/-- The function that `string.gsub` calls. -/
def replacement (captures : List Str) : Option (Option Str) :=
  captures.head?.bind fun content =>
    (strFind content chinese).map fun found =>
      some (if found.isSome then str "\"content\":\"[zh->en] " ++ content ++ str "\""
        else str "\"content\":\"" ++ content ++ str "\"")

/-- `on_request`. -/
def onRequest (ctx : PluginContext ν) : HookRun ν :=
  (strFind ctx.messagesJson chinese).elim (.unchanged ctx none) fun found =>
    if found.isSome then
      (gsubWith ctx.messagesJson contentPattern replacement).elim (.unchanged ctx none) fun msgs =>
        { HookRun.unchanged ctx (some (str "MODIFY")) with messagesJson := some msgs }
    else .unchanged ctx (some (str "CONTINUE"))

/-! ## What it does to a value -/

/-- The first byte of a Chinese character. -/
def isChinese (c : UInt8) : Bool := 228 ≤ c && c ≤ 233

/-- A string is marked for Chinese in front of its first quotation mark. -/
def markString (s : Str) : Str :=
  if (s.takeWhile (· ≠ 34)).any isChinese then str "[zh->en] " ++ s else s

/-- The keys that the pattern takes for `content`. -/
def isContentKey (k : Str) : Bool := k = str "content" || (str "\"content").isSuffixOf k

mutual

/-- The value with its contents marked, where `content` says whether it is one. -/
def mark (content : Bool) : Json ν → Json ν
  | .null => .null
  | .bool b => .bool b
  | .int n => .int n
  | .float x => .float x
  | .string s => .string (if content then markString s else s)
  | .array xs => .array (markElems xs)
  | .object m => .object (markMembers m)

/-- `mark` in some elements, none of which is under a key. -/
def markElems : List (Json ν) → List (Json ν)
  | [] => []
  | x :: xs => mark false x :: markElems xs

/-- `mark` in some members, each under its key. -/
def markMembers : List (Str × Json ν) → List (Str × Json ν)
  | [] => []
  | (k, v) :: m => (k, mark (isContentKey k) v) :: markMembers m

end

/-! ## The text of a string -/

theorem forall_byte {P : UInt8 → Prop} (h : ∀ i : Fin 256, P (UInt8.ofFin i)) (c : UInt8) : P c :=
  UInt8.ofFin_toFin c ▸ h c.toFin

/-- A byte is printed as it is, or with a backslash in front; nothing that is put in front is Chinese. -/
theorem escape_spec : ∀ c : UInt8,
    (Json.escape c = [c] ∧ c ≠ 34 ∧ c ≠ 92 ∨ (Json.escape c).head? = some 92) ∧
      (c ≠ 34 → 34 ∉ Json.escape c) ∧ (Json.escape c).any isChinese = isChinese c :=
  forall_byte (by decide +kernel)

theorem escape_cases (c : UInt8) :
    Json.escape c = [c] ∧ c ≠ 34 ∧ c ≠ 92 ∨ (Json.escape c).head? = some 92 := (escape_spec c).1

theorem str_mark : str "\"" = [34] := by decide

theorem escape_quote : Json.escape 34 = [92, 34] := by decide

theorem quote_notMem_escape (c : UInt8) (hc : c ≠ 34) : 34 ∉ Json.escape c := (escape_spec c).2.1 hc

theorem any_escape (c : UInt8) : (Json.escape c).any isChinese = isChinese c := (escape_spec c).2.2

theorem any_flatMap_escape (s : Str) : (s.flatMap Json.escape).any isChinese = s.any isChinese := by
  simp [List.any_flatMap, any_escape]

theorem quote_notMem_flatMap {s : Str} (hs : 34 ∉ s) : 34 ∉ s.flatMap Json.escape := by
  intro h
  obtain ⟨c, hc, hescape⟩ := List.mem_flatMap.1 h
  exact quote_notMem_escape c (fun heq => hs (heq ▸ hc)) hescape

/-- A quotation mark that is behind bytes which need no backslash is the one that ends the string. -/
theorem prefix_flatMap_escape {w s rest u : Str} (hw : 34 ∉ w ∧ 92 ∉ w)
    (h : w ++ 34 :: rest <+: s.flatMap Json.escape ++ 34 :: u) : s = w ∧ rest <+: u := by
  induction w generalizing s with
  | nil =>
    cases s with
    | nil => exact ⟨rfl, (List.cons_prefix_cons.1 h).2⟩
    | cons c s =>
      rw [List.flatMap_cons, List.append_assoc, List.nil_append] at h
      obtain ⟨hc, hne, -⟩ | hc := escape_cases c
      · rw [hc] at h
        exact absurd (List.cons_prefix_cons.1 h).1.symm hne
      · obtain ⟨t, ht⟩ := List.head?_eq_some_iff.1 hc
        rw [ht] at h
        exact absurd (List.cons_prefix_cons.1 h).1 (by decide)
  | cons a w ih =>
    obtain ⟨h34, h92⟩ := hw
    cases s with
    | nil => exact absurd (List.mem_cons.2 (.inl (List.cons_prefix_cons.1 h).1.symm)) h34
    | cons c s =>
      rw [List.flatMap_cons, List.append_assoc, List.cons_append] at h
      obtain ⟨hc, -⟩ | hc := escape_cases c
      · rw [hc] at h
        obtain ⟨rfl, hrest⟩ := List.cons_prefix_cons.1 h
        obtain ⟨rfl, hu⟩ := ih ⟨fun hmem => h34 (List.mem_cons_of_mem _ hmem),
          fun hmem => h92 (List.mem_cons_of_mem _ hmem)⟩ hrest
        exact ⟨rfl, hu⟩
      · obtain ⟨t, ht⟩ := List.head?_eq_some_iff.1 hc
        rw [ht] at h
        exact absurd (List.mem_cons.2 (.inl (List.cons_prefix_cons.1 h).1.symm)) h92

/-! ## Replacing in a string -/

/-- The replacement for a content, as it stands in the text. -/
def value (body : Str) : Str :=
  str "\"content\":\"" ++ ((if body.any isChinese then str "[zh->en] " else []) ++ body ++ str "\"")

/-- The part of the pattern in front of the capture. -/
def contentLiteral : Str := str "\"content\":\""

theorem contentLiteral_eq : contentLiteral = str "\"content\":" ++ [34] := by decide

/-- What `gsub` adds for a text. -/
abbrev Marked : Str → Str → Prop := Replaced (betweenStep contentLiteral 34 value)

/-- What can follow a string literal so that it is not a key of a string. -/
def NoKey (u : Str) : Prop := u.head? ≠ some 99 ∧ ¬str ":\"" <+: u

/-- What can follow a value. -/
def Closed (u : Str) : Prop := ∀ c ∈ u.head?, c ∈ ([44, 93, 125] : Str)

theorem Closed.noKey {u : Str} (hu : Closed u) : NoKey u := by
  refine ⟨fun h => absurd (hu 99 h) (by decide), fun h => ?_⟩
  obtain ⟨t, rfl⟩ := h
  exact absurd (hu 58 rfl) (by decide)

section Strings

variable {u u' : Str}

theorem marked_pass {t : Str} (ht : 34 ∉ t) (h : Marked u u') : Marked (t ++ u) (t ++ u') :=
  Replaced.pass rfl ht h

/-- At a quotation mark behind which there is no content. -/
theorem marked_quote {t t' : Str} (ht : ¬str "content\":\"" <+: t) (h : Marked t t') :
    Marked (34 :: t) (34 :: t') := by
  refine .skip (betweenStep_of_not_start fun hprefix => ht ?_) h
  have : contentLiteral = 34 :: str "content\":\"" := by decide
  rw [this] at hprefix
  exact (List.cons_prefix_cons.1 hprefix).2

/-- Where the pattern starts, the string is `content` and ends. -/
theorem content_of_start {s : Str} (h : str "content\":\"" <+: s.flatMap Json.escape ++ 34 :: u) :
    s = str "content" ∧ str ":\"" <+: u :=
  prefix_flatMap_escape (w := str "content") (by decide) h

/-- No content starts inside a string literal. -/
theorem NoKey.not_content (hu : NoKey u) (s : Str) :
    ¬str "content\":\"" <+: s.flatMap Json.escape ++ 34 :: u :=
  fun h => hu.2 (content_of_start h).2

/-- A string literal from somewhere behind its opening quotation mark on. -/
theorem marked_body (s : Str) (hu : NoKey u) (h : Marked u u') :
    Marked (s.flatMap Json.escape ++ 34 :: u) (s.flatMap Json.escape ++ 34 :: u') := by
  induction s with
  | nil =>
    refine marked_quote (fun h' => hu.1 ?_) h
    obtain ⟨t, rfl⟩ := h'
    rfl
  | cons c s ih =>
    rw [List.flatMap_cons, List.append_assoc, List.append_assoc]
    by_cases hc : c = 34
    · rw [hc, escape_quote]
      exact marked_pass (t := [92]) (by decide) (marked_quote (hu.not_content s) ih)
    · exact marked_pass (quote_notMem_escape c hc) ih

theorem quote_append (s t : Str) : Json.quote s ++ t = 34 :: (s.flatMap Json.escape ++ 34 :: t) := by
  rw [Json.quote, str_mark]
  simp

theorem marked_string (s : Str) (hu : NoKey u) (h : Marked u u') :
    Marked (Json.quote s ++ u) (Json.quote s ++ u') := by
  rw [quote_append, quote_append]
  exact marked_quote (hu.not_content s) (marked_body s hu h)

theorem quote_markString_append (s t : Str) : Json.quote (markString s) ++ t =
    34 :: ((if (s.takeWhile (· ≠ 34)).any isChinese then str "[zh->en] " else []) ++
      (s.flatMap Json.escape ++ 34 :: t)) := by
  have hplain : (str "[zh->en] ").flatMap Json.escape = str "[zh->en] " := by decide
  rw [quote_append, markString]
  split_ifs
  · rw [List.flatMap_append, hplain, List.append_assoc]
  · rfl

/-- A content, from the quotation mark of its key on. -/
theorem marked_content (s : Str) (hu : Closed u) (h : Marked u u') :
    Marked (contentLiteral ++ (s.flatMap Json.escape ++ 34 :: u))
      (str "\"content\":" ++ (Json.quote (markString s) ++ u')) := by
  have hvalue : ∀ body t, value body ++ t = str "\"content\":" ++
      34 :: ((if body.any isChinese then str "[zh->en] " else []) ++ (body ++ 34 :: t)) := by
    intro body t
    rw [value, ← contentLiteral, contentLiteral_eq, str_mark]
    simp
  rw [quote_markString_append]
  by_cases hs : 34 ∈ s
  · obtain ⟨a, b, rfl, ha⟩ := List.eq_append_cons_of_mem hs
    -- the quotation mark behind the backslash closes the capture
    have hbody : 34 ∉ a.flatMap Json.escape ++ [92] := by
      simp [quote_notMem_flatMap ha]
    have hsplit : ∀ t, (a ++ 34 :: b).flatMap Json.escape ++ 34 :: t =
        a.flatMap Json.escape ++ [92] ++ 34 :: (b.flatMap Json.escape ++ 34 :: t) := by
      intro t
      rw [List.flatMap_append, List.flatMap_cons, escape_quote]
      simp
    have hany : (a.flatMap Json.escape ++ [92]).any isChinese = a.any isChinese := by
      rw [List.any_append, any_flatMap_escape]
      simp [isChinese]
    rw [hsplit, hsplit, takeWhile_append_close ha, ← hany, ← hvalue]
    exact .hit (betweenStep_append hbody) (marked_body b hu.noKey h)
  · have hfirst : s.takeWhile (· ≠ 34) = s :=
      List.takeWhile_eq_self_iff.2 (forall_ne_of_notMem hs)
    rw [hfirst, ← any_flatMap_escape, ← hvalue]
    exact .hit (betweenStep_append (quote_notMem_flatMap hs)) h

/-- The same with the key as it is printed. -/
theorem marked_contentKey (s : Str) (hu : Closed u) (h : Marked u u') :
    Marked (34 :: ((str "content").flatMap Json.escape ++ 34 :: 58 :: (Json.quote s ++ u)))
      (34 :: ((str "content").flatMap Json.escape ++ 34 :: 58 :: (Json.quote (markString s) ++ u'))) := by
  have hkey : ∀ t, 34 :: ((str "content").flatMap Json.escape ++ 34 :: 58 :: t) = str "\"content\":" ++ t := by
    have hliteral : str "\"content\":" = 34 :: ((str "content").flatMap Json.escape ++ [34, 58]) := by
      decide
    intro t
    rw [hliteral]
    simp
  have hcontent := marked_content s hu h
  rw [contentLiteral_eq, List.append_assoc] at hcontent
  rw [hkey, hkey, quote_append s u]
  exact hcontent

theorem isSuffixOf_cons {c : UInt8} {k : Str} (h : c = 34 → k ≠ str "content") :
    (str "\"content").isSuffixOf (c :: k) = (str "\"content").isSuffixOf k := by
  have hcons : str "\"content" = 34 :: str "content" := by decide
  rw [Bool.eq_iff_iff, List.isSuffixOf_iff_suffix, List.isSuffixOf_iff_suffix, List.suffix_cons_iff]
  refine or_iff_right fun heq => ?_
  rw [hcons] at heq
  cases heq
  exact h rfl rfl

/-- A key and the string that is its value, from somewhere behind the opening quotation mark of the key on. -/
theorem marked_key (k s : Str) (hu : Closed u) (h : Marked u u') :
    Marked (k.flatMap Json.escape ++ 34 :: 58 :: (Json.quote s ++ u))
      (k.flatMap Json.escape ++ 34 :: 58 ::
        (Json.quote (if (str "\"content").isSuffixOf k then markString s else s) ++ u')) := by
  have hcons : str "content\":\"" = 99 :: str "ontent\":\"" := by decide
  have hother : ∀ k t, k ≠ str "content" → ¬str "content\":\"" <+: k.flatMap Json.escape ++ 34 :: t :=
    fun k t hk h => hk (content_of_start h).1
  induction k with
  | nil =>
    have hstring := marked_pass (t := [58]) (by decide) (marked_string s hu.noKey h)
    refine marked_quote (fun hprefix => ?_) hstring
    rw [hcons] at hprefix
    exact absurd (List.cons_prefix_cons.1 hprefix).1 (by decide)
  | cons c k ih =>
    rw [List.flatMap_cons, List.append_assoc, List.append_assoc]
    by_cases hc : c = 34
    · rw [hc, escape_quote]
      by_cases hk : k = str "content"
      · have hsuffix : (str "\"content").isSuffixOf (34 :: str "content") = true := by decide
        rw [hk, if_pos hsuffix]
        exact marked_pass (t := [92]) (by decide) (marked_contentKey s hu h)
      · rw [isSuffixOf_cons fun _ => hk]
        exact marked_pass (t := [92]) (by decide) (marked_quote (hother k _ hk) ih)
    · rw [isSuffixOf_cons fun heq => absurd heq hc]
      exact marked_pass (quote_notMem_escape c hc) ih

theorem marked_member (k s : Str) (hu : Closed u) (h : Marked u u') :
    Marked (Json.quote k ++ 58 :: (Json.quote s ++ u))
      (Json.quote k ++ 58 :: (Json.quote (if isContentKey k then markString s else s) ++ u')) := by
  rw [quote_append k, quote_append k, isContentKey]
  by_cases hk : k = str "content"
  · rw [hk, decide_eq_true rfl, Bool.true_or]
    exact marked_contentKey s hu h
  · rw [decide_eq_false hk, Bool.false_or]
    exact marked_quote (fun hstart => hk (content_of_start hstart).1) (marked_key k s hu h)

end Strings

/-! ## Replacing in a value -/

theorem quote_notMem_toString (n : ℤ) : 34 ∉ str (toString n) := by
  have hdigits : ∀ n, ∀ c ∈ Nat.toDigits 10 n, (34 : UInt8) ∉ String.utf8EncodeChar c := by
    intro n c hc
    obtain ⟨d, hd, rfl⟩ := Numerals.mem_toDigits (by decide) hc
    have hall : ∀ d < 10, (34 : UInt8) ∉ String.utf8EncodeChar (Nat.digitChar d) := by decide
    exact hall d hd
  rw [str_eq_flatMap, List.mem_flatMap]
  rintro ⟨c, hc, hmem⟩
  cases n with
  | ofNat n => exact hdigits n c (Numerals.toList_toString_ofNat n ▸ hc) hmem
  | negSucc n =>
    rw [Numerals.toList_toString_negSucc] at hc
    obtain rfl | hc := List.mem_cons.1 hc
    · revert hmem
      decide
    · exact hdigits (n + 1) c hc hmem

theorem mark_of_ne_string {v : Json ν} (hv : ∀ s, v ≠ .string s) (content : Bool) :
    mark content v = mark false v := by
  cases v with
  | string s => exact absurd rfl (hv s)
  | _ => rfl

theorem closed_append {t : Str} (ht : t.head?.any (· ∈ ([44, 93, 125] : Str)) = true) (u : Str) :
    Closed (t ++ u) := by
  obtain ⟨c, hhead, hc⟩ := (Option.any_eq_true _ _).1 ht
  intro c' hc'
  rw [List.head?_append, hhead] at hc'
  cases hc'
  exact of_decide_eq_true hc

variable {showDouble : ν → Str}

/-- Only the text of a string starts with a quotation mark. -/
theorem head?_compact_append (hshow : ∀ x, 34 ∉ showDouble x) {v : Json ν} (hv : ∀ s, v ≠ .string s) {u : Str}
    (hu : Closed u) :
    (v.compact showDouble ++ u).head? ≠ some 34 := by
  have hpass : ∀ t : Str, 34 ∉ t → (t ++ u).head? ≠ some 34 := by
    intro t ht
    cases t with
    | nil => exact fun h => absurd (hu 34 h) (by decide)
    | cons c t => exact fun h => ht (Option.some.inj h ▸ List.mem_cons_self)
  have hopen : ∀ (t x : Str) (c : UInt8), t.head? = some c → c ≠ 34 → (t ++ x).head? ≠ some 34 := by
    intro t x c ht hc h
    rw [List.head?_append, ht] at h
    exact hc (Option.some.inj h)
  cases v with
  | null => exact hpass _ (by rw [Json.compact]; decide)
  | bool b => exact hpass _ (by rw [Json.compact]; cases b <;> decide)
  | int n => exact hpass _ (quote_notMem_toString n)
  | float x => exact hpass _ (hshow x)
  | string s => exact absurd rfl (hv s)
  | array xs =>
    rw [Json.compact, List.append_assoc, List.append_assoc]
    exact hopen _ _ 91 (by decide) (by decide)
  | object m =>
    rw [Json.compact, List.append_assoc, List.append_assoc]
    exact hopen _ _ 123 (by decide) (by decide)

/-- A member, from what is known of its value. -/
theorem marked_pair (hshow : ∀ x, 34 ∉ showDouble x) (k : Str) {v : Json ν} {u u' : Str} (hu : Closed u)
    (h : Marked u u')
    (hv : Marked (v.compact showDouble ++ u) ((mark false v).compact showDouble ++ u')) :
    Marked (Json.quote k ++ (str ":" ++ (v.compact showDouble ++ u)))
      (Json.quote k ++ (str ":" ++ ((mark (isContentKey k) v).compact showDouble ++ u'))) := by
  have hcolon : str ":" = [58] := by decide
  rw [hcolon]
  by_cases hstring : ∃ s, v = .string s
  · obtain ⟨s, rfl⟩ := hstring
    exact marked_member k s hu h
  · have hne : ∀ s, v ≠ .string s := fun s heq => hstring ⟨s, heq⟩
    rw [mark_of_ne_string hne]
    refine marked_string k ⟨fun hhead => absurd hhead (by simp), fun hprefix => ?_⟩
      (marked_pass (t := [58]) (by decide) hv)
    have htwo : str ":\"" = [58, 34] := by decide
    obtain ⟨t, ht⟩ := hprefix
    rw [htwo] at ht
    exact head?_compact_append hshow hne hu (List.head?_eq_some_iff.2 ⟨t, (List.cons.inj ht).2.symm⟩)

mutual

theorem marked_compact (hshow : ∀ x, 34 ∉ showDouble x) :
    ∀ (j : Json ν) {u u' : Str}, Closed u → Marked u u' →
    Marked (j.compact showDouble ++ u) ((mark false j).compact showDouble ++ u')
  | .null, _, _, _, h => marked_pass (by rw [Json.compact]; decide) h
  | .bool b, _, _, _, h => marked_pass (by rw [Json.compact]; cases b <;> decide) h
  | .int n, _, _, _, h => marked_pass (quote_notMem_toString n) h
  | .float x, _, _, _, h => marked_pass (hshow x) h
  | .string s, _, _, hu, h => marked_string s hu.noKey h
  | .array xs, u, u', hu, h => by
    have hclosed := closed_append (t := str "]") (by decide) u
    have hrest := marked_compactElems hshow xs hclosed (marked_pass (t := str "]") (by decide) h)
    rw [mark, Json.compact, Json.compact]
    simp only [List.append_assoc]
    exact marked_pass (by decide) hrest
  | .object m, u, u', hu, h => by
    have hclosed := closed_append (t := str "\x7d") (by decide) u
    have hrest := marked_compactMembers hshow m hclosed (marked_pass (t := str "\x7d") (by decide) h)
    rw [mark, Json.compact, Json.compact]
    simp only [List.append_assoc]
    exact marked_pass (by decide) hrest

theorem marked_compactElems (hshow : ∀ x, 34 ∉ showDouble x) :
    ∀ (xs : List (Json ν)) {u u' : Str}, Closed u → Marked u u' →
    Marked (Json.compactElems showDouble xs ++ u) (Json.compactElems showDouble (markElems xs) ++ u')
  | [], _, _, _, h => h
  | [x], _, _, hu, h => marked_compact hshow x hu h
  | x :: y :: xs, u, u', hu, h => by
    have hrest := marked_pass (t := str ",") (by decide) (marked_compactElems hshow (y :: xs) hu h)
    have hx := marked_compact hshow x (closed_append (by decide) _) hrest
    rw [markElems, markElems, Json.compactElems, Json.compactElems, ← markElems]
    simp only [List.append_assoc]
    exact hx

theorem marked_compactMembers (hshow : ∀ x, 34 ∉ showDouble x) :
    ∀ (m : List (Str × Json ν)) {u u' : Str}, Closed u → Marked u u' →
    Marked (Json.compactMembers showDouble m ++ u) (Json.compactMembers showDouble (markMembers m) ++ u')
  | [], _, _, _, h => h
  | [(k, v)], _, _, hu, h => by
    rw [markMembers, markMembers, Json.compactMembers, Json.compactMembers]
    simp only [List.append_assoc]
    exact marked_pair hshow k hu h (marked_compact hshow v hu h)
  | (k, v) :: p :: m, u, _, hu, h => by
    have hrest := marked_pass (t := str ",") (by decide) (marked_compactMembers hshow (p :: m) hu h)
    have hclosed := closed_append (t := str ",") (by decide)
      (Json.compactMembers showDouble (p :: m) ++ u)
    obtain ⟨k', v'⟩ := p
    rw [markMembers, markMembers, Json.compactMembers, Json.compactMembers, ← markMembers]
    simp only [List.append_assoc]
    exact marked_pair hshow k hclosed hrest (marked_compact hshow v hclosed hrest)

end

/-! ## The messages -/

theorem isItem_chinese : IsItem chinese isChinese where
  classEnd p := by
    cases p <;> simp [chinese, LuaPattern.classEnd, setEnd]
  single src s := by
    rw [singleMatch]
    cases src[s]? with
    | none => rfl
    | some c => simp [chinese, matchSet, inSet, isChinese]
  notOpen := by decide
  notClose := by decide
  notEnd := by decide
  escape h := absurd h (by decide)

theorem exists_strFind_chinese (s : Str) :
    ∃ found, strFind s chinese = some found ∧ found.isSome = s.any isChinese :=
  Option.map_eq_some_iff.1 (isSome_strFind_item isItem_chinese (by decide) s)

theorem replacement_singleton (body : Str) : replacement [body] = some (some (value body)) := by
  obtain ⟨found, hfound, hany⟩ := exists_strFind_chinese body
  have hmarked : str "\"content\":\"[zh->en] " = str "\"content\":\"" ++ str "[zh->en] " := by decide
  rw [replacement, List.head?_cons, Option.bind_some, hfound, Option.map_some, hany, value, hmarked]
  split_ifs <;> simp

theorem marked_text (hshow : ∀ x, 34 ∉ showDouble x) (j : Json ν) :
    Marked (j.compact showDouble) ((mark false j).compact showDouble) := by
  have hnil : Marked [] [] := .nil (betweenStep_of_not_start (by decide))
  have hclosed : Closed [] := fun c hc => absurd hc (by simp)
  have hmarked := marked_compact hshow j hclosed hnil
  rwa [List.append_nil, List.append_nil] at hmarked

theorem gsubWith_compact (hshow : ∀ x, 34 ∉ showDouble x) (j : Json ν) :
    gsubWith (j.compact showDouble) contentPattern replacement =
      some ((mark false j).compact showDouble) := by
  have hpattern : contentPattern = between contentLiteral 34 := by decide
  rw [hpattern]
  exact gsubWith_between (by decide) (by decide) (by decide) replacement_singleton
    (marked_text hshow j)

/-- A text without Chinese is the one of a value that is not changed. -/
theorem compact_mark_of_not_any (hshow : ∀ x, 34 ∉ showDouble x) {j : Json ν}
    (hj : (j.compact showDouble).any isChinese = false) :
    (mark false j).compact showDouble = j.compact showDouble := by
  refine (marked_text hshow j).eq_self fun body hbody => ?_
  have hany : body.any isChinese = false := by
    rw [List.any_eq_false] at hj ⊢
    exact fun c hc => hj c (hbody.subset hc)
  rw [value, hany, str_mark, contentLiteral]
  simp

/-- Whatever value the messages are the text of, they are the text of the marked value behind the hook, which
changes nothing else. -/
theorem onRequest_compact (hshow : ∀ x, 34 ∉ showDouble x) (j : Json ν) (ctx : PluginContext ν)
    (hctx : ctx.messagesJson = j.compact showDouble) :
    (onRequest ctx).sync ctx = { ctx with messagesJson := (mark false j).compact showDouble } ∧
      (onRequest ctx).responses = [] ∧
      (onRequest ctx).ending =
        some (if ctx.messagesJson.any isChinese then str "MODIFY" else str "CONTINUE") := by
  obtain ⟨found, hfound, hany⟩ := exists_strFind_chinese ctx.messagesJson
  rw [onRequest, hfound, Option.elim_some, hany]
  cases hchinese : ctx.messagesJson.any isChinese with
  | true =>
    have hgsub := gsubWith_compact hshow j
    rw [← hctx] at hgsub
    rw [hgsub]
    exact ⟨rfl, rfl, rfl⟩
  | false =>
    rw [hctx] at hchinese
    rw [compact_mark_of_not_any hshow hchinese, ← hctx]
    exact ⟨rfl, rfl, rfl⟩

/-! ## An escaped quotation mark -/

theorem quote_notMem_fraction (n : ℚ) (k : ℕ) : 34 ∉ fraction n k := by
  induction k generalizing n with
  | zero => exact List.not_mem_nil
  | succ k ih => exact fun h => (List.mem_append.1 h).elim (quote_notMem_toString _) (ih _)

theorem quote_notMem_showRat (x : ℚ) : 34 ∉ Json.showRat x := by
  have hshown : 34 ∉ ((fraction (|x| - |x|.floor) 17).reverse.dropWhile (· = 48)).reverse := by
    intro h
    have hmem := (List.dropWhile_suffix _).subset (List.mem_reverse.1 h)
    exact quote_notMem_fraction _ _ (List.mem_reverse.1 hmem)
  have hpoint : 34 ∉ str "." := by decide
  have hzero : 34 ∉ str "0" := by decide
  have hminus : 34 ∉ str "-" := by decide
  unfold Json.showRat
  dsimp only
  simp only [List.mem_append, not_or]
  refine ⟨⟨⟨?_, quote_notMem_toString _⟩, hpoint⟩, ?_⟩
  · split_ifs
    · exact hminus
    · exact List.not_mem_nil
  · split_ifs
    · exact hzero
    · exact hshown

/-- Chinese behind a quotation mark, in front of none, and under a key that ends like the pattern. -/
def mixedMessages : Json ℚ :=
  .array [
    .object [(str "content", .string (str "say \"你好\"")), (str "role", .string (str "user"))],
    .object [(str "content", .string (str "你好 \"x\""))],
    .object [(str "a\"content", .string (str "你")), (str "contents", .string (str "好"))]]

/-- The first content is not marked, and the last one is not a content. -/
theorem onRequest_mixed :
    let ctx : PluginContext ℚ :=
      { PluginManager.someContext with messagesJson := mixedMessages.compact Json.showRat }
    ((onRequest ctx).sync ctx).messagesJson = str ("[\x7b\"content\":\"say \\\"你好\\\"\",\"role\":\"user\"\x7d," ++
      "\x7b\"content\":\"[zh->en] 你好 \\\"x\\\"\"\x7d," ++
      "\x7b\"a\\\"content\":\"[zh->en] 你\",\"contents\":\"好\"\x7d]") ∧
      (onRequest ctx).ending = some (str "MODIFY") := by
  intro ctx
  obtain ⟨hsync, -, hending⟩ := onRequest_compact quote_notMem_showRat mixedMessages ctx rfl
  have hchinese : ctx.messagesJson.any isChinese = true := by decide
  rw [hsync, hending, hchinese]
  exact ⟨by decide, rfl⟩

end PromptTranslate

end LlmGateway
