import LlmGateway.PromptTranslate

/-!
# The moderation plugin

`plugins/example_moderation.lua`.  The keywords are searched in the text of the messages, where a string may look
different from what it is.  As they consist of letters, which are printed as they are, none of them is missed: if the
text has no keyword, no string of the value that it is the text of has one, at whatever depth and in whatever case
(`clean_of_text`).

What the translation plugin puts in front of a string adds none (`Clean.mark`).
-/

namespace LlmGateway

namespace ContentModeration

open LuaPattern

variable {ν : Type}

/-! ## The hook -/

/-- `sensitive_keywords`. -/
def sensitiveKeywords : List Str :=
  ["violence", "hack", "exploit", "bypass", "malware", "ransomware", "phishing", "bomb", "weapon", "attack"].map str

/-- `string.lower`. -/
def lower (s : Str) : Str := s.map toLower

/-- The body of the answer to a request that is blocked. -/
def blocked (kw : Str) : Str :=
  str "\x7b\"error\":\"content blocked\",\"reason\":\"sensitive keyword: " ++ kw ++ str "\"\x7d"

/-- `on_request`. -/
def onRequest (ctx : PluginContext ν) : HookRun ν :=
  (sensitiveKeywords.find? fun kw => (findPlain (lower ctx.messagesJson) kw).isSome).elim
    (.unchanged ctx (some (str "CONTINUE")))
    fun kw => { HookRun.unchanged ctx (some (str "ABORT_EARLY")) with responses := [(403, blocked kw)] }

/-- What it does to a text without keywords, and that it rejects all others. -/
theorem onRequest_cases (ctx : PluginContext ν) :
    (∀ kw ∈ sensitiveKeywords, ¬kw <:+: lower ctx.messagesJson) ∧
        onRequest ctx = .unchanged ctx (some (str "CONTINUE")) ∨
      ∃ kw ∈ sensitiveKeywords, kw <:+: lower ctx.messagesJson ∧
        (onRequest ctx).responses = [(403, blocked kw)] ∧
        (onRequest ctx).ending = some (str "ABORT_EARLY") := by
  rw [onRequest]
  cases hfound : sensitiveKeywords.find? fun kw => (findPlain (lower ctx.messagesJson) kw).isSome with
  | none =>
    refine .inl ⟨fun kw hkw hinfix => ?_, rfl⟩
    exact List.find?_eq_none.1 hfound kw hkw (isSome_findPlain.2 hinfix)
  | some kw =>
    have hkw : (findPlain (lower ctx.messagesJson) kw).isSome = true :=
      List.find?_some (p := fun kw => (findPlain (lower ctx.messagesJson) kw).isSome) hfound
    exact .inr ⟨kw, List.mem_of_find?_eq_some hfound, isSome_findPlain.1 hkw, rfl, rfl⟩

/-! ## Strings of a value -/

mutual

/-- The strings and the keys of a value, at any depth. -/
def strings : Json ν → List Str
  | .null => []
  | .bool _ => []
  | .int _ => []
  | .float _ => []
  | .string s => [s]
  | .array xs => stringsElems xs
  | .object m => stringsMembers m

/-- The strings and keys in some elements. -/
def stringsElems : List (Json ν) → List Str
  | [] => []
  | x :: xs => strings x ++ stringsElems xs

/-- The strings and keys in some members. -/
def stringsMembers : List (Str × Json ν) → List Str
  | [] => []
  | (k, v) :: m => k :: strings v ++ stringsMembers m

end

/-- No string has a keyword, in whatever case. -/
def Clean (j : Json ν) : Prop := ∀ s ∈ strings j, ∀ kw ∈ sensitiveKeywords, ¬kw <:+: lower s

/-! ## Letters -/

/-- A letter is printed as it is. -/
theorem escape_letter : ∀ c : UInt8, isLower (toLower c) = true → Json.escape c = [c] :=
  PromptTranslate.forall_byte (by decide +kernel)

theorem isLower_keyword : ∀ kw ∈ sensitiveKeywords, ∀ c ∈ kw, isLower c = true := by decide +kernel

/-- A word of letters that is in a string is in its text. -/
theorem infix_lower_quote {w s : Str} (hw : ∀ c ∈ w, isLower c = true) (h : w <:+: lower s) :
    w <:+: lower (Json.quote s) := by
  obtain ⟨front, rest, heq⟩ := h
  obtain ⟨s', b, rfl, hs', -⟩ := List.map_eq_append_iff.1 heq.symm
  obtain ⟨a, v, rfl, -, rfl⟩ := List.map_eq_append_iff.1 hs'
  have hprinted : v.flatMap Json.escape = v := by
    refine (List.flatMap_congr fun c hc => escape_letter c ?_).trans (List.flatMap_singleton' v)
    exact hw (toLower c) (List.mem_map_of_mem hc)
  refine List.IsInfix.map toLower ?_
  rw [Json.quote, List.flatMap_append, List.flatMap_append, hprinted]
  refine ⟨str "\"" ++ a.flatMap Json.escape, b.flatMap Json.escape ++ str "\"", ?_⟩
  simp

/-! ## No string is missed -/

variable (showDouble : ν → Str)

mutual

/-- The text of a value has the texts of its strings in it. -/
theorem infix_compact : ∀ (j : Json ν), ∀ s ∈ strings j, Json.quote s <:+: j.compact showDouble
  | .null, _, hs => absurd hs List.not_mem_nil
  | .bool _, _, hs => absurd hs List.not_mem_nil
  | .int _, _, hs => absurd hs List.not_mem_nil
  | .float _, _, hs => absurd hs List.not_mem_nil
  | .string t, s, hs => by
    rw [List.mem_singleton.1 hs, Json.compact]
  | .array xs, s, hs => by
    rw [Json.compact]
    exact (infix_compactElems xs s hs).trans (List.infix_append _ _ _)
  | .object m, s, hs => by
    rw [Json.compact]
    exact (infix_compactMembers m s hs).trans (List.infix_append _ _ _)

theorem infix_compactElems : ∀ (xs : List (Json ν)), ∀ s ∈ stringsElems xs,
    Json.quote s <:+: Json.compactElems showDouble xs
  | [], _, hs => absurd hs List.not_mem_nil
  | [x], s, hs => by
    rw [stringsElems, stringsElems, List.append_nil] at hs
    exact infix_compact x s hs
  | x :: y :: xs, s, hs => by
    rw [Json.compactElems]
    obtain hs | hs := List.mem_append.1 hs
    · rw [List.append_assoc]
      exact (infix_compact x s hs).trans (List.prefix_append _ _).isInfix
    · exact (infix_compactElems (y :: xs) s hs).trans (List.suffix_append _ _).isInfix

theorem infix_compactMembers : ∀ (m : List (Str × Json ν)), ∀ s ∈ stringsMembers m,
    Json.quote s <:+: Json.compactMembers showDouble m
  | [], _, hs => absurd hs List.not_mem_nil
  | [(k, v)], s, hs => by
    rw [Json.compactMembers]
    rw [stringsMembers, stringsMembers, List.append_nil] at hs
    obtain rfl | hs := List.mem_cons.1 hs
    · rw [List.append_assoc]
      exact (List.prefix_append _ _).isInfix
    · exact (infix_compact v s hs).trans (List.suffix_append _ _).isInfix
  | (k, v) :: p :: m, s, hs => by
    rw [Json.compactMembers]
    obtain hs | hs := List.mem_append.1 hs
    · obtain rfl | hs := List.mem_cons.1 hs
      · simp only [List.append_assoc]
        exact (List.prefix_append _ _).isInfix
      · rw [List.append_assoc, List.append_assoc]
        exact (infix_compact v s hs).trans (List.infix_append' _ _ _)
    · exact (infix_compactMembers (p :: m) s hs).trans (List.suffix_append _ _).isInfix

end

variable {showDouble}

/-- A value whose text has no keyword has none in any string. -/
theorem clean_of_text {j : Json ν} (h : ∀ kw ∈ sensitiveKeywords, ¬kw <:+: lower (j.compact showDouble)) :
    Clean j := by
  intro s hs kw hkw hinfix
  have hquote := infix_lower_quote (isLower_keyword kw hkw) hinfix
  exact h kw hkw (hquote.trans ((infix_compact showDouble j s hs).map toLower))

/-! ## Strings that are marked -/

/-- A word is on one side of a byte that it has not. -/
theorem infix_append_cons {w a b : Str} {c : UInt8} (hc : c ∉ w) (h : w <:+: a ++ c :: b) :
    w <:+: a ∨ w <:+: b := by
  obtain ⟨front, rest, heq⟩ := h
  obtain ⟨a', rfl, -⟩ | ⟨t, ht, hrest⟩ := List.append_eq_append_iff.1 heq
  · exact .inl ⟨front, a', rfl⟩
  · cases t with
    | nil => exact .inl ⟨front, [], by rw [ht, List.append_nil, List.append_nil]⟩
    | cons d t =>
      obtain ⟨rfl, rfl⟩ := List.cons.inj hrest
      obtain ⟨a', -, rfl⟩ | ⟨u, -, hu⟩ := List.append_eq_append_iff.1 ht
      · exact absurd (List.mem_append_right a' List.mem_cons_self) hc
      · cases u with
        | nil =>
          rw [List.nil_append] at hu
          exact absurd (hu ▸ List.mem_cons_self) hc
        | cons e u =>
          obtain ⟨-, rfl⟩ := List.cons.inj hu
          exact .inr ⟨u, rest, rfl⟩

/-- A string of a list, or one of them that is marked. -/
def IsFrom (l : List Str) (s : Str) : Prop := s ∈ l ∨ ∃ t ∈ l, s = str "[zh->en] " ++ t

theorem IsFrom.mono {l l' : List Str} {s : Str} (h : IsFrom l s) (hl : l ⊆ l') : IsFrom l' s :=
  h.imp (@hl s) fun ⟨t, ht, heq⟩ => ⟨t, hl ht, heq⟩

open PromptTranslate in
mutual

theorem isFrom_mark : ∀ (content : Bool) (j : Json ν), ∀ s ∈ strings (mark content j), IsFrom (strings j) s
  | _, .null, _, hs => .inl hs
  | _, .bool _, _, hs => .inl hs
  | _, .int _, _, hs => .inl hs
  | _, .float _, _, hs => .inl hs
  | content, .string t, s, hs => by
    obtain rfl := List.mem_singleton.1 hs
    unfold markString
    split_ifs
    · exact .inr ⟨t, List.mem_singleton_self t, rfl⟩
    · exact .inl (List.mem_singleton_self t)
    · exact .inl (List.mem_singleton_self t)
  | _, .array xs, s, hs => isFrom_markElems xs s hs
  | _, .object m, s, hs => isFrom_markMembers m s hs

theorem isFrom_markElems : ∀ (xs : List (Json ν)), ∀ s ∈ stringsElems (markElems xs),
    IsFrom (stringsElems xs) s
  | [], _, hs => .inl hs
  | x :: xs, s, hs => (List.mem_append.1 hs).elim
      (fun hs => (isFrom_mark false x s hs).mono (List.subset_append_left _ _))
      fun hs => (isFrom_markElems xs s hs).mono (List.subset_append_right _ _)

theorem isFrom_markMembers : ∀ (m : List (Str × Json ν)), ∀ s ∈ stringsMembers (markMembers m),
    IsFrom (stringsMembers m) s
  | [], _, hs => .inl hs
  | (k, v) :: m, s, hs => by
    obtain hs | hs := List.mem_append.1 hs
    · obtain rfl | hs := List.mem_cons.1 hs
      · exact .inl List.mem_cons_self
      · exact (isFrom_mark (isContentKey k) v s hs).mono
          fun t ht => List.mem_append_left _ (List.mem_cons_of_mem _ ht)
    · exact (isFrom_markMembers m s hs).mono (List.subset_append_right _ _)

end

theorem Clean.mark {j : Json ν} (h : Clean j) (content : Bool) : Clean (PromptTranslate.mark content j) := by
  have hlower : ∀ t, lower (str "[zh->en] " ++ t) = str "[zh->en]" ++ 32 :: lower t := by
    have hprefix : lower (str "[zh->en] ") = str "[zh->en]" ++ [32] := by decide
    intro t
    rw [lower, List.map_append, ← lower, ← lower, hprefix, List.append_assoc]
    rfl
  have hspace : ∀ kw ∈ sensitiveKeywords, 32 ∉ kw := by decide
  have hnone : ∀ kw ∈ sensitiveKeywords, ¬kw <:+: str "[zh->en]" := by decide
  intro s hs kw hkw hinfix
  obtain hs | ⟨t, ht, rfl⟩ := isFrom_mark content j s hs
  · exact h s hs kw hkw hinfix
  · rw [hlower] at hinfix
    obtain hinfix | hinfix := infix_append_cons (hspace kw hkw) hinfix
    · exact hnone kw hkw hinfix
    · exact h t ht kw hkw hinfix

end ContentModeration

end LlmGateway
