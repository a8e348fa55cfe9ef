import LlmGateway.CacheEntry
import LlmGateway.Lib.Utf8
import LlmGateway.SessionBuffer

/-!
# JSON values of valid text

The JSON library reads and prints only values whose strings and keys are valid UTF-8
(`JsonLib.Strict`): it refuses a text with other bytes, and it throws when it is to print such a value.

An entry or a turn is printed if its own strings are valid (`CacheEntry.valid_toJson`,
`SessionBuffer.valid_toJson`), and an entry that is read from a file has valid strings
(`CacheEntry.valid_fromJson`).
-/

namespace LlmGateway

variable {ν : Type}

theorem valid_str (s : String) : Utf8.Valid (str s) := Utf8.valid_toByteArray s

namespace Json

/-! ## The strings of a value -/

mutual

/-- The strings of a value and the keys of its objects. -/
def strings : Json ν → List Str
  | string s => [s]
  | array xs => elemStrings xs
  | object m => memberStrings m
  | _ => []

/-- The strings of the elements of an array. -/
def elemStrings : List (Json ν) → List Str
  | [] => []
  | x :: xs => strings x ++ elemStrings xs

/-- The keys and the strings of the members of an object. -/
def memberStrings : List (Str × Json ν) → List Str
  | [] => []
  | (k, v) :: m => k :: strings v ++ memberStrings m

end

theorem mem_elemStrings {xs : List (Json ν)} {s : Str} :
    s ∈ elemStrings xs ↔ ∃ x ∈ xs, s ∈ x.strings := by
  induction xs with
  | nil => simp [elemStrings]
  | cons x xs ih => simp [elemStrings, ih]

theorem mem_memberStrings {m : List (Str × Json ν)} {s : Str} :
    s ∈ memberStrings m ↔ ∃ p ∈ m, s = p.1 ∨ s ∈ p.2.strings := by
  induction m with
  | nil => simp [memberStrings]
  | cons p m ih =>
      obtain ⟨k, v⟩ := p
      simp [memberStrings, ih, or_assoc]

/-- All text of the value is valid UTF-8. -/
def Valid (j : Json ν) : Prop := ∀ s ∈ j.strings, Utf8.Valid s

instance (j : Json ν) : Decidable j.Valid :=
  inferInstanceAs (Decidable (∀ s ∈ j.strings, Utf8.Valid s))

@[simp]
theorem valid_null : (null : Json ν).Valid := by simp [Valid, strings]

@[simp]
theorem valid_bool (b : Bool) : (bool b : Json ν).Valid := by simp [Valid, strings]

@[simp]
theorem valid_int (n : ℤ) : (int n : Json ν).Valid := by simp [Valid, strings]

@[simp]
theorem valid_float (x : ν) : (float x).Valid := by simp [Valid, strings]

@[simp]
theorem valid_string {s : Str} : (string s : Json ν).Valid ↔ Utf8.Valid s := by
  simp [Valid, strings]

@[simp]
theorem valid_array {xs : List (Json ν)} : (array xs).Valid ↔ ∀ x ∈ xs, x.Valid := by
  simp only [Valid, strings, mem_elemStrings]
  exact ⟨fun h x hx s hs => h s ⟨x, hx, hs⟩, fun h s ⟨x, hx, hs⟩ => h x hx s hs⟩

theorem valid_object {m : List (Str × Json ν)} :
    (object m).Valid ↔ ∀ p ∈ m, Utf8.Valid p.1 ∧ p.2.Valid := by
  simp only [Valid, strings, mem_memberStrings]
  constructor
  · intro h p hp
    exact ⟨h p.1 ⟨p, hp, Or.inl rfl⟩, fun s hs => h s ⟨p, hp, Or.inr hs⟩⟩
  · rintro h s ⟨p, hp, rfl | hs⟩
    · exact (h p hp).1
    · exact (h p hp).2 s hs

theorem mem_setKey {α : Type} {k : Str} {v : α} {m : List (Str × α)} {p : Str × α}
    (h : p ∈ setKey k v m) : p = (k, v) ∨ p ∈ m := by
  induction m with
  | nil => exact Or.inl (List.mem_singleton.1 h)
  | cons q m ih =>
      unfold setKey at h
      split_ifs at h <;> grind

theorem mem_of_mem_members {α : Type} {ps : List (Str × α)} {p : Str × α} (h : p ∈ members ps) :
    p ∈ ps := by
  have hfold : ∀ (ps m : List (Str × α)),
      p ∈ ps.foldl (fun m p => setKey p.1 p.2 m) m → p ∈ ps ∨ p ∈ m := by
    intro ps
    induction ps with
    | nil => exact fun m h => Or.inr h
    | cons q ps ih =>
        intro m h
        rcases ih _ h with h | h
        · exact Or.inl (List.mem_cons_of_mem _ h)
        · rcases mem_setKey h with rfl | h
          · exact Or.inl List.mem_cons_self
          · exact Or.inr h
  simpa using hfold ps [] h

/-- An object that is built from valid pairs. -/
theorem valid_object_members {ps : List (Str × Json ν)}
    (h : ∀ p ∈ ps, Utf8.Valid p.1 ∧ p.2.Valid) : (object (members ps)).Valid :=
  valid_object.2 fun p hp => h p (mem_of_mem_members hp)

/-- The keys of the pairs are distinct, so that every pair becomes a member. -/
theorem valid_object_members_iff {ps : List (Str × Json ν)} (hps : (ps.map Prod.fst).Nodup) :
    (object (members ps)).Valid ↔ ∀ p ∈ ps, Utf8.Valid p.1 ∧ p.2.Valid := by
  rw [valid_object]
  exact forall_congr' fun p => imp_congr_left (members_perm hps).mem_iff

theorem valid_array_string {xs : List Str} :
    (array (xs.map string) : Json ν).Valid ↔ ∀ s ∈ xs, Utf8.Valid s := by
  simp

/-! ## Reading -/

theorem mem_of_lookup {α : Type} {m : List (Str × α)} {k : Str} {v : α}
    (h : m.lookup k = some v) : (k, v) ∈ m := by
  obtain ⟨l₁, l₂, rfl, -⟩ := List.lookup_eq_some_iff.1 h
  exact List.mem_append_right l₁ List.mem_cons_self

theorem Valid.member {j v : Json ν} (h : j.Valid) {key : String} (hv : j.member key = some v) :
    v.Valid := by
  unfold Json.member at hv
  split at hv
  · exact (valid_object.1 h _ (mem_of_lookup hv)).2
  · cases hv

theorem Valid.value_getString {j : Json ν} (h : j.Valid) {key : String} {s : Str}
    (hs : j.value key getString [] = some s) : Utf8.Valid s := by
  unfold value at hs
  split at hs
  · split at hs
    · next v hv =>
      have hv := (valid_object.1 h _ (mem_of_lookup hv)).2
      unfold getString at hs
      split at hs
      · cases hs
        exact valid_string.1 hv
      · cases hs
    · cases hs
      exact Utf8.valid_nil
  · cases hs

theorem Valid.elems {j : Json ν} (h : j.Valid) : ∀ x ∈ j.elems, x.Valid := by
  unfold Json.elems
  split
  · intro x hx
    obtain ⟨p, hp, rfl⟩ := List.mem_map.1 hx
    exact (valid_object.1 h p hp).2
  · exact valid_array.1 h
  · simp
  · simpa using h

theorem Valid.items {j : Json ν} (h : j.Valid) : ∀ p ∈ j.items, Utf8.Valid p.1 ∧ p.2.Valid := by
  unfold Json.items
  split
  · exact valid_object.1 h
  · intro p hp
    obtain ⟨⟨x, n⟩, hx, rfl⟩ := List.mem_map.1 hp
    exact ⟨valid_str _, valid_array.1 h x (List.fst_mem_of_mem_zipIdx hx)⟩
  · simp
  · simpa using h

/-- The strings of a list of valid values. -/
theorem valid_of_mapM_getString {xs : List (Json ν)} (h : ∀ x ∈ xs, x.Valid) {ss : List Str}
    (hss : xs.mapM getString = some ss) : ∀ s ∈ ss, Utf8.Valid s := by
  induction xs generalizing ss with
  | nil =>
    cases hss
    simp
  | cons x xs ih =>
      simp only [List.mapM_cons, Option.bind_eq_bind, Option.bind_eq_some_iff, Option.pure_def,
        Option.some.injEq] at hss
      obtain ⟨s, hs, ss', hss', rfl⟩ := hss
      have hx := h x (by simp)
      have ih := ih (fun y hy => h y (by simp [hy])) hss'
      unfold getString at hs
      split at hs
      · cases hs
        exact List.forall_mem_cons.2 ⟨valid_string.1 hx, ih⟩
      · cases hs

theorem Valid.getStrings {j : Json ν} (h : j.Valid) {ss : List Str}
    (hss : j.getStrings = some ss) : ∀ s ∈ ss, Utf8.Valid s := by
  unfold Json.getStrings at hss
  split at hss
  · exact valid_of_mapM_getString (valid_array.1 h) hss
  · cases hss

end Json

/-! ## The library -/

/-- The library prints the values whose text is valid UTF-8, and reads no others. -/
structure JsonLib.Strict (lib : JsonLib ν) : Prop where
  dump_isSome : ∀ j, (lib.dump j).isSome ↔ j.Valid
  parse : ∀ text j, lib.parse text = some j → j.Valid

/-- The library as it behaves on the values `js`, with its checks. -/
def JsonLib.checked (showDouble : ν → Str) (js : List (Json ν)) : JsonLib ν where
  dump j := if j.Valid then some (j.compact showDouble) else none
  parse text := (js.find? fun j => j.compact showDouble = text).filter fun j => j.Valid

theorem JsonLib.checked_strict (showDouble : ν → Str) (js : List (Json ν)) :
    (JsonLib.checked showDouble js).Strict where
  dump_isSome j := by
    by_cases h : j.Valid <;> simp [JsonLib.checked, h]
  parse text j h := by
    simpa using (Option.filter_eq_some_iff.1 h).2

/-! ## Entries and turns -/

namespace CacheEntry

/-- The strings of an entry. -/
def strings (e : CacheEntry ν) : List Str :=
  [e.key, e.agentId, e.capability, e.inputHash, e.inputSummary, e.output, e.outputSummary, e.fullRef,
    e.invalidReason] ++ e.dependsOn ++ e.sourceUrls

/-- Every string of the entry is valid UTF-8. -/
def Valid (e : CacheEntry ν) : Prop := ∀ s ∈ e.strings, Utf8.Valid s

instance (e : CacheEntry ν) : Decidable e.Valid :=
  inferInstanceAs (Decidable (∀ s ∈ e.strings, Utf8.Valid s))

theorem Valid.dependsOn {e : CacheEntry ν} (h : e.Valid) : ∀ d ∈ e.dependsOn, Utf8.Valid d :=
  fun d hd => h d (by simp [strings, hd])

theorem Valid.key {e : CacheEntry ν} (h : e.Valid) : Utf8.Valid e.key :=
  h e.key (by simp [strings])

theorem Valid.touch {e : CacheEntry ν} (h : e.Valid) : e.touch.Valid := h

/-- The entry with another status and its reason. -/
theorem Valid.withReason {e : CacheEntry ν} (h : e.Valid) (status : CacheStatus) (confidence : ν)
    {reason : Str} (hreason : Utf8.Valid reason) :
    { e with status, confidence, invalidReason := reason : CacheEntry ν }.Valid := by
  intro s hs
  have hs' : s = reason ∨ s ∈ e.strings := by
    simp only [strings, List.cons_append, List.nil_append, List.mem_cons] at hs ⊢
    tauto
  rcases hs' with rfl | hs'
  · exact hreason
  · exact h s hs'

theorem valid_toJson {e : CacheEntry ν} (h : e.Valid) : e.toJson.Valid := by
  refine Json.valid_object_members fun p hp => ?_
  have hkey : ∀ k ∈ e.jsonMembers.map Prod.fst, Utf8.Valid k := by
    simp only [jsonMembers, List.map_cons, List.map_nil, List.forall_mem_cons, valid_str]
    simp
  refine ⟨hkey p.1 (List.mem_map_of_mem hp), ?_⟩
  revert p
  simp only [Valid, strings, List.cons_append, List.nil_append, List.forall_mem_cons,
    List.forall_mem_append] at h
  obtain ⟨h₁, h₂, h₃, h₄, h₅, h₆, h₇, h₈, h₉, hdeps, hurls⟩ := h
  simpa [jsonMembers, h₁, h₂, h₃, h₄, h₅, h₆, h₇, h₈, h₉] using And.intro hdeps hurls

variable [Double ν]

theorem valid_fromJson {j : Json ν} (hj : j.Valid) {e : CacheEntry ν} (h : fromJson j = some e) :
    e.Valid := by
  have hstrings {key : String} {xs : List Str} (hxs : stringsOf j key = some xs) :
      ∀ s ∈ xs, Utf8.Valid s := by
    unfold stringsOf at hxs
    split at hxs
    · next v hv => exact Json.valid_of_mapM_getString (hj.member hv).elems hxs
    · cases hxs
      simp
  unfold fromJson at h
  obtain ⟨key, hkey, h⟩ := Option.bind_eq_some_iff.1 h
  obtain ⟨agentId, hagentId, h⟩ := Option.bind_eq_some_iff.1 h
  obtain ⟨capability, hcapability, h⟩ := Option.bind_eq_some_iff.1 h
  obtain ⟨inputHash, hinputHash, h⟩ := Option.bind_eq_some_iff.1 h
  obtain ⟨inputSummary, hinputSummary, h⟩ := Option.bind_eq_some_iff.1 h
  obtain ⟨output, houtput, h⟩ := Option.bind_eq_some_iff.1 h
  obtain ⟨outputSummary, houtputSummary, h⟩ := Option.bind_eq_some_iff.1 h
  obtain ⟨fullRef, hfullRef, h⟩ := Option.bind_eq_some_iff.1 h
  obtain ⟨confidence, -, h⟩ := Option.bind_eq_some_iff.1 h
  obtain ⟨decay, -, h⟩ := Option.bind_eq_some_iff.1 h
  obtain ⟨createdAtMs, -, h⟩ := Option.bind_eq_some_iff.1 h
  obtain ⟨ttl, -, h⟩ := Option.bind_eq_some_iff.1 h
  obtain ⟨status, -, h⟩ := Option.bind_eq_some_iff.1 h
  obtain ⟨dependsOn, hdependsOn, h⟩ := Option.bind_eq_some_iff.1 h
  obtain ⟨sourceUrls, hsourceUrls, h⟩ := Option.bind_eq_some_iff.1 h
  obtain ⟨invalidReason, hinvalidReason, h⟩ := Option.bind_eq_some_iff.1 h
  obtain ⟨accessCount, -, h⟩ := Option.bind_eq_some_iff.1 h
  obtain ⟨priority, -, h⟩ := Option.bind_eq_some_iff.1 h
  cases h
  simp only [Valid, strings, List.cons_append, List.nil_append, List.forall_mem_cons,
    List.forall_mem_append]
  exact ⟨hj.value_getString hkey, hj.value_getString hagentId, hj.value_getString hcapability,
    hj.value_getString hinputHash, hj.value_getString hinputSummary, hj.value_getString houtput,
    hj.value_getString houtputSummary, hj.value_getString hfullRef,
    hj.value_getString hinvalidReason, hstrings hdependsOn, hstrings hsourceUrls⟩

end CacheEntry

namespace SessionTurn

/-- The strings of a turn. -/
def strings (t : SessionTurn ν) : List Str :=
  [t.callId, t.agentId, t.capability, t.inputSummary, t.outputSummary, t.cacheKey]

/-- Every string of the turn is valid UTF-8. -/
def Valid (t : SessionTurn ν) : Prop := ∀ s ∈ t.strings, Utf8.Valid s

instance (t : SessionTurn ν) : Decidable t.Valid :=
  inferInstanceAs (Decidable (∀ s ∈ t.strings, Utf8.Valid s))

theorem valid_toJson {t : SessionTurn ν} (h : t.Valid) : t.toJson.Valid := by
  simp only [Valid, strings, List.forall_mem_cons] at h
  refine Json.valid_object_members ?_
  simp [h, valid_str]

end SessionTurn

namespace SessionBuffer

/-- Every string of the session and its turns is valid UTF-8. -/
structure Valid (sb : SessionBuffer ν) : Prop where
  sessionId : Utf8.Valid sb.sessionId
  turns : ∀ t ∈ sb.turns, t.Valid

theorem valid_toJson {sb : SessionBuffer ν} (h : sb.Valid) : sb.toJson.Valid := by
  refine Json.valid_object_members ?_
  have hturns : ∀ j ∈ sb.turns.map SessionTurn.toJson, j.Valid := by
    intro j hj
    obtain ⟨t, ht, rfl⟩ := List.mem_map.1 hj
    exact SessionTurn.valid_toJson (h.turns t ht)
  simp only [List.forall_mem_cons, valid_str, true_and, Json.valid_string, Json.valid_array]
  exact ⟨h.sessionId, hturns, by simp⟩

/-! ## Pruning -/

/-- What a buffer pops is at its front. -/
theorem popWhile_suffix (tooMany : List (SessionTurn ν) → Bool) (ts : List (SessionTurn ν)) :
    popWhile tooMany ts <:+ ts := by
  induction ts with
  | nil => exact List.suffix_refl _
  | cons t ts ih =>
      unfold popWhile
      split_ifs
      · exact ih.trans (List.suffix_cons t ts)
      · exact List.suffix_refl _

theorem prune_suffix (ts : List (SessionTurn ν)) : prune ts <:+ ts :=
  (popWhile_suffix _ _).trans (popWhile_suffix _ _)

/-- A turn on which nothing is popped stays at the end. -/
theorem exists_popWhile (tooMany : List (SessionTurn ν) → Bool) {t : SessionTurn ν}
    (h : tooMany [t] = false) (ts : List (SessionTurn ν)) :
    ∃ ts', popWhile tooMany (ts ++ [t]) = ts' ++ [t] := by
  induction ts with
  | nil => exact ⟨[], by simp [popWhile, h]⟩
  | cons t' ts ih =>
      rw [List.cons_append, popWhile]
      split_ifs
      · exact ih
      · exact ⟨t' :: ts, rfl⟩

/-- The newest turn is never pruned. -/
theorem mem_append_self (turn : SessionTurn ν) (sb : SessionBuffer ν) :
    turn ∈ (sb.append turn).turns := by
  obtain ⟨ts, hts⟩ := exists_popWhile (fun ts => kMaxTurns < ts.length) (t := turn)
    (by simp [kMaxTurns]) sb.turns
  obtain ⟨ts', hts'⟩ := exists_popWhile
    (fun ts => kMaxTotalTokens < estimatedTokens ts ∧ 3 < ts.length) (t := turn) (by simp) ts
  show turn ∈ prune (sb.turns ++ [turn])
  rw [prune, hts, hts']
  simp

theorem Valid.append {sb : SessionBuffer ν} (h : sb.Valid) {turn : SessionTurn ν} (ht : turn.Valid) :
    (sb.append turn).Valid where
  sessionId := h.sessionId
  turns t hmem := by
    rcases List.mem_append.1 ((prune_suffix _).subset hmem) with hmem | hmem
    · exact h.turns t hmem
    · rw [List.mem_singleton.1 hmem]
      exact ht

end SessionBuffer

end LlmGateway
