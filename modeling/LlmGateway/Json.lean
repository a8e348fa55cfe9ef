import LlmGateway.Base

/-!
# JSON values

The values of the JSON library and the accessors that the gateway applies to them.  Parsing and
dumping are parameters (`JsonLib`): parsing throws on malformed text and dumping on text that is
not valid UTF-8.

The library keeps the members of an object sorted by key, and iterates over them in that order;
`setKey` is the assignment `j[k] = v`.  An accessor that throws on a value of the wrong type
returns `none`.
-/

namespace LlmGateway

variable {ν : Type}

/-- A JSON value.  The library's signed and unsigned integers are one constructor. -/
inductive Json (ν : Type) where
  | null
  | bool (b : Bool)
  | int (n : ℤ)
  | float (x : ν)
  | string (s : Str)
  | array (xs : List (Json ν))
  | object (members : List (Str × Json ν))

/-- The parser and the printer of the JSON library; `none` is a throw. -/
structure JsonLib (ν : Type) where
  parse : Str → Option (Json ν)
  dump : Json ν → Option Str

/-- The line feed. -/
def newline : UInt8 := 10

/-- The library prints `j` on one non-empty line and reads the same value back from it. -/
def JsonLib.RoundTrips (lib : JsonLib ν) (j : Json ν) : Prop :=
  ∃ text, lib.dump j = some text ∧ lib.parse text = some j ∧ newline ∉ text ∧ text ≠ []

namespace Json

/-! ## Objects -/

section Members

variable {α : Type}

/-- `j[k] = v` on the members of an object. -/
def setKey (k : Str) (v : α) : List (Str × α) → List (Str × α)
  | [] => [(k, v)]
  | (k', v') :: m =>
      if k = k' then (k, v) :: m
      else if k < k' then (k, v) :: (k', v') :: m
      else (k', v') :: setKey k v m

/-- The members after `j[k] = v` for the pairs of a list, as an initializer list gives them too. -/
def members (ps : List (Str × α)) : List (Str × α) :=
  ps.foldl (fun m p => setKey p.1 p.2 m) []

theorem lookup_cons_eq (k k' : Str) (v : α) (m : List (Str × α)) :
    ((k, v) :: m).lookup k' = if k' = k then some v else m.lookup k' := by
  rw [List.lookup_cons]
  by_cases h : k' = k
  · rw [if_pos h, beq_iff_eq.2 h]
  · rw [if_neg h, beq_eq_false_iff_ne.2 h]

theorem lookup_setKey (k k' : Str) (v : α) (m : List (Str × α)) :
    (setKey k v m).lookup k' = if k' = k then some v else m.lookup k' := by
  induction m with
  | nil => exact lookup_cons_eq k k' v []
  | cons p m ih =>
      obtain ⟨k₀, v₀⟩ := p
      rw [setKey]
      by_cases h₀ : k = k₀
      · subst h₀
        rw [if_pos rfl, lookup_cons_eq, lookup_cons_eq]
        split_ifs <;> rfl
      · rw [if_neg h₀]
        by_cases hlt : k < k₀
        · rw [if_pos hlt, lookup_cons_eq]
        · rw [if_neg hlt, lookup_cons_eq, lookup_cons_eq, ih]
          by_cases hk : k' = k
          · rw [if_pos hk, if_pos hk, if_neg (hk ▸ h₀)]
          · rw [if_neg hk, if_neg hk]

theorem setKey_perm {k : Str} {m : List (Str × α)} (h : k ∉ m.map Prod.fst) (v : α) :
    (setKey k v m).Perm ((k, v) :: m) := by
  induction m with
  | nil => exact List.Perm.refl _
  | cons p m ih =>
      obtain ⟨k', v'⟩ := p
      simp only [List.map_cons, List.mem_cons, not_or] at h
      unfold setKey
      rw [if_neg h.1]
      split_ifs
      · exact List.Perm.refl _
      · exact ((ih h.2).cons _).trans (List.Perm.swap _ _ _)

/-- Distinct keys are sorted, and nothing is lost. -/
theorem members_perm {ps : List (Str × α)} (hps : (ps.map Prod.fst).Nodup) :
    (members ps).Perm ps := by
  have h : ∀ (ps m : List (Str × α)), (ps.map Prod.fst).Nodup →
      (∀ k ∈ ps.map Prod.fst, k ∉ m.map Prod.fst) →
      (ps.foldl (fun m p => setKey p.1 p.2 m) m).Perm (ps ++ m) := by
    intro ps
    induction ps with
    | nil => exact fun m _ _ => List.Perm.refl _
    | cons p ps ih =>
        intro m hps hm
        simp only [List.map_cons, List.nodup_cons] at hps
        have hp := setKey_perm (hm p.1 (by simp)) p.2
        refine (ih _ hps.2 fun k hk => ?_).trans ((hp.append_left ps).trans List.perm_middle)
        rw [(hp.map Prod.fst).mem_iff, List.map_cons, List.mem_cons, not_or]
        refine ⟨?_, hm k (List.mem_cons_of_mem _ hk)⟩
        rintro rfl
        exact hps.1 hk
  simpa [members] using h ps [] hps (by simp)

theorem setKey_map {β : Type} (f : α → β) (k : Str) (v : α) (m : List (Str × α)) :
    setKey k (f v) (m.map fun p => (p.1, f p.2)) = (setKey k v m).map fun p => (p.1, f p.2) := by
  induction m with
  | nil => rfl
  | cons p m ih =>
      simp only [List.map_cons, setKey, ih]
      split_ifs <;> rfl

theorem members_map {β : Type} (f : α → β) (ps : List (Str × α)) :
    members (ps.map fun p => (p.1, f p.2)) = (members ps).map fun p => (p.1, f p.2) := by
  have h : ∀ (ps m : List (Str × α)),
      (ps.map fun p => (p.1, f p.2)).foldl (fun m p => setKey p.1 p.2 m) (m.map fun p => (p.1, f p.2)) =
        (ps.foldl (fun m p => setKey p.1 p.2 m) m).map fun p => (p.1, f p.2) := by
    intro ps
    induction ps with
    | nil => exact fun _ => rfl
    | cons p ps ih =>
        intro m
        rw [List.map_cons, List.foldl_cons, List.foldl_cons, ← ih, ← setKey_map]
  exact h ps []

theorem lookup_iff_mem {l : List (Str × α)} (hl : (l.map Prod.fst).Nodup) {k : Str} {v : α} :
    l.lookup k = some v ↔ (k, v) ∈ l := by
  induction l with
  | nil => simp
  | cons p l ih =>
      obtain ⟨k', v'⟩ := p
      simp only [List.map_cons, List.nodup_cons] at hl
      by_cases h : k = k'
      · subst h
        have hv : (k, v) ∉ l := fun hm => hl.1 (List.mem_map_of_mem hm)
        simp [hv, eq_comm]
      · have hb : (k == k') = false := by simpa using h
        rw [List.lookup_cons, hb, ih hl.2]
        simp [h]

/-- Members with distinct keys are found under their keys. -/
theorem lookup_members {ps : List (Str × α)} (hps : (ps.map Prod.fst).Nodup) (k : Str) :
    (members ps).lookup k = ps.lookup k := by
  have hperm := members_perm hps
  have hm : ((members ps).map Prod.fst).Nodup := (hperm.map Prod.fst).nodup_iff.2 hps
  cases h : ps.lookup k with
  | none =>
    rw [Option.eq_none_iff_forall_ne_some] at h ⊢
    intro v hv
    exact h v ((lookup_iff_mem hps).2 (hperm.mem_iff.1 ((lookup_iff_mem hm).1 hv)))
  | some v => exact (lookup_iff_mem hm).2 (hperm.mem_iff.2 ((lookup_iff_mem hps).1 h))

end Members

/-! ## Accessors -/

/-- The pairs that a loop over `j.items()` sees: the members of an object, the elements of an array
under their indices, nothing for `null`, and any other value itself under the empty key. -/
def items : Json ν → List (Str × Json ν)
  | object m => m
  | array xs => xs.zipIdx.map fun p => (str (Nat.repr p.2), p.1)
  | null => []
  | j => [([], j)]

/-- The values that a range loop over `j` sees. -/
def elems : Json ν → List (Json ν)
  | object m => m.map Prod.snd
  | array xs => xs
  | null => []
  | j => [j]

/-- `j.empty()`. -/
def isEmpty : Json ν → Bool
  | null => true
  | array xs => xs.isEmpty
  | object m => m.isEmpty
  | _ => false

/-- `j[0]` of a value that is not empty: throws if it is not an array. -/
def first : Json ν → Option (Json ν)
  | array (x :: _) => some x
  | _ => none

/-- `get<std::string>()`. -/
def getString : Json ν → Option Str
  | string s => some s
  | _ => none

/-- `get<bool>()`. -/
def getBool : Json ν → Option Bool
  | bool b => some b
  | _ => none

/-- `get<std::vector<std::string>>()`. -/
def getStrings : Json ν → Option (List Str)
  | array xs => xs.mapM getString
  | _ => none

variable [Double ν]

/-- `get<double>()`. -/
def getDouble : Json ν → Option ν
  | int n => some (Double.lit n)
  | float x => some x
  | _ => none

/-- `get<int64_t>()`. -/
def getInt64 : Json ν → Option Int64
  | int n => some (Int64.ofInt n)
  | float x => some (Int64.ofInt (Double.trunc x))
  | _ => none

/-- `get<int>()`, which also takes a boolean. -/
def getInt : Json ν → Option Int32
  | int n => some (Int32.ofInt n)
  | float x => some (Int32.ofInt (Double.trunc x))
  | bool b => some (if b then 1 else 0)
  | _ => none

omit [Double ν]

/-- `j.value(key, dflt)`: throws if `j` is not an object or the member has the wrong type. -/
def value {α : Type} (j : Json ν) (key : String) (get : Json ν → Option α) (dflt : α) : Option α :=
  match j with
  | object m =>
      match m.lookup (str key) with
      | some v => get v
      | none => some dflt
  | _ => none

/-- `j.contains(key)` and the member. -/
def member (j : Json ν) (key : String) : Option (Json ν) :=
  match j with
  | object m => m.lookup (str key)
  | _ => none

theorem value_object_members {α : Type} (ps : List (Str × Json ν)) (hps : (ps.map Prod.fst).Nodup)
    (key : String) (get : Json ν → Option α) (dflt : α) {v : Json ν}
    (h : ps.lookup (str key) = some v) :
    (object (members ps)).value key get dflt = get v := by
  simp [value, lookup_members hps, h]

theorem member_object_members (ps : List (Str × Json ν)) (hps : (ps.map Prod.fst).Nodup)
    (key : String) : (object (members ps)).member key = ps.lookup (str key) := by
  simp [member, lookup_members hps]

@[simp]
theorem getStrings_array_string (xs : List Str) :
    (array (xs.map string) : Json ν).getStrings = some xs := by
  have h : ((xs.map (string (ν := ν))).mapM getString) = some xs := by
    induction xs with
    | nil => rfl
    | cons x xs ih => simp [List.mapM_cons, ih, getString]
  exact h

/-! ## Compact text

The text that the library's printer gives, for a printer of doubles.  The results take parsing and
dumping as parameters; this printer serves the concrete runs that they are instantiated at. -/

/-- A byte of a JSON string literal. -/
def escape (c : UInt8) : Str :=
  if c = 34 then str "\\\""
  else if c = 92 then str "\\\\"
  else if c = 8 then str "\\b"
  else if c = 9 then str "\\t"
  else if c = 10 then str "\\n"
  else if c = 12 then str "\\f"
  else if c = 13 then str "\\r"
  else if c < 32 then
    str "\\u00" ++ [if c < 16 then 48 else 49, if c % 16 < 10 then 48 + c % 16 else 87 + c % 16]
  else [c]

/-- A JSON string literal. -/
def quote (s : Str) : Str := str "\"" ++ s.flatMap escape ++ str "\""

mutual

/-- The compact text of a value. -/
def compact (showDouble : ν → Str) : Json ν → Str
  | null => str "null"
  | bool b => if b then str "true" else str "false"
  | int n => str (toString n)
  | float x => showDouble x
  | string s => quote s
  | array xs => str "[" ++ compactElems showDouble xs ++ str "]"
  | object m => str "\x7b" ++ compactMembers showDouble m ++ str "\x7d"

/-- The elements of an array, separated by commas. -/
def compactElems (showDouble : ν → Str) : List (Json ν) → Str
  | [] => []
  | [x] => compact showDouble x
  | x :: y :: xs => compact showDouble x ++ str "," ++ compactElems showDouble (y :: xs)

/-- The members of an object, separated by commas. -/
def compactMembers (showDouble : ν → Str) : List (Str × Json ν) → Str
  | [] => []
  | [(k, v)] => quote k ++ str ":" ++ compact showDouble v
  | (k, v) :: p :: m =>
      quote k ++ str ":" ++ compact showDouble v ++ str "," ++ compactMembers showDouble (p :: m)

end

/-- The shortest decimal text of a rational, with at least one digit below the point. -/
def showRat (x : ℚ) : Str :=
  let digits := fraction (|x| - |x|.floor) 17
  let shown := (digits.reverse.dropWhile (· = 48)).reverse
  (if x < 0 then str "-" else []) ++ str (toString |x|.floor) ++ str "." ++
    if shown = [] then str "0" else shown

end Json

/-- The library as it behaves on the values `js`: it prints compact text and reads the texts of `js`
back. -/
def JsonLib.on (showDouble : ν → Str) (js : List (Json ν)) : JsonLib ν where
  dump j := some (j.compact showDouble)
  parse text := js.find? fun j => j.compact showDouble = text

theorem JsonLib.on_roundTrips {showDouble : ν → Str} (pre post : List (Json ν)) {j : Json ν}
    (hpre : ∀ j' ∈ pre, j'.compact showDouble ≠ j.compact showDouble)
    (hline : newline ∉ j.compact showDouble) (hne : j.compact showDouble ≠ []) :
    (JsonLib.on showDouble (pre ++ j :: post)).RoundTrips j := by
  refine ⟨_, rfl, ?_, hline, hne⟩
  have hnone : pre.find? (fun j' => j'.compact showDouble = j.compact showDouble) = none := by
    rw [List.find?_eq_none]
    intro j' hj'
    simpa using hpre j' hj'
  simp [JsonLib.on, List.find?_append, hnone]

end LlmGateway
