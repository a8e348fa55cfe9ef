import LlmGateway.Json

/-!
# Cache entries

The cache entry of `agent_types.h`, its JSON form (`toJson`, `fromJson`) and its expiry time.
`fromJson_toJson`: the JSON form determines the entry.
-/

namespace LlmGateway

variable {ν : Type}

/-- The layer that an answer comes from. -/
inductive CacheLayer where
  | L1
  | L2
  | L3
  deriving DecidableEq

/-- The status of an entry.  The C++ enumeration is stored in an `int`, and an entry read from a
file can hold any value of it. -/
inductive CacheStatus where
  | FRESH
  | STALE
  | INVALIDATED
  | other (code : Int32) (h : code ≠ 0 ∧ code ≠ 1 ∧ code ≠ 2)
  deriving DecidableEq

namespace CacheStatus

/-- `static_cast<int>(status)`. -/
def toInt : CacheStatus → Int32
  | FRESH => 0
  | STALE => 1
  | INVALIDATED => 2
  | other code _ => code

/-- `static_cast<CacheStatus>(code)`. -/
def ofInt (code : Int32) : CacheStatus :=
  if h₀ : code = 0 then FRESH
  else if h₁ : code = 1 then STALE
  else if h₂ : code = 2 then INVALIDATED
  else other code ⟨h₀, h₁, h₂⟩

@[simp]
theorem ofInt_toInt (s : CacheStatus) : ofInt s.toInt = s := by
  cases s with
  | FRESH => rfl
  | STALE => rfl
  | INVALIDATED => rfl
  | other code h =>
    unfold toInt ofInt
    rw [dif_neg h.1, dif_neg h.2.1, dif_neg h.2.2]

end CacheStatus

/-- A cache entry. -/
structure CacheEntry (ν : Type) where
  key : Str
  agentId : Str
  capability : Str
  inputHash : Str
  inputSummary : Str
  output : Str
  outputSummary : Str
  fullRef : Str
  confidence : ν
  confidenceDecay : ν
  createdAtMs : Int64
  baseTtlSeconds : Int32
  status : CacheStatus
  dependsOn : List Str
  sourceUrls : List Str
  invalidReason : Str
  accessCount : Int32
  priority : ν
  deriving DecidableEq

namespace CacheEntry

/-- A default-constructed entry. -/
def empty [Double ν] : CacheEntry ν where
  key := []
  agentId := []
  capability := []
  inputHash := []
  inputSummary := []
  output := []
  outputSummary := []
  fullRef := []
  confidence := Double.lit 0
  confidenceDecay := Double.lit (2 / 100)
  createdAtMs := 0
  baseTtlSeconds := 300
  status := .FRESH
  dependsOn := []
  sourceUrls := []
  invalidReason := []
  accessCount := 0
  priority := Double.lit 1

/-- `created_at_ms + base_ttl_seconds * 1000L`, with the 64 bits of the sum. -/
def expiresAtMs (e : CacheEntry ν) : Int64 := e.createdAtMs + e.baseTtlSeconds.toInt64 * 1000

/-- `now > created_at_ms + base_ttl_seconds * 1000L`, the test that every layer makes. -/
def expired (now : Int64) (e : CacheEntry ν) : Bool := e.expiresAtMs < now

/-- The time up to which the entry is good: the sum of `expiresAtMs` in exact arithmetic. -/
def deadlineMs (e : CacheEntry ν) : ℤ := e.createdAtMs.toInt + e.baseTtlSeconds.toInt * 1000

/-- The time is past the deadline of the entry. -/
def Overdue (now : Int64) (e : CacheEntry ν) : Prop := e.deadlineMs < now.toInt

instance (now : Int64) (e : CacheEntry ν) : Decidable (e.Overdue now) :=
  inferInstanceAs (Decidable (_ < _))

/-- The entry after one more access. -/
def touch (e : CacheEntry ν) : CacheEntry ν := { e with accessCount := e.accessCount + 1 }

@[simp]
theorem overdue_touch (now : Int64) (e : CacheEntry ν) : e.touch.Overdue now ↔ e.Overdue now := Iff.rfl

/-- The entry without its access count, which reads do not write to disk. -/
def forgetAccess (e : CacheEntry ν) : CacheEntry ν := { e with accessCount := 0 }

/-! ## The 64-bit deadline -/

/-- The product fits 64 bits; only the sum can overflow. -/
theorem toInt_ttlMs (ttl : Int32) : (ttl.toInt64 * 1000).toInt = ttl.toInt * 1000 := by
  have hlo := Int32.le_toInt ttl
  have hhi := Int32.toInt_lt ttl
  have h : (1000 : Int64).toInt = 1000 := rfl
  rw [Int64.toInt_mul, Int32.toInt_toInt64, h]
  exact Int.bmod_eq_of_le (by norm_num at *; omega) (by norm_num at *; omega)

theorem toInt_expiresAtMs (e : CacheEntry ν) :
    e.expiresAtMs.toInt = e.deadlineMs.bmod (2 ^ 64) := by
  rw [expiresAtMs, Int64.toInt_add, toInt_ttlMs, deadlineMs]

theorem expired_iff {now : Int64} {e : CacheEntry ν} :
    e.expired now = true ↔ e.deadlineMs.bmod (2 ^ 64) < now.toInt := by
  rw [expired, decide_eq_true_iff, Int64.lt_iff_toInt_lt, toInt_expiresAtMs]

/-- What passes the test although its deadline has passed has a deadline before the first time that
64 bits can tell, so that the sum comes out in the far future. -/
theorem overdue_iff_of_unexpired {now : Int64} {e : CacheEntry ν} (h : e.expired now = false) :
    e.Overdue now ↔ e.deadlineMs < -2 ^ 63 := by
  have hunexpired : ¬e.deadlineMs.bmod (2 ^ 64) < now.toInt := by
    rw [← expired_iff, h]
    exact Bool.false_ne_true
  have hnow := Int64.toInt_lt now
  have hnow' := Int64.le_toInt now
  have hcreated := Int64.le_toInt e.createdAtMs
  have httl := Int32.le_toInt e.baseTtlSeconds
  have hdeadline : e.deadlineMs = e.createdAtMs.toInt + e.baseTtlSeconds.toInt * 1000 := rfl
  unfold Overdue
  constructor
  · intro hover
    by_contra hbound
    refine hunexpired ?_
    rwa [Int.bmod_eq_of_le (by norm_num at *; omega) (by norm_num at *; omega)]
  · intro hbound
    omega

/-- A deadline that 64 bits hold is kept to. -/
theorem expired_of_overdue {now : Int64} {e : CacheEntry ν} (h : e.Overdue now)
    (hbound : -2 ^ 63 ≤ e.deadlineMs) : e.expired now = true := by
  by_contra hexp
  exact absurd ((overdue_iff_of_unexpired (Bool.eq_false_iff.2 hexp)).1 h) (by omega)

/-! ## JSON form -/

/-- The members of the JSON form, in the order of the source. -/
def jsonMembers (e : CacheEntry ν) : List (Str × Json ν) :=
  [(str "key", .string e.key),
   (str "agent_id", .string e.agentId),
   (str "capability", .string e.capability),
   (str "input_hash", .string e.inputHash),
   (str "input_summary", .string e.inputSummary),
   (str "output", .string e.output),
   (str "output_summary", .string e.outputSummary),
   (str "full_ref", .string e.fullRef),
   (str "confidence", .float e.confidence),
   (str "confidence_decay", .float e.confidenceDecay),
   (str "created_at_ms", .int e.createdAtMs.toInt),
   (str "base_ttl_seconds", .int e.baseTtlSeconds.toInt),
   (str "status", .int e.status.toInt.toInt),
   (str "depends_on", .array (e.dependsOn.map .string)),
   (str "source_urls", .array (e.sourceUrls.map .string)),
   (str "invalid_reason", .string e.invalidReason),
   (str "access_count", .int e.accessCount.toInt),
   (str "priority", .float e.priority)]

/-- `CacheEntry::to_json`. -/
def toJson (e : CacheEntry ν) : Json ν := .object (Json.members e.jsonMembers)

/-- The strings of an optional list member. -/
def stringsOf (j : Json ν) (key : String) : Option (List Str) :=
  match j.member key with
  | some v => v.elems.mapM Json.getString
  | none => some []

/-- `CacheEntry::from_json`. -/
def fromJson [Double ν] (j : Json ν) : Option (CacheEntry ν) := do
  let key ← j.value "key" Json.getString []
  let agentId ← j.value "agent_id" Json.getString []
  let capability ← j.value "capability" Json.getString []
  let inputHash ← j.value "input_hash" Json.getString []
  let inputSummary ← j.value "input_summary" Json.getString []
  let output ← j.value "output" Json.getString []
  let outputSummary ← j.value "output_summary" Json.getString []
  let fullRef ← j.value "full_ref" Json.getString []
  let confidence ← j.value "confidence" Json.getDouble (Double.lit 0)
  let confidenceDecay ← j.value "confidence_decay" Json.getDouble (Double.lit (2 / 100))
  let createdAtMs ← j.value "created_at_ms" Json.getInt64 0
  let baseTtlSeconds ← j.value "base_ttl_seconds" Json.getInt 300
  let status ← j.value "status" Json.getInt 0
  let dependsOn ← stringsOf j "depends_on"
  let sourceUrls ← stringsOf j "source_urls"
  let invalidReason ← j.value "invalid_reason" Json.getString []
  let accessCount ← j.value "access_count" Json.getInt 0
  let priority ← j.value "priority" Json.getDouble (Double.lit 1)
  return { key, agentId, capability, inputHash, inputSummary, output, outputSummary, fullRef,
           confidence, confidenceDecay, createdAtMs, baseTtlSeconds,
           status := CacheStatus.ofInt status, dependsOn, sourceUrls, invalidReason,
           accessCount, priority }

theorem nodup_jsonMembers (e : CacheEntry ν) : (e.jsonMembers.map Prod.fst).Nodup := by
  simp only [jsonMembers, List.map_cons, List.map_nil]
  decide

/-- A member of the JSON form is read back through its accessor. -/
theorem value_toJson {α : Type} (e : CacheEntry ν) (key : String) (get : Json ν → Option α)
    (dflt : α) {v : Json ν} (h : e.jsonMembers.lookup (str key) = some v) :
    e.toJson.value key get dflt = get v :=
  Json.value_object_members _ e.nodup_jsonMembers key get dflt h

theorem mapM_getString_elems (xs : List Str) :
    ((Json.array (xs.map .string) : Json ν).elems).mapM Json.getString = some xs :=
  Json.getStrings_array_string xs

theorem stringsOf_toJson (e : CacheEntry ν) (key : String) {xs : List Str}
    (h : e.jsonMembers.lookup (str key) = some (.array (xs.map .string))) :
    stringsOf e.toJson key = some xs := by
  rw [stringsOf, toJson, Json.member_object_members _ e.nodup_jsonMembers, h]
  exact mapM_getString_elems xs

theorem fromJson_toJson [Double ν] (e : CacheEntry ν) : fromJson e.toJson = some e := by
  unfold fromJson
  rw [value_toJson e "key" _ _ rfl, value_toJson e "agent_id" _ _ rfl,
    value_toJson e "capability" _ _ rfl, value_toJson e "input_hash" _ _ rfl,
    value_toJson e "input_summary" _ _ rfl, value_toJson e "output" _ _ rfl,
    value_toJson e "output_summary" _ _ rfl, value_toJson e "full_ref" _ _ rfl,
    value_toJson e "confidence" _ _ rfl, value_toJson e "confidence_decay" _ _ rfl,
    value_toJson e "created_at_ms" _ _ rfl, value_toJson e "base_ttl_seconds" _ _ rfl,
    value_toJson e "status" _ _ rfl, stringsOf_toJson e "depends_on" rfl,
    stringsOf_toJson e "source_urls" rfl, value_toJson e "invalid_reason" _ _ rfl,
    value_toJson e "access_count" _ _ rfl, value_toJson e "priority" _ _ rfl]
  simp [Json.getString, Json.getDouble, Json.getInt64, Json.getInt]

end CacheEntry

end LlmGateway
