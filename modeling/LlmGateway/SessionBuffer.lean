import LlmGateway.Json

/-!
# Session buffers

`SessionBuffer`: the recent agent results of one session, oldest first.  Appending prunes the oldest
turns.
-/

namespace LlmGateway

variable {ν : Type}

/-- A call and its result, in a session. -/
structure SessionTurn (ν : Type) where
  callId : Str
  agentId : Str
  capability : Str
  inputSummary : Str
  outputSummary : Str
  cacheKey : Str
  timestampMs : Int64
  confidence : ν
  deriving DecidableEq

/-- The turns of a session, the oldest first. -/
structure SessionBuffer (ν : Type) where
  sessionId : Str
  turns : List (SessionTurn ν) := []

namespace SessionBuffer

/-- The most turns that are kept. -/
def kMaxTurns : ℕ := 50

/-- The most tokens that are kept, beyond three turns. -/
def kMaxTotalTokens : ℕ := 50000

/-- A token for four bytes, and ten for each turn. -/
def estimatedTokens (turns : List (SessionTurn ν)) : ℕ :=
  (turns.map fun t => (t.inputSummary.length + t.outputSummary.length) / 4 + 10).sum

/-- Pop the front as long as there are too many turns. -/
def popWhile (tooMany : List (SessionTurn ν) → Bool) : List (SessionTurn ν) → List (SessionTurn ν)
  | [] => []
  | t :: ts => if tooMany (t :: ts) then popWhile tooMany ts else t :: ts

/-- Drop the oldest turns until the bounds hold. -/
def prune (turns : List (SessionTurn ν)) : List (SessionTurn ν) :=
  let turns := popWhile (fun ts => kMaxTurns < ts.length) turns
  popWhile (fun ts => kMaxTotalTokens < estimatedTokens ts ∧ 3 < ts.length) turns

/-- Add a turn, and prune. -/
def append (turn : SessionTurn ν) (sb : SessionBuffer ν) : SessionBuffer ν :=
  { sb with turns := prune (sb.turns ++ [turn]) }

/-- The loop of `recent`, over the turns from the newest on. -/
def recentLoop (capability : Str) (n : ℤ) :
    List (SessionTurn ν) → List (SessionTurn ν) → List (SessionTurn ν)
  | [], result => result
  | t :: ts, result =>
      if t.capability = capability then
        if n ≤ (result ++ [t]).length then result ++ [t]
        else recentLoop capability n ts (result ++ [t])
      else recentLoop capability n ts result

/-- The last turns of a capability, up to `n` of them. -/
def recent (capability : Str) (n : ℤ) (sb : SessionBuffer ν) : List (SessionTurn ν) :=
  recentLoop capability n sb.turns.reverse []

/-- The newest turn of a capability. -/
def newest (capability : Str) (sb : SessionBuffer ν) : Option (SessionTurn ν) :=
  sb.turns.reverse.find? (·.capability = capability)

theorem head?_recentLoop_append (capability : Str) (n : ℤ) (ts : List (SessionTurn ν))
    (t : SessionTurn ν) (result : List (SessionTurn ν)) :
    (recentLoop capability n ts (t :: result)).head? = some t := by
  induction ts generalizing result with
  | nil => rfl
  | cons t' ts ih =>
      unfold recentLoop
      split_ifs
      · rfl
      · exact ih (result ++ [t'])
      · exact ih result

/-- The recent turns of a capability start with its newest turn. -/
theorem head?_recent (capability : Str) (n : ℤ) (sb : SessionBuffer ν) :
    (sb.recent capability n).head? = sb.newest capability := by
  unfold recent newest
  induction sb.turns.reverse with
  | nil => rfl
  | cons t ts ih =>
      unfold recentLoop
      by_cases h : t.capability = capability
      · rw [if_pos h, List.find?_cons_of_pos (by simpa using h)]
        split_ifs
        · rfl
        · exact head?_recentLoop_append capability n ts t []
      · rw [if_neg h, List.find?_cons_of_neg (by simpa using h), ih]

end SessionBuffer

variable [Double ν]

/-- The value that is archived for a turn. -/
def SessionTurn.toJson (t : SessionTurn ν) : Json ν :=
  .object (Json.members [
    (str "call_id", .string t.callId),
    (str "agent_id", .string t.agentId),
    (str "capability", .string t.capability),
    (str "input_summary", .string t.inputSummary),
    (str "output_summary", .string t.outputSummary),
    (str "cache_key", .string t.cacheKey),
    (str "timestamp_ms", .int t.timestampMs.toInt),
    (str "confidence", .float t.confidence)])

/-- The value that is archived for a session. -/
def SessionBuffer.toJson (sb : SessionBuffer ν) : Json ν :=
  .object (Json.members [
    (str "session_id", .string sb.sessionId),
    (str "turns", .array (sb.turns.map SessionTurn.toJson))])

end LlmGateway
