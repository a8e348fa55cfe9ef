import LlmGateway.L1CacheStore
import LlmGateway.L2Index
import LlmGateway.L2Lookup
import LlmGateway.L3ArchiveStore
import LlmGateway.SessionBuffer

/-!
# The coordinator

`CacheCoordinator`: the local cache, the persistent cache, the archive and the session buffers, with
`query`, `write`, `invalidate` and the session operations.  An operation takes no time: whatever it
reads of a clock is one reading.

`query_fst` says which entry a query answers with: the live copy of the local cache under the composed
key, else the live entry under the key of the session's newest turn of the capability, else the live
entry under the composed key.
-/

namespace LlmGateway

variable {ν : Type}

/-- What the gateway uses of its platform. -/
structure Platform (ν : Type) extends Host where
  json : JsonLib ν

/-- The three layers of the cache, and the buffers of the sessions. -/
structure CacheCoordinator (ν : Type) where
  l1 : L1Store ν := .empty
  l2 : L2PersistentCache ν := {}
  l3 : L3ArchiveStore := {}
  sessions : UMap (SessionBuffer ν) := ∅

namespace CacheCoordinator

/-- The answer to a query that reports a hit. -/
structure QueryResult (ν : Type) where
  entry : CacheEntry ν
  layer : CacheLayer
  stale : Bool

/-- The key that a query composes. -/
def cacheKey (agentId capability inputHash : Str) : Str :=
  str "agent:" ++ agentId ++ str ":" ++ capability ++ str ":" ++ inputHash

/-! ## Queries -/

section Query

/-- The part of a query that asks the local cache. -/
def queryL1 (key : Str) (now : Clock) (c : CacheCoordinator ν) :
    Option (QueryResult ν) × CacheCoordinator ν :=
  let l1 := c.l1.get key now.steady
  (l1.1.map fun e => ⟨e, .L1, false⟩, { c with l1 := l1.2 })

/-- The part that asks for the entry of the session's newest turn of the capability. -/
def querySession (capability sessionId : Str) (now : Clock) (c : CacheCoordinator ν) :
    Option (QueryResult ν) × CacheCoordinator ν :=
  match (c.sessions.lookup sessionId).bind fun sb => (sb.recent capability 3).head? with
  | none => (none, c)
  | some last =>
      let l2 := c.l2.get last.cacheKey now.wall
      let c := { c with l2 := l2.2 }
      match l2.1 with
      | none => (none, c)
      | some e =>
          if e.status ≠ .INVALIDATED then (some ⟨e, .L2, e.status = .STALE⟩, c) else (none, c)

variable [Double ν]

/-- The part that asks for the entry under the composed key, and promotes it. -/
def queryL2 (key : Str) (now : Clock) (c : CacheCoordinator ν) :
    Option (QueryResult ν) × CacheCoordinator ν :=
  let l2 := c.l2.get key now.wall
  let c := { c with l2 := l2.2 }
  match l2.1 with
  | none => (none, c)
  | some e =>
      if e.status = .INVALIDATED then (none, c)
      else
        (some ⟨e, .L2, e.status = .STALE ∨ Double.lt e.confidence kConfidenceFresh⟩,
          { c with l1 := c.l1.set key e })

/-- `none` where the result reports no hit. -/
def query (agentId capability inputHash sessionId : Str) (now : Clock) (c : CacheCoordinator ν) :
    Option (QueryResult ν) × CacheCoordinator ν :=
  let key := cacheKey agentId capability inputHash
  let r := queryL1 key now c
  if r.1.isSome then r
  else
    let r := querySession capability sessionId now r.2
    if r.1.isSome then r else queryL2 key now r.2

end Query

/-! ## Writes and sessions -/

section Operations

variable [Double ν] (platform : Platform ν)

/-- The entry with its creation time. -/
def stamped (now : Clock) (entry : CacheEntry ν) : CacheEntry ν :=
  if entry.createdAtMs = 0 then { entry with createdAtMs := now.wall } else entry

/-- What the persistent cache stores of an entry: long output goes to the archive. -/
def l2Entry (now : Clock) (l3 : L3ArchiveStore) (e : CacheEntry ν) : CacheEntry ν :=
  if 2048 < e.output.length then
    { e with
      output := []
      fullRef := l3.refOf platform.toHost e.key now.wall }
  else e

/-- Write an entry to the layers that its size is for. -/
def write (entry : CacheEntry ν) (now : Clock) (c : CacheCoordinator ν) :
    Outcome (CacheCoordinator ν) :=
  let e := stamped now entry
  let c := if e.output.length < 4096 then { c with l1 := c.l1.set e.key e } else c
  let l2Entry := l2Entry platform now c.l3 e
  let c :=
    if 2048 < e.output.length then
      { c with l3 := c.l3.put platform.toHost e.key e.output now.wall }
    else c
  (c.l2.set platform.json e.key l2Entry).map fun l2 => { c with l2 }

/-- `session_buffer(session_id).append(turn)`. -/
def appendTurn (sessionId : Str) (turn : SessionTurn ν) (c : CacheCoordinator ν) :
    CacheCoordinator ν :=
  let sb := (c.sessions.lookup sessionId).getD { sessionId }
  { c with sessions := c.sessions.insert sessionId (sb.append turn) }

/-- Drop the buffer of a session. -/
def closeSession (sessionId : Str) (c : CacheCoordinator ν) : CacheCoordinator ν :=
  { c with sessions := c.sessions.erase sessionId }

/-- Archive the turns of a session, and drop its buffer. -/
def archiveSession (sessionId : Str) (now : Clock) (c : CacheCoordinator ν) :
    Outcome (CacheCoordinator ν) :=
  match c.sessions.lookup sessionId with
  | none => .ok c
  | some sb =>
      if sb.turns = [] then .ok (closeSession sessionId c)
      else
        match platform.json.dump sb.toJson with
        | none => .throw c
        | some text =>
            let key := str "session:" ++ sessionId
            .ok (closeSession sessionId
              { c with l3 := c.l3.put platform.toHost key text now.wall })

/-- Invalidate a key in the local and in the persistent cache. -/
def invalidate (key reason : Str) (cascading : Bool) (c : CacheCoordinator ν) :
    Outcome (CacheCoordinator ν) :=
  let c := { c with l1 := c.l1.invalidate key }
  (c.l2.hardInvalidate platform.json key reason cascading).map fun l2 => { c with l2 }

/-- An operation of the coordinator.  The last two are the halves of a round of
`background_maintenance`. -/
inductive Op (ν : Type) where
  | query (agentId capability inputHash sessionId : Str)
  | write (entry : CacheEntry ν)
  | invalidate (key reason : Str) (cascading : Bool)
  | appendTurn (sessionId : Str) (turn : SessionTurn ν)
  | closeSession (sessionId : Str)
  | archiveSession (sessionId : Str)
  | applyConfidenceDecay
  | purgeExpired

/-- What an operation does when the clocks show `now`. -/
def Op.apply : Op ν → Clock → CacheCoordinator ν → Outcome (CacheCoordinator ν)
  | .query agentId capability inputHash sessionId, now, c =>
      .ok (CacheCoordinator.query agentId capability inputHash sessionId now c).2
  | .write entry, now, c => CacheCoordinator.write platform entry now c
  | .invalidate key reason cascading, _, c =>
      CacheCoordinator.invalidate platform key reason cascading c
  | .appendTurn sessionId turn, _, c => .ok (CacheCoordinator.appendTurn sessionId turn c)
  | .closeSession sessionId, _, c => .ok (CacheCoordinator.closeSession sessionId c)
  | .archiveSession sessionId, now, c => CacheCoordinator.archiveSession platform sessionId now c
  | .applyConfidenceDecay, now, c =>
      (c.l2.applyConfidenceDecay platform.json now.wall).map fun l2 => { c with l2 }
  | .purgeExpired, now, c => (c.l2.purgeExpired platform.json now.wall).map fun l2 => { c with l2 }

/-- A new process, on what it finds of the two files of the persistent cache and in the archive. -/
def init (data idx : Option Str) (l3 : L3ArchiveStore) : CacheCoordinator ν where
  l2 := L2PersistentCache.restart platform.json { dataFile := data, revidxFile := idx }
  l3

/-- A sequence of operations, each with what the clocks show. -/
def run (c : CacheCoordinator ν) (ops : List (Op ν × Clock)) : CacheCoordinator ν :=
  Outcome.run (fun op c => op.1.apply platform op.2 c) c ops

end Operations

/-! ## What a query answers -/

/-- The live entry under the key of the session's newest turn of a capability. -/
def sessionEntry (capability sessionId : Str) (now : Clock) (c : CacheCoordinator ν) :
    Option (CacheEntry ν) :=
  ((c.sessions.lookup sessionId).bind fun sb => sb.newest capability).bind fun turn =>
    c.l2.live turn.cacheKey now.wall

theorem querySession_of_none {capability sessionId : Str} {now : Clock} {c : CacheCoordinator ν}
    (h : c.sessionEntry capability sessionId now = none) :
    querySession capability sessionId now c = (none, c) := by
  simp only [sessionEntry, ← SessionBuffer.head?_recent capability 3] at h
  unfold querySession
  rcases hlast : (c.sessions.lookup sessionId).bind fun sb => (sb.recent capability 3).head? with
    _ | last
  · rfl
  · rw [hlast, Option.bind_some] at h
    simp only [L2PersistentCache.get_of_live_none h]

theorem querySession_of_some {capability sessionId : Str} {now : Clock} {c : CacheCoordinator ν}
    {e : CacheEntry ν} (h : c.sessionEntry capability sessionId now = some e) :
    ∃ key, c.l2.live key now.wall = some e ∧
      querySession capability sessionId now c =
        (some ⟨e.touch, .L2, e.status = .STALE⟩,
          { c with l2 := (c.l2.get key now.wall).2 }) := by
  simp only [sessionEntry, ← SessionBuffer.head?_recent capability 3] at h
  obtain ⟨last, hlast, hlive⟩ := Option.bind_eq_some_iff.1 h
  refine ⟨last.cacheKey, hlive, ?_⟩
  have hst : e.touch.status ≠ .INVALIDATED := (L2PersistentCache.live_eq_some.1 hlive).2.2
  unfold querySession
  simp only [hlast, L2PersistentCache.get_fst, hlive, Option.map_some]
  rw [if_pos hst]
  rfl

variable [Double ν]

theorem queryL2_of_none {key : Str} {now : Clock} {c : CacheCoordinator ν}
    (h : c.l2.live key now.wall = none) : queryL2 key now c = (none, c) := by
  simp only [queryL2, L2PersistentCache.get_of_live_none h]

/-- Whether an answer from the persistent cache under the composed key counts as stale. -/
def staleEntry (e : CacheEntry ν) : Bool :=
  e.status = .STALE ∨ Double.lt e.confidence kConfidenceFresh

theorem queryL2_of_some {key : Str} {now : Clock} {c : CacheCoordinator ν} {e : CacheEntry ν}
    (h : c.l2.live key now.wall = some e) :
    queryL2 key now c =
      (some ⟨e.touch, .L2, staleEntry e⟩,
        { c with
          l1 := c.l1.set key e.touch
          l2 := (c.l2.get key now.wall).2 }) := by
  have hst : ¬ e.touch.status = .INVALIDATED := (L2PersistentCache.live_eq_some.1 h).2.2
  simp only [queryL2, L2PersistentCache.get_fst, h, Option.map_some]
  rw [if_neg hst]
  rfl

/-- The ways a query goes. -/
inductive QueryCases (capability sessionId key : Str) (now : Clock) (c : CacheCoordinator ν) :
    Option (QueryResult ν) × CacheCoordinator ν → Prop
  | l1 (e : CacheEntry ν) (h : c.l1.live key now.steady = some e) :
      QueryCases capability sessionId key now c
        (some ⟨e.touch, .L1, false⟩, { c with l1 := (c.l1.get key now.steady).2 })
  | session (e : CacheEntry ν) (k : Str) (h : c.l1.live key now.steady = none)
      (hs : c.sessionEntry capability sessionId now = some e)
      (hl : c.l2.live k now.wall = some e) :
      QueryCases capability sessionId key now c
        (some ⟨e.touch, .L2, e.status = .STALE⟩,
          { c with
            l1 := (c.l1.get key now.steady).2
            l2 := (c.l2.get k now.wall).2 })
  | l2 (e : CacheEntry ν) (h : c.l1.live key now.steady = none)
      (hs : c.sessionEntry capability sessionId now = none)
      (hl : c.l2.live key now.wall = some e) :
      QueryCases capability sessionId key now c
        (some ⟨e.touch, .L2, staleEntry e⟩,
          { c with
            l1 := (c.l1.get key now.steady).2.set key e.touch
            l2 := (c.l2.get key now.wall).2 })
  | miss (h : c.l1.live key now.steady = none)
      (hs : c.sessionEntry capability sessionId now = none)
      (hl : c.l2.live key now.wall = none) :
      QueryCases capability sessionId key now c
        (none, { c with l1 := (c.l1.get key now.steady).2 })

theorem query_cases (agentId capability inputHash sessionId : Str) (now : Clock)
    (c : CacheCoordinator ν) :
    QueryCases capability sessionId (cacheKey agentId capability inputHash) now c
      (query agentId capability inputHash sessionId now c) := by
  unfold query queryL1
  generalize cacheKey agentId capability inputHash = key
  simp only [L1Store.get_fst]
  cases h : c.l1.live key now.steady with
  | none =>
    simp only [Option.map_none, Option.isSome_none, Bool.false_eq_true, if_false]
    generalize hc : ({ c with l1 := (c.l1.get key now.steady).2 } : CacheCoordinator ν) = c₁
    have hentry : c₁.sessionEntry capability sessionId now =
        c.sessionEntry capability sessionId now := by
      rw [← hc]
      rfl
    cases hs : c.sessionEntry capability sessionId now with
    | none =>
      rw [querySession_of_none (hentry.trans hs)]
      have hlive : c₁.l2.live key now.wall = c.l2.live key now.wall := by rw [← hc]
      cases hl : c.l2.live key now.wall with
      | none =>
        simp only [Option.isSome_none, Bool.false_eq_true, if_false, queryL2_of_none (hlive.trans hl)]
        rw [← hc]
        exact .miss h hs hl
      | some e =>
        simp only [Option.isSome_none, Bool.false_eq_true, if_false, queryL2_of_some (hlive.trans hl)]
        rw [← hc]
        exact .l2 e h hs hl
    | some e =>
      obtain ⟨k, hl, hq⟩ := querySession_of_some (hentry.trans hs)
      rw [hq]
      simp only [Option.isSome_some, if_true]
      rw [← hc] at hl ⊢
      exact .session e k h hs hl
  | some e =>
    simp only [Option.map_some, Option.isSome_some, if_true]
    exact .l1 e h

/-- Which entry a query answers with. -/
theorem query_fst (agentId capability inputHash sessionId : Str) (now : Clock)
    (c : CacheCoordinator ν) :
    (query agentId capability inputHash sessionId now c).1 =
      match c.l1.live (cacheKey agentId capability inputHash) now.steady with
      | some e => some ⟨e.touch, .L1, false⟩
      | none =>
          match c.sessionEntry capability sessionId now with
          | some e => some ⟨e.touch, .L2, e.status = .STALE⟩
          | none => (c.l2.live (cacheKey agentId capability inputHash) now.wall).map fun e =>
              ⟨e.touch, .L2, staleEntry e⟩ := by
  have h := query_cases agentId capability inputHash sessionId now c
  generalize query agentId capability inputHash sessionId now c = r at h
  cases h with
  | l1 e h => rw [h]
  | session e k h hs hl => rw [h, hs]
  | l2 e h hs hl =>
    rw [h, hs, hl]
    rfl
  | miss h hs hl =>
    rw [h, hs, hl]
    rfl

end CacheCoordinator

end LlmGateway
