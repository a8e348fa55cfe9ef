import LlmGateway.Json
import LlmGateway.Lib.LineBuffer
import LlmGateway.Lib.Outcome

/-!
# The stream parser

`SSEParser` of the remote upstream, which reads the server-sent events of a completion as the network
delivers them: it buffers the bytes, and handles a line when its line feed has come.  A line either
calls a callback or changes the tool call that is being put together.

`flushLoop_eq`: the loop over the buffer handles its lines in order and stops at the rest, so the parser
is a buffered reader (`feed_eq`), and how the stream is cut into chunks makes no difference
(`feed_chunks`).
-/

namespace LlmGateway

variable {ν : Type}

/-- A call of a callback. -/
inductive SSECall where
  | token (text : Str)
  | toolCall (callId name arguments : Str)
  | done
  deriving DecidableEq

/-- Which callbacks are set; `done_cb_` always is. -/
structure SSECallbacks where
  tokCb : Bool := true
  toolCb : Bool := true

/-- What a line works on. -/
structure SSELineState where
  tcId : Str := []
  tcName : Str := []
  tcArgs : Str := []
  /-- The calls of the callbacks so far. -/
  calls : List SSECall := []
  deriving DecidableEq

/-- The parser, with what has come after the last line. -/
structure SSEParser extends SSELineState where
  buf : Str := []
  deriving DecidableEq

/-! ## Lines -/

namespace SSELineState

/-- Call a callback. -/
def call (c : SSECall) (s : SSELineState) : SSELineState := { s with calls := s.calls ++ [c] }

/-- The fragment of a tool call in a delta. -/
def addToolCall (delta : Json ν) (s : SSELineState) : SSELineState :=
  match delta.member "tool_calls" with
  | some (.array (tc :: _)) =>
      let s :=
        match (tc.member "id").bind Json.getString with
        | some tcId => { s with tcId }
        | none => s
      match tc.member "function" with
      | none => s
      | some fn =>
          let s :=
            match (fn.member "name").bind Json.getString with
            | some tcName => { s with tcName }
            | none => s
          match (fn.member "arguments").bind Json.getString with
          | some args => { s with tcArgs := s.tcArgs ++ args }
          | none => s
  | _ => s

/-- The first choice of an event, with its delta. -/
def handleChoice (cb : SSECallbacks) (c0 delta : Json ν) (s : SSELineState) : SSELineState :=
  let s := s.addToolCall delta
  if (c0.member "finish_reason").bind Json.getString = some (str "tool_calls") then
    let s := if cb.toolCb ∧ s.tcId ≠ [] then s.call (.toolCall s.tcId s.tcName s.tcArgs) else s
    { s with tcId := [], tcName := [], tcArgs := [] }.call .done
  else
    match (delta.member "content").bind Json.getString with
    | some tok => if tok ≠ [] ∧ cb.tokCb then s.call (.token tok) else s
    | none => s

variable (lib : JsonLib ν) (cb : SSECallbacks)

/-- The `try` block.  A `const` object is asked for its member `delta`, which is not defined if it has
none. -/
def handlePayload (payload : Str) (s : SSELineState) : Option (Outcome SSELineState) :=
  match lib.parse payload with
  | none => some (.throw s)
  | some obj =>
      match obj.member "choices" with
      | none => some (.ok s)
      | some choices =>
          if choices.isEmpty then some (.ok s)
          else
            match choices.first with
            | some (.object m) =>
                (m.lookup (str "delta")).map fun delta =>
                  .ok (s.handleChoice cb (.object m) delta)
            | _ => some (.throw s)

/-- Read a line; nothing if that is not defined. -/
def processLine (s : SSELineState) (line : Str) : Option SSELineState :=
  if line = [] ∨ line.head? = some 58 then some s
  else if ¬ str "data: " <+: line then some s
  else
    let payload := line.drop 6
    if payload = str "[DONE]" then some (s.call .done)
    else
      (handlePayload lib cb payload s).map fun o =>
        if o.threw ∧ payload ≠ [] ∧ cb.tokCb then o.state.call (.token payload) else o.state

/-- What the first element of the tool calls of a delta changes. -/
theorem addToolCall_of_cons {delta tc : Json ν} {tcs : List (Json ν)}
    (h : delta.member "tool_calls" = some (.array (tc :: tcs))) (s : SSELineState) :
    s.addToolCall delta =
      { s with
        tcId := ((tc.member "id").bind Json.getString).getD s.tcId
        tcName := (((tc.member "function").bind (Json.member · "name")).bind
          Json.getString).getD s.tcName
        tcArgs := s.tcArgs ++ (((tc.member "function").bind (Json.member · "arguments")).bind
          Json.getString).getD [] } := by
  unfold addToolCall
  simp only [h]
  cases (tc.member "id").bind Json.getString <;> cases tc.member "function" with
  | none => simp
  | some fn =>
    simp only [Option.bind_some]
    cases (fn.member "name").bind Json.getString <;>
      cases (fn.member "arguments").bind Json.getString <;> simp

theorem addToolCall_of_forall_ne {delta : Json ν}
    (h : ∀ tc tcs, delta.member "tool_calls" ≠ some (.array (tc :: tcs))) (s : SSELineState) :
    s.addToolCall delta = s := by
  unfold addToolCall
  split
  · next tc tcs heq => exact absurd heq (h tc tcs)
  · rfl

/-- A fragment of a tool call calls nothing. -/
theorem addToolCall_calls (delta : Json ν) (s : SSELineState) :
    (s.addToolCall delta).calls = s.calls := by
  by_cases h : ∃ tc tcs, delta.member "tool_calls" = some (.array (tc :: tcs))
  · obtain ⟨tc, tcs, h⟩ := h
    rw [addToolCall_of_cons h]
  · rw [addToolCall_of_forall_ne fun tc tcs heq => h ⟨tc, tcs, heq⟩]

end SSELineState

/-! ## Chunks -/

namespace SSEParser

/-- Drop one carriage return at the end. -/
def stripCr (line : Str) : Str := if line.getLast? = some 13 then line.dropLast else line

/-- `buf.find('\n', start)`. -/
def findNewline (buf : Str) (start : ℕ) : Option ℕ :=
  ((buf.drop start).findIdx? fun c => c = newline).map (start + ·)

theorem findNewline_eq_some {buf : Str} {start nl : ℕ} (h : findNewline buf start = some nl) :
    start ≤ nl ∧ nl < buf.length ∧ newline ∉ (buf.drop start).take (nl - start) ∧
      buf.drop start = (buf.drop start).take (nl - start) ++ newline :: buf.drop (nl + 1) := by
  obtain ⟨i, hi, rfl⟩ := Option.map_eq_some_iff.1 h
  obtain ⟨hlt, hc, hbefore⟩ := List.findIdx?_eq_some_iff_getElem.1 hi
  have hc : (buf.drop start)[i] = newline := of_decide_eq_true hc
  have hlength : i < buf.length - start := by rwa [List.length_drop] at hlt
  rw [Nat.add_sub_cancel_left]
  refine ⟨by omega, by omega, ?_, ?_⟩
  · intro hmem
    obtain ⟨j, hj, hjc⟩ := List.mem_take_iff_getElem.1 hmem
    exact hbefore j (by omega) (decide_eq_true hjc)
  · have hdrop : (buf.drop start).drop (i + 1) = buf.drop (start + i + 1) := by
      rw [List.drop_drop, Nat.add_assoc]
    rw [← hdrop, ← hc, ← List.drop_eq_getElem_cons hlt, List.take_append_drop]

theorem findNewline_eq_none {buf : Str} {start : ℕ} (h : findNewline buf start = none) :
    newline ∉ buf.drop start := by
  rw [findNewline, Option.map_eq_none_iff, List.findIdx?_eq_none_iff] at h
  intro hmem
  exact absurd (h newline hmem) (by decide)

variable (lib : JsonLib ν) (cb : SSECallbacks)

/-- The loop of `flush_lines`, and where it ends. -/
def flushLoop (buf : Str) (start : ℕ) (s : SSELineState) : Option (SSELineState × ℕ) :=
  match _h : findNewline buf start with
  | none => some (s, start)
  | some nl =>
      (s.processLine lib cb (stripCr ((buf.drop start).take (nl - start)))).bind fun s =>
        flushLoop buf (nl + 1) s
termination_by buf.length - start
decreasing_by
  have := findNewline_eq_some _h
  omega

/-- Read the lines that are complete. -/
def flushLines (p : SSEParser) : Option SSEParser :=
  (flushLoop lib cb p.buf 0 p.toSSELineState).map fun r => { r.1 with buf := p.buf.drop r.2 }

/-- Read what has come. -/
def feed (p : SSEParser) (data : Str) : Option SSEParser :=
  flushLines lib cb { p with buf := p.buf ++ data }

/-! ## Chunking -/

/-- What the parser does with a line, before its carriage return is dropped. -/
def handleLine (s : SSELineState) (line : Str) : Option SSELineState :=
  s.processLine lib cb (stripCr line)

/-- The loop handles the lines of the buffer from `start` on, and ends where the rest begins. -/
theorem flushLoop_eq (buf : Str) {start : ℕ} (hstart : start ≤ buf.length) (s : SSELineState) :
    (flushLoop lib cb buf start s).map (fun r => (buf.drop r.2, r.1)) =
      ((LineBuffer.cut newline (buf.drop start)).1.foldlM (handleLine lib cb) s).map
        fun s => ((LineBuffer.cut newline (buf.drop start)).2, s) := by
  induction hn : buf.length - start using Nat.strongRecOn generalizing start s with
  | ind n ih =>
      rw [flushLoop]
      split
      · next h =>
        rw [LineBuffer.cut_of_notMem (findNewline_eq_none h)]
        rfl
      · next nl h =>
        obtain ⟨hle, hlt, hline, hdrop⟩ := findNewline_eq_some h
        have hcut : LineBuffer.cut newline (buf.drop start) =
            ((buf.drop start).take (nl - start) :: (LineBuffer.cut newline (buf.drop (nl + 1))).1,
              (LineBuffer.cut newline (buf.drop (nl + 1))).2) := by
          nth_rewrite 1 [hdrop]
          exact LineBuffer.cut_append_cons hline _
        rw [hcut, List.foldlM_cons, handleLine]
        cases s.processLine lib cb (stripCr ((buf.drop start).take (nl - start))) with
        | none => rfl
        | some s' => exact ih (buf.length - (nl + 1)) (by omega) (by omega) s' rfl

/-- The parser is a buffered reader. -/
theorem feed_eq (p : SSEParser) (data : Str) :
    feed lib cb p data =
      (LineBuffer.feed newline (handleLine lib cb) (p.buf, p.toSSELineState) data).map
        fun b => { b.2 with buf := b.1 } := by
  have hloop := flushLoop_eq lib cb (p.buf ++ data) (Nat.zero_le _) p.toSSELineState
  rw [List.drop_zero] at hloop
  rw [LineBuffer.feed, ← hloop, Option.map_map]
  rfl

theorem foldlM_feed_eq (chunks : List Str) (b : Str × SSELineState) :
    chunks.foldlM (feed lib cb) { b.2 with buf := b.1 } =
      (chunks.foldlM (LineBuffer.feed newline (handleLine lib cb)) b).map
        fun b => { b.2 with buf := b.1 } := by
  induction chunks generalizing b with
  | nil => rfl
  | cons chunk chunks ih =>
      rw [List.foldlM_cons, List.foldlM_cons, feed_eq]
      cases LineBuffer.feed newline (handleLine lib cb) b chunk with
      | none => rfl
      | some b' => exact ih b'

/-- How a stream is cut into chunks makes no difference, and what is buffered after each of them is the
part after the last line feed. -/
theorem feed_chunks (chunks : List Str) :
    chunks.foldlM (feed lib cb) {} = feed lib cb {} chunks.flatten ∧
      ∀ p, chunks.foldlM (feed lib cb) {} = some p → ∃ pre, chunks.flatten = pre ++ p.buf ∧
        newline ∉ p.buf ∧ (pre = [] ∨ pre.getLast? = some newline) := by
  have hnil : newline ∉ (([], {}) : Str × SSELineState).1 := List.not_mem_nil
  have hchunks : chunks.foldlM (feed lib cb) {} = feed lib cb {} chunks.flatten := by
    have h := foldlM_feed_eq lib cb chunks ([], {})
    rw [LineBuffer.feed_flatten newline (handleLine lib cb) hnil] at h
    rw [feed_eq]
    exact h
  refine ⟨hchunks, fun p hp => ?_⟩
  rw [hchunks, feed_eq] at hp
  obtain ⟨b, hb, rfl⟩ := Option.map_eq_some_iff.1 hp
  obtain ⟨s, -, rfl⟩ := Option.map_eq_some_iff.1 hb
  exact LineBuffer.cut_rest newline chunks.flatten

end SSEParser

end LlmGateway
