import LlmGateway.RemoteUpstream

/-!
# How a request ends

A request is told that it has ended by the parser, at each line that says so, and when its transfer is
reaped after a failure.  `count_done_feed`: the parser calls `on_done` once for each line of the response
that ends a turn, whatever the other lines are and however the response arrives.  So a request hears of
its end exactly once if one line ends a turn and the transfer succeeds, or no line does and it fails
(`endings_eq_one_iff`).
-/

namespace LlmGateway

variable {ν : Type}

/-! ## Lines that end a turn -/

/-- A choice whose turn has ended with tool calls. -/
def finishes (c0 : Json ν) : Bool :=
  decide ((c0.member "finish_reason").bind Json.getString = some (str "tool_calls"))

/-- The line says that the turn has ended. -/
def endsTurn (lib : JsonLib ν) (line : Str) : Bool :=
  decide (str "data: " <+: line) &&
    (decide (line.drop 6 = str "[DONE]") ||
      (lib.parse (line.drop 6)).any fun obj => ((obj.member "choices").bind Json.first).any finishes)

namespace SSELineState

/-- Calls were made from `s` to `s'`, `n` of them of `on_done`. -/
def Adds (n : ℕ) (s s' : SSELineState) : Prop :=
  ∃ new, s'.calls = s.calls ++ new ∧ new.count .done = n

theorem Adds.of_eq {s s' : SSELineState} (h : s'.calls = s.calls) : Adds 0 s s' :=
  ⟨[], by rw [h, List.append_nil], rfl⟩

theorem Adds.trans {m n : ℕ} {s s' s'' : SSELineState} (h : Adds m s s') (h' : Adds n s' s'') :
    Adds (m + n) s s'' := by
  obtain ⟨new, hs', rfl⟩ := h
  obtain ⟨new', hs'', rfl⟩ := h'
  exact ⟨new ++ new', by rw [hs'', hs', List.append_assoc], List.count_append⟩

theorem Adds.call {n : ℕ} {s s' : SSELineState} (h : Adds n s s') (c : SSECall) :
    Adds (n + [c].count .done) s (s'.call c) :=
  h.trans ⟨[c], rfl, rfl⟩

theorem handleChoice_adds (cb : SSECallbacks) (c0 delta : Json ν) (s : SSELineState) :
    Adds (if finishes c0 then 1 else 0) s (s.handleChoice cb c0 delta) := by
  have htool : Adds 0 s (s.addToolCall delta) := Adds.of_eq (addToolCall_calls delta s)
  unfold handleChoice finishes
  dsimp only
  by_cases h : (c0.member "finish_reason").bind Json.getString = some (str "tool_calls")
  · rw [if_pos h, if_pos (decide_eq_true h)]
    split_ifs
    · exact Adds.trans (htool.call (.toolCall _ _ _)) ⟨[.done], rfl, rfl⟩
    · exact Adds.trans htool ⟨[.done], rfl, rfl⟩
  · rw [if_neg h, if_neg (by rwa [decide_eq_true_iff])]
    split
    · split_ifs
      · exact htool.call _
      · exact htool
    · exact htool

variable (lib : JsonLib ν) (cb : SSECallbacks)

theorem handlePayload_adds {payload : Str} {s : SSELineState} {o : Outcome SSELineState}
    (h : handlePayload lib cb payload s = some o) :
    Adds (if (lib.parse payload).any fun obj =>
      ((obj.member "choices").bind Json.first).any finishes then 1 else 0) s o.state := by
  have hnone (b : Bool) (hb : b = false) : Adds (if b then 1 else 0) s s := by
    rw [hb]
    exact Adds.of_eq rfl
  unfold handlePayload at h
  cases hobj : lib.parse payload with
  | none =>
    rw [hobj, Option.some.injEq] at h
    rw [← h]
    exact hnone _ rfl
  | some obj =>
    simp only [hobj] at h
    rw [Option.any_some]
    cases hchoices : obj.member "choices" with
    | none =>
      simp only [hchoices, Option.some.injEq] at h
      rw [← h]
      exact hnone _ rfl
    | some choices =>
      simp only [hchoices] at h
      rw [Option.bind_some]
      split_ifs at h with hempty
      · rw [Option.some.injEq] at h
        rw [← h]
        refine hnone _ ?_
        cases choices with
        | array xs =>
          cases xs with
          | nil => rfl
          | cons x xs => cases hempty
        | _ => rfl
      · split at h
        · next m hfirst =>
          obtain ⟨delta, -, ho⟩ := Option.map_eq_some_iff.1 h
          rw [← ho, hfirst, Option.any_some]
          exact handleChoice_adds cb (.object m) delta s
        · next hfirst =>
          rw [Option.some.injEq] at h
          rw [← h]
          refine hnone _ ?_
          cases hc0 : choices.first with
          | none => rfl
          | some c0 =>
            cases c0 with
            | object m => exact absurd hc0 (hfirst m)
            | _ => rfl

/-- A line calls `on_done` once if it ends a turn, and otherwise not. -/
theorem processLine_adds {s s' : SSELineState} {line : Str}
    (h : s.processLine lib cb line = some s') :
    Adds (if endsTurn lib line then 1 else 0) s s' := by
  unfold processLine at h
  unfold endsTurn
  by_cases hprefix : str "data: " <+: line
  · have hcomment : ¬ (line = [] ∨ line.head? = some 58) := by
      obtain ⟨payload, rfl⟩ := hprefix
      rw [not_or]
      exact ⟨by simp [show str "data: " = [100, 97, 116, 97, 58, 32] from by decide],
        by simp [show str "data: " = [100, 97, 116, 97, 58, 32] from by decide]⟩
    rw [if_neg hcomment, if_neg (not_not_intro hprefix)] at h
    rw [decide_eq_true hprefix, Bool.true_and]
    dsimp only at h
    split_ifs at h with hdone
    · rw [Option.some.injEq] at h
      rw [← h, decide_eq_true hdone, Bool.true_or]
      exact ⟨[.done], rfl, rfl⟩
    · obtain ⟨o, ho, rfl⟩ := Option.map_eq_some_iff.1 h
      have hadds := handlePayload_adds lib cb ho
      rw [decide_eq_false hdone, Bool.false_or]
      split_ifs at hadds ⊢ with hends hthrew hthrew
      · exact hadds.call (.token _)
      · exact hadds
      · exact hadds.call (.token _)
      · exact hadds
  · have hs : s' = s := by
      split_ifs at h
      · exact (Option.some.inj h).symm
      · exact (Option.some.inj h).symm
    rw [decide_eq_false hprefix, Bool.false_and, hs]
    exact Adds.of_eq rfl

end SSELineState

namespace SSEParser

open SSELineState (Adds)

variable (lib : JsonLib ν) (cb : SSECallbacks)

/-- The complete lines of what has arrived. -/
def lines (received : Str) : List Str := (LineBuffer.cut newline received).1.map stripCr

theorem foldlM_adds {ls : List Str} {s s' : SSELineState}
    (h : ls.foldlM (handleLine lib cb) s = some s') :
    Adds ((ls.map stripCr).countP (endsTurn lib)) s s' := by
  induction ls generalizing s with
  | nil =>
      rw [List.foldlM_nil] at h
      rw [← Option.some.inj h]
      exact Adds.of_eq rfl
  | cons line ls ih =>
      rw [List.foldlM_cons] at h
      obtain ⟨s₁, hline, hrest⟩ := Option.bind_eq_some_iff.1 h
      have hadds := (SSELineState.processLine_adds lib cb hline).trans (ih hrest)
      rwa [List.map_cons, List.countP_cons, Nat.add_comm]

/-- A parser that is fed makes the calls of the lines that are complete. -/
theorem feed_adds {p p' : SSEParser} {data : Str} (h : feed lib cb p data = some p') :
    Adds ((lines (p.buf ++ data)).countP (endsTurn lib)) p.toSSELineState p'.toSSELineState := by
  rw [feed_eq] at h
  obtain ⟨b, hb, rfl⟩ := Option.map_eq_some_iff.1 h
  obtain ⟨s, hs, rfl⟩ := Option.map_eq_some_iff.1 hb
  exact foldlM_adds lib cb hs

theorem feed_empty : feed lib cb {} [] = some {} := (feed_chunks lib cb []).1.symm

/-- What is fed after what was received before. -/
theorem feed_received {received data : Str} {p : SSEParser} (h : feed lib cb {} received = some p) :
    feed lib cb {} (received ++ data) = feed lib cb p data := by
  have hchunks := (feed_chunks lib cb [received, data]).1
  rw [List.foldlM_cons, h] at hchunks
  have hone : feed lib cb p data = [data].foldlM (feed lib cb) p := by
    rw [List.foldlM_cons]
    cases feed lib cb p data <;> rfl
  rw [hone]
  simpa using hchunks.symm

/-- A parser that has received a text has called `on_done` once for each of its lines that ends a
turn. -/
theorem count_done_feed {received : Str} {p : SSEParser} (h : feed lib cb {} received = some p) :
    p.calls.count .done = (lines received).countP (endsTurn lib) := by
  obtain ⟨new, hcalls, hnew⟩ := feed_adds lib cb h
  rw [hcalls]
  exact hnew

end SSEParser

/-! ## Endings -/

namespace ReapedTransfer

/-- The number of calls of `on_done` and `on_error`. -/
def endings (t : ReapedTransfer ν) : ℕ := t.ctx.parser.calls.count .done + t.error.toList.length

/-- The transfer succeeds, and one line of the response ends a turn; or it fails, and no line does. -/
def EndsOnce (lib : JsonLib ν) (t : ReapedTransfer ν) : Prop :=
  (SSEParser.lines t.ctx.received).countP (endsTurn lib) =
    if t.result = curleOk ∧ t.httpCode = 200 then 1 else 0

end ReapedTransfer

namespace RemoteUpstream

variable (platform : UpstreamPlatform ν)

/-- The parser of the transfer has been fed what has arrived. -/
def Fed (lib : JsonLib ν) (ctx : TransferCtx ν) : Prop :=
  SSEParser.feed lib (callbacks ctx.task.req) {} ctx.received = some ctx.parser

/-- What holds of the transfers in every state. -/
structure Transfers (u : RemoteUpstream ν) : Prop where
  active (easy : ℕ) (ctx : TransferCtx ν) :
    u.active.lookup easy = some ctx → Fed platform.json ctx
  reaped : ∀ t ∈ u.reaped,
    Fed platform.json t.ctx ∧ t.error = transferError platform t.result t.httpCode

variable {platform} in
theorem Transfers.effect {u u' : RemoteUpstream ν} {event : Event ν}
    (he : Effect platform u event u') (h : Transfers platform u) : Transfers platform u' := by
  cases he with
  | stays => exact h
  | submitted => exact ⟨h.active, h.reaped⟩
  | drained => exact ⟨h.active, h.reaped⟩
  | failed => exact ⟨h.active, h.reaped⟩
  | terminated => exact ⟨h.active, h.reaped⟩
  | undefined => exact ⟨h.active, h.reaped⟩
  | started task _ _ _ text =>
    refine ⟨AList.forall_lookup_insert h.active ?_, h.reaped⟩
    exact SSEParser.feed_empty platform.json (callbacks task.req)
  | received easy data ctx parser hctx hfeed =>
    refine ⟨AList.forall_lookup_insert h.active ?_, h.reaped⟩
    exact (SSEParser.feed_received _ _ (h.active easy ctx hctx)).trans hfeed
  | ended => exact ⟨AList.forall_lookup_modify h.active fun _ hfed => hfed, h.reaped⟩
  | reaped easy ctx result httpCode hctx hended =>
    unfold reapFinished
    simp only [hctx, hended]
    refine ⟨AList.forall_lookup_erase h.active easy, fun t ht => ?_⟩
    rcases List.mem_append.1 ht with ht | ht
    · exact h.reaped t ht
    · obtain rfl := List.mem_singleton.1 ht
      exact ⟨h.active easy ctx hctx, rfl⟩

theorem transfers_run (events : List (Event ν)) : Transfers platform (run platform events) :=
  run_invariant platform (Transfers platform) ⟨nofun, nofun⟩ (fun _ _ _ he h => h.effect he) events

theorem transferError_isSome_iff (result : CurlCode) (httpCode : ℤ) :
    (transferError platform result httpCode).isSome ↔ ¬ (result = curleOk ∧ httpCode = 200) := by
  unfold transferError
  split_ifs with hresult hhttp <;> simp_all

/-- In every run, a request whose transfer was reaped has heard of its end exactly once if and only if
its response ends the turn once and the transfer succeeds, or never and it fails. -/
theorem endings_eq_one_iff (events : List (Event ν)) :
    ∀ t ∈ (run platform events).reaped, t.endings = 1 ↔ t.EndsOnce platform.json := by
  intro t ht
  obtain ⟨hfed, herror⟩ := (transfers_run platform events).reaped t ht
  have hdone := SSEParser.count_done_feed _ _ hfed
  rw [ReapedTransfer.endings, ReapedTransfer.EndsOnce, hdone]
  by_cases hok : t.result = curleOk ∧ t.httpCode = 200
  · have hnone : t.error = none := by
      rw [← Option.not_isSome_iff_eq_none, herror, transferError_isSome_iff]
      exact not_not_intro hok
    rw [if_pos hok, hnone]
    rfl
  · have hsome : t.error.isSome := by
      rw [herror, transferError_isSome_iff]
      exact hok
    obtain ⟨err, herr⟩ := Option.isSome_iff_exists.1 hsome
    rw [if_neg hok, herr]
    exact Nat.add_eq_right

/-! ## A request and its response -/

/-- `{"choices":[{"delta":{},"finish_reason":"tool_calls"}]}`. -/
def toolCallsTurn : Str :=
  str "\x7b\"choices\":[\x7b\"delta\":\x7b\x7d,\"finish_reason\":\"tool_calls\"\x7d]\x7d"

/-- The library as it behaves on the texts of the runs. -/
def chatUpstream : UpstreamPlatform ℚ where
  json := JsonLib.on Json.showRat
    [.array [.string (str "hi")],
      .object [(str "choices", .array [.object
        [(str "delta", .object []), (str "finish_reason", .string (str "tool_calls"))]])]]
  curlEasyStrerror _ := str "error"

/-- A chat request, whose messages are `["hi"]`. -/
def hiRequest : Event ℚ :=
  .handleChat (str "m") (str "[\"hi\"]") (7 / 10) 2048 (str "http://127.0.0.1:8200") []

/-- The backend answers a request with `response` and the status 200. -/
def answered (response : Str) : RemoteUpstream ℚ :=
  run chatUpstream [hiRequest, .drainQueue, .addTransfer true, .writeCb 0 response,
    .endTransfer 0 curleOk 200, .reapFinished 0]

/-- A turn with tool calls and the end of the stream are two endings, and an empty response is none. -/
theorem request_ends_twice_or_never :
    (∃ t ∈ (answered (str "data: " ++ toolCallsTurn ++ str "\ndata: [DONE]\n")).reaped,
      t.endings = 2) ∧
    ∃ t ∈ (answered []).reaped, t.endings = 0 := by
  decide +kernel

/-- A stream that is ended once has one ending. -/
theorem request_ends_once : ∃ t ∈ (answered (str "data: [DONE]\n")).reaped, t.endings = 1 := by
  have hreaped : ∃ t ∈ (answered (str "data: [DONE]\n")).reaped, t.EndsOnce chatUpstream.json := by
    unfold ReapedTransfer.EndsOnce
    decide +kernel
  obtain ⟨t, ht, hends⟩ := hreaped
  exact ⟨t, ht, (endings_eq_one_iff chatUpstream _ t ht).2 hends⟩

end RemoteUpstream

end LlmGateway
