import LlmGateway.ProcessLine
import LlmGateway.TokenPipeline
import LlmGateway.ToolCallStream

/-!
# The stream of a request over HTTP

The callbacks of `handle_chat`: each token goes through the plugins and is sent as a chunk of a completion,
`[DONE]` or an error ends the stream.  The stream itself belongs to the framework: what is kept of it are the
calls that the callbacks make on it, and what they send before the first close (`StreamOp.sent`).  The chunks
are in the format that the parser of an upstream reads, so a gateway can be the backend of another one.

`reads_stream`: such a parser gets the tokens that were sent, in order, and the end of the stream, however
the stream is cut, if the library can print them on lines of their own and read them back (`Printable`).  It
does not get an error, which is an event without choices.
-/

namespace LlmGateway

variable {ν σ : Type}

/-! ## Events -/

/-- `make_sse_chunk`, before it is printed. -/
def makeSseChunk (token model : Str) : Json ν :=
  .object (Json.members [
    (str "object", .string (str "chat.completion.chunk")),
    (str "model", .string model),
    (str "choices", .array [.object (Json.members [
      (str "index", .int 0),
      (str "delta", .object (Json.members [(str "content", .string token)])),
      (str "finish_reason", .null)])])])

/-- What is sent when the upstream fails. -/
def errorChunk (err : Str) : Json ν := .object (Json.members [(str "error", .string err)])

/-- What a stream sends to its client. -/
inductive StreamEvent where
  | token (text : Str)
  | done
  | error (err : Str)
  deriving DecidableEq

namespace StreamEvent

/-- The value that is printed. -/
def json (model : Str) : StreamEvent → Option (Json ν)
  | token text => some (makeSseChunk text model)
  | done => none
  | error err => some (errorChunk err)

/-- The text after `data: `; nothing if the library throws. -/
def payload (lib : JsonLib ν) (model : Str) (e : StreamEvent) : Option Str :=
  match e.json model with
  | none => some (str "[DONE]")
  | some j => lib.dump j

/-- The callback that a parser calls for it. -/
def read : StreamEvent → Option SSECall
  | token text => if text = [] then none else some (.token text)
  | done => some .done
  | error _ => none

/-- After it the stream is closed. -/
def closes : StreamEvent → Bool
  | token _ => false
  | done => true
  | error _ => true

end StreamEvent

/-! ## The callbacks -/

/-- A call that a callback makes on the stream of the response. -/
inductive StreamOp where
  | send (data : Str)
  | close
  deriving DecidableEq

namespace StreamOp

/-- What is sent before the first close. -/
def sent : List StreamOp → Str
  | .send data :: ops => data ++ sent ops
  | _ => []

/-- The stream has been closed. -/
def closed (ops : List StreamOp) : Bool := ops.contains .close

@[simp]
theorem closed_append (ops ops' : List StreamOp) : closed (ops ++ ops') = (closed ops || closed ops') := by
  simp [closed]

theorem sent_append (ops ops' : List StreamOp) :
    sent (ops ++ ops') = if closed ops then sent ops else sent ops ++ sent ops' := by
  induction ops with
  | nil => rfl
  | cons op ops ih =>
    cases op with
    | send data =>
      have hclosed : closed (.send data :: ops) = closed ops := by simp [closed]
      rw [List.cons_append, sent, sent, ih, hclosed]
      split_ifs
      · rfl
      · rw [List.append_assoc]
    | close => rfl

end StreamOp

/-- What the callbacks of a request work on. -/
structure EventStream (σ : Type) where
  /-- The calls on the stream of the response, the oldest first. -/
  stream : List StreamOp := []
  lua : σ

/-- A call of a callback of a request. -/
inductive StreamCall where
  | token (tok : Str)
  | done
  | error (err : Str)
  deriving DecidableEq

namespace EventStream

variable (lib : JsonLib ν) (model : Str) (plugins : List (StreamPlugin σ))

/-- `on_token`: what the plugins leave of the token is sent. -/
def onToken (tok : Str) (s : EventStream σ) : Outcome (EventStream σ) :=
  let (p, lua) := PluginManager.runTokenPipeline plugins tok s.lua
  if p = [] then .ok { s with lua }
  else
    match lib.dump (makeSseChunk p model) with
    | none => .throw { s with lua }
    | some text => .ok { stream := s.stream ++ [.send (eventText text)], lua }

/-- `on_done`: the stream ends. -/
def onDone (s : EventStream σ) : Outcome (EventStream σ) :=
  .ok { stream := s.stream ++ [.send (eventText (str "[DONE]")), .close]
        lua := PluginManager.runDonePipeline plugins s.lua }

/-- `on_error`: the stream ends with an error. -/
def onError (err : Str) (s : EventStream σ) : Outcome (EventStream σ) :=
  match lib.dump (errorChunk err) with
  | none => .throw s
  | some text => .ok { s with stream := s.stream ++ [.send (eventText text), .close] }

/-- What a callback does. -/
def step : StreamCall → EventStream σ → Outcome (EventStream σ)
  | .token tok => onToken lib model plugins tok
  | .done => onDone plugins
  | .error err => onError lib err

/-- The calls for a request, one after the other. -/
def run (s : EventStream σ) (calls : List StreamCall) : EventStream σ :=
  Outcome.run (step lib model plugins) s calls

/-! ## What is sent -/

/-- The event that a call sends, and the Lua state after it: a token is sent if the plugins leave one and
it can be printed. -/
def emitted (call : StreamCall) (lua : σ) : Option StreamEvent × σ :=
  match call with
  | .token tok =>
    let (p, lua) := PluginManager.runTokenPipeline plugins tok lua
    (if p ≠ [] ∧ (lib.dump (makeSseChunk p model)).isSome then some (.token p) else none, lua)
  | .done => (some .done, PluginManager.runDonePipeline plugins lua)
  | .error err => (if (lib.dump (errorChunk err)).isSome then some (.error err) else none, lua)

/-- The events of a stream, up to the one that closes it. -/
def events : List StreamCall → σ → List StreamEvent
  | [], _ => []
  | call :: calls, lua =>
    match emitted lib model plugins call lua with
    | (none, lua) => events calls lua
    | (some e, lua) => e :: if e.closes then [] else events calls lua

/-- The text of an event. -/
def text (e : StreamEvent) : Str := eventText ((e.payload lib model).getD [])

theorem text_of_dump {e : StreamEvent} {j : Json ν} {t : Str} (hjson : e.json model = some j)
    (hdump : lib.dump j = some t) : text lib model e = eventText t := by
  rw [text, StreamEvent.payload, hjson]
  dsimp only
  rw [hdump, Option.getD_some]

/-- The calls that send an event. -/
def sendEvent (e : StreamEvent) : List StreamOp :=
  .send (text lib model e) :: if e.closes then [.close] else []

theorem closed_sendEvent (e : StreamEvent) : StreamOp.closed (sendEvent lib model e) = e.closes := by
  rw [sendEvent]
  cases e.closes with
  | false => rfl
  | true => rfl

theorem sent_sendEvent (e : StreamEvent) : StreamOp.sent (sendEvent lib model e) = text lib model e := by
  rw [sendEvent, StreamOp.sent]
  cases e.closes with
  | false => exact List.append_nil _
  | true => exact List.append_nil _

/-- A call sends its event. -/
theorem step_state (call : StreamCall) (s : EventStream σ) :
    (step lib model plugins call s).state =
      { stream :=
          s.stream ++ (emitted lib model plugins call s.lua).1.elim [] (sendEvent lib model)
        lua := (emitted lib model plugins call s.lua).2 } := by
  cases call with
  | token tok =>
    dsimp only [step, onToken, emitted]
    generalize PluginManager.runTokenPipeline plugins tok s.lua = r
    by_cases hempty : r.1 = []
    · rw [if_pos hempty, if_neg fun h => h.1 hempty, Option.elim_none, List.append_nil]
      rfl
    · rw [if_neg hempty]
      cases hdump : lib.dump (makeSseChunk r.1 model) with
      | none =>
        have hno : ¬(r.1 ≠ [] ∧ (none : Option Str).isSome = true) := fun h => Bool.false_ne_true h.2
        rw [if_neg hno, Option.elim_none, List.append_nil]
        rfl
      | some t =>
        rw [if_pos ⟨hempty, rfl⟩, Option.elim_some, sendEvent, text_of_dump lib model rfl hdump]
        rfl
  | done => rfl
  | error err =>
    dsimp only [step, onError, emitted]
    cases hdump : lib.dump (errorChunk err) with
    | none =>
      rw [Option.isSome_none, if_neg Bool.false_ne_true, Option.elim_none, List.append_nil]
      rfl
    | some t =>
      rw [Option.isSome_some, if_pos rfl, Option.elim_some, sendEvent, text_of_dump lib model rfl hdump]
      rfl

/-- After a close nothing is sent, whatever calls are made. -/
theorem sent_of_closed {s : EventStream σ} (h : StreamOp.closed s.stream = true) (calls : List StreamCall) :
    StreamOp.sent (run lib model plugins s calls).stream = StreamOp.sent s.stream ∧
      StreamOp.closed (run lib model plugins s calls).stream = true := by
  refine Outcome.run_invariant (fun s' : EventStream σ =>
    StreamOp.sent s'.stream = StreamOp.sent s.stream ∧ StreamOp.closed s'.stream = true) ⟨rfl, h⟩
    fun s' call _ hs' => ?_
  rw [step_state]
  dsimp only
  rw [StreamOp.sent_append, StreamOp.closed_append, if_pos hs'.2, hs'.2, Bool.true_or]
  exact ⟨hs'.1, rfl⟩

/-- A stream that is open sends its events, and is closed by the last of them, if at all. -/
theorem stream_run {s : EventStream σ} (hopen : StreamOp.closed s.stream = false)
    (calls : List StreamCall) :
    StreamOp.sent (run lib model plugins s calls).stream =
        StreamOp.sent s.stream ++ (events lib model plugins calls s.lua).flatMap (text lib model) ∧
      StreamOp.closed (run lib model plugins s calls).stream =
        (events lib model plugins calls s.lua).any StreamEvent.closes := by
  induction calls generalizing s with
  | nil =>
    rw [events, List.flatMap_nil, List.append_nil, List.any_nil, ← hopen]
    exact ⟨rfl, rfl⟩
  | cons call calls ih =>
    have hstep := step_state lib model plugins call s
    rw [run, Outcome.run_cons, ← run, events]
    generalize (step lib model plugins call s).state = s' at hstep ⊢
    cases hemitted : emitted lib model plugins call s.lua with
    | mk event lua =>
      rw [hemitted] at hstep
      subst hstep
      cases event with
      | none =>
        dsimp only [Option.elim_none]
        rw [List.append_nil]
        exact ih (s := { stream := s.stream, lua }) hopen
      | some e =>
        have hsent : StreamOp.sent (s.stream ++ sendEvent lib model e) =
            StreamOp.sent s.stream ++ text lib model e := by
          rw [StreamOp.sent_append, hopen, if_neg Bool.false_ne_true, sent_sendEvent]
        have hclosed : StreamOp.closed (s.stream ++ sendEvent lib model e) = e.closes := by
          rw [StreamOp.closed_append, hopen, Bool.false_or, closed_sendEvent]
        dsimp only [Option.elim_some]
        rw [List.flatMap_cons, ← List.append_assoc, ← hsent, List.any_cons]
        cases hcloses : e.closes with
        | false =>
          rw [if_neg Bool.false_ne_true, Bool.false_or]
          exact ih (s := { stream := s.stream ++ sendEvent lib model e, lua }) (hclosed.trans hcloses)
        | true =>
          rw [if_pos rfl, Bool.true_or, List.flatMap_nil, List.append_nil]
          exact sent_of_closed lib model plugins (s := { stream := s.stream ++ sendEvent lib model e, lua })
            (hclosed.trans hcloses) calls

end EventStream

/-! ## Streams of events -/

/-- `obj` is a chunk that carries the token. -/
def CarriesToken (obj : Json ν) (tok : Str) : Prop :=
  ∃ m delta, obj.IsChoice m delta ∧ finishes (.object m) = false ∧
    (∀ tc tcs, delta.member "tool_calls" ≠ some (.array (tc :: tcs))) ∧
    (delta.member "content").bind Json.getString = some tok

/-- The payload stands for the event. -/
def StreamEvent.Encodes (lib : JsonLib ν) : StreamEvent → Str → Prop
  | .token tok, payload => ∃ obj, CarriesToken obj tok ∧ IsPayload lib obj payload
  | .done, payload => payload = str "[DONE]"
  | .error _, payload => ∃ obj, obj.member "choices" = none ∧ IsPayload lib obj payload

/-- The text is a stream of the events. -/
def IsStream (lib : JsonLib ν) (es : List StreamEvent) (text : Str) : Prop :=
  ∃ payloads, text = payloads.flatMap eventText ∧ List.Forall₂ (StreamEvent.Encodes lib) es payloads

theorem member_singleton (key key' : String) (v : Json ν) :
    (Json.object (Json.members [(str key, v)])).member key' =
      if str key' = str key then some v else none :=
  Json.lookup_cons_eq (str key) (str key') v []

theorem carriesToken_makeSseChunk (token model : Str) :
    CarriesToken (makeSseChunk token model : Json ν) token := by
  have hchunk (v w x : Json ν) : (Json.object (Json.members [(str "object", v), (str "model", w),
      (str "choices", x)])).member "choices" = some x := by
    have hkeys : ([(str "object", v), (str "model", w), (str "choices", x)].map Prod.fst).Nodup :=
      show [str "object", str "model", str "choices"].Nodup by decide
    rw [Json.member_object_members _ hkeys]
    rfl
  have hchoice (v w x : Json ν) : ([(str "index", v), (str "delta", w),
      (str "finish_reason", x)].map Prod.fst).Nodup :=
    show [str "index", str "delta", str "finish_reason"].Nodup by decide
  refine ⟨_, .object (Json.members [(str "content", .string token)]), ⟨[], hchunk _ _ _, ?_⟩, ?_, ?_, ?_⟩
  · rw [Json.lookup_members (hchoice _ _ _)]
    rfl
  · rw [finishes, Json.member_object_members _ (hchoice _ _ _)]
    rfl
  · intro tc tcs h
    rw [member_singleton, if_neg (by decide)] at h
    cases h
  · rw [member_singleton, if_pos rfl]
    rfl

theorem member_errorChunk (err : Str) : (errorChunk err : Json ν).member "choices" = none := by
  rw [errorChunk, member_singleton, if_neg (by decide)]

/-- A printed chunk stands for its event. -/
def StreamEvent.Prints (lib : JsonLib ν) (model : Str) (e : StreamEvent) : Prop :=
  ∀ j, e.json model = some j → ∀ payload, lib.dump j = some payload → IsPayload lib j payload

/-- What a stream sends are its events, in the format of a backend. -/
theorem isStream_events {lib : JsonLib ν} {model : Str} (es : List StreamEvent)
    (hdump : ∀ e ∈ es, (e.payload lib model).isSome) (hprints : ∀ e ∈ es, e.Prints lib model) :
    IsStream lib es (es.flatMap (EventStream.text lib model)) := by
  refine ⟨es.map fun e => (e.payload lib model).getD [], by rw [List.flatMap_map]; rfl, ?_⟩
  rw [List.forall₂_map_right_iff, List.forall₂_same]
  intro e he
  obtain ⟨payload, hpayload⟩ := Option.isSome_iff_exists.1 (hdump e he)
  rw [hpayload, Option.getD_some]
  cases e with
  | token tok => exact ⟨_, carriesToken_makeSseChunk tok model, hprints _ he _ rfl payload hpayload⟩
  | done => exact (Option.some.inj hpayload).symm
  | error err => exact ⟨_, member_errorChunk err, hprints _ he _ rfl payload hpayload⟩

/-! ## Lines of events -/

namespace LineM

variable {lib : JsonLib ν} {cb : SSECallbacks} {ends : CallbackEnds} {s : SSELineState}

theorem chunkText_payload {obj : Json ν} {payload : Str} (h : IsPayload lib obj payload) :
    chunkText (str "data: " ++ payload) = some payload := by
  have hdrop : (str "data: " ++ payload).drop 6 = payload := rfl
  rw [chunkText, hdrop, if_pos ⟨List.prefix_append _ _, h.notDone⟩]

theorem readChunk_of_isChoice {obj delta : Json ν} {m : List (Str × Json ν)} {payload : Str}
    (h : IsPayload lib obj payload) (hchoice : obj.IsChoice m delta) :
    readChunk lib payload = .choice (.object m) delta := by
  obtain ⟨rest, hchoices, hdelta⟩ := hchoice
  have hempty : ¬(Json.array (.object m :: rest)).isEmpty = true := Bool.false_ne_true
  simp only [readChunk, h.parse, hchoices, if_neg hempty, Json.first, hdelta]

/-- The line of an event makes the call for the event, if that returns. -/
theorem processLine_event (ends : CallbackEnds) (s : SSELineState) {e : StreamEvent} {payload : Str}
    (h : e.Encodes lib payload) (hcb : cb.tokCb = true) (hends : ∀ c ∈ e.read, ends s.calls c = none) :
    processLine lib cb ends (str "data: " ++ payload) s = .ok () (e.read.elim s s.call) := by
  cases e with
  | token tok =>
    obtain ⟨obj, ⟨m, delta, hchoice, hfinish, htools, hcontent⟩, hpayload⟩ := h
    have hno : ¬((Json.object m).member "finish_reason").bind Json.getString = some (str "tool_calls") :=
      of_decide_eq_false hfinish
    obtain ⟨s', pre, -, -, hend⟩ := endOrToken_eq cb ends (.object m) delta s
    have hcalls : choiceCalls cb (.object m) delta (s.addToolCall delta) =
        (StreamEvent.token tok).read.toList := by
      rw [choiceCalls, if_neg hno, hcontent, StreamEvent.read]
      dsimp only
      by_cases htok : tok = []
      · rw [if_neg fun h => h.1 htok, if_pos htok]
        rfl
      · rw [if_pos ⟨htok, hcb⟩, if_neg htok]
        rfl
    have hreturns : firstThrown ends s.calls (StreamEvent.token tok).read.toList = none := by
      cases hread : (StreamEvent.token tok).read with
      | none => rfl
      | some c => rw [Option.toList_some, firstThrown, hends c hread]; rfl
    have hblock := handlePayload_eq lib cb ends (s := s) payload
    rw [readChunk_of_isChoice hpayload hchoice] at hblock
    rw [hcalls, hreturns] at hend
    rw [processLine_of_chunkText lib cb ends (chunkText_payload hpayload),
      tryCatch_ok (hblock.trans hend)]
    rw [SSELineState.handleChoice, if_neg hno, SSELineState.addToolCall_of_forall_ne htools, hcontent,
      StreamEvent.read]
    dsimp only
    by_cases htok : tok = []
    · rw [if_neg fun h => h.1 htok, if_pos htok]
      rfl
    · rw [if_pos ⟨htok, hcb⟩, if_neg htok]
      rfl
  | done =>
    obtain rfl : payload = str "[DONE]" := h
    exact invoke_returns ends (hends .done rfl)
  | error err =>
    obtain ⟨obj, hchoices, hpayload⟩ := h
    have hblock := handlePayload_eq lib cb ends (s := s) payload
    have hempty : readChunk lib payload = .empty := by
      rw [readChunk, hpayload.parse]
      dsimp only
      rw [hchoices]
    rw [hempty] at hblock
    rw [processLine_of_chunkText lib cb ends (chunkText_payload hpayload), tryCatch_ok hblock]
    rfl

end LineM

theorem StreamEvent.Encodes.line {lib : JsonLib ν} {e : StreamEvent} {payload : Str}
    (h : e.Encodes lib payload) : newline ∉ payload ∧ payload.getLast? ≠ some 13 := by
  cases e with
  | token tok =>
    obtain ⟨obj, -, hpayload⟩ := h
    exact ⟨hpayload.newline, hpayload.carriage⟩
  | done =>
    obtain rfl : payload = str "[DONE]" := h
    decide
  | error err =>
    obtain ⟨obj, -, hpayload⟩ := h
    exact ⟨hpayload.newline, hpayload.carriage⟩

/-- After the calls for some events. -/
def SSELineState.after (es : List StreamEvent) (s : SSELineState) : SSELineState :=
  { s with calls := s.calls ++ es.filterMap StreamEvent.read }

theorem SSELineState.after_nil (s : SSELineState) : s.after [] = s := by simp [SSELineState.after]

theorem SSELineState.after_append (es es' : List StreamEvent) (s : SSELineState) :
    s.after (es ++ es') = (s.after es).after es' := by
  simp [SSELineState.after]

theorem SSELineState.after_singleton (e : StreamEvent) (s : SSELineState) :
    s.after [e] = e.read.elim s s.call := by
  cases hread : e.read with
  | none => simp [SSELineState.after, hread]
  | some c => simp [SSELineState.after, SSELineState.call, hread]

namespace SSEParser

/-- The lines of a stream are those of its events, with an empty one after each. -/
theorem cut_events {payloads : List Str} (h : ∀ payload ∈ payloads, newline ∉ payload) :
    LineBuffer.cut newline (payloads.flatMap eventText) =
      (payloads.flatMap fun payload => [str "data: " ++ payload, []], []) := by
  induction payloads with
  | nil => rfl
  | cons payload payloads ih =>
    obtain ⟨hpayload, hrest⟩ := List.forall_mem_cons.1 h
    have hline : newline ∉ str "data: " ++ payload := by
      rw [List.mem_append, not_or]
      exact ⟨by decide, hpayload⟩
    have hsplit : (payload :: payloads).flatMap eventText =
        (str "data: " ++ payload) ++ newline :: ([] ++ newline :: payloads.flatMap eventText) := by
      have hend : str "\n\n" = [newline, newline] := by decide
      rw [List.flatMap_cons, eventText, hend]
      simp only [List.append_assoc, List.cons_append, List.nil_append]
    rw [hsplit, LineBuffer.cut_append_cons hline, LineBuffer.cut_append_cons List.not_mem_nil, ih hrest]
    rfl

theorem stripCr_payload {payload : Str} (h : payload.getLast? ≠ some 13) :
    stripCr (str "data: " ++ payload) = str "data: " ++ payload := by
  refine if_neg ?_
  rw [List.getLast?_append]
  cases hpayload : payload.getLast? with
  | none => decide
  | some c =>
    rw [Option.some_or, ← hpayload]
    exact h

/-- A reader of lines that makes the calls of each event, after those of the events before it, makes the
calls of a stream. -/
theorem feed_isStream {lib : JsonLib ν} {f : SSELineState → Str → Option SSELineState}
    {es : List StreamEvent} {text : Str} (h : IsStream lib es text) {s : SSELineState}
    (hnil : ∀ s, f s [] = some s)
    (hevent : ∀ pre e post payload, es = pre ++ e :: post → e.Encodes lib payload →
      f (s.after pre) (str "data: " ++ payload) = some (s.after (pre ++ [e])))
    {chunks : List Str} (hchunks : chunks.flatten = text) :
    chunks.foldlM (LineBuffer.feed newline f) ([], s) = some ([], s.after es) := by
  obtain ⟨payloads, rfl, hencodes⟩ := h
  have hlines : ∀ payload ∈ payloads, newline ∉ payload := by
    intro payload hpayload
    obtain ⟨i, hi, rfl⟩ := List.mem_iff_getElem.1 hpayload
    exact (hencodes.get (by rw [hencodes.length_eq]; exact hi) hi).line.1
  have hfold : (payloads.flatMap fun payload => [str "data: " ++ payload, []]).foldlM f s =
      some (s.after es) := by
    clear hchunks hlines
    induction hencodes generalizing s with
    | nil => rw [SSELineState.after_nil]; rfl
    | @cons e payload es payloads he hrest ih =>
      have hfirst := hevent [] e es payload rfl he
      rw [SSELineState.after_nil, List.nil_append] at hfirst
      rw [List.flatMap_cons, List.cons_append, List.cons_append, List.nil_append, List.foldlM_cons, hfirst,
        Option.bind_eq_bind, Option.bind_some, List.foldlM_cons, hnil, Option.bind_eq_bind,
        Option.bind_some, ih fun pre e' post payload' hes he' => ?_]
      · rw [← SSELineState.after_append]
        rfl
      · have hnext := hevent (e :: pre) e' post payload' (by rw [hes]; rfl) he'
        rw [← SSELineState.after_append, ← SSELineState.after_append]
        exact hnext
  rw [LineBuffer.feed_flatten newline f List.not_mem_nil, hchunks, LineBuffer.feed, List.nil_append,
    cut_events hlines, hfold]
  rfl

/-- The parser makes the calls of a stream, however it is cut. -/
theorem feed_stream {lib : JsonLib ν} {cb : SSECallbacks} (hcb : cb.tokCb = true) {es : List StreamEvent}
    {text : Str} (h : IsStream lib es text) {chunks : List Str} (hchunks : chunks.flatten = text) :
    chunks.foldlM (feed lib cb) {} = some { calls := es.filterMap StreamEvent.read } := by
  have hfold := foldlM_feed_eq lib cb chunks ([], {})
  have hstream := feed_isStream (f := handleLine lib cb) (s := {}) h (fun s => rfl)
    (fun pre e post payload _ he => ?_) hchunks
  · rw [hstream] at hfold
    refine hfold.trans ?_
    simp [SSELineState.after]
  · have hline := LineM.processLine_event .returning (({} : SSELineState).after pre) he hcb
      fun _ _ => rfl
    rw [LineM.processLine_eq] at hline
    rw [handleLine, stripCr_payload he.line.2, SSELineState.after_append, SSELineState.after_singleton]
    cases hprocess : (({} : SSELineState).after pre).processLine lib cb (str "data: " ++ payload) with
    | none => rw [hprocess] at hline; cases hline
    | some s' =>
      rw [hprocess] at hline
      injection hline with _ hstate
      rw [← hstate]

end SSEParser

/-! ## Clients -/

namespace EventStream

/-- The value is printed on a line of its own, and read back. -/
def Printable (lib : JsonLib ν) (j : Json ν) : Prop :=
  ∃ payload, lib.dump j = some payload ∧ IsPayload lib j payload

theorem Printable.isSome {lib : JsonLib ν} {j : Json ν} (h : Printable lib j) : (lib.dump j).isSome := by
  obtain ⟨payload, hdump, -⟩ := h
  rw [hdump]
  rfl

theorem Printable.isPayload {lib : JsonLib ν} {j : Json ν} (h : Printable lib j) {payload : Str}
    (hdump : lib.dump j = some payload) : IsPayload lib j payload := by
  obtain ⟨payload', hdump', hpayload⟩ := h
  rw [hdump, Option.some_inj] at hdump'
  rwa [hdump']

/-- The tokens before the end of the stream. -/
def tokens : List StreamCall → List Str
  | .token tok :: calls => tok :: tokens calls
  | _ => []

/-- The call that ends the stream. -/
def ending : List StreamCall → Option StreamEvent
  | [] => none
  | .token _ :: calls => ending calls
  | .done :: _ => some .done
  | .error err :: _ => some (.error err)

variable {lib : JsonLib ν} {model : Str} {plugins : List (StreamPlugin σ)}

/-- The events of a stream are the tokens that the plugins leave, and its end. -/
theorem events_eq {calls : List StreamCall} {lua : σ}
    (htokens : ∀ p ∈ PluginManager.processed plugins (tokens calls) lua,
      (lib.dump (makeSseChunk p model)).isSome)
    (herror : ∀ err, ending calls = some (.error err) → (lib.dump (errorChunk err)).isSome) :
    events lib model plugins calls lua =
      (PluginManager.processed plugins (tokens calls) lua).map .token ++ (ending calls).toList := by
  induction calls generalizing lua with
  | nil => rfl
  | cons call calls ih =>
    cases call with
    | token tok =>
      rw [tokens, PluginManager.processed] at htokens ⊢
      rw [ending] at herror ⊢
      rw [events, emitted]
      dsimp only at htokens ⊢
      generalize PluginManager.runTokenPipeline plugins tok lua = r at htokens ⊢
      by_cases hempty : r.1 = []
      · rw [if_pos hempty] at htokens ⊢
        rw [if_neg fun h => h.1 hempty]
        exact ih htokens herror
      · rw [if_neg hempty] at htokens ⊢
        rw [List.forall_mem_cons] at htokens
        rw [if_pos ⟨hempty, htokens.1⟩]
        have hopen : ¬(StreamEvent.token r.1).closes = true := Bool.false_ne_true
        dsimp only
        rw [if_neg hopen, ih htokens.2 herror]
        rfl
    | done => rfl
    | error err =>
      rw [events, emitted, if_pos (herror err rfl)]
      rfl

theorem closes_of_ending {calls : List StreamCall} {e : StreamEvent} (h : ending calls = some e) :
    e.closes = true := by
  induction calls with
  | nil => cases h
  | cons call calls ih =>
    cases call with
    | token tok => exact ih h
    | done => rw [← Option.some.inj h]; rfl
    | error err => rw [← Option.some.inj h]; rfl

theorem filterMap_read_events {calls : List StreamCall} {lua : σ} :
    ((PluginManager.processed plugins (tokens calls) lua).map StreamEvent.token ++
        (ending calls).toList).filterMap StreamEvent.read =
      (PluginManager.processed plugins (tokens calls) lua).map .token ++
        if ending calls = some .done then [.done] else [] := by
  have hne : ∀ (toks : List Str) (lua : σ), ∀ p ∈ PluginManager.processed plugins toks lua, p ≠ [] := by
    intro toks
    induction toks with
    | nil => exact fun _ => nofun
    | cons tok toks ih =>
      intro lua p hp
      rw [PluginManager.processed] at hp
      dsimp only at hp
      split_ifs at hp with hempty
      · exact ih _ p hp
      · rcases List.mem_cons.1 hp with rfl | hp
        · exact hempty
        · exact ih _ p hp
  have hread : ∀ p ∈ PluginManager.processed plugins (tokens calls) lua,
      (StreamEvent.token p).read = some (SSECall.token p) := fun p hp => if_neg (hne _ _ p hp)
  rw [List.filterMap_append, List.filterMap_map]
  congr 1
  · generalize PluginManager.processed plugins (tokens calls) lua = ps at hread
    induction ps with
    | nil => rfl
    | cons p ps ih =>
      obtain ⟨hp, hrest⟩ := List.forall_mem_cons.1 hread
      rw [List.filterMap_cons, Function.comp_apply, hp, List.map_cons, ih hrest]
  · cases hending : ending calls with
    | none => rfl
    | some e =>
      cases e with
      | token tok => cases closes_of_ending hending
      | done => rfl
      | error err => rfl

/-- Whatever calls the upstream makes, and however the stream is cut, a gateway that reads it gets the tokens
that the plugins leave, in order, up to the end of the stream, and that end unless it is an error. -/
theorem reads_stream (calls : List StreamCall) (lua : σ)
    (htokens : ∀ p ∈ PluginManager.processed plugins (tokens calls) lua,
      Printable lib (makeSseChunk p model))
    (herror : ∀ err, ending calls = some (.error err) → Printable lib (errorChunk err))
    {cb : SSECallbacks} (hcb : cb.tokCb = true) {chunks : List Str}
    (hchunks : chunks.flatten = StreamOp.sent (run lib model plugins { lua } calls).stream) :
    chunks.foldlM (SSEParser.feed lib cb) {} =
        some { calls := (PluginManager.processed plugins (tokens calls) lua).map .token ++
          if ending calls = some .done then [.done] else [] } ∧
      (StreamOp.closed (run lib model plugins { lua } calls).stream = true ↔ (ending calls).isSome) := by
  have hevents : events lib model plugins calls lua = _ :=
    events_eq (fun p hp => (htokens p hp).isSome) fun err herr => (herror err herr).isSome
  have hprintable : ∀ e ∈ events lib model plugins calls lua, ∀ j : Json ν, e.json model = some j →
      Printable lib j := by
    intro e he j hj
    rw [hevents, List.mem_append, List.mem_map, Option.mem_toList] at he
    rcases he with ⟨p, hp, rfl⟩ | he
    · rw [← Option.some.inj hj]
      exact htokens p hp
    · cases e with
      | token tok => cases closes_of_ending he
      | done => cases hj
      | error err =>
        rw [← Option.some.inj hj]
        exact herror err he
  obtain ⟨hsent, hclosed⟩ := stream_run lib model plugins (s := { lua }) rfl calls
  rw [hsent] at hchunks
  rw [hclosed]
  have htext := isStream_events (events lib model plugins calls lua)
    (fun e he => by
      cases hjson : e.json model with
      | none => rw [StreamEvent.payload, hjson]; rfl
      | some j =>
        rw [StreamEvent.payload, hjson]
        exact (hprintable e he j hjson).isSome)
    fun e he j hj _ => (hprintable e he j hj).isPayload
  refine ⟨?_, ?_⟩
  · rw [SSEParser.feed_stream hcb htext hchunks, hevents, filterMap_read_events]
  · rw [hevents, List.any_append, List.any_map, Bool.or_eq_true, or_iff_right (by simp [StreamEvent.closes])]
    cases hending : ending calls with
    | none => simp
    | some e => simp [closes_of_ending hending]

/-- The library as it behaves on the chunk of a short token. -/
def hiLib : JsonLib ℚ := .on Json.showRat [makeSseChunk (str "hi") (str "gateway")]

theorem printable_hi : Printable hiLib (makeSseChunk (str "hi") (str "gateway")) := by
  refine ⟨_, rfl, ?_, by decide +kernel, by decide +kernel, by decide +kernel⟩
  simp [hiLib, JsonLib.on]

/-- A stream with an empty token and a call after its end. -/
def hiCalls : List StreamCall := [.token (str "hi"), .token [], .token (str "hi"), .done, .token (str "hi")]

/-- A client gets both tokens and the end, byte by byte. -/
theorem reads_hi :
    ((StreamOp.sent (run hiLib (str "gateway") [] { lua := () } hiCalls).stream).map fun c => [c]).foldlM
      (SSEParser.feed hiLib {}) {} = some { calls := [.token (str "hi"), .token (str "hi"), .done] } := by
  have htokens : ∀ p ∈ PluginManager.processed ([] : List (StreamPlugin Unit)) (tokens hiCalls) (),
      Printable hiLib (makeSseChunk p (str "gateway")) := by
    have hprocessed : PluginManager.processed ([] : List (StreamPlugin Unit)) (tokens hiCalls) () =
        [str "hi", str "hi"] := by decide
    rw [hprocessed]
    simp [printable_hi]
  exact (reads_stream hiCalls () htokens (fun err h => by cases h) rfl
    (List.flatMap_singleton' _)).1

end EventStream

end LlmGateway
