import LlmGateway.SSEParser

/-!
# The remote upstream

`RemoteUpstream`, which sends chat requests to a backend: any thread submits a request to a queue, and
the I/O thread takes what is queued, starts a transfer for each request (`add_transfer`), hands what
arrives to the parser of the transfer (`write_cb`), and reaps the transfers that have ended
(`reap_finished`).  The two places that submit requests, `process_chat` and `handle_chat`, count them in
the metrics, and so do the callbacks that they pass.

One event is one step of a thread, so a list of events is an interleaving.  The library of the transfers
delivers the body of a response in pieces and then reports its end once.  An exception on the I/O thread
ends the process.
-/

namespace LlmGateway

variable {ν : Type}

/-! ## Metrics -/

/-- The counters of `Metrics` that requests move.  An unsigned counter wraps where one of these becomes
negative. -/
structure Metrics where
  totalRequests : ℤ := 0
  activeRequests : ℤ := 0
  successCount : ℤ := 0
  errors : ℤ := 0
  deriving DecidableEq

namespace Metrics

/-- What `on_done` of either controller does. -/
def onDone (m : Metrics) : Metrics :=
  { m with successCount := m.successCount + 1, activeRequests := m.activeRequests - 1 }

/-- What `on_error` of either controller does. -/
def onError (m : Metrics) : Metrics :=
  { m with errors := m.errors + 1, activeRequests := m.activeRequests - 1 }

/-- What a call of the parser does. -/
def onCall (m : Metrics) : SSECall → Metrics
  | .done => m.onDone
  | .token _ => m
  | .toolCall _ _ _ => m

end Metrics

/-! ## Requests and transfers -/

/-- A request to a model. -/
structure LLMRequest (ν : Type) where
  model : Str
  messagesJson : Str
  toolsJson : Str
  temperature : ν
  maxTokens : Int32
  /-- Whether `on_tool_call` is set; the other callbacks always are. -/
  onToolCall : Bool
  deriving DecidableEq

/-- A request with the backend that it goes to. -/
structure PendingTask (ν : Type) where
  req : LLMRequest ν
  url : Str
  apiKey : Str
  deriving DecidableEq

/-- A `CURLcode`. -/
abbrev CurlCode := ℕ

/-- `CURLE_OK`. -/
def curleOk : CurlCode := 0

/-- A transfer: its task, what is sent, and what has been read. -/
structure TransferCtx (ν : Type) where
  task : PendingTask ν
  body : Str
  hdrs : List Str
  parser : SSEParser := {}
  /-- What has arrived so far. -/
  received : Str := []
  /-- The result and the response code, once the transfer has ended. -/
  ended : Option (CurlCode × ℤ) := none

/-- A transfer that was reaped, and the error that `on_error` was called with. -/
structure ReapedTransfer (ν : Type) where
  ctx : TransferCtx ν
  result : CurlCode
  httpCode : ℤ
  error : Option Str

/-- What became of a request that was taken from the queue. -/
inductive Handling where
  | started (easy : ℕ)
  | failed (err : Str)
  deriving DecidableEq

/-- Whether the I/O thread still runs. -/
inductive IoStatus where
  | running
  /-- An exception has left the I/O thread. -/
  | terminated
  /-- The parser has done something that is not defined. -/
  | undefined
  deriving DecidableEq

/-- The queue of tasks, the transfers, and what has become of them. -/
structure RemoteUpstream (ν : Type) where
  pending : List (PendingTask ν) := []
  /-- `local` of `drain_queue`. -/
  taken : List (PendingTask ν) := []
  active : AList fun _ : ℕ => TransferCtx ν := ∅
  /-- The number of handles made so far. -/
  easyCount : ℕ := 0
  metrics : Metrics := {}
  status : IoStatus := .running
  /-- The requests submitted so far. -/
  submitted : List (PendingTask ν) := []
  /-- The requests taken from the queue so far. -/
  handled : List (PendingTask ν × Handling) := []
  reaped : List (ReapedTransfer ν) := []

/-- The JSON library, and the texts of the transfer library's errors. -/
structure UpstreamPlatform (ν : Type) where
  json : JsonLib ν
  curlEasyStrerror : CurlCode → Str

namespace RemoteUpstream

/-! ## Submitting -/

/-- Queue a task. -/
def submit (task : PendingTask ν) (u : RemoteUpstream ν) : RemoteUpstream ν :=
  { u with
    pending := u.pending ++ [task]
    submitted := u.submitted ++ [task] }

/-- The counting of a request, and its submission. -/
def submitChat (task : PendingTask ν) (u : RemoteUpstream ν) : RemoteUpstream ν :=
  submit task
    { u with
      metrics :=
        { u.metrics with
          totalRequests := u.metrics.totalRequests + 1
          activeRequests := u.metrics.activeRequests + 1 } }

/-- The end of `process_chat`. -/
def processChat (model messagesJson toolsJson : Str) (temperature : ν) (maxTokens : Int32)
    (url apiKey : Str) : RemoteUpstream ν → RemoteUpstream ν :=
  submitChat ⟨⟨model, messagesJson, toolsJson, temperature, maxTokens, true⟩, url, apiKey⟩

/-- The end of `handle_chat`. -/
def handleChat (model messagesJson : Str) (temperature : ν) (maxTokens : Int32)
    (url apiKey : Str) : RemoteUpstream ν → RemoteUpstream ν :=
  submitChat ⟨⟨model, messagesJson, [], temperature, maxTokens, false⟩, url, apiKey⟩

/-! ## The I/O thread -/

/-- The first part of `drain_queue`. -/
def drainQueue (u : RemoteUpstream ν) : RemoteUpstream ν :=
  { u with pending := [], taken := u.pending }

/-- The members of a request that has tools. -/
def toolMembers (lib : JsonLib ν) (toolsJson : Str) : Option (List (Str × Json ν)) :=
  if toolsJson = [] then some []
  else
    (lib.parse toolsJson).map fun tools =>
      [(str "tools", tools), (str "tool_choice", .string (str "auto"))]

/-- The body of a request. -/
def bodyJson (lib : JsonLib ν) (req : LLMRequest ν) : Option (Json ν) :=
  (lib.parse req.messagesJson).bind fun messages =>
    (toolMembers lib req.toolsJson).map fun tools =>
      .object (Json.members ([
        (str "model", .string req.model),
        (str "messages", messages),
        (str "temperature", .float req.temperature),
        (str "max_tokens", .int req.maxTokens.toInt),
        (str "stream", .bool true)] ++ tools))

/-- The headers of a request. -/
def headers (apiKey : Str) : List Str :=
  [str "Content-Type: application/json"] ++
    (if apiKey = [] then [] else [str "Authorization: Bearer " ++ apiKey]) ++
    [str "Accept: text/event-stream", str "Cache-Control: no-cache", str "Expect:"]

/-- `add_transfer`; `curlOk` says whether `curl_easy_init` succeeds. -/
def addTransfer (lib : JsonLib ν) (curlOk : Bool) (task : PendingTask ν) (u : RemoteUpstream ν) :
    Outcome (RemoteUpstream ν) :=
  match bodyJson lib task.req with
  | none => .throw u
  | some body =>
      if ¬ curlOk then
        .ok { u with
          metrics := u.metrics.onError
          handled := u.handled ++ [(task, .failed (str "curl_easy_init failed"))] }
      else
        match lib.dump body with
        | none => .throw u
        | some text =>
            .ok { u with
              metrics := { u.metrics with activeRequests := u.metrics.activeRequests + 1 }
              active := u.active.insert u.easyCount { task, body := text, hdrs := headers task.apiKey }
              easyCount := u.easyCount + 1
              handled := u.handled ++ [(task, .started u.easyCount)] }

/-- One pass of the loop of `drain_queue`. -/
def drainOne (lib : JsonLib ν) (curlOk : Bool) (u : RemoteUpstream ν) : RemoteUpstream ν :=
  match u.taken with
  | [] => u
  | task :: rest =>
      let o := addTransfer lib curlOk task { u with taken := rest }
      if o.threw then { o.state with status := .terminated } else o.state

/-- The callbacks that are set for a request. -/
def callbacks (req : LLMRequest ν) : SSECallbacks := { toolCb := req.onToolCall }

/-- Data of a transfer goes to its parser. -/
def writeCb (lib : JsonLib ν) (easy : ℕ) (data : Str) (u : RemoteUpstream ν) : RemoteUpstream ν :=
  match u.active.lookup easy with
  | none => u
  | some ctx =>
      match SSEParser.feed lib (callbacks ctx.task.req) ctx.parser data with
      | none => { u with status := .undefined }
      | some parser =>
          { u with
            metrics := (parser.calls.drop ctx.parser.calls.length).foldl Metrics.onCall u.metrics
            active := u.active.insert easy { ctx with parser, received := ctx.received ++ data } }

/-- The transfer library reports the end of a transfer. -/
def endTransfer (easy : ℕ) (result : CurlCode) (httpCode : ℤ) (u : RemoteUpstream ν) :
    RemoteUpstream ν :=
  { u with active := u.active.modify easy fun ctx => { ctx with ended := some (result, httpCode) } }

/-- The error that a transfer ends with. -/
def transferError (platform : UpstreamPlatform ν) (result : CurlCode) (httpCode : ℤ) : Option Str :=
  if result ≠ curleOk then some (platform.curlEasyStrerror result)
  else if httpCode ≠ 200 then some (str "HTTP " ++ str (toString httpCode))
  else none

/-- What `reap_finished` does with a transfer that has ended. -/
def reapFinished (platform : UpstreamPlatform ν) (easy : ℕ) (u : RemoteUpstream ν) :
    RemoteUpstream ν :=
  match u.active.lookup easy with
  | none => u
  | some ctx =>
      match ctx.ended with
      | none => u
      | some (result, httpCode) =>
          let error := transferError platform result httpCode
          let m := if error.isSome then u.metrics.onError else u.metrics
          let m :=
            if error.isSome then { m with errors := m.errors + 1 }
            else { m with successCount := m.successCount + 1 }
          { u with
            metrics := { m with activeRequests := m.activeRequests - 1 }
            active := u.active.erase easy
            reaped := u.reaped ++ [⟨ctx, result, httpCode, error⟩] }

/-! ## Steps -/

/-- What the threads do. -/
inductive Event (ν : Type) where
  | processChat (model messagesJson toolsJson : Str) (temperature : ν) (maxTokens : Int32)
      (url apiKey : Str)
  | handleChat (model messagesJson : Str) (temperature : ν) (maxTokens : Int32) (url apiKey : Str)
  | drainQueue
  | addTransfer (curlOk : Bool)
  | writeCb (easy : ℕ) (data : Str)
  | endTransfer (easy : ℕ) (result : CurlCode) (httpCode : ℤ)
  | reapFinished (easy : ℕ)

/-- Whether a transfer is going on. -/
def going (easy : ℕ) (u : RemoteUpstream ν) : Bool :=
  (u.active.lookup easy).any fun ctx => ctx.ended.isNone

/-- One step.  While the I/O thread starts transfers it does nothing else, and a transfer that has ended
delivers nothing and ends no second time. -/
def step (platform : UpstreamPlatform ν) (event : Event ν) (u : RemoteUpstream ν) :
    RemoteUpstream ν :=
  if u.status ≠ .running then u
  else
    match event with
    | .processChat model messagesJson toolsJson temperature maxTokens url apiKey =>
        processChat model messagesJson toolsJson temperature maxTokens url apiKey u
    | .handleChat model messagesJson temperature maxTokens url apiKey =>
        handleChat model messagesJson temperature maxTokens url apiKey u
    | .addTransfer curlOk => drainOne platform.json curlOk u
    | .drainQueue => if u.taken = [] then drainQueue u else u
    | .writeCb easy data =>
        if u.taken = [] ∧ going easy u then writeCb platform.json easy data u else u
    | .endTransfer easy result httpCode =>
        if u.taken = [] ∧ going easy u then endTransfer easy result httpCode u else u
    | .reapFinished easy => if u.taken = [] then reapFinished platform easy u else u

/-- The upstream after some events, from the start on. -/
def run (platform : UpstreamPlatform ν) (events : List (Event ν)) : RemoteUpstream ν :=
  Outcome.run (fun event u => .ok (step platform event u)) {} events

/-! ## What a step can do -/

/-- `add_transfer` of the request does not throw. -/
def Startable (lib : JsonLib ν) (curlOk : Bool) (req : LLMRequest ν) : Prop :=
  ∃ body, bodyJson lib req = some body ∧ (curlOk → (lib.dump body).isSome)

/-- The steps from `u`. -/
inductive Effect (platform : UpstreamPlatform ν) (u : RemoteUpstream ν) :
    Event ν → RemoteUpstream ν → Prop where
  | stays (event : Event ν) : Effect platform u event u
  | submitted (event : Event ν) (task : PendingTask ν) : Effect platform u event (submitChat task u)
  | drained (htaken : u.taken = []) : Effect platform u .drainQueue (drainQueue u)
  | failed (task : PendingTask ν) (rest : List (PendingTask ν)) (htaken : u.taken = task :: rest)
      (hstart : Startable platform.json false task.req) :
      Effect platform u (.addTransfer false)
        { u with
          taken := rest
          metrics := u.metrics.onError
          handled := u.handled ++ [(task, .failed (str "curl_easy_init failed"))] }
  | started (task : PendingTask ν) (rest : List (PendingTask ν)) (htaken : u.taken = task :: rest)
      (hstart : Startable platform.json true task.req) (text : Str) :
      Effect platform u (.addTransfer true)
        { u with
          taken := rest
          metrics := { u.metrics with activeRequests := u.metrics.activeRequests + 1 }
          active := u.active.insert u.easyCount { task, body := text, hdrs := headers task.apiKey }
          easyCount := u.easyCount + 1
          handled := u.handled ++ [(task, .started u.easyCount)] }
  | terminated (curlOk : Bool) (task : PendingTask ν) (rest : List (PendingTask ν))
      (htaken : u.taken = task :: rest) (hstart : ¬ Startable platform.json curlOk task.req) :
      Effect platform u (.addTransfer curlOk) { u with taken := rest, status := .terminated }
  | received (easy : ℕ) (data : Str) (ctx : TransferCtx ν) (parser : SSEParser)
      (hctx : u.active.lookup easy = some ctx)
      (hfeed : SSEParser.feed platform.json (callbacks ctx.task.req) ctx.parser data = some parser) :
      Effect platform u (.writeCb easy data)
        { u with
          metrics := (parser.calls.drop ctx.parser.calls.length).foldl Metrics.onCall u.metrics
          active := u.active.insert easy { ctx with parser, received := ctx.received ++ data } }
  | undefined (event : Event ν) : Effect platform u event { u with status := .undefined }
  | ended (easy : ℕ) (result : CurlCode) (httpCode : ℤ) :
      Effect platform u (.endTransfer easy result httpCode) (endTransfer easy result httpCode u)
  | reaped (easy : ℕ) (ctx : TransferCtx ν) (result : CurlCode) (httpCode : ℤ)
      (hctx : u.active.lookup easy = some ctx) (hended : ctx.ended = some (result, httpCode)) :
      Effect platform u (.reapFinished easy) (reapFinished platform easy u)

theorem effect_drainOne (platform : UpstreamPlatform ν) (curlOk : Bool) (u : RemoteUpstream ν) :
    Effect platform u (.addTransfer curlOk) (drainOne platform.json curlOk u) := by
  unfold drainOne
  cases htaken : u.taken with
  | nil => exact .stays _
  | cons task rest =>
    dsimp only
    unfold addTransfer
    cases hbody : bodyJson platform.json task.req with
    | none =>
      refine .terminated curlOk task rest htaken ?_
      rintro ⟨body, hbody', -⟩
      rw [hbody] at hbody'
      cases hbody'
    | some body =>
      cases curlOk with
      | false => exact .failed task rest htaken ⟨body, hbody, nofun⟩
      | true =>
        cases hdump : platform.json.dump body with
        | none =>
          simp only [hdump]
          refine .terminated true task rest htaken ?_
          rintro ⟨body', hbody', hdump'⟩
          rw [hbody, Option.some.injEq] at hbody'
          rw [← hbody', hdump] at hdump'
          cases hdump' rfl
        | some text =>
          simp only [hdump]
          exact .started task rest htaken ⟨body, hbody, fun _ => by rw [hdump]; rfl⟩ text

theorem effect_writeCb (platform : UpstreamPlatform ν) (easy : ℕ) (data : Str)
    (u : RemoteUpstream ν) :
    Effect platform u (.writeCb easy data) (writeCb platform.json easy data u) := by
  unfold writeCb
  cases hctx : u.active.lookup easy with
  | none => exact .stays _
  | some ctx =>
    dsimp only
    cases hfeed : SSEParser.feed platform.json (callbacks ctx.task.req) ctx.parser data with
    | none => exact .undefined _
    | some parser => exact .received easy data ctx parser hctx hfeed

theorem effect_reapFinished (platform : UpstreamPlatform ν) (easy : ℕ) (u : RemoteUpstream ν) :
    Effect platform u (.reapFinished easy) (reapFinished platform easy u) := by
  cases hctx : u.active.lookup easy with
  | none =>
    rw [show reapFinished platform easy u = u by simp only [reapFinished, hctx]]
    exact .stays _
  | some ctx =>
    cases hended : ctx.ended with
    | none =>
      rw [show reapFinished platform easy u = u by simp only [reapFinished, hctx, hended]]
      exact .stays _
    | some e => exact .reaped easy ctx e.1 e.2 hctx hended

theorem effect_step (platform : UpstreamPlatform ν) (event : Event ν) (u : RemoteUpstream ν) :
    Effect platform u event (step platform event u) := by
  have guarded (p : Prop) [Decidable p] (u' : RemoteUpstream ν) (h : p → Effect platform u event u') :
      Effect platform u event (if p then u' else u) := by
    split_ifs with hp
    · exact h hp
    · exact .stays event
  unfold step
  by_cases hstatus : u.status ≠ .running
  · rw [if_pos hstatus]
    exact .stays event
  rw [if_neg hstatus]
  cases event with
  | processChat => exact .submitted _ _
  | handleChat => exact .submitted _ _
  | addTransfer curlOk => exact effect_drainOne platform curlOk u
  | drainQueue => exact guarded _ _ fun htaken => .drained htaken
  | writeCb easy data => exact guarded _ _ fun _ => effect_writeCb platform easy data u
  | endTransfer easy result httpCode => exact guarded _ _ fun _ => .ended easy result httpCode
  | reapFinished easy => exact guarded _ _ fun _ => effect_reapFinished platform easy u

/-- Induction over a run. -/
theorem run_invariant (platform : UpstreamPlatform ν) (P : RemoteUpstream ν → Prop) (h₀ : P {})
    (hstep : ∀ u event u', Effect platform u event u' → P u → P u') (events : List (Event ν)) :
    P (run platform events) :=
  Outcome.run_invariant P h₀ fun u event _ => hstep u event _ (effect_step platform event u)

end RemoteUpstream

end LlmGateway
