import LlmGateway.SubmittedRequests

/-!
# The metrics of requests

A request is counted as active where it is submitted and again where its transfer starts, and it is
counted off by each of its callbacks and again when the transfer is reaped; a success or an error is
counted by the callback and by the reaper too.  `Balanced` states what the counters hold in every state.

`conserved_run_iff`: when every request of a run has been dealt with, the counters have kept to the
requests all along exactly if no transfer was started at all.
-/

namespace LlmGateway

namespace Metrics

/-- The calls of `on_done` among the calls of a parser are those that count. -/
theorem foldl_onCall (calls : List SSECall) (m : Metrics) :
    calls.foldl onCall m =
      { m with
        successCount := m.successCount + calls.count .done
        activeRequests := m.activeRequests - calls.count .done } := by
  induction calls generalizing m with
  | nil => simp
  | cons c calls ih =>
      rw [List.foldl_cons, ih]
      cases c with
      | done =>
        simp only [onCall, onDone, List.count_cons_self, Nat.cast_add, Nat.cast_one]
        congr 1 <;> ring
      | token text => simp [onCall]
      | toolCall callId name arguments => simp [onCall]

end Metrics

namespace RemoteUpstream

variable {ν : Type} {platform : UpstreamPlatform ν}

/-- The callbacks that were called for transfers, and the transfers that were reaped. -/
def settlements (u : RemoteUpstream ν) : ℤ :=
  (u.active.entries.map fun p => (p.2.parser.calls.count .done : ℤ)).sum +
    (u.reaped.map fun t => (t.endings + 1 : ℤ)).sum

/-- What the counters hold. -/
structure Balanced (u : RemoteUpstream ν) : Prop where
  total : u.metrics.totalRequests = u.submitted.length
  settled : u.metrics.successCount + u.metrics.errors =
    u.handled.length - u.easyCount + settlements u
  inFlight : u.metrics.activeRequests =
    u.submitted.length + 2 * u.easyCount - u.handled.length - settlements u

/-- The changes of a step: `s` requests are submitted, `n` handled, `e` of them started, and `w`
callbacks are called and transfers reaped. -/
theorem Balanced.change {u u' : RemoteUpstream ν} (h : Balanced u) {s n e w : ℕ}
    (hsubmitted : u'.submitted.length = u.submitted.length + s)
    (hhandled : u'.handled.length = u.handled.length + n)
    (heasy : u'.easyCount = u.easyCount + e) (hw : settlements u' = settlements u + w)
    (htotal : u'.metrics.totalRequests = u.metrics.totalRequests + s)
    (hsettled : u'.metrics.successCount + u'.metrics.errors =
      u.metrics.successCount + u.metrics.errors + n - e + w)
    (hinFlight : u'.metrics.activeRequests = u.metrics.activeRequests + s + 2 * e - n - w) :
    Balanced u' where
  total := by
    rw [htotal, hsubmitted, h.total, Nat.cast_add]
  settled := by
    rw [hsettled, hw, hhandled, heasy, h.settled, Nat.cast_add, Nat.cast_add]
    ring
  inFlight := by
    rw [hinFlight, hw, hsubmitted, hhandled, heasy, h.inFlight, Nat.cast_add, Nat.cast_add,
      Nat.cast_add]
    ring

/-! ## Settlements -/

/-- The calls of a transfer that goes on, apart from those of the others. -/
theorem sum_active {u : RemoteUpstream ν} {easy : ℕ} {ctx : TransferCtx ν}
    (hctx : u.active.lookup easy = some ctx) :
    (u.active.entries.map fun p => (p.2.parser.calls.count .done : ℤ)).sum =
      ctx.parser.calls.count .done +
        ((u.active.erase easy).entries.map fun p => (p.2.parser.calls.count .done : ℤ)).sum := by
  rw [((AList.entries_perm_cons_erase hctx).map _).sum_eq, List.map_cons, List.sum_cons]

theorem settlements_insert {u u' : RemoteUpstream ν} {easy : ℕ} {ctx ctx' : TransferCtx ν} {n : ℕ}
    (hctx : u.active.lookup easy = some ctx) (hactive : u'.active = u.active.insert easy ctx')
    (hreaped : u'.reaped = u.reaped)
    (hcount : ctx'.parser.calls.count .done = ctx.parser.calls.count .done + n) :
    settlements u' = settlements u + n := by
  unfold settlements
  rw [sum_active hctx, hactive, hreaped, AList.entries_insert, List.map_cons, List.sum_cons, hcount,
    Nat.cast_add]
  change _ + ((u.active.erase easy).entries.map _).sum + _ = _
  ring

theorem settlements_started {u u' : RemoteUpstream ν} {easy : ℕ} {ctx : TransferCtx ν}
    (hfresh : easy ∉ u.active) (hactive : u'.active = u.active.insert easy ctx)
    (hreaped : u'.reaped = u.reaped) (hcalls : ctx.parser.calls = []) :
    settlements u' = settlements u := by
  unfold settlements
  rw [hactive, hreaped, AList.entries_insert_of_notMem hfresh, List.map_cons, List.sum_cons, hcalls,
    List.count_nil, Nat.cast_zero, zero_add]

theorem settlements_ended (easy : ℕ) (result : CurlCode) (httpCode : ℤ) (u : RemoteUpstream ν) :
    settlements (endTransfer easy result httpCode u) = settlements u := by
  have hactive : (endTransfer easy result httpCode u).active.entries.map
      (fun p => (p.2.parser.calls.count .done : ℤ)) =
        u.active.entries.map fun p => (p.2.parser.calls.count .done : ℤ) := by
    simp only [endTransfer, AList.modify, AList.mapVal, List.map_map]
    refine List.map_congr_left fun p _ => ?_
    simp only [Function.comp_apply]
    split_ifs <;> rfl
  rw [settlements, hactive]
  rfl

theorem settlements_reaped (platform : UpstreamPlatform ν) {u : RemoteUpstream ν} {easy : ℕ} {ctx : TransferCtx ν}
    {result : CurlCode} {httpCode : ℤ} (hctx : u.active.lookup easy = some ctx)
    (hended : ctx.ended = some (result, httpCode)) :
    settlements (reapFinished platform easy u) =
      settlements u + (1 + (transferError platform result httpCode).toList.length : ℕ) := by
  unfold reapFinished settlements
  simp only [hctx, hended]
  rw [sum_active hctx, List.map_append, List.sum_append, List.map_singleton, List.sum_singleton,
    ReapedTransfer.endings, Nat.cast_add, Nat.cast_add, Nat.cast_one]
  ring

/-- A transfer that is reaped moves the counters once, and once more if it failed. -/
theorem metrics_reaped (platform : UpstreamPlatform ν) {u : RemoteUpstream ν} {easy : ℕ}
    {ctx : TransferCtx ν} {result : CurlCode} {httpCode : ℤ} (hctx : u.active.lookup easy = some ctx)
    (hended : ctx.ended = some (result, httpCode)) :
    let m := (reapFinished platform easy u).metrics
    let w : ℕ := 1 + (transferError platform result httpCode).toList.length
    m.totalRequests = u.metrics.totalRequests ∧
      m.successCount + m.errors = u.metrics.successCount + u.metrics.errors + w ∧
      m.activeRequests = u.metrics.activeRequests - w := by
  unfold reapFinished
  simp only [hctx, hended]
  cases transferError platform result httpCode with
  | none => refine ⟨rfl, ?_, ?_⟩ <;> simp; ring
  | some err => refine ⟨rfl, ?_, ?_⟩ <;> simp [Metrics.onError] <;> ring

/-! ## Steps -/

theorem Balanced.received {u : RemoteUpstream ν} (h : Balanced u) {easy : ℕ} {data : Str}
    {ctx : TransferCtx ν} {parser : SSEParser} (hctx : u.active.lookup easy = some ctx)
    (hfeed : SSEParser.feed platform.json (callbacks ctx.task.req) ctx.parser data = some parser) :
    Balanced
      { u with
        metrics := (parser.calls.drop ctx.parser.calls.length).foldl Metrics.onCall u.metrics
        active := u.active.insert easy { ctx with parser, received := ctx.received ++ data } } := by
  obtain ⟨new, hcalls, -⟩ := SSEParser.feed_adds platform.json _ hfeed
  have hnew : parser.calls.drop ctx.parser.calls.length = new := by
    rw [hcalls, List.drop_left]
  have hcount : parser.calls.count .done = ctx.parser.calls.count .done + new.count .done := by
    rw [hcalls, List.count_append]
  rw [hnew, Metrics.foldl_onCall]
  refine h.change (s := 0) (n := 0) (e := 0) rfl rfl rfl
    (settlements_insert hctx rfl rfl hcount) ?_ ?_ ?_ <;> push_cast <;> ring

theorem Balanced.effect {u u' : RemoteUpstream ν} {event : Event ν}
    (he : Effect platform u event u') (hone : OneTransferEach u) (h : Balanced u) : Balanced u' := by
  cases he with
  | stays => exact h
  | drained => exact ⟨h.total, h.settled, h.inFlight⟩
  | terminated => exact ⟨h.total, h.settled, h.inFlight⟩
  | undefined => exact ⟨h.total, h.settled, h.inFlight⟩
  | submitted event task =>
    refine h.change (s := 1) (n := 0) (e := 0) (w := 0) (List.length_append ..) rfl rfl
      (by rw [Nat.cast_zero, add_zero]; rfl) rfl ?_ ?_ <;> simp [submitChat, submit]
  | failed task rest =>
    refine h.change (s := 0) (n := 1) (e := 0) (w := 0) rfl (List.length_append ..) rfl
      (by rw [Nat.cast_zero, add_zero]; rfl) ?_ ?_ ?_ <;> simp [Metrics.onError]; ring
  | started task rest htaken hstart text =>
    have hfresh : u.easyCount ∉ u.active := fun hmem => Nat.lt_irrefl _ (hone.handles _ hmem)
    refine h.change (s := 0) (n := 1) (e := 1) (w := 0) rfl (List.length_append ..) rfl
      ?_ ?_ ?_ ?_
    · rw [Nat.cast_zero, add_zero]
      have hcalls : ({ task, body := text, hdrs := headers task.apiKey } :
          TransferCtx ν).parser.calls = [] := rfl
      exact settlements_started hfresh rfl rfl hcalls
    all_goals push_cast; ring
  | received easy data ctx parser hctx hfeed => exact h.received hctx hfeed
  | ended easy result httpCode =>
    refine h.change (s := 0) (n := 0) (e := 0) (w := 0) rfl rfl rfl ?_ ?_ ?_ ?_
    · rw [Nat.cast_zero, add_zero, settlements_ended]
    all_goals simp [endTransfer]
  | reaped easy ctx result httpCode hctx hended =>
    obtain ⟨htotal, hsettled, hinFlight⟩ := metrics_reaped platform hctx hended
    have hu : ∃ m active reaped,
        reapFinished platform easy u = { u with metrics := m, active, reaped } := by
      unfold reapFinished
      simp only [hctx, hended]
      exact ⟨_, _, _, rfl⟩
    obtain ⟨m, active, reaped, hu⟩ := hu
    refine h.change (s := 0) (n := 0) (e := 0) (by rw [hu]; rfl) (by rw [hu]; rfl) (by rw [hu]; rfl)
      (settlements_reaped platform hctx hended) ?_ ?_ ?_
    · rw [htotal]
      simp
    · rw [hsettled]
      simp
    · rw [hinFlight]
      simp

theorem balanced_run (platform : UpstreamPlatform ν) (events : List (Event ν)) :
    Balanced (run platform events) :=
  (run_invariant platform (fun u => OneTransferEach u ∧ Balanced u)
    ⟨⟨List.Perm.refl _, nofun, rfl⟩, rfl, rfl, rfl⟩
    (fun _ _ _ he h => ⟨h.1.effect he, h.2.effect he h.1⟩) events).2

/-- The requests handled and those in the queues are among those submitted; while the I/O thread runs
they are all of them. -/
structure Queued (u : RemoteUpstream ν) : Prop where
  le : u.handled.length + u.taken.length + u.pending.length ≤ u.submitted.length
  eq : u.status = .running →
    u.handled.length + u.taken.length + u.pending.length = u.submitted.length

theorem Queued.effect {u u' : RemoteUpstream ν} {event : Event ν}
    (he : Effect platform u event u') (h : Queued u) : Queued u' := by
  have hle := h.le
  have heq := h.eq
  cases he with
  | submitted event task =>
    refine ⟨?_, fun hstatus => ?_⟩
    · simp only [submitChat, submit, List.length_append]
      omega
    · have heq := heq hstatus
      simp only [submitChat, submit, List.length_append]
      omega
  | drained htaken =>
    rw [htaken, List.length_nil, Nat.add_zero] at hle heq
    exact ⟨hle, heq⟩
  | failed task rest htaken | started task rest htaken =>
    rw [htaken, List.length_cons] at hle heq
    refine ⟨?_, fun hstatus => ?_⟩
    · simp only [List.length_append, List.length_singleton]
      omega
    · have heq := heq hstatus
      simp only [List.length_append, List.length_singleton]
      omega
  | terminated curlOk task rest htaken =>
    rw [htaken, List.length_cons] at hle
    exact ⟨by dsimp only; omega, fun hstatus => by cases hstatus⟩
  | undefined => exact ⟨hle, fun hstatus => by cases hstatus⟩
  | reaped easy ctx result httpCode hctx hended =>
    simp only [reapFinished, hctx, hended]
    exact ⟨hle, heq⟩
  | _ => exact ⟨hle, heq⟩

theorem queued_run (platform : UpstreamPlatform ν) (events : List (Event ν)) :
    Queued (run platform events) :=
  run_invariant platform Queued ⟨Nat.le_refl _, fun _ => rfl⟩ (fun _ _ _ he h => h.effect he) events

/-! ## Conservation -/

/-- No request is in flight. -/
def Idle (u : RemoteUpstream ν) : Prop :=
  u.status = .running ∧ u.pending = [] ∧ u.taken = [] ∧ u.active.keys = []

instance (u : RemoteUpstream ν) [DecidableEq ν] : Decidable (Idle u) :=
  inferInstanceAs (Decidable (_ ∧ _ ∧ _ ∧ _))

/-- The counter of active requests has not wrapped, and where no request is in flight it is zero and
every request is a success or an error. -/
def Conserved (u : RemoteUpstream ν) : Prop :=
  0 ≤ u.metrics.activeRequests ∧
    (Idle u → u.metrics.activeRequests = 0 ∧
      u.metrics.successCount + u.metrics.errors = u.metrics.totalRequests)

theorem OneTransferEach.length_eq {u : RemoteUpstream ν} (h : OneTransferEach u) :
    u.active.entries.length + u.reaped.length = u.easyCount := by
  have hlength := h.tasks.length_eq
  rw [h.count, transferTasks, List.length_append, List.length_map, List.length_map] at hlength
  exact hlength

/-- Where all transfers have been reaped each of them has been counted off at least once. -/
theorem le_settlements {u : RemoteUpstream ν} (hone : OneTransferEach u) (h : u.active.entries = []) :
    (u.easyCount : ℤ) ≤ settlements u := by
  have hreaped : (u.reaped.length : ℤ) ≤ (u.reaped.map fun t => (t.endings + 1 : ℤ)).sum := by
    induction u.reaped with
    | nil => exact le_refl _
    | cons t ts ih =>
        rw [List.map_cons, List.sum_cons, List.length_cons, Nat.cast_succ]
        linarith [Int.natCast_nonneg t.endings]
  have hlength := hone.length_eq
  rw [h, List.length_nil, Nat.zero_add] at hlength
  rw [settlements, h, List.map_nil, List.sum_nil, zero_add, ← hlength]
  exact hreaped

theorem settlements_eq_zero {u : RemoteUpstream ν} (hone : OneTransferEach u)
    (h : u.easyCount = 0) : settlements u = 0 := by
  have hlength := hone.length_eq
  rw [h, Nat.add_eq_zero_iff, List.length_eq_zero_iff, List.length_eq_zero_iff] at hlength
  rw [settlements, hlength.1, hlength.2]
  rfl

/-- As long as no transfer is started the counters keep to the requests. -/
theorem conserved_of_easyCount {u : RemoteUpstream ν} (hone : OneTransferEach u) (hqueued : Queued u)
    (h : Balanced u) (hzero : u.easyCount = 0) : Conserved u := by
  have hsettled := h.settled
  have hinFlight := h.inFlight
  rw [settlements_eq_zero hone hzero, hzero] at hsettled hinFlight
  have hle := hqueued.le
  refine ⟨by omega, fun ⟨hstatus, hpending, htaken, _⟩ => ?_⟩
  have heq := hqueued.eq hstatus
  rw [hpending, htaken, List.length_nil] at heq
  rw [h.total]
  omega

/-- Where no request is in flight, and the counters show it, no transfer was ever started. -/
theorem easyCount_eq_zero_of_conserved {u : RemoteUpstream ν} (hone : OneTransferEach u)
    (hqueued : Queued u) (h : Balanced u) (hidle : Idle u) (hconserved : Conserved u) :
    u.easyCount = 0 := by
  obtain ⟨hactive, hsum⟩ := hconserved.2 hidle
  obtain ⟨hstatus, hpending, htaken, hkeys⟩ := hidle
  have hle := le_settlements hone (List.map_eq_nil_iff.1 hkeys)
  have heq := hqueued.eq hstatus
  rw [hpending, htaken, List.length_nil] at heq
  have hsettled := h.settled
  have hinFlight := h.inFlight
  rw [hactive] at hinFlight
  rw [hsum, h.total] at hsettled
  omega

/-- The step starts a transfer. -/
def StartsTransfer (platform : UpstreamPlatform ν) (u : RemoteUpstream ν) (event : Event ν) : Prop :=
  event = .addTransfer true ∧ u.status = .running ∧
    ∃ task rest, u.taken = task :: rest ∧ Startable platform.json true task.req

theorem easyCount_step_eq {u : RemoteUpstream ν} {event : Event ν}
    (h : StartsTransfer platform u event) :
    (step platform event u).easyCount = u.easyCount + 1 := by
  obtain ⟨rfl, hstatus, task, rest, htaken, body, hbody, hdump⟩ := h
  obtain ⟨text, htext⟩ := Option.isSome_iff_exists.1 (hdump rfl)
  rw [step, if_neg (not_not_intro hstatus)]
  simp only [drainOne, htaken, addTransfer, hbody, htext]
  rfl

/-- Only the step that starts a transfer makes a handle. -/
theorem easyCount_step_of_not {u : RemoteUpstream ν} {event : Event ν}
    (h : ¬ StartsTransfer platform u event) : (step platform event u).easyCount = u.easyCount := by
  by_cases hstatus : u.status = .running
  · have heffect := effect_step platform event u
    generalize step platform event u = u' at heffect
    cases heffect with
    | started task rest htaken hstart => exact absurd ⟨rfl, hstatus, task, rest, htaken, hstart⟩ h
    | reaped easy ctx result httpCode hctx hended => simp only [reapFinished, hctx, hended]
    | _ => rfl
  · rw [step_of_not_running hstatus]

theorem easyCount_le_step (u : RemoteUpstream ν) (event : Event ν) :
    u.easyCount ≤ (step platform event u).easyCount := by
  by_cases h : StartsTransfer platform u event
  · rw [easyCount_step_eq h]
    exact Nat.le_succ _
  · rw [easyCount_step_of_not h]

theorem easyCount_le_run (platform : UpstreamPlatform ν) {pre events : List (Event ν)}
    (hpre : pre <+: events) : (run platform pre).easyCount ≤ (run platform events).easyCount := by
  obtain ⟨post, rfl⟩ := hpre
  have happend : run platform (pre ++ post) =
      Outcome.run (fun event u => .ok (step platform event u)) (run platform pre) post :=
    Outcome.run_append _ pre post
  rw [happend]
  refine Outcome.run_invariant (fun u : RemoteUpstream ν => (run platform pre).easyCount ≤ u.easyCount)
    (Nat.le_refl _) fun u event _ h => ?_
  exact Nat.le_trans h (easyCount_le_step u event)

/-- For a run after which no request is in flight: the counters have kept to the requests all along
exactly if no step of it has started a transfer. -/
theorem conserved_run_iff (platform : UpstreamPlatform ν) (events : List (Event ν))
    (hidle : Idle (run platform events)) :
    (∀ pre, pre <+: events → Conserved (run platform pre)) ↔
      ∀ pre event post, events = pre ++ event :: post →
        ¬ StartsTransfer platform (run platform pre) event := by
  have hone := oneTransferEach_run platform
  have hqueued := queued_run platform
  have hbalanced := balanced_run platform
  have hcount : (∀ pre, pre <+: events → (run platform pre).easyCount = 0) ↔
      ∀ pre event post, events = pre ++ event :: post →
        ¬ StartsTransfer platform (run platform pre) event := by
    refine Outcome.run_holds_iff (I := fun u : RemoteUpstream ν => u.easyCount = 0)
      (C := fun u event => ¬ StartsTransfer platform u event) (fun _ h => h) rfl ?_ ?_
    · exact fun u event _ h hnot => (easyCount_step_of_not hnot).trans h
    · intro u event _ _ hafter hstarts
      rw [Outcome.ok_state, easyCount_step_eq hstarts] at hafter
      cases hafter
  rw [← hcount]
  constructor
  · intro h pre hpre
    have hend := easyCount_eq_zero_of_conserved (hone events) (hqueued events) (hbalanced events)
      hidle (h events (List.prefix_refl events))
    exact Nat.eq_zero_of_le_zero (hend ▸ easyCount_le_run platform hpre)
  · exact fun h pre hpre =>
      conserved_of_easyCount (hone pre) (hqueued pre) (hbalanced pre) (h pre hpre)

/-- A request for which `curl_easy_init` fails. -/
def refused : List (Event ℚ) := [hiRequest, .drainQueue, .addTransfer false]

theorem conserved_run_iff_refused :
    (∀ pre, pre <+: refused → Conserved (run chatUpstream pre)) ↔
      ∀ pre event post, refused = pre ++ event :: post →
        ¬ StartsTransfer chatUpstream (run chatUpstream pre) event :=
  conserved_run_iff chatUpstream refused (by decide +kernel)

/-- One request that the backend answers with `[DONE]` is counted as two successes; with the end of a
turn with tool calls before it, the active requests fall below zero. -/
theorem answered_counts :
    let m := (answered (str "data: [DONE]\n")).metrics
    let m' := (answered (str "data: " ++ toolCallsTurn ++ str "\ndata: [DONE]\n")).metrics
    Idle (answered (str "data: [DONE]\n")) ∧ m.totalRequests = 1 ∧ m.successCount + m.errors = 2 ∧
      m'.activeRequests = -1 := by
  decide +kernel

end RemoteUpstream

end LlmGateway
