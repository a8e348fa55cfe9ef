import LlmGateway.ChatCancel

/-!
# What a client of a chat receives

A callback of a chat hands its message over to the event loop, which sends it in a later task.  The I/O thread
does its work in one order, and the loop runs its tasks and handles other messages in between.

`received_chats`: if a request is not cancelled, this makes no difference to its client, who receives the
messages of the callbacks in their order, each once.  If the connection is closed on the way, they receive the
first of them.
-/

namespace LlmGateway

/-! ## The work of the I/O thread -/

/-- A callback of a chat, with what the plugins make of a token. -/
inductive ChatCallback where
  | onToken (processed : Option Str)
  | onDone
  | onError (err : Str)
  deriving DecidableEq

namespace ChatCallback

/-- What the client is told. -/
def message (requestId : Str) : ChatCallback → Option ChatMessage
  | onToken none => none
  | onToken (some content) => if content = [] then none else some (.token requestId content)
  | onDone => some (.done requestId)
  | onError err => some (.error requestId err)

end ChatCallback

namespace ChatMessage

/-- The request that a message is about. -/
def requestId : ChatMessage → Str
  | token requestId _ => requestId
  | done requestId => requestId
  | error requestId _ => requestId
  | cancelled requestId => requestId

end ChatMessage

namespace IoThread

/-- After the next part of the callback. -/
def next : IoThread → IoThread
  | idle => idle
  | inToken _ => idle
  | inDone requestId => erasing requestId
  | inError requestId _ => erasing requestId
  | erasing _ => idle

/-- The task that the next part queues. -/
def queued (processed : Option Str) : IoThread → List LoopTask
  | idle => []
  | inToken requestId =>
    match processed with
    | none => []
    | some content => if content = [] then [] else [.send (.token requestId content)]
  | inDone requestId => [.send (.done requestId)]
  | inError requestId err => [.send (.error requestId err)]
  | erasing requestId => [.erase requestId]

/-- The tasks that the parts still to come queue. -/
def toQueue : IoThread → List (Option Str) → List LoopTask
  | _, [] => []
  | io, processed :: parts => io.queued processed ++ io.next.toQueue parts

/-- The parts are enough for the callback. -/
def Ends (io : IoThread) (parts : List (Option Str)) : Prop :=
  parts.foldl (fun io _ => io.next) io = idle

end IoThread

namespace ChatConnection

theorem resume_eq (processed : Option Str) (g : ChatConnection) :
    resume processed g = { g with io := g.io.next, queue := g.queue ++ g.io.queued processed } := by
  unfold resume
  cases hio : g.io with
  | idle => simp [IoThread.next, IoThread.queued, ← hio]
  | inToken requestId =>
    cases processed with
    | none => simp [IoThread.next, IoThread.queued]
    | some content =>
      by_cases hcontent : content = []
      · simp [IoThread.next, IoThread.queued, hcontent]
      · simp [IoThread.next, IoThread.queued, hcontent, wsSend]
  | inDone requestId => rfl
  | inError requestId err => rfl
  | erasing requestId => rfl

/-- What the I/O thread does: it calls a callback, or takes a transfer away. -/
inductive IoWork where
  | call (chat : ℕ) (callback : ChatCallback)
  | reap (chat : ℕ)
  deriving DecidableEq

namespace IoWork

/-- The first step of a callback, and what the parts after it are given. -/
def callSteps (chat : ℕ) : ChatCallback → Event × List (Option Str)
  | .onToken processed => (.onToken chat, [processed])
  | .onDone => (.onDone chat, [none, none])
  | .onError err => (.onError chat err, [none, none])

/-- The events of a piece of work. -/
def steps : IoWork → List Event
  | call chat callback => (callSteps chat callback).1 :: (callSteps chat callback).2.map .resume
  | reap chat => [.reap chat]

end IoWork

/-- A step of the I/O thread. -/
def Event.isIo : Event → Bool
  | .onToken _ | .onDone _ | .onError _ _ | .resume _ | .reap _ => true
  | .chat _ | .cancel _ | .close | .runTask => false

/-- The chat is submitted, and its transfer is going on. -/
def Going (g : ChatConnection) (chat : ℕ) : Prop := ∃ c, g.chats[chat]? = some c ∧ c.reaped = false

/-- The upstream calls callbacks only while the transfer is going on. -/
def Callable (g : ChatConnection) : Event → Prop
  | .onToken chat => g.Going chat
  | .onDone chat => g.Going chat
  | .onError chat _ => g.Going chat
  | _ => True

/-- Each callback finds the I/O thread free for it. -/
def AllCallable : ChatConnection → List Event → Prop
  | _, [] => True
  | g, event :: events => g.Callable event ∧ AllCallable (step g event) events

/-! ## Messages of a request -/

/-- The messages about a request in tasks of the queue. -/
def messagesIn (requestId : Str) (tasks : List LoopTask) : List ChatMessage :=
  tasks.filterMap fun
    | .send msg => if msg.requestId = requestId then some msg else none
    | .erase _ => none

/-- The messages about a request that the client has received. -/
def received (requestId : Str) (g : ChatConnection) : List ChatMessage :=
  g.sent.filter fun msg => msg.requestId = requestId

/-- The messages of work for a request, where `ids` are the identifiers of the chats. -/
def IoWork.messages (requestId : Str) (ids : ℕ → Option Str) : IoWork → List ChatMessage
  | .call chat callback => if ids chat = some requestId then (callback.message requestId).toList else []
  | .reap _ => []

/-- The identifiers of the chats. -/
def ids (g : ChatConnection) (chat : ℕ) : Option Str := (g.chats[chat]?).map SubmittedChat.requestId

variable {requestId : Str} {g : ChatConnection}

theorem messagesIn_append (tasks tasks' : List LoopTask) :
    messagesIn requestId (tasks ++ tasks') = messagesIn requestId tasks ++ messagesIn requestId tasks' :=
  List.filterMap_append

/-- The parts of a callback of an uncancelled chat are enough for it, and queue its message. -/
theorem callSteps_spec (callback : ChatCallback) (hio : g.io = .idle) {chat : ℕ} {c : SubmittedChat}
    (hc : g.chats[chat]? = some c) (hreaped : c.reaped = false)
    (hflag : c.requestId = requestId → c.cancelFlag = false) :
    ∃ io, step g (IoWork.callSteps chat callback).1 = { g with io } ∧
      io.Ends (IoWork.callSteps chat callback).2 ∧
      messagesIn requestId (io.toQueue (IoWork.callSteps chat callback).2) =
        if c.requestId = requestId then (callback.message requestId).toList else [] := by
  have hbegins (f : SubmittedChat → IoThread) :
      ChatConnection.callback chat f g = { g with io := f c } := by
    simp [ChatConnection.callback, hc, hio, hreaped]
  cases callback with
  | onToken processed =>
    refine ⟨_, hbegins _, ?_⟩
    by_cases hid : c.requestId = requestId
    · subst hid
      rw [if_neg (by simp [hflag rfl]), if_pos rfl]
      refine ⟨rfl, ?_⟩
      cases processed with
      | none => rfl
      | some content =>
        by_cases hcontent : content = []
        · simp [IoThread.toQueue, IoThread.queued, IoWork.callSteps, ChatCallback.message, messagesIn, hcontent]
        · simp [IoThread.toQueue, IoThread.queued, IoWork.callSteps, ChatCallback.message, messagesIn, hcontent,
            ChatMessage.requestId]
    · rw [if_neg hid]
      split_ifs
      · exact ⟨rfl, rfl⟩
      · refine ⟨rfl, ?_⟩
        cases processed with
        | none => rfl
        | some content =>
          by_cases hcontent : content = []
          · simp [IoThread.toQueue, IoThread.queued, IoWork.callSteps, messagesIn, hcontent]
          · simp [IoThread.toQueue, IoThread.queued, IoWork.callSteps, messagesIn, hcontent,
              ChatMessage.requestId, hid]
  | onDone =>
    refine ⟨_, hbegins _, rfl, ?_⟩
    by_cases hid : c.requestId = requestId
    · simp [IoThread.toQueue, IoThread.queued, IoThread.next, IoWork.callSteps, ChatCallback.message,
        messagesIn, ChatMessage.requestId, hid]
    · simp [IoThread.toQueue, IoThread.queued, IoThread.next, IoWork.callSteps, messagesIn,
        ChatMessage.requestId, hid]
  | onError err =>
    refine ⟨_, hbegins _, ?_⟩
    by_cases hid : c.requestId = requestId
    · simp [IoThread.toQueue, IoThread.queued, IoThread.next, IoWork.callSteps, ChatCallback.message,
        messagesIn, ChatMessage.requestId, IoThread.Ends, hid, hflag hid]
    · split_ifs
      · exact ⟨rfl, rfl⟩
      · refine ⟨rfl, ?_⟩
        simp [IoThread.toQueue, IoThread.queued, IoThread.next, IoWork.callSteps, messagesIn,
          ChatMessage.requestId, hid]

/-! ## A request that is not cancelled -/

/-- No chat of the request is cancelled, and `active_requests` leads to chats of the identifier. -/
structure Uncancelled (requestId : Str) (g : ChatConnection) : Prop where
  flags : ∀ c ∈ g.chats, c.requestId = requestId → c.cancelFlag = false
  active : ∀ other chat, g.activeRequests.lookup other = some chat → g.ids chat = some other

theorem uncancelled_empty : Uncancelled requestId {} :=
  ⟨fun _ hc => absurd hc List.not_mem_nil, fun _ _ hlookup => by cases hlookup⟩

/-- Changing a chat leaves the identifiers as they are. -/
theorem ids_modify {f : SubmittedChat → SubmittedChat} (hf : ∀ c, (f c).requestId = c.requestId)
    (chats : List SubmittedChat) (i chat : ℕ) :
    ((chats.modify i f)[chat]?).map SubmittedChat.requestId =
      (chats[chat]?).map SubmittedChat.requestId := by
  rw [List.getElem?_modify, Option.map_eq_map, Option.map_map]
  refine Option.map_congr fun c _ => ?_
  rw [Function.comp_apply]
  split_ifs
  · exact hf c
  · rfl

theorem Uncancelled.with_io (h : Uncancelled requestId g) (io : IoThread) (queue : List LoopTask) :
    Uncancelled requestId { g with io, queue } :=
  ⟨h.flags, h.active⟩

theorem Uncancelled.processChat (h : Uncancelled requestId g) (other : Str) :
    Uncancelled requestId (processChat other g) := by
  refine ⟨fun c hc hid => ?_, fun other' chat hlookup => ?_⟩
  · rcases List.mem_append.1 hc with hc | hc
    · exact h.flags c hc hid
    · rw [List.mem_singleton.1 hc]
  · change (g.activeRequests.insert other g.chats.length).lookup other' = some chat at hlookup
    change ((g.chats ++ [{ requestId := other }])[chat]?).map SubmittedChat.requestId = some other'
    by_cases hother : other' = other
    · subst hother
      rw [AList.lookup_insert, Option.some_inj] at hlookup
      rw [← hlookup, List.getElem?_concat_length]
      rfl
    · rw [AList.lookup_insert_ne hother] at hlookup
      obtain ⟨c, hc, hid⟩ := Option.map_eq_some_iff.1 (h.active other' chat hlookup)
      rw [List.getElem?_append_left (List.getElem?_eq_some_iff.1 hc).1, hc, Option.map_some, hid]

/-- A cancel for another identifier changes a chat of that identifier. -/
theorem Uncancelled.cancel (h : Uncancelled requestId g) {other : Str} (hother : other ≠ requestId) :
    Uncancelled requestId (cancel other g) := by
  unfold ChatConnection.cancel
  split
  · exact h
  · next i hi =>
    refine ⟨fun c hc hid => ?_, fun other' chat hlookup => ?_⟩
    · obtain ⟨j, hj⟩ := List.mem_iff_getElem?.1 hc
      rw [List.getElem?_modify] at hj
      obtain ⟨c', hc', rfl⟩ := Option.map_eq_some_iff.1 hj
      split_ifs at hid ⊢ with hij
      · obtain ⟨c'', hc'', hid''⟩ := Option.map_eq_some_iff.1 (h.active other i hi)
        rw [hij, hc', Option.some_inj] at hc''
        subst hc''
        exact absurd (hid''.symm.trans hid) hother
      · exact h.flags c' (List.mem_of_getElem? hc') hid
    · exact (ids_modify (f := SubmittedChat.cancel) (fun _ => rfl) g.chats i chat).trans (h.active other' chat hlookup)

theorem Uncancelled.runTask (h : Uncancelled requestId g) : Uncancelled requestId (runTask g) := by
  unfold ChatConnection.runTask
  split
  · exact h
  · exact ⟨h.flags, h.active⟩
  · next other queue _ =>
    refine ⟨h.flags, fun other' chat hlookup => h.active other' chat ?_⟩
    change (g.activeRequests.erase other).lookup other' = some chat at hlookup
    by_cases hother : other' = other
    · rw [hother, AList.lookup_erase] at hlookup
      cases hlookup
    · rwa [AList.lookup_erase_ne hother] at hlookup

theorem Uncancelled.reap (h : Uncancelled requestId g) (chat : ℕ) : Uncancelled requestId (reap chat g) := by
  unfold ChatConnection.reap
  split_ifs
  · refine ⟨forall_mem_modify (fun _ hc hid => hc hid) h.flags chat, fun other i hlookup => ?_⟩
    exact (ids_modify (f := fun c => { c with reaped := true }) (fun _ => rfl) g.chats chat i).trans
      (h.active other i hlookup)
  · exact h

/-! ## Runs -/

@[simp]
theorem run_cons (g : ChatConnection) (event : Event) (events : List Event) :
    run g (event :: events) = run (step g event) events := rfl

/-- A callback that begins changes where the I/O thread is. -/
theorem exists_callback (chat : ℕ) (f : SubmittedChat → IoThread) (g : ChatConnection) :
    ∃ io, callback chat f g = { g with io } := by
  unfold callback
  split
  · exact ⟨g.io, rfl⟩
  · split_ifs
    · exact ⟨_, rfl⟩
    · exact ⟨g.io, rfl⟩

/-- Chats keep their identifiers. -/
theorem ids_step {chat : ℕ} {id : Str} (h : g.ids chat = some id) (event : Event) :
    (step g event).ids chat = some id := by
  cases event with
  | chat other =>
    rw [step]
    split_ifs
    · obtain ⟨c, hc, hid⟩ := Option.map_eq_some_iff.1 h
      change ((g.chats ++ [{ requestId := other }])[chat]?).map SubmittedChat.requestId = some id
      rw [List.getElem?_append_left (List.getElem?_eq_some_iff.1 hc).1, hc, Option.map_some, hid]
    · exact h
  | cancel other =>
    rw [step]
    split_ifs
    · unfold ChatConnection.cancel
      split
      · exact h
      · exact (ids_modify (f := SubmittedChat.cancel) (fun _ => rfl) g.chats _ chat).trans h
    · exact h
  | close =>
    rw [step]
    split_ifs
    · unfold ids handleConnectionClosed
      rw [List.getElem?_mapIdx, Option.map_map]
      refine Eq.trans (Option.map_congr fun c _ => ?_) h
      rw [Function.comp_apply]
      split_ifs
      · rfl
      · rfl
    · exact h
  | runTask =>
    rw [step, runTask]
    split
    · exact h
    · exact h
    · exact h
  | onToken i =>
    obtain ⟨io, hio⟩ := exists_callback i _ g
    exact (congrArg (ids · chat) hio).trans h
  | onDone i =>
    obtain ⟨io, hio⟩ := exists_callback i _ g
    exact (congrArg (ids · chat) hio).trans h
  | onError i err =>
    obtain ⟨io, hio⟩ := exists_callback i _ g
    exact (congrArg (ids · chat) hio).trans h
  | resume processed =>
    rw [step, resume_eq]
    exact h
  | reap i =>
    rw [step, reap]
    split_ifs
    · exact (ids_modify (f := fun c => { c with reaped := true }) (fun _ => rfl) g.chats i chat).trans h
    · exact h

theorem ids_run {chat : ℕ} {id : Str} (events : List Event) (h : g.ids chat = some id) :
    (run g events).ids chat = some id := by
  induction events generalizing g with
  | nil => exact h
  | cons event events ih => exact ih (ids_step h event)

/-- A closed connection is sent nothing. -/
theorem sent_run_of_closed (hclosed : g.connected = false) (events : List Event) :
    (run g events).sent = g.sent ∧ (run g events).connected = false := by
  induction events generalizing g with
  | nil => exact ⟨rfl, hclosed⟩
  | cons event events ih =>
    have hstep : (step g event).sent = g.sent ∧ (step g event).connected = false := by
      cases event with
      | chat other => simp [step, hclosed]
      | cancel other => simp [step, hclosed]
      | close => simp [step, hclosed]
      | runTask =>
        rw [step, runTask]
        split
        · exact ⟨rfl, hclosed⟩
        · exact ⟨by simp [hclosed], hclosed⟩
        · exact ⟨rfl, hclosed⟩
      | onToken i =>
        obtain ⟨io, hio⟩ : ∃ io, step g (.onToken i) = { g with io } := exists_callback i _ g
        rw [hio]
        exact ⟨rfl, hclosed⟩
      | onDone i =>
        obtain ⟨io, hio⟩ : ∃ io, step g (.onDone i) = { g with io } := exists_callback i _ g
        rw [hio]
        exact ⟨rfl, hclosed⟩
      | onError i err =>
        obtain ⟨io, hio⟩ : ∃ io, step g (.onError i err) = { g with io } := exists_callback i _ g
        rw [hio]
        exact ⟨rfl, hclosed⟩
      | resume processed =>
        rw [step, resume_eq]
        exact ⟨rfl, hclosed⟩
      | reap i =>
        rw [step, reap]
        split_ifs
        · exact ⟨rfl, hclosed⟩
        · exact ⟨rfl, hclosed⟩
    rw [run_cons]
    exact ⟨(ih hstep.2).1.trans hstep.1, (ih hstep.2).2⟩

/-! ## What is received -/

/-- The loop sends the next message of the queue. -/
theorem received_runTask (hconnected : g.connected = true) :
    received requestId (runTask g) ++ messagesIn requestId (runTask g).queue =
      received requestId g ++ messagesIn requestId g.queue := by
  unfold runTask
  split
  · rfl
  · next msg queue hqueue =>
    rw [hqueue, if_pos hconnected]
    by_cases hmsg : msg.requestId = requestId
    · simp [received, messagesIn, hmsg]
    · simp [received, messagesIn, hmsg]
  · next other queue hqueue =>
    rw [hqueue]
    rfl

/-- The answer to a cancel of another request is no message of this one. -/
theorem cancel_other {other : Str} (hother : other ≠ requestId) :
    (cancel other g).queue = g.queue ∧ (cancel other g).io = g.io ∧
      (cancel other g).connected = g.connected ∧
      received requestId (cancel other g) = received requestId g := by
  unfold cancel
  split
  · exact ⟨rfl, rfl, rfl, rfl⟩
  · refine ⟨rfl, rfl, rfl, ?_⟩
    simp [received, ChatMessage.requestId, hother]

/-- What has come, what is under way and what the I/O thread has still to do are one sequence all along. -/
theorem received_run {events : List Event} {parts : List (Option Str)} {work : List IoWork}
    {ids : ℕ → Option Str} (hconnected : g.connected = true) (huncancelled : Uncancelled requestId g)
    (hends : g.io.Ends parts)
    (hwork : events.filter Event.isIo <+: parts.map .resume ++ work.flatMap IoWork.steps)
    (hcallable : AllCallable g events) (hcancel : .cancel requestId ∉ events)
    (hids : ∀ chat id, (run g events).ids chat = some id → ids chat = some id) :
    ∃ rest, received requestId (run g events) ++ rest =
        received requestId g ++ messagesIn requestId g.queue ++
          (messagesIn requestId (g.io.toQueue parts) ++ work.flatMap (IoWork.messages requestId ids)) ∧
      ((run g events).connected = true →
        events.filter Event.isIo = parts.map .resume ++ work.flatMap IoWork.steps →
        rest = messagesIn requestId (run g events).queue) := by
  induction events generalizing g parts work with
  | nil =>
    refine ⟨_, (List.append_assoc _ _ _).symm, fun _ hdone => ?_⟩
    obtain ⟨hparts, hwork⟩ := List.append_eq_nil_iff.1 hdone.symm
    rw [List.map_eq_nil_iff.1 hparts]
    cases work with
    | nil => exact List.append_nil _
    | cons w work =>
      cases w with
      | call chat callback => cases hwork
      | reap chat => cases hwork
  | cons event events ih =>
    rw [List.mem_cons, not_or] at hcancel
    obtain ⟨hcall, hcallable⟩ := hcallable
    rw [run_cons] at hids ⊢
    by_cases hisIo : event.isIo = true
    · rw [List.filter_cons_of_pos hisIo] at hwork ⊢
      cases parts with
      | cons processed parts =>
        -- the next part of the callback queues its task
        obtain ⟨rfl, hprogram⟩ := List.cons_prefix_cons.1 hwork
        have hstep : step g (.resume processed) = _ := resume_eq processed g
        have hconnected' : (step g (.resume processed)).connected = true := by rwa [hstep]
        have huncancelled' : Uncancelled requestId (step g (.resume processed)) := by
          rw [hstep]
          exact huncancelled.with_io _ _
        have hends' : (step g (.resume processed)).io.Ends parts := by
          rw [hstep]
          exact hends
        obtain ⟨rest, hrest, hdone⟩ := ih hconnected' huncancelled' hends' hprogram hcallable
          hcancel.2 hids
        refine ⟨rest, hrest.trans ?_, fun hopen heq => hdone hopen (List.cons.inj heq).2⟩
        simp only [hstep, messagesIn_append, IoThread.toQueue, List.append_assoc]
        rfl
      | nil =>
        have hio : g.io = .idle := hends
        cases work with
        | nil => cases List.prefix_nil.1 hwork
        | cons w work =>
          cases w with
          | call chat callback =>
            -- a callback begins, with all its parts to come
            obtain ⟨rfl, hprogram⟩ := List.cons_prefix_cons.1 hwork
            obtain ⟨c, hc, hreaped⟩ : g.Going chat := by
              cases callback with
              | onToken processed => exact hcall
              | onDone => exact hcall
              | onError err => exact hcall
            obtain ⟨io, hstep, hends', hmessages⟩ := callSteps_spec callback hio hc hreaped
              (huncancelled.flags c (List.mem_of_getElem? hc))
            rw [hstep] at hids hcallable ⊢
            have hid : ids chat = some c.requestId :=
              hids chat c.requestId (ids_run events (by simp [ChatConnection.ids, hc]))
            have huncancelled' : Uncancelled requestId { g with io } := huncancelled.with_io io g.queue
            obtain ⟨rest, hrest, hdone⟩ := ih (g := { g with io }) hconnected huncancelled' hends'
              hprogram hcallable hcancel.2 hids
            refine ⟨rest, hrest.trans ?_, fun hopen heq => hdone hopen (List.cons.inj heq).2⟩
            simp only [hmessages, hio, List.flatMap_cons, IoWork.messages, hid, Option.some.injEq]
            rfl
          | reap chat =>
            obtain ⟨rfl, hprogram⟩ := List.cons_prefix_cons.1 hwork
            have hstep : step g (.reap chat) =
                { g with chats := g.chats.modify chat fun c => { c with reaped := true } } :=
              if_pos hio
            have hconnected' : (step g (.reap chat)).connected = true := by rwa [hstep]
            have hends' : (step g (.reap chat)).io.Ends [] := by rwa [hstep]
            obtain ⟨rest, hrest, hdone⟩ := ih hconnected' (huncancelled.reap chat) hends' hprogram
              hcallable hcancel.2 hids
            refine ⟨rest, hrest.trans ?_, fun hopen heq => hdone hopen (List.cons.inj heq).2⟩
            rw [hstep]
            rfl
    · rw [List.filter_cons_of_neg hisIo] at hwork ⊢
      cases event with
      | chat other =>
        have hstep : step g (.chat other) = processChat other g := if_pos hconnected
        rw [hstep] at hids hcallable ⊢
        exact ih hconnected (huncancelled.processChat other) hends hwork hcallable hcancel.2 hids
      | cancel other =>
        have hother : other ≠ requestId := fun heq => hcancel.1 (by rw [heq])
        have hstep : step g (.cancel other) = ChatConnection.cancel other g := if_pos hconnected
        obtain ⟨hqueue, hio, hopen, hreceived⟩ := cancel_other (g := g) hother
        rw [hstep] at hids hcallable ⊢
        obtain ⟨rest, hrest, hdone⟩ := ih (hopen.trans hconnected) (huncancelled.cancel hother)
          (hio ▸ hends) hwork hcallable hcancel.2 hids
        refine ⟨rest, hrest.trans ?_, hdone⟩
        rw [hqueue, hio, hreceived]
      | close =>
        have hstep : step g .close = handleConnectionClosed g := if_pos hconnected
        rw [hstep]
        obtain ⟨hsent, hclosed⟩ := sent_run_of_closed (g := handleConnectionClosed g) rfl events
        have hreceived : received requestId (run (handleConnectionClosed g) events) = received requestId g := by
          rw [received, hsent]
          rfl
        rw [hreceived]
        refine ⟨_, (List.append_assoc _ _ _).symm, fun hopen => ?_⟩
        rw [hclosed] at hopen
        cases hopen
      | runTask =>
        have hopen : (runTask g).connected = true ∧ (runTask g).io = g.io := by
          unfold runTask
          split
          · exact ⟨hconnected, rfl⟩
          · exact ⟨hconnected, rfl⟩
          · exact ⟨hconnected, rfl⟩
        obtain ⟨rest, hrest, hdone⟩ := ih hopen.1 huncancelled.runTask (hopen.2 ▸ hends) hwork hcallable
          hcancel.2 hids
        refine ⟨rest, hrest.trans ?_, hdone⟩
        rw [received_runTask hconnected, hopen.2]
      | onToken i => exact absurd rfl hisIo
      | onDone i => exact absurd rfl hisIo
      | onError i err => exact absurd rfl hisIo
      | resume processed => exact absurd rfl hisIo
      | reap i => exact absurd rfl hisIo

/-- However the work of the I/O thread is interleaved with the event loop, a client receives the messages of a
request that is not cancelled in the order of their callbacks, and each of them once. -/
theorem received_chats {events : List Event} {work : List IoWork}
    (hwork : events.filter Event.isIo <+: work.flatMap IoWork.steps)
    (hcallable : AllCallable {} events) (hcancel : .cancel requestId ∉ events) :
    received requestId (run {} events) <+:
        work.flatMap (IoWork.messages requestId (run {} events).ids) ∧
      ((run {} events).connected = true → events.filter Event.isIo = work.flatMap IoWork.steps →
        received requestId (run {} events) ++ messagesIn requestId (run {} events).queue =
          work.flatMap (IoWork.messages requestId (run {} events).ids)) := by
  obtain ⟨rest, hrest, hdone⟩ := received_run (g := {}) rfl uncancelled_empty
    (show IoThread.Ends .idle [] from rfl) hwork hcallable hcancel fun _ _ h => h
  have hsequence : received requestId (run {} events) ++ rest =
      work.flatMap (IoWork.messages requestId (run {} events).ids) := hrest
  refine ⟨⟨rest, hsequence⟩, fun hopen heq => ?_⟩
  rw [← hdone hopen heq, hsequence]

/-- Two chats, of which one is cancelled while a callback of the other is going on. -/
def mixedChats : List Event :=
  [.chat (str "a"), .chat (str "b"), .onToken 0, .cancel (str "b"), .resume (some (str "x")), .onToken 1,
    .runTask, .resume (some (str "y")), .onDone 0, .resume none, .resume none]

/-- The callbacks of two chats in turn. -/
def mixedWork : List IoWork :=
  [.call 0 (.onToken (some (str "x"))), .call 1 (.onToken (some (str "y"))), .call 0 .onDone]

theorem received_mixedChats :
    received (str "a") (run {} mixedChats) ++ messagesIn (str "a") (run {} mixedChats).queue =
      [.token (str "a") (str "x"), .done (str "a")] := by
  have hcallable : AllCallable {} mixedChats :=
    ⟨trivial, trivial, ⟨_, rfl, rfl⟩, trivial, trivial, ⟨_, rfl, rfl⟩, trivial, trivial, ⟨_, rfl, rfl⟩, trivial,
      trivial, trivial⟩
  have hwork : mixedChats.filter Event.isIo = mixedWork.flatMap IoWork.steps := by decide
  have hcancel : .cancel (str "a") ∉ mixedChats := by decide +kernel
  have hmessages : mixedWork.flatMap (IoWork.messages (str "a") (run {} mixedChats).ids) =
      [.token (str "a") (str "x"), .done (str "a")] := by
    decide +kernel
  exact ((received_chats (hwork ▸ List.prefix_rfl) hcallable hcancel).2 rfl hwork).trans hmessages

end ChatConnection

end LlmGateway
