import LlmGateway.Base

/-!
# Cancelling chats

The chats of one connection, between the event loop of the connection and the I/O thread of the upstream.
The loop handles the messages of the client and runs the tasks that are queued in it, one after another.
The I/O thread calls the callbacks of the chats: `on_token` tests the cancel flag of its chat first and
queues the token later, and the flag is found through `active_requests`, where a later chat with the same
identifier takes the place of an earlier one.

`quiet_cancel_iff`: after `cancelled` was sent, no token of the request follows exactly if no token was queued,
the I/O thread was not past the test, and there was no other chat with the identifier that went on.
-/

namespace LlmGateway

/-- What a chat sends, and the answer to a `cancel`. -/
inductive ChatMessage where
  | token (requestId content : Str)
  | done (requestId : Str)
  | error (requestId err : Str)
  | cancelled (requestId : Str)
  deriving DecidableEq

/-- A task in the queue of the event loop. -/
inductive LoopTask where
  | send (msg : ChatMessage)
  /-- `active_requests.erase(request_id)`. -/
  | erase (requestId : Str)
  deriving DecidableEq

/-- A chat that was submitted, with its cancel flag. -/
structure SubmittedChat where
  requestId : Str
  cancelFlag : Bool := false
  /-- Its transfer is over, and no callback comes any more. -/
  reaped : Bool := false
  deriving DecidableEq

/-- `flag->store(true)`. -/
def SubmittedChat.cancel (c : SubmittedChat) : SubmittedChat := { c with cancelFlag := true }

/-- Where the I/O thread is. -/
inductive IoThread where
  | idle
  /-- In `on_token`, past the test of the flag. -/
  | inToken (requestId : Str)
  /-- In `on_done`, before `done` is queued. -/
  | inDone (requestId : Str)
  /-- In `on_error`, past the test of the flag. -/
  | inError (requestId err : Str)
  /-- At the end of `on_done` or `on_error`. -/
  | erasing (requestId : Str)
  deriving DecidableEq

/-- A connection with its chats, the tasks of the event loop, and where the I/O thread is. -/
structure ChatConnection where
  /-- The chats, in the order of their submission. -/
  chats : List SubmittedChat := []
  /-- The flags in `active_requests`, by the number of their chat. -/
  activeRequests : UMap ℕ := ∅
  queue : List LoopTask := []
  sent : List ChatMessage := []
  connected : Bool := true
  io : IoThread := .idle

namespace ChatConnection

/-! ## The event loop -/

/-- `ws_send`. -/
def wsSend (msg : ChatMessage) (g : ChatConnection) : ChatConnection :=
  { g with queue := g.queue ++ [.send msg] }

/-- The end of `process_chat`, when the chat is submitted. -/
def processChat (requestId : Str) (g : ChatConnection) : ChatConnection :=
  { g with
    chats := g.chats ++ [{ requestId }]
    activeRequests := g.activeRequests.insert requestId g.chats.length }

/-- The message `cancel`.  Whatever the I/O thread does between the two statements it could do after
them. -/
def cancel (requestId : Str) (g : ChatConnection) : ChatConnection :=
  match g.activeRequests.lookup requestId with
  | none => g
  | some chat =>
      { g with
        chats := g.chats.modify chat SubmittedChat.cancel
        sent := g.sent ++ [.cancelled requestId] }

/-- All chats that are active are cancelled. -/
def handleConnectionClosed (g : ChatConnection) : ChatConnection :=
  { g with
    chats := g.chats.mapIdx fun i c =>
      if g.activeRequests.entries.any fun e => decide (e.2 = i) then SubmittedChat.cancel c else c
    connected := false }

/-- Run the next task of the queue. -/
def runTask (g : ChatConnection) : ChatConnection :=
  match g.queue with
  | [] => g
  | .send msg :: queue => { g with queue, sent := if g.connected then g.sent ++ [msg] else g.sent }
  | .erase requestId :: queue => { g with queue, activeRequests := g.activeRequests.erase requestId }

/-! ## The I/O thread -/

/-- A callback of a chat begins; `f` says where it gets to. -/
def callback (chat : ℕ) (f : SubmittedChat → IoThread) (g : ChatConnection) : ChatConnection :=
  match g.chats[chat]? with
  | none => g
  | some c => if g.io = .idle ∧ c.reaped = false then { g with io := f c } else g

/-- `on_token` begins: for a chat that is cancelled it does nothing. -/
def onToken (chat : ℕ) : ChatConnection → ChatConnection :=
  callback chat fun c => if c.cancelFlag then .idle else .inToken c.requestId

/-- `on_done` begins. -/
def onDone (chat : ℕ) : ChatConnection → ChatConnection := callback chat fun c => .inDone c.requestId

/-- `on_error` begins: a chat that is cancelled is only erased. -/
def onError (chat : ℕ) (err : Str) : ChatConnection → ChatConnection :=
  callback chat fun c => if c.cancelFlag then .erasing c.requestId else .inError c.requestId err

/-- The next part of the callback that the I/O thread is in.  `processed` is what the plugins make of the
token, if they do not throw and the message can be built. -/
def resume (processed : Option Str) (g : ChatConnection) : ChatConnection :=
  match g.io with
  | .idle => g
  | .inToken requestId =>
      let g := { g with io := .idle }
      match processed with
      | none => g
      | some content => if content = [] then g else wsSend (.token requestId content) g
  | .inDone requestId => wsSend (.done requestId) { g with io := .erasing requestId }
  | .inError requestId err => wsSend (.error requestId err) { g with io := .erasing requestId }
  | .erasing requestId => { g with io := .idle, queue := g.queue ++ [.erase requestId] }

/-- The I/O thread takes the transfer of a chat away. -/
def reap (chat : ℕ) (g : ChatConnection) : ChatConnection :=
  if g.io = .idle then { g with chats := g.chats.modify chat fun c => { c with reaped := true } } else g

/-! ## Steps -/

/-- A step of the event loop or of the I/O thread. -/
inductive Event where
  | chat (requestId : Str)
  | cancel (requestId : Str)
  | close
  | runTask
  | onToken (chat : ℕ)
  | onDone (chat : ℕ)
  | onError (chat : ℕ) (err : Str)
  | resume (processed : Option Str)
  | reap (chat : ℕ)
  deriving DecidableEq

/-- What an event does; messages need a connection. -/
def step (g : ChatConnection) : Event → ChatConnection
  | .chat requestId => if g.connected then processChat requestId g else g
  | .cancel requestId => if g.connected then cancel requestId g else g
  | .close => if g.connected then handleConnectionClosed g else g
  | .runTask => runTask g
  | .onToken chat => onToken chat g
  | .onDone chat => onDone chat g
  | .onError chat err => onError chat err g
  | .resume processed => resume processed g
  | .reap chat => reap chat g

/-- The connection after some events. -/
def run (g : ChatConnection) (events : List Event) : ChatConnection := events.foldl step g

/-! ## Requests without tokens -/

/-- Until a chat with the identifier begins, no token of the request is sent. -/
def Quiet (requestId : Str) (g : ChatConnection) : Prop :=
  ∀ events, .chat requestId ∉ events → ∀ content,
    .token requestId content ∉ (run g events).sent.drop g.sent.length

/-- No token of the request is under way, and its chats are cancelled or over. -/
structure Settled (requestId : Str) (g : ChatConnection) : Prop where
  queue : ∀ content, .send (.token requestId content) ∉ g.queue
  io : g.io ≠ .inToken requestId
  chats : ∀ c ∈ g.chats, c.requestId = requestId → c.reaped = false → c.cancelFlag = true

variable {requestId : Str} {g : ChatConnection}

/-- What holds of the elements of a list still holds if one is changed and the change keeps it. -/
theorem forall_mem_modify {α : Type} {P : α → Prop} {f : α → α} (hf : ∀ a, P a → P (f a)) {l : List α}
    (h : ∀ a ∈ l, P a) (i : ℕ) : ∀ a ∈ l.modify i f, P a := by
  intro a ha
  obtain ⟨j, hj⟩ := List.mem_iff_getElem?.1 ha
  rw [List.getElem?_modify] at hj
  obtain ⟨b, hb, rfl⟩ := Option.map_eq_some_iff.1 hj
  split_ifs
  · exact hf b (h b (List.mem_of_getElem? hb))
  · exact h b (List.mem_of_getElem? hb)

theorem settled_callback {chat : ℕ} {f : SubmittedChat → IoThread} (h : Settled requestId g)
    (hf : ∀ c ∈ g.chats, c.reaped = false → f c ≠ .inToken requestId) :
    Settled requestId (callback chat f g) := by
  unfold callback
  split
  · exact h
  · next c hc =>
    split_ifs with hbegins
    · exact ⟨h.queue, hf c (List.mem_of_getElem? hc) hbegins.2, h.chats⟩
    · exact h

theorem settled_wsSend (h : Settled requestId g) {msg : ChatMessage}
    (hmsg : ∀ content, msg ≠ .token requestId content) : Settled requestId (wsSend msg g) := by
  refine ⟨fun content hmem => ?_, h.io, h.chats⟩
  rcases List.mem_append.1 hmem with hmem | hmem
  · exact h.queue content hmem
  · exact hmsg content (LoopTask.send.inj (List.mem_singleton.1 hmem)).symm

theorem Settled.with_io (h : Settled requestId g) (io : IoThread) (hio : io ≠ .inToken requestId) :
    Settled requestId { g with io } :=
  ⟨h.queue, hio, h.chats⟩

theorem settled_resume (h : Settled requestId g) (processed : Option Str) :
    Settled requestId (resume processed g) := by
  unfold resume
  split
  · exact h
  · next requestId' hio =>
    have hidle := h.with_io .idle (by simp)
    dsimp only
    split
    · exact hidle
    · split_ifs
      · exact hidle
      · refine settled_wsSend hidle fun content heq => ?_
        rw [(ChatMessage.token.inj heq).1] at hio
        exact h.io hio
  · exact settled_wsSend (h.with_io _ (by simp)) (by simp)
  · exact settled_wsSend (h.with_io _ (by simp)) (by simp)
  · refine ⟨fun content hmem => ?_, by simp, h.chats⟩
    rcases List.mem_append.1 hmem with hmem | hmem
    · exact h.queue content hmem
    · cases List.mem_singleton.1 hmem

theorem settled_close (h : Settled requestId g) : Settled requestId (handleConnectionClosed g) := by
  refine ⟨h.queue, h.io, fun c hc hid hreaped => ?_⟩
  obtain ⟨i, hi, rfl⟩ := List.mem_mapIdx.1 hc
  split_ifs at hid hreaped ⊢
  · rfl
  · exact h.chats _ (List.getElem_mem hi) hid hreaped

theorem settled_runTask (h : Settled requestId g) : Settled requestId (runTask g) := by
  have hrest {task : LoopTask} {queue : List LoopTask} (hqueue : g.queue = task :: queue) (content : Str) :
      .send (.token requestId content) ∉ queue := fun hmem =>
    h.queue content (hqueue ▸ List.mem_cons_of_mem task hmem)
  unfold runTask
  split
  · exact h
  · next hqueue => exact ⟨hrest hqueue, h.io, h.chats⟩
  · next hqueue => exact ⟨hrest hqueue, h.io, h.chats⟩

/-- Steps keep a request settled that begins no chat with its identifier. -/
theorem Settled.step (h : Settled requestId g) {event : Event} (hevent : event ≠ .chat requestId) :
    Settled requestId (step g event) := by
  cases event with
  | chat other =>
    rw [ChatConnection.step]
    split_ifs
    · refine ⟨h.queue, h.io, fun c hc hid hreaped => ?_⟩
      rcases List.mem_append.1 hc with hc | hc
      · exact h.chats c hc hid hreaped
      · rw [List.mem_singleton.1 hc] at hid
        exact absurd (congrArg Event.chat hid) hevent
    · exact h
  | cancel other =>
    rw [ChatConnection.step]
    split_ifs
    · unfold cancel
      split
      · exact h
      · exact ⟨h.queue, h.io, forall_mem_modify (fun _ _ _ _ => rfl) h.chats _⟩
    · exact h
  | close =>
    rw [ChatConnection.step]
    split_ifs
    · exact settled_close h
    · exact h
  | runTask => exact settled_runTask h
  | onToken chat =>
    refine settled_callback h fun c hc hreaped => ?_
    split_ifs with hflag
    · simp
    · intro heq
      exact hflag (h.chats c hc (IoThread.inToken.inj heq) hreaped)
  | onDone chat => exact settled_callback h fun c _ _ => by simp
  | onError chat err =>
    refine settled_callback h fun c _ _ => ?_
    split_ifs
    · simp
    · simp
  | resume processed => exact settled_resume h processed
  | reap chat =>
    show Settled requestId (reap chat g)
    unfold reap
    split_ifs
    · refine ⟨h.queue, h.io, forall_mem_modify (fun c hc hid hreaped => ?_) h.chats chat⟩
      cases hreaped
    · exact h

/-! ## What is sent -/

theorem sent_callback (chat : ℕ) (f : SubmittedChat → IoThread) (g : ChatConnection) :
    (callback chat f g).sent = g.sent := by
  unfold callback
  split
  · rfl
  · split_ifs
    · rfl
    · rfl

theorem sent_resume (processed : Option Str) (g : ChatConnection) : (resume processed g).sent = g.sent := by
  unfold resume
  split
  · rfl
  · cases processed with
    | none => rfl
    | some content =>
      dsimp only
      split_ifs
      · rfl
      · rfl
  · rfl
  · rfl
  · rfl

/-- The tokens that a step sends were queued. -/
theorem sent_step (g : ChatConnection) (event : Event) :
    ∃ news, (step g event).sent = g.sent ++ news ∧
      ∀ requestId content, .token requestId content ∈ news →
        .send (.token requestId content) ∈ g.queue := by
  have hsame {g' : ChatConnection} (h : g'.sent = g.sent) : ∃ news, g'.sent = g.sent ++ news ∧
      ∀ requestId content, .token requestId content ∈ news →
        .send (.token requestId content) ∈ g.queue :=
    ⟨[], by rw [h, List.append_nil], fun _ _ hmem => absurd hmem List.not_mem_nil⟩
  cases event with
  | chat requestId => exact hsame (by rw [step]; split_ifs <;> rfl)
  | cancel requestId =>
    rw [step]
    split_ifs
    · unfold cancel
      split
      · exact hsame rfl
      · exact ⟨[.cancelled requestId], rfl, by simp⟩
    · exact hsame rfl
  | close => exact hsame (by rw [step]; split_ifs <;> rfl)
  | runTask =>
    rw [step]
    unfold runTask
    split
    · exact hsame rfl
    · next msg queue hqueue =>
      split_ifs
      · refine ⟨[msg], rfl, fun requestId content hmem => ?_⟩
        rw [hqueue, List.mem_singleton.1 hmem]
        exact List.mem_cons_self
      · exact hsame rfl
    · exact hsame rfl
  | onToken chat => exact hsame (sent_callback chat _ g)
  | onDone chat => exact hsame (sent_callback chat _ g)
  | onError chat err => exact hsame (sent_callback chat _ g)
  | resume processed => exact hsame (sent_resume processed g)
  | reap chat => exact hsame (by rw [step]; unfold reap; split_ifs <;> rfl)

theorem Settled.quiet (h : Settled requestId g) : Quiet requestId g := by
  have hrun (events : List Event) (hevents : .chat requestId ∉ events) :
      ∃ news, (run g events).sent = g.sent ++ news ∧ ∀ content, .token requestId content ∉ news := by
    induction events generalizing g with
    | nil => exact ⟨[], (List.append_nil _).symm, fun _ => List.not_mem_nil⟩
    | cons event events ih =>
        rw [List.mem_cons, not_or] at hevents
        obtain ⟨first, hfirst, htokens⟩ := sent_step g event
        obtain ⟨rest, hrest, hquiet⟩ := ih (h.step (Ne.symm hevents.1)) hevents.2
        refine ⟨first ++ rest, ?_, fun content hmem => ?_⟩
        · rw [← List.append_assoc, ← hfirst]
          exact hrest
        · rcases List.mem_append.1 hmem with hmem | hmem
          · exact h.queue content (htokens requestId content hmem)
          · exact hquiet content hmem
  intro events hevents content
  obtain ⟨news, hnews, hquiet⟩ := hrun events hevents
  rw [hnews, List.drop_left]
  exact hquiet content

/-! ## How a token gets through -/

/-- What is queued is sent when the tasks have been run. -/
theorem sent_flush (hconnected : g.connected = true) :
    ∃ news, (run g (List.replicate g.queue.length .runTask)).sent = g.sent ++ news ∧
      ∀ msg, .send msg ∈ g.queue → msg ∈ news := by
  generalize hqueue : g.queue = queue
  induction queue generalizing g with
  | nil => exact ⟨[], (List.append_nil _).symm, fun _ hmem => absurd hmem List.not_mem_nil⟩
  | cons task queue ih =>
      have hrun : run g (List.replicate (task :: queue).length .runTask) =
          run (runTask g) (List.replicate queue.length .runTask) := rfl
      rw [hrun]
      cases task with
      | send msg =>
        have htask : runTask g = { g with queue, sent := g.sent ++ [msg] } := by
          rw [runTask, hqueue]
          dsimp only
          rw [if_pos hconnected]
        rw [htask]
        obtain ⟨news, hnews, hmem⟩ := ih (g := { g with queue, sent := g.sent ++ [msg] }) hconnected rfl
        refine ⟨msg :: news, ?_, fun msg' hmsg' => ?_⟩
        · rw [hnews, List.append_assoc]
          rfl
        · rcases List.mem_cons.1 hmsg' with heq | hmsg'
          · rw [LoopTask.send.inj heq]
            exact List.mem_cons_self
          · exact List.mem_cons_of_mem msg (hmem msg' hmsg')
      | erase requestId =>
        have htask : runTask g =
            { g with queue, activeRequests := g.activeRequests.erase requestId } := by
          rw [runTask, hqueue]
        rw [htask]
        obtain ⟨news, hnews, hmem⟩ :=
          ih (g := { g with queue, activeRequests := g.activeRequests.erase requestId }) hconnected rfl
        refine ⟨news, hnews, fun msg hmsg => ?_⟩
        rcases List.mem_cons.1 hmsg with heq | hmsg
        · cases heq
        · exact hmem msg hmsg

/-- A request stays quiet, if nothing is sent meanwhile and no chat with its identifier begins. -/
theorem Quiet.step (h : Quiet requestId g) (event : Event) (hevent : event ≠ .chat requestId)
    (hsent : (step g event).sent = g.sent) : Quiet requestId (step g event) := by
  intro events hevents content
  rw [hsent]
  refine h (event :: events) ?_ content
  rw [List.mem_cons, not_or]
  exact ⟨Ne.symm hevent, hevents⟩

theorem Quiet.not_mem_queue (h : Quiet requestId g) (hconnected : g.connected = true) (content : Str) :
    .send (.token requestId content) ∉ g.queue := by
  intro hmem
  obtain ⟨news, hnews, hflushed⟩ := sent_flush hconnected
  refine h (List.replicate g.queue.length .runTask) ?_ content ?_
  · intro hchat
    cases (List.mem_replicate.1 hchat).2
  · rw [hnews, List.drop_left]
    exact hflushed _ hmem

/-- If the I/O thread is past the test, the token goes through. -/
theorem Quiet.io_ne (h : Quiet requestId g) (hconnected : g.connected = true) :
    g.io ≠ .inToken requestId := by
  intro hio
  have hresume : resume (some [0]) g = wsSend (.token requestId [0]) { g with io := .idle } := by
    rw [resume, hio]
    rfl
  have hquiet : Quiet requestId (resume (some [0]) g) :=
    h.step (.resume (some [0])) (by simp) (sent_resume _ g)
  rw [hresume] at hquiet
  exact hquiet.not_mem_queue hconnected [0] (List.mem_append_right _ List.mem_cons_self)

/-- In two steps the I/O thread gets out of whatever callback it is in, if the plugins drop the token. -/
theorem resume_resume (g : ChatConnection) : (resume (some []) (resume (some []) g)).io = .idle ∧
    (resume (some []) (resume (some []) g)).chats = g.chats ∧
    (resume (some []) (resume (some []) g)).connected = g.connected := by
  cases hio : g.io with
  | _ => simp only [resume, hio, wsSend, if_true, and_self]

/-- If a chat of the request goes on that was not cancelled, its next token goes through. -/
theorem Quiet.cancelFlag (h : Quiet requestId g) (hconnected : g.connected = true) {chat : ℕ}
    {c : SubmittedChat} (hc : g.chats[chat]? = some c) (hid : c.requestId = requestId)
    (hreaped : c.reaped = false) : c.cancelFlag = true := by
  by_contra hflag
  obtain ⟨hio, hchats, hconn⟩ := resume_resume g
  have hidle : Quiet requestId (resume (some []) (resume (some []) g)) :=
    (h.step (.resume (some [])) (by simp) (sent_resume _ g)).step (.resume (some [])) (by simp)
      (sent_resume _ _)
  generalize resume (some []) (resume (some []) g) = g' at *
  rw [← hchats] at hc
  have hbegun : Quiet requestId (onToken chat g') :=
    hidle.step (.onToken chat) (by simp) (sent_callback chat _ _)
  have htoken : onToken chat g' = { g' with io := .inToken requestId } := by
    rw [onToken, callback, hc]
    dsimp only
    rw [if_pos ⟨hio, hreaped⟩, if_neg hflag, hid]
  rw [htoken] at hbegun
  exact hbegun.io_ne (hconn.trans hconnected) rfl

theorem quiet_iff_settled (hconnected : g.connected = true) : Quiet requestId g ↔ Settled requestId g := by
  refine ⟨fun h => ⟨h.not_mem_queue hconnected, h.io_ne hconnected, fun c hc hid hreaped => ?_⟩,
    Settled.quiet⟩
  obtain ⟨chat, hchat⟩ := List.mem_iff_getElem?.1 hc
  exact h.cancelFlag hconnected hchat hid hreaped

/-! ## Cancelling -/

/-- No token of the request is under way, and its chats are cancelled or over, except for the one that
`active_requests` leads to. -/
structure Stoppable (requestId : Str) (g : ChatConnection) : Prop where
  queue : ∀ content, .send (.token requestId content) ∉ g.queue
  io : g.io ≠ .inToken requestId
  chats : ∀ chat c, g.chats[chat]? = some c → c.requestId = requestId → c.reaped = false →
    c.cancelFlag = true ∨ g.activeRequests.lookup requestId = some chat

theorem settled_cancel_iff {chat : ℕ} (hactive : g.activeRequests.lookup requestId = some chat) :
    Settled requestId (cancel requestId g) ↔ Stoppable requestId g := by
  rw [cancel, hactive]
  dsimp only
  constructor
  · intro h
    refine ⟨h.queue, h.io, fun i c hc hid hreaped => ?_⟩
    by_cases heq : chat = i
    · exact Or.inr (heq ▸ hactive)
    · have hmem : c ∈ g.chats.modify chat SubmittedChat.cancel := by
        refine List.mem_of_getElem? (i := i) ?_
        rw [List.getElem?_modify_ne _ _ heq, hc]
      exact Or.inl (h.chats c hmem hid hreaped)
  · intro h
    refine ⟨h.queue, h.io, fun c hc hid hreaped => ?_⟩
    obtain ⟨i, hi⟩ := List.mem_iff_getElem?.1 hc
    rw [List.getElem?_modify] at hi
    obtain ⟨c', hc', rfl⟩ := Option.map_eq_some_iff.1 hi
    by_cases heq : chat = i
    · rw [if_pos heq]
      rfl
    · rw [if_neg heq] at hid hreaped ⊢
      rcases h.chats i c' hc' hid hreaped with hflag | hlookup
      · exact hflag
      · rw [hactive] at hlookup
        exact absurd (Option.some.inj hlookup) heq

/-- In every run, once `cancelled` is sent for a request, no token of it is sent until a chat with its
identifier begins, exactly if no token of it was queued, the I/O thread was not past the test of a flag for
it, and every other chat with the identifier was cancelled already or over. -/
theorem quiet_cancel_iff (events : List Event)
    (hcancelled : (step (run {} events) (.cancel requestId)).sent =
      (run {} events).sent ++ [.cancelled requestId]) :
    Quiet requestId (step (run {} events) (.cancel requestId)) ↔ Stoppable requestId (run {} events) := by
  generalize run {} events = g at *
  have hunsent : g.sent ≠ g.sent ++ [.cancelled requestId] := by simp
  rw [step] at hcancelled ⊢
  split_ifs at hcancelled ⊢ with hconnected
  · cases hactive : g.activeRequests.lookup requestId with
    | none =>
      rw [cancel, hactive] at hcancelled
      exact absurd hcancelled hunsent
    | some chat =>
      rw [quiet_iff_settled, settled_cancel_iff hactive]
      rw [cancel, hactive]
      exact hconnected
  · exact absurd hcancelled hunsent

/-! ## Tokens that follow -/

/-- A token that was queued before the `cancel`, and one of the first of two chats with one identifier. -/
theorem token_after_cancelled :
    let queued := [Event.chat (str "a"), .onToken 0, .resume (some (str "x"))]
    let twice := [Event.chat (str "a"), .chat (str "a")]
    (run {} (queued ++ [.cancel (str "a"), .runTask])).sent =
        [.cancelled (str "a"), .token (str "a") (str "x")] ∧
      (run {} (twice ++ [.cancel (str "a"), .onToken 0, .resume (some (str "x")), .runTask])).sent =
        [.cancelled (str "a"), .token (str "a") (str "x")] ∧
      ¬ Quiet (str "a") (run {} (queued ++ [.cancel (str "a")])) ∧
      ¬ Quiet (str "a") (run {} (twice ++ [.cancel (str "a")])) := by
  refine ⟨by decide +kernel, by decide +kernel, fun h => ?_, fun h => ?_⟩
  · exact h [.runTask] (by decide +kernel) (str "x") (by decide +kernel)
  · exact h [.onToken 0, .resume (some (str "x")), .runTask] (by decide +kernel) (str "x")
      (by decide +kernel)

/-- A chat that is cancelled before its first token has none. -/
theorem quiet_cancel_chat : Quiet (str "a") (step (run {} [.chat (str "a")]) (.cancel (str "a"))) := by
  refine (quiet_cancel_iff [.chat (str "a")] (by decide +kernel)).2 ⟨?_, by decide +kernel, ?_⟩
  · exact fun _ => List.not_mem_nil
  · intro chat c hc hid hreaped
    cases chat with
    | zero => exact Or.inr (by decide +kernel)
    | succ chat => cases hc

end ChatConnection

end LlmGateway
