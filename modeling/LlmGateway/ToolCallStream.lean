import LlmGateway.Transfers

/-!
# Tool calls in a stream

A backend streams the tool calls of a turn as fragments: each element of the `tool_calls` of a delta
carries the index of its call and a piece of the arguments, and the first element of a call its identifier
and its name.  The parser reads the first element of each delta, and puts all fragments together in one
place, without looking at the index.

`reassembles_iff`: so the calls of a turn come out as they were sent exactly if there is at most one, and
nothing is lost by reading only the first element of each delta.
-/

namespace LlmGateway

variable {ν : Type}

/-! ## Streams -/

/-- A call of a tool. -/
structure ToolCall where
  callId : Str
  name : Str
  arguments : Str
  deriving DecidableEq

/-- A piece of the arguments of a call. -/
structure ToolFragment where
  index : ℕ
  /-- Whether the identifier and the name of the call come with it. -/
  header : Bool
  text : Str
  deriving DecidableEq

/-- `tc` is a fragment of the call. -/
structure ToolFragment.Encodes (call : ToolCall) (frag : ToolFragment) (tc : Json ν) : Prop where
  index : tc.member "index" = some (.int frag.index)
  callId : (tc.member "id").bind Json.getString = if frag.header then some call.callId else none
  name : ((tc.member "function").bind (Json.member · "name")).bind Json.getString =
    if frag.header then some call.name else none
  arguments : ((tc.member "function").bind (Json.member · "arguments")).bind Json.getString =
    some frag.text

/-- The first choice of an event, and its delta. -/
def Json.IsChoice (obj : Json ν) (m : List (Str × Json ν)) (delta : Json ν) : Prop :=
  ∃ rest, obj.member "choices" = some (.array (.object m :: rest)) ∧
    m.lookup (str "delta") = some delta

/-- `obj` is an event whose delta carries the fragments. -/
def EncodesDelta (calls : List ToolCall) (frags : List ToolFragment) (obj : Json ν) : Prop :=
  ∃ m delta tcs, obj.IsChoice m delta ∧ finishes (.object m) = false ∧
    delta.member "tool_calls" = some (.array tcs) ∧
    List.Forall₂ (fun frag tc => ∃ call, calls[frag.index]? = some call ∧ frag.Encodes call tc) frags tcs

/-- `obj` is the event that ends a turn with tool calls. -/
def EncodesEnd (obj : Json ν) : Prop :=
  ∃ m delta, obj.IsChoice m delta ∧ finishes (.object m) = true ∧
    ∀ tc tcs, delta.member "tool_calls" ≠ some (.array (tc :: tcs))

/-- A payload that is sent as one line. -/
structure IsPayload (lib : JsonLib ν) (obj : Json ν) (payload : Str) : Prop where
  parse : lib.parse payload = some obj
  newline : newline ∉ payload
  carriage : payload.getLast? ≠ some 13
  notDone : payload ≠ str "[DONE]"

/-- An event with a payload. -/
def eventText (payload : Str) : Str := str "data: " ++ payload ++ str "\n\n"

/-- The fragments of a turn are those of its calls: each call comes with its identifier and its name at
first, and its fragments make up its arguments. -/
structure Fragments (calls : List ToolCall) (deltas : List (List ToolFragment)) : Prop where
  index : ∀ frag ∈ deltas.flatten, frag.index < calls.length
  header (i : ℕ) : i < calls.length →
    (deltas.flatten.find? (·.index = i)).map ToolFragment.header = some true
  text (i : ℕ) (call : ToolCall) : calls[i]? = some call →
    (deltas.flatten.filter (·.index = i)).flatMap ToolFragment.text = call.arguments

namespace Fragments

variable {calls : List ToolCall} {deltas : List (List ToolFragment)}

theorem flatten_eq_nil (h : Fragments [] deltas) : deltas.flatten = [] :=
  List.eq_nil_iff_forall_not_mem.2 fun frag hfrag => Nat.not_lt_zero _ (h.index frag hfrag)

/-- The fragments of a single call all have its index. -/
theorem index_eq_zero (hcalls : calls.length = 1) (h : Fragments calls deltas) :
    ∀ frag ∈ deltas.flatten, frag.index = 0 := by
  intro frag hfrag
  have hlt := h.index frag hfrag
  omega

theorem head_header (h : Fragments calls deltas) (hcalls : calls.length = 1) :
    deltas.flatten.head?.map ToolFragment.header = some true := by
  have hheader := h.header 0 (by omega)
  have hindex := h.index_eq_zero hcalls
  revert hheader hindex
  cases deltas.flatten with
  | nil => exact fun hheader _ => hheader
  | cons frag frags =>
    intro hheader hindex
    rwa [List.find?_cons_of_pos (by simpa using hindex frag List.mem_cons_self)] at hheader

theorem flatMap_text {toolCall : ToolCall} (h : Fragments [toolCall] deltas) :
    deltas.flatten.flatMap ToolFragment.text = toolCall.arguments := by
  rw [← h.text 0 toolCall rfl, List.filter_eq_self.2]
  exact fun frag hfrag => decide_eq_true (h.index_eq_zero rfl frag hfrag)

end Fragments

/-- The text of a turn with tool calls. -/
structure IsTurn (lib : JsonLib ν) (calls : List ToolCall) (deltas : List (List ToolFragment))
    (text : Str) : Prop where
  callId : ∀ call ∈ calls, call.callId ≠ []
  fragments : Fragments calls deltas
  text : ∃ payloads ending, text = payloads.flatMap eventText ++ eventText ending ∧
    List.Forall₂ (fun frags payload => ∃ obj, EncodesDelta calls frags obj ∧ IsPayload lib obj payload)
      deltas payloads ∧
    ∃ obj : Json ν, EncodesEnd obj ∧ IsPayload lib obj ending

/-! ## What the parser makes of a stream -/

namespace SSELineState

/-- The tool calls that were reported. -/
def toolCalls (s : SSELineState) : List ToolCall :=
  s.calls.filterMap fun
    | .toolCall callId name arguments => some ⟨callId, name, arguments⟩
    | _ => none

variable {lib : JsonLib ν} (cb : SSECallbacks)

theorem processLine_payload {obj : Json ν} {payload : Str} (hpayload : IsPayload lib obj payload)
    {m : List (Str × Json ν)} {delta : Json ν} (hchoice : obj.IsChoice m delta) (s : SSELineState) :
    s.processLine lib cb (str "data: " ++ payload) =
      some (s.handleChoice cb (.object m) delta) := by
  obtain ⟨rest, hchoices, hdelta⟩ := hchoice
  have hdata : str "data: " = [100, 97, 116, 97, 58, 32] := by decide
  have hhandle : handlePayload lib cb payload s =
      some (.ok (s.handleChoice cb (.object m) delta)) := by
    simp only [handlePayload, hpayload.parse, hchoices, Json.isEmpty, Json.first, hdelta]
    rfl
  have hdrop : (str "data: " ++ payload).drop 6 = payload := by
    rw [hdata]
    rfl
  have hcomment : ¬ (str "data: " ++ payload = [] ∨ (str "data: " ++ payload).head? = some 58) := by
    rw [hdata]
    simp
  rw [processLine, if_neg hcomment, if_neg (not_not_intro (List.prefix_append _ _)), hdrop,
    if_neg hpayload.notDone, hhandle]
  rfl

/-- A delta changes what is put together by its first element, and reports no call. -/
theorem handleChoice_delta {m : List (Str × Json ν)} (delta : Json ν)
    (hfinish : finishes (.object m) = false) (s : SSELineState) :
    let s' := s.handleChoice cb (.object m) delta
    s'.toolCalls = s.toolCalls ∧ s'.tcId = (s.addToolCall delta).tcId ∧
      s'.tcName = (s.addToolCall delta).tcName ∧ s'.tcArgs = (s.addToolCall delta).tcArgs := by
  have htools : (s.addToolCall delta).toolCalls = s.toolCalls := by
    rw [toolCalls, addToolCall_calls, toolCalls]
  dsimp only
  rw [handleChoice, if_neg (by rwa [finishes, decide_eq_false_iff_not] at hfinish)]
  split
  · split_ifs
    · refine ⟨?_, rfl, rfl, rfl⟩
      rw [toolCalls, call, List.filterMap_append, ← htools, toolCalls]
      exact List.append_nil _
    · exact ⟨htools, rfl, rfl, rfl⟩
  · exact ⟨htools, rfl, rfl, rfl⟩

/-- The end of a turn reports what was put together, if it has an identifier, and clears it. -/
theorem handleChoice_end {m : List (Str × Json ν)} {delta : Json ν}
    (hfinish : finishes (.object m) = true)
    (htools : ∀ tc tcs, delta.member "tool_calls" ≠ some (.array (tc :: tcs))) (hcb : cb.toolCb = true)
    (s : SSELineState) :
    let s' := s.handleChoice cb (.object m) delta
    s'.toolCalls = s.toolCalls ++ (if s.tcId = [] then [] else [⟨s.tcId, s.tcName, s.tcArgs⟩]) ∧
      s'.tcId = [] ∧ s'.tcName = [] ∧ s'.tcArgs = [] := by
  dsimp only
  rw [handleChoice, if_pos (by rwa [finishes, decide_eq_true_iff] at hfinish),
    addToolCall_of_forall_ne htools]
  refine ⟨?_, rfl, rfl, rfl⟩
  by_cases hid : s.tcId = []
  · rw [if_pos hid]
    simp [toolCalls, call, hcb, hid]
  · rw [if_neg hid]
    simp [toolCalls, call, hcb, hid]

/-- The first fragment of a delta is put together with what came before it. -/
theorem addToolCall_cons {delta tc : Json ν} {tcs : List (Json ν)}
    (htools : delta.member "tool_calls" = some (.array (tc :: tcs))) {toolCall : ToolCall}
    {frag : ToolFragment} (hfrag : frag.Encodes toolCall tc) (s : SSELineState) :
    let s' := s.addToolCall delta
    s'.tcId = (if frag.header then toolCall.callId else s.tcId) ∧
      s'.tcName = (if frag.header then toolCall.name else s.tcName) ∧
      s'.tcArgs = s.tcArgs ++ frag.text := by
  have hname := hfrag.name
  have hargs := hfrag.arguments
  cases hfn : tc.member "function" with
  | none =>
    rw [hfn] at hargs
    cases hargs
  | some fn =>
    rw [hfn, Option.bind_some] at hname hargs
    dsimp only
    unfold addToolCall
    simp only [htools, hfrag.callId, hfn, hname, hargs]
    cases frag.header
    · exact ⟨rfl, rfl, rfl⟩
    · exact ⟨rfl, rfl, rfl⟩

/-- Handle the events of a list of payloads. -/
def handleEvents (lib : JsonLib ν) (payloads : List Str) (s : SSELineState) : Option SSELineState :=
  payloads.foldlM (fun s payload => s.processLine lib cb (str "data: " ++ payload)) s

/-- The arguments that the parser reads of a turn: those in the first fragment of each delta. -/
def readArguments (deltas : List (List ToolFragment)) : Str :=
  deltas.flatMap fun frags => (frags.take 1).flatMap ToolFragment.text

/-- The deltas of a turn report no call, and put together what is read of them. -/
theorem handleEvents_deltas {calls : List ToolCall} {deltas : List (List ToolFragment)}
    {payloads : List Str}
    (h : List.Forall₂ (fun frags payload =>
      ∃ obj, EncodesDelta calls frags obj ∧ IsPayload lib obj payload) deltas payloads)
    (s : SSELineState) :
    ∃ s', handleEvents cb lib payloads s = some s' ∧ s'.toolCalls = s.toolCalls ∧
      s'.tcArgs = s.tcArgs ++ readArguments deltas ∧
      (deltas.flatten = [] → s'.tcId = s.tcId) ∧
      ∀ toolCall, calls = [toolCall] →
        (s.tcId = toolCall.callId ∧ s.tcName = toolCall.name ∨
          deltas.flatten.head?.map ToolFragment.header = some true) →
        s'.tcId = toolCall.callId ∧ s'.tcName = toolCall.name := by
  induction h generalizing s with
  | nil =>
      refine ⟨s, rfl, rfl, (List.append_nil _).symm, fun _ => rfl, ?_⟩
      rintro toolCall - (hs | hhead)
      · exact hs
      · cases hhead
  | @cons frags payload deltas payloads hfirst hrest ih =>
      obtain ⟨obj, ⟨m, delta, tcs, hchoice, hfinish, htools, hfrags⟩, hpayload⟩ := hfirst
      obtain ⟨hcalls, hid, hname, hargs⟩ := handleChoice_delta cb delta hfinish s
      obtain ⟨s', hs', hcalls', hargs', hid', hone'⟩ := ih (s.handleChoice cb (.object m) delta)
      refine ⟨s', ?_, hcalls'.trans hcalls, ?_⟩
      · rw [handleEvents, List.foldlM_cons, processLine_payload cb hpayload hchoice]
        exact hs'
      rw [readArguments, List.flatMap_cons, hargs', hargs, List.flatten_cons]
      cases hfrags with
      | nil =>
        have hnone : s.addToolCall delta = s :=
          addToolCall_of_forall_ne (fun tc tcs heq => by
            rw [htools] at heq
            cases heq) s
        rw [hnone] at hid hname ⊢
        refine ⟨rfl, fun hflat => (hid' hflat).trans hid, fun toolCall hone hbefore => ?_⟩
        rw [List.nil_append] at hbefore
        rw [← hid, ← hname] at hbefore
        exact hone' toolCall hone hbefore
      | @cons frag tc frags tcs hfrag hfrags =>
        obtain ⟨toolCall, hget, hencodes⟩ := hfrag
        obtain ⟨hfid, hfname, hfargs⟩ := addToolCall_cons htools hencodes s
        refine ⟨?_, nofun, fun toolCall' hone hbefore => hone' toolCall' hone (Or.inl ?_)⟩
        · rw [hfargs, List.take_succ_cons, List.take_zero, List.flatMap_singleton,
            List.append_assoc, readArguments]
        · have heq : toolCall = toolCall' := by
            rw [hone, List.getElem?_singleton] at hget
            split_ifs at hget
            exact (Option.some.inj hget).symm
          rw [hid, hname, hfid, hfname, heq]
          rcases hbefore with hs | hhead
          · rw [hs.1, hs.2, ite_self, ite_self]
            exact ⟨rfl, rfl⟩
          · have hheader : frag.header = true := Option.some.inj hhead
            rw [if_pos hheader, if_pos hheader]
            exact ⟨rfl, rfl⟩

theorem flatMap_text_eq (frags : List ToolFragment) :
    frags.flatMap ToolFragment.text =
      (frags.take 1).flatMap ToolFragment.text ++ frags.tail.flatMap ToolFragment.text := by
  rw [← List.flatMap_append, ← List.drop_one, List.take_append_drop]

theorem readArguments_sublist (deltas : List (List ToolFragment)) :
    (readArguments deltas).Sublist (deltas.flatten.flatMap ToolFragment.text) := by
  induction deltas with
  | nil => exact List.Sublist.refl _
  | cons frags deltas ih =>
      rw [readArguments, List.flatMap_cons, List.flatten_cons, List.flatMap_append,
        flatMap_text_eq frags]
      exact (List.sublist_append_left _ _).append ih

/-- What is read of a turn is all there is exactly if only first fragments carry something. -/
theorem readArguments_eq_iff (deltas : List (List ToolFragment)) :
    readArguments deltas = deltas.flatten.flatMap ToolFragment.text ↔
      ∀ frags ∈ deltas, ∀ frag ∈ frags.tail, frag.text = [] := by
  induction deltas with
  | nil => exact iff_of_true rfl nofun
  | cons frags deltas ih =>
      have hlength := (readArguments_sublist deltas).length_le
      rw [List.forall_mem_cons, ← ih, ← List.flatMap_eq_nil_iff, List.flatten_cons,
        List.flatMap_append, flatMap_text_eq, List.append_assoc, readArguments, List.flatMap_cons,
        ← readArguments, List.append_cancel_left_eq]
      constructor
      · intro h
        -- the text that is not read would make the two differ in length
        have htail : frags.tail.flatMap ToolFragment.text = [] := by
          rw [h, List.length_append] at hlength
          exact List.eq_nil_of_length_eq_zero (by omega)
        rw [htail, List.nil_append] at h
        exact ⟨htail, h⟩
      · rintro ⟨htail, h⟩
        rw [htail, List.nil_append, h]

end SSELineState

/-! ## Turns -/

namespace SSEParser

open SSELineState (handleEvents readArguments)

/-- Nothing of an earlier turn is left. -/
structure AtTurnStart (p : SSEParser) : Prop where
  buf : p.buf = []
  tcId : p.tcId = []
  tcName : p.tcName = []
  tcArgs : p.tcArgs = []

variable {lib : JsonLib ν} {cb : SSECallbacks}

theorem handleLine_event {obj : Json ν} {payload : Str} (h : IsPayload lib obj payload)
    (s : SSELineState) :
    handleLine lib cb s (str "data: " ++ payload) = s.processLine lib cb (str "data: " ++ payload) := by
  have hlast : (str "data: " ++ payload).getLast? ≠ some 13 := by
    rw [List.getLast?_append]
    cases hpayload : payload.getLast? with
    | none => decide
    | some c =>
      rw [Option.some_or, ← hpayload]
      exact h.carriage
  rw [handleLine, stripCr, if_neg hlast]

/-- The lines of a list of events, which an event and an empty line each. -/
theorem foldlM_events (cb : SSECallbacks) {payloads : List Str}
    (h : ∀ payload ∈ payloads, ∃ obj, IsPayload lib obj payload) (s : SSELineState) :
    (LineBuffer.cut newline (payloads.flatMap eventText)).1.foldlM (handleLine lib cb) s =
        handleEvents cb lib payloads s ∧
      (LineBuffer.cut newline (payloads.flatMap eventText)).2 = [] := by
  induction payloads generalizing s with
  | nil => exact ⟨rfl, rfl⟩
  | cons payload payloads ih =>
      rw [List.forall_mem_cons] at h
      obtain ⟨⟨obj, hpayload⟩, hrest⟩ := h
      have hline : newline ∉ str "data: " ++ payload := by
        rw [List.mem_append, not_or]
        exact ⟨by decide, hpayload.newline⟩
      have hsplit : (payload :: payloads).flatMap eventText =
          (str "data: " ++ payload) ++ newline :: ([] ++ newline :: payloads.flatMap eventText) := by
        have hend : str "\n\n" = [newline, newline] := by decide
        rw [List.flatMap_cons, eventText, hend]
        simp only [List.append_assoc, List.cons_append, List.nil_append]
      rw [hsplit, LineBuffer.cut_append_cons hline, LineBuffer.cut_append_cons List.not_mem_nil]
      refine ⟨?_, (ih hrest s).2⟩
      rw [List.foldlM_cons, handleLine_event hpayload, handleEvents, List.foldlM_cons]
      cases s.processLine lib cb (str "data: " ++ payload) with
      | none => rfl
      | some s' => exact (ih hrest s').1

theorem isPayload_of_forall₂ {calls : List ToolCall} {deltas : List (List ToolFragment)}
    {payloads : List Str}
    (h : List.Forall₂ (fun frags payload =>
      ∃ obj, EncodesDelta calls frags obj ∧ IsPayload lib obj payload) deltas payloads) :
    ∀ payload ∈ payloads, ∃ obj, IsPayload lib obj payload := by
  induction h with
  | nil => exact nofun
  | cons hfirst _ ih =>
      obtain ⟨obj, -, hpayload⟩ := hfirst
      exact List.forall_mem_cons.2 ⟨⟨obj, hpayload⟩, ih⟩

/-- What a turn leaves: its end reports what was put together of its deltas, if that has an
identifier. -/
theorem feed_turn (hcb : cb.toolCb = true) {calls : List ToolCall} {deltas : List (List ToolFragment)}
    {text : Str} (hturn : IsTurn lib calls deltas text) {chunks : List Str}
    (hchunks : chunks.flatten = text) {p : SSEParser} (hp : p.AtTurnStart) :
    ∃ (p' : SSEParser) (s : SSELineState), chunks.foldlM (feed lib cb) p = some p' ∧ p'.AtTurnStart ∧
      p'.toolCalls = p.toolCalls ++ (if s.tcId = [] then [] else [⟨s.tcId, s.tcName, s.tcArgs⟩]) ∧
      s.tcArgs = readArguments deltas ∧ (deltas.flatten = [] → s.tcId = []) ∧
      ∀ toolCall, calls = [toolCall] → s.tcId = toolCall.callId ∧ s.tcName = toolCall.name := by
  obtain ⟨payloads, ending, htext, hdeltas, obj, ⟨m, delta, hchoice, hfinish, htools⟩, hending⟩ :=
    hturn.text
  obtain ⟨s, hs, hcalls, hargs, hempty, hone⟩ :=
    SSELineState.handleEvents_deltas cb hdeltas p.toSSELineState
  obtain ⟨hcalls', hid', hname', hargs'⟩ :=
    SSELineState.handleChoice_end cb hfinish htools hcb s
  have hpayloads : ∀ payload ∈ payloads ++ [ending], ∃ obj, IsPayload lib obj payload :=
    List.forall_mem_append.2
      ⟨isPayload_of_forall₂ hdeltas, List.forall_mem_singleton.2 ⟨obj, hending⟩⟩
  have hlines := foldlM_events cb hpayloads p.toSSELineState
  have hevents : handleEvents cb lib (payloads ++ [ending]) p.toSSELineState =
      some (s.handleChoice cb (.object m) delta) := by
    rw [handleEvents, List.foldlM_append, ← handleEvents, hs, Option.bind_eq_bind, Option.bind_some,
      List.foldlM_cons, SSELineState.processLine_payload cb hending hchoice s]
    rfl
  have hbytes : text = (payloads ++ [ending]).flatMap eventText := by
    rw [htext, List.flatMap_append, List.flatMap_singleton]
  refine ⟨{ s.handleChoice cb (.object m) delta with buf := [] }, s, ?_, ⟨rfl, hid', hname', hargs'⟩,
    ?_, ?_, ?_, ?_⟩
  · have hfold := foldlM_feed_eq lib cb chunks (p.buf, p.toSSELineState)
    rw [LineBuffer.feed_flatten newline (handleLine lib cb) (by rw [hp.buf]; exact List.not_mem_nil),
      hchunks, LineBuffer.feed, hp.buf, List.nil_append, hbytes, hlines.1, hlines.2, hevents] at hfold
    have hself : ({ p.toSSELineState with buf := [] } : SSEParser) = p := by rw [← hp.buf]
    rw [← hself]
    exact hfold
  · exact hcalls'.trans (by rw [hcalls])
  · rw [hargs, hp.tcArgs, List.nil_append]
  · exact fun hflat => (hempty hflat).trans hp.tcId
  · intro toolCall hcall
    refine hone toolCall hcall (Or.inr (hturn.fragments.head_header ?_))
    rw [hcall]
    rfl

/-- A turn is put together again exactly if it has at most one call and only the first fragment of each
delta carries a piece of its arguments. -/
theorem reassembles_iff (hcb : cb.toolCb = true) {calls : List ToolCall}
    {deltas : List (List ToolFragment)} {text : Str} (hturn : IsTurn lib calls deltas text)
    {chunks : List Str} (hchunks : chunks.flatten = text) {p : SSEParser} (hp : p.AtTurnStart) :
    (∃ p' reported, chunks.foldlM (feed lib cb) p = some p' ∧ p'.AtTurnStart ∧
        p'.toolCalls = p.toolCalls ++ reported ∧ reported.Perm calls) ↔
      calls.length ≤ 1 ∧ ∀ frags ∈ deltas, ∀ frag ∈ frags.tail, frag.text = [] := by
  obtain ⟨p₁, s, hfeed, hstart, hcalls, hargs, hempty, hone⟩ := feed_turn hcb hturn hchunks hp
  have hreported : (∃ p' reported, chunks.foldlM (feed lib cb) p = some p' ∧ p'.AtTurnStart ∧
      p'.toolCalls = p.toolCalls ++ reported ∧ reported.Perm calls) ↔
      (if s.tcId = [] then [] else [(⟨s.tcId, s.tcName, s.tcArgs⟩ : ToolCall)]).Perm calls := by
    constructor
    · rintro ⟨p', reported, hfeed', -, hcalls', hperm⟩
      rw [hfeed, Option.some.injEq] at hfeed'
      rw [← hfeed', hcalls, List.append_cancel_left_eq] at hcalls'
      rwa [hcalls']
    · exact fun hperm => ⟨p₁, _, hfeed, hstart, hcalls, hperm⟩
  rw [hreported]
  match calls, hturn, hone with
  | [], hturn, _ =>
    have hflat := hturn.fragments.flatten_eq_nil
    rw [if_pos (hempty hflat)]
    refine iff_of_true (List.Perm.refl _) ⟨Nat.zero_le _, fun frags hfrags => ?_⟩
    rw [List.flatten_eq_nil_iff.1 hflat frags hfrags]
    exact nofun
  | [toolCall], hturn, hone =>
    obtain ⟨hid, hname⟩ := hone toolCall rfl
    rw [if_neg (by rw [hid]; exact hturn.callId toolCall List.mem_cons_self), List.perm_singleton,
      List.singleton_inj, hid, hname, hargs, ToolCall.mk.injEq,
      ← SSELineState.readArguments_eq_iff, hturn.fragments.flatMap_text]
    exact ⟨fun h => ⟨le_refl _, h.2.2⟩, fun h => ⟨rfl, rfl, h.2⟩⟩
  | first :: second :: rest, _, _ =>
    refine iff_of_false (fun hperm => ?_) fun h => absurd h.1 (by simp)
    have hlength := hperm.length_eq
    split_ifs at hlength
    simp at hlength

end SSEParser

/-! ## Turns with one call and with two -/

/-- The choices of an event with the delta. -/
def choicesJson (choice : List (Str × Json ℚ)) : Json ℚ :=
  .object [(str "choices", .array [.object choice])]

/-- The delta with all of a call. -/
def callJson (p : ToolCall × ℕ) : Json ℚ :=
  choicesJson [(str "delta", .object [(str "tool_calls", .array [.object [
    (str "function", .object [
      (str "arguments", .string p.1.arguments), (str "name", .string p.1.name)]),
    (str "id", .string p.1.callId),
    (str "index", .int p.2)]])])]

/-- The chunk that ends a call. -/
def endJson : Json ℚ :=
  choicesJson [(str "delta", .object []), (str "finish_reason", .string (str "tool_calls"))]

/-- The fragment that is all of a call. -/
def wholeCall (p : ToolCall × ℕ) : ToolFragment := ⟨p.2, true, p.1.arguments⟩

/-- A call of `add`. -/
def addCall : ToolCall := ⟨str "a", str "add", str "[1]"⟩

/-- A call of `sub`. -/
def subCall : ToolCall := ⟨str "b", str "sub", str "[2]"⟩

/-- The library as it behaves on the events of a turn with both calls. -/
def turnJson : JsonLib ℚ :=
  JsonLib.on Json.showRat [callJson (addCall, 0), callJson (subCall, 1), endJson]

/-- A turn that sends each call at once. -/
def turnText (calls : List ToolCall) : Str :=
  (calls.zipIdx.map fun p => (callJson p).compact Json.showRat).flatMap eventText ++
    eventText (endJson.compact Json.showRat)

theorem encodesDelta_wholeCall {calls : List ToolCall} {p : ToolCall × ℕ} (h : calls[p.2]? = some p.1) :
    EncodesDelta calls [wholeCall p] (callJson p) :=
  ⟨_, _, _, ⟨[], rfl, rfl⟩, rfl, rfl,
    List.Forall₂.cons ⟨p.1, h, ⟨rfl, rfl, rfl, rfl⟩⟩ List.Forall₂.nil⟩

theorem encodesEnd_endJson : EncodesEnd endJson :=
  ⟨_, _, ⟨[], rfl, rfl⟩, by decide, nofun⟩

theorem isPayload_addCall :
    IsPayload turnJson (callJson (addCall, 0)) ((callJson (addCall, 0)).compact Json.showRat) :=
  ⟨rfl, by decide, by decide, by decide⟩

theorem isPayload_subCall :
    IsPayload turnJson (callJson (subCall, 1)) ((callJson (subCall, 1)).compact Json.showRat) :=
  ⟨rfl, by decide, by decide, by decide⟩

theorem isPayload_endJson : IsPayload turnJson endJson (endJson.compact Json.showRat) :=
  ⟨rfl, by decide, by decide, by decide⟩

theorem isTurn_addCall :
    IsTurn turnJson [addCall] [[wholeCall (addCall, 0)]] (turnText [addCall]) where
  callId := by decide
  fragments :=
    { index := by decide
      header := by decide
      text := fun i => by
        match i with
        | 0 => exact fun toolCall h => (congrArg ToolCall.arguments (Option.some.inj h) :)
        | i + 1 => exact nofun }
  text :=
    ⟨_, _, rfl, List.Forall₂.cons ⟨_, encodesDelta_wholeCall rfl, isPayload_addCall⟩ List.Forall₂.nil,
      endJson, encodesEnd_endJson, isPayload_endJson⟩

/-- A turn with one call. -/
theorem reassembles_addCall :
    ∃ p' reported, [turnText [addCall]].foldlM (SSEParser.feed turnJson {}) {} = some p' ∧
      p'.AtTurnStart ∧ p'.toolCalls = [] ++ reported ∧ reported.Perm [addCall] :=
  (SSEParser.reassembles_iff rfl isTurn_addCall (List.append_nil _) ⟨rfl, rfl, rfl, rfl⟩).2 (by decide)

/-- Of two calls the first one gets lost, and its arguments come with the second one. -/
theorem two_calls_reported_as_one :
    IsTurn turnJson [addCall, subCall] [[wholeCall (addCall, 0)], [wholeCall (subCall, 1)]]
      (turnText [addCall, subCall]) ∧
    (SSEParser.feed turnJson {} {} (turnText [addCall, subCall])).map (·.toolCalls) =
      some [⟨str "b", str "sub", str "[1][2]"⟩] := by
  refine ⟨?_, by decide +kernel⟩
  exact
    { callId := by decide
      fragments :=
        { index := by decide
          header := by decide
          text := fun i => by
            match i with
            | 0 => exact fun toolCall h => (congrArg ToolCall.arguments (Option.some.inj h) :)
            | 1 => exact fun toolCall h => (congrArg ToolCall.arguments (Option.some.inj h) :)
            | i + 2 => exact nofun }
      text :=
        ⟨_, _, rfl,
          List.Forall₂.cons ⟨_, encodesDelta_wholeCall rfl, isPayload_addCall⟩
            (List.Forall₂.cons ⟨_, encodesDelta_wholeCall rfl, isPayload_subCall⟩ List.Forall₂.nil),
          endJson, encodesEnd_endJson, isPayload_endJson⟩ }

end LlmGateway
