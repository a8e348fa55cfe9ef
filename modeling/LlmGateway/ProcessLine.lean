import LlmGateway.SSEParser

/-!
# The accesses of a line

`process_line` once more, with each access to the parsed value and each call of a callback as a step of
its own.  An access to a value of the wrong type throws; a `const` value that is asked for a member it does
not have, or for an element, does something that is not defined.  A callback returns or throws.

`processLine_eq`: while the callbacks return, this is the parser of `SSELineState.processLine`.
`accesses_guarded_iff`: of the accesses one is not guarded, the one to `delta`.
-/

namespace LlmGateway

variable {ν : Type}

/-- What a callback throws. -/
inductive Thrown
  /-- A `std::exception`. -/
  | exception
  | other
  deriving DecidableEq

/-- How the handling of a line can end early. -/
inductive Fault
  | thrown (t : Thrown)
  /-- An access that is not defined. -/
  | undefined
  deriving DecidableEq

/-- What a call of a callback throws, after the calls so far. -/
abbrev CallbackEnds := List SSECall → SSECall → Option Thrown

/-- All calls return. -/
def CallbackEnds.returning : CallbackEnds := fun _ _ => none

/-- A program over the state of a parser, which can fail. -/
abbrev LineM := EStateM Fault SSELineState

namespace LineM

/-! ## Accesses -/

/-- `j[key]`, for a `const` value. -/
def constAt (j : Json ν) (key : String) : LineM (Json ν) :=
  match j with
  | .object m =>
      match m.lookup (str key) with
      | some v => pure v
      | none => throw .undefined
  | _ => throw (.thrown .exception)

/-- `j[0]`, for a `const` value. -/
def constFirst (j : Json ν) : LineM (Json ν) :=
  match j with
  | .array (x :: _) => pure x
  | .array [] => throw .undefined
  | _ => throw (.thrown .exception)

/-- `j[key]`, for a value that can be changed: a member that is missing is added. -/
def memberAt (j : Json ν) (key : String) : LineM (Json ν) :=
  match j with
  | .object m => pure ((m.lookup (str key)).getD .null)
  | .null => pure .null
  | _ => throw (.thrown .exception)

/-- `j[0]`, for a value that can be changed: an element that is missing is added. -/
def firstAt (j : Json ν) : LineM (Json ν) :=
  match j with
  | .array xs => pure (xs.headD .null)
  | .null => pure .null
  | _ => throw (.thrown .exception)

/-- `j.contains(key)`. -/
def contains (j : Json ν) (key : String) : Bool := (j.member key).isSome

/-- `j.is_array()`. -/
def isArray : Json ν → Bool
  | .array _ => true
  | _ => false

/-- `j.is_string()`. -/
def isString : Json ν → Bool
  | .string _ => true
  | _ => false

/-- `j.get<std::string>()`. -/
def getString (j : Json ν) : LineM Str :=
  match j with
  | .string s => pure s
  | _ => throw (.thrown .exception)

/-- `j[key].get<std::string>()`, if `j.contains(key) && j[key].is_string()`. -/
def stringAt (j : Json ν) (key : String) : LineM (Option Str) := do
  if contains j key then
    if isString (← constAt j key) then return some (← getString (← constAt j key))
    else return none
  else return none

/-- Change the state by `j[key].get<std::string>()`, if `j.contains(key) && j[key].is_string()`. -/
def storeString (j : Json ν) (key : String) (store : Str → SSELineState → SSELineState) : LineM Unit := do
  match ← stringAt j key with
  | some text => modify (store text)
  | none => pure ()

/-- `delta.contains("tool_calls") && delta["tool_calls"].is_array() && !delta["tool_calls"].empty()`. -/
def hasToolCalls (delta : Json ν) : LineM Bool := do
  if contains delta "tool_calls" then
    if isArray (← constAt delta "tool_calls") then return !(← constAt delta "tool_calls").isEmpty
    else return false
  else return false

/-! ## The line -/

/-- The fragment of a tool call in a delta. -/
def readToolCall (delta : Json ν) : LineM Unit := do
  if ← hasToolCalls delta then
    let tc ← constFirst (← constAt delta "tool_calls")
    storeString tc "id" fun tcId s => { s with tcId }
    if contains tc "function" then
      let fn ← constAt tc "function"
      storeString fn "name" fun tcName s => { s with tcName }
      storeString fn "arguments" fun args s => { s with tcArgs := s.tcArgs ++ args }

variable (lib : JsonLib ν) (cb : SSECallbacks) (ends : CallbackEnds)

/-- Call a callback. -/
def invoke (c : SSECall) : LineM Unit := do
  let before := (← getThe SSELineState).calls
  modify fun s => s.call c
  match ends before c with
  | none => pure ()
  | some t => throw (.thrown t)

/-- Forget the tool call that was put together. -/
def clearToolCall (s : SSELineState) : SSELineState := { s with tcId := [], tcName := [], tcArgs := [] }

/-- The tool call that was put together is reported, if it has an id. -/
def reportToolCall : LineM Unit := do
  let s ← getThe SSELineState
  if cb.toolCb ∧ s.tcId ≠ [] then invoke ends (.toolCall s.tcId s.tcName s.tcArgs) else pure ()

/-- What follows the fragment of a tool call: the turn of the model ends with its tool call, or there is a
token. -/
def endOrToken (c0 delta : Json ν) : LineM Unit := do
  if (← stringAt c0 "finish_reason") = some (str "tool_calls") then
    reportToolCall cb ends
    modify clearToolCall
    invoke ends .done
  else
    match ← stringAt delta "content" with
    | some tok => if tok ≠ [] ∧ cb.tokCb then invoke ends (.token tok) else pure ()
    | none => pure ()

/-- The `try` block. -/
def handlePayload (payload : Str) : LineM Unit := do
  match lib.parse payload with
  | none => throw (.thrown .exception)
  | some obj =>
      if contains obj "choices" then
        if !(← memberAt obj "choices").isEmpty then
          let c0 ← firstAt (← memberAt obj "choices")
          let delta ← constAt c0 "delta"
          readToolCall delta
          endOrToken cb ends c0 delta

/-- The handler of the `try` block. -/
def recover (payload : Str) (e : Fault) : LineM Unit :=
  if e = .thrown .exception then
    if payload ≠ [] ∧ cb.tokCb then invoke ends (.token payload) else pure ()
  else throw e

/-- `process_line`, access by access. -/
def processLine (line : Str) : LineM Unit :=
  if line = [] ∨ line.head? = some 58 then pure ()
  else if ¬ str "data: " <+: line then pure ()
  else
    let payload := line.drop 6
    if payload = str "[DONE]" then invoke ends .done
    else tryCatch (handlePayload lib cb ends payload) (recover cb ends payload)

/-! ## Rules -/

section Rules

variable {α β : Type} {x : LineM α} {s s' : SSELineState}

theorem bind_ok {a : α} (h : x s = .ok a s') (f : α → LineM β) : (x >>= f) s = f a s' := by
  show EStateM.bind x f s = f a s'
  rw [EStateM.bind, h]

theorem bind_error {e : Fault} (h : x s = .error e s') (f : α → LineM β) :
    (x >>= f) s = .error e s' := by
  show EStateM.bind x f s = .error e s'
  rw [EStateM.bind, h]

theorem get_eq : (getThe SSELineState : LineM SSELineState) s = .ok s s := rfl

theorem modify_eq (f : SSELineState → SSELineState) : (modify f : LineM Unit) s = .ok () (f s) := rfl

theorem tryCatch_ok {a : α} (h : x s = .ok a s') (handler : Fault → LineM α) :
    (tryCatch x handler) s = .ok a s' := by
  show EStateM.tryCatch x handler s = .ok a s'
  rw [EStateM.tryCatch, h]

theorem tryCatch_error {e : Fault} (h : x s = .error e s') (handler : Fault → LineM α) :
    (tryCatch x handler) s = handler e s' := by
  show EStateM.tryCatch x handler s = handler e s'
  rw [EStateM.tryCatch, h]
  rfl

end Rules

/-! ## Guarded accesses -/

variable {s : SSELineState}

theorem constAt_eq {j v : Json ν} {key : String} (h : j.member key = some v) :
    constAt j key s = .ok v s := by
  cases j with
  | object m =>
    have hlookup : m.lookup (str key) = some v := h
    rw [constAt, hlookup]
    rfl
  | _ => cases h

theorem contains_eq {j v : Json ν} {key : String} (h : j.member key = some v) : contains j key = true := by
  rw [contains, h, Option.isSome_some]

theorem not_contains {j : Json ν} {key : String} (h : j.member key = none) : ¬contains j key = true := by
  rw [contains, h, Option.isSome_none]
  exact Bool.false_ne_true

theorem stringAt_eq (j : Json ν) (key : String) :
    stringAt j key s = .ok ((j.member key).bind Json.getString) s := by
  unfold stringAt
  cases h : j.member key with
  | none =>
    rw [if_neg (not_contains h)]
    rfl
  | some v =>
    rw [if_pos (contains_eq h), bind_ok (constAt_eq h)]
    cases v with
    | string text =>
      have hstring : isString (.string text : Json ν) = true := rfl
      rw [if_pos hstring, bind_ok (constAt_eq h)]
      rfl
    | _ => rfl

theorem hasToolCalls_eq (delta : Json ν) : ∃ b, hasToolCalls delta s = .ok b s ∧
    (b = true ↔ ∃ tc rest, delta.member "tool_calls" = some (.array (tc :: rest))) := by
  unfold hasToolCalls
  cases h : delta.member "tool_calls" with
  | none =>
    rw [if_neg (not_contains h)]
    exact ⟨false, rfl, by simp⟩
  | some v =>
    rw [if_pos (contains_eq h), bind_ok (constAt_eq h)]
    cases v with
    | array xs =>
      have harray : isArray (.array xs) = true := rfl
      rw [if_pos harray, bind_ok (constAt_eq h)]
      cases xs with
      | nil => exact ⟨false, rfl, by simp⟩
      | cons tc rest => exact ⟨true, rfl, by simp⟩
    | _ => exact ⟨false, rfl, by simp⟩

theorem storeString_eq (j : Json ν) (key : String) (store : Str → SSELineState → SSELineState) :
    storeString j key store s =
      .ok () (((j.member key).bind Json.getString).elim s fun text => store text s) := by
  unfold storeString
  rw [bind_ok (stringAt_eq j key)]
  cases (j.member key).bind Json.getString with
  | none => rfl
  | some text => rfl

/-- All accesses to a fragment of a tool call are guarded. -/
theorem readToolCall_eq (delta : Json ν) : readToolCall delta s = .ok () (s.addToolCall delta) := by
  obtain ⟨b, hb, hiff⟩ := hasToolCalls_eq (s := s) delta
  unfold readToolCall
  rw [bind_ok hb]
  cases b with
  | false =>
    rw [if_neg Bool.false_ne_true, SSELineState.addToolCall_of_forall_ne]
    · rfl
    · intro tc rest h
      exact absurd (hiff.2 ⟨tc, rest, h⟩) Bool.false_ne_true
  | true =>
    obtain ⟨tc, rest, h⟩ := hiff.1 rfl
    have hfirst : constFirst (.array (tc :: rest)) s = .ok tc s := rfl
    rw [if_pos rfl, bind_ok (constAt_eq h), bind_ok hfirst, bind_ok (storeString_eq tc "id" _),
      SSELineState.addToolCall_of_cons h]
    cases hfn : tc.member "function" with
    | none =>
      rw [if_neg (not_contains hfn)]
      cases (tc.member "id").bind Json.getString with
      | none => simp [pure, EStateM.pure]
      | some tcId => simp [pure, EStateM.pure]
    | some fn =>
      rw [if_pos (contains_eq hfn), bind_ok (constAt_eq hfn), bind_ok (storeString_eq fn "name" _),
        storeString_eq fn "arguments" _, Option.bind_some, Option.bind_some]
      generalize (tc.member "id").bind Json.getString = tcId
      generalize (fn.member "name").bind Json.getString = tcName
      generalize (fn.member "arguments").bind Json.getString = args
      cases tcId <;> cases tcName <;> cases args
      all_goals simp

/-! ## Chunks -/

/-- What a payload is, read as a chunk of a completion. -/
inductive Chunk (ν : Type)
  /-- It cannot be parsed, or has something else where the first choice is expected. -/
  | malformed
  /-- It has no choices. -/
  | empty
  /-- The first choice has no delta. -/
  | noDelta
  | choice (c0 delta : Json ν)

/-- What the payload of a line is. -/
def readChunk (lib : JsonLib ν) (payload : Str) : Chunk ν :=
  match lib.parse payload with
  | none => .malformed
  | some obj =>
      match obj.member "choices" with
      | none => .empty
      | some choices =>
          if choices.isEmpty then .empty
          else
            match choices.first with
            | some (.object m) =>
                match m.lookup (str "delta") with
                | none => .noDelta
                | some delta => .choice (.object m) delta
            | _ => .malformed

/-- The first of the choices of a chunk is an object without a delta. -/
def NoDelta (lib : JsonLib ν) (payload : Str) : Prop :=
  ∃ obj m rest, lib.parse payload = some obj ∧ obj.member "choices" = some (.array (.object m :: rest)) ∧
    m.lookup (str "delta") = none

theorem first_eq_some {j x : Json ν} (h : j.first = some x) : ∃ rest, j = .array (x :: rest) := by
  cases j with
  | array xs =>
    cases xs with
    | nil => cases h
    | cons y rest => exact ⟨rest, by rw [← Option.some.inj h]⟩
  | _ => cases h

theorem readChunk_eq_noDelta_iff (lib : JsonLib ν) (payload : Str) :
    readChunk lib payload = .noDelta ↔ NoDelta lib payload := by
  constructor
  · intro h
    unfold readChunk at h
    split at h
    · cases h
    · next obj hparse =>
      split at h
      · cases h
      · next choices hchoices =>
        split_ifs at h
        split at h
        · next m hfirst =>
          split at h
          · next hdelta =>
            obtain ⟨rest, rfl⟩ := first_eq_some hfirst
            exact ⟨obj, m, rest, hparse, hchoices, hdelta⟩
          · cases h
        · cases h
  · rintro ⟨obj, m, rest, hparse, hchoices, hdelta⟩
    have hempty : ¬(Json.array (.object m :: rest)).isEmpty = true := Bool.false_ne_true
    simp only [readChunk, hparse, hchoices, if_neg hempty, Json.first, hdelta]

variable (lib : JsonLib ν) (cb : SSECallbacks) (ends : CallbackEnds)

/-- The `try` block before a callback is called. -/
theorem handlePayload_eq (payload : Str) : handlePayload lib cb ends payload s =
    match readChunk lib payload with
    | .malformed => .error (.thrown .exception) s
    | .empty => .ok () s
    | .noDelta => .error .undefined s
    | .choice c0 delta => endOrToken cb ends c0 delta (s.addToolCall delta) := by
  unfold handlePayload readChunk
  cases lib.parse payload with
  | none => rfl
  | some obj =>
    dsimp only
    cases hchoices : obj.member "choices" with
    | none =>
      rw [if_neg (not_contains hchoices)]
      rfl
    | some choices =>
      have hmember : memberAt obj "choices" s = .ok choices s := by
        cases obj with
        | object m =>
          have hlookup : m.lookup (str "choices") = some choices := hchoices
          rw [memberAt, hlookup]
          rfl
        | _ => cases hchoices
      rw [if_pos (contains_eq hchoices), bind_ok hmember]
      dsimp only
      by_cases hempty : choices.isEmpty = true
      · rw [if_pos hempty, hempty]
        rfl
      · have hnonempty : (!choices.isEmpty) = true := by simpa using hempty
        rw [if_neg hempty, if_pos hnonempty, bind_ok hmember]
        cases choices with
        | array xs =>
          cases xs with
          | nil => exact absurd rfl hempty
          | cons c0 rest =>
            have hfirst : firstAt (.array (c0 :: rest)) s = .ok c0 s := rfl
            rw [bind_ok hfirst]
            cases c0 with
            | object m =>
              dsimp only [Json.first]
              cases hdelta : m.lookup (str "delta") with
              | none =>
                have hat : constAt (.object m) "delta" s = .error .undefined s := by
                  rw [constAt, hdelta]
                  rfl
                rw [bind_error hat]
              | some delta =>
                have hmember : (Json.object m).member "delta" = some delta := hdelta
                rw [bind_ok (constAt_eq hmember), bind_ok (readToolCall_eq delta)]
            | _ => rfl
        | null => exact absurd rfl hempty
        | _ => rfl

/-! ## Callbacks -/

/-- What the first of some calls throws that does not return. -/
def firstThrown (ends : CallbackEnds) : List SSECall → List SSECall → Option Thrown
  | _, [] => none
  | before, c :: cs =>
      match ends before c with
      | some t => some t
      | none => firstThrown ends (before ++ [c]) cs

/-- The calls that a choice asks for, after the fragment of a tool call has been added. -/
def choiceCalls (cb : SSECallbacks) (c0 delta : Json ν) (s : SSELineState) : List SSECall :=
  if (c0.member "finish_reason").bind Json.getString = some (str "tool_calls") then
    (if cb.toolCb ∧ s.tcId ≠ [] then [.toolCall s.tcId s.tcName s.tcArgs] else []) ++ [.done]
  else
    match (delta.member "content").bind Json.getString with
    | some tok => if tok ≠ [] ∧ cb.tokCb then [.token tok] else []
    | none => []

theorem invoke_returns {c : SSECall} (h : ends s.calls c = none) : invoke ends c s = .ok () (s.call c) := by
  rw [invoke, bind_ok get_eq, bind_ok (modify_eq fun s => s.call c), h]
  rfl

theorem invoke_throws {c : SSECall} {t : Thrown} (h : ends s.calls c = some t) :
    invoke ends c s = .error (.thrown t) (s.call c) := by
  rw [invoke, bind_ok get_eq, bind_ok (modify_eq fun s => s.call c), h]
  rfl

/-- One call throws what the first of one call throws. -/
theorem invoke_eq (s : SSELineState) (c : SSECall) :
    invoke ends c s =
      match firstThrown ends s.calls [c] with
      | none => .ok () (s.call c)
      | some t => .error (.thrown t) (s.call c) := by
  rw [firstThrown]
  cases h : ends s.calls c with
  | none => exact invoke_returns ends h
  | some t => exact invoke_throws ends h

theorem reportToolCall_eq (h : cb.toolCb ∧ s.tcId ≠ []) :
    reportToolCall cb ends s = invoke ends (.toolCall s.tcId s.tcName s.tcArgs) s := by
  rw [reportToolCall, bind_ok get_eq, if_pos h]

theorem reportToolCall_eq_of_not (h : ¬(cb.toolCb ∧ s.tcId ≠ [])) : reportToolCall cb ends s = .ok () s := by
  rw [reportToolCall, bind_ok get_eq, if_neg h]
  rfl

/-- A choice calls the callbacks that it asks for, up to the first that throws. -/
theorem endOrToken_eq (c0 delta : Json ν) (s : SSELineState) :
    ∃ s' pre, s'.calls = s.calls ++ pre ∧ pre <+: choiceCalls cb c0 delta (s.addToolCall delta) ∧
      endOrToken cb ends c0 delta (s.addToolCall delta) =
        match firstThrown ends s.calls (choiceCalls cb c0 delta (s.addToolCall delta)) with
        | none => .ok () (s.handleChoice cb c0 delta)
        | some t => .error (.thrown t) s' := by
  rw [← SSELineState.addToolCall_calls delta s]
  unfold SSELineState.handleChoice endOrToken choiceCalls
  generalize s.addToolCall delta = s
  rw [bind_ok (stringAt_eq c0 "finish_reason")]
  by_cases hfinish : (c0.member "finish_reason").bind Json.getString = some (str "tool_calls")
  · rw [if_pos hfinish, if_pos hfinish]
    dsimp only
    rw [if_pos hfinish]
    by_cases htool : cb.toolCb ∧ s.tcId ≠ []
    · rw [if_pos htool, if_pos htool, List.singleton_append, firstThrown]
      have hreport := reportToolCall_eq cb ends htool
      generalize SSECall.toolCall s.tcId s.tcName s.tcArgs = c at hreport ⊢
      cases hfirst : ends s.calls c with
      | some t =>
        refine ⟨s.call c, [c], rfl, ⟨[.done], rfl⟩, ?_⟩
        rw [bind_error (hreport.trans (invoke_throws ends hfirst))]
      | none =>
        refine ⟨(clearToolCall (s.call c)).call .done, [c, .done],
          by simp [SSELineState.call, clearToolCall], List.prefix_refl _, ?_⟩
        rw [bind_ok (hreport.trans (invoke_returns ends hfirst)), bind_ok (modify_eq _)]
        exact invoke_eq ends (clearToolCall (s.call c)) .done
    · rw [if_neg htool, if_neg htool, List.nil_append,
        bind_ok (reportToolCall_eq_of_not cb ends htool), bind_ok (modify_eq _)]
      exact ⟨(clearToolCall s).call .done, [.done], rfl, List.prefix_refl _,
        invoke_eq ends (clearToolCall s) .done⟩
  · rw [if_neg hfinish, if_neg hfinish]
    dsimp only
    rw [if_neg hfinish, bind_ok (stringAt_eq delta "content")]
    cases (delta.member "content").bind Json.getString with
    | none => exact ⟨s, [], (List.append_nil _).symm, List.prefix_refl _, rfl⟩
    | some tok =>
      dsimp only
      by_cases htok : tok ≠ [] ∧ cb.tokCb
      · rw [if_pos htok, if_pos htok, if_pos htok]
        exact ⟨s.call (.token tok), [.token tok], rfl, List.prefix_refl _, invoke_eq ends s (.token tok)⟩
      · rw [if_neg htok, if_neg htok, if_neg htok]
        exact ⟨s, [], (List.append_nil _).symm, List.prefix_refl _, rfl⟩

/-- The payload of a line that is handled by the `try` block. -/
def chunkText (line : Str) : Option Str :=
  if str "data: " <+: line ∧ line.drop 6 ≠ str "[DONE]" then some (line.drop 6) else none

theorem processLine_of_chunkText {line payload : Str} (h : chunkText line = some payload) :
    processLine lib cb ends line = tryCatch (handlePayload lib cb ends payload) (recover cb ends payload) := by
  rw [chunkText, Option.ite_none_right_eq_some, Option.some.injEq] at h
  obtain ⟨⟨⟨rest, rfl⟩, hdone⟩, rfl⟩ := h
  have hdata : ¬(str "data: " ++ rest = [] ∨ (str "data: " ++ rest).head? = some 58) := by
    rintro (h | h)
    · cases h
    · cases h
  rw [processLine, if_neg hdata, if_neg (not_not_intro (List.prefix_append _ _)), if_neg hdone]

theorem processLine_of_chunkText_none {line : Str} (h : chunkText line = none) :
    processLine lib cb ends line = pure () ∨ processLine lib cb ends line = invoke ends .done := by
  unfold processLine
  dsimp only
  by_cases hcomment : line = [] ∨ line.head? = some 58
  · rw [if_pos hcomment]
    exact .inl rfl
  rw [if_neg hcomment]
  by_cases hdata : str "data: " <+: line
  · by_cases hdone : line.drop 6 = str "[DONE]"
    · rw [if_neg (not_not_intro hdata), if_pos hdone]
      exact .inr rfl
    · rw [chunkText, if_pos ⟨hdata, hdone⟩] at h
      cases h
  · rw [if_pos hdata]
    exact .inl rfl

theorem invoke_ne_undefined (c : SSECall) (s' : SSELineState) : invoke ends c s ≠ .error .undefined s' := by
  cases h : ends s.calls c with
  | none =>
    rw [invoke_returns ends h]
    exact fun heq => by cases heq
  | some t =>
    rw [invoke_throws ends h]
    exact fun heq => by cases heq

theorem endOrToken_ne_undefined (c0 delta : Json ν) (s s' : SSELineState) :
    endOrToken cb ends c0 delta (s.addToolCall delta) ≠ .error .undefined s' := by
  obtain ⟨end', pre, -, -, heq⟩ := endOrToken_eq cb ends c0 delta s
  rw [heq]
  split
  · exact fun h => by cases h
  · exact fun h => by cases h

theorem recover_ne_undefined (payload : Str) {e : Fault} (he : e ≠ .undefined) (s' : SSELineState) :
    recover cb ends payload e s ≠ .error .undefined s' := by
  unfold recover
  split_ifs
  · exact invoke_ne_undefined ends _ s'
  · exact fun h => by cases h
  · intro h
    injection h with h
    exact he h

theorem handlePayload_undefined_iff (payload : Str) :
    (∃ s', handlePayload lib cb ends payload s = .error .undefined s') ↔ NoDelta lib payload := by
  rw [← readChunk_eq_noDelta_iff, handlePayload_eq]
  cases readChunk lib payload with
  | noDelta => exact iff_of_true ⟨s, rfl⟩ rfl
  | choice c0 delta =>
    refine iff_of_false ?_ (fun h => by cases h)
    rintro ⟨s', h⟩
    exact endOrToken_ne_undefined cb ends c0 delta s s' h
  | malformed =>
    refine iff_of_false ?_ (fun h => by cases h)
    rintro ⟨s', h⟩
    cases h
  | empty =>
    refine iff_of_false ?_ (fun h => by cases h)
    rintro ⟨s', h⟩
    cases h

/-- An undefined access is not caught, and the handler makes none. -/
theorem processLine_undefined_iff (line : Str) :
    (∃ s', processLine lib cb ends line s = .error .undefined s') ↔
      ∃ payload, chunkText line = some payload ∧ NoDelta lib payload := by
  cases htext : chunkText line with
  | none =>
    refine iff_of_false ?_ (fun ⟨payload, h, _⟩ => by cases h)
    rintro ⟨s', h⟩
    rcases processLine_of_chunkText_none lib cb ends htext with hline | hline
    · rw [hline] at h
      cases h
    · rw [hline] at h
      exact invoke_ne_undefined ends _ s' h
  | some payload =>
    rw [processLine_of_chunkText lib cb ends htext]
    have hsome : (∃ payload', some payload = some payload' ∧ NoDelta lib payload') ↔ NoDelta lib payload := by
      simp
    rw [hsome, ← handlePayload_undefined_iff lib cb ends (s := s)]
    cases hblock : handlePayload lib cb ends payload s with
    | ok a s₁ =>
      rw [tryCatch_ok hblock]
    | error e s₁ =>
      rw [tryCatch_error hblock]
      by_cases he : e = .undefined
      · subst he
        exact iff_of_true ⟨s₁, rfl⟩ ⟨s₁, rfl⟩
      · refine iff_of_false ?_ ?_
        · rintro ⟨s', h⟩
          exact recover_ne_undefined cb ends payload he s' h
        · rintro ⟨s', h⟩
          injection h with h
          exact he h

/-! ## The parser -/

theorem firstThrown_returning (before cs : List SSECall) : firstThrown .returning before cs = none := by
  induction cs generalizing before with
  | nil => rfl
  | cons c cs ih => exact ih _

/-- The `try` block of the parser whose callbacks return. -/
theorem sseHandlePayload_eq (payload : Str) : s.handlePayload lib cb payload =
    match readChunk lib payload with
    | .malformed => some (.throw s)
    | .empty => some (.ok s)
    | .noDelta => none
    | .choice c0 delta => some (.ok (s.handleChoice cb c0 delta)) := by
  unfold SSELineState.handlePayload readChunk
  cases lib.parse payload with
  | none => rfl
  | some obj =>
    dsimp only
    cases obj.member "choices" with
    | none => rfl
    | some choices =>
      dsimp only
      split_ifs
      · rfl
      · cases choices.first with
        | none => rfl
        | some c0 =>
          cases c0 with
          | object m =>
            dsimp only
            cases m.lookup (str "delta") with
            | none => rfl
            | some delta => rfl
          | _ => rfl

/-- With callbacks that return this is the parser. -/
theorem processLine_eq (line : Str) : processLine lib cb .returning line s =
    (s.processLine lib cb line).elim (.error .undefined s) (.ok ()) := by
  unfold processLine SSELineState.processLine
  dsimp only
  by_cases hcomment : line = [] ∨ line.head? = some 58
  · rw [if_pos hcomment, if_pos hcomment]
    rfl
  by_cases hdata : str "data: " <+: line
  swap
  · rw [if_neg hcomment, if_neg hcomment, if_pos hdata, if_pos hdata]
    rfl
  rw [if_neg hcomment, if_neg hcomment, if_neg (not_not_intro hdata), if_neg (not_not_intro hdata)]
  by_cases hdone : line.drop 6 = str "[DONE]"
  · rw [if_pos hdone, if_pos hdone]
    exact invoke_returns .returning rfl
  · have hblock := handlePayload_eq lib cb .returning (s := s) (line.drop 6)
    rw [if_neg hdone, if_neg hdone, sseHandlePayload_eq]
    generalize line.drop 6 = payload at hblock ⊢
    cases hchunk : readChunk lib payload with
    | malformed =>
      rw [hchunk] at hblock
      rw [tryCatch_error hblock, recover, if_pos rfl]
      by_cases htoken : payload ≠ [] ∧ cb.tokCb
      · rw [if_pos htoken, invoke_returns .returning rfl]
        simp [Outcome.throw, htoken]
      · rw [if_neg htoken]
        simp [Outcome.throw, htoken, pure, EStateM.pure]
    | empty =>
      rw [hchunk] at hblock
      rw [tryCatch_ok hblock]
      rfl
    | noDelta =>
      rw [hchunk] at hblock
      rw [tryCatch_error hblock]
      rfl
    | choice c0 delta =>
      obtain ⟨s', pre, -, -, hend⟩ := endOrToken_eq cb .returning c0 delta s
      rw [firstThrown_returning] at hend
      rw [hchunk] at hblock
      rw [tryCatch_ok (hblock.trans hend)]
      rfl

/-! ## Guards -/

/-- The handling of a line makes no access that is not defined, and with callbacks that return it returns,
exactly if the first choice of the chunk has a delta where it is an object. -/
theorem accesses_guarded_iff (line : Str) (s : SSELineState) :
    ((∀ s', processLine lib cb ends line s ≠ .error .undefined s') ↔
      ∀ payload, chunkText line = some payload → ¬NoDelta lib payload) ∧
    ((∃ s', processLine lib cb .returning line s = .ok () s') ↔
      ∀ payload, chunkText line = some payload → ¬NoDelta lib payload) := by
  have hcond : (∀ payload, chunkText line = some payload → ¬NoDelta lib payload) ↔
      ¬∃ payload, chunkText line = some payload ∧ NoDelta lib payload := by
    simp
  rw [hcond]
  constructor
  · rw [← processLine_undefined_iff lib cb ends (s := s), not_exists]
  · rw [← processLine_undefined_iff lib cb .returning (s := s), processLine_eq]
    cases s.processLine lib cb line with
    | none =>
      refine iff_of_false ?_ (not_not_intro ⟨s, rfl⟩)
      rintro ⟨s', h⟩
      cases h
    | some s₁ =>
      refine iff_of_true ⟨s₁, rfl⟩ ?_
      rintro ⟨s', h⟩
      cases h

/-- A chunk that only says why the turn has ended. -/
def bareChunk : Json ℚ :=
  .object [(str "choices", .array [.object [(str "finish_reason", .string (str "stop"))]])]

/-- The access to the delta of such a chunk is not defined. -/
theorem bareChunk_undefined :
    processLine (JsonLib.on Json.showRat [bareChunk]) {} .returning
      (str "data: \x7b\"choices\":[\x7b\"finish_reason\":\"stop\"\x7d]\x7d") {} = .error .undefined {} := by
  rfl

end LineM

end LlmGateway
