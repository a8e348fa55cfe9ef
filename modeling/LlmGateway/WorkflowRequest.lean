import Mathlib.Data.Set.Card
import LlmGateway.Lib.LuaMatch
import LlmGateway.Lib.Numerals
import LlmGateway.StageRounds

/-!
# The start of a workflow

`on_request` of `plugins/orchestrator_dag.lua`: a directive in a system message names the workflow, and what
looks like an assignment in the message is a parameter.  The patterns are those of the source.  A name that
`%w+_%w+` matches has one underscore, and a name of a parameter has none, nor has a value characters other than
letters, digits, the underscore and the hyphen.

`onRequest_modify_iff`: so of the workflows of the source only `parallel_translate` is started.
`requested_complete_iff`: it is complete after two rounds.  `mem_requests_iff`: it never has a session, so that the
workflows that are started within a second have one id.
-/

namespace LlmGateway

namespace OrchestratorDag

/-! ## The hook -/

/-- The pattern of a directive. -/
def workflowPattern : Str := str "##workflow:(%w+_%w+)##"

/-- The pattern of a parameter. -/
def paramPattern : Str := str "(%w+)=([%w_%-]+)"

/-- The member `content` of a message. -/
inductive MessageContent where
  | absent
  | text (text : Str)
  | other
  deriving DecidableEq

/-- An element of the messages, as Lua has it. -/
inductive DecodedMessage where
  | table (role : Option Str) (content : MessageContent)
  /-- A string has no members, but it can be asked for them. -/
  | string
  | other
  deriving DecidableEq

/-- What `require("json")` returns, where `δ` are the decoded values. -/
structure JsonModule (δ : Type) where
  decode : Str → Option δ
  /-- What `ipairs` goes over, if it raises no error. -/
  messages : δ → Option (List DecodedMessage)
  /-- `table.insert` of a message with a role and a content. -/
  insert : δ → Str → Str → δ
  encode : δ → Str

/-- A value that `ctx.set` stores. -/
inductive SharedValue where
  | string (text : Str)
  | boolean (b : Bool)
  deriving DecidableEq

/-- The part of `ctx` that the hook uses. -/
structure HookContext where
  messagesJson : Option Str
  shared : UMap SharedValue

/-- `workflow_name`, `workflow_params` and `gateway_session`. -/
structure FoundWorkflow where
  name : Str
  params : UMap Str
  gatewaySession : Str

/-- The body of the loop for a system message. -/
def readContent (found : Option FoundWorkflow) (content : Str) : Option (Option FoundWorkflow) :=
  (LuaPattern.strMatch content workflowPattern).bind fun
    | none => some found
    | some texts =>
      (LuaPattern.gmatch content paramPattern).map fun assignments =>
        let params := (∅ : UMap Str).insertAll
          (assignments.map fun texts => (texts.getD 0 [], texts.getD 1 []))
        some ⟨texts.headD [], params, (params.lookup (str "gateway_session")).getD []⟩

/-- One message: a directive in a system message is the last one so far. -/
def readMessage (found : Option FoundWorkflow) : DecodedMessage → Option (Option FoundWorkflow)
  | .table role content =>
    if role = some (str "system") then
      match content with
      | .absent => readContent found []
      | .text text => readContent found text
      | .other => none
    else some found
  | .string => some found
  | .other => none

/-- What the hook sets when it starts a workflow: the id, and a message that tells the model about it. -/
def HookContext.started {δ : Type} (ctx : HookContext) (json : JsonModule δ) (decoded : δ) (l : Launch)
    (stageCount : ℕ) : HookContext where
  messagesJson := some (json.encode (json.insert decoded (str "system")
    (str "##工作流已启动## 流程: " ++ l.workflowName ++ str " 阶段数: " ++ str (toString stageCount))))
  shared := ctx.shared.insertAll
    [(str "workflow_dag_id", .string l.dagId), (str "workflow_name", .string l.workflowName),
      (str "has_workflow", .boolean true)]

/-- The id in the context is the one of the workflow. -/
theorem HookContext.lookup_started {δ : Type} (ctx : HookContext) (json : JsonModule δ) (decoded : δ)
    (l : Launch) (stageCount : ℕ) :
    (ctx.started json decoded l stageCount).shared.lookup (str "workflow_dag_id") =
      some (.string l.dagId) := by
  have hnodup : [str "workflow_dag_id", str "workflow_name", str "has_workflow"].Nodup := by decide
  refine AList.lookup_insertAll_of_mem ?_ List.mem_cons_self _
  exact hnodup

/-- `on_request` at `time`.  Without the function `require` it raises an error. -/
def onRequest {δ : Type} (json : Option (JsonModule δ)) (wfs : UMap Workflow) (time : ℤ) (ctx : HookContext)
    (dags : UMap DagState) : Option (Str × HookContext × UMap DagState) :=
  match ctx.messagesJson with
  | none => some (str "CONTINUE", ctx, dags)
  | some messages =>
    json.bind fun json =>
      match json.decode messages with
      | none => some (str "CONTINUE", ctx, dags)
      | some decoded =>
        (json.messages decoded).bind fun decodedMessages =>
          (decodedMessages.foldlM readMessage none).map fun
            | none => (str "CONTINUE", ctx, dags)
            | some found =>
              match wfs.lookup found.name with
              | none => (str "CONTINUE", ctx, dags)
              | some wf =>
                let l : Launch := ⟨found.name, some found.params, found.gatewaySession, time⟩
                (str "MODIFY", ctx.started json decoded l wf.stages.length, start wfs l dags)

/-! ## Directives -/

/-- The name in a directive at the start of a text. -/
def directiveAt (text : Str) : Option Str :=
  if str "##workflow:" <+: text then
    let first := (text.drop 11).takeWhile LuaPattern.isAlnum
    let rest := (text.drop 11).drop first.length
    if first = [] then none
    else if str "_" <+: rest then
      let second := (rest.drop 1).takeWhile LuaPattern.isAlnum
      if second = [] then none
      else if str "##" <+: (rest.drop 1).drop second.length then some (first ++ 95 :: second)
      else none
    else none
  else none

/-- The name in the first directive of a text. -/
def directive? (text : Str) : Option Str :=
  (List.range (text.length + 1)).findSome? fun s => directiveAt (text.drop s)

section Match

open LuaPattern

variable {src : Str}

/-- A text at a place of the source whose first byte it does not start with. -/
theorem not_prefix_drop {s : ℕ} {c d : UInt8} (hc : src[s]? = some c) (hne : d ≠ c) (text : Str) :
    ¬d :: text <+: src.drop s := by
  rw [cons_prefix_drop_iff, hc, Option.some.injEq]
  exact fun h => hne h.1.symm

theorem doMatch_closeDirective (s₀ s : ℕ) : doMatch src 8 196 (str ")##") s [⟨s₀, .unfinished⟩] =
    if str "##" <+: src.drop s then some (some (s + 2, [⟨s₀, .bytes (s - s₀)⟩])) else some none := by
  refine (doMatch_close (p := str "##")).trans ?_
  exact doMatch_literal (t := str "##") (p := []) (n := 5) (by decide +kernel) (by decide +kernel)

theorem doMatch_secondWord (s₀ s : ℕ) : doMatch src 10 197 (str "_%w+)##") s [⟨s₀, .unfinished⟩] =
    if str "_" <+: src.drop s then
      if (src.drop (s + 1)).takeWhile isAlnum = [] then some none
      else
        let e := s + 1 + ((src.drop (s + 1)).takeWhile isAlnum).length
        if str "##" <+: src.drop e then some (some (e + 2, [⟨s₀, .bytes (e - s₀)⟩])) else some none
    else some none := by
  refine (doMatch_literal (t := str "_") (p := str "%w+)##") (n := 9) (by decide +kernel)
    (by decide +kernel)).trans ?_
  refine if_congr Iff.rfl ((doMatch_plus (p := str ")##") isItem_alnum fun s c hc hok => ?_).trans ?_) rfl
  · rw [doMatch_closeDirective, if_neg]
    refine not_prefix_drop hc ?_ _
    rintro rfl
    cases hok
  · refine if_congr Iff.rfl rfl ?_
    rw [doMatch_closeDirective]
    rfl

theorem doMatch_firstWord (s : ℕ) : doMatch src 12 199 (str "(%w+_%w+)##") s [] =
    if (src.drop s).takeWhile isAlnum = [] then some none
    else
      doMatch src 10 197 (str "_%w+)##") (s + ((src.drop s).takeWhile isAlnum).length)
        [⟨s, .unfinished⟩] := by
  refine (doMatch_open (p := str "%w+_%w+)##") (by decide +kernel) (by decide +kernel)).trans ?_
  refine doMatch_plus (p := str "_%w+)##") isItem_alnum fun s c hc hok => ?_
  rw [List.nil_append, doMatch_secondWord, if_neg]
  refine not_prefix_drop hc ?_ _
  rintro rfl
  cases hok

/-- The matcher finds a directive where there is one. -/
theorem doMatch_workflowPattern (src : Str) (s : ℕ) :
    doMatch src (workflowPattern.length + 1) 199 workflowPattern s [] =
      some ((directiveAt (src.drop s)).map fun name =>
        (s + 11 + name.length + 2, [⟨s + 11, .bytes name.length⟩])) := by
  refine (doMatch_literal (t := str "##workflow:") (p := str "(%w+_%w+)##") (n := 12) (by decide +kernel)
    (by decide +kernel)).trans ?_
  rw [show (str "##workflow:").length = 11 from rfl, doMatch_firstWord, directiveAt]
  simp only [List.drop_drop, doMatch_secondWord]
  split_ifs
  any_goals rfl
  simp only [Option.map_some, List.length_append, List.length_cons, Option.some.injEq, Prod.mk.injEq,
    List.cons.injEq, Capture.mk.injEq, Extent.bytes.injEq, true_and, and_true]
  omega

/-- A word at the start of a text, up to a byte that is not in the class. -/
theorem takeWhile_append_cons {ok : UInt8 → Bool} {word : Str} (hword : ∀ c ∈ word, ok c = true) {c : UInt8}
    (hc : ok c = false) (rest : Str) : (word ++ c :: rest).takeWhile ok = word := by
  rw [List.takeWhile_append_of_pos hword, List.takeWhile_cons_of_neg (by simp [hc]), List.append_nil]

end Match

/-- Two words with an underscore between them. -/
def TwoWords (name : Str) : Prop :=
  ∃ first second, name = first ++ 95 :: second ∧ first ≠ [] ∧ second ≠ [] ∧
    ∀ c ∈ first ++ second, LuaPattern.isAlnum c = true

theorem directiveAt_eq_some_iff (text name : Str) : directiveAt text = some name ↔
    TwoWords name ∧ str "##workflow:" ++ name ++ str "##" <+: text := by
  constructor
  · intro h
    unfold directiveAt at h
    split_ifs at h with hstart
    obtain ⟨t₁, rfl⟩ := hstart
    simp only [show (str "##workflow:" ++ t₁).drop 11 = t₁ from rfl] at h
    split_ifs at h with hfirst hmid hsecond hend
    obtain ⟨t₂, ht₂⟩ := hmid
    rw [← ht₂] at h hsecond hend
    simp only [show (str "_" ++ t₂).drop 1 = t₂ from rfl] at h hsecond hend
    obtain ⟨t₃, ht₃⟩ := hend
    have h₁ := List.prefix_iff_eq_append.1 (List.takeWhile_prefix LuaPattern.isAlnum (l := t₁))
    have h₂ := List.prefix_iff_eq_append.1 (List.takeWhile_prefix LuaPattern.isAlnum (l := t₂))
    refine ⟨⟨_, _, (Option.some.inj h).symm, hfirst, hsecond, fun c hc => ?_⟩, t₃, ?_⟩
    · rcases List.mem_append.1 hc with hc | hc
      · exact List.all_eq_true.1 List.all_takeWhile c hc
      · exact List.all_eq_true.1 List.all_takeWhile c hc
    · rw [← Option.some.inj h]
      conv_rhs => rw [← h₁, ← ht₂, ← h₂, ← ht₃]
      simp only [List.append_assoc]
      rfl
  · rintro ⟨⟨first, second, rfl, hfirst, hsecond, halnum⟩, rest, rfl⟩
    have hword : ∀ c ∈ first, LuaPattern.isAlnum c = true := fun c hc =>
      halnum c (List.mem_append_left _ hc)
    have hword' : ∀ c ∈ second, LuaPattern.isAlnum c = true := fun c hc =>
      halnum c (List.mem_append_right _ hc)
    have htext : str "##workflow:" ++ (first ++ 95 :: second) ++ str "##" ++ rest =
        str "##workflow:" ++ (first ++ 95 :: (second ++ 35 :: 35 :: rest)) := by
      simp [List.append_assoc]
      rfl
    have hdrop : (str "##workflow:" ++ (first ++ 95 :: (second ++ 35 :: 35 :: rest))).drop 11 =
        first ++ 95 :: (second ++ 35 :: 35 :: rest) := rfl
    rw [htext, directiveAt, if_pos (List.prefix_append _ _)]
    simp only [hdrop, takeWhile_append_cons hword (show LuaPattern.isAlnum 95 = false by decide), hfirst,
      if_false, List.drop_left]
    have hmid : str "_" <+: 95 :: (second ++ 35 :: 35 :: rest) := List.prefix_append [95] _
    have hend : str "##" <+: 35 :: 35 :: rest := List.prefix_append [35, 35] rest
    rw [if_pos hmid]
    simp only [List.drop_succ_cons, List.drop_zero,
      takeWhile_append_cons hword' (show LuaPattern.isAlnum 35 = false by decide), hsecond, if_false,
      List.drop_left]
    rw [if_pos hend]


/-- `content:match` finds the name in the first directive. -/
theorem strMatch_workflowPattern (content : Str) :
    LuaPattern.strMatch content workflowPattern = some ((directive? content).map fun name => [name]) := by
  rw [LuaPattern.strMatch_eq (fun s _ => doMatch_workflowPattern content s) (by decide), directive?,
    List.range_eq_range']
  induction List.range' 0 (content.length + 1) with
  | nil => rfl
  | cons s positions ih =>
    rw [List.findSome?_cons, List.findSome?_cons]
    cases hname : directiveAt (content.drop s) with
    | none => exact ih
    | some name =>
      obtain ⟨-, rest, hrest⟩ := (directiveAt_eq_some_iff _ _).1 hname
      have hcapture : (content.drop (s + 11)).take name.length = name := by
        rw [← List.drop_drop, ← hrest, List.append_assoc, List.append_assoc,
          show 11 = (str "##workflow:").length from rfl, List.drop_left, List.take_left]
      simp [LuaPattern.pushCaptures, LuaPattern.captureText, hcapture]

/-! ## Parameters -/

/-- A byte of a value. -/
def isValueByte (c : UInt8) : Bool := LuaPattern.isAlnum c || c = 95 || c = 45

/-- An assignment at the start of a text. -/
def assignmentAt (text : Str) : Option (Str × Str) :=
  let name := text.takeWhile LuaPattern.isAlnum
  let rest := text.drop name.length
  if name = [] then none
  else if str "=" <+: rest then
    let value := (rest.drop 1).takeWhile isValueByte
    if value = [] then none else some (name, value)
  else none

section Match

open LuaPattern

variable {src : Str}

theorem isItem_valueByte : IsItem (str "[%w_%-]") isValueByte where
  classEnd p := by
    change classEnd (91 :: 37 :: 119 :: 95 :: 37 :: 45 :: 93 :: p) = some p
    cases p <;> simp [LuaPattern.classEnd, setEnd]
  single src s := by
    change singleMatch src s [91, 37, 119, 95, 37, 45, 93] = _
    cases hc : src[s]? with
    | none => simp [singleMatch, hc]
    | some c =>
      have hword : matchClass c 119 = isAlnum c := rfl
      have hhyphen : matchClass c 45 = decide (45 = c) := rfl
      simp [singleMatch, hc, matchSet, inSet, hword, hhyphen, isValueByte, eq_comm, Bool.or_assoc]
  notOpen := by decide
  notClose := by decide
  notEnd := by decide
  escape h := by cases h

/-- After the name. -/
theorem doMatch_value (s₀ s : ℕ) : doMatch src 15 197 (str ")=([%w_%-]+)") s [⟨s₀, .unfinished⟩] =
    if str "=" <+: src.drop s then
      if (src.drop (s + 1)).takeWhile isValueByte = [] then some none
      else
        let n := ((src.drop (s + 1)).takeWhile isValueByte).length
        some (some (s + 1 + n, [⟨s₀, .bytes (s - s₀)⟩, ⟨s + 1, .bytes n⟩]))
    else some none := by
  have hclose (k s₁ e : ℕ) : doMatch src 11 194 (str ")") e [⟨s₀, .bytes k⟩, ⟨s₁, .unfinished⟩] =
      some (some (e, [⟨s₀, .bytes k⟩, ⟨s₁, .bytes (e - s₁)⟩])) :=
    (doMatch_close (p := [])).trans rfl
  refine (doMatch_close (p := str "=([%w_%-]+)")).trans ?_
  refine (doMatch_literal (t := str "=") (p := str "([%w_%-]+)") (n := 13) (by decide +kernel)
    (by decide +kernel)).trans ?_
  refine if_congr Iff.rfl ?_ rfl
  refine (doMatch_open (p := str "[%w_%-]+)") (by decide) (by simp)).trans ?_
  refine (doMatch_plus_of_matches (p := str ")") isItem_valueByte ?_).trans (if_congr Iff.rfl rfl ?_)
  · exact (hclose _ _ _).trans_ne nofun
  · refine (hclose _ _ _).trans ?_
    simp [show (str "=").length = 1 from rfl]

theorem doMatch_paramPattern (src : Str) (s : ℕ) :
    doMatch src (paramPattern.length + 1) 199 paramPattern s [] =
      some ((assignmentAt (src.drop s)).map fun p => (s + p.1.length + 1 + p.2.length,
        [⟨s, .bytes p.1.length⟩, ⟨s + p.1.length + 1, .bytes p.2.length⟩])) := by
  have hname : doMatch src 17 199 paramPattern s [] =
      if (src.drop s).takeWhile isAlnum = [] then some none
      else
        doMatch src 15 197 (str ")=([%w_%-]+)") (s + ((src.drop s).takeWhile isAlnum).length)
          [⟨s, .unfinished⟩] := by
    refine (doMatch_open (p := str "%w+)=([%w_%-]+)") (by decide +kernel) (by decide +kernel)).trans ?_
    refine doMatch_plus (p := str ")=([%w_%-]+)") isItem_alnum fun s c hc hok => ?_
    rw [List.nil_append, doMatch_value, if_neg]
    refine not_prefix_drop hc ?_ _
    rintro rfl
    cases hok
  rw [show paramPattern.length = 16 from rfl, hname, assignmentAt]
  simp only [List.drop_drop, doMatch_value]
  split_ifs
  any_goals rfl
  simp [Nat.add_assoc]

end Match

/-- A name is a word, and the value has only bytes of values. -/
structure IsAssignment (p : Str × Str) : Prop where
  name : ∀ c ∈ p.1, LuaPattern.isAlnum c = true
  value : ∀ c ∈ p.2, isValueByte c = true

theorem isAssignment_of_assignmentAt {text : Str} {p : Str × Str} (h : assignmentAt text = some p) :
    IsAssignment p ∧ p.1 <+: text ∧ p.2 <+: text.drop (p.1.length + 1) := by
  unfold assignmentAt at h
  dsimp only at h
  split_ifs at h
  rw [← Option.some.inj h]
  refine ⟨⟨fun c hc => ?_, fun c hc => ?_⟩, List.takeWhile_prefix _, ?_⟩
  · exact List.all_eq_true.1 List.all_takeWhile c hc
  · exact List.all_eq_true.1 List.all_takeWhile c hc
  · rw [← List.drop_drop]
    exact List.takeWhile_prefix _

/-- `content:gmatch` raises no error and gives assignments. -/
theorem exists_gmatch (content : Str) : ∃ l, LuaPattern.gmatch content paramPattern = some l ∧
    ∀ texts ∈ l, ∃ p, texts = [p.1, p.2] ∧ IsAssignment p := by
  have hcaptures : ∀ s m, ((assignmentAt (content.drop s)).map fun p => (s + p.1.length + 1 + p.2.length,
      ([⟨s, .bytes p.1.length⟩, ⟨s + p.1.length + 1, .bytes p.2.length⟩] : List LuaPattern.Capture))) =
        some m →
        ∃ p, LuaPattern.pushCaptures content s m = some [p.1, p.2] ∧ IsAssignment p := by
    intro s m hm
    obtain ⟨p, hp, rfl⟩ := Option.map_eq_some_iff.1 hm
    obtain ⟨hassignment, hname, hvalue⟩ := isAssignment_of_assignmentAt hp
    rw [List.drop_drop, ← Nat.add_assoc] at hvalue
    have htexts := (List.prefix_iff_eq_take.1 hname).symm
    have htexts' := (List.prefix_iff_eq_take.1 hvalue).symm
    refine ⟨p, ?_, hassignment⟩
    simp [LuaPattern.pushCaptures, LuaPattern.captureText, List.range_succ, htexts, htexts']
  obtain ⟨l, hl, hsound⟩ := LuaPattern.exists_gmatchLoop (fun s _ => doMatch_paramPattern content s)
    (fun s m hm => by
      obtain ⟨p, hp, -⟩ := hcaptures s m hm
      rw [hp]
      rfl) (2 * content.length + 2) 0 none
  refine ⟨l, hl, fun texts hmem => ?_⟩
  obtain ⟨s, m, hm, htexts⟩ := hsound texts hmem
  obtain ⟨p, hp, hassignment⟩ := hcaptures s m hm
  rw [htexts, Option.some_inj] at hp
  exact ⟨p, hp, hassignment⟩

/-! ## What is started -/

/-- The parameters are assignments. -/
def IsParams (params : UMap Str) : Prop :=
  ∀ name text, params.lookup name = some text → IsAssignment (name, text)

theorem isParams_empty : IsParams ∅ := fun _ _ hlookup => by cases hlookup

/-- There is never a session. -/
theorem IsParams.lookup_session {params : UMap Str} (h : IsParams params) :
    params.lookup (str "gateway_session") = none := by
  cases hlookup : params.lookup (str "gateway_session") with
  | none => rfl
  | some text => exact absurd ((h _ _ hlookup).name 95 (show 95 ∈ str "gateway_session" by decide)) (by decide)

theorem exists_readContent (found : Option FoundWorkflow) (content : Str) : ∃ params, IsParams params ∧
    readContent found content =
      some ((directive? content).elim found fun name => some ⟨name, params, []⟩) := by
  obtain ⟨l, hl, hassignments⟩ := exists_gmatch content
  have hparams : IsParams ((∅ : UMap Str).insertAll
      (l.map fun texts => (texts.getD 0 [], texts.getD 1 []))) := by
    intro name text hlookup
    rw [AList.lookup_insertAll, AList.lookup_empty, Option.or_none] at hlookup
    obtain ⟨q, hq, rfl⟩ := Option.map_eq_some_iff.1 hlookup
    have hname : q.1 = name := by simpa using List.find?_some hq
    obtain ⟨texts, htexts, rfl⟩ := List.mem_map.1 (List.mem_reverse.1 (List.mem_of_find?_eq_some hq))
    obtain ⟨p, rfl, hp⟩ := hassignments texts htexts
    rw [← hname]
    exact hp
  refine ⟨_, hparams, ?_⟩
  rw [readContent, strMatch_workflowPattern, Option.bind_some]
  cases directive? content with
  | none => rfl
  | some name =>
    simp only [Option.map_some, Option.elim_some]
    rw [hl, Option.map_some, hparams.lookup_session]
    rfl

namespace DecodedMessage

/-- The loop raises no error at the message. -/
def Readable : DecodedMessage → Prop
  | .table role content => role = some (str "system") → content ≠ .other
  | .string => True
  | .other => False

/-- The name in the first directive of a system message. -/
def directive : DecodedMessage → Option Str
  | .table role (.text text) => if role = some (str "system") then directive? text else none
  | _ => none

end DecodedMessage

theorem exists_readMessage (found : Option FoundWorkflow) {m : DecodedMessage} (h : m.Readable) :
    ∃ params, IsParams params ∧
      readMessage found m = some (m.directive.elim found fun name => some ⟨name, params, []⟩) := by
  cases m with
  | string => exact ⟨∅, isParams_empty, rfl⟩
  | other => exact h.elim
  | table role content =>
    by_cases hrole : role = some (str "system")
    · cases content with
      | other => exact absurd rfl (h hrole)
      | absent =>
        obtain ⟨params, hparams, hread⟩ := exists_readContent found []
        exact ⟨params, hparams, (if_pos hrole).trans hread⟩
      | text text =>
        obtain ⟨params, hparams, hread⟩ := exists_readContent found text
        refine ⟨params, hparams, (if_pos hrole).trans ?_⟩
        rw [DecodedMessage.directive, if_pos hrole]
        exact hread
    · refine ⟨∅, isParams_empty, (if_neg hrole).trans ?_⟩
      cases content with
      | text text =>
        rw [DecodedMessage.directive, if_neg hrole]
        rfl
      | absent => rfl
      | other => rfl

/-- The last directive is followed. -/
theorem exists_foldlM_readMessage {messages : List DecodedMessage} (h : ∀ m ∈ messages, m.Readable) :
    ∃ params, IsParams params ∧ messages.foldlM readMessage none =
      some ((messages.filterMap DecodedMessage.directive).getLast?.map fun name => ⟨name, params, []⟩) := by
  induction messages using List.reverseRecOn with
  | nil => exact ⟨∅, isParams_empty, rfl⟩
  | append_singleton messages m ih =>
    obtain ⟨params, hparams, hbefore⟩ := ih fun m hm => h m (List.mem_append_left _ hm)
    obtain ⟨params', hparams', hlast⟩ := exists_readMessage
      ((messages.filterMap DecodedMessage.directive).getLast?.map fun name => ⟨name, params, []⟩)
      (h m (List.mem_append_right _ List.mem_cons_self))
    rw [List.foldlM_append, hbefore, Option.bind_eq_bind, Option.bind_some, List.foldlM_cons, hlast,
      Option.bind_eq_bind, Option.bind_some, List.foldlM_nil, List.filterMap_append]
    cases hdirective : m.directive with
    | none =>
      refine ⟨params, hparams, ?_⟩
      simp [hdirective]
    | some name =>
      refine ⟨params', hparams', ?_⟩
      simp [hdirective]

theorem twoWords_of_directive? {text name : Str} (h : directive? text = some name) : TwoWords name := by
  obtain ⟨s, -, hs⟩ := List.exists_of_findSome?_eq_some h
  exact ((directiveAt_eq_some_iff _ _).1 hs).1

theorem TwoWords.count {name : Str} (h : TwoWords name) : name.count 95 = 1 := by
  obtain ⟨first, second, rfl, -, -, halnum⟩ := h
  have hnot : ∀ word : Str, (∀ c ∈ word, c ∈ first ++ second) → word.count 95 = 0 := fun word hword =>
    List.count_eq_zero.2 fun hmem => absurd (halnum 95 (hword 95 hmem)) (by decide)
  rw [List.count_append, List.count_cons_self, hnot first fun c => List.mem_append_left second,
    hnot second fun c => List.mem_append_right first]

/-- Of the names in the table of the source only one consists of two words. -/
theorem lookup_workflows {name : Str} (h : TwoWords name) :
    workflows.lookup name = if name = str "parallel_translate" then some parallelTranslate else none := by
  have hcount := h.count
  split_ifs with hname
  · rw [hname]
    decide +kernel
  · have hresearch : name ≠ str "research_then_summarize" := by
      rintro rfl
      exact absurd hcount (by decide +kernel)
    have hanalyze : name ≠ str "analyze_then_recommend" := by
      rintro rfl
      exact absurd hcount (by decide +kernel)
    rw [workflows, AList.lookup_insertAll_of_notMem (by simp [hname, hresearch, hanalyze]), AList.lookup_empty]

/-- The start of the workflow at a time. -/
def translateAt (params : UMap Str) (time : ℤ) : Launch := ⟨str "parallel_translate", some params, [], time⟩

theorem readable_of_readMessage {m : DecodedMessage} {found : Option FoundWorkflow}
    (h : (readMessage found m).isSome) : m.Readable := by
  cases m with
  | string => trivial
  | other => cases h
  | table role content =>
    rintro hrole rfl
    rw [show readMessage found (.table role .other) = none from if_pos hrole] at h
    cases h

/-- If the hook returns, it could read the messages. -/
theorem readable_of_foldlM {messages : List DecodedMessage} {found : Option FoundWorkflow}
    (h : (messages.foldlM readMessage found).isSome) : ∀ m ∈ messages, m.Readable := by
  induction messages generalizing found with
  | nil => exact fun m hm => nomatch hm
  | cons m messages ih =>
    rw [List.foldlM_cons, Option.bind_eq_bind] at h
    cases hread : readMessage found m with
    | none =>
      rw [hread] at h
      cases h
    | some found' =>
      rw [hread, Option.bind_some] at h
      exact List.forall_mem_cons.2 ⟨readable_of_readMessage (by rw [hread]; rfl), ih h⟩

/-- The hook decodes the messages and can read them. -/
structure Reads {δ : Type} (json : Option (JsonModule δ)) (ctx : HookContext)
    (messages : List DecodedMessage) : Prop where
  decoded : ∃ j text decoded, json = some j ∧ ctx.messagesJson = some text ∧ j.decode text = some decoded ∧
    j.messages decoded = some messages
  readable : ∀ m ∈ messages, m.Readable

/-- The name that the last directive in the system messages gives. -/
def lastDirective (messages : List DecodedMessage) : Option Str :=
  (messages.filterMap DecodedMessage.directive).getLast?

section Request

variable {δ : Type} {json : Option (JsonModule δ)} {ctx : HookContext} {messages : List DecodedMessage}

theorem twoWords_of_lastDirective {name : Str} (h : lastDirective messages = some name) : TwoWords name := by
  obtain ⟨m, -, hm⟩ := List.mem_filterMap.1 (List.mem_of_getLast? h)
  unfold DecodedMessage.directive at hm
  split at hm
  · split_ifs at hm
    exact twoWords_of_directive? hm
  · cases hm

/-- With messages that it can read, the hook follows the last directive: `parallel_translate` is started, without
a session and with assignments as parameters, and any other name is passed over. -/
theorem Reads.exists_onRequest (h : Reads json ctx messages) (time : ℤ) :
    ∃ params ctx', IsParams params ∧
      ctx'.shared.lookup (str "workflow_dag_id") = some (.string (translateAt params time).dagId) ∧
      ∀ dags, onRequest json workflows time ctx dags =
        if lastDirective messages = some (str "parallel_translate") then
          some (str "MODIFY", ctx', start workflows (translateAt params time) dags)
        else some (str "CONTINUE", ctx, dags) := by
  obtain ⟨⟨j, text, decoded, rfl, hctx, hdecoded, hmessages⟩, hreadable⟩ := h
  obtain ⟨params, hparams, hfold⟩ := exists_foldlM_readMessage hreadable
  refine ⟨params, ctx.started j decoded (translateAt params time) parallelTranslate.stages.length, hparams,
    ctx.lookup_started j decoded _ _, fun dags => ?_⟩
  rw [onRequest, hctx]
  simp only [Option.bind_some, hdecoded, hmessages, hfold]
  cases hlast : lastDirective messages with
  | none =>
    rw [lastDirective] at hlast
    rw [hlast]
    rfl
  | some name =>
    have hlookup := lookup_workflows (twoWords_of_lastDirective hlast)
    rw [lastDirective] at hlast
    rw [hlast]
    by_cases hname : name = str "parallel_translate"
    · subst hname
      rw [if_pos rfl] at hlookup
      rw [if_pos rfl, Option.map_some]
      simp only [hlookup, Option.map_some]
      rfl
    · rw [if_neg hname] at hlookup
      rw [if_neg fun h => hname (Option.some.inj h), Option.map_some]
      simp only [hlookup, Option.map_some]

/-- A hook that starts a workflow has read the messages. -/
theorem exists_reads {time : ℤ} {dags dags' : UMap DagState} {ctx' : HookContext}
    (h : onRequest json workflows time ctx dags = some (str "MODIFY", ctx', dags')) :
    ∃ messages, Reads json ctx messages := by
  unfold onRequest at h
  split at h
  · cases h
  · next text hctx =>
    obtain ⟨j, rfl, hj⟩ := Option.bind_eq_some_iff.1 h
    split at hj
    · cases hj
    · next decoded hdecoded =>
      obtain ⟨messages, hmessages, hloop⟩ := Option.bind_eq_some_iff.1 hj
      obtain ⟨found, hfound, -⟩ := Option.map_eq_some_iff.1 hloop
      exact ⟨messages, ⟨j, text, decoded, rfl, hctx, hdecoded, hmessages⟩,
        readable_of_foldlM (by rw [hfound]; rfl)⟩

/-- The hook starts a workflow, or it changes nothing. -/
theorem verdict_of_onRequest {wfs : UMap Workflow} {time : ℤ} {dags : UMap DagState}
    {result : Str × HookContext × UMap DagState} (h : onRequest json wfs time ctx dags = some result) :
    result = (str "CONTINUE", ctx, dags) ∨ result.1 = str "MODIFY" := by
  unfold onRequest at h
  split at h
  · exact .inl (Option.some.inj h).symm
  · obtain ⟨j, -, hj⟩ := Option.bind_eq_some_iff.1 h
    split at hj
    · exact .inl (Option.some.inj hj).symm
    · obtain ⟨messages, -, hloop⟩ := Option.bind_eq_some_iff.1 hj
      obtain ⟨found, -, rfl⟩ := Option.map_eq_some_iff.1 hloop
      cases found with
      | none => exact .inl rfl
      | some found =>
        dsimp only
        cases wfs.lookup found.name with
        | none => exact .inl rfl
        | some wf => exact .inr rfl

/-- What a start does, for any table. -/
theorem exists_started {time : ℤ} {dags dags' : UMap DagState} {ctx' : HookContext}
    (h : onRequest json workflows time ctx dags = some (str "MODIFY", ctx', dags')) :
    ∃ params, IsParams params ∧
      ctx'.shared.lookup (str "workflow_dag_id") = some (.string (translateAt params time).dagId) ∧
      dags' = start workflows (translateAt params time) dags := by
  obtain ⟨messages, hreads⟩ := exists_reads h
  obtain ⟨params, ctx'', hparams, hshared, hrequest⟩ := hreads.exists_onRequest time
  rw [hrequest] at h
  split_ifs at h
  · obtain ⟨rfl, rfl⟩ := Prod.mk.inj (Prod.mk.inj (Option.some.inj h)).2
    exact ⟨params, hparams, hshared, rfl⟩
  · cases h

/-- A workflow is started exactly if the messages can be read and `parallel_translate` is the name in the first
directive of the last system message that has one. -/
theorem onRequest_modify_iff (time : ℤ) (dags : UMap DagState) :
    (∃ ctx' dags', onRequest json workflows time ctx dags = some (str "MODIFY", ctx', dags')) ↔
      ∃ messages, Reads json ctx messages ∧ lastDirective messages = some (str "parallel_translate") := by
  constructor
  · rintro ⟨ctx', dags', h⟩
    obtain ⟨messages, hreads⟩ := exists_reads h
    obtain ⟨params, ctx'', -, -, hrequest⟩ := hreads.exists_onRequest time
    refine ⟨messages, hreads, ?_⟩
    by_contra hlast
    rw [hrequest, if_neg hlast] at h
    cases h
  · rintro ⟨messages, hreads, hlast⟩
    obtain ⟨params, ctx', -, -, hrequest⟩ := hreads.exists_onRequest time
    exact ⟨ctx', _, by rw [hrequest, if_pos hlast]⟩

/-- The names and the values of the parameters have no special characters. -/
theorem IsParams.plain {params : UMap Str} (h : IsParams params) (name text : Str)
    (hlookup : params.lookup name = some text) : LuaPattern.Plain name ∧ LuaPattern.escaped text = true := by
  obtain ⟨hname, hvalue⟩ := h name text hlookup
  refine ⟨plain_of_alnum hname, ?_⟩
  have hpercent : 37 ∉ text := fun hmem => absurd (hvalue 37 hmem) (by decide)
  rw [← LuaPattern.isSome_expand [], LuaPattern.expand_of_notMem _ hpercent]
  rfl

/-- A workflow that the hook starts, executed in rounds, is complete exactly after the second one, provided that
the translations succeed. -/
theorem requested_complete_iff {time : ℤ} {dags dags' : UMap DagState} {ctx' : HookContext}
    (h : onRequest json workflows time ctx dags = some (str "MODIFY", ctx', dags')) :
    ∃ dagId, ctx'.shared.lookup (str "workflow_dag_id") = some (.string dagId) ∧
      ∀ succeeds rounds, Rounds workflows dagId succeeds dags' rounds →
        (∀ stageId text success, .recordResult dagId stageId text success ∈ rounds.flatten →
          LuaPattern.escaped (text.getD []) = true) →
        (isComplete dagId (run dags' rounds.flatten) = true ↔
          2 ≤ rounds.length ∧ succeeds (str "translate_cn") ∧ succeeds (str "translate_ja")) := by
  obtain ⟨params, hparams, hshared, rfl⟩ := exists_started h
  have hwf : workflows.lookup (str "parallel_translate") = some parallelTranslate := by decide +kernel
  refine ⟨_, hshared, fun succeeds rounds hrounds htexts => ?_⟩
  have hfill := fillable_rounds (l := translateAt params time) hwf dags hparams.plain (by decide +kernel)
    htexts
  rw [isComplete_of_fillable (l := translateAt params time) hwf wellFormed_parallelTranslate dags hrounds
    hfill, within_parallelTranslate]
  refine and_congr_right fun _ => ⟨fun hneeded => ?_, fun hboth depId stageId hneeds => ?_⟩
  · exact ⟨hneeded _ _ (needs_parallelTranslate_iff.2 ⟨Or.inl rfl, rfl⟩),
      hneeded _ _ (needs_parallelTranslate_iff.2 ⟨Or.inr rfl, rfl⟩)⟩
  · obtain ⟨rfl | rfl, -⟩ := needs_parallelTranslate_iff.1 hneeds
    · exact hboth.1
    · exact hboth.2

end Request

/-- A request with a directive. -/
def translateMessages : Str :=
  str "[\x7b\"role\":\"system\",\"content\":\"##workflow:parallel_translate## text=w-w\"\x7d]"

/-- A directive for `parallel_translate`. -/
def translateDecoded : List DecodedMessage :=
  [.table (some (str "system")) (.text (str "##workflow:parallel_translate## text=w-w"))]

/-- The context of the request. -/
def translateContext : HookContext := ⟨some translateMessages, ∅⟩

/-- The library, as it behaves on the messages of the request. -/
def translateJson : JsonModule (List DecodedMessage) where
  decode text := if text = translateMessages then some translateDecoded else none
  messages decoded := some decoded
  insert decoded role content := decoded ++ [.table (some role) (.text content)]
  encode decoded := str "[" ++ (str ",").intercalate (decoded.map fun
    | .table (some role) (.text content) =>
      str "\x7b\"role\":\"" ++ role ++ str "\",\"content\":\"" ++ content ++ str "\"\x7d"
    | _ => str "null") ++ str "]"

theorem reads_translate : Reads (some translateJson) translateContext translateDecoded where
  decoded := by
    refine ⟨translateJson, translateMessages, translateDecoded, rfl, rfl, ?_, rfl⟩
    rw [translateJson]
    dsimp only
    rw [if_pos rfl]
  readable m hm := by
    rw [List.mem_singleton.1 hm]
    exact fun _ => nofun

/-- The workflow of the request is complete after two rounds. -/
theorem requested_complete : ∃ ctx dags dagId, ∃ rounds : List (List Op),
    onRequest (some translateJson) workflows 0 translateContext ∅ = some (str "MODIFY", ctx, dags) ∧
      ctx.shared.lookup (str "workflow_dag_id") = some (.string dagId) ∧ rounds.length = 2 ∧
      isComplete dagId (run dags rounds.flatten) = true := by
  obtain ⟨ctx, dags, h⟩ := (onRequest_modify_iff 0 ∅).2 ⟨_, reads_translate, by decide +kernel⟩
  obtain ⟨dagId, hdagId, hcomplete⟩ := requested_complete_iff h
  obtain ⟨rounds, hlength, hrounds, htexts⟩ :=
    exists_rounds workflows dagId (fun _ => true) (fun _ => none) dags 2
  refine ⟨ctx, dags, dagId, rounds, h, hdagId, hlength,
    (hcomplete _ rounds hrounds fun stageId text success hmem => ?_).2 ⟨hlength.ge, rfl, rfl⟩⟩
  rw [htexts stageId text success hmem]
  rfl

/-! ## Many requests -/

/-- A request that the hook is run for. -/
structure WorkflowRequest (δ : Type) where
  json : Option (JsonModule δ)
  ctx : HookContext
  time : ℤ

namespace WorkflowRequest

variable {δ : Type}

/-- What a request does to `active_dags`. -/
def handle (dags : UMap DagState) (r : WorkflowRequest δ) : UMap DagState :=
  (onRequest r.json workflows r.time r.ctx dags).elim dags fun result => result.2.2

/-- The request starts a workflow. -/
def Starts (r : WorkflowRequest δ) : Prop :=
  ∃ messages, Reads r.json r.ctx messages ∧ lastDirective messages = some (str "parallel_translate")

/-- The id of a workflow that is started at a time. -/
def idAt (time : ℤ) : Str := str ":parallel_translate:" ++ str (toString (time * 1000))

theorem idAt_injective : Function.Injective idAt := by
  intro time time' h
  have htext := str_injective (List.append_cancel_left h)
  have hdigits : List.replicate 0 '0' ++ (toString (time * 1000)).toList =
      List.replicate 0 '0' ++ (toString (time' * 1000)).toList := congrArg String.toList htext
  exact mul_right_cancel₀ (by decide) (Numerals.zeros_append_toString_inj hdigits)

theorem dagId_translateAt (params : UMap Str) (time : ℤ) : (translateAt params time).dagId = idAt time :=
  rfl

/-- A request puts in an entry for its second, or changes nothing. -/
theorem mem_handle (dags : UMap DagState) (r : WorkflowRequest δ) (dagId : Str) :
    dagId ∈ handle dags r ↔ dagId ∈ dags ∨ r.Starts ∧ dagId = idAt r.time := by
  by_cases hstarts : r.Starts
  · obtain ⟨ctx', dags', h⟩ := (onRequest_modify_iff r.time dags).2 hstarts
    obtain ⟨params, -, -, rfl⟩ := exists_started h
    have hwf : workflows.lookup (str "parallel_translate") = some parallelTranslate := by decide +kernel
    rw [handle, h, Option.elim_some, and_iff_right hstarts]
    dsimp only
    rw [start, newDagState, show (translateAt params r.time).workflowName = str "parallel_translate" from rfl,
      hwf, Option.map_some]
    dsimp only
    rw [AList.mem_insert, dagId_translateAt, or_comm]
  · have hsame : handle dags r = dags := by
      cases hresult : onRequest r.json workflows r.time r.ctx dags with
      | none =>
        rw [handle, hresult]
        rfl
      | some result =>
        rcases verdict_of_onRequest hresult with rfl | hmodify
        · rw [handle, hresult]
          rfl
        · obtain ⟨verdict, ctx', dags'⟩ := result
          cases hmodify
          exact absurd ((onRequest_modify_iff r.time dags).1 ⟨ctx', dags', hresult⟩) hstarts
    rw [hsame]
    simp [hstarts]

/-- The table has one entry for each second in which workflows were started, whatever sessions they were for. -/
theorem mem_requests_iff (requests : List (WorkflowRequest δ)) :
    (∀ dagId, dagId ∈ requests.foldl handle ∅ ↔ ∃ r ∈ requests, r.Starts ∧ dagId = idAt r.time) ∧
      (requests.foldl handle ∅).keys.length = Set.ncard {time | ∃ r ∈ requests, r.Starts ∧ r.time = time} := by
  have hmem : ∀ dagId, dagId ∈ requests.foldl handle ∅ ↔ ∃ r ∈ requests, r.Starts ∧ dagId = idAt r.time := by
    induction requests using List.reverseRecOn with
    | nil => simp
    | append_singleton requests r ih =>
      intro dagId
      rw [List.foldl_append, List.foldl_cons, List.foldl_nil, mem_handle, ih]
      simp only [List.mem_append, List.mem_singleton, or_and_right, exists_or, exists_eq_left]
  refine ⟨hmem, ?_⟩
  have hkeys : (↑(requests.foldl handle ∅).keys.toFinset : Set Str) =
      idAt '' {time | ∃ r ∈ requests, r.Starts ∧ r.time = time} := by
    ext dagId
    rw [Finset.mem_coe, List.mem_toFinset, ← AList.mem_keys, hmem, Set.mem_image]
    constructor
    · rintro ⟨r, hr, hstarts, rfl⟩
      exact ⟨r.time, ⟨r, hr, hstarts, rfl⟩, rfl⟩
    · rintro ⟨_, ⟨r, hr, hstarts, rfl⟩, rfl⟩
      exact ⟨r, hr, hstarts, rfl⟩
  rw [← Set.ncard_image_of_injective _ idAt_injective, ← hkeys, Set.ncard_coe_finset,
    List.toFinset_card_of_nodup (requests.foldl handle ∅).keys_nodup]

end WorkflowRequest

end OrchestratorDag

end LlmGateway
