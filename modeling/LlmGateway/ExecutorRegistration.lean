import LlmGateway.CallAnswers
import LlmGateway.ToolList
import LlmGateway.Utf8Json

/-!
# The registration of an executor

The handler of a `register` message takes the tools one by one: it reads the name of each, adds the tool to
the session and to the registry, and takes the connection to the executors when it has all of them.  A tool
may be given by its name alone, which is tested for, but the name is asked of the text as of an object, and
that throws.  So the tools before it stay, and the connection is no executor.

`registered_iff`: a registration is complete exactly if no tool is given by its name alone, no description
is something else than text, and the connection is not among the executors yet.
-/

namespace LlmGateway

variable {ν : Type}

namespace Gateway

open WsChatController (wsSend)

/-! ## Tools -/

/-- The name in one of the two forms of a tool: a text, or an object with a name. -/
def named : Json ν → Option Str
  | .string s => some s
  | t => (t.member "name").bind Json.getString

/-- A tool in one of the two forms, with a name that is not empty. -/
def Listed (t : Json ν) : Prop := ∃ name, named t = some name ∧ name ≠ []

/-- The value is a string. -/
def isText : Json ν → Bool
  | .string _ => true
  | _ => false

/-- An object whose description, if it has one, is text. -/
def Readable (t : Json ν) : Prop :=
  isText t = false ∧ (t.value "description" Json.getString []).isSome

theorem toolName_of_named {t : Json ν} {name : Str} (h : named t = some name) (htext : isText t = false) :
    toolName t = some name := by
  cases t with
  | object m =>
    obtain ⟨v, hv, hname⟩ := Option.bind_eq_some_iff.1 h
    have hlookup : m.lookup (str "name") = some v := hv
    rw [toolName, Json.value, hlookup]
    exact hname
  | string s => cases htext
  | _ => cases h

theorem toolName_of_isText {t : Json ν} (h : isText t = true) : toolName t = none := by
  cases t with
  | string s => rfl
  | _ => cases h

section Add

variable (platform : GatewayPlatform ν) (hlib : platform.json.Strict)

theorem valid_parameterSchema {p : Json ν} (h : p.Valid) : (parameterSchema p).Valid := by
  unfold parameterSchema
  split
  · exact h
  · refine Json.valid_object_members fun q hq => ?_
    rcases List.mem_cons.1 hq with rfl | hq
    · exact ⟨valid_str _, Json.valid_string.2 (valid_str _)⟩
    · rw [List.mem_singleton.1 hq]
      refine ⟨valid_str _, Json.valid_object_members fun r hr => ?_⟩
      obtain ⟨⟨k, v⟩, hkv, rfl⟩ := List.mem_map.1 hr
      obtain ⟨hk, hv⟩ := h.items _ hkv
      dsimp only
      split
      · next type =>
        refine ⟨hk, Json.valid_object.2 fun q hq => ?_⟩
        rw [List.mem_singleton.1 hq]
        exact ⟨valid_str _, hv⟩
      · exact ⟨hk, hv⟩

include hlib in
theorem parametersText_isSome {t : Json ν} (h : t.Valid) : (parametersText platform t).isSome := by
  unfold parametersText
  split
  · next m hm => exact (hlib.dump_isSome _).2 (valid_parameterSchema (h.member hm))
  · rfl

variable {platform} (conn : ConnId) (sessionId : Str)

include hlib in
/-- A tool that can be read is added to the session and the registry. -/
theorem addTool_of_readable {t : Json ν} (hvalid : t.Valid) {name : Str} (hname : named t = some name)
    (hne : name ≠ []) (hreadable : Readable t) (g : Gateway ν) :
    ∃ tool : ToolDef, tool.name = name ∧ addTool platform conn sessionId t g = .ok
      { g with
        tools := g.tools.insert conn ((g.tools.lookup conn).getD [] ++ [name])
        toolRegistry := g.toolRegistry.add tool.name tool.description tool.parametersJson sessionId } := by
  obtain ⟨description, hdescription⟩ := Option.isSome_iff_exists.1 hreadable.2
  obtain ⟨parameters, hparameters⟩ := Option.isSome_iff_exists.1 (parametersText_isSome platform hlib hvalid)
  refine ⟨⟨name, description, parameters⟩, rfl, ?_⟩
  unfold addTool
  rw [toolName_of_named hname hreadable.1]
  dsimp only
  rw [if_neg hne, hdescription, hparameters]

theorem addTool_of_not_readable {t : Json ν} (hlisted : Listed t) (h : ¬Readable t) (g : Gateway ν) :
    (addTool platform conn sessionId t g).threw = true := by
  obtain ⟨name, hname, hne⟩ := hlisted
  unfold addTool
  cases htext : isText t with
  | true =>
    rw [toolName_of_isText htext]
    rfl
  | false =>
    rw [toolName_of_named hname htext]
    dsimp only
    rw [if_neg hne]
    have hdescription : t.value "description" Json.getString [] = none := by
      rw [← Option.not_isSome_iff_eq_none]
      exact fun hsome => h ⟨htext, hsome⟩
    rw [hdescription]
    rfl

/-- The loop throws at the first tool that cannot be read. -/
theorem addTools_threw {ts : List (Json ν)} (hlisted : ∀ t ∈ ts, Listed t) (h : ¬∀ t ∈ ts, Readable t)
    (hlib : platform.json.Strict) (hvalid : ∀ t ∈ ts, t.Valid) (g : Gateway ν) :
    (addTools platform conn sessionId ts g).threw = true := by
  induction ts generalizing g with
  | nil => exact absurd (fun t ht => absurd ht List.not_mem_nil) h
  | cons t ts ih =>
    rw [addTools]
    by_cases ht : Readable t
    · obtain ⟨name, hname, hne⟩ := hlisted t List.mem_cons_self
      obtain ⟨tool, -, hadd⟩ := addTool_of_readable hlib conn sessionId
        (hvalid t List.mem_cons_self) hname hne ht g
      rw [hadd, Outcome.ok_andThen]
      refine ih (fun t' ht' => hlisted t' (List.mem_cons_of_mem t ht')) (fun hall => h ?_)
        (fun t' ht' => hvalid t' (List.mem_cons_of_mem t ht')) _
      exact List.forall_mem_cons.2 ⟨ht, hall⟩
    · have hthrew : (addTool platform conn sessionId t g).threw = true :=
        addTool_of_not_readable conn sessionId (hlisted t List.mem_cons_self) ht g
      rw [Outcome.andThen, if_pos hthrew, hthrew]

/-- The loop over tools that can be read. -/
theorem addTools_returns (hlib : platform.json.Strict) {ts : List (Json ν)} (hlisted : ∀ t ∈ ts, Listed t)
    (hreadable : ∀ t ∈ ts, Readable t) (hvalid : ∀ t ∈ ts, t.Valid) (g : Gateway ν) :
    ∃ (defs : List ToolDef) (tools : AList fun _ : ConnId => List Str),
      ts.map named = defs.map (fun tool => some tool.name) ∧
      (tools.lookup conn).getD [] = (g.tools.lookup conn).getD [] ++ defs.map ToolDef.name ∧
      addTools platform conn sessionId ts g =
        .ok { g with tools, toolRegistry := g.toolRegistry.addAll sessionId defs } := by
  induction ts generalizing g with
  | nil => exact ⟨[], g.tools, rfl, (List.append_nil _).symm, rfl⟩
  | cons t ts ih =>
    obtain ⟨name, hname, hne⟩ := hlisted t List.mem_cons_self
    obtain ⟨tool, rfl, hadd⟩ := addTool_of_readable hlib conn sessionId
      (hvalid t List.mem_cons_self) hname hne (hreadable t List.mem_cons_self) g
    obtain ⟨defs, tools, hdefs, htools, hrest⟩ := ih (fun t' ht' => hlisted t' (List.mem_cons_of_mem t ht'))
      (fun t' ht' => hreadable t' (List.mem_cons_of_mem t ht'))
      (fun t' ht' => hvalid t' (List.mem_cons_of_mem t ht'))
      { g with
        tools := g.tools.insert conn ((g.tools.lookup conn).getD [] ++ [tool.name])
        toolRegistry := g.toolRegistry.add tool.name tool.description tool.parametersJson sessionId }
    refine ⟨tool :: defs, tools, ?_, ?_, ?_⟩
    · rw [List.map_cons, List.map_cons, hname, hdefs]
    · rw [htools, AList.lookup_insert, Option.getD_some, List.map_cons, List.append_assoc]
      rfl
    · rw [addTools, hadd, Outcome.ok_andThen, hrest, ToolRegistry.addAll, ToolRegistry.addAll,
        List.foldl_cons, if_neg hne]

end Add

theorem valid_of_named {t : Json ν} (h : t.Valid) {name : Str} (hname : named t = some name) :
    Utf8.Valid name := by
  have hmember : ∀ j : Json ν, j.Valid → (j.member "name").bind Json.getString = some name →
      Utf8.Valid name := by
    intro j hj hbind
    obtain ⟨v, hv, hname⟩ := Option.bind_eq_some_iff.1 hbind
    have hv := hj.member hv
    cases v with
    | string s =>
      rw [← Option.some.inj hname]
      exact Json.valid_string.1 hv
    | _ => cases hname
  cases t with
  | string s =>
    rw [← Option.some.inj hname]
    exact Json.valid_string.1 h
  | object m => exact hmember _ h hname
  | _ => cases hname

/-! ## The registration -/

/-- The reply to an executor, with the names of all tools. -/
def registeredJson (names : List Str) : Json ν :=
  .object (Json.members [
    (str "type", .string (str "registered")),
    (str "role", .string (str "executor")),
    (str "tools", .array (names.map .string))])

/-- A registration that is complete: the connection is an executor, once, its tools are in the session and in
the registry, and the reply is sent. -/
structure Registered (conn : ConnId) (ctx : SessionCtx) (tools : List (Json ν)) (g : Gateway ν)
    (o : Outcome (Gateway ν)) : Prop where
  returns : o.threw = false
  executor : o.state.executors.count conn = 1
  session : ∀ t ∈ tools, ∀ name, named t = some name → name ∈ (o.state.tools.lookup conn).getD []
  registry : ∀ t ∈ tools, ∀ name, named t = some name →
    ∃ e ∈ o.state.toolRegistry.entries, e.tool.name = name ∧ e.source = ctx.sessionId
  reply : o.state.sent = g.sent ++ [(conn, registeredJson o.state.toolRegistry.names)]

/-- The names of the registry are valid UTF-8. -/
def NamesValid (g : Gateway ν) : Prop := ∀ name ∈ g.toolRegistry.names, Utf8.Valid name

section Register

variable {platform : GatewayPlatform ν} (hlib : platform.json.Strict) {conn : ConnId} {ctx : SessionCtx}
  {g : Gateway ν}

theorem valid_registeredJson {names : List Str} (h : ∀ name ∈ names, Utf8.Valid name) :
    (registeredJson names : Json ν).Valid := by
  refine Json.valid_object_members fun p hp => ?_
  simp only [List.mem_cons, List.not_mem_nil, or_false] at hp
  rcases hp with rfl | rfl | rfl
  · exact ⟨valid_str _, Json.valid_string.2 (valid_str _)⟩
  · exact ⟨valid_str _, Json.valid_string.2 (valid_str _)⟩
  · exact ⟨valid_str _, Json.valid_array_string.2 h⟩

theorem names_addAll_valid {r : ToolRegistry} (h : ∀ name ∈ r.names, Utf8.Valid name) {sessionId : Str}
    (hid : sessionId ≠ []) {defs : List ToolDef} (hdefs : ∀ tool ∈ defs, Utf8.Valid tool.name) :
    ∀ name ∈ (r.addAll sessionId defs).names, Utf8.Valid name := by
  intro name hname
  rcases (ToolRegistry.mem_names_addAll hid defs r name).1 hname with hname | hname
  · exact h name hname
  · obtain ⟨tool, htool, rfl⟩ := List.mem_map.1 (List.mem_filter.1 hname).1
    exact hdefs tool htool

include hlib

variable (conn) in
/-- The registration returns, and with it what it does, exactly if all tools can be read. -/
theorem registerExecutor_eq (hnames : NamesValid g) (hid : ctx.sessionId ≠ []) {tools : List (Json ν)}
    (hlisted : ∀ t ∈ tools, Listed t) (hreadable : ∀ t ∈ tools, Readable t) (hvalid : ∀ t ∈ tools, t.Valid) :
    ∃ (defs : List ToolDef) (tools' : AList fun _ : ConnId => List Str),
      tools.map named = defs.map (fun tool => some tool.name) ∧
      (tools'.lookup conn).getD [] = (g.tools.lookup conn).getD [] ++ defs.map ToolDef.name ∧
      registerExecutor platform conn ctx tools g = .ok
        { g with
          conns := g.conns.insert conn { ctx := { ctx with role := str "executor" } }
          tools := tools'
          toolRegistry := g.toolRegistry.addAll ctx.sessionId defs
          executors := g.executors ++ [conn]
          sent := g.sent ++ [(conn, registeredJson (g.toolRegistry.addAll ctx.sessionId defs).names)] } := by
  obtain ⟨defs, tools', hdefs, htools', hadd⟩ := addTools_returns conn ctx.sessionId hlib hlisted hreadable
    hvalid (setCtx conn { ctx with role := str "executor" } g)
  refine ⟨defs, tools', hdefs, htools', ?_⟩
  have hdefsvalid : ∀ tool ∈ defs, Utf8.Valid tool.name := by
    intro tool htool
    have hmem : some tool.name ∈ tools.map named := hdefs ▸ List.mem_map_of_mem htool
    obtain ⟨t, ht, hname⟩ := List.mem_map.1 hmem
    exact valid_of_named (hvalid t ht) hname
  obtain ⟨text, hdump⟩ := Option.isSome_iff_exists.1 ((hlib.dump_isSome _).2
    (valid_registeredJson (ν := ν) (names_addAll_valid hnames hid hdefsvalid)))
  rw [registerExecutor, hadd, Outcome.ok_andThen]
  exact wsSend_of_dump_some platform hdump conn _

theorem registered_iff (hnames : NamesValid g) (hid : ctx.sessionId ≠ []) {tools : List (Json ν)}
    (hlisted : ∀ t ∈ tools, Listed t) (hvalid : ∀ t ∈ tools, t.Valid) :
    Registered conn ctx tools g (registerExecutor platform conn ctx tools g) ↔
      (∀ t ∈ tools, Readable t) ∧ conn ∉ g.executors := by
  by_cases hreadable : ∀ t ∈ tools, Readable t
  · obtain ⟨defs, tools', hdefs, htools', heq⟩ :=
      registerExecutor_eq hlib conn hnames hid hlisted hreadable hvalid
    rw [heq, and_iff_right hreadable]
    have hcount : (g.executors ++ [conn]).count conn = g.executors.count conn + 1 := by
      rw [List.count_append, List.count_singleton_self]
    constructor
    · intro h
      have hone := hcount.symm.trans h.executor
      exact List.count_eq_zero.1 (by omega)
    · intro hnot
      have hmem : ∀ t ∈ tools, ∀ name, named t = some name → ∃ tool ∈ defs, tool.name = name := by
        intro t ht name hname
        have hmem : named t ∈ defs.map fun tool => some tool.name := hdefs ▸ List.mem_map_of_mem ht
        obtain ⟨tool, htool, heq⟩ := List.mem_map.1 hmem
        exact ⟨tool, htool, Option.some.inj (heq.trans hname)⟩
      refine ⟨rfl, ?_, fun t ht name hname => ?_, fun t ht name hname => ?_, rfl⟩
      · exact hcount.trans (by rw [List.count_eq_zero.2 hnot])
      · obtain ⟨tool, htool, rfl⟩ := hmem t ht name hname
        rw [Outcome.ok_state, htools']
        exact List.mem_append_right _ (List.mem_map_of_mem htool)
      · obtain ⟨tool, htool, rfl⟩ := hmem t ht name hname
        obtain ⟨name', hname', hne⟩ := hlisted t ht
        rw [Option.some.inj (hname'.symm.trans hname)] at hne
        have hoffered : tool.name ∈ ToolRegistry.offered defs :=
          List.mem_filter.2 ⟨List.mem_map_of_mem htool, decide_eq_true hne⟩
        obtain ⟨e, he, hkey⟩ := List.mem_map.1 ((ToolRegistry.mem_keys_addAll hid defs g.toolRegistry
          (tool.name, ctx.sessionId)).2 (.inr ⟨rfl, hoffered⟩))
        exact ⟨e, he, congrArg Prod.fst hkey, congrArg Prod.snd hkey⟩
  · refine iff_of_false (fun h => ?_) fun h => hreadable h.1
    have hthrew := addTools_threw conn ctx.sessionId hlisted hreadable hlib hvalid
      (setCtx conn { ctx with role := str "executor" } g)
    have hreturns := h.returns
    rw [registerExecutor, Outcome.andThen, if_pos hthrew, hthrew] at hreturns
    cases hreturns

end Register

/-! ## Runs -/

/-- The sessions of the connections have ids, and the names of the registry are valid UTF-8. -/
structure Named (g : Gateway ν) : Prop where
  ids : ∀ conn c, g.conns.lookup conn = some c → ToolRegistry.IsSessionId c.ctx.sessionId
  names : NamesValid g

section Steps

variable {platform : GatewayPlatform ν} {g g' : Gateway ν}

theorem Named.of_eq (h : Named g) (hconns : g'.conns = g.conns) (htools : g'.toolRegistry = g.toolRegistry) :
    Named g' := by
  refine ⟨?_, ?_⟩
  · rw [hconns]
    exact h.ids
  · rw [NamesValid, htools]
    exact h.names

/-- The context of a connection changes, but not its session. -/
theorem Named.insert (h : Named g) {conn : ConnId} {ctx : SessionCtx} {connected : Bool}
    (hopen : g.conns.lookup conn = some ⟨ctx, connected⟩) {c : Conn} (hid : c.ctx.sessionId = ctx.sessionId)
    (hconns : g'.conns = g.conns.insert conn c) (htools : g'.toolRegistry = g.toolRegistry) : Named g' := by
  refine ⟨?_, ?_⟩
  · rw [hconns]
    exact AList.forall_lookup_insert h.ids (by rw [hid]; exact h.ids conn _ hopen)
  · rw [NamesValid, htools]
    exact h.names

theorem Named.send (h : Named g) (conn : ConnId) (msg : Json ν) :
    Named (onController (wsSend platform conn msg) g).state := by
  obtain ⟨sent, hsent⟩ := wsSend_state platform conn msg g
  rw [hsent]
  exact h.of_eq rfl rfl

theorem valid_toolName {t : Json ν} (h : t.Valid) {name : Str} (hname : toolName t = some name) :
    Utf8.Valid name := by
  cases t with
  | object m => exact h.value_getString hname
  | _ => cases hname

theorem Named.addTool (h : Named g) (conn : ConnId) {sessionId : Str} {t : Json ν} (ht : t.Valid) :
    Named (addTool platform conn sessionId t g).state := by
  unfold Gateway.addTool
  split
  · exact h
  · next name hname =>
    split_ifs
    · exact h
    · dsimp only
      split
      · refine ⟨h.ids, fun name' hname' => ?_⟩
        rcases (ToolRegistry.mem_names_add name _ _ sessionId g.toolRegistry name').1 hname' with hname' | rfl
        · exact h.names name' hname'
        · exact valid_toolName ht hname
      · exact ⟨h.ids, h.names⟩

theorem Named.addTools (h : Named g) (conn : ConnId) {sessionId : Str} {ts : List (Json ν)}
    (hts : ∀ t ∈ ts, t.Valid) : Named (addTools platform conn sessionId ts g).state := by
  induction ts generalizing g with
  | nil => exact h
  | cons t ts ih =>
    refine Outcome.state_andThen Named (h.addTool conn (hts t List.mem_cons_self)) fun g' h' => ?_
    exact ih h' fun t' ht' => hts t' (List.mem_cons_of_mem t ht')

theorem Named.registerExecutor (h : Named g) {conn : ConnId} {ctx : SessionCtx}
    (hopen : g.conns.lookup conn = some ⟨ctx, true⟩) {tools : List (Json ν)} (htools : ∀ t ∈ tools, t.Valid) :
    Named (registerExecutor platform conn ctx tools g).state := by
  have hctx : Named (setCtx conn { ctx with role := str "executor" } g) := h.insert hopen rfl rfl rfl
  refine Outcome.state_andThen Named (hctx.addTools conn htools) fun g' h' => ?_
  refine Named.send ?_ conn _
  exact h'.of_eq rfl rfl

theorem Named.routeToolCall (h : Named g) (sender : ConnId) (requestId callId name arguments : Str) :
    Named (routeToolCall platform sender requestId callId name arguments g).state := by
  unfold Gateway.routeToolCall
  split
  · have hprune : Named g.pruneExecutors := h.of_eq rfl rfl
    exact hprune.send sender _
  · next executor _ =>
    obtain ⟨sent, hsent⟩ := forwardTool_state platform executor requestId callId name arguments
      (registerTool sender requestId callId
        { g.pruneExecutors with execRrIdx := g.pruneExecutors.nextIdx name })
    rw [hsent]
    exact h.of_eq rfl rfl

theorem Named.onToolCall (h : Named g) (conn : ConnId) (requestId callId name arguments : Str) :
    Named (onToolCall platform conn requestId callId name arguments g).state := by
  unfold Gateway.onToolCall
  split
  · exact h
  · exact Outcome.state_andThen Named (h.send conn _) fun g' h' =>
      h'.routeToolCall conn requestId callId name arguments

/-- What changes a table leaves the sessions and the tools as they are. -/
theorem Effect.named {op : PendingTable.Op (CallTable × Str) PendingCall} (heffect : Effect g op g')
    (hop : op ≠ .skip) (h : Named g) : Named g' := by
  cases heffect with
  | toolCall => exact h.of_eq rfl rfl
  | agentCall => exact h.of_eq rfl rfl
  | toolResult => exact h.of_eq rfl rfl
  | agentResult => exact h.of_eq rfl rfl
  | _ => exact absurd rfl hop

theorem Named.close [Double ν] (h : Named g) {conn : ConnId} {ctx : SessionCtx}
    (hopen : g.conns.lookup conn = some ⟨ctx, true⟩) (now : Clock) :
    Named (handleConnectionClosed platform conn ctx now g).state := by
  have hleave : ∀ g₁ : Gateway ν, g₁.conns = g.conns → NamesValid g₁ →
      Named (onController (WsChatController.handleConnectionClosed platform conn ctx now) g₁).state := by
    intro g₁ hconns hnames
    obtain ⟨sessions, registry, cache, -, -, hstate⟩ :=
      handleConnectionClosed_state platform conn ctx now g₁.toWsChatController
    have hid : ToolRegistry.IsSessionId ctx.sessionId := h.ids conn _ hopen
    rw [onController_state hstate]
    refine ⟨AList.forall_lookup_insert ?_ hid, hnames⟩
    rw [hconns]
    exact h.ids
  unfold handleConnectionClosed
  dsimp only
  split_ifs
  · refine hleave _ rfl fun name hname => ?_
    obtain ⟨e, he, rfl⟩ := List.mem_map.1 hname
    exact h.names _ (List.mem_map_of_mem (List.mem_filter.1 he).1)
  · exact hleave _ rfl h.names

variable [Double ν]

theorem Named.registerAgent (h : Named g) {conn : ConnId} {ctx : SessionCtx}
    (hopen : g.conns.lookup conn = some ⟨ctx, true⟩) (msg : Json ν) (now : Clock) :
    Named (registerAgent platform conn ctx msg now g).state := by
  unfold Gateway.registerAgent
  split
  · exact h.insert hopen rfl rfl rfl
  · next agentName _ =>
    dsimp only
    split_ifs
    · exact h.insert hopen rfl rfl rfl
    · obtain ⟨sent, hsent⟩ := WsChatController.registerAgent_state platform conn ctx (some agentName)
        (readCapabilities (Message.arrayMember msg "capabilities")).1 now g.toWsChatController
      rw [onController_state hsent]
      exact h.insert hopen rfl rfl rfl

theorem Named.routeAgentCall (h : Named g) (caller : ConnId) (ctx : SessionCtx)
    (callId targetAgentId capability input : Str) (bypassCache : Bool) (now : Clock) :
    Named (onController (WsChatController.routeAgentCall platform caller ctx callId targetAgentId capability
      input bypassCache now) g).state := by
  cases htarget : WsChatController.callTarget platform ctx targetAgentId capability input bypassCache now
      g.toWsChatController with
  | none =>
    obtain ⟨cache, sent, hstate⟩ := WsChatController.routeAgentCall_of_none platform htarget caller callId
    rw [onController_state hstate]
    exact h.of_eq rfl rfl
  | some target =>
    obtain ⟨cache, heq⟩ := WsChatController.routeAgentCall_of_some platform htarget caller callId
    obtain ⟨sent, hsent⟩ := WsChatController.sendCall_state platform ctx callId capability input target
      (WsChatController.registerCall caller callId { g.toWsChatController with cache })
    rw [← heq] at hsent
    rw [onController_state hsent]
    exact h.of_eq rfl rfl

theorem Named.handle (h : Named g) {conn : ConnId} {ctx : SessionCtx}
    (hopen : g.conns.lookup conn = some ⟨ctx, true⟩) (verdict : ChatVerdict) (now : Clock) {msg : Message ν}
    (hmsg : ∀ tools, msg = .registerExecutor tools → ∀ t ∈ tools, t.Valid) :
    Named (handle platform conn ctx verdict now msg g).state := by
  cases msg with
  | invalidJson => exact h.send conn _
  | chat requestId =>
    cases verdict with
    | passed => exact h.of_eq rfl rfl
    | _ => exact h.send conn _
  | chatWithoutMessages requestId => exact h.send conn _
  | cancel requestId =>
    show Named (cancel platform conn requestId g).state
    unfold cancel
    split
    · exact h
    · have hflag : Named { g with activeRequests := g.activeRequests.insert (conn, requestId) true } :=
        h.of_eq rfl rfl
      exact hflag.send conn _
  | ping => exact h.send conn _
  | registerExecutor tools => exact h.registerExecutor hopen (hmsg tools rfl)
  | registerAgent msg => exact h.registerAgent hopen msg now
  | toolCall requestId callId name arguments => exact h.routeToolCall conn requestId callId name arguments
  | toolResult requestId callId content =>
    exact (effect_toolResult platform conn requestId callId content g).named (fun hop => by cases hop) h
  | agentCall callId targetAgentId capability input bypassCache =>
    exact h.routeAgentCall conn ctx callId targetAgentId capability input bypassCache now
  | agentResult callId output confidence =>
    exact (effect_agentResult platform conn ctx callId output confidence now g).named
      (fun hop => by cases hop) h
  | cacheInvalidate key reason cascading =>
    obtain ⟨cache, sent, hstate⟩ := WsChatController.handleCacheInvalidate_state platform conn key reason
      cascading g.toWsChatController
    exact onController_state hstate ▸ h.of_eq rfl rfl
  | contextExpand callId ref maxTokens => exact h.send conn _
  | other => exact h

theorem valid_of_read (hlib : platform.json.Strict) {nanos : ℤ} {text : Str} {tools : List (Json ν)}
    (h : Message.read platform.json nanos text = some (.registerExecutor tools)) : ∀ t ∈ tools, t.Valid := by
  cases hparse : platform.json.parse text with
  | none =>
    simp only [Message.read, hparse, Option.some.injEq] at h
    cases h
  | some j =>
    have htools : tools = Message.arrayMember j "tools" := Message.readFrom_of_read hparse _ h
    have hj := hlib.parse text j hparse
    rw [htools]
    unfold Message.arrayMember
    split
    · next xs hxs => exact Json.valid_array.1 (hj.member hxs)
    · exact fun t ht => absurd ht List.not_mem_nil

/-- The id of a new session has a dash. -/
theorem isSessionId_newCtx (clientIp role : Str) (nanos : ℤ) (seq : ℕ) :
    ToolRegistry.IsSessionId (WsChatController.newCtx clientIp role nanos seq).sessionId := by
  have hdash : (45 : UInt8) ∈ (WsChatController.newCtx clientIp role nanos seq).sessionId :=
    List.mem_append_left _ (List.mem_append_right _ (by decide))
  refine ⟨List.ne_nil_of_mem hdash, fun heq => ?_⟩
  rw [heq] at hdash
  exact absurd hdash (by decide)

theorem Named.step (hlib : platform.json.Strict) (h : Named g) (event : Event × Clock) :
    Named (step platform event g).state := by
  obtain ⟨event, now⟩ := event
  cases event with
  | connect clientIp role nanos =>
    obtain ⟨sent, hsent⟩ := WsChatController.handleNewConnection_state platform clientIp role nanos
      g.toWsChatController
    refine onController_state hsent ▸ ⟨AList.forall_lookup_insert h.ids ?_, h.names⟩
    exact isSessionId_newCtx clientIp role nanos g.seq
  | message conn text nanos verdict =>
    simp only [Gateway.step, fromOpen_eq]
    cases hopen : g.openCtx conn with
    | none => exact h
    | some ctx =>
      dsimp only
      unfold handleNewMessage
      cases hread : Message.read platform.json nanos text with
      | none => exact h
      | some msg =>
        refine h.handle (openCtx_eq_some.1 hopen) verdict now fun tools heq => ?_
        subst heq
        exact valid_of_read hlib hread
  | toolCallOf chat callId name arguments =>
    simp only [Gateway.step, ofChat]
    cases g.chats[chat]? with
    | none => exact h
    | some p => exact h.onToolCall p.1 p.2 callId name arguments
  | endOf chat =>
    simp only [Gateway.step, ofChat]
    cases g.chats[chat]? with
    | none => exact h
    | some p => exact h.of_eq rfl rfl
  | close conn =>
    simp only [Gateway.step, fromOpen_eq]
    cases hopen : g.openCtx conn with
    | none => exact h
    | some ctx => exact h.close (openCtx_eq_some.1 hopen) now

theorem named_run (hlib : platform.json.Strict) (data idx : Option Str) (l3 : L3ArchiveStore)
    (events : List (Event × Clock)) : Named (run platform (start platform data idx l3) events) := by
  refine Outcome.run_invariant Named ⟨fun conn c hc => ?_, fun name hname => ?_⟩
    fun g event _ h => h.step hlib event
  · cases hc
  · exact absurd hname List.not_mem_nil

end Steps

/-! ## The list of the tools -/

section Served

variable {platform : GatewayPlatform ν} {conn : ConnId} {ctx : SessionCtx} {g : Gateway ν}
  (hid : ToolRegistry.IsSessionId ctx.sessionId) (offers : UMap (List Str)) (statics : List Str)
  (roles : UMap Str)

/-- For the registry, a registration whose tools can be read is the operation `register` of the session. -/
theorem toolRegistry_registerExecutor (hlib : platform.json.Strict) (hnames : NamesValid g)
    {tools : List (Json ν)} (hlisted : ∀ t ∈ tools, Listed t) (hreadable : ∀ t ∈ tools, Readable t)
    (hvalid : ∀ t ∈ tools, t.Valid) :
    ∃ defs : List ToolDef, tools.map named = defs.map (fun tool => some tool.name) ∧
      (registerExecutor platform conn ctx tools g).state.toolRegistry =
        (ToolRegistry.Served.step (.register ⟨ctx.sessionId, hid⟩ defs)
          ⟨g.toolRegistry, offers, statics, roles⟩).state.registry := by
  obtain ⟨defs, tools', hdefs, -, heq⟩ :=
    registerExecutor_eq hlib conn hnames hid.1 hlisted hreadable hvalid
  exact ⟨defs, hdefs, by rw [heq]; rfl⟩

/-- For the registry, a registration as an agent is the operation `registerAgent` of the session. -/
theorem toolRegistry_registerAgent [Double ν] (msg : Json ν) (now : Clock) :
    (registerAgent platform conn ctx msg now g).state.toolRegistry =
      (ToolRegistry.Served.step (.registerAgent ⟨ctx.sessionId, hid⟩)
        ⟨g.toolRegistry, offers, statics, roles⟩).state.registry := by
  unfold registerAgent
  split
  · rfl
  · dsimp only
    split_ifs <;> rfl

/-- For the registry, the closing of a connection is the operation `disconnect` of its session, in its role. -/
theorem toolRegistry_close [Double ν] (hrole : roles.lookup ctx.sessionId = some ctx.role) (now : Clock) :
    (handleConnectionClosed platform conn ctx now g).state.toolRegistry =
      (ToolRegistry.Served.step (.disconnect ⟨ctx.sessionId, hid⟩)
        ⟨g.toolRegistry, offers, statics, roles⟩).state.registry := by
  have hexecutor : ToolRegistry.Served.IsExecutor ⟨g.toolRegistry, offers, statics, roles⟩ ctx.sessionId ↔
      ctx.role = str "executor" := by
    rw [ToolRegistry.Served.IsExecutor, hrole, Option.some.injEq]
  unfold handleConnectionClosed ToolRegistry.Served.step
  simp only [Outcome.ok_state, hexecutor]
  split_ifs <;> rfl

end Served

/-- In every run, a registration whose tools have the two forms is complete exactly if no tool is given by
its name alone, no description is something else than text, and the connection is no executor yet. -/
theorem registered_run_iff [Double ν] {platform : GatewayPlatform ν} (hlib : platform.json.Strict)
    (data idx : Option Str) (l3 : L3ArchiveStore) (events : List (Event × Clock)) {conn : ConnId}
    {ctx : SessionCtx} (hopen : (run platform (start platform data idx l3) events).openCtx conn = some ctx)
    {text : Str} {nanos : ℤ} {tools : List (Json ν)}
    (hread : Message.read platform.json nanos text = some (.registerExecutor tools))
    (hlisted : ∀ t ∈ tools, Listed t) (verdict : ChatVerdict) (now : Clock) :
    Registered conn ctx tools (run platform (start platform data idx l3) events)
        (step platform (.message conn text nanos verdict, now)
          (run platform (start platform data idx l3) events)) ↔
      (∀ t ∈ tools, Readable t) ∧ conn ∉ (run platform (start platform data idx l3) events).executors := by
  have hnamed := named_run hlib data idx l3 events
  generalize run platform (start platform data idx l3) events = g at hopen hnamed ⊢
  have hid : ctx.sessionId ≠ [] := (hnamed.ids conn _ (openCtx_eq_some.1 hopen)).1
  have hstep : step platform (.message conn text nanos verdict, now) g =
      registerExecutor platform conn ctx tools g := by
    simp only [step, fromOpen_eq, hopen, handleNewMessage, hread]
    rfl
  rw [hstep]
  exact registered_iff hlib hnamed.names hid hlisted (valid_of_read hlib hread)

/-! ## A tool as an object and as text -/

open Watched (executorJson solveGateway connects tells)

/-- A registration whose tool is given by its name alone. -/
def textToolJson : Json ℚ :=
  .object (Json.members [
    (str "type", .string (str "register")),
    (str "role", .string (str "executor")),
    (str "tools", .array [.string (str "run")])])

/-- A platform with the library on the values of the run. -/
def executorGateway : GatewayPlatform ℚ where
  toHost := solveGateway.toHost
  json := JsonLib.checked Json.showRat [executorJson, textToolJson]
  evpSha256 := solveGateway.evpSha256

/-- A new gateway with a connection. -/
def executorRun : Gateway ℚ := run executorGateway (start executorGateway none none {}) [connects 1]

theorem registered_run_iff_object :
    ∃ ctx, executorRun.openCtx 0 = some ctx ∧ Registered 0 ctx [.object [(str "name", .string (str "run"))]]
      executorRun (step executorGateway (tells 0 executorJson) executorRun) := by
  refine ⟨_, rfl, (registered_run_iff (JsonLib.checked_strict _ _) none none {} [connects 1] rfl rfl ?_ _
    _).2 ⟨?_, List.not_mem_nil⟩⟩
  · intro t ht
    rw [List.mem_singleton.1 ht]
    exact ⟨str "run", rfl, by decide⟩
  · intro t ht
    rw [List.mem_singleton.1 ht]
    exact ⟨rfl, rfl⟩

/-- The handler throws, and the connection is no executor. -/
theorem text_tool_not_registered :
    Listed (.string (str "run") : Json ℚ) ∧
      Message.read executorGateway.json 0 (textToolJson.compact Json.showRat) =
        some (.registerExecutor [.string (str "run")]) ∧
      (step executorGateway (tells 0 textToolJson) executorRun).threw = true ∧
      (step executorGateway (tells 0 textToolJson) executorRun).state.executors = [] := by
  exact ⟨⟨str "run", rfl, by decide⟩, rfl, by decide +kernel, by decide +kernel⟩

end Gateway

end LlmGateway
