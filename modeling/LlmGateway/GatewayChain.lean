import LlmGateway.EventStream

/-!
# Gateways behind gateways

A gateway whose backend is a gateway again: the parser of its transfer reads what the other one sends, and
calls the callbacks of its own client, which may throw.

`chain_reads`: a client at the end of a chain of gateways reads the tokens of the backend as the plugins of
all gateways leave them, one gateway after the other, and the end of the stream unless it is an error.
`chain_transparent`: gateways whose plugins leave tokens as they are pass a stream on byte by byte.
-/

namespace LlmGateway

variable {ν σ : Type}

/-- The callback of a request over HTTP that a call of the parser goes to.  There is none for tool calls. -/
def StreamCall.ofCall : SSECall → Option StreamCall
  | .token tok => some (.token tok)
  | .toolCall _ _ _ => none
  | .done => some .done

/-- A gateway, as the stream of one request sees it. -/
structure HttpGateway (σ : Type) where
  plugins : List (StreamPlugin σ)
  lua : σ
  /-- The model that its chunks name. -/
  model : Str := str "gateway"

namespace HttpGateway

variable (lib : JsonLib ν) (g : HttpGateway σ)

/-- The stream to the client after some calls of the parser. -/
def client (calls : List SSECall) : EventStream σ :=
  EventStream.run lib g.model g.plugins { lua := g.lua } (calls.filterMap StreamCall.ofCall)

/-- The callbacks throw what printing throws. -/
def ends : CallbackEnds := fun before c =>
  (StreamCall.ofCall c).bind fun call =>
    if (EventStream.step lib g.model g.plugins call (g.client lib before)).threw then some .exception
    else none

/-- A line of the backend; nothing if an exception leaves the parser. -/
def readLine (s : SSELineState) (line : Str) : Option SSELineState :=
  match LineM.processLine lib { toolCb := false } (g.ends lib) (SSEParser.stripCr line) s with
  | .ok _ s => some s
  | .error _ _ => none

/-- The calls on the stream to the client when the backend has sent some chunks. -/
def relay (chunks : List Str) : Option (List StreamOp) :=
  (chunks.foldlM (LineBuffer.feed newline (g.readLine lib)) ([], {})).map fun b =>
    (g.client lib b.2.calls).stream

/-- What the gateway makes of the tokens of a backend; the parser passes over empty ones. -/
def relayed (toks : List Str) : List Str := PluginManager.processed g.plugins (toks.filter (· ≠ [])) g.lua

/-! ## Streams of tokens -/

end HttpGateway

/-- A stream of tokens and its end, if it has come. -/
def tokenStream (toks : List Str) (ending : Option StreamEvent) : List StreamEvent :=
  toks.map .token ++ ending.toList

/-- The end of a stream that a parser reads: an error is none. -/
def readEnding (ending : Option StreamEvent) : Option StreamEvent :=
  if ending = some .done then some .done else none

theorem closes_of_readEnding {ending : Option StreamEvent} {e : StreamEvent}
    (h : readEnding ending = some e) : e.closes = true := by
  rw [readEnding] at h
  split_ifs at h
  rw [← Option.some.inj h]
  rfl

/-- Before a token of a stream there are tokens. -/
theorem tokenStream_split {toks : List Str} {ending : Option StreamEvent}
    (hending : ∀ e ∈ ending, e.closes = true) {pre post : List StreamEvent} {tok : Str}
    (h : tokenStream toks ending = pre ++ .token tok :: post) :
    ∃ ts rest, toks = ts ++ tok :: rest ∧ pre = ts.map .token := by
  induction pre generalizing toks with
  | nil =>
    cases toks with
    | nil =>
      cases hnone : ending with
      | none => rw [hnone] at h; cases h
      | some e =>
        rw [hnone] at h
        have hcloses := hending e hnone
        rw [(List.cons.inj h).1] at hcloses
        cases hcloses
    | cons t toks =>
      obtain ⟨hhead, -⟩ := List.cons.inj h
      obtain rfl : t = tok := StreamEvent.token.inj hhead
      exact ⟨[], toks, rfl, rfl⟩
  | cons e pre ih =>
    cases toks with
    | nil =>
      cases hnone : ending with
      | none => rw [hnone] at h; cases h
      | some e' =>
        rw [hnone] at h
        cases pre with
        | nil => cases (List.cons.inj h).2
        | cons _ _ => cases (List.cons.inj h).2
    | cons t toks =>
      obtain ⟨hhead, htail⟩ := List.cons.inj h
      obtain ⟨ts, rest, rfl, rfl⟩ := ih htail
      exact ⟨t :: ts, rest, rfl, by rw [← hhead]; rfl⟩

theorem filterMap_read_map_token (toks : List Str) :
    (toks.map StreamEvent.token).filterMap StreamEvent.read = (toks.filter (· ≠ [])).map SSECall.token := by
  induction toks with
  | nil => rfl
  | cons tok toks ih =>
    rw [List.map_cons, List.filterMap_cons, ih, StreamEvent.read]
    by_cases hempty : tok = []
    · rw [if_pos hempty, List.filter_cons_of_neg (by simpa using hempty)]
    · rw [if_neg hempty, List.filter_cons_of_pos (by simpa using hempty)]
      rfl

theorem filterMap_ofCall_map_token (toks : List Str) :
    (toks.map SSECall.token).filterMap StreamCall.ofCall = toks.map StreamCall.token := by
  rw [List.filterMap_map]
  exact congrFun (List.filterMap_eq_map (f := StreamCall.token)) toks

/-- The calls that a parser makes for a stream of tokens. -/
theorem filterMap_read_tokenStream (toks : List Str) {ending : Option StreamEvent}
    (hending : ∀ e ∈ ending, e.closes = true) :
    (tokenStream toks ending).filterMap StreamEvent.read =
      (toks.filter (· ≠ [])).map SSECall.token ++ if ending = some .done then [.done] else [] := by
  rw [tokenStream, List.filterMap_append, filterMap_read_map_token]
  cases hsome : ending with
  | none => rfl
  | some e =>
    cases e with
    | token tok => cases hending _ hsome
    | done => rfl
    | error err => rfl

/-! ## A gateway -/

namespace HttpGateway

open EventStream (Printable)

variable {lib : JsonLib ν} {g : HttpGateway σ}

/-- A token that the plugins leave, after those before it, is among those that they leave of all. -/
theorem mem_processed (lib : JsonLib ν) {plugins : List (StreamPlugin σ)} (model : Str) (ts : List Str) {tok : Str}
    (rest : List Str) {s : EventStream σ} {p : Str}
    (hp : (PluginManager.runTokenPipeline plugins tok
      (EventStream.run lib model plugins s (ts.map .token)).lua).1 = p) (hne : p ≠ []) :
    p ∈ PluginManager.processed plugins (ts ++ tok :: rest) s.lua := by
  induction ts generalizing s with
  | nil =>
    have hfirst : (PluginManager.runTokenPipeline plugins tok s.lua).1 = p := hp
    rw [List.nil_append, PluginManager.processed]
    dsimp only
    rw [hfirst, if_neg hne]
    exact List.mem_cons_self
  | cons t ts ih =>
    rw [List.map_cons, EventStream.run, Outcome.run_cons, ← EventStream.run] at hp
    have hrest := ih hp
    rw [EventStream.step_state] at hrest
    rw [List.cons_append, PluginManager.processed]
    dsimp only [EventStream.emitted] at hrest ⊢
    split_ifs
    · exact hrest
    · exact List.mem_cons_of_mem _ hrest

/-- A callback throws only if what the plugins leave of a token cannot be printed. -/
theorem ends_eq_none {toks ts : List Str} {tok : Str} (rest : List Str)
    (hprintable : ∀ p ∈ g.relayed toks, Printable lib (makeSseChunk p g.model))
    (htoks : toks.filter (· ≠ []) = ts ++ tok :: rest) :
    g.ends lib (ts.map .token) (.token tok) = none := by
  have hcalls : (ts.map SSECall.token).filterMap StreamCall.ofCall = ts.map .token :=
    filterMap_ofCall_map_token ts
  rw [ends, StreamCall.ofCall, Option.bind_some, client, hcalls]
  generalize hs : EventStream.run lib g.model g.plugins { lua := g.lua } (ts.map .token) = s
  refine if_neg ?_
  rw [EventStream.step, EventStream.onToken]
  cases hp : PluginManager.runTokenPipeline g.plugins tok s.lua with
  | mk p lua =>
    dsimp only
    by_cases hempty : p = []
    · rw [if_pos hempty]
      exact Bool.false_ne_true
    · have hmem := mem_processed lib g.model ts rest (s := { lua := g.lua }) (by rw [hs, hp]) hempty
      rw [← htoks] at hmem
      obtain ⟨payload, hdump, -⟩ := hprintable p hmem
      rw [if_neg hempty, hdump]
      exact Bool.false_ne_true

theorem readLine_nil (s : SSELineState) : g.readLine lib s [] = some s := rfl

/-- The parser makes the calls of a stream of tokens, and the callbacks return. -/
theorem feed_tokenStream {toks : List Str} {ending : Option StreamEvent}
    (hending : ∀ e ∈ ending, e.closes = true)
    (hprintable : ∀ p ∈ g.relayed toks, Printable lib (makeSseChunk p g.model)) {text : Str}
    (h : IsStream lib (tokenStream toks ending) text) {chunks : List Str} (hchunks : chunks.flatten = text) :
    chunks.foldlM (LineBuffer.feed newline (g.readLine lib)) ([], {}) =
      some ([], ({} : SSELineState).after (tokenStream toks ending)) := by
  refine SSEParser.feed_isStream h readLine_nil (fun pre e post payload hes he => ?_) hchunks
  have hends : ∀ c ∈ e.read, g.ends lib (({} : SSELineState).after pre).calls c = none := by
    intro c hc
    cases e with
    | token tok =>
      obtain ⟨ts, rest, htoks, rfl⟩ := tokenStream_split hending hes
      have hne : tok ≠ [] := by
        rintro rfl
        cases hc
      have hcall : c = .token tok := by
        rw [StreamEvent.read, if_neg hne] at hc
        exact (Option.some.inj hc).symm
      have hcalls : (({} : SSELineState).after (ts.map .token)).calls =
          (ts.filter (· ≠ [])).map SSECall.token := filterMap_read_map_token ts
      rw [hcall, hcalls]
      refine ends_eq_none (rest.filter (· ≠ [])) hprintable ?_
      rw [htoks, List.filter_append, List.filter_cons_of_pos (by simpa using hne)]
    | done =>
      rw [← Option.some.inj hc]
      rfl
    | error err => cases hc
  have hline := LineM.processLine_event (g.ends lib) (({} : SSELineState).after pre) he
    (show ({ toolCb := false } : SSECallbacks).tokCb = true from rfl) hends
  rw [readLine, SSEParser.stripCr_payload he.line.2, hline, SSELineState.after_append,
    SSELineState.after_singleton]

/-- What a gateway sends: the tokens that its plugins leave, and the end of the stream unless it is an
error. -/
theorem relay_stream {toks : List Str} {ending : Option StreamEvent}
    (hending : ∀ e ∈ ending, e.closes = true)
    (hprintable : ∀ p ∈ g.relayed toks, Printable lib (makeSseChunk p g.model)) {text : Str}
    (h : IsStream lib (tokenStream toks ending) text) {chunks : List Str} (hchunks : chunks.flatten = text) :
    ∃ ops, g.relay lib chunks = some ops ∧
      StreamOp.sent ops =
        (tokenStream (g.relayed toks) (readEnding ending)).flatMap (EventStream.text lib g.model) ∧
      StreamOp.closed ops = (readEnding ending).isSome := by
  have hcalls : (({} : SSELineState).after (tokenStream toks ending)).calls.filterMap StreamCall.ofCall =
      (toks.filter (· ≠ [])).map .token ++ if ending = some .done then [.done] else [] := by
    have hread := filterMap_read_tokenStream toks hending
    have hafter : (({} : SSELineState).after (tokenStream toks ending)).calls =
        (tokenStream toks ending).filterMap StreamEvent.read := rfl
    rw [hafter, hread, List.filterMap_append, filterMap_ofCall_map_token]
    split_ifs
    · rfl
    · rfl
  have hparts (ts : List Str) :
      EventStream.tokens (ts.map .token ++ if ending = some .done then [.done] else []) = ts ∧
        EventStream.ending (ts.map .token ++ if ending = some .done then [.done] else []) =
          readEnding ending := by
    induction ts with
    | nil =>
      rw [readEnding]
      split_ifs
      · exact ⟨rfl, rfl⟩
      · exact ⟨rfl, rfl⟩
    | cons t ts ih => exact ⟨congrArg (t :: ·) ih.1, ih.2⟩
  obtain ⟨htokens, hend⟩ := hparts (toks.filter (· ≠ []))
  have hevents : EventStream.events lib g.model g.plugins
      ((toks.filter (· ≠ [])).map .token ++ if ending = some .done then [.done] else []) g.lua =
        tokenStream (g.relayed toks) (readEnding ending) := by
    rw [EventStream.events_eq, htokens, hend]
    · rfl
    · intro p hp
      rw [htokens] at hp
      exact (hprintable p hp).isSome
    · intro err herr
      rw [hend, readEnding] at herr
      split_ifs at herr
      cases herr
  have hclosed : (tokenStream (g.relayed toks) (readEnding ending)).any StreamEvent.closes =
      (readEnding ending).isSome := by
    rw [tokenStream, List.any_append, List.any_map]
    cases hsome : readEnding ending with
    | none => simp [StreamEvent.closes]
    | some e => simp [closes_of_readEnding hsome]
  obtain ⟨hsent, hclosedRun⟩ := EventStream.stream_run lib g.model g.plugins (s := { lua := g.lua }) rfl
    ((toks.filter (· ≠ [])).map .token ++ if ending = some .done then [.done] else [])
  rw [hevents] at hsent hclosedRun
  refine ⟨_, ?_, hsent, hclosedRun.trans hclosed⟩
  rw [relay, feed_tokenStream hending hprintable h hchunks, Option.map_some, client, hcalls]

/-! ## Chains -/

/-- What is printed can be read again. -/
theorem isStream_tokenStream {model : Str} {toks : List Str} (ending : Option StreamEvent)
    (hprintable : ∀ p ∈ toks, Printable lib (makeSseChunk p model)) :
    IsStream lib (tokenStream toks (readEnding ending))
      ((tokenStream toks (readEnding ending)).flatMap (EventStream.text lib model)) := by
  have hevent : ∀ e ∈ tokenStream toks (readEnding ending), e = .done ∨
      ∃ p, e = .token p ∧ Printable lib (makeSseChunk p model) := by
    intro e he
    rw [tokenStream, List.mem_append, List.mem_map, Option.mem_toList, readEnding] at he
    rcases he with ⟨p, hp, rfl⟩ | he
    · exact .inr ⟨p, rfl, hprintable p hp⟩
    · split_ifs at he
      exact .inl (Option.some.inj he).symm
  refine isStream_events _ (fun e he => ?_) fun e he j hj payload hdump => ?_
  · rcases hevent e he with rfl | ⟨p, rfl, hp⟩
    · rfl
    · exact hp.isSome
  · rcases hevent e he with rfl | ⟨p, rfl, hp⟩
    · cases hj
    · rw [← Option.some.inj hj] at hdump ⊢
      exact hp.isPayload hdump

/-- Each gateway reads, in any pieces, what the one before it has sent before it closed its stream. -/
inductive Chain (lib : JsonLib ν) : List (HttpGateway σ) → Str → Str → Prop
  | nil (text : Str) : Chain lib [] text text
  | cons {g : HttpGateway σ} {gs : List (HttpGateway σ)} {chunks : List Str} {ops : List StreamOp}
      {text : Str} (hrelay : g.relay lib chunks = some ops) (hrest : Chain lib gs (StreamOp.sent ops) text) :
      Chain lib (g :: gs) chunks.flatten text

/-- What a chain makes of the tokens of a backend. -/
def chainTokens (gs : List (HttpGateway σ)) (toks : List Str) : List Str :=
  gs.foldl (fun toks g => g.relayed toks) toks

/-- Each gateway can print what its plugins leave. -/
def ChainPrints (lib : JsonLib ν) : List (HttpGateway σ) → List Str → Prop
  | [], _ => True
  | g :: gs, toks =>
    (∀ p ∈ g.relayed toks, Printable lib (makeSseChunk p g.model)) ∧ ChainPrints lib gs (g.relayed toks)

theorem isStream_of_chain {gs : List (HttpGateway σ)} {toks : List Str} {ending : Option StreamEvent}
    (hending : ∀ e ∈ ending, e.closes = true) (hprints : ChainPrints lib gs toks) {text text' : Str}
    (h : IsStream lib (tokenStream toks ending) text) (hchain : Chain lib gs text text') :
    ∃ ending', (∀ e ∈ ending', e.closes = true) ∧ (ending' = some .done ↔ ending = some .done) ∧
      IsStream lib (tokenStream (chainTokens gs toks) ending') text' := by
  induction hchain generalizing toks ending with
  | nil text => exact ⟨ending, hending, Iff.rfl, h⟩
  | @cons g gs chunks ops text hrelay _ ih =>
    obtain ⟨ops', hrelay', hsent, -⟩ := relay_stream hending hprints.1 h rfl
    rw [hrelay', Option.some_inj] at hrelay
    subst hrelay
    rw [hsent] at ih
    obtain ⟨ending', hcloses, hdone, hstream⟩ :=
      ih (fun e => closes_of_readEnding) hprints.2 (isStream_tokenStream _ hprints.1)
    refine ⟨ending', hcloses, hdone.trans ?_, hstream⟩
    rw [readEnding]
    split_ifs with hend
    · exact iff_of_true rfl hend
    · exact iff_of_false nofun hend

theorem exists_chain {gs : List (HttpGateway σ)} {toks : List Str} {ending : Option StreamEvent}
    (hending : ∀ e ∈ ending, e.closes = true) (hprints : ChainPrints lib gs toks) {text : Str}
    (h : IsStream lib (tokenStream toks ending) text) : ∃ text', Chain lib gs text text' := by
  induction gs generalizing toks ending text with
  | nil => exact ⟨text, .nil text⟩
  | cons g gs ih =>
    obtain ⟨ops, hrelay, hsent, -⟩ :=
      relay_stream hending hprints.1 h (show [text].flatten = text by simp)
    obtain ⟨text', hchain⟩ :=
      ih (fun e => closes_of_readEnding) hprints.2 (isStream_tokenStream ending hprints.1)
    rw [← hsent] at hchain
    have hcons := Chain.cons hrelay hchain
    rw [List.flatten_singleton] at hcons
    exact ⟨text', hcons⟩

/-- A chain of gateways passes the stream of a backend on, and however its last stream is cut, a client reads
the tokens as the plugins of one gateway after the other leave them, and the end unless it is an error. -/
theorem chain_reads {gs : List (HttpGateway σ)} {toks : List Str} {ending : Option StreamEvent}
    (hending : ∀ e ∈ ending, e.closes = true) (hprints : ChainPrints lib gs toks) {text : Str}
    (h : IsStream lib (tokenStream toks ending) text) {cb : SSECallbacks} (hcb : cb.tokCb = true) :
    (∃ text', Chain lib gs text text') ∧ ∀ text', Chain lib gs text text' →
      ∀ chunks : List Str, chunks.flatten = text' → chunks.foldlM (SSEParser.feed lib cb) {} =
        some { calls := ((chainTokens gs toks).filter (· ≠ [])).map .token ++
          if ending = some .done then [.done] else [] } := by
  refine ⟨exists_chain hending hprints h, fun text' hchain chunks hchunks => ?_⟩
  obtain ⟨ending', hcloses, hdone, hstream⟩ := isStream_of_chain hending hprints h hchain
  rw [SSEParser.feed_stream hcb hstream hchunks, filterMap_read_tokenStream _ hcloses]
  simp only [hdone]

/-- Plugins that leave tokens as they are. -/
def Transparent (g : HttpGateway σ) : Prop := ∀ plugin ∈ g.plugins, PluginManager.Transparent plugin

theorem readEnding_readEnding (ending : Option StreamEvent) :
    readEnding (readEnding ending) = readEnding ending := by
  by_cases h : ending = some .done
  · rw [h]
    rfl
  · have hnone : readEnding ending = none := if_neg h
    rw [hnone]
    rfl

/-- What a gateway with such plugins sends, for a stream that it can read. -/
theorem relay_transparent {toks : List Str} {ending : Option StreamEvent}
    (hending : ∀ e ∈ ending, e.closes = true) (htransparent : g.Transparent)
    (htoks : ∀ tok ∈ toks, tok ≠ [] → Printable lib (makeSseChunk tok g.model)) {text : Str}
    (h : IsStream lib (tokenStream toks ending) text) {chunks : List Str} (hchunks : chunks.flatten = text) :
    ∃ ops, g.relay lib chunks = some ops ∧
      StreamOp.sent ops =
        (tokenStream (toks.filter (· ≠ [])) (readEnding ending)).flatMap (EventStream.text lib g.model) ∧
      StreamOp.closed ops = (readEnding ending).isSome := by
  have hrelayed : g.relayed toks = toks.filter (· ≠ []) := by
    rw [relayed, PluginManager.processed_transparent htransparent, List.filter_filter]
    simp
  have hprintable : ∀ p ∈ g.relayed toks, Printable lib (makeSseChunk p g.model) := by
    intro p hp
    rw [hrelayed, List.mem_filter, decide_eq_true_eq] at hp
    exact htoks p hp.1 hp.2
  have hstream := relay_stream hending hprintable h hchunks
  rwa [hrelayed] at hstream

/-- A chain of gateways whose plugins leave tokens as they are gives its client, byte by byte, what the first
of them makes of the stream of the backend. -/
theorem chain_transparent {gs : List (HttpGateway σ)} {model : Str}
    (hgateways : ∀ g' ∈ g :: gs, g'.Transparent ∧ g'.model = model) {toks : List Str}
    {ending : Option StreamEvent} (hending : ∀ e ∈ ending, e.closes = true)
    (htoks : ∀ tok ∈ toks, tok ≠ [] → Printable lib (makeSseChunk tok model)) {text text' : Str}
    (h : IsStream lib (tokenStream toks ending) text) (hchain : Chain lib (g :: gs) text text') :
    text' = (tokenStream (toks.filter (· ≠ [])) (readEnding ending)).flatMap
      (EventStream.text lib model) := by
  generalize hall : g :: gs = all at hgateways hchain
  have hne : all ≠ [] := by
    rw [← hall]
    exact List.cons_ne_nil g gs
  clear hall
  induction hchain generalizing toks ending with
  | nil => exact absurd rfl hne
  | @cons g' gs' chunks ops text hrelay hrest ih =>
    obtain ⟨⟨htransparent, rfl⟩, hothers⟩ := List.forall_mem_cons.1 hgateways
    obtain ⟨ops', hrelay', hsent, -⟩ := relay_transparent hending htransparent htoks h rfl
    rw [hrelay', Option.some_inj] at hrelay
    subst hrelay
    rw [hsent] at hrest ih
    have hprintable : ∀ tok ∈ toks.filter (· ≠ []), Printable lib (makeSseChunk tok g'.model) := by
      intro tok htok
      rw [List.mem_filter, decide_eq_true_eq] at htok
      exact htoks tok htok.1 htok.2
    cases gs' with
    | nil =>
      cases hrest
      rfl
    | cons g'' gs'' =>
      rw [ih (fun e => closes_of_readEnding) (fun tok htok _ => hprintable tok htok)
        (isStream_tokenStream _ hprintable) hothers (List.cons_ne_nil _ _), readEnding_readEnding,
        List.filter_filter]
      simp

/-! ## Two gateways -/

/-- A plugin whose hook fails. -/
def failingPlugin : StreamPlugin Unit where
  hasOnToken := true
  safeScript lua := (true, lua)
  onToken _ lua := (.raised, lua)

/-- Two gateways with the plugin. -/
def twoGateways : List (HttpGateway Unit) :=
  [⟨[failingPlugin], (), str "gateway"⟩, ⟨[failingPlugin], (), str "gateway"⟩]

/-- A stream with one token. -/
def hiStream : Str :=
  (tokenStream [str "hi"] (readEnding (some .done))).flatMap
    (EventStream.text EventStream.hiLib (str "gateway"))

theorem printable_hiTokens : ∀ tok ∈ [str "hi"],
    Printable EventStream.hiLib (makeSseChunk tok (str "gateway")) := by
  intro tok htok
  rw [List.mem_singleton.1 htok]
  exact EventStream.printable_hi

theorem chainPrints_twoGateways : ChainPrints EventStream.hiLib twoGateways [str "hi"] := by
  have hrelayed : HttpGateway.relayed (⟨[failingPlugin], (), str "gateway"⟩ : HttpGateway Unit) [str "hi"] =
      [str "hi"] := by decide
  refine ⟨?_, ?_, trivial⟩
  · rw [hrelayed]
    exact printable_hiTokens
  · rw [hrelayed, hrelayed]
    exact printable_hiTokens

/-- A client behind both reads the token and the end. -/
theorem twoGateways_read : (∃ text', Chain EventStream.hiLib twoGateways hiStream text') ∧
    ∀ text', Chain EventStream.hiLib twoGateways hiStream text' → ∀ chunks : List Str,
      chunks.flatten = text' → chunks.foldlM (SSEParser.feed EventStream.hiLib {}) {} =
        some { calls := [.token (str "hi"), .done] } :=
  chain_reads (fun _ => closes_of_readEnding) chainPrints_twoGateways
    (isStream_tokenStream _ printable_hiTokens) rfl

/-- Both pass the stream on byte by byte. -/
theorem twoGateways_same :
    ∃ text', Chain EventStream.hiLib twoGateways hiStream text' ∧ text' = hiStream := by
  have hstream := isStream_tokenStream (some .done) printable_hiTokens
  have hsame : ∀ g ∈ twoGateways, g.Transparent ∧ g.model = str "gateway" := by
    intro g hg
    have htransparent : ∀ plugin ∈ [failingPlugin], PluginManager.Transparent plugin := by
      intro plugin hplugin
      rw [List.mem_singleton.1 hplugin]
      exact fun _ _ => rfl
    rcases List.mem_pair.1 hg with rfl | rfl
    · exact ⟨htransparent, rfl⟩
    · exact ⟨htransparent, rfl⟩
  obtain ⟨text', hchain⟩ := exists_chain (fun e => closes_of_readEnding) chainPrints_twoGateways hstream
  exact ⟨text', hchain, chain_transparent hsame (fun e => closes_of_readEnding)
    (fun tok htok _ => printable_hiTokens tok htok) hstream hchain⟩

end HttpGateway

end LlmGateway
