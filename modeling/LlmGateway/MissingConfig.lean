import LlmGateway.Startup

/-!
# A gateway without a configuration

If the file of the configuration cannot be opened, `load_config` returns before it creates the upstream, and
`main` goes on with the node and the keys of its own.

`ends_iff`: such a process ends with the first chat whose key it accepts, and with a configuration it does not
end in this way.
-/

namespace LlmGateway

variable {σ ν : Type}

namespace GatewayProcess

/-! ## The upstream -/

theorem foldl_addKey (platform : StartPlatform σ ν) (infos : List KeyInfo) (p : GatewayProcess σ ν) :
    (infos.foldl (fun p info => addKey platform info p) p).upstreamSet = p.upstreamSet ∧
      (infos.foldl (fun p info => addKey platform info p) p).readings = p.readings + infos.length := by
  induction infos generalizing p with
  | nil => exact ⟨rfl, rfl⟩
  | cons info infos ih =>
    obtain ⟨hupstream, hreadings⟩ := ih (addKey platform info p)
    rw [List.foldl_cons, hreadings, List.length_cons]
    exact ⟨hupstream, by simp only [addKey]; omega⟩

/-- The node of `main` changes the router only. -/
theorem addLocalNode_eq (p : GatewayProcess σ ν) :
    ∃ router, addLocalNode p = { p with server := { p.server with router } } := by
  unfold addLocalNode
  split
  · exact ⟨_, rfl⟩
  · exact ⟨_, rfl⟩

theorem upstreamSet_started (platform : StartPlatform σ ν) (file : Option Str) (cfg : GatewayConfig) :
    (started platform file cfg).upstreamSet = file.isSome := by
  obtain ⟨router, hlocal⟩ := addLocalNode_eq (configured platform file cfg)
  rw [started, (foldl_addKey ..).1, hlocal]
  rfl

theorem step_of_upstreamSet {p : GatewayProcess σ ν} (h : p.upstreamSet = true) (event : Event σ ν) :
    ∃ p', step p event = some p' ∧ p'.upstreamSet = true := by
  cases event with
  | chat c =>
    refine ⟨_, if_neg fun hnull => ?_, h⟩
    rw [h] at hnull
    exact Bool.noConfusion hnull.2
  | reload plugins =>
    refine ⟨_, rfl, ?_⟩
    unfold reload
    split <;> exact h

theorem run_of_upstreamSet {p : GatewayProcess σ ν} (h : p.upstreamSet = true) (events : List (Event σ ν)) :
    run p events ≠ none := by
  induction events generalizing p with
  | nil => exact Option.some_ne_none p
  | cons event events ih =>
    obtain ⟨p', hstep, hp'⟩ := step_of_upstreamSet h event
    rw [run, List.foldlM_cons, hstep]
    exact ih hp'

/-! ## Without it -/

/-- The keys that the process accepts. -/
def acceptedKeys : List Str := [] :: builtinKeys.map KeyInfo.key

/-- The process knows what it knew at its start. -/
structure Bare (platform : StartPlatform σ ν) (p : GatewayProcess σ ν) : Prop where
  auth : p.server.auth = (started platform none {}).server.auth
  plugins : p.server.plugins = []
  pluginsDir : p.pluginsDir = []
  upstreamSet : p.upstreamSet = false
  serves : Serves builtinKeys (withLocalNode []) p.server

theorem buckets_started (platform : StartPlatform σ ν) {key : Str} (hkey : key ∈ builtinKeys.map KeyInfo.key) :
    ∃ i < 2, (started platform none {}).server.auth.buckets.lookup key =
      some (TokenBucket.new 60 60 (platform.clock i)) := by
  obtain ⟨router, hlocal⟩ := addLocalNode_eq (configured platform none {})
  have hauth : (started platform none {}).server.auth =
      (({} : AuthManager).addKey { key := str "test-key-123", allowedModels := str "*", qpsLimit := 60 }
        (platform.clock 0)).addKey { key := str "default-key", allowedModels := str "*", qpsLimit := 60 }
        (platform.clock 1) := by
    rw [started, hlocal]
    rfl
  have hne : str "test-key-123" ≠ str "default-key" := by decide +kernel
  have hkey' : key = str "test-key-123" ∨ key = str "default-key" := by simpa [builtinKeys] using hkey
  rw [hauth]
  rcases hkey' with rfl | rfl
  · refine ⟨0, by omega, ?_⟩
    rw [AuthManager.buckets_addKey, if_neg hne.symm, AuthManager.buckets_addKey, if_pos rfl]
    rfl
  · refine ⟨1, by omega, ?_⟩
    rw [AuthManager.buckets_addKey, if_pos rfl, AuthManager.buckets_addKey, if_neg hne]
    rfl

section Bare

variable {platform : StartPlatform σ ν} {p : GatewayProcess σ ν}

theorem bare_started [Double ν] : Bare platform (started platform none {}) := by
  obtain ⟨router, hlocal⟩ := addLocalNode_eq (configured platform none {})
  have hcfg : readConfig platform.json none = some {} := rfl
  refine ⟨rfl, ?_, ?_, upstreamSet_started platform none {}, serves_started hcfg⟩
  · rw [started, hlocal]
    rfl
  · rw [started, hlocal]
    rfl

/-- Nobody has passed, so that the buckets are full. -/
theorem Bare.verify (h : Bare platform p) {key : Str} (hkey : key ∈ acceptedKeys) (model : Str) {now : ℚ}
    (hnow : ∀ i < 2, platform.clock i ≤ now) : (p.server.auth.verify key model now).1 = some [] := by
  by_cases hempty : key = []
  · rw [AuthManager.verify, if_pos hempty]
  · have hbuiltin : key ∈ builtinKeys.map KeyInfo.key := (List.mem_cons.1 hkey).resolve_left hempty
    obtain ⟨i, hi, hbucket⟩ := buckets_started platform hbuiltin
    obtain ⟨info, hlast, henabled⟩ := getLast?_builtinKeys hbuiltin
    rw [← h.auth] at hbucket
    obtain ⟨-, hpass⟩ := AuthManager.verify_of_enabled hempty ((h.serves.keys key).trans hlast) henabled hbucket
      model now
    rw [hpass, TokenBucket.fst_consume_one, TokenBucket.level, TokenBucket.new]
    have hclock := hnow i hi
    have hfull : (60 : ℚ) ≤ 60 + (now - platform.clock i) * 60 := by linarith
    exact le_min (by norm_num) ((by norm_num : (1 : ℚ) ≤ 60).trans hfull)

theorem Bare.chat_accepted (h : Bare platform p) {c : Chat ν} (hkey : c.apiKey ∈ acceptedKeys)
    (hnow : ∀ i < 2, platform.clock i ≤ c.now) : chat c p = none := by
  have hverify := h.verify hkey c.req.model hnow
  have hhealthy : ∀ r ∈ withLocalNode [], r.2.healthy = true := healthy_withLocalNode (List.forall_mem_nil _)
  have hchoices : Serves.choices (withLocalNode []) c.req.model ≠ [] := by
    rw [choices_withLocalNode {}]
    exact List.cons_ne_nil localNode []
  obtain ⟨node, -, hnode⟩ := (h.serves.routed_spec hhealthy c.req.model).2 hchoices
  have hscreen : ∃ node ctx g, ChatServer.screen c.apiKey c.userIp c.requestId c.now c.req p.server =
      (.passed node ctx, g) := by
    unfold ChatServer.screen
    rw [ChatServer.routed] at hnode
    generalize p.server.auth.verify c.apiKey c.req.model c.now = verified at hverify
    generalize p.server.router.route c.req.model = routed at hnode
    obtain ⟨err, auth⟩ := verified
    obtain ⟨q, router⟩ := routed
    obtain ⟨q', rfl, -⟩ := Option.map_eq_some_iff.1 hnode
    dsimp only at hverify
    subst hverify
    rw [h.plugins]
    exact ⟨_, _, _, rfl⟩
  obtain ⟨node', ctx, g, hscreen⟩ := hscreen
  have hhandle : (c.handle p.server).1 = some .passed := by
    rw [Chat.handle, ChatServer.processChat, ChatServer.handleChat, hscreen]
    cases c.websocket <;> rfl
  rw [chat, if_pos ⟨hhandle, h.upstreamSet⟩]

/-- Another key leaves the process as it is. -/
theorem Bare.chat_refused (h : Bare platform p) {c : Chat ν} (hkey : c.apiKey ∉ acceptedKeys) :
    chat c p = some p := by
  obtain ⟨hempty, hnew⟩ := not_or.1 (mt List.mem_cons.2 hkey)
  have hverify := h.serves.verify_of_unknown hempty
    (fun info hinfo heq => hnew (List.mem_map.2 ⟨info, hinfo, heq⟩)) c.req.model c.now
  have hscreen : ChatServer.screen c.apiKey c.userIp c.requestId c.now c.req p.server =
      (.refused (.authFailed (str "invalid api key")), p.server) := by
    rw [ChatServer.screen, hverify]
    exact if_pos (by decide)
  have hhandle : c.handle p.server = (some (.authFailed (str "invalid api key")), p.server) := by
    rw [Chat.handle, ChatServer.processChat, ChatServer.handleChat, hscreen]
    exact ite_self _
  rw [chat, hhandle, if_neg fun hpassed => ?_]
  exact ChatVerdict.noConfusion (Option.some_inj.1 hpassed.1)

/-- The process goes on as it is up to the first chat that it accepts. -/
theorem Bare.run_eq_none_iff (h : Bare platform p) {events : List (Event σ ν)}
    (hnow : ∀ c, .chat c ∈ events → ∀ i < 2, platform.clock i ≤ c.now) :
    run p events = none ↔ ∃ c, .chat c ∈ events ∧ c.apiKey ∈ acceptedKeys := by
  induction events with
  | nil => exact iff_of_false (Option.some_ne_none p) (by simp)
  | cons event events ih =>
    have ih := ih fun c hc => hnow c (List.mem_cons_of_mem _ hc)
    have hlater : (∃ c, .chat c ∈ events ∧ c.apiKey ∈ acceptedKeys) →
        ∃ c, .chat c ∈ event :: events ∧ c.apiKey ∈ acceptedKeys :=
      Exists.imp fun c hc => ⟨List.mem_cons_of_mem _ hc.1, hc.2⟩
    rw [run, List.foldlM_cons]
    cases event with
    | chat c =>
      by_cases hkey : c.apiKey ∈ acceptedKeys
      · rw [step, h.chat_accepted hkey (hnow c List.mem_cons_self)]
        exact iff_of_true rfl ⟨c, List.mem_cons_self, hkey⟩
      · rw [step, h.chat_refused hkey]
        refine ih.trans ⟨hlater, ?_⟩
        rintro ⟨c', hc', hkey'⟩
        rcases List.mem_cons.1 hc' with heq | hc'
        · cases heq
          exact absurd hkey' hkey
        · exact ⟨c', hc', hkey'⟩
    | reload plugins =>
      have hreload : reload plugins p = p := if_pos h.pluginsDir
      rw [step, hreload]
      refine ih.trans ⟨hlater, ?_⟩
      rintro ⟨c', hc', hkey'⟩
      rcases List.mem_cons.1 hc' with heq | hc'
      · cases heq
      · exact ⟨c', hc', hkey'⟩

end Bare

/-- The process ends in a chat exactly if it found no configuration and accepts the key of the chat. -/
theorem ends_iff [Double ν] {platform : StartPlatform σ ν} {file : Option Str} {p : GatewayProcess σ ν}
    (hp : main platform file = some p) {events : List (Event σ ν)}
    (hnow : ∀ c, .chat c ∈ events → ∀ i < p.readings, platform.clock i ≤ c.now) :
    run p events = none ↔ file = none ∧ ∃ c, .chat c ∈ events ∧ c.apiKey ∈ acceptedKeys := by
  rw [main_eq] at hp
  obtain ⟨cfg, hcfg, rfl⟩ := Option.map_eq_some_iff.1 hp
  cases file with
  | none =>
    cases hcfg
    have hreadings : (started platform none {} : GatewayProcess σ ν).readings = 2 := by
      obtain ⟨router, hlocal⟩ := addLocalNode_eq (configured platform none {})
      rw [started, (foldl_addKey ..).2, hlocal]
      rfl
    rw [hreadings] at hnow
    rw [bare_started.run_eq_none_iff hnow, and_iff_right rfl]
  | some text =>
    have hupstream : (started platform (some text) cfg).upstreamSet = true := upstreamSet_started ..
    exact iff_of_false (run_of_upstreamSet hupstream events) fun h => Option.some_ne_none text h.1

/-- A request for the local model. -/
def helloRequest : ChatRequest ℚ where
  model := str "local-model"
  messagesJson := str "[]"
  temperature := 1
  maxTokens := 8

/-- Somebody with a key that is not known, and then somebody without a key. -/
def twoChats : List (Event Unit ℚ) :=
  [.chat { websocket := true, apiKey := str "k", userIp := [], requestId := 0, now := 2, req := helloRequest },
    .chat { websocket := false, apiKey := [], userIp := [], requestId := 1, now := 2, req := helloRequest }]

theorem ends_twoChats : ∃ p, main oneNodePlatform none = some p ∧ run p twoChats = none := by
  have hp : main oneNodePlatform none = some (started oneNodePlatform none {}) := main_eq oneNodePlatform none
  have hreadings : (started oneNodePlatform none {}).readings = 2 := rfl
  refine ⟨_, hp, (ends_iff hp fun c hc i hi => ?_).2 ⟨rfl, _, List.mem_cons_of_mem _ List.mem_cons_self, ?_⟩⟩
  · have hnow : c.now = 2 := by
      simp only [twoChats, List.mem_cons, List.not_mem_nil, or_false, Event.chat.injEq] at hc
      rcases hc with rfl | rfl
      · rfl
      · rfl
    rw [hreadings] at hi
    rw [hnow]
    change (i : ℚ) ≤ 2
    exact_mod_cast hi.le
  · exact List.mem_cons_self

end GatewayProcess

end LlmGateway
