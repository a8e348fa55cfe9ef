import LlmGateway.ProcessLine

/-!
# Callbacks that throw

The `try` block of `process_line` holds the parsing of a payload and the calls of the callbacks, and its
handler passes the payload on as a token.  So a callback that throws is taken for a payload that cannot be
parsed: the user sees the raw chunk, and after a token he sees both.  `tokenLaw_iff` says when a line does
what it should.
-/

namespace LlmGateway

variable {ν : Type}

/-- The call hands over a token. -/
def SSECall.isToken : SSECall → Bool
  | .token _ => true
  | _ => false

namespace LineM

/-- The state in which the handling of a line ends. -/
def endState : EStateM.Result Fault SSELineState Unit → SSELineState
  | .ok _ s => s
  | .error _ s => s

variable (lib : JsonLib ν) (cb : SSECallbacks) (ends : CallbackEnds)

/-- The handler of the `try` block passes the payload to the token callback. -/
def Forwards (payload : Str) (s : SSELineState) : Prop :=
  payload ≠ [] ∧ cb.tokCb = true ∧
    ∃ s', handlePayload lib cb ends payload s = .error (.thrown .exception) s'

/-- There is at most one token for a line, and it is the payload only if that is not a chunk. -/
structure TokenLaw (line : Str) (s : SSELineState) : Prop where
  defined : ∀ s', processLine lib cb ends line s ≠ .error .undefined s'
  once : ∃ new, (endState (processLine lib cb ends line s)).calls = s.calls ++ new ∧
    new.countP SSECall.isToken ≤ 1
  raw : ∀ payload, chunkText line = some payload → Forwards lib cb ends payload s →
    readChunk lib payload = .malformed

/-- A callback that a chunk asks for throws a `std::exception`, and it is the first that throws. -/
def ConsumerFails (payload : Str) (s : SSELineState) : Prop :=
  ∃ c0 delta, readChunk lib payload = .choice c0 delta ∧
    firstThrown ends s.calls (choiceCalls cb c0 delta (s.addToolCall delta)) = some .exception

theorem countP_choiceCalls_le (c0 delta : Json ν) (s : SSELineState) :
    (choiceCalls cb c0 delta s).countP SSECall.isToken ≤ 1 := by
  unfold choiceCalls
  split_ifs
  · exact Nat.zero_le 1
  · exact Nat.zero_le 1
  · split
    · split_ifs
      · exact le_refl 1
      · exact Nat.zero_le 1
    · exact Nat.zero_le 1

theorem calls_handleChoice (c0 delta : Json ν) (s : SSELineState) :
    (s.handleChoice cb c0 delta).calls = s.calls ++ choiceCalls cb c0 delta (s.addToolCall delta) := by
  rw [← SSELineState.addToolCall_calls delta s]
  unfold SSELineState.handleChoice choiceCalls
  generalize s.addToolCall delta = s
  dsimp only
  split_ifs
  · simp [SSELineState.call]
  · simp [SSELineState.call]
  · cases (delta.member "content").bind Json.getString with
    | none => exact (List.append_nil _).symm
    | some tok =>
      dsimp only
      split_ifs
      · rfl
      · exact (List.append_nil _).symm

section Line

variable {lib cb ends} {line payload : Str} {s s' : SSELineState}

theorem once_of_invoke (c : SSECall) : ∃ new, (endState (invoke ends c s)).calls = s.calls ++ new ∧
    new.countP SSECall.isToken ≤ 1 := by
  refine ⟨[c], ?_, List.countP_le_length⟩
  cases h : ends s.calls c with
  | none => rw [invoke_returns ends h]; rfl
  | some t => rw [invoke_throws ends h]; rfl

/-- A line that the `try` block does not handle. -/
theorem tokenLaw_of_chunkText_none (h : chunkText line = none) : TokenLaw lib cb ends line s where
  defined := by
    intro s' hs'
    obtain ⟨payload, hpayload, -⟩ := (processLine_undefined_iff lib cb ends line).1 ⟨s', hs'⟩
    cases h.symm.trans hpayload
  once := by
    rcases processLine_of_chunkText_none lib cb ends h with hline | hline
    · rw [hline]
      exact ⟨[], (List.append_nil _).symm, Nat.zero_le 1⟩
    · rw [hline]
      exact once_of_invoke .done
  raw := by
    intro payload hpayload
    cases h.symm.trans hpayload

/-- Only a chunk with a choice has a callback called. -/
theorem not_consumerFails (h : ∀ c0 delta, readChunk lib payload ≠ .choice c0 delta) :
    ¬ConsumerFails lib cb ends payload s := by
  rintro ⟨c0, delta, hchunk, -⟩
  exact h c0 delta hchunk

variable (htext : chunkText line = some payload)

include htext

theorem processLine_of_ok (h : handlePayload lib cb ends payload s = .ok () s') :
    processLine lib cb ends line s = .ok () s' := by
  rw [processLine_of_chunkText lib cb ends htext, tryCatch_ok h]

theorem processLine_of_error {e : Fault} (h : handlePayload lib cb ends payload s = .error e s') :
    processLine lib cb ends line s = recover cb ends payload e s' := by
  rw [processLine_of_chunkText lib cb ends htext, tryCatch_error h]

theorem defined_of_readChunk (h : readChunk lib payload ≠ .noDelta) (s' : SSELineState) :
    processLine lib cb ends line s ≠ .error .undefined s' := by
  intro hs'
  obtain ⟨payload', hpayload', hno⟩ := (processLine_undefined_iff lib cb ends line).1 ⟨s', hs'⟩
  rw [← Option.some.inj (htext.symm.trans hpayload'), ← readChunk_eq_noDelta_iff] at hno
  exact h hno

/-- A chunk whose callbacks return, or throw so that the handler does not pass the payload on. -/
theorem tokenLaw_of_calls {pre : List SSECall}
    (hend : endState (processLine lib cb ends line s) = s') (hcalls : s'.calls = s.calls ++ pre)
    (hpre : pre.countP SSECall.isToken ≤ 1)
    (hdefined : ∀ s', processLine lib cb ends line s ≠ .error .undefined s')
    (hraw : ¬Forwards lib cb ends payload s) : TokenLaw lib cb ends line s where
  defined := hdefined
  once := ⟨pre, by rw [hend, hcalls], hpre⟩
  raw := by
    intro payload' hpayload'
    rw [← Option.some.inj (htext.symm.trans hpayload')]
    exact fun h => absurd h hraw

theorem tokenLaw_of_choice {c0 delta : Json ν} (hchunk : readChunk lib payload = .choice c0 delta) :
    TokenLaw lib cb ends line s ↔
      ¬(payload ≠ [] ∧ cb.tokCb = true ∧ ConsumerFails lib cb ends payload s) := by
  obtain ⟨s', pre, hcalls, hpre, hend⟩ := endOrToken_eq cb ends c0 delta s
  have hblock := handlePayload_eq lib cb ends (s := s) payload
  rw [hchunk] at hblock
  have hblock := hblock.trans hend
  have hdefined (s₁ : SSELineState) : processLine lib cb ends line s ≠ .error .undefined s₁ :=
    defined_of_readChunk htext (by rw [hchunk]; exact fun h => by cases h) s₁
  have hcount : pre.countP SSECall.isToken ≤ 1 :=
    hpre.sublist.countP_le.trans (countP_choiceCalls_le cb c0 delta _)
  have hfails : ConsumerFails lib cb ends payload s ↔
      firstThrown ends s.calls (choiceCalls cb c0 delta (s.addToolCall delta)) = some .exception := by
    constructor
    · rintro ⟨c0', delta', hchunk', h⟩
      rw [hchunk] at hchunk'
      cases hchunk'
      exact h
    · exact fun h => ⟨c0, delta, hchunk, h⟩
  rw [hfails]
  cases hfirst : firstThrown ends s.calls (choiceCalls cb c0 delta (s.addToolCall delta)) with
  | none =>
    rw [hfirst] at hblock
    refine iff_of_true ?_ (fun h => by cases h.2.2)
    refine tokenLaw_of_calls htext (by rw [processLine_of_ok htext hblock]; rfl)
      (calls_handleChoice cb c0 delta s) (countP_choiceCalls_le cb c0 delta _) hdefined ?_
    rintro ⟨-, -, s₁, h⟩
    cases hblock.symm.trans h
  | some t =>
    rw [hfirst] at hblock
    have hline := processLine_of_error htext hblock
    cases t with
    | other =>
      refine iff_of_true ?_ (fun h => by cases h.2.2)
      have hrecover : recover cb ends payload (.thrown .other) s' = .error (.thrown .other) s' := by
        rw [recover, if_neg (by decide)]
        rfl
      refine tokenLaw_of_calls htext (by rw [hline, hrecover]; rfl) hcalls hcount hdefined ?_
      rintro ⟨-, -, s₁, h⟩
      cases hblock.symm.trans h
    | exception =>
      by_cases hforward : payload ≠ [] ∧ cb.tokCb = true
      · refine iff_of_false (fun hlaw => ?_) (not_not_intro ⟨hforward.1, hforward.2, rfl⟩)
        have hmalformed := hlaw.raw payload htext ⟨hforward.1, hforward.2, s', hblock⟩
        rw [hchunk] at hmalformed
        cases hmalformed
      · refine iff_of_true ?_ (fun h => hforward ⟨h.1, h.2.1⟩)
        have hrecover : recover cb ends payload (.thrown .exception) s' = .ok () s' := by
          rw [recover, if_pos rfl, if_neg hforward]
          rfl
        refine tokenLaw_of_calls htext (by rw [hline, hrecover]; rfl) hcalls hcount hdefined ?_
        exact fun h => hforward ⟨h.1, h.2.1⟩

end Line

/-- A line brings at most one token, and the raw payload only where that is not a chunk, exactly if the
delta of the chunk is not missing and no callback that the chunk asks for throws a `std::exception` while
the token callback is set. -/
theorem tokenLaw_iff (line : Str) (s : SSELineState) : TokenLaw lib cb ends line s ↔
    ∀ payload, chunkText line = some payload → ¬NoDelta lib payload ∧
      ¬(payload ≠ [] ∧ cb.tokCb = true ∧ ConsumerFails lib cb ends payload s) := by
  cases htext : chunkText line with
  | none => exact iff_of_true (tokenLaw_of_chunkText_none htext) fun payload h => by cases h
  | some payload =>
    have hcond : (∀ payload', some payload = some payload' → ¬NoDelta lib payload' ∧
        ¬(payload' ≠ [] ∧ cb.tokCb = true ∧ ConsumerFails lib cb ends payload' s)) ↔
        ¬NoDelta lib payload ∧ ¬(payload ≠ [] ∧ cb.tokCb = true ∧ ConsumerFails lib cb ends payload s) := by
      simp
    rw [hcond, ← readChunk_eq_noDelta_iff]
    have hblock := handlePayload_eq lib cb ends (s := s) payload
    cases hchunk : readChunk lib payload with
    | choice c0 delta =>
      rw [tokenLaw_of_choice htext hchunk]
      exact (and_iff_right (fun h => by cases h)).symm
    | noDelta =>
      rw [hchunk] at hblock
      refine iff_of_false (fun hlaw => ?_) fun h => h.1 rfl
      have hline := processLine_of_error htext hblock
      rw [recover, if_neg (by decide)] at hline
      exact hlaw.defined s hline
    | empty =>
      rw [hchunk] at hblock
      have hcalls : ¬ConsumerFails lib cb ends payload s :=
        not_consumerFails fun c0 delta => by rw [hchunk]; exact fun h => by cases h
      refine iff_of_true ?_ ⟨(fun h => by cases h), fun h => hcalls h.2.2⟩
      refine tokenLaw_of_calls htext (by rw [processLine_of_ok htext hblock]; rfl)
        (List.append_nil _).symm (Nat.zero_le 1)
        (defined_of_readChunk htext (by rw [hchunk]; exact fun h => by cases h)) ?_
      rintro ⟨-, -, s₁, h⟩
      cases hblock.symm.trans h
    | malformed =>
      rw [hchunk] at hblock
      have hcalls : ¬ConsumerFails lib cb ends payload s :=
        not_consumerFails fun c0 delta => by rw [hchunk]; exact fun h => by cases h
      refine iff_of_true ⟨?_, ?_, ?_⟩ ⟨(fun h => by cases h), fun h => hcalls h.2.2⟩
      · exact defined_of_readChunk htext (by rw [hchunk]; exact fun h => by cases h)
      · rw [processLine_of_error htext hblock, recover, if_pos rfl]
        split_ifs
        · exact once_of_invoke (.token payload)
        · exact ⟨[], (List.append_nil _).symm, Nat.zero_le 1⟩
      · intro payload' hpayload' _
        rw [← Option.some.inj (htext.symm.trans hpayload'), hchunk]

/-- A chunk with a token. -/
def tokenChunk : Json ℚ :=
  .object [(str "choices", .array [.object [(str "delta", .object [(str "content", .string (str "hi"))])]])]

/-- The token callback throws for the token of the chunk, and is called again with the chunk. -/
theorem tokenChunk_twice :
    (endState (processLine (JsonLib.on Json.showRat [tokenChunk]) {} (fun _ _ => some .exception)
      (str "data: \x7b\"choices\":[\x7b\"delta\":\x7b\"content\":\"hi\"\x7d\x7d]\x7d") {})).calls =
    [.token (str "hi"),
      .token (str "\x7b\"choices\":[\x7b\"delta\":\x7b\"content\":\"hi\"\x7d\x7d]\x7d")] := by
  decide +kernel

end LineM

end LlmGateway
