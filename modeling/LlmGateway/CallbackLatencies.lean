import Mathlib.Data.UInt
import LlmGateway.Lib.ThreadEffects

/-!
# The latencies of callbacks

The callbacks of a chat add to the metrics with atomic operations, and may run on any number of threads.  The
maximum is kept by a loop around `compare_exchange_weak`, which may fail for no reason.

`latencies_settled`: when the callbacks have returned, however they were interleaved, nothing was lost and
nothing counted twice, and of the tokens of a request one was taken for the first.  `callback_returns`: a
callback comes to its end, however the others raise the maximum meanwhile.
-/

namespace LlmGateway

/-- A call of `on_token` that is not cancelled, or of `on_done`, with the microseconds that it measures. -/
inductive LatencyCall where
  | token (request : ℕ) (us : UInt64)
  | done (us : UInt64)
  deriving DecidableEq

/-- The latencies of all requests. -/
structure LatencyMetrics where
  /-- `first_tok` of each request. -/
  firstTok : ℕ → Bool := fun _ => false
  totalFirstTokenUs : UInt64 := 0
  firstTokenCount : UInt64 := 0
  totalLatencyUs : UInt64 := 0
  maxLatencyUs : UInt64 := 0

/-- Where a callback is. -/
inductive CallbackThread where
  /-- Before `first_tok->exchange`. -/
  | exchanges (request : ℕ) (us : UInt64)
  /-- It was not the first token. -/
  | skipped (request : ℕ) (us : UInt64)
  /-- Before `METRIC_ADD(total_first_token_us, us)`. -/
  | addsFirst (request : ℕ) (us : UInt64)
  /-- Before `METRIC_INC(first_token_count)`. -/
  | countsFirst (request : ℕ) (us : UInt64)
  | countedFirst (request : ℕ) (us : UInt64)
  /-- Before `METRIC_ADD(total_latency_us, us)`. -/
  | adds (us : UInt64)
  /-- Before the load of `METRIC_MAX`. -/
  | loads (us : UInt64)
  /-- At the head of its loop. -/
  | compares (us cur : UInt64)
  /-- After it. -/
  | measured (us : UInt64)
  deriving DecidableEq

namespace CallbackThread

/-- A callback begins with its first atomic operation. -/
def start : LatencyCall → CallbackThread
  | .token request us => exchanges request us
  | .done us => adds us

/-- The next operation.  `spurious` makes `compare_exchange_weak` fail. -/
def advance (spurious : Bool) (t : CallbackThread) (m : LatencyMetrics) : CallbackThread × LatencyMetrics :=
  match t with
  | exchanges request us =>
    (if m.firstTok request then skipped request us else addsFirst request us,
      { m with firstTok := fun r => if r = request then true else m.firstTok r })
  | addsFirst request us => (countsFirst request us, { m with totalFirstTokenUs := m.totalFirstTokenUs + us })
  | countsFirst request us => (countedFirst request us, { m with firstTokenCount := m.firstTokenCount + 1 })
  | adds us => (loads us, { m with totalLatencyUs := m.totalLatencyUs + us })
  | loads us => (compares us m.maxLatencyUs, m)
  | compares us cur =>
    if us > cur then
      if m.maxLatencyUs = cur ∧ spurious = false then (measured us, { m with maxLatencyUs := us })
      else (compares us m.maxLatencyUs, m)
    else (measured us, m)
  | skipped request us => (skipped request us, m)
  | countedFirst request us => (countedFirst request us, m)
  | measured us => (measured us, m)

/-- The callbacks as threads. -/
def program : Threads.Program LatencyCall CallbackThread LatencyMetrics Bool where
  start := start
  advance := advance

/-- The call of a thread. -/
def call : CallbackThread → LatencyCall
  | exchanges request us | skipped request us | addsFirst request us | countsFirst request us
  | countedFirst request us => .token request us
  | adds us | loads us | compares us _ | measured us => .done us

/-- The callback has returned. -/
def hasReturned : CallbackThread → Bool
  | skipped _ _ | countedFirst _ _ | measured _ => true
  | _ => false

/-! ## What is counted -/

/-- The thread has found the request without a token. -/
def isFirst (request : ℕ) : CallbackThread → Bool
  | addsFirst r _ | countsFirst r _ | countedFirst r _ => r = request
  | _ => false

/-- What the thread has added to the latencies of first tokens. -/
def addedFirst : CallbackThread → Option UInt64
  | countsFirst _ us | countedFirst _ us => some us
  | _ => none

/-- The first token that the thread has counted. -/
def countedOnce : CallbackThread → Option UInt64
  | countedFirst _ _ => some 1
  | _ => none

/-- What the thread has added to the latencies. -/
def added : CallbackThread → Option UInt64
  | loads us | compares us _ | measured us => some us
  | _ => none

/-- The value that the maximum was raised to, if it had to be. -/
def raised : CallbackThread → Option UInt64
  | measured us => some us
  | _ => none

/-! ## The maximum -/

theorem toNat_max (a b : UInt64) : (max a b).toNat = max a.toNat b.toNat := by
  rw [UInt64.max_def]
  by_cases h : a ≤ b
  · rw [if_pos h, max_eq_right (UInt64.le_iff_toNat_le.1 h)]
  · rw [if_neg h, max_eq_left (Nat.le_of_not_le fun hle => h (UInt64.le_iff_toNat_le.2 hle))]

instance : RightCommutative (max : UInt64 → UInt64 → UInt64) where
  right_comm a b c := by
    rw [← UInt64.toNat_inj, toNat_max, toNat_max, toNat_max, toNat_max, max_right_comm]

theorem max_eq_left_of_le {a b : UInt64} (h : b ≤ a) : max a b = a := by
  rw [← UInt64.toNat_inj, toNat_max, max_eq_left (UInt64.le_iff_toNat_le.1 h)]

theorem max_eq_right_of_lt {a b : UInt64} (h : a < b) : max a b = b := by
  rw [← UInt64.toNat_inj, toNat_max, max_eq_right (UInt64.lt_iff_toNat_lt.1 h).le]

theorem le_of_not_gt {a b : UInt64} (h : ¬b < a) : a ≤ b :=
  UInt64.le_iff_toNat_le.2 (Nat.le_of_not_lt fun hlt => h (UInt64.lt_iff_toNat_lt.2 hlt))

/-! ## Operations -/

/-- What an operation can do. -/
inductive Moves (spurious : Bool) (m : LatencyMetrics) : CallbackThread → CallbackThread → LatencyMetrics → Prop
  | skip {request : ℕ} {us : UInt64} (h : m.firstTok request = true) :
    Moves spurious m (exchanges request us) (skipped request us) m
  | first {request : ℕ} {us : UInt64} (h : m.firstTok request = false) :
    Moves spurious m (exchanges request us) (addsFirst request us)
      { m with firstTok := fun r => if r = request then true else m.firstTok r }
  | addFirst {request : ℕ} {us : UInt64} :
    Moves spurious m (addsFirst request us) (countsFirst request us)
      { m with totalFirstTokenUs := m.totalFirstTokenUs + us }
  | countFirst {request : ℕ} {us : UInt64} :
    Moves spurious m (countsFirst request us) (countedFirst request us)
      { m with firstTokenCount := m.firstTokenCount + 1 }
  | add {us : UInt64} : Moves spurious m (adds us) (loads us) { m with totalLatencyUs := m.totalLatencyUs + us }
  | load {us : UInt64} : Moves spurious m (loads us) (compares us m.maxLatencyUs) m
  | raise {us cur : UInt64} (hlt : cur < us) (hsame : m.maxLatencyUs = cur) :
    Moves spurious m (compares us cur) (measured us) { m with maxLatencyUs := us }
  | retry {us cur : UInt64} (h : m.maxLatencyUs = cur → spurious = true) :
    Moves spurious m (compares us cur) (compares us m.maxLatencyUs) m
  | leave {us cur : UInt64} (h : us ≤ cur) : Moves spurious m (compares us cur) (measured us) m
  | rest {t : CallbackThread} (h : t.hasReturned = true) : Moves spurious m t t m

theorem moves_advance (spurious : Bool) (t : CallbackThread) (m : LatencyMetrics) :
    Moves spurious m t (program.advance spurious t m).1 (program.advance spurious t m).2 := by
  change Moves spurious m t (advance spurious t m).1 (advance spurious t m).2
  cases t with
  | exchanges request us =>
    by_cases h : m.firstTok request = true
    · have hsame : (fun r => if r = request then true else m.firstTok r) = m.firstTok := by
        funext r
        split_ifs with hr
        · rw [hr, h]
        · rfl
      rw [advance, hsame, if_pos h]
      exact .skip h
    · rw [advance, if_neg h]
      exact .first (by simpa using h)
  | addsFirst request us => exact .addFirst
  | countsFirst request us => exact .countFirst
  | adds us => exact .add
  | loads us => exact .load
  | compares us cur =>
    unfold advance
    dsimp only
    by_cases hlt : us > cur
    · rw [if_pos hlt]
      by_cases hsame : m.maxLatencyUs = cur ∧ spurious = false
      · rw [if_pos hsame]
        exact .raise hlt hsame.1
      · rw [if_neg hsame]
        exact .retry fun heq => by simpa [heq] using hsame
    · rw [if_neg hlt]
      exact .leave (le_of_not_gt hlt)
  | skipped request us => exact .rest rfl
  | countedFirst request us => exact .rest rfl
  | measured us => exact .rest rfl

theorem Moves.call_eq {spurious : Bool} {m m' : LatencyMetrics} {t t' : CallbackThread}
    (h : Moves spurious m t t' m') : t'.call = t.call := by
  cases h <;> rfl

theorem Moves.maxLatencyUs_le {spurious : Bool} {m m' : LatencyMetrics} {t t' : CallbackThread}
    (h : Moves spurious m t t' m') : m.maxLatencyUs ≤ m'.maxLatencyUs := by
  cases h with
  | raise hlt hsame => exact UInt64.le_of_lt (hsame ▸ hlt)
  | _ => exact UInt64.le_refl _

theorem Moves.firstTok_of {spurious : Bool} {m m' : LatencyMetrics} {t t' : CallbackThread}
    (h : Moves spurious m t t' m') {request : ℕ} (hfirst : m.firstTok request = true) :
    m'.firstTok request = true := by
  cases h with
  | first _ =>
    dsimp only
    split_ifs
    · rfl
    · exact hfirst
  | _ => exact hfirst

/-- What a thread knows: what it loaded is no more than the maximum, and a request that it skipped has had its
first token. -/
def Knows : CallbackThread → LatencyMetrics → Prop
  | compares _ cur, m => cur ≤ m.maxLatencyUs
  | skipped request _, m => m.firstTok request = true
  | _, _ => True

theorem Moves.knows {spurious : Bool} {m m' : LatencyMetrics} {t t' : CallbackThread}
    (h : Moves spurious m t t' m') (ht : Knows t m) : Knows t' m' := by
  cases h with
  | skip hfirst => exact hfirst
  | load => exact UInt64.le_refl _
  | retry _ => exact UInt64.le_refl _
  | rest _ => exact ht
  | _ => exact trivial

theorem stable_knows : Threads.Stable program Knows where
  start call _ := by
    cases call <;> exact trivial
  self spurious t m ht := (moves_advance spurious t m).knows ht
  others spurious t m u _ hu := by
    cases u with
    | compares us cur => exact UInt64.le_trans hu (moves_advance spurious t m).maxLatencyUs_le
    | skipped request us => exact (moves_advance spurious t m).firstTok_of hu
    | _ => exact trivial

/-! ## Effects -/

theorem takesEffect_of_moves {ε α : Type} {effect : CallbackThread → Option ε} {op : α → ε → α}
    {read : LatencyMetrics → α} (hstart : ∀ call, effect (start call) = none)
    (hmoves : ∀ spurious m t t' m', Moves spurious m t t' m' → Knows t m →
      (effect t = none ∧ read m' = (effect t').toList.foldl op (read m)) ∨
        effect t' = effect t ∧ read m' = read m) :
    Threads.TakesEffect program Knows effect op read where
  start := hstart
  before spurious t m ht hnone := by
    rcases hmoves _ _ _ _ _ (moves_advance spurious t m) ht with ⟨-, hread⟩ | ⟨hsame, hread⟩
    · exact hread
    · rw [hread, hsame, hnone]
      rfl
  after spurious t m ht e he := by
    rcases hmoves _ _ _ _ _ (moves_advance spurious t m) ht with ⟨hnone, -⟩ | ⟨hsame, hread⟩
    · rw [he] at hnone
      cases hnone
    · exact ⟨hsame.trans he, hread⟩

theorem takesEffect_added : Threads.TakesEffect program Knows added (· + ·) LatencyMetrics.totalLatencyUs :=
  takesEffect_of_moves (fun call => by cases call <;> rfl) fun _ _ _ _ _ h _ => by
    cases h with
    | add => exact .inl ⟨rfl, rfl⟩
    | _ => exact .inr ⟨rfl, rfl⟩

theorem takesEffect_raised : Threads.TakesEffect program Knows raised max LatencyMetrics.maxLatencyUs :=
  takesEffect_of_moves (fun call => by cases call <;> rfl) fun _ m _ _ _ h ht => by
    cases h with
    | raise hlt hsame => exact .inl ⟨rfl, (max_eq_right_of_lt (hsame ▸ hlt)).symm⟩
    | leave hle => exact .inl ⟨rfl, (max_eq_left_of_le (UInt64.le_trans hle ht)).symm⟩
    | _ => exact .inr ⟨rfl, rfl⟩

theorem takesEffect_addedFirst :
    Threads.TakesEffect program Knows addedFirst (· + ·) LatencyMetrics.totalFirstTokenUs :=
  takesEffect_of_moves (fun call => by cases call <;> rfl) fun _ _ _ _ _ h _ => by
    cases h with
    | addFirst => exact .inl ⟨rfl, rfl⟩
    | _ => exact .inr ⟨rfl, rfl⟩

theorem takesEffect_countedOnce :
    Threads.TakesEffect program Knows countedOnce (· + ·) LatencyMetrics.firstTokenCount :=
  takesEffect_of_moves (fun call => by cases call <;> rfl) fun _ _ _ _ _ h _ => by
    cases h with
    | countFirst => exact .inl ⟨rfl, rfl⟩
    | _ => exact .inr ⟨rfl, rfl⟩

/-- Whether a thread has found the first token of a request, as a number. -/
def firstOf (request : ℕ) (t : CallbackThread) : Option ℕ := if isFirst request t then some 1 else none

theorem takesEffect_firstOf (request : ℕ) :
    Threads.TakesEffect program Knows (firstOf request) (· + ·) fun m => (m.firstTok request).toNat :=
  takesEffect_of_moves (fun call => by cases call <;> rfl) fun _ m _ _ _ h _ => by
    cases h with
    | @first r us hfirst =>
      by_cases hr : request = r
      · subst hr
        refine .inl ⟨rfl, ?_⟩
        simp [firstOf, isFirst, hfirst]
      · refine .inr ⟨?_, ?_⟩
        · simp [firstOf, isFirst, Ne.symm hr]
        · simp [hr]
    | _ => exact .inr ⟨rfl, rfl⟩

theorem foldl_firstOf (request : ℕ) (threads : List CallbackThread) (v : ℕ) :
    (threads.filterMap (firstOf request)).foldl (· + ·) v = v + threads.countP (isFirst request) := by
  induction threads generalizing v with
  | nil => rfl
  | cons t threads ih =>
    by_cases h : isFirst request t = true
    · have hfirst : firstOf request t = some 1 := if_pos h
      rw [List.filterMap_cons_some hfirst, List.foldl_cons, ih, List.countP_cons_of_pos h]
      omega
    · have hfirst : firstOf request t = none := if_neg h
      rw [List.filterMap_cons_none hfirst, ih, List.countP_cons_of_neg h]

theorem foldl_countedOnce (threads : List CallbackThread) (v : UInt64) :
    (threads.filterMap countedOnce).foldl (· + ·) v =
      v + UInt64.ofNat (threads.filterMap countedOnce).length := by
  induction threads generalizing v with
  | nil => simp
  | cons t threads ih =>
    cases t with
    | countedFirst request us =>
      have hone : countedOnce (countedFirst request us) = some 1 := rfl
      rw [List.filterMap_cons_some hone, List.foldl_cons, ih, List.length_cons, UInt64.ofNat_add, add_assoc,
        add_comm 1]
      rfl
    | _ => exact ih v

/-! ## When the callbacks have returned -/

/-- The latency of a call of `on_done`. -/
def doneUs : LatencyCall → Option UInt64
  | .token _ _ => none
  | .done us => some us

/-- The request of a callback for its first token, and the latency. -/
def firstToken : CallbackThread → Option (ℕ × UInt64)
  | countedFirst request us => some (request, us)
  | _ => none

theorem token_mem_of_firstToken {threads : List CallbackThread} {q : ℕ × UInt64}
    (hq : q ∈ threads.filterMap firstToken) : .token q.1 q.2 ∈ threads.map call := by
  obtain ⟨t, ht, hqt⟩ := List.mem_filterMap.1 hq
  refine List.mem_map.2 ⟨t, ht, ?_⟩
  cases t with
  | countedFirst request us =>
    rw [← Option.some.inj hqt]
    rfl
  | _ => cases hqt

section Settled

variable {threads : List CallbackThread} (h : ∀ t ∈ threads, t.hasReturned = true)
include h

theorem filterMap_returned {β : Type} {f g : CallbackThread → Option β}
    (hskipped : ∀ request us, f (skipped request us) = g (skipped request us))
    (hfirst : ∀ request us, f (countedFirst request us) = g (countedFirst request us))
    (hmeasured : ∀ us, f (measured us) = g (measured us)) : threads.filterMap f = threads.filterMap g := by
  refine List.filterMap_congr fun t ht => ?_
  have hreturned := h t ht
  cases t with
  | skipped request us => exact hskipped request us
  | countedFirst request us => exact hfirst request us
  | measured us => exact hmeasured us
  | _ => cases hreturned

theorem count_firstToken (request : ℕ) :
    ((threads.filterMap firstToken).map Prod.fst).count request = threads.countP (isFirst request) := by
  rw [List.map_filterMap, List.count_filterMap]
  refine List.countP_congr fun t ht => ?_
  have hreturned := h t ht
  cases t with
  | skipped _ _ => simp [firstToken, isFirst]
  | countedFirst _ _ => simp [firstToken, isFirst]
  | measured _ => simp [firstToken, isFirst]
  | _ => cases hreturned

theorem exists_token_of_isFirst {request : ℕ} (hpos : 0 < threads.countP (isFirst request)) :
    ∃ us, .token request us ∈ threads.map call := by
  obtain ⟨t, ht, hisFirst⟩ := List.countP_pos_iff.1 hpos
  have hreturned := h t ht
  cases t with
  | countedFirst request' us =>
    have heq : request' = request := of_decide_eq_true hisFirst
    exact ⟨us, List.mem_map.2 ⟨_, ht, by rw [heq]; rfl⟩⟩
  | addsFirst _ _ => cases hreturned
  | countsFirst _ _ => cases hreturned
  | _ => cases hisFirst

/-- A callback for a token is the one for the first token, or it knows of another. -/
theorem isFirst_or_seen {m : LatencyMetrics} (hknows : ∀ t ∈ threads, Knows t m) {request : ℕ} {us : UInt64}
    (hmem : .token request us ∈ threads.map call) :
    0 < threads.countP (isFirst request) ∨ m.firstTok request = true := by
  obtain ⟨t, ht, hcall⟩ := List.mem_map.1 hmem
  have hreturned := h t ht
  cases t with
  | skipped request' us' =>
    cases hcall
    exact .inr (hknows _ ht)
  | countedFirst request' us' =>
    cases hcall
    exact .inl (List.countP_pos_iff.2 ⟨_, ht, decide_eq_true rfl⟩)
  | measured _ => cases hcall
  | _ => cases hreturned

end Settled

/-- When the callbacks have returned, the latencies are those of all calls of `on_done`, and of one call of
`on_token` for each request that had not seen a token. -/
theorem latencies_settled (m : LatencyMetrics) (acts : List (Threads.Action LatencyCall Bool))
    (hreturned : ∀ t ∈ (Threads.run program ⟨m, []⟩ acts).threads, t.hasReturned = true) :
    let m' := (Threads.run program ⟨m, []⟩ acts).shared
    let calls := Threads.begun acts
    m'.totalLatencyUs = (calls.filterMap doneUs).foldl (· + ·) m.totalLatencyUs ∧
    m'.maxLatencyUs = (calls.filterMap doneUs).foldl max m.maxLatencyUs ∧
    ∃ firsts : List (ℕ × UInt64), (∀ q ∈ firsts, .token q.1 q.2 ∈ calls) ∧ (firsts.map Prod.fst).Nodup ∧
      (∀ request, request ∈ firsts.map Prod.fst ↔
        m.firstTok request = false ∧ ∃ us, .token request us ∈ calls) ∧
      m'.totalFirstTokenUs = (firsts.map Prod.snd).foldl (· + ·) m.totalFirstTokenUs ∧
      m'.firstTokenCount = m.firstTokenCount + UInt64.ofNat firsts.length := by
  intro m' calls
  have hempty : ∀ t ∈ (⟨m, []⟩ : Threads.System CallbackThread LatencyMetrics).threads, Knows t m :=
    List.forall_mem_nil _
  have hknows := stable_knows.run hempty acts
  have hcalls : (Threads.run program ⟨m, []⟩ acts).threads.map call = calls :=
    Threads.map_call_run (fun k => by cases k <;> rfl) (fun x t c => (moves_advance x t c).call_eq) acts
  have hadded := takesEffect_added.run stable_knows hempty rfl acts
  have hraised := takesEffect_raised.run stable_knows hempty rfl acts
  have haddedFirst := takesEffect_addedFirst.run stable_knows hempty rfl acts
  have hcountedOnce := takesEffect_countedOnce.run stable_knows hempty rfl acts
  have hfirst (request : ℕ) := (takesEffect_firstOf request).run stable_knows hempty rfl acts
  simp only [foldl_firstOf] at hfirst
  change m'.totalLatencyUs = _ at hadded
  change m'.maxLatencyUs = _ at hraised
  change m'.totalFirstTokenUs = _ at haddedFirst
  change m'.firstTokenCount = _ at hcountedOnce
  generalize (Threads.run program ⟨m, []⟩ acts).threads = threads at *
  have hdoneUs : calls.filterMap doneUs = threads.filterMap (doneUs ∘ call) := by
    rw [← hcalls, List.filterMap_map]
  have hle (request : ℕ) : threads.countP (isFirst request) ≤ 1 := by
    have hone := (m'.firstTok request).toNat_le
    have hsum := hfirst request
    change (m'.firstTok request).toNat = _ at hsum
    omega
  refine ⟨?_, ?_, threads.filterMap firstToken, fun q hq => ?_, ?_, fun request => ?_, ?_, ?_⟩
  · have heq : threads.filterMap added = threads.filterMap (doneUs ∘ call) :=
      filterMap_returned hreturned (fun _ _ => rfl) (fun _ _ => rfl) fun _ => rfl
    rw [hadded, hdoneUs, heq]
  · have heq : threads.filterMap raised = threads.filterMap (doneUs ∘ call) :=
      filterMap_returned hreturned (fun _ _ => rfl) (fun _ _ => rfl) fun _ => rfl
    rw [hraised, hdoneUs, heq]
  · rw [← hcalls]
    exact token_mem_of_firstToken hq
  · rw [List.nodup_iff_count_le_one]
    intro request
    rw [count_firstToken hreturned]
    exact hle request
  · rw [← List.count_pos_iff, count_firstToken hreturned]
    have hsum := hfirst request
    change (m'.firstTok request).toNat = (m.firstTok request).toNat + _ at hsum
    constructor
    · intro hpos
      have hnew : m.firstTok request = false := by
        have hone := (m'.firstTok request).toNat_le
        cases hold : m.firstTok request with
        | false => rfl
        | true =>
          rw [hold, Bool.toNat_true] at hsum
          omega
      rw [← hcalls]
      exact ⟨hnew, exists_token_of_isFirst hreturned hpos⟩
    · rintro ⟨hnew, us, hmem⟩
      rw [← hcalls] at hmem
      obtain hpos | hseen := isFirst_or_seen hreturned hknows hmem
      · exact hpos
      · rw [hseen, hnew, Bool.toNat_true, Bool.toNat_false] at hsum
        omega
  · have heq : threads.filterMap addedFirst = threads.filterMap fun t => (firstToken t).map Prod.snd :=
      filterMap_returned hreturned (fun _ _ => rfl) (fun _ _ => rfl) fun _ => rfl
    rw [haddedFirst, heq, List.map_filterMap]
  · have heq : threads.filterMap countedOnce = threads.filterMap fun t => (firstToken t).map fun _ => 1 :=
      filterMap_returned hreturned (fun _ _ => rfl) (fun _ _ => rfl) fun _ => rfl
    rw [hcountedOnce, foldl_countedOnce, heq, ← List.map_filterMap, List.length_map]

/-- Two calls of `on_done`, of which the first loads the maximum before the second raises it, and two tokens. -/
def mixedActs : List (Threads.Action LatencyCall Bool) :=
  [.spawn (.done 5), .spawn (.done 7), .spawn (.token 0 2), .spawn (.token 0 3), .resume 0 false, .resume 0 false,
    .resume 1 false, .resume 3 false, .resume 1 false, .resume 1 true, .resume 1 false, .resume 2 false,
    .resume 0 false, .resume 0 false, .resume 3 false, .resume 3 false]

theorem latencies_mixedActs :
    (Threads.run program ⟨{}, []⟩ mixedActs).shared.maxLatencyUs = 7 ∧
      (Threads.run program ⟨{}, []⟩ mixedActs).shared.totalLatencyUs = 12 := by
  have hreturned : ∀ t ∈ (Threads.run program ⟨{}, []⟩ mixedActs).threads, t.hasReturned = true := by
    decide +kernel
  obtain ⟨htotal, hmax, -⟩ := latencies_settled {} mixedActs hreturned
  exact ⟨hmax.trans (by decide +kernel), htotal.trans (by decide +kernel)⟩

/-! ## Progress -/

/-- The callback may still raise the maximum. -/
def mayRaise : CallbackThread → Bool
  | adds _ | loads _ | compares _ _ => true
  | _ => false

/-- A bound on the operations that are left, if nobody else raises the maximum. -/
def operationsLeft : CallbackThread → LatencyMetrics → ℕ
  | exchanges _ _, _ => 3
  | addsFirst _ _, _ => 2
  | countsFirst _ _, _ => 1
  | adds _, _ => 3
  | loads _, _ => 2
  | compares _ cur, m => if m.maxLatencyUs = cur then 1 else 2
  | _, _ => 0

theorem operationsLeft_le (t : CallbackThread) (m : LatencyMetrics) : operationsLeft t m ≤ 3 := by
  cases t with
  | compares us cur =>
    rw [operationsLeft]
    split_ifs <;> omega
  | _ => simp [operationsLeft]

theorem operationsLeft_pos {t : CallbackThread} (ht : t.hasReturned = false) (m : LatencyMetrics) :
    0 < operationsLeft t m := by
  cases t with
  | compares us cur =>
    rw [operationsLeft]
    split_ifs <;> omega
  | skipped _ _ => cases ht
  | countedFirst _ _ => cases ht
  | measured _ => cases ht
  | _ => simp [operationsLeft]

theorem operationsLeft_of_eq {m m' : LatencyMetrics} (h : m'.maxLatencyUs = m.maxLatencyUs) (u : CallbackThread) :
    operationsLeft u m' = operationsLeft u m := by
  cases u with
  | compares us cur => rw [operationsLeft, operationsLeft, h]
  | _ => simp [operationsLeft]

theorem operationsLeft_le_succ (m m' : LatencyMetrics) (u : CallbackThread) :
    operationsLeft u m' ≤ operationsLeft u m + 1 := by
  cases u with
  | compares us cur =>
    rw [operationsLeft, operationsLeft]
    split_ifs <;> omega
  | _ => simp [operationsLeft]

theorem Moves.stays {spurious : Bool} {m m' : LatencyMetrics} {t t' : CallbackThread}
    (h : Moves spurious m t t' m') (ht : t.hasReturned = true) : t'.hasReturned = true := by
  cases h with
  | rest _ => exact ht
  | _ => cases ht

/-- An exchange that fails for a reason has the new maximum. -/
theorem Moves.decreases {m m' : LatencyMetrics} {t t' : CallbackThread} (h : Moves false m t t' m')
    (ht : t.hasReturned = false) :
    operationsLeft t' m' + 1 ≤ operationsLeft t m := by
  cases h with
  | retry hne =>
    have hcur : m.maxLatencyUs ≠ _ := fun heq => Bool.false_ne_true (hne heq)
    simp [operationsLeft, hcur]
  | leave _ =>
    simp only [operationsLeft]
    split_ifs <;> omega
  | rest hreturned =>
    rw [ht] at hreturned
    cases hreturned
  | raise _ hsame => simp [operationsLeft, hsame]
  | _ => simp [operationsLeft]

/-- Another callback is put back only by one that raises the maximum, which is then done with it. -/
theorem Moves.putsBack {spurious : Bool} {m m' : LatencyMetrics} {t t' : CallbackThread}
    (h : Moves spurious m t t' m') (u : CallbackThread) :
    operationsLeft u m' + t'.mayRaise.toNat ≤ operationsLeft u m + t.mayRaise.toNat := by
  by_cases hmax : m'.maxLatencyUs = m.maxLatencyUs
  · have hle : t'.mayRaise.toNat ≤ t.mayRaise.toNat := by cases h <;> simp [mayRaise]
    rw [operationsLeft_of_eq hmax]
    omega
  · cases h with
    | raise _ _ => exact operationsLeft_le_succ m _ u
    | _ => exact absurd rfl hmax

theorem progresses : Threads.Progresses program hasReturned mayRaise operationsLeft (· = false) where
  stays spurious t m ht := (moves_advance spurious t m).stays ht
  self spurious t m hworks ht := by
    subst hworks
    exact (moves_advance false t m).decreases ht
  others spurious t m u := (moves_advance spurious t m).putsBack u

/-- A callback whose exchanges do not fail for no reason has returned when it had three turns, and one for each
other callback that may have raised the maximum meanwhile. -/
theorem callback_returns {s : Threads.System CallbackThread LatencyMetrics} {i : ℕ} {t : CallbackThread}
    (ht : s.threads[i]? = some t) {acts : List (Threads.Action LatencyCall Bool)}
    (hworks : ∀ spurious, .resume i spurious ∈ acts → spurious = false)
    (hturns : 3 + Threads.othersBusy mayRaise i s.threads + acts.countP Threads.isSpawn ≤
      acts.countP (Threads.isTurn i)) :
    ∃ t', (Threads.run program s acts).threads[i]? = some t' ∧ t'.hasReturned = true := by
  refine progresses.finishes ht hworks (fun t m => ?_) ?_
  · exact fun hbusy => operationsLeft_pos hbusy m
  · have hle := operationsLeft_le t s.shared
    omega

/-- A callback that loads the maximum before it is raised, and has to compare again. -/
theorem callback_returns_twice :
    ∃ t', (Threads.run program ⟨{}, [loads 5, compares 3 0]⟩
      [.resume 0 false, .resume 1 false, .resume 0 false, .resume 0 false, .resume 0 false]).threads[0]? =
        some t' ∧ t'.hasReturned = true :=
  callback_returns rfl (by simp) (by decide)

end CallbackThread

end LlmGateway
