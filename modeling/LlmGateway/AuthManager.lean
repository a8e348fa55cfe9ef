import Mathlib.Algebra.Order.Ring.Rat
import Mathlib.Data.List.Induction
import LlmGateway.Base
import LlmGateway.Lib.TokenBucket

/-!
# Authentication

`AuthManager` keeps what is known of a key and the token bucket of the key in two maps.  `add_key` replaces
the former and leaves a bucket that is already there as it is, so that the limit that counts is the one
with which a key was added first (`limit_enforced_iff`).

Times are in seconds, and the numbers in the buckets are exact.
-/

namespace LlmGateway

/-- A key of the configuration: what it may ask for, and how often. -/
structure KeyInfo where
  key : Str
  /-- `*` stands for all. -/
  allowedModels : Str
  qpsLimit : ℤ := 10
  enabled : Bool := true
  deriving DecidableEq

/-- The keys, and the bucket of each key. -/
structure AuthManager where
  keys : UMap KeyInfo := ∅
  buckets : UMap (TokenBucket ℚ) := ∅

namespace AuthManager

/-- Add a key or replace it; a bucket that is there is kept. -/
def addKey (info : KeyInfo) (now : ℚ) (a : AuthManager) : AuthManager where
  keys := a.keys.insert info.key info
  buckets :=
    match a.buckets.lookup info.key with
    | none => a.buckets.insert info.key (TokenBucket.new info.qpsLimit info.qpsLimit now)
    | some _ => a.buckets

/-- The reason for which a key is turned away, or the empty string; nothing if `at` throws. -/
def verify (apiKey _model : Str) (now : ℚ) (a : AuthManager) : Option Str × AuthManager :=
  if apiKey = [] then (some [], a)
  else
    match a.keys.lookup apiKey with
    | none => (some (str "invalid api key"), a)
    | some info =>
      if ¬info.enabled then (some (str "key disabled"), a)
      else
        match a.buckets.lookup apiKey with
        | none => (none, a)
        | some bucket =>
          let (pass, bucket) := bucket.consume 1 now
          let a := { a with buckets := a.buckets.insert apiKey bucket }
          if ¬pass then (some (str "rate limit exceeded"), a) else (some [], a)

/-! ## Runs -/

/-- A call of the manager. -/
inductive Call
  | addKey (info : KeyInfo)
  | verify (apiKey model : Str)
  deriving DecidableEq

/-- A call and its time. -/
structure Event where
  time : ℚ
  call : Call
  deriving DecidableEq

/-- What a call does at its time. -/
def step (a : AuthManager) (e : Event) : AuthManager :=
  match e.call with
  | .addKey info => a.addKey info e.time
  | .verify apiKey model => (a.verify apiKey model e.time).2

/-- The state after some calls, from the start on. -/
def run (es : List Event) : AuthManager := es.foldl step {}

/-- A call lets a request with the key pass. -/
def passes (key : Str) (a : AuthManager) (e : Event) : Bool :=
  match e.call with
  | .addKey _ => false
  | .verify apiKey model => apiKey = key ∧ (a.verify apiKey model e.time).1 = some []

/-- How many requests with the key pass. -/
def accepted (key : Str) : List Event → AuthManager → ℕ
  | [], _ => 0
  | e :: es, a => (if passes key a e then 1 else 0) + accepted key es (step a e)

/-- What is added for a key. -/
def Event.added (key : Str) (e : Event) : Option KeyInfo :=
  match e.call with
  | .addKey info => if info.key = key then some info else none
  | .verify _ _ => none

/-- All that was added for a key. -/
def addsOf (key : Str) (es : List Event) : List KeyInfo := es.filterMap (Event.added key)

/-- The times at which somebody asks with the key. -/
def Event.asked (key : Str) (e : Event) : Option ℚ :=
  match e.call with
  | .addKey _ => none
  | .verify apiKey _ => if apiKey = key then some e.time else none

/-- The clock does not go backwards. -/
def Timed (es : List Event) : Prop := es.Pairwise fun e e' => e.time ≤ e'.time

/-! ## The two maps -/

theorem step_addKey (a : AuthManager) (time : ℚ) (info : KeyInfo) :
    step a ⟨time, .addKey info⟩ = a.addKey info time := rfl

theorem step_verify (a : AuthManager) (time : ℚ) (apiKey model : Str) :
    step a ⟨time, .verify apiKey model⟩ = (a.verify apiKey model time).2 := rfl

theorem added_addKey (key : Str) (time : ℚ) (info : KeyInfo) :
    Event.added key ⟨time, .addKey info⟩ = if info.key = key then some info else none := rfl

/-- `verify` asks the bucket of the key at most. -/
theorem snd_verify (apiKey model : Str) (now : ℚ) (a : AuthManager) :
    (a.verify apiKey model now).2 = a ∨ ∃ b, a.buckets.lookup apiKey = some b ∧
      (a.verify apiKey model now).2 =
        { a with buckets := a.buckets.insert apiKey (b.consume 1 now).2 } := by
  unfold verify
  split
  · exact .inl rfl
  · split
    · exact .inl rfl
    · split
      · exact .inl rfl
      · split
        · exact .inl rfl
        · next b hb =>
          dsimp only
          split
          · exact .inr ⟨b, hb, rfl⟩
          · exact .inr ⟨b, hb, rfl⟩

theorem keys_verify (apiKey model : Str) (now : ℚ) (a : AuthManager) :
    (a.verify apiKey model now).2.keys = a.keys := by
  rcases a.snd_verify apiKey model now with h | ⟨b, -, h⟩
  · rw [h]
  · rw [h]

theorem keys_step (a : AuthManager) (e : Event) (key : Str) :
    (step a e).keys.lookup key = (e.added key).or (a.keys.lookup key) := by
  unfold step Event.added
  cases e.call with
  | addKey info =>
    dsimp only
    rw [addKey]
    split_ifs with h
    · rw [h, AList.lookup_insert, Option.some_or]
    · rw [AList.lookup_insert_ne (Ne.symm h), Option.none_or]
  | verify apiKey model => exact congrArg (AList.lookup key) (keys_verify apiKey model e.time a)

theorem buckets_addKey (info : KeyInfo) (now : ℚ) (a : AuthManager) (key : Str) :
    (a.addKey info now).buckets.lookup key =
      if info.key = key then
        some ((a.buckets.lookup key).getD (TokenBucket.new info.qpsLimit info.qpsLimit now))
      else a.buckets.lookup key := by
  unfold addKey
  dsimp only
  by_cases h : info.key = key
  · rw [if_pos h, ← h]
    cases hb : a.buckets.lookup info.key with
    | none => exact AList.lookup_insert _
    | some b => exact hb
  · rw [if_neg h]
    cases a.buckets.lookup info.key with
    | none => exact AList.lookup_insert_ne (Ne.symm h)
    | some b => rfl

theorem buckets_verify_of_ne {apiKey key : Str} (h : apiKey ≠ key) (model : Str) (now : ℚ)
    (a : AuthManager) : (a.verify apiKey model now).2.buckets.lookup key = a.buckets.lookup key := by
  rcases a.snd_verify apiKey model now with hsame | ⟨b, -, hinsert⟩
  · rw [hsame]
  · rw [hinsert]
    exact AList.lookup_insert_ne (Ne.symm h)

section Key

variable {key : Str} (hkey : key ≠ []) {a : AuthManager} {info : KeyInfo}
  (hinfo : a.keys.lookup key = some info)

include hkey hinfo

theorem verify_of_disabled (h : info.enabled = false) (model : Str) (now : ℚ) :
    a.verify key model now = (some (str "key disabled"), a) := by
  unfold verify
  rw [if_neg hkey, hinfo]
  dsimp only
  rw [if_pos (by simp [h])]

theorem verify_of_enabled (h : info.enabled = true) {b : TokenBucket ℚ}
    (hb : a.buckets.lookup key = some b) (model : Str) (now : ℚ) :
    (a.verify key model now).2.buckets.lookup key = some (b.consume 1 now).2 ∧
      ((a.verify key model now).1 = some [] ↔ (b.consume 1 now).1 = true) := by
  unfold verify
  rw [if_neg hkey, hinfo]
  dsimp only
  rw [if_neg (by simp [h]), hb]
  dsimp only
  by_cases hpass : (b.consume 1 now).1 = true
  · rw [if_neg (not_not.2 hpass)]
    exact ⟨AList.lookup_insert _, iff_of_true rfl hpass⟩
  · rw [if_pos hpass]
    have hreason : some (str "rate limit exceeded") ≠ some [] := by decide
    exact ⟨AList.lookup_insert _, iff_of_false hreason hpass⟩

/-! ## A window -/

omit hkey in
theorem keys_step_of_none {e : Event} (he : e.added key = none) :
    (step a e).keys.lookup key = some info := by
  rw [keys_step, he, Option.none_or, hinfo]

/-- With a disabled key nobody passes. -/
theorem accepted_of_disabled (h : info.enabled = false) {win : List Event} (hwin : addsOf key win = []) :
    accepted key win a = 0 := by
  induction win generalizing a with
  | nil => rfl
  | cons e win ih =>
      have he : e.added key = none := List.filterMap_eq_nil_iff.1 hwin e List.mem_cons_self
      have hrest : addsOf key win = [] := by
        rwa [addsOf, List.filterMap_cons_none he] at hwin
      have hpass : ¬passes key a e = true := by
        obtain ⟨time, call⟩ := e
        cases call with
        | addKey info => simp [passes]
        | verify apiKey model =>
          intro hpass
          obtain ⟨rfl, hverify⟩ := of_decide_eq_true hpass
          rw [verify_of_disabled hkey hinfo h] at hverify
          have hreason : some (str "key disabled") ≠ some [] := by decide
          exact hreason hverify
      rw [accepted, if_neg hpass, ih (keys_step_of_none hinfo he) hrest]

/-- With an enabled key those pass whom the bucket lets pass. -/
theorem accepted_of_enabled (h : info.enabled = true) {b : TokenBucket ℚ}
    (hb : a.buckets.lookup key = some b) {win : List Event} (hwin : addsOf key win = []) :
    accepted key win a = b.grants (win.filterMap (Event.asked key)) := by
  induction win generalizing a b with
  | nil => rfl
  | cons e win ih =>
      have he : e.added key = none := List.filterMap_eq_nil_iff.1 hwin e List.mem_cons_self
      have hrest : addsOf key win = [] := by
        rwa [addsOf, List.filterMap_cons_none he] at hwin
      have hinfo' := keys_step_of_none hinfo he
      obtain ⟨time, call⟩ := e
      cases call with
      | addKey added =>
        have hne : ¬added.key = key := fun heq => by simp [Event.added, heq] at he
        have hb' : (step a ⟨time, .addKey added⟩).buckets.lookup key = some b := by
          rw [step_addKey, buckets_addKey, if_neg hne, hb]
        rw [accepted, List.filterMap_cons_none rfl, ih hinfo' hb' hrest]
        exact Nat.zero_add _
      | verify apiKey model =>
        by_cases heq : apiKey = key
        · subst heq
          obtain ⟨hb', hpass⟩ := verify_of_enabled hkey hinfo h hb model time
          have hpass' : passes apiKey a ⟨time, .verify apiKey model⟩ = (b.consume 1 time).1 := by
            rw [Bool.eq_iff_iff, ← hpass]
            simp [passes]
          rw [accepted, List.filterMap_cons_some (b := time) (by simp [Event.asked]), TokenBucket.grants,
            hpass', ih hinfo' hb' hrest]
        · have hb' : (step a ⟨time, .verify apiKey model⟩).buckets.lookup key = some b := by
            rw [step_verify, buckets_verify_of_ne heq, hb]
          have hpass : ¬passes key a ⟨time, .verify apiKey model⟩ = true := by simp [passes, heq]
          rw [accepted, if_neg hpass, List.filterMap_cons_none (by simp [Event.asked, heq]),
            ih hinfo' hb' hrest, Nat.zero_add]

end Key

/-! ## What is known of a key -/

/-- The bucket of a key that was added with the limit `q` first. -/
structure BucketOf (q : ℤ) (es : List Event) (b : TokenBucket ℚ) : Prop where
  capacity : b.capacity = q
  rate : b.rate = q
  tokens : 0 ≤ q → 0 ≤ b.tokens
  last : ∀ t, (∀ e ∈ es, e.time ≤ t) → b.last ≤ t

theorem run_concat (es : List Event) (e : Event) : run (es ++ [e]) = step (run es) e := by
  rw [run, List.foldl_append]
  rfl

theorem addsOf_concat (key : Str) (es : List Event) (e : Event) :
    addsOf key (es ++ [e]) = addsOf key es ++ (e.added key).toList := by
  rw [addsOf, List.filterMap_append, ← addsOf]
  cases hadded : e.added key with
  | none => rw [List.filterMap_cons_none hadded]; rfl
  | some info => rw [List.filterMap_cons_some hadded]; rfl

/-- The keys hold what was added last. -/
theorem keys_run (es : List Event) (key : Str) :
    (run es).keys.lookup key = (addsOf key es).getLast? := by
  induction es using List.reverseRecOn with
  | nil => rfl
  | append_singleton es e ih =>
      rw [run_concat, keys_step, ih, addsOf_concat, List.getLast?_append]
      cases e.added key with
      | none => rfl
      | some info => rfl

theorem BucketOf.new (info : KeyInfo) (es : List Event) (e : Event) :
    BucketOf info.qpsLimit (es ++ [e]) (TokenBucket.new info.qpsLimit info.qpsLimit e.time) where
  capacity := rfl
  rate := rfl
  tokens h := by
    change (0 : ℚ) ≤ info.qpsLimit
    exact_mod_cast h
  last t ht := ht e (List.mem_append_right _ (List.mem_singleton_self e))

theorem BucketOf.later {q : ℤ} {es : List Event} {b : TokenBucket ℚ} (h : BucketOf q es b) (e : Event) :
    BucketOf q (es ++ [e]) b where
  capacity := h.capacity
  rate := h.rate
  tokens := h.tokens
  last t ht := h.last t fun e he => ht e (List.mem_append_left _ he)

theorem BucketOf.consume {q : ℤ} {es : List Event} {b : TokenBucket ℚ} (h : BucketOf q es b) {e : Event}
    (hes : ∀ e' ∈ es, e'.time ≤ e.time) : BucketOf q (es ++ [e]) (b.consume 1 e.time).2 where
  capacity := by rw [TokenBucket.capacity_consume, h.capacity]
  rate := by rw [TokenBucket.rate_consume, h.rate]
  tokens hq := by
    have hq' : (0 : ℚ) ≤ q := by exact_mod_cast hq
    exact TokenBucket.tokens_consume_nonneg (h.capacity ▸ hq') (h.rate ▸ hq') (h.tokens hq)
      (h.last e.time hes)
  last t ht := by
    rw [TokenBucket.last_consume]
    exact ht e (List.mem_append_right _ (List.mem_singleton_self e))

theorem buckets_run_of_none {es : List Event} {key : Str} (h : addsOf key es = []) :
    (run es).buckets.lookup key = none := by
  induction es using List.reverseRecOn with
  | nil => rfl
  | append_singleton es e ih =>
      rw [addsOf_concat, List.append_eq_nil_iff] at h
      have ih := ih h.1
      rw [run_concat]
      obtain ⟨time, call⟩ := e
      cases call with
      | addKey added =>
        have hne : ¬added.key = key := fun heq => by simp [Event.added, heq] at h
        rw [step_addKey, buckets_addKey, if_neg hne, ih]
      | verify apiKey model =>
        by_cases heq : apiKey = key
        · subst heq
          rcases (run es).snd_verify apiKey model time with hsame | ⟨b, hb, -⟩
          · rw [step_verify, hsame, ih]
          · rw [ih] at hb
            cases hb
        · rw [step_verify, buckets_verify_of_ne heq, ih]

/-- The bucket has the limit that was added first. -/
theorem buckets_run {es : List Event} (hes : Timed es) {key : Str} {info : KeyInfo}
    (hinfo : (addsOf key es).head? = some info) :
    ∃ b, (run es).buckets.lookup key = some b ∧ BucketOf info.qpsLimit es b := by
  induction es using List.reverseRecOn with
  | nil => cases hinfo
  | append_singleton es e ih =>
      have hbefore : ∀ e' ∈ es, e'.time ≤ e.time := by
        intro e' he'
        exact (List.pairwise_append.1 hes).2.2 e' he' e (List.mem_singleton_self e)
      have ih := ih (List.pairwise_append.1 hes).1
      rw [addsOf_concat, List.head?_append] at hinfo
      rw [run_concat]
      obtain ⟨time, call⟩ := e
      cases call with
      | addKey added =>
        rw [step_addKey, buckets_addKey]
        by_cases heq : added.key = key
        · rw [if_pos heq]
          cases hhead : (addsOf key es).head? with
          | none =>
            rw [hhead, Option.none_or, added_addKey, if_pos heq] at hinfo
            cases hinfo
            rw [buckets_run_of_none (List.head?_eq_none_iff.1 hhead)]
            exact ⟨_, rfl, .new info es ⟨time, .addKey info⟩⟩
          | some info' =>
            rw [hhead, Option.some_or] at hinfo
            cases hinfo
            obtain ⟨b, hb, hbucket⟩ := ih hhead
            rw [hb]
            exact ⟨b, rfl, hbucket.later _⟩
        · rw [if_neg heq]
          rw [added_addKey, if_neg heq, Option.toList_none, List.head?_nil, Option.or_none] at hinfo
          obtain ⟨b, hb, hbucket⟩ := ih hinfo
          exact ⟨b, hb, hbucket.later _⟩
      | verify apiKey model =>
        obtain ⟨b, hb, hbucket⟩ := ih (by simpa [Event.added] using hinfo)
        by_cases heq : apiKey = key
        · subst heq
          rcases (run es).snd_verify apiKey model time with hsame | ⟨b', hb', hinsert⟩
          · rw [step_verify, hsame]
            exact ⟨b, hb, hbucket.later _⟩
          · cases hb.symm.trans hb'
            rw [step_verify, hinsert]
            exact ⟨_, AList.lookup_insert _, hbucket.consume hbefore⟩
        · rw [step_verify, buckets_verify_of_ne heq]
          exact ⟨b, hb, hbucket.later _⟩

/-! ## The limit -/

/-- Somebody asks `n` times with a key while the clock shows `t`. -/
def burst (key : Str) (t : ℚ) (n : ℕ) : List Event := List.replicate n ⟨t, .verify key []⟩

theorem addsOf_burst (key : Str) (t : ℚ) (n : ℕ) : addsOf key (burst key t n) = [] := by
  refine List.filterMap_eq_nil_iff.2 fun e he => ?_
  rw [List.eq_of_mem_replicate he]
  rfl

theorem asked_burst (key : Str) (t : ℚ) (n : ℕ) :
    (burst key t n).filterMap (Event.asked key) = List.replicate n t := by
  refine List.filterMap_replicate_of_some ?_
  simp [Event.asked]

theorem timed_append_burst {es : List Event} (hes : Timed es) {t : ℚ} (ht : ∀ e ∈ es, e.time ≤ t)
    (key : Str) (n : ℕ) : Timed (es ++ burst key t n) := by
  refine List.pairwise_append.2 ⟨hes, List.pairwise_replicate.2 (.inr le_rfl), fun e he e' he' => ?_⟩
  rw [List.eq_of_mem_replicate he']
  exact ht e he

theorem exists_time_le (es : List Event) : ∃ t, ∀ e ∈ es, e.time ≤ t := by
  induction es with
  | nil => exact ⟨0, fun e he => absurd he List.not_mem_nil⟩
  | cons e es ih =>
      obtain ⟨t, ht⟩ := ih
      refine ⟨max e.time t, fun e' he' => ?_⟩
      rcases List.mem_cons.1 he' with rfl | he'
      · exact le_max_left _ _
      · exact (ht e' he').trans (le_max_right _ _)

theorem time_eq_of_asked {key : Str} {e : Event} {t : ℚ} (h : e.asked key = some t) : e.time = t := by
  unfold Event.asked at h
  split at h
  · cases h
  · split_ifs at h
    exact Option.some.inj h

/-- Nobody asks before the bucket was used last, and the times in a window do not go backwards. -/
theorem asked_sorted {q : ℤ} {es win : List Event} (htimed : Timed (es ++ win)) {b : TokenBucket ℚ}
    (hb : BucketOf q es b) (key : Str) :
    (b.last :: win.filterMap (Event.asked key)).Pairwise (· ≤ ·) := by
  obtain ⟨-, hwin, hbetween⟩ := List.pairwise_append.1 htimed
  refine List.pairwise_cons.2 ⟨fun t ht => ?_, ?_⟩
  · obtain ⟨e, he, hasked⟩ := List.mem_filterMap.1 ht
    rw [← time_eq_of_asked hasked]
    exact hb.last _ fun e' he' => hbetween e' he' e he
  · refine List.pairwise_filterMap.2 (hwin.imp fun {e e'} hle t ht t' ht' => ?_)
    rw [← time_eq_of_asked ht, ← time_eq_of_asked ht']
    exact hle

/-- The bucket enforces the limit that was added first, and so every higher one. -/
theorem grants_le_limit {q : ℤ} {es win : List Event} (htimed : Timed (es ++ win)) {b : TokenBucket ℚ}
    (hb : BucketOf q es b) (key : Str) {start d : ℚ} (hd : 0 ≤ d)
    (hwindow : ∀ e ∈ win, start ≤ e.time ∧ e.time ≤ start + d) {limit : ℤ} (hlimit : 0 ≤ limit)
    (hq : q ≤ limit) :
    (b.grants (win.filterMap (Event.asked key)) : ℚ) ≤ limit + limit * d := by
  have hlimit' : (0 : ℚ) ≤ limit := by exact_mod_cast hlimit
  have hqlimit : (q : ℚ) ≤ limit := by exact_mod_cast hq
  by_cases hq₀ : 0 ≤ q
  · have hq' : (0 : ℚ) ≤ q := by exact_mod_cast hq₀
    have hle := TokenBucket.grants_le_window (hb.capacity ▸ hq') (hb.rate ▸ hq') (hb.tokens hq₀)
      (asked_sorted htimed hb key) hd (fun t ht => by
        obtain ⟨e, he, hasked⟩ := List.mem_filterMap.1 ht
        rw [← time_eq_of_asked hasked]
        exact hwindow e he)
    rw [hb.capacity, hb.rate] at hle
    exact hle.trans (add_le_add hqlimit (mul_le_mul_of_nonneg_right hqlimit hd))
  · have hcapacity : b.capacity < 1 := by
      rw [hb.capacity]
      exact_mod_cast (not_le.1 hq₀).trans zero_lt_one
    rw [TokenBucket.grants_of_capacity_lt hcapacity, Nat.cast_zero]
    positivity

/-- In every window after which a key was not added again, no more requests with it pass than the limit
that was added last allows, exactly if the key is disabled or was not added with a higher limit first. -/
theorem limit_enforced_iff {key : Str} (hkey : key ≠ []) {es : List Event} (hes : Timed es)
    {info first : KeyInfo} (hlast : (addsOf key es).getLast? = some info)
    (hfirst : (addsOf key es).head? = some first) (hq : 0 ≤ info.qpsLimit) :
    (∀ (win : List Event) (start d : ℚ), Timed (es ++ win) → addsOf key win = [] → 0 ≤ d →
      (∀ e ∈ win, start ≤ e.time ∧ e.time ≤ start + d) →
      (accepted key win (run es) : ℚ) ≤ info.qpsLimit + info.qpsLimit * d) ↔
    info.enabled = false ∨ first.qpsLimit ≤ info.qpsLimit := by
  have hinfo : (run es).keys.lookup key = some info := (keys_run es key).trans hlast
  obtain ⟨b, hb, hbucket⟩ := buckets_run hes hfirst
  constructor
  · intro h
    by_contra hnot
    obtain ⟨henabled, hlt⟩ := not_or.1 hnot
    have henabled : info.enabled = true := by simpa using henabled
    have hlt : info.qpsLimit + 1 ≤ first.qpsLimit := not_le.1 hlt
    have hltq : (info.qpsLimit : ℚ) + 1 ≤ first.qpsLimit := by exact_mod_cast hlt
    have hq' : (0 : ℚ) ≤ info.qpsLimit := by exact_mod_cast hq
    -- after a second without requests the bucket is full again
    obtain ⟨t, ht⟩ := exists_time_le es
    have hn : ((info.qpsLimit + 1).toNat : ℚ) = info.qpsLimit + 1 := by
      exact_mod_cast Int.toNat_of_nonneg (by omega)
    have hfull : ((info.qpsLimit + 1).toNat : ℚ) ≤
        min b.capacity (b.tokens + (t + 1 - b.last) * b.rate) := by
      have htokens := hbucket.tokens (by omega)
      have hidle := hbucket.last t ht
      rw [hn, hbucket.capacity, hbucket.rate]
      refine le_min hltq ?_
      nlinarith
    have hle := h (burst key (t + 1) (info.qpsLimit + 1).toNat) (t + 1) 0
      (timed_append_burst hes (fun e he => (ht e he).trans (by linarith)) key _) (addsOf_burst key _ _)
      le_rfl (fun e he => by
        rw [List.eq_of_mem_replicate he]
        exact ⟨le_rfl, by linarith⟩)
    rw [accepted_of_enabled hkey hinfo henabled hb (addsOf_burst key _ _), asked_burst,
      TokenBucket.grants_replicate hfull, hn] at hle
    linarith
  · intro h win start d htimed hwin hd hwindow
    by_cases henabled : info.enabled = true
    · have hle : first.qpsLimit ≤ info.qpsLimit := h.resolve_left (by simp [henabled])
      rw [accepted_of_enabled hkey hinfo henabled hb hwin]
      exact grants_le_limit htimed hbucket key hd hwindow hq hle
    · have hq' : (0 : ℚ) ≤ info.qpsLimit := by exact_mod_cast hq
      rw [accepted_of_disabled hkey hinfo (by simpa using henabled) hwin, Nat.cast_zero]
      positivity

/-- A key with a limit. -/
def limited (qpsLimit : ℤ) : KeyInfo := { key := str "k", allowedModels := str "*", qpsLimit }

/-- A key that is added with one limit after the other. -/
def addedWith (limits : List ℤ) : List Event := limits.map fun q => ⟨0, .addKey (limited q)⟩

theorem timed_addedWith (limits : List ℤ) : Timed (addedWith limits) :=
  List.pairwise_map.2 (List.pairwise_of_forall fun _ _ => le_rfl)

theorem time_addedWith (limits : List ℤ) : ∀ e ∈ addedWith limits, e.time ≤ 0 := by
  intro e he
  obtain ⟨q, -, rfl⟩ := List.mem_map.1 he
  exact le_rfl

theorem limit_enforced_raised :
    (accepted (str "k") (burst (str "k") 0 9) (run (addedWith [2, 5])) : ℚ) ≤ 5 + 5 * 0 := by
  have hlast : (addsOf (str "k") (addedWith [2, 5])).getLast? = some (limited 5) := rfl
  have hfirst : (addsOf (str "k") (addedWith [2, 5])).head? = some (limited 2) := rfl
  refine (limit_enforced_iff (by decide) (timed_addedWith _) hlast hfirst (by decide)).2 (.inr (by decide))
    _ 0 0 (timed_append_burst (timed_addedWith _) (time_addedWith _) _ _) (addsOf_burst _ _ _) le_rfl ?_
  simp [burst]

/-- A limit of two that is lowered to one still lets two pass at once. -/
theorem limit_not_enforced :
    ¬∀ (key : Str) (es : List Event) (info : KeyInfo), key ≠ [] → Timed es →
      (addsOf key es).getLast? = some info → 0 ≤ info.qpsLimit →
      ∀ (win : List Event) (start d : ℚ), Timed (es ++ win) → addsOf key win = [] → 0 ≤ d →
        (∀ e ∈ win, start ≤ e.time ∧ e.time ≤ start + d) →
        (accepted key win (run es) : ℚ) ≤ info.qpsLimit + info.qpsLimit * d := by
  intro h
  have hle := h (str "k") (addedWith [2, 1]) (limited 1) (by decide) (timed_addedWith _) rfl (by decide)
    (burst (str "k") 0 2) 0 0 (timed_append_burst (timed_addedWith _) (time_addedWith _) _ _)
    (addsOf_burst _ _ _) le_rfl (by simp [burst])
  have haccepted : accepted (str "k") (burst (str "k") 0 2) (run (addedWith [2, 1])) = 2 := by
    decide +kernel
  rw [haccepted] at hle
  norm_num [limited] at hle

end AuthManager

end LlmGateway
