import LlmGateway.Base
import LlmGateway.Lib.LruMap

/-!
# The cache of the plugins

`CacheStore`: a least-recently-used store of texts, each with the time of the steady clock after which it is
expired.  A time is in nanoseconds; even with the largest ttl, an expiry time stays in the range of the clock
until some 220 years after the start of the machine.

`reads_of_run`: in every run in which the clock does not go backwards, a read returns what was last set under
the key, if that has not expired and fewer than 10000 other keys were set or hit since the key was, and it
returns nothing else.

A value that was set is there as long as it has not been found expired and there were not that many other keys
(`Holds.kept`): what makes a store give up a key is the library's `LruMap.Recent.find_put`.
-/

namespace LlmGateway

/-- The `Entry` of the store, without its key. -/
structure CachedText where
  value : Str
  expires : ℤ
  deriving DecidableEq

/-- The texts that plugins have set, the last used first. -/
structure CacheStore where
  /-- `lru_` and `map_`. -/
  lru : IndexedList Str CachedText := {}

namespace CacheStore

open LruMap (Recent usedSince)

/-- `max_size_`. -/
def maxSize : ℕ := 10000

/-- `steady_clock::now() + std::chrono::seconds(ttl_seconds)`. -/
def expiry (now : Int64) (ttlSeconds : Int32) : ℤ := now.toInt + ttlSeconds.toInt * 1000000000

/-- Read a key: an expired text is removed, another one moves to the front. -/
def get (key : Str) (now : Int64) (s : CacheStore) : Option (Option Str × CacheStore) :=
  match s.lru.map.lookup key with
  | none => some (none, s)
  | some it =>
      match s.lru.deref it with
      | none => none
      | some node =>
          if node.val.expires < now.toInt then some (none, { lru := s.lru.eraseAt node key })
          else some (some node.val.value, { lru := s.lru.toFront node id })

/-- Set a key; a new one may push the last used one out. -/
def set (key value : Str) (ttlSeconds : Int32) (now : Int64) (s : CacheStore) : Option CacheStore :=
  match s.lru.map.lookup key with
  | some it =>
      match s.lru.deref it with
      | none => none
      | some node => some { lru := s.lru.toFront node fun _ => ⟨value, expiry now ttlSeconds⟩ }
  | none =>
      (if maxSize ≤ s.lru.list.length then s.lru.popBack else some s.lru).map fun lru =>
        { lru := lru.pushFront key ⟨value, expiry now ttlSeconds⟩ }

/-- The number of keys. -/
def size (s : CacheStore) : ℕ := s.lru.map.keys.length

/-- Remove all. -/
def clear (s : CacheStore) : CacheStore := { lru := s.lru.clear }

/-! ## Runs -/

/-- A call of the store. -/
inductive Op where
  | get (key : Str)
  | set (key value : Str) (ttlSeconds : Int32)
  | size
  | clear
  deriving DecidableEq

/-- What an operation returns. -/
inductive Answer where
  | done
  | value (v : Option Str)
  | size (n : ℕ)
  deriving DecidableEq

/-- A call, the time at which it read the clock, and what it returned. -/
structure Call where
  op : Op
  now : Int64
  answer : Answer
  deriving DecidableEq

/-- What a call does and returns. -/
def perform (now : Int64) (s : CacheStore) : Op → Option (Answer × CacheStore)
  | .get key => (s.get key now).map fun r => (.value r.1, r.2)
  | .set key value ttlSeconds => (s.set key value ttlSeconds now).map fun s => (.done, s)
  | .size => some (.size s.size, s)
  | .clear => some (.done, s.clear)

/-- One more call, in front of those before; `none` if it is not defined. -/
def step (r : CacheStore × List Call) (op : Op × Int64) : Option (CacheStore × List Call) :=
  (perform op.2 r.1 op.1).map fun p => (p.2, ⟨op.1, op.2, p.1⟩ :: r.2)

/-- The store and the calls after a run from the start of the process on. -/
def run (ops : List (Op × Int64)) : Option (CacheStore × List Call) := ops.foldlM step ({}, [])

/-- The keys that were set or hit, the latest first. -/
def uses : List Call → List Str
  | [] => []
  | ⟨.set key _ _, _, _⟩ :: calls => key :: uses calls
  | ⟨.get key, _, .value (some _)⟩ :: calls => key :: uses calls
  | _ :: calls => uses calls

/-- What was last set under a key since the store was cleared. -/
def lastSet (key : Str) : List Call → Option CachedText
  | [] => none
  | ⟨.set key' value ttlSeconds, now, _⟩ :: calls =>
      if key' = key then some ⟨value, expiry now ttlSeconds⟩ else lastSet key calls
  | ⟨.clear, _, _⟩ :: _ => none
  | _ :: calls => lastSet key calls

/-- The other keys that were set or hit since a key was. -/
def othersSince (key : Str) (calls : List Call) : Finset Str := (usedSince key (uses calls)).toFinset

/-! ## What the store holds -/

/-- What holds of the store after some calls. -/
structure Holds (s : CacheStore) (calls : List Call) : Prop where
  agree : s.lru.Agree
  recent : Recent (uses calls) (s.lru.lru maxSize)
  sound : ∀ key text, s.lru.find key = some text → lastSet key calls = some text
  kept : ∀ key text, lastSet key calls = some text → s.lru.find key = some text ∨
    (∃ call ∈ calls, text.expires < call.now.toInt) ∨ maxSize ≤ (othersSince key calls).card

theorem holds_start : Holds {} [] where
  agree := IndexedList.agree_empty
  recent := ⟨List.nodup_nil, Nat.zero_le _, List.Pairwise.nil⟩
  sound _ _ h := by cases h
  kept _ _ h := by cases h

theorem card_othersSince_le {key key' : Str} (h : key' ≠ key) {call : Call} {calls : List Call}
    (huses : uses (call :: calls) = key' :: uses calls) :
    (othersSince key calls).card ≤ (othersSince key (call :: calls)).card := by
  rw [othersSince, othersSince, huses, LruMap.usedSince_cons_ne h, List.toFinset_cons]
  exact Finset.card_le_card (Finset.subset_insert _ _)

section Step

variable {s : CacheStore} {calls : List Call} (h : Holds s calls)

include h

/-- Nothing changes for a key with a call that neither sets nor uses it. -/
theorem Holds.kept_cons {key : Str} {text : CachedText} (htext : lastSet key calls = some text) {call : Call}
    (hcard : (othersSince key calls).card ≤ (othersSince key (call :: calls)).card) {s' : CacheStore}
    (hfind : s.lru.find key = some text → s'.lru.find key = some text ∨
      (∃ call' ∈ call :: calls, text.expires < call'.now.toInt) ∨
        maxSize ≤ (othersSince key (call :: calls)).card) :
    s'.lru.find key = some text ∨ (∃ call' ∈ call :: calls, text.expires < call'.now.toInt) ∨
      maxSize ≤ (othersSince key (call :: calls)).card := by
  rcases h.kept key text htext with hheld | ⟨call', hcall', hexpired⟩ | hothers
  · exact hfind hheld
  · exact .inr (.inl ⟨call', List.mem_cons_of_mem call hcall', hexpired⟩)
  · exact .inr (.inr (hothers.trans hcard))

/-- A call that leaves the store as it is and uses no key. -/
theorem Holds.skip {call : Call} (huses : uses (call :: calls) = uses calls)
    (hlast : ∀ key, lastSet key (call :: calls) = lastSet key calls) : Holds s (call :: calls) where
  agree := h.agree
  recent := huses ▸ h.recent
  sound key text hfind := (hlast key).trans (h.sound key text hfind)
  kept key text htext := by
    refine h.kept_cons ((hlast key).symm.trans htext) ?_ .inl
    rw [othersSince, othersSince, huses]

/-- A call that uses a key, which then has the value last set. -/
theorem Holds.put {s' : CacheStore} (key : Str) (text : CachedText) {call : Call} (hagree : s'.lru.Agree)
    (hlru : s'.lru.lru maxSize = (s.lru.lru maxSize).put key text)
    (huses : uses (call :: calls) = key :: uses calls)
    (hlast : ∀ key', lastSet key' (call :: calls) = if key' = key then some text else lastSet key' calls) :
    Holds s' (call :: calls) := by
  have hfind (key' : Str) : s'.lru.find key' = ((s.lru.lru maxSize).put key text).find key' := by
    rw [← hlru, IndexedList.find_lru]
  have hself : s'.lru.find key = some text := by rw [hfind, LruMap.find_put_self]
  refine ⟨hagree, ?_, fun key' text' htext => ?_, fun key' text' htext => ?_⟩
  · rw [hlru, huses]
    exact h.recent.put (Nat.succ_pos 9999) key text
  · rw [hlast]
    split_ifs with hkey
    · rwa [hkey, hself] at htext
    · rw [hfind] at htext
      have hold := h.recent.find_of_find_put hkey htext
      rw [IndexedList.find_lru] at hold
      exact h.sound key' text' hold
  · rw [hlast] at htext
    split_ifs at htext with hkey
    · left
      rw [hkey, hself, htext]
    · refine h.kept_cons htext (card_othersSince_le (Ne.symm hkey) huses) fun hheld => ?_
      rw [← IndexedList.find_lru maxSize] at hheld
      rcases h.recent.find_put (Ne.symm hkey) text hheld with hstays | hgone
      · exact .inl ((hfind key').trans hstays)
      · exact .inr (.inr (by rwa [othersSince, huses]))

/-- A read that finds an expired text removes it. -/
theorem Holds.expire {node : ListNode Str CachedText} (hmem : node ∈ s.lru.list) {now : Int64}
    (hexpired : node.val.expires < now.toInt) :
    Holds { lru := s.lru.eraseAt node node.key } (⟨.get node.key, now, .value none⟩ :: calls) := by
  have hfind := h.agree.find_eraseAt hmem
  refine ⟨h.agree.eraseAt hmem, ?_, fun key text htext => ?_, fun key text htext => ?_⟩
  · rw [h.agree.lru_eraseAt _ hmem]
    exact h.recent.remove _
  · rw [hfind] at htext
    split_ifs at htext
    exact h.sound key text htext
  · refine h.kept_cons htext le_rfl fun hheld => ?_
    by_cases hkey : key = node.key
    · rw [hkey, h.agree.find_eq_some.2 ⟨node, hmem, rfl, rfl⟩, Option.some.injEq] at hheld
      exact .inr (.inl ⟨_, List.mem_cons_self, hheld ▸ hexpired⟩)
    · left
      rw [hfind, if_neg hkey, hheld]

/-- A read that finds a text makes its key the latest. -/
theorem Holds.hit {node : ListNode Str CachedText} (hmem : node ∈ s.lru.list) (now : Int64) :
    Holds { lru := s.lru.toFront node id }
      (⟨.get node.key, now, .value (some node.val.value)⟩ :: calls) := by
  have hheld : s.lru.find node.key = some node.val := h.agree.find_eq_some.2 ⟨node, hmem, rfl, rfl⟩
  refine h.put node.key node.val (h.agree.toFront hmem id) ?_ rfl fun key => ?_
  · exact h.agree.lru_toFront_eq_put maxSize hmem id
  · split_ifs with hkey
    · rw [hkey]
      exact h.sound _ _ hheld
    · rfl

/-- A read returns the text that is held, unless it is expired. -/
theorem Holds.get (key : Str) (now : Int64) : ∃ v s', s.get key now = some (v, s') ∧
    Holds s' (⟨.get key, now, .value v⟩ :: calls) ∧
    v = ((s.lru.find key).filter fun text => now.toInt ≤ text.expires).map CachedText.value := by
  cases hlookup : s.lru.map.lookup key with
  | none =>
    refine ⟨none, s, by simp only [CacheStore.get, hlookup], h.skip rfl fun _ => rfl, ?_⟩
    rw [h.agree.find_of_lookup_none hlookup]
    rfl
  | some it =>
    obtain ⟨node, hmem, hderef, rfl, hfind⟩ := h.agree.deref_of_lookup hlookup
    simp only [CacheStore.get, hlookup, hderef, hfind]
    by_cases hexpired : node.val.expires < now.toInt
    · rw [if_pos hexpired]
      exact ⟨none, _, rfl, h.expire hmem hexpired, by simp [hexpired]⟩
    · rw [if_neg hexpired]
      exact ⟨some node.val.value, _, rfl, h.hit hmem now, by simp [not_lt.1 hexpired]⟩

theorem Holds.set (key value : Str) (ttlSeconds : Int32) (now : Int64) :
    ∃ s', s.set key value ttlSeconds now = some s' ∧
      Holds s' (⟨.set key value ttlSeconds, now, .done⟩ :: calls) := by
  have hlast (key' : Str) : lastSet key' (⟨.set key value ttlSeconds, now, .done⟩ :: calls) =
      if key' = key then some ⟨value, expiry now ttlSeconds⟩ else lastSet key' calls := by
    simp [lastSet, eq_comm]
  cases hlookup : s.lru.map.lookup key with
  | none =>
    have hroom := h.recent.room
    rw [IndexedList.length_lru] at hroom
    -- the room for the new element
    obtain ⟨lru, hlru, hagree, hlist⟩ : ∃ lru,
        (if maxSize ≤ s.lru.list.length then s.lru.popBack else some s.lru) = some lru ∧ lru.Agree ∧
          lru.list = s.lru.list.take (maxSize - 1) := by
      split_ifs with hfull
      · have hlen : s.lru.list.length = maxSize := le_antisymm hroom hfull
        have hne : s.lru.list ≠ [] := by
          intro hnil
          rw [hnil] at hlen
          exact absurd hlen (by decide)
        rw [← hlen]
        exact IndexedList.popBack_spec h.agree hne
      · refine ⟨s.lru, rfl, h.agree, (List.take_of_length_le ?_).symm⟩
        omega
    have hsub : lru.list ⊆ s.lru.list := by
      rw [hlist]
      exact List.take_subset _ _
    simp only [CacheStore.set, hlookup, hlru, Option.map_some]
    refine ⟨_, rfl, ?_⟩
    refine h.put key _ (hagree.pushFront (h.agree.lookup_of_sublist hagree hsub hlookup) _) ?_ rfl hlast
    exact h.agree.lru_pushFront_eq_put maxSize hlookup hlist _
  | some it =>
    obtain ⟨node, hmem, hderef, rfl, hfind⟩ := h.agree.deref_of_lookup hlookup
    simp only [CacheStore.set, hlookup, hderef]
    refine ⟨_, rfl, h.put node.key _ (h.agree.toFront hmem fun _ => ⟨value, expiry now ttlSeconds⟩) ?_ rfl
      hlast⟩
    exact h.agree.lru_toFront_eq_put maxSize hmem _

theorem Holds.clear (now : Int64) : Holds s.clear (⟨.clear, now, .done⟩ :: calls) where
  agree := IndexedList.agree_clear _
  recent := h.recent.clear
  sound _ _ htext := by cases htext
  kept _ _ htext := by cases htext

theorem Holds.step (op : Op) (now : Int64) : ∃ answer s', perform now s op = some (answer, s') ∧
    Holds s' (⟨op, now, answer⟩ :: calls) := by
  cases op with
  | get key =>
    obtain ⟨v, s', hget, hs', -⟩ := h.get key now
    exact ⟨.value v, s', by simp [perform, hget], hs'⟩
  | set key value ttlSeconds =>
    obtain ⟨s', hset, hs'⟩ := h.set key value ttlSeconds now
    exact ⟨.done, s', by simp [perform, hset], hs'⟩
  | size => exact ⟨_, _, rfl, h.skip rfl fun _ => rfl⟩
  | clear => exact ⟨_, _, rfl, h.clear now⟩

end Step

theorem holds_run (ops : List (Op × Int64)) : ∃ s calls, run ops = some (s, calls) ∧ Holds s calls ∧
    calls.map Call.now = (ops.map Prod.snd).reverse := by
  induction ops using List.reverseRecOn with
  | nil => exact ⟨_, _, rfl, holds_start, rfl⟩
  | append_singleton ops op ih =>
      obtain ⟨s, calls, hrun, hs, hnow⟩ := ih
      obtain ⟨answer, s', hperform, hs'⟩ := hs.step op.1 op.2
      refine ⟨s', ⟨op.1, op.2, answer⟩ :: calls, ?_, hs', by simp [hnow]⟩
      rw [run, List.foldlM_append, ← run, hrun]
      simp [CacheStore.step, hperform]

/-- In every run whose times do not decrease, the store never holds more than 10000 keys; a read returns a text
only if it was last set under the key and is not expired, and then it does, if fewer than 10000 other keys were
set or hit since. -/
theorem reads_of_run (ops : List (Op × Int64)) (key : Str) (now : Int64)
    (htimes : (ops.map Prod.snd ++ [now]).Pairwise fun t t' => t.toInt ≤ t'.toInt) :
    ∃ s calls, run ops = some (s, calls) ∧ s.size ≤ maxSize ∧ ∃ v s', s.get key now = some (v, s') ∧
      (∀ value, v = some value → ∃ text, lastSet key calls = some text ∧ text.value = value ∧
        now.toInt ≤ text.expires) ∧
      ∀ text, lastSet key calls = some text → now.toInt ≤ text.expires →
        (othersSince key calls).card < maxSize → v = some text.value := by
  obtain ⟨s, calls, hrun, hs, hnow⟩ := holds_run ops
  obtain ⟨v, s', hget, -, hv⟩ := hs.get key now
  refine ⟨s, calls, hrun, ?_, v, s', hget, fun value hvalue => ?_, fun text htext hfresh hfew => ?_⟩
  · have hroom := hs.recent.room
    rwa [IndexedList.length_lru, ← hs.agree.length_map_keys] at hroom
  · rw [hvalue, eq_comm, Option.map_eq_some_iff] at hv
    obtain ⟨text, htext, rfl⟩ := hv
    obtain ⟨hheld, hfresh⟩ := Option.filter_eq_some_iff.1 htext
    exact ⟨text, hs.sound key text hheld, rfl, of_decide_eq_true hfresh⟩
  · rcases hs.kept key text htext with hheld | ⟨call, hcall, hexpired⟩ | hmany
    · rw [hv, hheld]
      simp [hfresh]
    · -- no earlier call has read a later time
      have hmem : call.now ∈ ops.map Prod.snd := by
        rw [← List.mem_reverse, ← hnow]
        exact List.mem_map_of_mem hcall
      have hle := (List.pairwise_append.1 htimes).2.2 call.now hmem now (List.mem_singleton_self now)
      omega
    · omega

/-- Two texts, one of them set for ten seconds and the other for five, which is found expired after six. -/
def twoSets : List (Op × Int64) :=
  [(.set (str "k") (str "v") 10, 0), (.set (str "j") (str "w") 5, 1000000000),
    (.get (str "j"), 7000000000)]

/-- After nine seconds the one is still there, the other is not. -/
theorem reads_of_run_fresh :
    (∃ s calls, run twoSets = some (s, calls) ∧ s.size ≤ maxSize ∧
      ∃ s', s.get (str "k") 9000000000 = some (some (str "v"), s')) ∧
    ∃ s calls, run twoSets = some (s, calls) ∧ s.size ≤ maxSize ∧
      ∃ s', s.get (str "j") 9000000000 = some (none, s') := by
  have hcalls : (run twoSets).map Prod.snd =
      some [⟨.get (str "j"), 7000000000, .value none⟩, ⟨.set (str "j") (str "w") 5, 1000000000, .done⟩,
        ⟨.set (str "k") (str "v") 10, 0, .done⟩] := by decide +kernel
  refine ⟨?_, ?_⟩
  · obtain ⟨s, calls, hrun, hsize, v, s', hget, -, hkept⟩ :=
      reads_of_run twoSets (str "k") 9000000000 (by decide)
    rw [hrun, Option.map_some, Option.some_inj] at hcalls
    dsimp only at hcalls
    subst hcalls
    obtain rfl : v = some (str "v") := hkept _ rfl (by decide) (by decide)
    exact ⟨s, _, hrun, hsize, s', hget⟩
  · obtain ⟨s, calls, hrun, hsize, v, s', hget, hsound, -⟩ :=
      reads_of_run twoSets (str "j") 9000000000 (by decide)
    rw [hrun, Option.map_some, Option.some_inj] at hcalls
    dsimp only at hcalls
    subst hcalls
    cases v with
    | none => exact ⟨s, _, hrun, hsize, s', hget⟩
    | some value =>
      obtain ⟨text, htext, -, hfresh⟩ := hsound value rfl
      obtain rfl := Option.some.inj htext
      exact absurd hfresh (by decide)

end CacheStore

end LlmGateway
