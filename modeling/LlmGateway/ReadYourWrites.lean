import LlmGateway.CoordinatorRuns

/-!
# Reading what was written

`query_after_write`: after a write, every hit under its key carries the data that was written, until
the next write of the key, if two things are granted.  The write itself has to reach the local cache:
output of 4096 bytes and more is not stored there, and then an older copy under the key stays, so there
must be none that carries other data and outlives the query (`Uncopied`).  And nothing else may be put
into the archive file of the write, whose name is made of the day and the hash of the key (`Clashes`).

The invariant is that every copy and every entry under the key either has the output itself, or has
none and refers to the archive file of the write, which holds it (`Carried`).
-/

namespace LlmGateway

namespace CacheCoordinator

open L2PersistentCache (Aged)

variable {ν : Type}

/-- The entry `r` carries the output of `e`, itself or in the archive. -/
def Carries (l3 : L3ArchiveStore) (r e : CacheEntry ν) : Prop :=
  r.output = e.output ∨ r.output = [] ∧ l3.get r.fullRef = some e.output

variable (platform : Platform ν)

/-- The archive file of a write. -/
def archivePath (e : CacheEntry ν) (now : Clock) (c : CacheCoordinator ν) : Str :=
  c.l3.makeKeyPath platform.toHost e.key now.wall

/-- The entry has the output of `e`, or none and a reference to the archive file. -/
def HasOutput (path : Str) (e r : CacheEntry ν) : Prop :=
  r.output = e.output ∨
    2048 < e.output.length ∧ r.output = [] ∧ r.fullRef = str "l3://" ++ path

/-- A write of `e` leaves no older data in the local cache that has not expired at the steady time
`deadline`. -/
def Uncopied (e : CacheEntry ν) (now : Clock) (deadline : Int64) (c : CacheCoordinator ν) : Prop :=
  e.output.length < 4096 ∨
    ∀ old, c.l1.find e.key = some old →
      HasOutput (archivePath platform e now c) e old ∨ old.expired deadline

variable [Double ν]

/-- The key and the text that an operation puts into the archive. -/
def Op.puts (c : CacheCoordinator ν) : Op ν → Option (Str × Str)
  | .write entry => if 2048 < entry.output.length then some (entry.key, entry.output) else none
  | .archiveSession sessionId =>
      (c.sessions.lookup sessionId).bind fun sb =>
        if sb.turns = [] then none
        else (platform.json.dump sb.toJson).map fun text => (str "session:" ++ sessionId, text)
  | _ => none

/-- An operation puts another text into the archive file. -/
def Clashes (path : Str) (e : CacheEntry ν) (op : Op ν × Clock) (c : CacheCoordinator ν) : Prop :=
  ∃ key text, op.1.puts platform c = some (key, text) ∧
    c.l3.makeKeyPath platform.toHost key op.2.wall = path ∧ text ≠ e.output

theorem apply_l3 (op : Op ν) (now : Clock) (c : CacheCoordinator ν) :
    (op.apply platform now c).state.l3 = match op.puts platform c with
      | none => c.l3
      | some (key, text) => c.l3.put platform.toHost key text now.wall := by
  cases op with
  | query agentId capability inputHash sessionId =>
    have h := query_cases agentId capability inputHash sessionId now c
    simp only [Op.apply, Outcome.ok_state, Op.puts]
    generalize query agentId capability inputHash sessionId now c = r at h
    cases h <;> rfl
  | write entry =>
    rw [Op.apply, write_l3, Op.puts]
    split_ifs <;> rfl
  | invalidate key reason cascading => rfl
  | appendTurn sessionId turn => rfl
  | closeSession sessionId => rfl
  | archiveSession sessionId =>
    simp only [Op.apply, archiveSession, Op.puts]
    cases c.sessions.lookup sessionId with
    | none => rfl
    | some sb =>
      simp only [Option.bind_some]
      split_ifs
      · rfl
      · rcases platform.json.dump sb.toJson with _ | text <;> rfl
  | applyConfidenceDecay => rfl
  | purgeExpired => rfl

/-! ## The invariant -/

/-- Every entry under the key of `e` has its output, and so has every copy until it has expired; the
archive file holds it. -/
structure Carried (path : Str) (e : CacheEntry ν) (deadline : Int64) (c : CacheCoordinator ν) :
    Prop where
  copies : ∀ r, c.l1.find e.key = some r → HasOutput path e r ∨ r.expired deadline
  entries : ∀ r, c.l2.entries.lookup e.key = some r → HasOutput path e r
  archive : 2048 < e.output.length → c.l3.get (str "l3://" ++ path) = some e.output

theorem hasOutput_aged {path : Str} {e r r' : CacheEntry ν} (h : Aged r r')
    (hr : HasOutput path e r) : HasOutput path e r' := by
  show HasOutput path e r'.record
  rw [h.record]
  exact hr

omit [Double ν] in
theorem carried_write (e : CacheEntry ν) (now : Clock) {deadline : Int64} {c : CacheCoordinator ν}
    (h : Uncopied platform e now deadline c) :
    Carried (archivePath platform e now c) e deadline (write platform e now c).state where
  copies := by
    intro r hr
    rw [write_l1] at hr
    split_ifs at hr with hsmall
    · rw [L1Store.find_set_self, Option.some.injEq] at hr
      rw [← hr]
      exact Or.inl (Or.inl (stamped_output now e))
    · exact h.resolve_left hsmall r hr
  entries := by
    intro r hr
    rw [write_entries, AList.lookup_insert, Option.some.injEq] at hr
    rw [← hr, l2Entry, stamped_output, stamped_key]
    split_ifs with hbig
    · exact Or.inr ⟨hbig, rfl, rfl⟩
    · exact Or.inl (stamped_output now e)
  archive hbig := by
    rw [write_l3, if_pos hbig, L3ArchiveStore.get_put, archivePath, if_pos rfl]

theorem carried_apply {path : Str} {e : CacheEntry ν} {deadline : Int64} {op : Op ν × Clock}
    {c : CacheCoordinator ν} (hop : ∀ entry, op.1 = .write entry → entry.key ≠ e.key)
    (hclash : 2048 < e.output.length → ¬ Clashes platform path e op c)
    (hc : Carried path e deadline c) :
    Carried path e deadline (op.1.apply platform op.2 c).state where
  copies := by
    intro r hr
    rcases find_apply platform op.1 op.2 c e.key r hr with
      ⟨entry, hentry, hkey, -, -⟩ | ⟨r₀, hr₀ | hr₀, haged⟩
    · exact absurd hkey.symm (hop entry hentry)
    · rw [haged.expired]
      exact (hc.copies r₀ hr₀).imp_left (hasOutput_aged haged)
    · exact Or.inl (hasOutput_aged haged (hc.entries r₀ hr₀))
  entries := by
    intro r hr
    rcases lookup_apply platform op.1 op.2 c e.key r hr with
      ⟨entry, hentry, hkey, -⟩ | ⟨r₀, hr₀, haged⟩
    · exact absurd hkey.symm (hop entry hentry)
    · exact hasOutput_aged haged (hc.entries r₀ hr₀)
  archive hbig := by
    rw [apply_l3]
    split
    · exact hc.archive hbig
    · next key text hputs =>
      rw [L3ArchiveStore.get_put]
      split_ifs with hpath
      · by_contra hne
        exact hclash hbig ⟨key, text, hputs, hpath.symm, fun htext => hne (by rw [htext])⟩
      · exact hc.archive hbig

theorem carried_run {path : Str} {e : CacheEntry ν} {deadline : Int64} {ops : List (Op ν × Clock)}
    (hops : ∀ op ∈ ops, ∀ entry, op.1 = .write entry → entry.key ≠ e.key) {c : CacheCoordinator ν}
    (hclash : 2048 < e.output.length → ∀ pre op, pre ++ [op] <+: ops →
      ¬ Clashes platform path e op (run platform c pre)) (hc : Carried path e deadline c) :
    Carried path e deadline (run platform c ops) := by
  induction ops generalizing c with
  | nil => exact hc
  | cons op ops ih =>
      have hstep := carried_apply platform (hops op (by simp))
        (fun hbig => hclash hbig [] op (by simp)) hc
      refine ih (fun o ho => hops o (by simp [ho])) (fun hbig pre o hpre => ?_) hstep
      exact hclash hbig (op :: pre) o (by simpa using hpre)

/-! ## Hits -/

omit [Double ν] in
/-- Without buffered turns the session does not answer. -/
theorem sessionEntry_of_no_turns {capability sessionId : Str} {now : Clock}
    {c : CacheCoordinator ν} (h : ∀ sb, c.sessions.lookup sessionId = some sb → sb.turns = []) :
    c.sessionEntry capability sessionId now = none := by
  unfold sessionEntry
  cases hsb : c.sessions.lookup sessionId with
  | none => rfl
  | some sb => simp [SessionBuffer.newest, h sb hsb]

/-- Every hit under the key of the last write carries the data that was written, in every run in
which the write leaves no older data in the local cache and nothing else is put into its archive
file. -/
theorem query_after_write (c : CacheCoordinator ν) (e : CacheEntry ν) (now now' : Clock)
    (huncopied : Uncopied platform e now now'.steady c) (ops : List (Op ν × Clock))
    (hops : ∀ op ∈ ops, ∀ entry, op.1 = .write entry → entry.key ≠ e.key)
    (hclash : 2048 < e.output.length → ∀ pre op, pre ++ [op] <+: ops →
      ¬ Clashes platform (archivePath platform e now c) e op
        (run platform (write platform e now c).state pre))
    (agentId capability inputHash sessionId : Str)
    (hkey : cacheKey agentId capability inputHash = e.key) :
    let c' := run platform (write platform e now c).state ops
    (∀ sb, c'.sessions.lookup sessionId = some sb → sb.turns = []) →
    ∀ r, (query agentId capability inputHash sessionId now' c').1 = some r →
      Carries c'.l3 r.entry e := by
  intro c' hturns r hr
  have hc : Carried (archivePath platform e now c) e now'.steady c' :=
    carried_run platform hops hclash (carried_write platform e now huncopied)
  -- a stored entry with the output of `e` carries it, touched or not
  have carries (r : CacheEntry ν) (h : HasOutput (archivePath platform e now c) e r) :
      Carries c'.l3 r.touch e := by
    rcases h with h | ⟨hbig, hout, href⟩
    · exact Or.inl h
    · refine Or.inr ⟨hout, ?_⟩
      show c'.l3.get r.fullRef = some e.output
      rw [href, hc.archive hbig]
  rw [query_fst, sessionEntry_of_no_turns hturns, hkey] at hr
  cases hl1 : c'.l1.live e.key now'.steady with
  | none =>
    rw [hl1] at hr
    obtain ⟨r₂, hl2, rfl⟩ := Option.map_eq_some_iff.1 hr
    exact carries r₂ (hc.entries r₂ (L2PersistentCache.live_eq_some.1 hl2).1)
  | some r₁ =>
    rw [hl1, Option.some.injEq] at hr
    obtain ⟨hfind, hexp⟩ := L1Store.live_eq_some.1 hl1
    rw [← hr]
    refine carries r₁ ((hc.copies r₁ hfind).resolve_right fun h => ?_)
    rw [hexp] at h
    cases h

/-! ## A write that leaves an older copy -/

/-- A short answer that has aged once. -/
def agedAnswer : CacheCoordinator ℚ :=
  run upPlatform (write upPlatform (answer "1" (str "short") []) (upClock 0) {}).state
    [(.applyConfidenceDecay, upClock 1)]

theorem query_after_write_short :
    ∃ r, (query (str "any") (str "search") (str "1") (str "s") (upClock 2) agedAnswer).1 = some r ∧
      Carries agedAnswer.l3 r.entry (answer "1" (str "short") []) := by
  have hit : (query (str "any") (str "search") (str "1") (str "s") (upClock 2)
      agedAnswer).1.isSome := by
    decide +kernel
  obtain ⟨r, hr⟩ := Option.isSome_iff_exists.1 hit
  refine ⟨r, hr, query_after_write upPlatform {} (answer "1" (str "short") []) (upClock 0)
    (upClock 2) (Or.inl (by decide)) [(.applyConfidenceDecay, upClock 1)] ?_ ?_ (str "any")
    (str "search") (str "1") (str "s") (by decide) ?_ r hr⟩
  · intro op hop entry hentry
    rw [List.mem_singleton.1 hop] at hentry
    cases hentry
  · intro hbig
    exact absurd hbig (by decide)
  · intro sb hsb
    cases hsb

/-- An output that the local cache does not take. -/
def longOutput : Str := List.replicate 4096 120

/-- A second, long answer leaves the first one in the local cache, and a query returns that one. -/
theorem write_leaves_older_copy :
    ∃ r, (query (str "any") (str "search") (str "1") (str "s") (upClock 2)
        (run upPlatform {} [(.write (answer "1" (str "short") []), upClock 0),
          (.write (answer "1" longOutput []), upClock 1)])).1 = some r ∧
      ¬ Carries (run upPlatform {} [(.write (answer "1" (str "short") []), upClock 0),
        (.write (answer "1" longOutput []), upClock 1)]).l3 r.entry (answer "1" longOutput []) := by
  generalize hc : run upPlatform {} [(.write (answer "1" (str "short") []), upClock 0),
    (.write (answer "1" longOutput []), upClock 1)] = c
  have hlong : ¬ (answer "1" longOutput []).output.length < 4096 := by
    have hlen : (answer "1" longOutput []).output.length = 4096 := List.length_replicate
    omega
  have hfind : c.l1.find (searchKey "1") =
      some (stamped (upClock 0) (answer "1" (str "short") [])) := by
    rw [← hc, run, Outcome.run_cons, Outcome.run_cons, Outcome.run_nil, Op.apply, write_l1,
      if_neg hlong, Op.apply, write_l1, if_pos (by decide)]
    exact L1Store.find_set_self _ _ _
  have hlive : c.l1.live (cacheKey (str "any") (str "search") (str "1")) (upClock 2).steady =
      some (stamped (upClock 0) (answer "1" (str "short") [])) :=
    L1Store.live_eq_some.2 ⟨hfind, by decide⟩
  refine ⟨⟨(stamped (upClock 0) (answer "1" (str "short") [])).touch, .L1, false⟩, ?_, ?_⟩
  · rw [query_fst, hlive]
  · rintro (hout | ⟨hout, -⟩)
    · have hlen := congrArg List.length hout
      rw [show (answer "1" longOutput []).output.length = 4096 from List.length_replicate] at hlen
      exact absurd hlen (by decide)
    · exact absurd hout (by decide)

end CacheCoordinator

end LlmGateway
