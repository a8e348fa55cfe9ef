import LlmGateway.L2Cascade

/-!
# How often a cascade lowers an entry

The cascade lowers the confidence of a dependent before the recursive call looks at the list of visited keys.
So the list ends the recursion, but it does not keep an entry from being lowered again on a second edge.

`cascadeLog` lists the keys that a cascade lowers, one for each multiplication by 0.3;
`confidence_hardInvalidate` reads the confidences off it.  `hardInvalidate_lowersOnce_iff`: no entry is lowered
twice exactly if no two edges of the reverse index lead from the invalidated key and the entries downstream of
it into one entry.
-/

namespace LlmGateway

namespace L2PersistentCache

open InverseIndex GuardedPath

variable {ν : Type} [Double ν]

/-- What the cascade does to a confidence. -/
def lowered (confidence : ν) : ν := Double.mul confidence (Double.lit (3 / 10))

/-- The keys that the cascade from `key` lowers, one for each time. -/
def cascadeLog (depRev : UMap (List Str)) (entries : UMap (CacheEntry ν)) (key reason : Str) : List Str :=
  match (cascadeWalk depRev).logged.visit (entries.keys.length + 2) key (.caller reason) ((entries, []), []) with
  | some w => w.1.2
  | none => []

/-- The keys that `hard_invalidate` with cascade lowers, one for each time. -/
def downgrades (key reason : Str) (s : L2PersistentCache ν) : List Str :=
  match s.entries.lookup key with
  | none => []
  | some _ => cascadeLog s.depRev (s.entries.modify key (invalidated reason)) key reason

/-- The call lowers each entry that it marks `STALE` once. -/
def LowersOnce (key reason : Str) (s : L2PersistentCache ν) : Prop :=
  ∀ d ∈ downgrades key reason s, (downgrades key reason s).count d = 1

omit [Double ν] in
/-- The edges into a live entry other than `k`, from `k` and the entries downstream of it, are one: no two of
them start at different keys, and the dependents of none of these keys have the entry twice. -/
structure EntersOnce (s : L2PersistentCache ν) (k : Str) : Prop where
  source : ∀ a b d, Relation.ReflTransGen s.RevEdge k a → Relation.ReflTransGen s.RevEdge k b → d ≠ k →
    s.RevEdge a d → s.RevEdge b d → a = b
  single : ∀ a d, Relation.ReflTransGen s.RevEdge k a → d ≠ k → s.RevEdge a d → (listAt s.depRev a).count d = 1

/-! ## The log of a cascade -/

section Log

variable (depRev : UMap (List Str)) (entries : UMap (CacheEntry ν)) (key reason : Str)

/-- The logged walk returns, with the entries after the cascade and its log. -/
theorem exists_logged_visit : ∃ w, (cascadeWalk depRev).logged.visit (entries.keys.length + 2) key
      (.caller reason) ((entries, []), []) = some w ∧ w.1.1 = cascade depRev entries key reason ∧
      w.1.2 = cascadeLog depRev entries key reason := by
  obtain ⟨visited, hcascade⟩ := cascadeInvalidateInternal_eq_cascade depRev entries key reason le_rfl
  have herase := (cascadeWalk depRev).visit_logged (entries.keys.length + 2) key (.caller reason)
    ((entries, []), [])
  rw [← cascadeInvalidateInternal_eq_visit, hcascade, Option.map_eq_some_iff] at herase
  obtain ⟨w, hw, hw'⟩ := herase
  refine ⟨w, hw, (Prod.mk.inj hw').1, ?_⟩
  simp [cascadeLog, hw]

/-- The cascade is a list of marks, and its log is the list of the keys that are marked. -/
theorem cascade_log_marks : ∃ ms, cascade depRev entries key reason = (cascadeWalk depRev).marks entries ms ∧
    cascadeLog depRev entries key reason = ms.map Walk.Mark.dst ∧
    ∀ d, (∃ a ∈ ms, a.dst = d) ↔
      Relation.TransGen (fun a b => b ∈ listAt depRev a ∧ cascadesInto entries b = true) key d := by
  obtain ⟨w, hw, hentries, hlog⟩ := exists_logged_visit depRev entries key reason
  obtain ⟨ms, hms, hreach⟩ :=
    Walk.exists_marks_iff_reach (cascadeWalk_admits depRev entries).logged ⟨rfl, fun _ => rfl⟩ hw
  rw [Walk.logged_marks] at hms
  refine ⟨ms, ?_, ?_, hreach⟩
  · rw [← hentries, hms]
  · rw [← hlog, hms, List.nil_append]

/-- A mark multiplies the confidence of its entry by 0.3. -/
theorem confidence_marks (ms : List (Walk.Mark Str ReasonRef)) (d : Str) :
    (((cascadeWalk depRev).marks entries ms).lookup d).map CacheEntry.confidence =
      (entries.lookup d).map fun e => lowered^[(ms.map Walk.Mark.dst).count d] e.confidence := by
  induction ms generalizing entries with
  | nil => rfl
  | cons a ms ih =>
      have step : (cascadeWalk depRev).marks entries (a :: ms) =
          (cascadeWalk depRev).marks ((cascadeWalk depRev).mark entries a.src a.dst a.payload) ms := rfl
      rw [step, ih, List.map_cons]
      by_cases hd : d = a.dst
      · subst hd
        rw [List.count_cons_self]
        simp [cascadeWalk, Function.comp_def, downgrade, lowered]
      · rw [List.count_cons_of_ne (Ne.symm hd), cascadeWalk, AList.lookup_modify_ne hd]

end Log

/-! ## The log of an invalidation -/

section Invalidation

variable {s : L2PersistentCache ν} {k : Str} (reason : Str)

theorem downgrades_of_mem (hk : k ∈ s.entries) : downgrades k reason s =
    cascadeLog s.depRev (s.entries.modify k (invalidated reason)) k reason := by
  obtain ⟨e, he⟩ := Option.isSome_iff_exists.1 (AList.lookup_isSome.2 hk)
  simp [downgrades, he]

theorem downgrades_of_not_mem (hk : k ∉ s.entries) : downgrades k reason s = [] := by
  simp [downgrades, AList.lookup_eq_none.2 hk]

/-- The edges that the walk follows after the invalidation of `k`. -/
theorem edge_invalidated_iff (a b : Str) : (b ∈ listAt s.depRev a ∧
      cascadesInto (s.entries.modify k (invalidated reason)) b = true) ↔ b ≠ k ∧ s.RevEdge a b := by
  rw [cascadesInto_invalidated_iff, Closing, RevEdge]
  tauto

/-- What the walk reaches after the invalidation of `k` is `k` and what is downstream of it. -/
theorem reach_invalidated_iff (d : Str) : Relation.ReflTransGen (fun a b => b ∈ listAt s.depRev a ∧
      cascadesInto (s.entries.modify k (invalidated reason)) b = true) k d ↔
      Relation.ReflTransGen s.RevEdge k d := by
  rw [Relation.reflTransGen_iff_eq_or_transGen, Relation.reflTransGen_iff_eq_or_transGen]
  by_cases hd : d = k
  · simp [hd]
  · exact or_congr_right (walk_edge_iff s reason hd)

theorem mem_downgrades_iff (hk : k ∈ s.entries) (d : Str) :
    d ∈ downgrades k reason s ↔ d ≠ k ∧ s.Downstream k d := by
  obtain ⟨ms, -, hlog, hreach⟩ :=
    cascade_log_marks s.depRev (s.entries.modify k (invalidated reason)) k reason
  rw [downgrades_of_mem reason hk, hlog, List.mem_map, hreach]
  constructor
  · intro h
    obtain ⟨a, -, had⟩ := Relation.TransGen.tail'_iff.1 h
    have hd : d ≠ k := ((edge_invalidated_iff reason a d).1 had).1
    exact ⟨hd, (walk_edge_iff s reason hd).1 h⟩
  · rintro ⟨hd, h⟩
    exact (walk_edge_iff s reason hd).2 h

/-- Each entry other than `k` has its confidence lowered as often as its key is in the log. -/
theorem confidence_hardInvalidate (lib : JsonLib ν) {d : Str} (hd : d ≠ k) :
    ((hardInvalidate lib k reason true s).state.entries.lookup d).map CacheEntry.confidence =
      (s.entries.lookup d).map fun e => lowered^[(downgrades k reason s).count d] e.confidence := by
  by_cases hk : k ∈ s.entries
  · obtain ⟨e, he⟩ := Option.isSome_iff_exists.1 (AList.lookup_isSome.2 hk)
    obtain ⟨ms, hms, hlog, -⟩ :=
      cascade_log_marks s.depRev (s.entries.modify k (invalidated reason)) k reason
    rw [hardInvalidate_entries lib reason true he, if_pos rfl, hms, confidence_marks,
      AList.lookup_modify_ne hd, downgrades_of_mem reason hk, hlog]
  · rw [downgrades_of_not_mem reason hk]
    simp [hardInvalidate, AList.lookup_eq_none.2 hk]

/-- The successors that the walk enters from `a` are distinct if each is one dependent of `a`. -/
theorem nodup_entered_iff (a : Str) : ((listAt s.depRev a).filter fun b =>
      cascadesInto (s.entries.modify k (invalidated reason)) b = true).Nodup ↔
      ∀ d, d ≠ k → s.RevEdge a d → (listAt s.depRev a).count d = 1 := by
  rw [List.nodup_iff_count_eq_one]
  refine forall_congr' fun d => ?_
  rw [List.mem_filter, decide_eq_true_iff, edge_invalidated_iff, and_imp]
  refine forall_congr' fun hd => forall_congr' fun hedge => ?_
  rw [List.count_filter]
  exact decide_eq_true ((edge_invalidated_iff reason a d).2 ⟨hd, hedge⟩).2

/-- No entry is lowered twice exactly if the walk enters none twice. -/
theorem lowersOnce_iff_entersOnce (hk : k ∈ s.entries) : LowersOnce k reason s ↔ s.EntersOnce k := by
  obtain ⟨w, hw, -, hlog⟩ :=
    exists_logged_visit s.depRev (s.entries.modify k (invalidated reason)) k reason
  have hnodup := Walk.nodup_logged_iff (cascadeWalk_admits s.depRev _) ⟨rfl, fun _ => rfl⟩ hw
  have hreach : ∀ a, Relation.ReflTransGen ((cascadeWalk s.depRev : Walk Str ReasonRef
      (UMap (CacheEntry ν))).Edge fun b =>
        cascadesInto (s.entries.modify k (invalidated reason)) b = true) k a ↔
      Relation.ReflTransGen s.RevEdge k a := reach_invalidated_iff reason
  have hedge : ∀ a b, (cascadeWalk s.depRev : Walk Str ReasonRef (UMap (CacheEntry ν))).Edge (fun b =>
      cascadesInto (s.entries.modify k (invalidated reason)) b = true) a b ↔ b ≠ k ∧ s.RevEdge a b :=
    edge_invalidated_iff reason
  have hentered : ∀ a, (((cascadeWalk s.depRev : Walk Str ReasonRef (UMap (CacheEntry ν))).next a).filter
      fun b => cascadesInto (s.entries.modify k (invalidated reason)) b = true).Nodup ↔
      ∀ d, d ≠ k → s.RevEdge a d → (listAt s.depRev a).count d = 1 := nodup_entered_iff reason
  simp only [hreach, hedge, hentered] at hnodup
  rw [LowersOnce, ← List.nodup_iff_count_eq_one, downgrades_of_mem reason hk, ← hlog, hnodup]
  constructor
  · rintro ⟨hsingle, hsource⟩
    exact ⟨fun a b d ha hb hd hda hdb => hsource a b d ha hb ⟨hd, hda⟩ ⟨hd, hdb⟩,
      fun a d ha => hsingle a ha d⟩
  · rintro ⟨hsource, hsingle⟩
    exact ⟨fun a ha d => hsingle a d ha,
      fun a b d ha hb hda hdb => hsource a b d ha hb hda.1 hda.2 hdb.2⟩

end Invalidation

/-- On any store, the invalidation of a key multiplies the confidence of another entry by 0.3 as often as the
entry is in the log, where every entry is that is marked.  No entry is there twice exactly if no two edges of
the reverse index lead from the key, or entries downstream of it, into one live entry. -/
theorem hardInvalidate_lowersOnce_iff (lib : JsonLib ν) (s : L2PersistentCache ν) (k reason : Str) :
    (∀ d e, d ≠ k → s.entries.lookup d = some e →
      ∃ e', (hardInvalidate lib k reason true s).state.entries.lookup d = some e' ∧
        e'.confidence = lowered^[(downgrades k reason s).count d] e.confidence ∧
        (d ∈ downgrades k reason s → e'.status = .STALE)) ∧
    (LowersOnce k reason s ↔ (k ∈ s.entries → s.EntersOnce k)) := by
  refine ⟨fun d e hd he => ?_, ?_⟩
  · have hconf := confidence_hardInvalidate (k := k) reason lib (s := s) hd
    rw [he, Option.map_some, Option.map_eq_some_iff] at hconf
    obtain ⟨e', he', hconf⟩ := hconf
    refine ⟨e', he', hconf, fun hmem => ?_⟩
    have hk : k ∈ s.entries := by
      by_contra hk
      rw [downgrades_of_not_mem reason hk] at hmem
      cases hmem
    obtain ⟨e₀, he₀⟩ := Option.isSome_iff_exists.1 (AList.lookup_isSome.2 hk)
    obtain ⟨e'', he'', hstatus, -⟩ :=
      lookup_hardInvalidate_downstream lib reason he₀ hd ((mem_downgrades_iff reason hk d).1 hmem).2 he
    rw [he', Option.some.injEq] at he''
    rw [he'', hstatus]
  · by_cases hk : k ∈ s.entries
    · rw [lowersOnce_iff_entersOnce reason hk]
      simp [hk]
    · simp [LowersOnce, downgrades_of_not_mem reason hk, hk]

/-- Two entries that depend on `a`, and one that depends on both. -/
def diamondOps : List (Op ℚ) :=
  [.set (str "a") CacheEntry.empty,
    .set (str "b") { CacheEntry.empty with dependsOn := [str "a"] },
    .set (str "c") { CacheEntry.empty with dependsOn := [str "a"] },
    .set (str "d") { CacheEntry.empty with dependsOn := [str "b", str "c"], confidence := 1 }]

/-- The entry at the end of the diamond is lowered twice. -/
theorem hardInvalidate_diamond :
    let s := run (JsonLib.on Json.showRat []) {} diamondOps
    ¬LowersOnce (str "a") (str "edited") s ∧
      ((hardInvalidate (JsonLib.on Json.showRat []) (str "a") (str "edited") true s).state.entries.lookup
        (str "d")).map CacheEntry.confidence = some (9 / 100) := by
  refine ⟨fun h => ?_, by decide +kernel⟩
  have hcount := h (str "d") (by decide +kernel)
  revert hcount
  decide +kernel

end L2PersistentCache

end LlmGateway
