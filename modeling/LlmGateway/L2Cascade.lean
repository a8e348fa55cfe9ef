import LlmGateway.L2PersistentCache
import LlmGateway.Lib.GuardedPath

/-!
# The effect of a cascade

`hardInvalidate_cascade`: on any store, with any reverse index, a hard invalidation of a present key
with cascade marks that key and exactly the entries downstream of it: those that the reverse index
leads to from the key through entries that are present and not `INVALIDATED` (`Downstream`).  The
marks touch the status, the confidence and the reason of these entries and nothing else.

The walk runs after the key itself was marked, so it never comes back into the key; `Downstream`
speaks of the store before the operation, where the key can be live.  `walk_edge_iff` closes the
gap: a way through the key can be cut short at the key.
-/

namespace LlmGateway

namespace L2PersistentCache

open InverseIndex GuardedPath

variable {ν : Type}

/-- The reverse index leads from `a` to the entry under `b`, which is present and live. -/
def RevEdge (s : L2PersistentCache ν) (a b : Str) : Prop :=
  b ∈ listAt s.depRev a ∧ ∃ e, s.entries.lookup b = some e ∧ e.status ≠ .INVALIDATED

/-- The reverse index leads from `k` to `d` through present and live entries. -/
def Downstream (s : L2PersistentCache ν) : Str → Str → Prop := Relation.TransGen s.RevEdge

/-- `e'` is `e` up to the status, the confidence and the reason. -/
def SameData (e e' : CacheEntry ν) : Prop :=
  e' = { e with
    status := e'.status
    confidence := e'.confidence
    invalidReason := e'.invalidReason }

theorem SameData.refl (e : CacheEntry ν) : SameData e e := rfl

theorem SameData.trans {e e' e'' : CacheEntry ν} (h : SameData e e') (h' : SameData e' e'') :
    SameData e e'' := by
  unfold SameData at h h' ⊢
  rw [h', h]

/-- A view of entries that does not look at the status, the confidence and the reason. -/
def MarkBlind {β : Type} (view : CacheEntry ν → β) : Prop :=
  ∀ e e', SameData e e' → view e' = view e

variable [Double ν]

theorem sameData_downgrade (reason : Str) (e : CacheEntry ν) : SameData e (downgrade reason e) := rfl

theorem sameData_invalidated (reason : Str) (e : CacheEntry ν) :
    SameData e (invalidated reason e) := rfl

theorem sameData_decayed (now : Int64) (e : CacheEntry ν) : SameData e (decayed now e) := by
  unfold decayed
  split
  · exact SameData.refl e
  · dsimp only
    split <;> rfl

/-! ## The marks of a cascade -/

section Marks

variable (depRev : UMap (List Str))

theorem keys_marks (ms : List (Walk.Mark Str ReasonRef)) (m : UMap (CacheEntry ν)) :
    ((cascadeWalk depRev).marks m ms).keys = m.keys := by
  induction ms generalizing m with
  | nil => rfl
  | cons a ms ih => exact (ih _).trans (by simp [cascadeWalk])

theorem lookup_marks_of_not_exists {ms : List (Walk.Mark Str ReasonRef)} {d : Str}
    (h : ¬ ∃ a ∈ ms, a.dst = d) (m : UMap (CacheEntry ν)) :
    ((cascadeWalk depRev).marks m ms).lookup d = m.lookup d := by
  induction ms generalizing m with
  | nil => rfl
  | cons a ms ih =>
      have hd : d ≠ a.dst := fun e => h ⟨a, by simp, e.symm⟩
      have step := ih (fun ⟨b, hb, e⟩ => h ⟨b, by simp [hb], e⟩)
        ((cascadeWalk depRev).mark m a.src a.dst a.payload)
      exact step.trans (AList.lookup_modify_ne hd _ m)

/-- An entry that is marked at least once ends up `STALE` with its other data. -/
theorem lookup_marks_of_exists {ms : List (Walk.Mark Str ReasonRef)} {d : Str}
    (h : ∃ a ∈ ms, a.dst = d) (m : UMap (CacheEntry ν)) {e : CacheEntry ν}
    (he : m.lookup d = some e) :
    ∃ e', ((cascadeWalk depRev).marks m ms).lookup d = some e' ∧ e'.status = .STALE ∧
      SameData e e' := by
  induction ms generalizing m e with
  | nil => simp at h
  | cons a ms ih =>
      have step : (cascadeWalk depRev).marks m (a :: ms) =
          (cascadeWalk depRev).marks ((cascadeWalk depRev).mark m a.src a.dst a.payload) ms := rfl
      rw [step]
      by_cases hd : d = a.dst
      · subst hd
        -- the first mark downgrades the entry; later ones can only repeat that
        have he₁ : ((cascadeWalk depRev).mark m a.src a.dst a.payload).lookup a.dst =
            some (downgrade (upstreamReason a.src (a.payload.read m)) e) := by
          simp [cascadeWalk, he]
        by_cases hms : ∃ b ∈ ms, b.dst = a.dst
        · obtain ⟨e', he', hst, hsame⟩ := ih hms _ he₁
          exact ⟨e', he', hst, (sameData_downgrade _ e).trans hsame⟩
        · rw [lookup_marks_of_not_exists depRev hms, he₁]
          exact ⟨_, rfl, rfl, sameData_downgrade _ e⟩
      · have hms : ∃ b ∈ ms, b.dst = d := by
          obtain ⟨b, hb, e⟩ := h
          rcases List.mem_cons.1 hb with rfl | hb
          · exact absurd e.symm hd
          · exact ⟨b, hb, e⟩
        exact ih hms _ (by rw [← he]; exact AList.lookup_modify_ne hd _ m)

/-- The marks of a cascade are blind changes of every entry. -/
theorem lookup_marks_view {β : Type} {view : CacheEntry ν → β} (hview : MarkBlind view)
    (ms : List (Walk.Mark Str ReasonRef)) (m : UMap (CacheEntry ν)) (d : Str) :
    (((cascadeWalk depRev).marks m ms).lookup d).map view = (m.lookup d).map view := by
  induction ms generalizing m with
  | nil => rfl
  | cons a ms ih =>
      refine (ih _).trans ?_
      by_cases hd : d = a.dst
      · subst hd
        simp [cascadeWalk, Function.comp_def, hview _ _ (sameData_downgrade _ _)]
      · rw [cascadeWalk, AList.lookup_modify_ne hd]

end Marks

/-- The recursion ends with the entries of `cascade` at every depth from two more than their number
on. -/
theorem cascadeInvalidateInternal_eq_cascade (depRev : UMap (List Str))
    (entries : UMap (CacheEntry ν)) (key reason : Str) {depth : ℕ}
    (h : entries.keys.length + 2 ≤ depth) :
    ∃ visited, cascadeInvalidateInternal depRev depth key (.caller reason) (entries, []) =
      some (cascade depRev entries key reason, visited) := by
  obtain ⟨w, hw⟩ := Option.isSome_iff_exists.1
    (cascade_isSome depRev entries key (.caller reason) le_rfl)
  refine ⟨w.2, ?_⟩
  simp only [cascade, hw, Option.get_some]
  rw [cascadeInvalidateInternal_eq_visit] at hw ⊢
  exact Walk.visit_of_le h hw

/-- The cascade is a list of marks on the entries reached through live entries. -/
theorem cascade_marks (depRev : UMap (List Str)) (entries : UMap (CacheEntry ν))
    (key reason : Str) :
    ∃ ms, cascade depRev entries key reason = (cascadeWalk depRev).marks entries ms ∧
      ∀ d, (∃ a ∈ ms, a.dst = d) ↔
        Relation.TransGen (fun a b => b ∈ listAt depRev a ∧ cascadesInto entries b = true) key d := by
  obtain ⟨visited, hw⟩ := cascadeInvalidateInternal_eq_cascade depRev entries key reason le_rfl
  rw [cascadeInvalidateInternal_eq_visit] at hw
  generalize cascade depRev entries key reason = entries' at hw
  exact Walk.exists_marks_iff_reach (cascadeWalk_admits depRev entries) ⟨rfl, fun _ => rfl⟩ hw

/-- Invalidating `k` closes it to the walk, and nothing else. -/
theorem cascadesInto_invalidated_iff (m : UMap (CacheEntry ν)) (k b reason : Str) :
    cascadesInto (m.modify k (invalidated reason)) b = true ↔
      Closing (fun b => ∃ e, m.lookup b = some e ∧ e.status ≠ .INVALIDATED) k b := by
  rw [cascadesInto_iff, Closing]
  by_cases hb : b = k
  · subst hb
    simp [invalidated]
  · rw [AList.lookup_modify_ne hb]
    exact (and_iff_left hb).symm

/-- Once `k` is invalidated the walk cannot come back to it, but what it reaches from `k` is what is
downstream of `k` before. -/
theorem walk_edge_iff (s : L2PersistentCache ν) {k d : Str} (reason : Str) (hd : d ≠ k) :
    Relation.TransGen (fun a b => b ∈ listAt s.depRev a ∧
      cascadesInto (s.entries.modify k (invalidated reason)) b = true) k d ↔ s.Downstream k d := by
  simp only [cascadesInto_invalidated_iff]
  exact guarded_close_iff hd

/-! ## Hard invalidation -/

theorem hardInvalidate_entries (lib : JsonLib ν) {k : Str} (reason : Str) (cascading : Bool)
    {s : L2PersistentCache ν} {e : CacheEntry ν} (he : s.entries.lookup k = some e) :
    (hardInvalidate lib k reason cascading s).state.entries =
      if cascading then cascade s.depRev (s.entries.modify k (invalidated reason)) k reason
      else s.entries.modify k (invalidated reason) := by
  simp [hardInvalidate, he]

@[simp]
theorem hardInvalidate_depRev (lib : JsonLib ν) (k reason : Str) (cascading : Bool)
    (s : L2PersistentCache ν) : (hardInvalidate lib k reason cascading s).state.depRev = s.depRev := by
  unfold hardInvalidate
  split <;> simp

theorem lookup_hardInvalidate_cascade (lib : JsonLib ν) {k : Str} (reason : Str)
    {s : L2PersistentCache ν} {e : CacheEntry ν} (he : s.entries.lookup k = some e) :
    (hardInvalidate lib k reason true s).state.entries.lookup k = some (invalidated reason e) := by
  rw [hardInvalidate_entries lib reason true he, if_pos rfl]
  obtain ⟨ms, hms, hreach⟩ := cascade_marks s.depRev (s.entries.modify k (invalidated reason)) k reason
  rw [hms, lookup_marks_of_not_exists]
  · simp [he]
  · -- the walk does not enter an invalidated entry
    intro h
    obtain ⟨a, -, -, hinto⟩ := Relation.TransGen.tail'_iff.1 ((hreach k).1 h)
    obtain ⟨e', he', hst⟩ := cascadesInto_iff.1 hinto
    rw [AList.lookup_modify, he, Option.map_some, Option.some.injEq] at he'
    exact hst (by rw [← he']; rfl)

theorem lookup_hardInvalidate_downstream (lib : JsonLib ν) {k d : Str} (reason : Str)
    {s : L2PersistentCache ν} {e e₀ : CacheEntry ν} (he : s.entries.lookup k = some e) (hd : d ≠ k)
    (hdown : s.Downstream k d) (he₀ : s.entries.lookup d = some e₀) :
    ∃ e', (hardInvalidate lib k reason true s).state.entries.lookup d = some e' ∧
      e'.status = .STALE ∧ SameData e₀ e' := by
  rw [hardInvalidate_entries lib reason true he, if_pos rfl]
  obtain ⟨ms, hms, hreach⟩ := cascade_marks s.depRev (s.entries.modify k (invalidated reason)) k reason
  rw [hms]
  refine lookup_marks_of_exists s.depRev ((hreach d).2 ((walk_edge_iff s reason hd).2 hdown)) _ ?_
  rw [AList.lookup_modify_ne hd, he₀]

theorem lookup_hardInvalidate_other (lib : JsonLib ν) {k d : Str} (reason : Str)
    {s : L2PersistentCache ν} {e : CacheEntry ν} (he : s.entries.lookup k = some e) (hd : d ≠ k)
    (hdown : ¬ s.Downstream k d) :
    (hardInvalidate lib k reason true s).state.entries.lookup d = s.entries.lookup d := by
  rw [hardInvalidate_entries lib reason true he, if_pos rfl]
  obtain ⟨ms, hms, hreach⟩ := cascade_marks s.depRev (s.entries.modify k (invalidated reason)) k reason
  rw [hms, lookup_marks_of_not_exists, AList.lookup_modify_ne hd]
  rw [hreach d, walk_edge_iff s reason hd]
  exact hdown

theorem keys_hardInvalidate (lib : JsonLib ν) (k reason : Str) (cascading : Bool)
    (s : L2PersistentCache ν) :
    (hardInvalidate lib k reason cascading s).state.entries.keys = s.entries.keys := by
  cases he : s.entries.lookup k with
  | none => simp [hardInvalidate, he]
  | some e =>
    rw [hardInvalidate_entries lib reason cascading he]
    obtain ⟨ms, hms, -⟩ := cascade_marks s.depRev (s.entries.modify k (invalidated reason)) k reason
    split_ifs
    · rw [hms, keys_marks, AList.keys_modify]
    · exact AList.keys_modify _ _ _

theorem lookup_hardInvalidate_view {β : Type} (lib : JsonLib ν) {view : CacheEntry ν → β}
    (hview : MarkBlind view) (k reason : Str) (cascading : Bool) (s : L2PersistentCache ν) (d : Str) :
    ((hardInvalidate lib k reason cascading s).state.entries.lookup d).map view =
      (s.entries.lookup d).map view := by
  cases he : s.entries.lookup k with
  | none => simp [hardInvalidate, he]
  | some e =>
    have hmod : ((s.entries.modify k (invalidated reason)).lookup d).map view =
        (s.entries.lookup d).map view := by
      by_cases hd : d = k
      · subst hd
        simp [he, hview _ _ (sameData_invalidated reason e)]
      · rw [AList.lookup_modify_ne hd]
    rw [hardInvalidate_entries lib reason cascading he]
    split_ifs
    · obtain ⟨ms, hms, -⟩ :=
        cascade_marks s.depRev (s.entries.modify k (invalidated reason)) k reason
      rw [hms, lookup_marks_view s.depRev hview, hmod]
    · exact hmod

/-- The effect of a hard invalidation with cascade on a present key. -/
theorem hardInvalidate_cascade (lib : JsonLib ν) (s : L2PersistentCache ν) (k reason : Str)
    (e : CacheEntry ν) (he : s.entries.lookup k = some e) :
    let s' := (hardInvalidate lib k reason true s).state
    (∀ depth, s.entries.keys.length + 2 ≤ depth →
      ∃ visited, cascadeInvalidateInternal s.depRev depth k (.caller reason)
        (s.entries.modify k (invalidated reason), []) = some (s'.entries, visited)) ∧
    s'.entries.lookup k =
      some { e with status := .INVALIDATED, confidence := Double.lit 0, invalidReason := reason } ∧
    (∀ d e₀, d ≠ k → s.Downstream k d → s.entries.lookup d = some e₀ →
      ∃ e', s'.entries.lookup d = some e' ∧ e'.status = .STALE ∧ SameData e₀ e') ∧
    (∀ d, d ≠ k → ¬ s.Downstream k d → s'.entries.lookup d = s.entries.lookup d) ∧
    s'.entries.keys = s.entries.keys ∧
    s'.depRev = s.depRev := by
  refine ⟨fun depth hdepth => ?_, lookup_hardInvalidate_cascade lib reason he,
    fun d e₀ hd hdown he₀ => lookup_hardInvalidate_downstream lib reason he hd hdown he₀,
    fun d hd hdown => lookup_hardInvalidate_other lib reason he hd hdown,
    keys_hardInvalidate lib k reason true s, hardInvalidate_depRev lib k reason true s⟩
  obtain ⟨visited, h⟩ := cascadeInvalidateInternal_eq_cascade s.depRev
    (s.entries.modify k (invalidated reason)) k reason (by simpa using hdepth)
  exact ⟨visited, by rw [h, hardInvalidate_entries lib reason true he, if_pos rfl]⟩

/-- Two entries that depend on each other, and a third that depends on both. -/
def cycleStore : L2PersistentCache ℚ where
  entries := ((AList.singleton (str "a") { CacheEntry.empty with dependsOn := [str "b"] }).insert
    (str "b") { CacheEntry.empty with dependsOn := [str "a"] }).insert
    (str "c") { CacheEntry.empty with dependsOn := [str "a", str "b"] }
  depRev := (AList.singleton (str "a") [str "b", str "c"]).insert (str "b") [str "a", str "c"]

theorem hardInvalidate_cascade_cycleStore :
    ∃ e', (hardInvalidate (JsonLib.on Json.showRat []) (str "a") (str "edited") true
        cycleStore).state.entries.lookup (str "b") = some e' ∧ e'.status = .STALE ∧
      SameData { CacheEntry.empty with dependsOn := [str "a"] } e' :=
  (hardInvalidate_cascade (JsonLib.on Json.showRat []) cycleStore (str "a") (str "edited")
    { CacheEntry.empty with dependsOn := [str "b"] } rfl).2.2.1 (str "b") _ (by decide)
    (.single ⟨by decide, { CacheEntry.empty with dependsOn := [str "a"] }, rfl, by decide⟩) rfl

end L2PersistentCache

end LlmGateway
