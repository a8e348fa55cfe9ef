import LlmGateway.SessionBuffer
import Mathlib.Data.List.Perm.Subperm

/-!
# The context of a capability

`build_context_for` collects lines about recent turns under a budget: first the three newest turns of the
capability, then the five newest turns, where it skips the turns of the capability as added already.  But the
first loop added three of them at most, so a fourth and a fifth among the five newest turns are added by neither
loop.

`contextTurns` lists the turns whose lines make up the text.  `contextLaw_iff`: the text is within the budget and
has no line twice in any case, and it has all the lines that it should have exactly if they do not fit anyway or
at most three of the five newest turns are of the capability.
-/

namespace LlmGateway

namespace SessionBuffer

variable {ν : Type}

/-- The last turns, up to `n` of them. -/
def recentAll (n : ℤ) (sb : SessionBuffer ν) : List (SessionTurn ν) :=
  if 0 ≤ n ∧ n < sb.turns.length then sb.turns.drop (sb.turns.length - n.toNat) else sb.turns

/-- The line of a turn of the capability that is asked for. -/
def capabilityLine (t : SessionTurn ν) : Str :=
  str "[Agent " ++ t.agentId ++ str " → " ++ t.capability ++ str "] " ++ t.outputSummary ++ [newline]

/-- The line of another turn. -/
def agentLine (t : SessionTurn ν) : Str :=
  str "[Agent " ++ t.agentId ++ str "] " ++ t.outputSummary ++ [newline]

/-- A loop that adds the lines of turns to `ctx`, up to the first one that does not fit. -/
def addLines (budget : ℕ) (skips : SessionTurn ν → Bool) (line : SessionTurn ν → Str) :
    List (SessionTurn ν) → Str → Str
  | [], ctx => ctx
  | t :: ts, ctx =>
      if skips t then addLines budget skips line ts ctx
      else if budget < ctx.length + (line t).length then ctx
      else addLines budget skips line ts (ctx ++ line t)

/-- A text of the turns of a capability and of the others, within a budget. -/
def buildContextFor (capability : Str) (maxTokens : UInt64) (sb : SessionBuffer ν) : Str :=
  let budget := (maxTokens * 4).toNat
  let ctx := addLines budget (fun _ => false) capabilityLine (sb.recent capability 3) []
  addLines budget (fun t => t.capability = capability) agentLine (sb.recentAll 5) ctx

/-! ## The turns of a context -/

/-- The turns whose lines the loop adds to a text of length `size`. -/
def addedTurns (budget : ℕ) (skips : SessionTurn ν → Bool) (line : SessionTurn ν → Str) :
    List (SessionTurn ν) → ℕ → List (SessionTurn ν)
  | [], _ => []
  | t :: ts, size =>
      if skips t then addedTurns budget skips line ts size
      else if budget < size + (line t).length then []
      else t :: addedTurns budget skips line ts (size + (line t).length)

/-- The turns whose lines the context has, in order. -/
def contextTurns (capability : Str) (maxTokens : UInt64) (sb : SessionBuffer ν) : List (SessionTurn ν) :=
  let budget := (maxTokens * 4).toNat
  let sameCap := addedTurns budget (fun _ => false) capabilityLine (sb.recent capability 3) 0
  sameCap ++ addedTurns budget (fun t => t.capability = capability) agentLine (sb.recentAll 5)
    (sameCap.flatMap capabilityLine).length

/-- The line that a context for the capability has for a turn. -/
def contextLine (capability : Str) (t : SessionTurn ν) : Str :=
  if t.capability = capability then capabilityLine t else agentLine t

/-- How many of the five newest turns are of the capability. -/
def newestOf (capability : Str) (sb : SessionBuffer ν) : ℕ :=
  (sb.recentAll 5).countP fun t => t.capability = capability

/-- The five newest turns, and those of the three newest of the capability that are not among them. -/
def concerned (capability : Str) (sb : SessionBuffer ν) : List (SessionTurn ν) :=
  sb.recentAll 5 ++ (sb.recent capability 3).drop (newestOf capability sb)

/-- The lines of the turns concerned fit into the budget together. -/
def Fits (capability : Str) (maxTokens : UInt64) (sb : SessionBuffer ν) : Prop :=
  ((concerned capability sb).flatMap (contextLine capability)).length ≤ 4 * maxTokens.toNat

instance (capability : Str) (maxTokens : UInt64) (sb : SessionBuffer ν) :
    Decidable (Fits capability maxTokens sb) := inferInstanceAs (Decidable (_ ≤ _))

/-- The context is within the budget, has no line of a turn twice, and has a line for each of the turns
concerned, if these fit. -/
structure ContextLaw (capability : Str) (maxTokens : UInt64) (sb : SessionBuffer ν) : Prop where
  bounded : (buildContextFor capability maxTokens sb).length ≤ 4 * maxTokens.toNat
  once : (contextTurns capability maxTokens sb).Subperm sb.turns
  complete : Fits capability maxTokens sb →
    (sb.recent capability 3).Subperm (contextTurns capability maxTokens sb) ∧
    (sb.recentAll 5).Subperm (contextTurns capability maxTokens sb)

/-! ## One loop -/

section Loop

variable {budget : ℕ} {skips : SessionTurn ν → Bool} {line : SessionTurn ν → Str}

theorem addLines_eq (ts : List (SessionTurn ν)) (ctx : Str) : addLines budget skips line ts ctx =
    ctx ++ (addedTurns budget skips line ts ctx.length).flatMap line := by
  induction ts generalizing ctx with
  | nil => simp [addLines, addedTurns]
  | cons t ts ih =>
      rw [addLines, addedTurns]
      split_ifs
      · exact ih ctx
      · simp
      · rw [ih, List.flatMap_cons, List.length_append, List.append_assoc]

theorem length_addLines_le (ts : List (SessionTurn ν)) {ctx : Str} (hctx : ctx.length ≤ budget) :
    (addLines budget skips line ts ctx).length ≤ budget := by
  induction ts generalizing ctx with
  | nil => exact hctx
  | cons t ts ih =>
      rw [addLines]
      split_ifs with hskip hfull
      · exact ih hctx
      · exact hctx
      · refine ih ?_
        rw [List.length_append]
        omega

/-- The loop adds lines of turns that it does not skip, each once. -/
theorem addedTurns_sublist (ts : List (SessionTurn ν)) (size : ℕ) :
    (addedTurns budget skips line ts size).Sublist (ts.filter fun t => !skips t) := by
  induction ts generalizing size with
  | nil => exact List.Sublist.refl _
  | cons t ts ih =>
      rw [addedTurns, List.filter_cons]
      by_cases hskip : skips t = true
      · have hdrop : ¬(!skips t) = true := by simp [hskip]
        rw [if_pos hskip, if_neg hdrop]
        exact ih size
      · have hkeep : (!skips t) = true := by simp [hskip]
        rw [if_neg hskip, if_pos hkeep]
        split_ifs
        · exact List.nil_sublist _
        · exact (ih _).cons_cons t

/-- It adds all of them if they fit. -/
theorem addedTurns_eq (ts : List (SessionTurn ν)) {size : ℕ}
    (hfits : size + ((ts.filter fun t => !skips t).flatMap line).length ≤ budget) :
    addedTurns budget skips line ts size = ts.filter fun t => !skips t := by
  induction ts generalizing size with
  | nil => rfl
  | cons t ts ih =>
      rw [List.filter_cons] at hfits ⊢
      rw [addedTurns]
      by_cases hskip : skips t = true
      · have hdrop : ¬(!skips t) = true := by simp [hskip]
        rw [if_neg hdrop] at hfits ⊢
        rw [if_pos hskip]
        exact ih hfits
      · have hkeep : (!skips t) = true := by simp [hskip]
        rw [if_pos hkeep] at hfits ⊢
        rw [List.flatMap_cons, List.length_append] at hfits
        rw [if_neg hskip, if_neg (by omega), ih (by omega)]

end Loop

/-! ## The windows -/

theorem recentLoop_eq (capability : Str) {n : ℕ} (ts : List (SessionTurn ν)) {result : List (SessionTurn ν)}
    (hresult : result.length < n) : recentLoop capability n ts result =
      result ++ (ts.filter fun t => t.capability = capability).take (n - result.length) := by
  induction ts generalizing result with
  | nil => simp [recentLoop]
  | cons t ts ih =>
      rw [recentLoop, List.filter_cons]
      by_cases hcap : t.capability = capability
      · rw [if_pos hcap, if_pos (decide_eq_true hcap)]
        obtain ⟨k, hk⟩ : ∃ k, n - result.length = k + 1 := ⟨n - result.length - 1, by omega⟩
        rw [hk, List.take_succ_cons]
        split_ifs with hfull
        · have hlast : k = 0 := by
            rw [List.length_append, List.length_singleton] at hfull
            omega
          rw [hlast, List.take_zero]
        · rw [List.length_append, List.length_singleton] at hfull
          rw [ih (by rw [List.length_append, List.length_singleton]; omega), List.append_assoc,
            List.singleton_append, List.length_append, List.length_singleton]
          congr 3
          omega
      · have hother : ¬decide (t.capability = capability) = true := by simpa using hcap
        rw [if_neg hcap, if_neg hother]
        exact ih hresult

/-- The recent turns of a capability are its newest ones, the newest first. -/
theorem recent_eq (capability : Str) (sb : SessionBuffer ν) : sb.recent capability 3 =
    (sb.turns.reverse.filter fun t => t.capability = capability).take 3 := by
  have hnone : ([] : List (SessionTurn ν)).length < 3 := by simp
  exact recentLoop_eq capability sb.turns.reverse hnone

theorem reverse_recentAll (sb : SessionBuffer ν) : (sb.recentAll 5).reverse = sb.turns.reverse.take 5 := by
  rw [recentAll]
  split_ifs with hmany
  · rw [List.reverse_drop]
    congr 1
    omega
  · rw [List.take_of_length_le]
    rw [List.length_reverse]
    omega

variable {capability : Str} {sb : SessionBuffer ν}

/-- The turns of the capability among the five newest, the newest first. -/
def newestSame (capability : Str) (sb : SessionBuffer ν) : List (SessionTurn ν) :=
  (sb.recentAll 5).reverse.filter fun t => t.capability = capability

/-- The turns of other capabilities among the five newest. -/
def newestOther (capability : Str) (sb : SessionBuffer ν) : List (SessionTurn ν) :=
  (sb.recentAll 5).filter fun t => !decide (t.capability = capability)

theorem length_newestSame : (newestSame capability sb).length = newestOf capability sb := by
  rw [newestSame, List.filter_reverse, List.length_reverse, newestOf, List.countP_eq_length_filter]

theorem recentAll_perm (capability : Str) (sb : SessionBuffer ν) :
    (sb.recentAll 5).Perm (newestSame capability sb ++ newestOther capability sb) := by
  have hsplit := List.filter_append_perm (fun t => decide (t.capability = capability)) (sb.recentAll 5)
  refine hsplit.symm.trans (List.Perm.append_right _ ?_)
  rw [newestSame, List.filter_reverse]
  exact (List.reverse_perm _).symm

/-- If they are at most three, they are the first ones of the three newest turns of the capability. -/
theorem recent_split (hfew : newestOf capability sb ≤ 3) : sb.recent capability 3 =
    newestSame capability sb ++ (sb.recent capability 3).drop (newestOf capability sb) := by
  have hnewest : newestSame capability sb <+: sb.turns.reverse.filter fun t => t.capability = capability := by
    rw [newestSame, reverse_recentAll]
    exact (List.take_prefix 5 sb.turns.reverse).filter _
  have hfirst : newestSame capability sb <+: sb.recent capability 3 := by
    rw [recent_eq, List.prefix_take_iff, length_newestSame]
    exact ⟨hnewest, hfew⟩
  rw [← length_newestSame, List.prefix_iff_eq_append.1 hfirst]

/-- If they are at most three, the turns concerned are the two lists that the loops go through. -/
theorem concerned_perm (hfew : newestOf capability sb ≤ 3) :
    (concerned capability sb).Perm (sb.recent capability 3 ++ newestOther capability sb) := by
  have hsplit := recent_split hfew
  generalize hrest : (sb.recent capability 3).drop (newestOf capability sb) = rest at hsplit
  rw [concerned, hrest, hsplit, List.append_assoc]
  refine ((recentAll_perm capability sb).append_right rest).trans ?_
  rw [List.append_assoc]
  exact List.perm_append_comm.append_left _

theorem capability_of_mem_recent {t : SessionTurn ν} (ht : t ∈ sb.recent capability 3) :
    t.capability = capability := by
  rw [recent_eq] at ht
  simpa using (List.mem_filter.1 (List.mem_of_mem_take ht)).2

/-- The two lists have no turn of the buffer twice. -/
theorem windows_subperm : (sb.recent capability 3 ++ newestOther capability sb).Subperm sb.turns := by
  have hsplit := List.filter_append_perm (fun t => decide (t.capability = capability)) sb.turns
  refine List.Subperm.trans ?_ hsplit.subperm
  refine List.Subperm.append ?_ ?_
  · rw [recent_eq, List.filter_reverse]
    exact (List.take_sublist _ _).subperm.trans (List.reverse_perm _).subperm
  · refine (List.Sublist.filter _ ?_).subperm
    rw [recentAll]
    split_ifs
    · exact List.drop_sublist _ _
    · exact List.Sublist.refl _

/-! ## The context -/

variable {maxTokens : UInt64}

/-- The turns that the first loop adds. -/
theorem firstLoop_sublist (budget size : ℕ) : (addedTurns budget (fun _ => false) capabilityLine
    (sb.recent capability 3) size).Sublist (sb.recent capability 3) := by
  have hall : ((sb.recent capability 3).filter fun _ => !false) = sb.recent capability 3 := by simp
  have hadded : (addedTurns budget (fun _ => false) capabilityLine (sb.recent capability 3) size).Sublist
      ((sb.recent capability 3).filter fun _ => !false) := addedTurns_sublist _ _
  rwa [hall] at hadded

/-- The turns that the second loop adds. -/
theorem secondLoop_sublist (budget size : ℕ) : (addedTurns budget (fun t => t.capability = capability) agentLine
    (sb.recentAll 5) size).Sublist (newestOther capability sb) := addedTurns_sublist _ _

/-- The turns of the context are among the two lists. -/
theorem contextTurns_sublist : (contextTurns capability maxTokens sb).Sublist
    (sb.recent capability 3 ++ newestOther capability sb) :=
  (firstLoop_sublist _ _).append (secondLoop_sublist _ _)

theorem flatMap_capabilityLine {ts : List (SessionTurn ν)} (hts : ts.Sublist (sb.recent capability 3)) :
    ts.flatMap capabilityLine = ts.flatMap (contextLine capability) := by
  refine List.flatMap_congr fun t ht => ?_
  rw [contextLine, if_pos (capability_of_mem_recent (hts.subset ht))]

theorem flatMap_agentLine {ts : List (SessionTurn ν)} (hts : ts.Sublist (newestOther capability sb)) :
    ts.flatMap agentLine = ts.flatMap (contextLine capability) := by
  refine List.flatMap_congr fun t ht => ?_
  have hother : t.capability ≠ capability := by
    simpa using (List.mem_filter.1 (hts.subset ht)).2
  rw [contextLine, if_neg hother]

/-- The context is the lines of its turns. -/
theorem buildContextFor_eq : buildContextFor capability maxTokens sb =
    (contextTurns capability maxTokens sb).flatMap (contextLine capability) := by
  rw [buildContextFor, contextTurns]
  rw [addLines_eq, addLines_eq, List.nil_append, List.length_nil, List.flatMap_append,
    flatMap_capabilityLine (firstLoop_sublist _ _), flatMap_agentLine (secondLoop_sublist _ _)]

theorem toNat_budget (hbudget : maxTokens.toNat * 4 < 2 ^ 64) : (maxTokens * 4).toNat = 4 * maxTokens.toNat := by
  have hmul : (maxTokens * 4).toNat = maxTokens.toNat * 4 % 2 ^ 64 := UInt64.toNat_mul maxTokens 4
  rw [hmul, Nat.mod_eq_of_lt hbudget, Nat.mul_comm]

/-- If the lines concerned fit, and at most three of the five newest turns are of the capability, the loops add
all of their lines. -/
theorem contextTurns_eq (hbudget : maxTokens.toNat * 4 < 2 ^ 64) (hfits : Fits capability maxTokens sb)
    (hfew : newestOf capability sb ≤ 3) :
    contextTurns capability maxTokens sb = sb.recent capability 3 ++ newestOther capability sb := by
  have htotal := ((concerned_perm hfew).flatMap_right (contextLine capability)).length_eq
  rw [Fits, htotal, List.flatMap_append, List.length_append, ← toNat_budget hbudget,
    ← flatMap_capabilityLine (List.Sublist.refl _), ← flatMap_agentLine (List.Sublist.refl _)] at hfits
  have hall : ((sb.recent capability 3).filter fun _ => !false) = sb.recent capability 3 := by simp
  have hfirst : addedTurns (maxTokens * 4).toNat (fun _ => false) capabilityLine (sb.recent capability 3) 0 =
      sb.recent capability 3 := by
    rw [addedTurns_eq, hall]
    rw [hall]
    omega
  rw [contextTurns, hfirst]
  exact congrArg _ (addedTurns_eq _ hfits)

/-- In any case the context has at most three turns of the capability. -/
theorem countP_contextTurns_le :
    (contextTurns capability maxTokens sb).countP (fun t => t.capability = capability) ≤ 3 := by
  have hother : (newestOther capability sb).countP (fun t => t.capability = capability) = 0 := by
    rw [List.countP_eq_zero]
    intro t ht
    simpa using (List.mem_filter.1 ht).2
  have hrecent : (sb.recent capability 3).length ≤ 3 := by
    rw [recent_eq]
    exact List.length_take_le _ _
  have hsame : (sb.recent capability 3).countP (fun t => t.capability = capability) ≤
      (sb.recent capability 3).length := List.countP_le_length
  have hboth : (contextTurns capability maxTokens sb).countP (fun t => t.capability = capability) ≤
      (sb.recent capability 3 ++ newestOther capability sb).countP (fun t => t.capability = capability) :=
    contextTurns_sublist.countP_le
  rw [List.countP_append, hother] at hboth
  omega

/-- The context is within the budget. -/
theorem length_buildContextFor_le (hbudget : maxTokens.toNat * 4 < 2 ^ 64) :
    (buildContextFor capability maxTokens sb).length ≤ 4 * maxTokens.toNat := by
  rw [← toNat_budget hbudget]
  exact length_addLines_le _ (length_addLines_le _ (Nat.zero_le _))

/-- The context is made of the lines of its turns.  It is within the budget, has no line twice, and has the lines
of the three newest turns of the capability and of the five newest turns if they fit, exactly if they do not fit
or at most three of the five newest turns are of the capability. -/
theorem contextLaw_iff (capability : Str) (maxTokens : UInt64) (sb : SessionBuffer ν)
    (hbudget : maxTokens.toNat * 4 < 2 ^ 64) :
    buildContextFor capability maxTokens sb =
        (contextTurns capability maxTokens sb).flatMap (contextLine capability) ∧
      (ContextLaw capability maxTokens sb ↔ (Fits capability maxTokens sb → newestOf capability sb ≤ 3)) := by
  refine ⟨buildContextFor_eq, ?_⟩
  constructor
  · intro h hfits
    have hall := (h.complete hfits).2
    exact (hall.countP_le _).trans countP_contextTurns_le
  · intro h
    refine ⟨length_buildContextFor_le hbudget, contextTurns_sublist.subperm.trans windows_subperm,
      fun hfits => ?_⟩
    have hfew := h hfits
    rw [contextTurns_eq hbudget hfits hfew]
    refine ⟨(List.sublist_append_left _ _).subperm, ?_⟩
    -- the turns of the capability among the five newest are among the first three
    refine (recentAll_perm capability sb).subperm.trans (List.Sublist.subperm ?_)
    rw [recent_split hfew]
    exact (List.sublist_append_left _ _).append (List.Sublist.refl _)

/-- Four turns of one capability. -/
def searches : SessionBuffer ℚ where
  sessionId := str "1-0"
  turns := [str "a", str "b", str "c", str "d"].map fun summary =>
    ⟨[], str "agent", str "search", [], summary, [], 0, 1⟩

theorem contextLaw_searches :
    buildContextFor (str "search") 4096 searches =
        (contextTurns (str "search") 4096 searches).flatMap (contextLine (str "search")) ∧
      (ContextLaw (str "search") 4096 searches ↔
        (Fits (str "search") 4096 searches → newestOf (str "search") searches ≤ 3)) :=
  contextLaw_iff (str "search") 4096 searches (by decide)

/-- The oldest of them is not in the context, though it is among the five newest and there is room. -/
theorem buildContextFor_drops_fourth :
    buildContextFor (str "search") 4096 searches =
        str "[Agent agent → search] d\n[Agent agent → search] c\n[Agent agent → search] b\n" ∧
      Fits (str "search") 4096 searches ∧
      ¬ContextLaw (str "search") 4096 searches := by
  refine ⟨by decide +kernel, by decide +kernel, fun h => ?_⟩
  have hfour := (h.complete (by decide +kernel)).2.length_le
  revert hfour
  decide +kernel

end SessionBuffer

end LlmGateway
