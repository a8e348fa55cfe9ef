import LlmGateway.SessionBuffer
import LlmGateway.Lib.LongestSuffix

/-!
# A session buffer and its history

`append` prunes after every turn, so a turn once dropped is gone, also if the turns that pushed it out are
dropped later.  `turns_longest`: this never matters.  The buffer always holds the longest suffix of all turns
appended so far that fits the two limits, since a suffix that fits still fits without its newest turn.
-/

namespace LlmGateway

namespace SessionBuffer

variable {ν : Type} {turns : List (SessionTurn ν)}

/-- At most 50 turns, and at most 50000 tokens unless there are at most three turns. -/
def Admissible (turns : List (SessionTurn ν)) : Prop :=
  turns.length ≤ kMaxTurns ∧ (estimatedTokens turns ≤ kMaxTotalTokens ∨ turns.length ≤ 3)

/-- The buffer of a session after its turns were appended in order. -/
def appendAll (sessionId : Str) (history : List (SessionTurn ν)) : SessionBuffer ν :=
  history.foldl (fun sb turn => sb.append turn) { sessionId }

/-! ## Pruning -/

/-- The loop stops at the longest suffix on which it may stop. -/
theorem popWhile_longest {tooMany : List (SessionTurn ν) → Bool} (hnil : tooMany [] = false)
    (turns : List (SessionTurn ν)) :
    LongestSuffix (fun ts => tooMany ts = false) turns (popWhile tooMany turns) := by
  induction turns with
  | nil => exact .self hnil
  | cons t ts ih =>
      rw [popWhile]
      split_ifs with hstop
      · exact .cons (by simp [hstop]) ih
      · exact .self (by simpa using hstop)

/-- Pruning cuts the turns down to their longest admissible suffix. -/
theorem prune_longest (turns : List (SessionTurn ν)) : LongestSuffix Admissible turns (prune turns) := by
  have hturns : LongestSuffix (fun ts : List (SessionTurn ν) => ts.length ≤ kMaxTurns) turns
      (popWhile (fun ts => kMaxTurns < ts.length) turns) :=
    (popWhile_longest (by simp) turns).congr fun ts => by simp
  have htokens : LongestSuffix
      (fun ts : List (SessionTurn ν) => estimatedTokens ts ≤ kMaxTotalTokens ∨ ts.length ≤ 3)
      (popWhile (fun ts => kMaxTurns < ts.length) turns) (prune turns) :=
    (popWhile_longest (by simp) _).congr fun ts => by
      rw [decide_eq_false_iff_not]
      omega
  exact hturns.and htokens fun hsuffix hlength => hsuffix.length_le.trans hlength

/-! ## Appending -/

theorem estimatedTokens_append (ts ts' : List (SessionTurn ν)) :
    estimatedTokens (ts ++ ts') = estimatedTokens ts + estimatedTokens ts' := by
  simp [estimatedTokens]

/-- An admissible list is admissible without its newest turn. -/
theorem Admissible.of_snoc {turn : SessionTurn ν} (h : Admissible (turns ++ [turn])) : Admissible turns := by
  unfold Admissible at h ⊢
  rw [estimatedTokens_append, List.length_append, List.length_singleton] at h
  omega

theorem appendAll_snoc (sessionId : Str) (history : List (SessionTurn ν)) (turn : SessionTurn ν) :
    appendAll sessionId (history ++ [turn]) = (appendAll sessionId history).append turn := by
  simp [appendAll]

/-- After every sequence of turns the buffer holds the longest admissible suffix of the sequence, and so its
newest turn. -/
theorem turns_longest (sessionId : Str) (history : List (SessionTurn ν)) :
    LongestSuffix Admissible history (appendAll sessionId history).turns ∧
      (appendAll sessionId history).turns.getLast? = history.getLast? := by
  have hlongest : LongestSuffix Admissible history (appendAll sessionId history).turns := by
    induction history using List.reverseRecOn with
    | nil => exact .self (by simp [Admissible, estimatedTokens])
    | append_singleton history turn ih =>
        rw [appendAll_snoc, ih.snoc_iff Admissible.of_snoc]
        exact prune_longest _
  refine ⟨hlongest, ?_⟩
  induction history using List.reverseRecOn with
  | nil => rfl
  | append_singleton history turn _ =>
      -- the newest turn alone is admissible, so it ends the longest suffix that is
      have hone : Admissible [turn] := by simp [Admissible, kMaxTurns]
      obtain ⟨ts, hts⟩ := hlongest.longest [turn] (List.suffix_append history [turn]) hone
      rw [← hts, List.getLast?_concat, List.getLast?_concat]

end SessionBuffer

end LlmGateway
