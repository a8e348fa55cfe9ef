import LlmGateway.Base
import LlmGateway.Lib.Ring

/-!
# The log

`Logger`: lines are written into a ring of 4096 slots, and a pass over the ring (`flush_all`) moves them to
the file.  The writer and the passes have counters of their own, and `count_` counts the lines that are not yet
in the file; nothing compares it with the size of the ring.

`delivered_iff`: the file gets every line once and in order exactly if no more than 4096 lines are logged
between two passes.  For the one direction the ring holds the lines since the last pass (`Pending`).  For the
other, no bytes are ever made (`weight_step_le`), and a line that overwrites one that was not read loses bytes
for good (`weight_lt_of_overflow`).
-/

namespace LlmGateway

/-- The levels, the least urgent first. -/
inductive LogLevel
  | DEBUG
  | INFO
  | WARN
  | ERROR
  deriving DecidableEq

/-- The number of a level. -/
def LogLevel.toNat : LogLevel → ℕ
  | DEBUG => 0
  | INFO => 1
  | WARN => 2
  | ERROR => 3

instance : LT LogLevel := ⟨fun a b => a.toNat < b.toNat⟩

instance (a b : LogLevel) : Decidable (a < b) := inferInstanceAs (Decidable (a.toNat < b.toNat))

/-- `lvstr`. -/
def LogLevel.name : LogLevel → Str
  | DEBUG => str "DEBUG"
  | INFO => str "INFO "
  | WARN => str "WARN "
  | ERROR => str "ERROR"

/-- `kBufSize`. -/
abbrev kBufSize : ℕ := 4096

/-- The logger: a ring of lines, and the file that they are written to. -/
structure Logger where
  minLevel : LogLevel := .INFO
  /-- What the file holds. -/
  file : Str := []
  buf : Fin kBufSize → Str := fun _ => []
  writePos : UInt64 := 0
  readPos : UInt64 := 0
  count : UInt64 := 0

namespace Logger

/-- What `%s` prints of a string. -/
def cString (s : Str) : Str := s.takeWhile (· ≠ 0)

/-- `format`, where `ts` is the time as `strftime` prints it.  A line has at most 2047 bytes. -/
def format (ts : Str) (lv : LogLevel) (msg : Str) : Str :=
  (str "[" ++ cString ts ++ str "][" ++ lv.name ++ str "] " ++ cString msg ++ str "\n").take 2047

/-- `pos % kBufSize`. -/
def slot (pos : UInt64) : Fin kBufSize := Ring.slot kBufSize pos.toNat

/-- Put a line into the ring, if its level is high enough. -/
def log (ts : Str) (lv : LogLevel) (msg : Str) (l : Logger) : Logger :=
  if lv < l.minLevel then l
  else
    { l with
      buf := Function.update l.buf (slot l.writePos) (format ts lv msg)
      writePos := l.writePos + 1
      count := l.count + 1 }

/-- An iteration of the loop of `flush_all`. -/
def flushOne (l : Logger) : Logger :=
  let line := l.buf (slot l.readPos)
  let l := if line = [] then l else
    { l with
      file := l.file ++ line
      buf := Function.update l.buf (slot l.readPos) [] }
  { l with
    readPos := l.readPos + 1
    count := l.count - 1 }

/-- `while (count_.load() > 0)`, at most `n` times. -/
def flushLoop : ℕ → Logger → Logger
  | 0, l => l
  | n + 1, l => if l.count = 0 then l else flushLoop n l.flushOne

/-- Each iteration takes one from `count_`, so that the loop ends. -/
def flushAll (l : Logger) : Logger := flushLoop l.count.toNat l

/-! ## Runs -/

/-- A call of `log`, or a pass of the writer. -/
inductive Event
  | log (ts : Str) (lv : LogLevel) (msg : Str)
  | flushAll
  deriving DecidableEq

/-- What an event does. -/
def step (l : Logger) : Event → Logger
  | .log ts lv msg => l.log ts lv msg
  | .flushAll => l.flushAll

/-- The logger after some events. -/
def run (l : Logger) (events : List Event) : Logger := events.foldl step l

/-- The log after `init`, with what the file held before. -/
def init (minLevel : LogLevel) (content : Str) : Logger := { minLevel, file := content }

/-- The formatted lines of the calls at or above the minimum level. -/
def lines (minLevel : LogLevel) : List Event → List Str
  | [] => []
  | .log ts lv msg :: events =>
      if lv < minLevel then lines minLevel events else format ts lv msg :: lines minLevel events
  | .flushAll :: events => lines minLevel events

theorem lines_append (minLevel : LogLevel) (events events' : List Event) :
    lines minLevel (events ++ events') = lines minLevel events ++ lines minLevel events' := by
  induction events with
  | nil => rfl
  | cons event events ih =>
      cases event with
      | log ts lv msg =>
        rw [List.cons_append, lines, lines, ih]
        split_ifs
        · rfl
        · rfl
      | flushAll => exact ih

theorem format_ne_nil (ts : Str) (lv : LogLevel) (msg : Str) : format ts lv msg ≠ [] := by
  have hbracket : str "[" = [91] := by decide
  simp [format, hbracket]

/-! ## Slots -/

theorem slot_succ (pos : UInt64) : slot (pos + 1) = Ring.slot kBufSize (pos.toNat + 1) := by
  rw [slot, Ring.slot_eq_iff, UInt64.toNat_add]
  exact Nat.mod_mod_of_dvd _ (by decide)

/-- The slots of two counters that are in step stay so. -/
theorem slot_succ_congr {pos : UInt64} {k : ℕ} (h : slot pos = Ring.slot kBufSize k) :
    slot (pos + 1) = Ring.slot kBufSize (k + 1) := by
  rw [slot_succ]
  exact Ring.slot_add_congr h 1

theorem toNat_count_succ {count : UInt64} {k : ℕ} (h : count.toNat = k) (hk : k < kBufSize) :
    (count + 1).toNat = k + 1 := by
  have hlt : k + 1 < 2 ^ 64 := lt_of_le_of_lt (Nat.succ_le_of_lt hk) (by decide)
  rw [UInt64.toNat_add, h]
  exact Nat.mod_eq_of_lt hlt

theorem toNat_count_pred {count : UInt64} {k : ℕ} (h : count.toNat = k + 1) : (count - 1).toNat = k := by
  have hle : (1 : UInt64) ≤ count := by
    rw [UInt64.le_iff_toNat_le, h]
    exact Nat.succ_le_succ (Nat.zero_le k)
  rw [UInt64.toNat_sub_of_le _ _ hle, h]
  rfl

/-- An iteration moves the line of the slot into the file, empty or not. -/
theorem flushOne_eq (l : Logger) : l.flushOne =
    { l with
      file := l.file ++ l.buf (slot l.readPos)
      buf := Function.update l.buf (slot l.readPos) []
      readPos := l.readPos + 1
      count := l.count - 1 } := by
  unfold flushOne
  by_cases hline : l.buf (slot l.readPos) = []
  · have hsame : Function.update l.buf (slot l.readPos) [] = l.buf := by
      rw [← hline, Function.update_eq_self]
    simp only [hline, if_true, List.append_nil, hsame]
  · simp only [if_neg hline]

theorem minLevel_flushLoop (n : ℕ) (l : Logger) : (flushLoop n l).minLevel = l.minLevel := by
  induction n generalizing l with
  | zero => rfl
  | succ n ih =>
      unfold flushLoop
      split_ifs
      · rfl
      · rw [ih, flushOne_eq]

theorem minLevel_step (l : Logger) (event : Event) : (step l event).minLevel = l.minLevel := by
  cases event with
  | log ts lv msg =>
    rw [step, log]
    split_ifs
    · rfl
    · rfl
  | flushAll => exact minLevel_flushLoop _ l

theorem run_append (l : Logger) (events events' : List Event) :
    run l (events ++ events') = run (run l events) events' :=
  List.foldl_append

theorem minLevel_run (l : Logger) (events : List Event) : (run l events).minLevel = l.minLevel := by
  induction events generalizing l with
  | nil => rfl
  | cons event events ih => rw [run, List.foldl_cons, ← run, ih, minLevel_step]

/-! ## Enough room -/

/-- The ring holds the lines `xs`, in this order, and `count_` counts them. -/
structure Pending (l : Logger) (xs : List Str) : Prop where
  count : l.count.toNat = xs.length
  writePos : slot l.writePos = Ring.slot kBufSize (l.readPos.toNat + xs.length)
  holds : Ring.Holds [] l.buf l.readPos.toNat xs

theorem pending_init (minLevel : LogLevel) (content : Str) : Pending (init minLevel content) [] where
  count := rfl
  writePos := rfl
  holds := Ring.holds_nil _

section Pending

variable {l : Logger} {xs : List Str}

/-- A line that finds a free slot is added to the others. -/
theorem Pending.log (h : Pending l xs) {lv : LogLevel} (hlv : ¬lv < l.minLevel) (hroom : xs.length < kBufSize)
    (ts msg : Str) : Pending (l.log ts lv msg) (xs ++ [format ts lv msg]) ∧ (l.log ts lv msg).file = l.file := by
  unfold Logger.log
  rw [if_neg hlv]
  refine ⟨⟨?_, ?_, ?_⟩, rfl⟩
  · rw [List.length_append, List.length_singleton]
    exact toNat_count_succ h.count hroom
  · rw [List.length_append, List.length_singleton, ← Nat.add_assoc]
    exact slot_succ_congr h.writePos
  · rw [h.writePos]
    exact h.holds.write hroom _

theorem Pending.flushOne {x : Str} (h : Pending l (x :: xs)) :
    Pending l.flushOne xs ∧ l.flushOne.file = l.file ++ x := by
  have hread : slot (l.readPos + 1) = Ring.slot kBufSize (l.readPos.toNat + 1) := slot_succ l.readPos
  have hx : l.buf (slot l.readPos) = x := h.holds.head
  rw [flushOne_eq, hx]
  refine ⟨⟨toNat_count_pred h.count, ?_, h.holds.read.congr hread.symm⟩, rfl⟩
  show slot l.writePos = Ring.slot kBufSize ((l.readPos + 1).toNat + xs.length)
  rw [h.writePos, List.length_cons, Nat.add_comm xs.length 1, ← Nat.add_assoc]
  exact (Ring.slot_add_congr hread xs.length).symm

/-- A pass moves all lines into the file, in order. -/
theorem Pending.flushLoop (h : Pending l xs) :
    Pending (flushLoop xs.length l) [] ∧ (Logger.flushLoop xs.length l).file = l.file ++ xs.flatten := by
  induction xs generalizing l with
  | nil => exact ⟨h, (List.append_nil _).symm⟩
  | cons x xs ih =>
      have hcount : l.count ≠ 0 := by
        intro hzero
        have hlength := h.count
        rw [hzero] at hlength
        cases hlength
      obtain ⟨hone, hfile⟩ := h.flushOne
      obtain ⟨hall, hfile'⟩ := ih hone
      rw [List.length_cons, Logger.flushLoop, if_neg hcount]
      refine ⟨hall, ?_⟩
      rw [hfile', hfile, List.flatten_cons, List.append_assoc]

theorem Pending.flushAll (h : Pending l xs) :
    Pending l.flushAll [] ∧ l.flushAll.file = l.file ++ xs.flatten := by
  unfold Logger.flushAll
  rw [h.count]
  exact h.flushLoop

/-- With room for every burst, the file gets the lines in the ring and those of the run. -/
theorem Pending.file_run (h : Pending l xs) {events : List Event}
    (hfirst : ∀ burst, burst <+: events → .flushAll ∉ burst →
      xs.length + (lines l.minLevel burst).length ≤ kBufSize)
    (hbursts : ∀ burst, burst <:+: events → .flushAll ∉ burst →
      (lines l.minLevel burst).length ≤ kBufSize) :
    (run l events).flushAll.file = l.file ++ xs.flatten ++ (lines l.minLevel events).flatten := by
  induction events generalizing l xs with
  | nil => rw [run, List.foldl_nil, h.flushAll.2, lines, List.flatten_nil, List.append_nil]
  | cons event events ih =>
      have hbursts' : ∀ burst, burst <:+: events → .flushAll ∉ burst →
          (lines (step l event).minLevel burst).length ≤ kBufSize := by
        intro burst hburst hflush
        rw [minLevel_step]
        exact hbursts burst (hburst.trans (List.suffix_cons event events).isInfix) hflush
      rw [run, List.foldl_cons, ← run]
      cases event with
      | log ts lv msg =>
        have hrest : ∀ burst, burst <+: events → .flushAll ∉ burst → .log ts lv msg :: burst <+:
            .log ts lv msg :: events ∧ .flushAll ∉ Event.log ts lv msg :: burst := by
          intro burst hburst hflush
          exact ⟨(List.prefix_cons_inj _).2 hburst, by simp [hflush]⟩
        by_cases hlv : lv < l.minLevel
        · have hstep : step l (.log ts lv msg) = l := if_pos hlv
          rw [hstep] at hbursts' ⊢
          rw [lines, if_pos hlv]
          refine ih h (fun burst hburst hflush => ?_) hbursts'
          have hroom := hfirst _ (hrest burst hburst hflush).1 (hrest burst hburst hflush).2
          rwa [lines, if_pos hlv] at hroom
        · have hroom := hfirst [.log ts lv msg] ((List.prefix_cons_inj _).2 (List.nil_prefix)) (by simp)
          rw [lines, if_neg hlv, lines, List.length_singleton] at hroom
          obtain ⟨hlog, hfile⟩ := h.log hlv hroom ts msg
          have hmin : (l.log ts lv msg).minLevel = l.minLevel := minLevel_step l (.log ts lv msg)
          have hrun := ih hlog (fun burst hburst hflush => ?_) hbursts'
          · rw [step, hrun, hfile, hmin, lines, if_neg hlv, List.flatten_append, List.flatten_cons]
            simp
          · have hroom' := hfirst _ (hrest burst hburst hflush).1 (hrest burst hburst hflush).2
            rw [lines, if_neg hlv, List.length_cons] at hroom'
            rw [hmin, List.length_append, List.length_singleton]
            omega
      | flushAll =>
        have hmin : l.flushAll.minLevel = l.minLevel := minLevel_step l .flushAll
        have hrun := ih h.flushAll.1 (fun burst hburst hflush => ?_) hbursts'
        · rw [step, hrun, h.flushAll.2, hmin, lines, List.flatten_nil, List.append_nil]
        · rw [List.length_nil, Nat.zero_add]
          exact hbursts' burst hburst.isInfix hflush

end Pending

/-! ## Too many lines -/

/-- The bytes in the file and in the ring. -/
def weight (l : Logger) : ℕ := l.file.length + Ring.total List.length l.buf

/-- A line that is written takes the place of what was in its slot. -/
theorem weight_log (l : Logger) {lv : LogLevel} (hlv : ¬lv < l.minLevel) (ts msg : Str) :
    (l.log ts lv msg).weight + (l.buf (slot l.writePos)).length = l.weight + (format ts lv msg).length := by
  have htotal := Ring.total_update List.length l.buf (slot l.writePos) (format ts lv msg)
  unfold log weight
  rw [if_neg hlv]
  dsimp only
  omega

theorem weight_flushOne (l : Logger) : l.flushOne.weight = l.weight := by
  have htotal := Ring.total_update List.length l.buf (slot l.readPos) []
  rw [flushOne_eq]
  unfold weight
  dsimp only
  rw [List.length_append]
  rw [List.length_nil] at htotal
  omega

theorem weight_flushLoop (n : ℕ) (l : Logger) : (flushLoop n l).weight = l.weight := by
  induction n generalizing l with
  | zero => rfl
  | succ n ih =>
      unfold flushLoop
      split_ifs
      · rfl
      · rw [ih, weight_flushOne]

/-- No bytes are made. -/
theorem weight_step_le (l : Logger) (event : Event) :
    (step l event).weight ≤ l.weight + (lines l.minLevel [event]).flatten.length := by
  cases event with
  | log ts lv msg =>
    rw [lines, lines]
    split_ifs with hlv
    · rw [step, log, if_pos hlv]
      exact Nat.le_add_right _ _
    · have hlog := weight_log l hlv ts msg
      rw [step, List.flatten_cons, List.flatten_nil, List.append_nil]
      omega
  | flushAll => exact (weight_flushLoop _ l).le.trans (Nat.le_add_right _ _)

theorem weight_run_le (l : Logger) (events : List Event) :
    (run l events).weight ≤ l.weight + (lines l.minLevel events).flatten.length := by
  induction events generalizing l with
  | nil => exact Nat.le_add_right _ _
  | cons event events ih =>
      have hstep := weight_step_le l event
      have hrest := ih (step l event)
      have hsplit := lines_append l.minLevel [event] events
      rw [List.singleton_append] at hsplit
      rw [minLevel_step] at hrest
      rw [run, List.foldl_cons, ← run, hsplit, List.flatten_append, List.length_append]
      omega

/-- The lines of a burst fill the slots one after the other; once they are more than the slots, bytes have been
lost. -/
theorem overflow_run (l : Logger) {burst : List Event} (hflush : .flushAll ∉ burst) :
    slot (run l burst).writePos = Ring.slot kBufSize (l.writePos.toNat + (lines l.minLevel burst).length) ∧
    Ring.Filled [] (run l burst).buf l.writePos.toNat (lines l.minLevel burst).length ∧
    (kBufSize < (lines l.minLevel burst).length →
      (run l burst).weight < l.weight + (lines l.minLevel burst).flatten.length) := by
  induction burst using List.reverseRecOn with
  | nil => exact ⟨rfl, Ring.filled_zero _ _ _, fun h => absurd h (Nat.not_lt_zero _)⟩
  | append_singleton burst event ih =>
      obtain ⟨hpos, hfilled, hlost⟩ := ih fun h => hflush (List.mem_append_left _ h)
      cases event with
      | flushAll => exact absurd (List.mem_append_right _ (List.mem_singleton_self _)) hflush
      | log ts lv msg =>
        have hmin : (run l burst).minLevel = l.minLevel := minLevel_run l burst
        rw [run_append, lines_append]
        show slot ((run l burst).log ts lv msg).writePos = _ ∧ Ring.Filled [] ((run l burst).log ts lv msg).buf _ _ ∧
          (_ → ((run l burst).log ts lv msg).weight < _)
        by_cases hlv : lv < l.minLevel
        · have hsame : (run l burst).log ts lv msg = run l burst := if_pos (hmin ▸ hlv)
          rw [hsame, lines, if_pos hlv, lines, List.append_nil]
          exact ⟨hpos, hfilled, hlost⟩
        · have hlv' : ¬lv < (run l burst).minLevel := hmin ▸ hlv
          have hlog := weight_log (run l burst) hlv' ts msg
          rw [lines, if_neg hlv, lines, List.length_append, List.length_singleton, List.flatten_append,
            List.length_append, List.flatten_cons, List.flatten_nil, List.append_nil]
          refine ⟨?_, ?_, fun hmany => ?_⟩
          · rw [log, if_neg hlv', ← Nat.add_assoc]
            exact slot_succ_congr hpos
          · rw [log, if_neg hlv']
            dsimp only
            rw [hpos]
            exact hfilled.write (format_ne_nil ts lv msg)
          · -- the slot of this line was in use, or bytes were lost before
            have hle := weight_run_le l burst
            have hused : (run l burst).buf (slot (run l burst).writePos) ≠ [] := by
              rw [hpos]
              exact hfilled.next (Nat.lt_add_one_iff.1 hmany)
            have hbytes := List.length_pos_of_ne_nil hused
            omega

theorem weight_lt_of_overflow (l : Logger) (pre post : List Event) {burst : List Event} (hflush : .flushAll ∉ burst)
    (hmany : kBufSize < (lines l.minLevel burst).length) : (run l (pre ++ burst ++ post)).weight <
      l.weight + (lines l.minLevel (pre ++ burst ++ post)).flatten.length := by
  have hpre := weight_run_le l pre
  have hmin : (run l pre).minLevel = l.minLevel := minLevel_run l pre
  have hburst := (overflow_run (run l pre) hflush).2.2 (hmin.symm ▸ hmany)
  have hpost := weight_run_le (run (run l pre) burst) post
  rw [minLevel_run, hmin] at hpost
  rw [hmin] at hburst
  rw [run_append, run_append, lines_append, lines_append, List.flatten_append, List.flatten_append,
    List.length_append, List.length_append]
  omega

/-- A file that has less bytes than the lines does not hold the lines. -/
theorem file_ne_of_overflow (minLevel : LogLevel) (content : Str) (pre post : List Event) {burst : List Event}
    (hflush : .flushAll ∉ burst) (hmany : kBufSize < (lines minLevel burst).length) :
    (run (init minLevel content) (pre ++ burst ++ post)).flushAll.file ≠
      content ++ (lines minLevel (pre ++ burst ++ post)).flatten := by
  intro hfile
  have hlost := weight_lt_of_overflow (init minLevel content) pre post hflush hmany
  have hkept := weight_flushLoop (run (init minLevel content) (pre ++ burst ++ post)).count.toNat
    (run (init minLevel content) (pre ++ burst ++ post))
  have hbytes := congrArg List.length hfile
  have hempty : Ring.total List.length (init minLevel content).buf = 0 := Finset.sum_eq_zero fun _ _ => rfl
  have hfilelen : (run (init minLevel content) (pre ++ burst ++ post)).flushAll.file.length ≤
      (run (init minLevel content) (pre ++ burst ++ post)).weight :=
    (Nat.le_add_right _ _).trans hkept.le
  have hstart : (init minLevel content).weight = content.length := by
    rw [weight, hempty]
    rfl
  have hmin : (init minLevel content).minLevel = minLevel := rfl
  rw [hstart, hmin] at hlost
  rw [List.length_append] at hbytes
  omega

/-- After a last pass the file holds the line of every call, once and in the order of the calls, exactly if no
more than 4096 lines are logged between two passes. -/
theorem delivered_iff (minLevel : LogLevel) (content : Str) (events : List Event) :
    (run (init minLevel content) events).flushAll.file = content ++ (lines minLevel events).flatten ↔
      ∀ burst, burst <:+: events → .flushAll ∉ burst → (lines minLevel burst).length ≤ kBufSize := by
  constructor
  · rintro hfile burst ⟨pre, post, rfl⟩ hflush
    by_contra hmany
    exact file_ne_of_overflow minLevel content pre post hflush (Nat.not_le.1 hmany) hfile
  · intro hbursts
    have hrun := (pending_init minLevel content).file_run (fun burst hburst hflush => ?_) hbursts
    · rw [hrun]
      simp [init]
    · rw [List.length_nil, Nat.zero_add]
      exact hbursts burst hburst.isInfix hflush

/-- The same line, `n` times. -/
def repeated (n : ℕ) : List Event := List.replicate n (.log (str "2024-01-01 00:00:00") .INFO (str "ok"))

theorem length_lines_repeated (n : ℕ) : (lines .INFO (repeated n)).length = n := by
  induction n with
  | zero => rfl
  | succ n ih =>
      rw [repeated, List.replicate_succ, ← repeated, lines, if_neg (by decide), List.length_cons, ih]

theorem flushAll_notMem_repeated (n : ℕ) : .flushAll ∉ repeated n := by
  intro h
  cases (List.mem_replicate.1 h).2

/-- One line more than there are slots, and the file does not get every line. -/
theorem repeated_loses :
    (run (init .INFO []) (repeated 4097)).flushAll.file ≠ (lines .INFO (repeated 4097)).flatten := by
  have hmany : kBufSize < (lines .INFO (repeated 4097)).length := by
    rw [length_lines_repeated]
    exact Nat.lt_succ_self 4096
  have hlost := file_ne_of_overflow .INFO [] [] [] (flushAll_notMem_repeated 4097) hmany
  rwa [List.nil_append, List.append_nil, List.nil_append] at hlost

end Logger

end LlmGateway
