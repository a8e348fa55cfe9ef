import Mathlib.Data.List.Basic
import LlmGateway.L3ArchiveStore
import LlmGateway.Lib.Numerals

/-!
# Archive references

How long the text behind a reference stays what it was.  The path of a file spells the day and the hash
of the key, and nothing else: two paths are equal exactly if both are (`makeKeyPath_inj`), and no path
is that of an audit log (`auditPath_ne`).

So a reference gives the text of the last `put` of a key with the same hash on the same day
(`get_run_put`).
-/

namespace LlmGateway

/-- `std::localtime` gives the fields of a date. -/
structure Host.Calendar (host : Host) : Prop where
  mon (t : ℤ) : 0 ≤ (host.localtime t).mon ∧ (host.localtime t).mon ≤ 11
  mday (t : ℤ) : 1 ≤ (host.localtime t).mday ∧ (host.localtime t).mday ≤ 31

namespace L3ArchiveStore

/-! ## Paths -/

/-- `/`. -/
def slash : UInt8 := 47

theorem str_replicate_zero (k : ℕ) :
    str (String.ofList (List.replicate k '0')) = List.replicate k 48 := by
  rw [str_eq_flatMap, String.toList_ofList]
  induction k with
  | zero => rfl
  | succ k ih =>
      rw [List.replicate_succ, List.flatMap_cons, ih]
      rfl

theorem padded_eq (width : ℕ) (n : ℤ) :
    ∃ k, padded width n =
      str (String.ofList (List.replicate k '0' ++ (toString n).toList)) := by
  refine ⟨width - (str (toString n)).length, ?_⟩
  rw [String.ofList_append, str_append, str_replicate_zero, String.ofList_toList]
  rfl

theorem padded_inj {width : ℕ} {m n : ℤ} (h : padded width m = padded width n) : m = n := by
  obtain ⟨k, hm⟩ := padded_eq width m
  obtain ⟨k', hn⟩ := padded_eq width n
  rw [hm, hn] at h
  exact Numerals.zeros_append_toString_inj (String.ofList_injective (str_injective h))

theorem hex_inj {m n : UInt64} (h : hex m = hex n) : m = n := by
  have hdigits := String.ofList_injective (str_injective h)
  exact UInt64.toNat_inj.1 (Numerals.toDigits_injective (by decide) le_rfl hdigits)

/-- A numeral contains no slash. -/
theorem slash_notMem_str {cs : List Char} (h : ∀ c ∈ cs, slash ∉ String.utf8EncodeChar c) :
    slash ∉ str (String.ofList cs) := by
  rw [str_eq_flatMap, String.toList_ofList, List.mem_flatMap]
  rintro ⟨c, hc, hslash⟩
  exact h c hc hslash

theorem slash_notMem_digitChar {d : ℕ} (hd : d < 16) :
    slash ∉ String.utf8EncodeChar (Nat.digitChar d) := by
  have hfin : ∀ d : Fin 16, slash ∉ String.utf8EncodeChar (Nat.digitChar d) := by decide
  exact hfin ⟨d, hd⟩

theorem slash_notMem_toDigits {b : ℕ} (hb : 1 < b) (hb' : b ≤ 16) (n : ℕ) :
    ∀ c ∈ Nat.toDigits b n, slash ∉ String.utf8EncodeChar c := by
  intro c hc
  obtain ⟨d, hd, rfl⟩ := Numerals.mem_toDigits hb hc
  exact slash_notMem_digitChar (by omega)

theorem slash_notMem_hex (n : UInt64) : slash ∉ hex n :=
  slash_notMem_str (slash_notMem_toDigits (by decide) le_rfl n.toNat)

theorem slash_notMem_padded (width : ℕ) (n : ℤ) : slash ∉ padded width n := by
  obtain ⟨k, hk⟩ := padded_eq width n
  rw [hk]
  refine slash_notMem_str fun c hc => ?_
  rcases List.mem_append.1 hc with hc | hc
  · rw [List.eq_of_mem_replicate hc]
    decide
  · cases n with
    | ofNat n =>
      rw [Int.ofNat_eq_natCast, Numerals.toList_toString_ofNat] at hc
      exact slash_notMem_toDigits (by decide) (by decide) n c hc
    | negSucc n =>
      rw [Numerals.toList_toString_negSucc] at hc
      rcases List.mem_cons.1 hc with rfl | hc
      · decide
      · exact slash_notMem_toDigits (by decide) (by decide) (n + 1) c hc

/-- A field of two digits. -/
theorem length_padded_two {n : ℤ} (h : 0 ≤ n) (h' : n ≤ 31) : (padded 2 n).length = 2 := by
  have hfin : ∀ n : Fin 32, (padded 2 (n : ℕ)).length = 2 := by decide +kernel
  have hn := hfin ⟨n.toNat, by omega⟩
  rwa [show (((⟨n.toNat, by omega⟩ : Fin 32) : ℕ) : ℤ) = n by simp; omega] at hn

/-- The name of the directory of a day. -/
def dayName (tm : Tm) : Str :=
  padded 4 (tm.year + 1900) ++ padded 2 (tm.mon + 1) ++ padded 2 tm.mday

theorem dayName_inj {host : Host} (hcal : host.Calendar) {t t' : ℤ}
    (h : dayName (host.localtime t) = dayName (host.localtime t')) :
    host.localtime t = host.localtime t' := by
  have hmon (t : ℤ) : (padded 2 ((host.localtime t).mon + 1)).length = 2 := by
    have := hcal.mon t
    exact length_padded_two (by omega) (by omega)
  have hmday (t : ℤ) : (padded 2 (host.localtime t).mday).length = 2 := by
    have := hcal.mday t
    exact length_padded_two (by omega) (by omega)
  obtain ⟨h, hd⟩ := List.append_inj' h (by rw [hmday, hmday])
  obtain ⟨hy, hm⟩ := List.append_inj' h (by rw [hmon, hmon])
  have hyear := padded_inj hy
  have hmon := padded_inj hm
  have hday := padded_inj hd
  generalize host.localtime t = tm at *
  generalize host.localtime t' = tm' at *
  obtain ⟨year, mon, mday⟩ := tm
  obtain ⟨year', mon', mday'⟩ := tm'
  simp only at hyear hmon hday
  rw [show year = year' by omega, show mon = mon' by omega, hday]

/-- The day of a time in milliseconds. -/
def dayOf (host : Host) (tsMs : Int64) : Tm := host.localtime (tsMs.toInt.tdiv 1000)

theorem makeKeyPath_eq (host : Host) (key : Str) (tsMs : Int64) (s : L3ArchiveStore) :
    makeKeyPath host key tsMs s =
      s.baseDir ++ slash :: (dayName (dayOf host tsMs) ++ slash ::
        (hex (host.hash key) ++ str ".json")) := by
  have hslash : str "/" = [slash] := by decide
  simp [makeKeyPath, dayName, dayOf, hslash, List.append_assoc]

/-- Two paths are equal exactly if the hashes and the days are. -/
theorem makeKeyPath_inj {host : Host} (hcal : host.Calendar) {key key' : Str} {tsMs tsMs' : Int64}
    {s : L3ArchiveStore} :
    makeKeyPath host key tsMs s = makeKeyPath host key' tsMs' s ↔
      host.hash key = host.hash key' ∧ dayOf host tsMs = dayOf host tsMs' := by
  rw [makeKeyPath_eq, makeKeyPath_eq]
  constructor
  · intro h
    have hday : slash ∉ dayName (dayOf host tsMs) := by
      simp [dayName, slash_notMem_padded]
    have hname : slash ∉ hex (host.hash key) ++ str ".json" := by
      have hext : slash ∉ str ".json" := by decide
      simp [slash_notMem_hex, hext]
    have h := List.cons_injective (List.append_cancel_left h)
    obtain ⟨hday, -, hname⟩ := (List.append_cons_inj_of_notMem hday hname).1 h
    exact ⟨hex_inj (List.append_cancel_right hname), dayName_inj hcal hday⟩
  · rintro ⟨hhash, hday⟩
    rw [hhash, hday]

theorem auditPath_ne (host : Host) (key key' : Str) (tsMs tsMs' : Int64) (s : L3ArchiveStore) :
    auditPath host key tsMs s ≠ makeKeyPath host key' tsMs' s := by
  intro h
  have hlast := congrArg List.getLast? h
  have haudit : (str ".audit").getLast? = some 116 := by decide
  have hjson : (str ".json").getLast? = some 110 := by decide
  simp only [auditPath, makeKeyPath, List.getLast?_append, haudit, hjson, Option.some_or] at hlast
  exact absurd hlast (by decide)

/-! ## References in a run -/

@[simp]
theorem baseDir_apply (host : Host) (op : Op) (tsMs : Int64) (s : L3ArchiveStore) :
    (op.apply host tsMs s).baseDir = s.baseDir := by
  cases op <;> rfl

theorem makeKeyPath_congr {s s' : L3ArchiveStore} (h : s'.baseDir = s.baseDir) (host : Host)
    (key : Str) (tsMs : Int64) : makeKeyPath host key tsMs s' = makeKeyPath host key tsMs s := by
  rw [makeKeyPath, makeKeyPath, h]

/-- The text behind the reference of a put of `key` at the time `tsMs`, after one more call. -/
def latestStep (host : Host) (key : Str) (tsMs : Int64) (text : Str) (op : Op × Int64) : Str :=
  match op.1 with
  | .put key' text' =>
      if host.hash key' = host.hash key ∧ dayOf host op.2 = dayOf host tsMs then text' else text
  | .appendAuditLog _ _ => text

theorem get_apply {host : Host} (hcal : host.Calendar) (key : Str) (tsMs : Int64) {text : Str}
    {s : L3ArchiveStore} (hs : s.get (s.refOf host key tsMs) = some text) (op : Op × Int64) :
    (op.1.apply host op.2 s).get (s.refOf host key tsMs) =
      some (latestStep host key tsMs text op) := by
  obtain ⟨op, tsMs'⟩ := op
  rw [refOf] at hs ⊢
  cases op with
  | put key' text' =>
    simp only [Op.apply, get_put, makeKeyPath_inj hcal, latestStep]
    by_cases h : host.hash key' = host.hash key ∧ dayOf host tsMs' = dayOf host tsMs
    · rw [if_pos ⟨h.1.symm, h.2.symm⟩, if_pos h]
    · rw [if_neg (fun h' => h ⟨h'.1.symm, h'.2.symm⟩), if_neg h]
      exact hs
  | appendAuditLog key' event =>
    have hne := auditPath_ne host key' key tsMs' tsMs s
    rw [get, refToPath_append] at hs ⊢
    rw [Op.apply, appendAuditLog, AList.lookup_insert_ne hne.symm]
    exact hs

theorem get_run {host : Host} (hcal : host.Calendar) (key : Str) (tsMs : Int64)
    (ops : List (Op × Int64)) {text : Str} {s : L3ArchiveStore}
    (hs : s.get (s.refOf host key tsMs) = some text) :
    (run host s ops).get (s.refOf host key tsMs) =
      some (ops.foldl (latestStep host key tsMs) text) := by
  induction ops generalizing s text with
  | nil => exact hs
  | cons op ops ih =>
      have href : (op.1.apply host op.2 s).refOf host key tsMs = s.refOf host key tsMs := by
        rw [refOf, refOf, makeKeyPath_congr (baseDir_apply host op.1 op.2 s)]
      have hstep := get_apply hcal key tsMs hs op
      rw [← href] at hstep ⊢
      exact ih hstep

/-- The reference of a put gives its text, until the next put of a key with the same hash on the same
day, and from then on the text of the last such put. -/
theorem get_run_put (host : Host) (hcal : host.Calendar) (s : L3ArchiveStore) (key text : Str)
    (tsMs : Int64) (ops : List (Op × Int64)) :
    (run host (s.put host key text tsMs) ops).get (s.refOf host key tsMs) =
      some (ops.foldl (latestStep host key tsMs) text) := by
  have hput : (s.put host key text tsMs).get ((s.put host key text tsMs).refOf host key tsMs) =
      some text := by
    show (s.put host key text tsMs).get (s.refOf host key tsMs) = some text
    rw [refOf, get_put, if_pos rfl]
  exact get_run hcal key tsMs ops hput

/-- A host on 14 November 2023 that hashes everything to one value. -/
def constantHost : Host where
  hash _ := 0
  localtime _ := ⟨123, 10, 14⟩

theorem constantHost_calendar : constantHost.Calendar where
  mon _ := by
    show (0 : ℤ) ≤ 10 ∧ (10 : ℤ) ≤ 11
    decide
  mday _ := by
    show (1 : ℤ) ≤ 14 ∧ (14 : ℤ) ≤ 31
    decide

/-- An audit line for the key leaves its trace alone. -/
theorem get_run_put_audit :
    (run constantHost (put constantHost (str "a") (str "first") 1000 {})
      [(.appendAuditLog (str "a") (str "read"), 2000)]).get
        (refOf constantHost (str "a") 1000 {}) = some (str "first") :=
  get_run_put constantHost constantHost_calendar {} (str "a") (str "first") 1000
    [(.appendAuditLog (str "a") (str "read"), 2000)]

/-- Putting the key again on the same day replaces its trace, and so does putting another key with the
same hash. -/
theorem get_put_replaced :
    (run constantHost (put constantHost (str "a") (str "first") 1000 {})
        [(.put (str "a") (str "second"), 2000)]).get (refOf constantHost (str "a") 1000 {}) =
      some (str "second") ∧
    (run constantHost (put constantHost (str "a") (str "first") 1000 {})
        [(.put (str "b") (str "other"), 2000)]).get (refOf constantHost (str "a") 1000 {}) =
      some (str "other") ∧
    str "first" ≠ str "second" ∧ str "first" ≠ str "other" := by
  decide +kernel

end L3ArchiveStore

end LlmGateway
