import LlmGateway.Base

/-!
# The archive

`L3ArchiveStore`: files under a base directory, one per day and hash of the key.  A reference is the
path of the file with a prefix.  `std::hash` and `std::localtime` are parameters (`Host`).
-/

namespace LlmGateway

/-- The fields of `std::tm` that a path is made of. -/
structure Tm where
  year : ℤ
  mon : ℤ
  mday : ℤ
  deriving DecidableEq

/-- What the archive asks the host for. -/
structure Host where
  /-- `std::hash` of a string. -/
  hash : Str → UInt64
  /-- `std::localtime` of a time in seconds. -/
  localtime : ℤ → Tm

/-- The archive: a directory of texts. -/
structure L3ArchiveStore where
  baseDir : Str := str "data/l3_archive"
  /-- The text of each file, by path. -/
  files : UMap Str := ∅

namespace L3ArchiveStore

/-- `std::setfill('0') << std::setw(width)`. -/
def padded (width : ℕ) (n : ℤ) : Str :=
  let digits := str (toString n)
  List.replicate (width - digits.length) 48 ++ digits

/-- `std::hex`. -/
def hex (n : UInt64) : Str := str (String.ofList (Nat.toDigits 16 n.toNat))

/-- The path of a key: its hash, in a directory for each day. -/
def makeKeyPath (host : Host) (key : Str) (tsMs : Int64) (s : L3ArchiveStore) : Str :=
  let tm := host.localtime (tsMs.toInt.tdiv 1000)
  s.baseDir ++ str "/" ++ padded 4 (tm.year + 1900) ++ padded 2 (tm.mon + 1) ++ padded 2 tm.mday ++
    str "/" ++ hex (host.hash key) ++ str ".json"

/-- The reference that `put` returns for a key. -/
def refOf (host : Host) (key : Str) (tsMs : Int64) (s : L3ArchiveStore) : Str :=
  str "l3://" ++ makeKeyPath host key tsMs s

/-- Write the text to the file of the key; the reference is `refOf`. -/
def put (host : Host) (key tracesJson : Str) (tsMs : Int64) (s : L3ArchiveStore) : L3ArchiveStore :=
  { s with files := s.files.insert (makeKeyPath host key tsMs s) tracesJson }

/-- The file of the audit log of a key. -/
def auditPath (host : Host) (key : Str) (tsMs : Int64) (s : L3ArchiveStore) : Str :=
  makeKeyPath host key tsMs s ++ str ".audit"

/-- A line of the audit log. -/
def auditLine (event : Str) (tsMs : Int64) : Str :=
  str (toString tsMs.toInt) ++ str " " ++ event ++ str "\n"

/-- Append a line to the audit log of the key. -/
def appendAuditLog (host : Host) (key event : Str) (tsMs : Int64) (s : L3ArchiveStore) :
    L3ArchiveStore :=
  let path := auditPath host key tsMs s
  { s with files := s.files.insert path ((s.files.lookup path).getD [] ++ auditLine event tsMs) }

/-- The path that a reference spells. -/
def refToPath (ref : Str) : Str := if str "l3://" <+: ref then ref.drop 5 else ref

/-- The text that a reference leads to. -/
def get (ref : Str) (s : L3ArchiveStore) : Option Str := s.files.lookup (refToPath ref)

/-- A call that writes to the archive. -/
inductive Op where
  | put (key tracesJson : Str)
  | appendAuditLog (key event : Str)

/-- What a call does at the time `tsMs`. -/
def Op.apply (host : Host) : Op → Int64 → L3ArchiveStore → L3ArchiveStore
  | .put key tracesJson, tsMs, s => s.put host key tracesJson tsMs
  | .appendAuditLog key event, tsMs, s => s.appendAuditLog host key event tsMs

/-- A sequence of calls, each with its time. -/
def run (host : Host) (s : L3ArchiveStore) (ops : List (Op × Int64)) : L3ArchiveStore :=
  ops.foldl (fun s op => op.1.apply host op.2 s) s

theorem refToPath_append (path : Str) : refToPath (str "l3://" ++ path) = path := by
  unfold refToPath
  rw [if_pos (List.prefix_append _ _)]
  rfl

/-- Reading a reference after a write: the text that was written, if the file is the same. -/
theorem get_put (host : Host) (key text path : Str) (tsMs : Int64) (s : L3ArchiveStore) :
    (s.put host key text tsMs).get (str "l3://" ++ path) =
      if path = makeKeyPath host key tsMs s then some text else s.get (str "l3://" ++ path) := by
  rw [get, get, refToPath_append, put]
  split_ifs with h
  · rw [h, AList.lookup_insert]
  · rw [AList.lookup_insert_ne h]

end L3ArchiveStore

end LlmGateway
