import LlmGateway.ArchiveRefs
import LlmGateway.WsChatController

/-!
# What an archive reference can read

The archive turns a reference into a path and opens the file that the path leads to.  Here its files are
those of the host, and which file a path leads to is a parameter, so that several paths can lead to one
file, as `..` and links make them do (`Disk`).  With one file for each path this is `L3ArchiveStore`
(`represents_run`).

The archive is not alone on the host: the persistent cache saves its two files, the logger appends to its
own, and the framework and other programs may write anywhere (`Write`).

`get_confined_iff`: a reference reads nothing but the files of earlier puts exactly if it leads to one
of these, or to something that was no file at the start and that no other write has made one.  Nothing in
the code asks for that: any path is opened.
-/

namespace LlmGateway

/-- What a path can lead to. -/
inductive FileNode where
  | file (text : Str)
  | directory

/-- The base directory of the archive, and the files and directories of the host. -/
structure Disk (ω : Type) [DecidableEq ω] where
  baseDir : Str
  nodes : AList fun _ : ω => FileNode

namespace Disk

open L3ArchiveStore (Op makeKeyPath auditPath auditLine refToPath slash)

variable {ω : Type} [DecidableEq ω]

/-- The text of a file; a directory has none. -/
def textAt (d : Disk ω) (n : ω) : Option Str :=
  match d.nodes.lookup n with
  | some (.file text) => some text
  | _ => none

/-- The directories on a path. -/
def parents (path : Str) : List Str := path.inits.filter fun p => p ≠ [] ∧ p ++ [slash] <+: path

/-- Where the process keeps its other files: `storage_dir` of the persistent cache, and the path that the
logger opens. -/
structure ProcessFiles where
  storageDir : Str
  logFile : Str

/-- The files of `main`. -/
def gatewayFiles : ProcessFiles := ⟨str "data/l2_cache", str "logs/gateway.log"⟩

/-- A write to the disk that succeeds. -/
inductive Write
  /-- A call of the archive, with the time at which the wall clock is read. -/
  | archive (op : Op) (tsMs : Int64)
  /-- `save_to_disk` and `save_revidx` of the persistent cache, which truncate their files. -/
  | saveToDisk (text : Str)
  | saveRevidx (text : Str)
  /-- What the logger appends to its file; opening it appends nothing. -/
  | log (text : Str)
  /-- A write of the framework, or of another program. -/
  | other (path text : Str)

/-- The path that is written to. -/
def opPath (host : Host) (files : ProcessFiles) (w : Write) (baseDir : Str) : Str :=
  match w with
  | .archive (.put key _) tsMs => makeKeyPath host key tsMs { baseDir }
  | .archive (.appendAuditLog key _) tsMs => auditPath host key tsMs { baseDir }
  | .saveToDisk _ => files.storageDir ++ str "/l2_cache.jsonl"
  | .saveRevidx _ => files.storageDir ++ str "/l2_revidx.json"
  | .log _ => files.logFile
  | .other path _ => path

/-- The text of the file afterwards. -/
def opText (w : Write) (old : Option Str) : Str :=
  match w with
  | .archive (.put _ tracesJson) _ => tracesJson
  | .archive (.appendAuditLog _ event) tsMs => old.getD [] ++ auditLine event tsMs
  | .saveToDisk text => text
  | .saveRevidx text => text
  | .log text => old.getD [] ++ text
  | .other _ text => text

/-- The directories that are created first: only the calls of the archive create them. -/
def opParents (w : Write) (path : Str) : List Str :=
  match w with
  | .archive _ _ => parents path
  | _ => []

variable (leadsTo : Str → ω)

/-- `fs::create_directories`, one directory after the other. -/
def createDirectories (paths : List Str) (d : Disk ω) : Disk ω :=
  paths.foldl (fun d path =>
    if (d.nodes.lookup (leadsTo path)).isSome then d
    else { d with nodes := d.nodes.insert (leadsTo path) .directory }) d

/-- One write. -/
def apply (host : Host) (files : ProcessFiles) (w : Write) (d : Disk ω) : Disk ω :=
  let path := opPath host files w d.baseDir
  let d := d.createDirectories leadsTo (opParents w path)
  { d with
    nodes := d.nodes.insert (leadsTo path) (.file (opText w (d.textAt (leadsTo path)))) }

/-- The writes of a run, in their order. -/
def run (host : Host) (files : ProcessFiles) (d : Disk ω) (ws : List Write) : Disk ω :=
  ws.foldl (fun d w => d.apply leadsTo host files w) d

/-- `L3ArchiveStore::get`.  A directory exists, and reading it gives nothing. -/
def get (ref : Str) (d : Disk ω) : Option Str :=
  match d.nodes.lookup (leadsTo (refToPath ref)) with
  | none => none
  | some (.file text) => some text
  | some .directory => some []

end Disk

/-! ## Expansion of a reference -/

/-- What is sent for a reference. -/
structure ContextExpandResult where
  ref : Str
  fullText : Str
  totalTokens : ℕ
  truncated : Bool := false
  deriving DecidableEq

/-- `CacheCoordinator::expand_context`, on what the archive gives for a reference. -/
def expandContext (get : Str → Option Str) (ref : Str) (maxTokens : UInt64) :
    Option ContextExpandResult :=
  (get ref).map fun content =>
    let maxChars := (maxTokens * 4).toNat
    if maxChars < content.length then
      { ref
        fullText := content.take maxChars ++ str "..."
        totalTokens := content.length / 4
        truncated := true }
    else { ref, fullText := content, totalTokens := content.length / 4 }

/-- The reply to `context_expand`. -/
def contextExpandReply {ν : Type} (callId ref : Str) : Option ContextExpandResult → Json ν
  | some expanded => .object (Json.members [
      (str "type", .string (str "context_expand_result")),
      (str "call_id", .string callId),
      (str "ref", .string ref),
      (str "full_text", .string expanded.fullText),
      (str "total_tokens", .int expanded.totalTokens),
      (str "truncated", .bool expanded.truncated)])
  | none => .object (Json.members [
      (str "type", .string (str "error")),
      (str "call_id", .string callId),
      (str "code", .string (str "not_found")),
      (str "message", .string (str "context ref not found: " ++ ref))])

/-- Expand a reference for a client, and send what it leads to, or an error. -/
def WsChatController.handleContextExpand {ν : Type} (platform : GatewayPlatform ν)
    (requester : ConnId) (callId ref : Str) (maxTokens : UInt64) (g : WsChatController ν) :
    Outcome (WsChatController ν) :=
  wsSend platform requester
    (contextExpandReply callId ref (expandContext g.cache.l3.get ref maxTokens)) g

namespace Disk

open L3ArchiveStore (Op makeKeyPath auditPath auditLine refToPath slash)

variable {ω : Type} [DecidableEq ω] (leadsTo : Str → ω)

/-! ## Files in a run -/

theorem textAt_insert_self (d : Disk ω) (n : ω) (text : Str) :
    textAt { d with nodes := d.nodes.insert n (.file text) } n = some text := by
  rw [textAt, AList.lookup_insert]

theorem textAt_insert_ne (d : Disk ω) {n n' : ω} (h : n ≠ n') (node : FileNode) :
    textAt { d with nodes := d.nodes.insert n' node } n = d.textAt n := by
  rw [textAt, textAt, AList.lookup_insert_ne h]

/-- Creating directories changes no file. -/
theorem textAt_createDirectories (paths : List Str) (d : Disk ω) (n : ω) :
    (d.createDirectories leadsTo paths).textAt n = d.textAt n := by
  induction paths generalizing d with
  | nil => rfl
  | cons path paths ih =>
      rw [createDirectories, List.foldl_cons, ← createDirectories, ih]
      split_ifs with h
      · rfl
      · by_cases hn : n = leadsTo path
        · rw [Option.not_isSome_iff_eq_none, ← hn] at h
          rw [textAt, textAt, ← hn, AList.lookup_insert, h]
        · exact textAt_insert_ne d hn .directory

@[simp]
theorem baseDir_createDirectories (paths : List Str) (d : Disk ω) :
    (d.createDirectories leadsTo paths).baseDir = d.baseDir := by
  induction paths generalizing d with
  | nil => rfl
  | cons path paths ih =>
      rw [createDirectories, List.foldl_cons, ← createDirectories, ih]
      split_ifs <;> rfl

@[simp]
theorem baseDir_apply (host : Host) (files : ProcessFiles) (w : Write) (d : Disk ω) :
    (d.apply leadsTo host files w).baseDir = d.baseDir :=
  baseDir_createDirectories leadsTo _ d

/-- A write changes one file and no other. -/
theorem textAt_apply (host : Host) (files : ProcessFiles) (w : Write) (d : Disk ω) (n : ω) :
    (d.apply leadsTo host files w).textAt n =
      if n = leadsTo (opPath host files w d.baseDir) then some (opText w (d.textAt n))
      else d.textAt n := by
  rw [apply]
  split_ifs with h
  · rw [h, textAt_insert_self, textAt_createDirectories]
  · rw [textAt_insert_ne _ h, textAt_createDirectories]

/-- The files after a run are those at the start and those that were written. -/
theorem textAt_run_isSome (host : Host) (files : ProcessFiles) (d : Disk ω) (ws : List Write) (n : ω) :
    ((d.run leadsTo host files ws).textAt n).isSome ↔
      (d.textAt n).isSome ∨ ∃ w ∈ ws, leadsTo (opPath host files w d.baseDir) = n := by
  induction ws generalizing d with
  | nil => simp [run]
  | cons w ws ih =>
      have hrun : d.run leadsTo host files (w :: ws) =
          (d.apply leadsTo host files w).run leadsTo host files ws := rfl
      rw [hrun, ih, baseDir_apply, textAt_apply, List.exists_mem_cons_iff]
      by_cases h : n = leadsTo (opPath host files w d.baseDir)
      · simp [← h]
      · simp [h, Ne.symm h]

/-! ## One file for each path -/

/-- The files of the host are those of the store. -/
structure Represents (d : Disk ω) (s : L3ArchiveStore) : Prop where
  baseDir : d.baseDir = s.baseDir
  files (path : Str) : d.textAt (leadsTo path) = s.files.lookup path

variable {leadsTo}

theorem Represents.apply (hinj : Function.Injective leadsTo) {host : Host} {files : ProcessFiles}
    {d : Disk ω} {s : L3ArchiveStore} (h : Represents leadsTo d s) (op : Op) (tsMs : Int64) :
    Represents leadsTo (d.apply leadsTo host files (.archive op tsMs)) (op.apply host tsMs s) where
  baseDir := by rw [baseDir_apply, L3ArchiveStore.baseDir_apply, h.baseDir]
  files path := by
    rw [textAt_apply, h.baseDir, h.files]
    simp only [hinj.eq_iff]
    cases op with
    | put key text =>
      show (if path = makeKeyPath host key tsMs s then some text else s.files.lookup path) =
        (s.files.insert (makeKeyPath host key tsMs s) text).lookup path
      split_ifs with hpath
      · rw [hpath, AList.lookup_insert]
      · rw [AList.lookup_insert_ne hpath]
    | appendAuditLog key event =>
      show (if path = auditPath host key tsMs s then
          some ((s.files.lookup path).getD [] ++ auditLine event tsMs) else s.files.lookup path) =
        (s.files.insert (auditPath host key tsMs s)
          ((s.files.lookup (auditPath host key tsMs s)).getD [] ++ auditLine event tsMs)).lookup path
      split_ifs with hpath
      · rw [hpath, AList.lookup_insert]
      · rw [AList.lookup_insert_ne hpath]

/-- Where only the archive writes, the disk is that of the store. -/
theorem represents_run (hinj : Function.Injective leadsTo) {host : Host} {files : ProcessFiles}
    {d : Disk ω} {s : L3ArchiveStore} (h : Represents leadsTo d s) (ops : List (Op × Int64)) :
    Represents leadsTo (d.run leadsTo host files (ops.map fun op => .archive op.1 op.2))
      (s.run host ops) := by
  induction ops generalizing d s with
  | nil => exact h
  | cons op ops ih => exact ih (h.apply hinj op.1 op.2)

/-- Where the reference does not lead to a directory, the store reads what the host has. -/
theorem Represents.get {d : Disk ω} {s : L3ArchiveStore} (h : Represents leadsTo d s) {ref : Str}
    (hdir : d.nodes.lookup (leadsTo (refToPath ref)) ≠ some .directory) :
    d.get leadsTo ref = s.get ref := by
  rw [L3ArchiveStore.get, ← h.files, Disk.get, textAt]
  rcases hnode : d.nodes.lookup (leadsTo (refToPath ref)) with _ | node
  · rfl
  · cases node with
    | file text => rfl
    | directory => exact absurd hnode hdir

/-! ## Confinement -/

/-- One of the writes is a put to the file `n`. -/
def PutTo (leadsTo : Str → ω) (host : Host) (baseDir : Str) (ws : List Write) (n : ω) : Prop :=
  ∃ key text tsMs, .archive (.put key text) tsMs ∈ ws ∧
    leadsTo (makeKeyPath host key tsMs { baseDir }) = n

/-- One of the writes to the file `n` is no put. -/
def OtherTo (leadsTo : Str → ω) (host : Host) (files : ProcessFiles) (baseDir : Str) (ws : List Write)
    (n : ω) : Prop :=
  ∃ w ∈ ws, (∀ key text tsMs, w ≠ .archive (.put key text) tsMs) ∧
    leadsTo (opPath host files w baseDir) = n

omit [DecidableEq ω] in
theorem exists_opPath_iff (leadsTo : Str → ω) (host : Host) (files : ProcessFiles) (baseDir : Str)
    (ws : List Write) (n : ω) :
    (∃ w ∈ ws, leadsTo (opPath host files w baseDir) = n) ↔
      PutTo leadsTo host baseDir ws n ∨ OtherTo leadsTo host files baseDir ws n := by
  constructor
  · rintro ⟨w, hw, hn⟩
    by_cases hput : ∃ key text tsMs, w = .archive (.put key text) tsMs
    · obtain ⟨key, text, tsMs, rfl⟩ := hput
      exact Or.inl ⟨key, text, tsMs, hw, hn⟩
    · refine Or.inr ⟨w, hw, fun key text tsMs h => hput ⟨key, text, tsMs, h⟩, hn⟩
  · rintro (⟨key, text, tsMs, hw, hn⟩ | ⟨w, hw, -, hn⟩)
    · exact ⟨_, hw, hn⟩
    · exact ⟨w, hw, hn⟩

theorem get_of_textAt {leadsTo : Str → ω} {d : Disk ω} {ref text : Str}
    (h : d.textAt (leadsTo (refToPath ref)) = some text) : d.get leadsTo ref = some text := by
  rw [Disk.get]
  rw [textAt] at h
  rcases hnode : d.nodes.lookup (leadsTo (refToPath ref)) with _ | node
  · rw [hnode] at h
    cases h
  · rw [hnode] at h
    cases node with
    | file text' => exact h
    | directory => cases h

/-- A reference reads, and is expanded to, only the text of files that earlier puts wrote, exactly if it
leads to such a file, or to what was not a file at the start and was not written otherwise. -/
theorem get_confined_iff (leadsTo : Str → ω) (host : Host) (files : ProcessFiles) (d : Disk ω)
    (ws : List Write) (ref : Str) :
    let d' := d.run leadsTo host files ws
    let n := leadsTo (refToPath ref)
    ((∀ text, d'.get leadsTo ref = some text → (d'.textAt n).isSome →
        PutTo leadsTo host d.baseDir ws n) ∧
      ∀ maxTokens result,
        expandContext (d'.get leadsTo) ref maxTokens = some result → (d'.textAt n).isSome →
          PutTo leadsTo host d.baseDir ws n) ↔
    PutTo leadsTo host d.baseDir ws n ∨
      (d.textAt n = none ∧ ¬ OtherTo leadsTo host files d.baseDir ws n) := by
  intro d' n
  have hfile : (d'.textAt n).isSome ↔
      (d.textAt n).isSome ∨ PutTo leadsTo host d.baseDir ws n ∨
        OtherTo leadsTo host files d.baseDir ws n := by
    rw [← exists_opPath_iff]
    exact textAt_run_isSome leadsTo host files d ws n
  by_cases hput : PutTo leadsTo host d.baseDir ws n
  · exact iff_of_true ⟨fun _ _ _ => hput, fun _ _ _ _ => hput⟩ (Or.inl hput)
  rw [or_iff_right hput, ← Option.not_isSome_iff_eq_none, ← not_or]
  rw [or_iff_right hput] at hfile
  rw [← hfile]
  constructor
  · intro h hsome
    obtain ⟨text, htext⟩ := Option.isSome_iff_exists.1 hsome
    exact hput (h.1 text (get_of_textAt htext) hsome)
  · intro hnone
    exact ⟨fun _ _ hsome => absurd hsome hnone, fun _ _ _ hsome => absurd hsome hnone⟩

/-! ## A host -/

/-- Path resolution without links, from a working directory. -/
def resolve (cwd : List Str) (path : Str) : List Str :=
  (path.splitOn slash).foldl
    (fun at_ name =>
      if name = [] ∨ name = str "." then at_
      else if name = str ".." then at_.dropLast
      else at_ ++ [name])
    (if path.head? = some slash then [] else cwd)

/-- A host whose gateway runs in `/srv/gateway`. -/
def gatewayDisk : Disk (List Str) where
  baseDir := str "data/l3_archive"
  nodes := AList.insert [str "etc", str "passwd"] (.file (str "root:x:0:0")) ∅

/-- After a put and a save of the persistent cache, a client reads a file of the host by its path, and by one
that starts in the archive, and the file of the persistent cache. -/
theorem get_outside_archive :
    let leadsTo := resolve [str "srv", str "gateway"]
    let ws := [.archive (.put (str "a") (str "trace")) 1000, .saveToDisk (str "entries")]
    let d := gatewayDisk.run leadsTo L3ArchiveStore.constantHost gatewayFiles ws
    d.get leadsTo (str "/etc/passwd") = some (str "root:x:0:0") ∧
      expandContext (d.get leadsTo) (str "l3://data/l3_archive/../../../../etc/passwd") 4096 =
        some ⟨str "l3://data/l3_archive/../../../../etc/passwd", str "root:x:0:0", 2, false⟩ ∧
      d.get leadsTo (str "data/l2_cache/l2_cache.jsonl") = some (str "entries") ∧
      ∀ n ∈ [[str "etc", str "passwd"],
          [str "srv", str "gateway", str "data", str "l2_cache", str "l2_cache.jsonl"]],
        ¬ PutTo leadsTo L3ArchiveStore.constantHost gatewayDisk.baseDir ws n := by
  refine ⟨by decide +kernel, by decide +kernel, by decide +kernel, ?_⟩
  rintro n hn ⟨key, text, tsMs, hw, hpath⟩
  simp only [List.mem_cons, List.not_mem_nil, or_false, Write.archive.injEq, Op.put.injEq,
    reduceCtorEq] at hw
  obtain ⟨⟨rfl, -⟩, rfl⟩ := hw
  have hfile : ¬ resolve [str "srv", str "gateway"] (makeKeyPath L3ArchiveStore.constantHost (str "a") 1000
      { baseDir := gatewayDisk.baseDir }) ∈ [[str "etc", str "passwd"],
        [str "srv", str "gateway", str "data", str "l2_cache", str "l2_cache.jsonl"]] := by
    decide +kernel
  exact hfile (hpath ▸ hn)

end Disk

end LlmGateway
