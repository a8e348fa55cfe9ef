import LlmGateway.FailedReload

/-!
# The watcher of the plugins

`hot_reload_loop`: the kernel reports what happens in the directory of the plugins as records in a buffer, and
the loop reloads each `.lua` file that a record names.  The mask of the watch leaves out removals.

`fileNames_encode`: the loop over the buffer finds the names that were reported.
`mirrors_iff`: once its reports are handled, a file has just the runtime of what was reported last, exactly if
the directory is configured without a slash at its end.  Otherwise the paths of the scan and of the reloads
differ, and the runtime of the scan stays beside the new ones.
-/

namespace LlmGateway

/-! ## Records -/

/-- `/`. -/
def separator : UInt8 := 47

/-- The name of a file in a directory. -/
structure FileName where
  bytes : Str
  nonempty : bytes ≠ []
  noNul : 0 ∉ bytes
  noSlash : separator ∉ bytes
  deriving DecidableEq

/-- `wd`, `mask` and `cookie` of an `inotify_event`. -/
structure EventHeader where
  bytes : Str
  length_eq : bytes.length = 12

/-- An `inotify_event`: one about a file has its name, with zero bytes after it. -/
inductive InotifyEvent where
  | named (header : EventHeader) (name : FileName) (padding : ℕ) (pos : 0 < padding)
      (small : name.bytes.length + padding < 2 ^ 32)
  | bare (header : EventHeader)

/-- The four bytes of a number, the lowest first. -/
def littleEndian (n : ℕ) : Str :=
  [n % 256, n / 256 % 256, n / 256 ^ 2 % 256, n / 256 ^ 3 % 256].map UInt8.ofNat

/-- The number of the first four bytes. -/
def readLittleEndian (bytes : Str) : ℕ :=
  match bytes with
  | a :: b :: c :: d :: _ => a.toNat + 256 * b.toNat + 256 ^ 2 * c.toNat + 256 ^ 3 * d.toNat
  | _ => 0

namespace InotifyEvent

/-- The header of an event. -/
def header : InotifyEvent → EventHeader
  | named header _ _ _ _ => header
  | bare header => header

/-- The name in an event, if there is one. -/
def name? : InotifyEvent → Option FileName
  | named _ name _ _ _ => some name
  | bare _ => none

/-- `name`, with the zero bytes. -/
def nameField : InotifyEvent → Str
  | named _ name padding _ _ => name.bytes ++ List.replicate padding 0
  | bare _ => []

/-- How the kernel lays the record out. -/
def encode (e : InotifyEvent) : Str := e.header.bytes ++ (littleEndian e.nameField.length ++ e.nameField)

theorem nameField_length_lt (e : InotifyEvent) : e.nameField.length < 2 ^ 32 := by
  cases e with
  | named header name padding pos small => simpa [nameField] using small
  | bare header => exact Nat.two_pow_pos 32

theorem encode_length (e : InotifyEvent) : e.encode.length = 16 + e.nameField.length := by
  rw [encode, List.length_append, e.header.length_eq, List.length_append]
  simp only [littleEndian, List.map_cons, List.map_nil, List.length_cons, List.length_nil]
  omega

end InotifyEvent

namespace PluginManager

/-- The bytes up to the first zero byte. -/
def cString (bytes : Str) : Str := bytes.takeWhile (· ≠ 0)

/-- The inner loop of `hot_reload_loop`: the names of the records from the offset on. -/
def fileNames (buf : Str) (offset : ℕ) : List Str :=
  if _h : offset < buf.length then
    let len := readLittleEndian (buf.drop (offset + 12))
    (if 0 < len then [cString (buf.drop (offset + 16))] else []) ++ fileNames buf (offset + 16 + len)
  else []
termination_by buf.length - offset

/-- The test of the loop. -/
def isPluginName (filename : Str) : Bool := 4 < filename.length && (str ".lua").isSuffixOf filename

theorem readLittleEndian_littleEndian {n : ℕ} (h : n < 2 ^ 32) (rest : Str) :
    readLittleEndian (littleEndian n ++ rest) = n := by
  have hbyte (k : ℕ) : (UInt8.ofNat (k % 256)).toNat = k % 256 := by
    rw [UInt8.toNat_ofNat']
    omega
  simp only [littleEndian, List.map_cons, List.map_nil, List.cons_append, List.nil_append,
    readLittleEndian, hbyte]
  omega

theorem cString_append {name : Str} (h : 0 ∉ name) (rest : Str) : cString (name ++ 0 :: rest) = name := by
  have hname : ∀ c ∈ name, decide (c ≠ 0) = true := fun c hc => decide_eq_true fun hzero => h (hzero ▸ hc)
  rw [cString, List.takeWhile_append_of_pos hname, List.takeWhile_cons_of_neg (by simp), List.append_nil]

/-- What the loop takes from the field of the name. -/
theorem name_of_nameField (e : InotifyEvent) (post : Str) :
    (if 0 < e.nameField.length then [cString (e.nameField ++ post)] else []) =
      (e.name?.map FileName.bytes).toList := by
  cases e with
  | bare header => rfl
  | named header name padding pos small =>
    obtain ⟨n, rfl⟩ := Nat.exists_eq_succ_of_ne_zero pos.ne'
    have hlength : 0 < (InotifyEvent.named header name (n + 1) pos small).nameField.length := by
      simp [InotifyEvent.nameField]
    rw [if_pos hlength, InotifyEvent.nameField, List.append_assoc, List.replicate_succ, List.cons_append,
      cString_append name.noNul]
    rfl

/-- A record at the offset, and what follows it. -/
theorem fileNames_cons (e : InotifyEvent) (pre post : Str) :
    fileNames (pre ++ (e.encode ++ post)) pre.length =
      (e.name?.map FileName.bytes).toList ++
        fileNames (pre ++ (e.encode ++ post)) (pre ++ e.encode).length := by
  have hdrop (k : ℕ) (hk : k ≤ 16) : (pre ++ (e.encode ++ post)).drop (pre.length + k) =
      e.encode.drop k ++ post := by
    have hle : k ≤ e.encode.length := by
      rw [e.encode_length]
      omega
    rw [List.drop_append, List.drop_eq_nil_of_le (by omega), List.nil_append, Nat.add_sub_cancel_left,
      List.drop_append_of_le_length hle]
  have hlen : e.encode.drop 12 = littleEndian e.nameField.length ++ e.nameField := by
    rw [InotifyEvent.encode, ← e.header.length_eq, List.drop_left]
  have hname : e.encode.drop 16 = e.nameField := by
    rw [show 16 = 12 + 4 from rfl, ← List.drop_drop, hlen]
    rfl
  have hlt : pre.length < (pre ++ (e.encode ++ post)).length := by
    rw [List.length_append, List.length_append, e.encode_length]
    omega
  have hnext : pre.length + 16 + e.nameField.length = (pre ++ e.encode).length := by
    rw [List.length_append, e.encode_length, Nat.add_assoc]
  rw [fileNames, dif_pos hlt, hdrop 12 (by omega), hdrop 16 (by omega), hlen, hname, List.append_assoc,
    readLittleEndian_littleEndian e.nameField_length_lt]
  dsimp only
  rw [name_of_nameField, hnext]

/-- The loop finds the names of the records in the buffer. -/
theorem fileNames_encode (events : List InotifyEvent) :
    fileNames (events.flatMap InotifyEvent.encode) 0 =
      events.filterMap fun e => e.name?.map FileName.bytes := by
  have h : ∀ (events : List InotifyEvent) (pre : Str),
      fileNames (pre ++ events.flatMap InotifyEvent.encode) pre.length =
        events.filterMap fun e => e.name?.map FileName.bytes := by
    intro events
    induction events with
    | nil =>
      intro pre
      rw [fileNames, dif_neg (by simp)]
      rfl
    | cons e events ih =>
      intro pre
      have hrest := ih (pre ++ e.encode)
      rw [List.append_assoc] at hrest
      rw [List.flatMap_cons, fileNames_cons, hrest, List.filterMap_cons]
      cases e.name? <;> rfl
  exact h events []

/-! ## The directory and the watcher -/

end PluginManager

/-- An entry of the directory at the start; what is not a regular file cannot be read. -/
structure FolderEntry where
  name : FileName
  isRegularFile : Bool
  file : PluginFile
  readable : isRegularFile = false → file.body = []

/-- The folder of the plugins, with one entry for each name. -/
structure PluginsFolder where
  entries : List FolderEntry
  nodup : (entries.map FolderEntry.name).Nodup

/-- A file that does not exist. -/
def PluginFile.missing : PluginFile := ⟨[], none⟩

/-- The watcher, and the directory that it watches. -/
structure PluginWatcher where
  /-- `plugins_dir_`. -/
  dir : Str
  /-- The files of the directory, by their names. -/
  contents : Str → PluginFile
  watching : Bool := false
  /-- The events that have not been read. -/
  queue : List InotifyEvent := []
  /-- The names of the events that have been read and are left to handle. -/
  buffer : List Str := []
  plugins : List LoadedPlugin

namespace PluginWatcher

open PluginManager

/-- The path of an entry that `fs::directory_iterator` gives. -/
def entryPath (dir name : Str) : Str :=
  if dir.getLast? = some separator then dir ++ name else dir ++ separator :: name

/-- `plugins_dir_ + "/" + filename`. -/
def reloadPath (dir name : Str) : Str := dir ++ separator :: name

theorem entryPath_injective (dir : Str) : Function.Injective (entryPath dir) := by
  intro name name' h
  unfold entryPath at h
  split_ifs at h
  · exact List.append_cancel_left h
  · exact (List.cons.inj (List.append_cancel_left h)).2

/-- What `scan_and_load` iterates over. -/
def dirEntries (dir : Str) (folder : PluginsFolder) : PluginsDir where
  entries := folder.entries.map fun e => ⟨entryPath dir e.name.bytes, e.isRegularFile, e.file⟩
  nodup := by
    rw [List.map_map]
    have hpaths : folder.entries.map
        (DirEntry.path ∘ fun e => ⟨entryPath dir e.name.bytes, e.isRegularFile, e.file⟩) =
        (folder.entries.map FolderEntry.name).map fun name => entryPath dir name.bytes := by
      rw [List.map_map]
      rfl
    rw [hpaths]
    refine folder.nodup.map fun name name' h => ?_
    have hbytes := entryPath_injective dir h
    cases name
    cases name'
    cases hbytes
    rfl

/-- After `init`. -/
def start (dir : Str) (folder : PluginsFolder) (sortPlugins : PluginSort) : PluginWatcher where
  dir := dir
  contents name := ((folder.entries.find? fun e => e.name.bytes = name).map FolderEntry.file).getD .missing
  plugins := scanAndLoad (dirEntries dir folder) sortPlugins

/-- What happens in the directory and what the watcher does. -/
inductive Event where
  /-- `start_hot_reload`. -/
  | startHotReload
  /-- A file is created, written, or moved into the directory, and the kernel queues some reports. -/
  | change (name : FileName) (file : PluginFile) (reports : List InotifyEvent)
  /-- A file is removed, which the mask of the watch leaves out. -/
  | remove (name : FileName)
  /-- Another report. -/
  | report (e : InotifyEvent)
  /-- `read` returns some reports. -/
  | read (count : ℕ)
  /-- The next name in the buffer is handled. -/
  | handle (sortPlugins : PluginSort)

/-- The events are about the file. -/
def Names (name : FileName) (events : List InotifyEvent) : Prop := ∃ e ∈ events, e.name? = some name

instance (name : FileName) (events : List InotifyEvent) : Decidable (Names name events) :=
  inferInstanceAs (Decidable (∃ e ∈ events, e.name? = some name))

/-- A change of a file that is watched has a report in the queue, of its own or equal to one that waits. -/
def step (event : Event) (s : PluginWatcher) : Outcome PluginWatcher :=
  match event with
  | .startHotReload => .ok { s with watching := true }
  | .change name file reports =>
    let contents := Function.update s.contents name.bytes file
    if s.watching then
      if Names name (s.queue ++ reports) then .ok { s with contents, queue := s.queue ++ reports } else .ok s
    else .ok { s with contents }
  | .remove name => .ok { s with contents := Function.update s.contents name.bytes .missing }
  | .report e => if s.watching then .ok { s with queue := s.queue ++ [e] } else .ok s
  | .read count =>
    if s.buffer = [] then
      .ok { s with
        buffer := fileNames ((s.queue.take count).flatMap InotifyEvent.encode) 0
        queue := s.queue.drop count }
    else .ok s
  | .handle sortPlugins =>
    match s.buffer with
    | [] => .ok s
    | filename :: buffer =>
      let plugins :=
        if isPluginName filename then
          reloadPlugin (reloadPath s.dir filename) (s.contents filename) sortPlugins s.plugins
        else s.plugins
      .ok { s with buffer, plugins }

/-- The watcher after some events. -/
def run (s : PluginWatcher) (events : List Event) : PluginWatcher := Outcome.run step s events

/-- A report of the file is left to handle. -/
def Outstanding (name : FileName) (s : PluginWatcher) : Prop := name.bytes ∈ s.buffer ∨ Names name s.queue

/-- The runtimes of the file, under either path. -/
def versions (name : FileName) (s : PluginWatcher) : List LoadedPlugin :=
  s.plugins.filter fun rt =>
    rt.info.filepath = entryPath s.dir name.bytes ∨ rt.info.filepath = reloadPath s.dir name.bytes

/-- The watch reports it, if it is about the file. -/
def Reported (name : FileName) (s : PluginWatcher) : Event → Prop
  | .change name' _ _ => name' = name → s.watching = true
  | .remove name' => name' ≠ name
  | _ => True

/-- When its reports are handled, a file whose changes are all reported has the runtime of what it holds, if
that loads, and no other. -/
def Mirrors (dir : Str) : Prop :=
  ∀ folder sortPlugins events name, isPluginName name.bytes = true →
    (∀ pre event post, events = pre ++ event :: post →
      Reported name (run (start dir folder sortPlugins) pre) event) →
    let s := run (start dir folder sortPlugins) events
    ¬Outstanding name s →
      versions name s = (newVersion (reloadPath dir name.bytes) (s.contents name.bytes)).toList

/-! ## The scan -/

theorem exists_entryPath_eq (dir name : Str) :
    ∃ q, entryPath dir name = q ++ separator :: name := by
  unfold entryPath
  split_ifs with h
  · obtain ⟨q, rfl⟩ := List.getLast?_eq_some_iff.1 h
    exact ⟨q, by simp⟩
  · exact ⟨dir, rfl⟩

/-- A text without a slash is at the end of a path exactly if it is at the end of its last name. -/
theorem suffix_path_iff {t q name : Str} (ht : separator ∉ t) : t <:+ q ++ separator :: name ↔ t <:+ name := by
  have hname : separator :: name <:+ q ++ separator :: name := List.suffix_append q _
  refine ⟨fun h => ?_, fun h => (h.trans (List.suffix_cons separator name)).trans hname⟩
  rcases List.suffix_or_suffix_of_suffix h hname with hsuffix | hsuffix
  · rcases List.suffix_cons_iff.1 hsuffix with rfl | hsuffix
    · exact absurd List.mem_cons_self ht
    · exact hsuffix
  · exact absurd (hsuffix.subset List.mem_cons_self) ht

/-- The scan and the watcher look for the same files. -/
theorem isLua_entryPath (dir : Str) (name : FileName) :
    isLua (entryPath dir name.bytes) = isPluginName name.bytes := by
  obtain ⟨q, hpath⟩ := exists_entryPath_eq dir name.bytes
  have hext : separator ∉ str ".lua" := by decide
  have hdot : str "/.lua" = separator :: str ".lua" := by decide
  have hbare : q ++ separator :: name.bytes ≠ str ".lua" := fun h => hext (h ▸ by simp)
  rw [hpath, Bool.eq_iff_iff]
  simp only [isLua, isPluginName, Bool.and_eq_true, Bool.not_eq_true', ← Bool.not_eq_true, decide_eq_true_eq,
    List.isSuffixOf_iff_suffix, suffix_path_iff hext]
  rw [and_iff_left hbare, and_comm]
  refine and_congr_left fun hsuffix => ?_
  constructor
  · intro hno
    rcases Nat.lt_or_ge 4 name.bytes.length with hlt | hge
    · exact hlt
    · have heq : str ".lua" = name.bytes := hsuffix.eq_of_length_le hge
      exact absurd (by rw [hdot, heq]; exact List.suffix_append q _) hno
  · intro hlt hdots
    rw [hdot] at hdots
    rcases List.suffix_or_suffix_of_suffix hdots (List.suffix_append q (separator :: name.bytes)) with h | h
    · rcases List.suffix_cons_iff.1 h with h | h
      · rw [← (List.cons.inj h).2] at hlt
        exact absurd hlt (by decide)
      · exact name.noSlash (h.subset List.mem_cons_self)
    · have hle := h.length_le
      rw [List.length_cons, List.length_cons] at hle
      have hfour : (str ".lua").length = 4 := by decide
      omega

/-- What the scan makes of an entry. -/
def scanned (e : DirEntry) : List LoadedPlugin :=
  if e.isRegularFile && isLua e.path then (newVersion e.path e.file).toList else []

theorem foldl_scanEntry (entries : List DirEntry) (plugins : List LoadedPlugin) :
    entries.foldl scanEntry plugins = plugins ++ entries.flatMap scanned := by
  induction entries generalizing plugins with
  | nil => simp
  | cons e entries ih =>
    rw [List.foldl_cons, ih, List.flatMap_cons, ← List.append_assoc, scanEntry, scanned]
    split_ifs
    · rw [loadPlugin_eq]
    · rw [List.append_nil]

theorem path_of_mem_scanned {e : DirEntry} {rt : LoadedPlugin} (h : rt ∈ scanned e) :
    rt.info.filepath = e.path := by
  unfold scanned at h
  split_ifs at h
  · exact newVersion_path e.path e.file (Option.mem_toList.1 h)
  · cases h

/-- The runtimes of a path are those of its entry. -/
theorem runtimesOf_flatMap_scanned {entries : List DirEntry} (hnodup : (entries.map DirEntry.path).Nodup)
    (path : Str) : runtimesOf path (entries.flatMap scanned) =
      ((entries.find? fun e => e.path = path).map scanned).getD [] := by
  induction entries with
  | nil => rfl
  | cons e entries ih =>
    rw [List.map_cons, List.nodup_cons] at hnodup
    rw [List.flatMap_cons, runtimesOf, List.filter_append, ← runtimesOf, ← runtimesOf, ih hnodup.2]
    by_cases hpath : e.path = path
    · have hnone : entries.find? (fun e => e.path = path) = none := by
        rw [List.find?_eq_none]
        intro e' he' heq
        rw [decide_eq_true_eq] at heq
        exact hnodup.1 (hpath ▸ heq ▸ List.mem_map_of_mem he')
      have hall : runtimesOf path (scanned e) = scanned e := by
        refine List.filter_eq_self.2 fun rt hrt => ?_
        rw [path_of_mem_scanned hrt, hpath]
        exact decide_eq_true rfl
      rw [List.find?_cons_of_pos (by simpa using hpath), hnone, hall]
      simp
    · have hempty : runtimesOf path (scanned e) = [] := by
        refine List.filter_eq_nil_iff.2 fun rt hrt => ?_
        rw [path_of_mem_scanned hrt]
        simpa using hpath
      rw [List.find?_cons_of_neg (by simpa using hpath), hempty, List.nil_append]

theorem eq_toList_of_perm {α : Type} {l : List α} {o : Option α} (h : l.Perm o.toList) : l = o.toList := by
  cases o with
  | none => exact h.eq_nil
  | some a => exact List.perm_singleton.1 h

/-- After the scan each file has the runtime of what it holds. -/
theorem runtimesOf_start (dir : Str) (folder : PluginsFolder) (sortPlugins : PluginSort) {name : FileName}
    (hname : isPluginName name.bytes = true) :
    runtimesOf (entryPath dir name.bytes) (start dir folder sortPlugins).plugins =
      (newVersion (entryPath dir name.bytes)
        ((start dir folder sortPlugins).contents name.bytes)).toList := by
  have hfind : (dirEntries dir folder).entries.find? (fun e => e.path = entryPath dir name.bytes) =
      (folder.entries.find? fun e => e.name.bytes = name.bytes).map fun e =>
        ⟨entryPath dir e.name.bytes, e.isRegularFile, e.file⟩ := by
    rw [dirEntries, List.find?_map]
    congr 2
    funext e
    simp [(entryPath_injective dir).eq_iff]
  have hscan := runtimesOf_flatMap_scanned (dirEntries dir folder).nodup (entryPath dir name.bytes)
  have hplugins : (start dir folder sortPlugins).plugins =
      sortPlugins.sort ((dirEntries dir folder).entries.flatMap scanned) := by
    have hfold := foldl_scanEntry (dirEntries dir folder).entries []
    rw [List.nil_append] at hfold
    rw [← hfold]
    rfl
  rw [runtimesOf, hplugins]
  refine eq_toList_of_perm (((sortPlugins.perm _).filter _).trans (List.Perm.of_eq ?_))
  rw [← runtimesOf, hscan, hfind, start]
  dsimp only
  cases hentry : folder.entries.find? fun e => e.name.bytes = name.bytes with
  | none => rfl
  | some e =>
    have hsame : e.name.bytes = name.bytes := by simpa using List.find?_some hentry
    simp only [Option.map_some, Option.getD_some]
    rw [scanned]
    dsimp only
    rw [hsame, isLua_entryPath, hname, Bool.and_true]
    cases hregular : e.isRegularFile with
    | true => rw [if_pos rfl]
    | false =>
      rw [if_neg Bool.false_ne_true, newVersion, if_pos (e.readable hregular)]
      rfl

/-! ## Steps -/

variable {name : FileName} {s : PluginWatcher} {event : Event}

theorem dir_step (event : Event) (s : PluginWatcher) : (step event s).state.dir = s.dir := by
  cases event with
  | startHotReload => rfl
  | change name file reports =>
    rw [step]
    split_ifs
    · rfl
    · rfl
    · rfl
  | remove name => rfl
  | report e =>
    rw [step]
    split_ifs
    · rfl
    · rfl
  | read count =>
    rw [step]
    split_ifs
    · rfl
    · rfl
  | handle sortPlugins =>
    rw [step]
    split
    · rfl
    · rfl

/-- What the watcher reads is no longer in the queue, but in the buffer. -/
theorem outstanding_read (count : ℕ) (h : Names name s.queue) (hbuffer : s.buffer = []) :
    Outstanding name (step (.read count) s).state := by
  obtain ⟨e, he, hname⟩ := h
  rw [step, if_pos hbuffer]
  rw [← List.take_append_drop count s.queue, List.mem_append] at he
  rcases he with he | he
  · left
    show name.bytes ∈ fileNames ((s.queue.take count).flatMap InotifyEvent.encode) 0
    rw [fileNames_encode, List.mem_filterMap]
    exact ⟨e, he, by rw [hname]; rfl⟩
  · exact .inr ⟨e, he, hname⟩

/-- A reload of another file keeps the runtimes of a file. -/
theorem versions_reload_other {filename : Str} (hne : filename ≠ name.bytes) (file : PluginFile)
    (sortPlugins : PluginSort) (dir : Str) (plugins : List LoadedPlugin) :
    ((reloadPlugin (reloadPath dir filename) file sortPlugins plugins).filter fun rt =>
      rt.info.filepath = entryPath dir name.bytes ∨ rt.info.filepath = reloadPath dir name.bytes).Perm
    (plugins.filter fun rt =>
      rt.info.filepath = entryPath dir name.bytes ∨ rt.info.filepath = reloadPath dir name.bytes) := by
  have hentry : reloadPath dir filename ≠ entryPath dir name.bytes := by
    unfold reloadPath entryPath
    split_ifs
    · intro h
      exact name.noSlash (List.append_cancel_left h ▸ List.mem_cons_self)
    · exact fun h => hne (List.cons.inj (List.append_cancel_left h)).2
  have hreload : reloadPath dir filename ≠ reloadPath dir name.bytes := fun h =>
    hne (List.cons.inj (List.append_cancel_left h)).2
  refine ((sortPlugins.perm _).filter _).trans (List.Perm.of_eq ?_)
  rw [loadPlugin_eq, List.filter_append]
  have hnew : (newVersion (reloadPath dir filename) file).toList.filter (fun rt =>
      rt.info.filepath = entryPath dir name.bytes ∨ rt.info.filepath = reloadPath dir name.bytes) = [] := by
    refine List.filter_eq_nil_iff.2 fun rt hrt => ?_
    rw [newVersion_path _ _ (Option.mem_toList.1 hrt)]
    simp [hentry, hreload]
  rw [hnew, List.append_nil, unloadPlugin, List.filter_filter]
  refine List.filter_congr fun rt _ => ?_
  by_cases h : rt.info.filepath = entryPath dir name.bytes ∨ rt.info.filepath = reloadPath dir name.bytes
  · have hother : rt.info.filepath ≠ reloadPath dir filename := by
      rcases h with h | h
      · exact fun heq => hentry (heq.symm.trans h)
      · exact fun heq => hreload (heq.symm.trans h)
    simp [h, hother]
  · simp [h]

theorem FileName.bytes_injective : Function.Injective FileName.bytes := by
  intro name name' h
  cases name
  cases name'
  cases h
  rfl

/-- A report of the file is left, or it has the runtime of what it holds, if that loads, and no other. -/
def Synced (name : FileName) (s : PluginWatcher) : Prop :=
  Outstanding name s ∨
    versions name s = (newVersion (reloadPath s.dir name.bytes) (s.contents name.bytes)).toList

theorem Names.append {events : List InotifyEvent} (h : Names name events) (more : List InotifyEvent) :
    Names name (events ++ more) := by
  obtain ⟨e, he, hname⟩ := h
  exact ⟨e, List.mem_append_left more he, hname⟩

/-- Reports that are added, and changes of other files, keep a file synced. -/
theorem Synced.of_queue (h : Synced name s) {contents : Str → PluginFile}
    (hcontents : contents name.bytes = s.contents name.bytes) (more : List InotifyEvent) :
    Synced name { s with contents, queue := s.queue ++ more } := by
  rcases h with (hbuffer | hqueue) | hversions
  · exact .inl (.inl hbuffer)
  · exact .inl (.inr (hqueue.append more))
  · refine .inr (hversions.trans ?_)
    rw [← hcontents]

theorem synced_handle (hdir : s.dir.getLast? ≠ some separator) (hname : isPluginName name.bytes = true)
    (h : Synced name s) (sortPlugins : PluginSort) : Synced name (step (.handle sortPlugins) s).state := by
  rw [step]
  cases hbuffer : s.buffer with
  | nil => exact h
  | cons filename buffer =>
    by_cases hsame : filename = name.bytes
    · right
      have hpaths : entryPath s.dir name.bytes = reloadPath s.dir name.bytes := if_neg hdir
      have hreload :=
        runtimesOf_reload (reloadPath s.dir name.bytes) (s.contents name.bytes) sortPlugins s.plugins
      rw [hsame]
      dsimp only [Outcome.ok, versions]
      rw [if_pos hname, hpaths]
      simp only [or_self]
      exact hreload
    · rcases h with (hin | hqueue) | hversions
      · rw [hbuffer] at hin
        exact .inl (.inl ((List.mem_cons.1 hin).resolve_left (Ne.symm hsame)))
      · exact .inl (.inr hqueue)
      · right
        dsimp only [Outcome.ok, versions] at hversions ⊢
        split_ifs
        · have hperm := versions_reload_other hsame (s.contents filename) sortPlugins s.dir s.plugins
          rw [hversions] at hperm
          exact eq_toList_of_perm hperm
        · exact hversions

/-- Every step keeps a file synced whose changes are reported. -/
theorem Synced.step (hdir : s.dir.getLast? ≠ some separator) (hname : isPluginName name.bytes = true)
    (h : Synced name s) (hreported : Reported name s event) : Synced name (step event s).state := by
  have hother {name' : FileName} (hne : name' ≠ name) (file : PluginFile) :
      Function.update s.contents name'.bytes file name.bytes = s.contents name.bytes :=
    Function.update_of_ne (fun heq => hne (FileName.bytes_injective heq.symm)) _ _
  have hsame {contents : Str → PluginFile} (hcontents : contents name.bytes = s.contents name.bytes) :
      Synced name { s with contents } := by
    have hqueue := h.of_queue hcontents []
    rwa [List.append_nil] at hqueue
  cases event with
  | startHotReload => exact h
  | change name' file reports =>
    rw [PluginWatcher.step]
    by_cases heq : name' = name
    · subst heq
      rw [if_pos (hreported rfl)]
      split_ifs with hnames
      · exact .inl (.inr hnames)
      · exact h
    · split_ifs
      · exact h.of_queue (hother heq file) reports
      · exact h
      · exact hsame (hother heq file)
  | remove name' => exact hsame (hother hreported .missing)
  | report e =>
    rw [PluginWatcher.step]
    split_ifs
    · exact h.of_queue rfl [e]
    · exact h
  | read count =>
    by_cases hbuffer : s.buffer = []
    · rcases h with (hin | hqueue) | hversions
      · rw [hbuffer] at hin
        cases hin
      · exact .inl (outstanding_read count hqueue hbuffer)
      · rw [PluginWatcher.step, if_pos hbuffer]
        exact .inr hversions
    · rw [PluginWatcher.step, if_neg hbuffer]
      exact h
  | handle sortPlugins => exact synced_handle hdir hname h sortPlugins

/-- Every file is synced after the scan. -/
theorem synced_start {dir : Str} (hdir : dir.getLast? ≠ some separator) (folder : PluginsFolder)
    (sortPlugins : PluginSort) (hname : isPluginName name.bytes = true) :
    Synced name (start dir folder sortPlugins) := by
  have hpaths : entryPath dir name.bytes = reloadPath dir name.bytes := if_neg hdir
  have hscan := runtimesOf_start dir folder sortPlugins hname
  right
  rw [versions, start]
  dsimp only
  rw [hpaths] at hscan ⊢
  simp only [or_self]
  exact hscan

theorem mirrors_of_no_slash {dir : Str} (hdir : dir.getLast? ≠ some separator) : Mirrors dir := by
  intro folder sortPlugins events name hname hreported
  have hsynced : Synced name (run (start dir folder sortPlugins) events) ∧
      (run (start dir folder sortPlugins) events).dir = dir := by
    refine Outcome.run_invariant_of (I := fun s => Synced name s ∧ s.dir = dir) (C := Reported name)
      ⟨synced_start hdir folder sortPlugins hname, rfl⟩ (fun s event _ hs hevent => ?_) hreported
      (List.prefix_refl events)
    exact ⟨hs.1.step (by rw [hs.2]; exact hdir) hname hevent, (dir_step event s).trans hs.2⟩
  intro s hout
  have hversions := hsynced.1.resolve_left hout
  rwa [hsynced.2] at hversions

/-! ## A directory with a slash at its end -/

/-- A reload of a path keeps the runtimes of the others. -/
theorem mem_reload_of_ne {rt : LoadedPlugin} {plugins : List LoadedPlugin} (hmem : rt ∈ plugins)
    {filepath : Str} (hne : rt.info.filepath ≠ filepath) (file : PluginFile) (sortPlugins : PluginSort) :
    rt ∈ reloadPlugin filepath file sortPlugins plugins := by
  rw [reloadPlugin, (sortPlugins.perm _).mem_iff, loadPlugin_eq, unloadPlugin]
  exact List.mem_append_left _ (List.mem_filter.2 ⟨hmem, decide_eq_true hne⟩)

/-- A file that loads has its runtime after the reload. -/
theorem mem_reload {rt : LoadedPlugin} {filepath : Str} {file : PluginFile}
    (hnew : newVersion filepath file = some rt) (sortPlugins : PluginSort) (plugins : List LoadedPlugin) :
    rt ∈ reloadPlugin filepath file sortPlugins plugins := by
  rw [reloadPlugin, (sortPlugins.perm _).mem_iff, loadPlugin_eq, hnew]
  exact List.mem_append_right _ (List.mem_singleton_self rt)

/-- The file of the counterexample. -/
def aLua : FileName := ⟨str "a.lua", by decide, by decide, by decide⟩

/-- A script that runs. -/
def scriptOf (text : String) : PluginFile := ⟨str text, some {}⟩

/-- A folder with one plugin. -/
def oneFile : PluginsFolder where
  entries := [⟨aLua, true, scriptOf "old", fun h => by cases h⟩]
  nodup := List.nodup_singleton _

/-- The report of a file that was modified. -/
def modified (name : FileName) (h : name.bytes.length + 1 < 2 ^ 32) : InotifyEvent :=
  .named ⟨List.replicate 12 0, by decide⟩ name 1 one_pos h

/-- The file is changed while it is watched, and its report is handled. -/
def oneChange : List Event :=
  [.startHotReload, .change aLua (scriptOf "new") [modified aLua (by decide)], .read 1, .handle insertionSort]

/-- What the run leaves. -/
def changed (dir : Str) : PluginWatcher :=
  { start dir oneFile insertionSort with
    watching := true
    contents := Function.update (start dir oneFile insertionSort).contents aLua.bytes (scriptOf "new")
    plugins := reloadPlugin (reloadPath dir aLua.bytes) (scriptOf "new") insertionSort
      (start dir oneFile insertionSort).plugins }

theorem run_oneChange (dir : Str) : run (start dir oneFile insertionSort) oneChange = changed dir := by
  have hnames : Names aLua [modified aLua (by decide)] := ⟨_, List.mem_singleton_self _, rfl⟩
  have hread : fileNames ([modified aLua (by decide)].flatMap InotifyEvent.encode) 0 = [aLua.bytes] :=
    fileNames_encode _
  have hcontents (contents : Str → PluginFile) :
      Function.update contents aLua.bytes (scriptOf "new") aLua.bytes = scriptOf "new" :=
    Function.update_self _ _ _
  have hlua : isPluginName aLua.bytes = true := by decide
  simp only [run, oneChange, Outcome.run_cons, Outcome.run_nil, step, start, Outcome.ok_state, if_true,
    if_pos hnames, List.nil_append, List.take_succ_cons, List.take_zero, hread, List.drop_succ_cons,
    List.drop_zero, hlua, hcontents, changed]

theorem reported_oneChange (dir : Str) : ∀ pre event post, oneChange = pre ++ event :: post →
    Reported aLua (run (start dir oneFile insertionSort) pre) event := by
  intro pre event post h
  rcases pre with - | ⟨first, - | ⟨second, pre⟩⟩
  · cases h
    trivial
  · cases h
    exact fun _ => rfl
  · have hmem : event ∈ oneChange.drop 2 := by
      rw [h]
      exact List.mem_append_right pre List.mem_cons_self
    rcases List.mem_pair.1 hmem with rfl | rfl <;> trivial

/-- The runtime of the scan stays beside the new one. -/
theorem exists_two_versions {dir : Str} (hdir : dir.getLast? = some separator) :
    ∃ old ∈ versions aLua (changed dir), ∃ new ∈ versions aLua (changed dir),
      old.info.filepath ≠ new.info.filepath := by
  obtain ⟨old, hold⟩ : ∃ old, newVersion (entryPath dir aLua.bytes) (scriptOf "old") = some old := ⟨_, rfl⟩
  obtain ⟨new, hnew⟩ : ∃ new, newVersion (reloadPath dir aLua.bytes) (scriptOf "new") = some new := ⟨_, rfl⟩
  have holdPath := newVersion_path _ _ hold
  have hnewPath := newVersion_path _ _ hnew
  have hpaths : entryPath dir aLua.bytes ≠ reloadPath dir aLua.bytes := by
    rw [entryPath, if_pos hdir, reloadPath]
    exact fun h => aLua.noSlash (List.append_cancel_left h ▸ List.mem_cons_self)
  have hscan := runtimesOf_start dir oneFile insertionSort (show isPluginName aLua.bytes = true by decide)
  have hmem : old ∈ (start dir oneFile insertionSort).plugins := by
    have hin : old ∈ runtimesOf (entryPath dir aLua.bytes) (start dir oneFile insertionSort).plugins := by
      rw [hscan]
      exact Option.mem_toList.2 hold
    exact (List.mem_filter.1 hin).1
  refine ⟨old, List.mem_filter.2 ⟨?_, decide_eq_true (Or.inl holdPath)⟩, new,
    List.mem_filter.2 ⟨?_, decide_eq_true (Or.inr hnewPath)⟩, ?_⟩
  · exact mem_reload_of_ne hmem (holdPath.trans_ne hpaths) (scriptOf "new") insertionSort
  · exact mem_reload hnew insertionSort _
  · rw [holdPath, hnewPath]
    exact hpaths

theorem not_mirrors_of_slash {dir : Str} (hdir : dir.getLast? = some separator) : ¬Mirrors dir := by
  intro hmirrors
  have hout : ¬Outstanding aLua (changed dir) := by
    rintro (h | ⟨e, h, -⟩) <;> cases h
  have hsame := hmirrors oneFile insertionSort oneChange aLua (by decide) (reported_oneChange dir)
  rw [run_oneChange] at hsame
  obtain ⟨old, hold, new, hnew, hne⟩ := exists_two_versions hdir
  rw [hsame hout, Option.mem_toList] at hold hnew
  exact hne ((newVersion_path _ _ hold).trans (newVersion_path _ _ hnew).symm)

/-- The runtimes are those of the files exactly if the directory is configured without a slash at its end. -/
theorem mirrors_iff (dir : Str) : Mirrors dir ↔ dir.getLast? ≠ some separator :=
  ⟨fun hmirrors hslash => not_mirrors_of_slash hslash hmirrors, mirrors_of_no_slash⟩

/-- The directory of the configuration. -/
theorem mirrors_plugins : Mirrors (str "plugins") ∧ ¬Mirrors (str "plugins/") := by
  refine ⟨(mirrors_iff (str "plugins")).2 (by decide), fun h => ?_⟩
  exact (mirrors_iff (str "plugins/")).1 h (by decide)

end PluginWatcher

end LlmGateway
