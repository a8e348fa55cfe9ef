import Mathlib.Data.List.Sort
import LlmGateway.Base
import LlmGateway.Lib.Outcome

/-!
# Reloads of plugins

`reload_plugin` takes the runtime of a file out of the list, loads the file, which puts a new one at the end,
and sorts the list.  Only the first of these steps holds the lock that a request takes its snapshot under,
so a request may see the list between them.

`snapshots_whole_iff`: in a run of the watcher and the requests, all snapshots have every loaded file once
and are in order exactly if none is taken while a file that was loaded before is out, or while a runtime of
higher priority than others is at the end.
-/

namespace LlmGateway

/-- What a plugin says of itself. -/
structure PluginInfo where
  filepath : Str
  name : Str
  version : Str
  priority : Int32 := 0
  enabled : Bool := true
  deriving DecidableEq

/-- `PluginRuntime`, as the list has it. -/
structure LoadedPlugin where
  info : PluginInfo
  scriptBody : Str
  hasInit : Bool := false
  hasOnRequest : Bool := false
  hasOnToken : Bool := false
  hasOnDone : Bool := false
  deriving DecidableEq

/-- The globals of a new Lua state after a script: the values that have the type that is asked for, and
which hooks are functions. -/
structure ScriptGlobals where
  name : Option Str := none
  version : Option Str := none
  priority : Option Int32 := none
  hasInit : Bool := false
  hasOnRequest : Bool := false
  hasOnToken : Bool := false
  hasOnDone : Bool := false

/-- A file: its text, empty if it cannot be read, and what the script leaves, unless it raises an error. -/
structure PluginFile where
  body : Str
  globals : Option ScriptGlobals

/-- An entry of the directory. -/
structure DirEntry where
  path : Str
  isRegularFile : Bool
  file : PluginFile

/-- A directory, whose entries have different paths. -/
structure PluginsDir where
  entries : List DirEntry
  nodup : (entries.map DirEntry.path).Nodup

/-- The order in which plugins are executed. -/
def Descending (plugins : List LoadedPlugin) : Prop :=
  plugins.Pairwise fun a b => b.info.priority ≤ a.info.priority

instance (plugins : List LoadedPlugin) : Decidable (Descending plugins) :=
  inferInstanceAs (Decidable (List.Pairwise _ _))

/-- `std::sort` by descending priority.  What it does to equal elements is up to the library. -/
structure PluginSort where
  sort : List LoadedPlugin → List LoadedPlugin
  perm : ∀ plugins, (sort plugins).Perm plugins
  descending : ∀ plugins, Descending (sort plugins)

namespace PluginManager

/-- `path().extension() == ".lua"`: a name that only begins with the dot has no extension. -/
def isLua (path : Str) : Bool :=
  (str ".lua").isSuffixOf path && path ≠ str ".lua" && !(str "/.lua").isSuffixOf path

/-- What is loaded from a script that runs. -/
def pluginRuntime (filepath body : Str) (globals : ScriptGlobals) : LoadedPlugin where
  info :=
    { filepath
      name := globals.name.getD (str "unnamed")
      version := globals.version.getD (str "0.0.0")
      priority := globals.priority.getD 0
      enabled := true }
  scriptBody := body
  hasInit := globals.hasInit
  hasOnRequest := globals.hasOnRequest
  hasOnToken := globals.hasOnToken
  hasOnDone := globals.hasOnDone

/-- Load a file; one that is empty or does not run changes nothing. -/
def loadPlugin (filepath : Str) (file : PluginFile) (plugins : List LoadedPlugin) : List LoadedPlugin :=
  if file.body = [] then plugins
  else
    match file.globals with
    | none => plugins
    | some globals => plugins ++ [pluginRuntime filepath file.body globals]

/-- Remove the plugins of a file. -/
def unloadPlugin (filepath : Str) (plugins : List LoadedPlugin) : List LoadedPlugin :=
  plugins.filter fun rt => rt.info.filepath ≠ filepath

/-- An iteration of the scan. -/
def scanEntry (plugins : List LoadedPlugin) (entry : DirEntry) : List LoadedPlugin :=
  if entry.isRegularFile && isLua entry.path then loadPlugin entry.path entry.file plugins else plugins

/-- Load the files of a directory. -/
def scanAndLoad (dir : PluginsDir) (sortPlugins : PluginSort) : List LoadedPlugin :=
  sortPlugins.sort (dir.entries.foldl scanEntry [])

/-- Unload a file, and load it again. -/
def reloadPlugin (filepath : Str) (file : PluginFile) (sortPlugins : PluginSort)
    (plugins : List LoadedPlugin) : List LoadedPlugin :=
  sortPlugins.sort (loadPlugin filepath file (unloadPlugin filepath plugins))

/-- The files of the runtimes. -/
def paths (plugins : List LoadedPlugin) : List Str := plugins.map fun rt => rt.info.filepath

/-! ## The watcher and the requests -/

/-- A file that loads. -/
structure ValidScript where
  body : Str
  globals : ScriptGlobals
  nonempty : body ≠ []

/-- The file with the script. -/
def ValidScript.file (script : ValidScript) : PluginFile := ⟨script.body, some script.globals⟩

/-- Where the watcher is in `reload_plugin`. -/
inductive WatcherPc where
  | idle
  | unloaded (filepath : Str)
  | loaded (rt : LoadedPlugin)

/-- `files` is a record of the files that have been loaded. -/
structure Reloading where
  plugins : List LoadedPlugin
  pc : WatcherPc := .idle
  files : List Str

/-- A step of a reload, or a request between two of them. -/
inductive Event where
  | unload (filepath : Str)
  | load (script : ValidScript)
  | sort (sortPlugins : PluginSort)
  /-- A request copies the list. -/
  | snapshot

/-- A step of the watcher that is not its next one does not happen. -/
def step (event : Event) (s : Reloading) : Outcome Reloading :=
  match event, s.pc with
  | .unload filepath, .idle =>
      .ok { s with plugins := unloadPlugin filepath s.plugins, pc := .unloaded filepath }
  | .load script, .unloaded filepath =>
      .ok
        { plugins := loadPlugin filepath script.file s.plugins
          pc := .loaded (pluginRuntime filepath script.body script.globals)
          files := filepath :: s.files }
  | .sort sortPlugins, .loaded _ =>
      .ok { s with plugins := sortPlugins.sort s.plugins, pc := .idle }
  | _, _ => .ok s

/-- After `init`, before the first reload. -/
def start (dir : PluginsDir) (sortPlugins : PluginSort) : Reloading where
  plugins := scanAndLoad dir sortPlugins
  files := paths (scanAndLoad dir sortPlugins)

/-- The list after some events. -/
def run (s : Reloading) (events : List Event) : Reloading := Outcome.run step s events

/-- Every file that was loaded is in the list once, and the list is in order. -/
def Whole (s : Reloading) : Prop :=
  (∀ filepath ∈ s.files, (paths s.plugins).count filepath = 1) ∧ Descending s.plugins

/-- No file that was loaded before is out, and no runtime is at the end that belongs before another. -/
def Undisturbed (s : Reloading) : Prop :=
  match s.pc with
  | .idle => True
  | .unloaded filepath => filepath ∉ s.files
  | .loaded rt => ∀ rt' ∈ s.plugins, rt.info.priority ≤ rt'.info.priority

/-- The three steps of the watcher are `reload_plugin`. -/
theorem plugins_reload {s : Reloading} (hidle : s.pc = .idle) (filepath : Str) (script : ValidScript)
    (sortPlugins : PluginSort) :
    (run s [.unload filepath, .load script, .sort sortPlugins]).plugins =
      reloadPlugin filepath script.file sortPlugins s.plugins := by
  obtain ⟨plugins, pc, files⟩ := s
  obtain rfl : pc = .idle := hidle
  rfl

/-! ## The list between the steps -/

theorem loadPlugin_valid (filepath : Str) (script : ValidScript) (plugins : List LoadedPlugin) :
    loadPlugin filepath script.file plugins =
      plugins ++ [pluginRuntime filepath script.body script.globals] :=
  if_neg script.nonempty

theorem paths_loadPlugin (filepath : Str) (file : PluginFile) (plugins : List LoadedPlugin) :
    paths (loadPlugin filepath file plugins) = paths plugins ∨
      paths (loadPlugin filepath file plugins) = paths plugins ++ [filepath] := by
  unfold loadPlugin
  split_ifs
  · exact .inl rfl
  · split
    · exact .inl rfl
    · exact .inr List.map_append

theorem paths_unloadPlugin (filepath : Str) (plugins : List LoadedPlugin) :
    paths (unloadPlugin filepath plugins) = (paths plugins).filter (· ≠ filepath) := by
  unfold paths unloadPlugin
  rw [List.filter_map]
  rfl

theorem descending_concat {plugins : List LoadedPlugin} {rt : LoadedPlugin} :
    Descending (plugins ++ [rt]) ↔
      Descending plugins ∧ ∀ rt' ∈ plugins, rt.info.priority ≤ rt'.info.priority := by
  unfold Descending
  rw [List.pairwise_append]
  simp

/-- What holds of the list at each point of a reload. -/
structure Valid (s : Reloading) : Prop where
  nodup : (paths s.plugins).Nodup
  mem : ∀ filepath, filepath ∈ paths s.plugins ↔ filepath ∈ s.files ∧ s.pc ≠ .unloaded filepath
  order : match s.pc with
    | .loaded rt => ∃ plugins, s.plugins = plugins ++ [rt] ∧ Descending plugins
    | _ => Descending s.plugins

theorem paths_append (plugins : List LoadedPlugin) (rt : LoadedPlugin) :
    paths (plugins ++ [rt]) = paths plugins ++ [rt.info.filepath] := List.map_append

theorem Valid.step {s : Reloading} (h : Valid s) (event : Event) : Valid (step event s).state := by
  obtain ⟨plugins, pc, files⟩ := s
  obtain ⟨hnodup, hmem, horder⟩ := h
  cases event with
  | unload filepath =>
    cases pc with
    | idle =>
      have hpaths := paths_unloadPlugin filepath plugins
      refine ⟨hpaths ▸ hnodup.filter _, fun other => ?_, List.Pairwise.filter _ horder⟩
      have hold := hmem other
      show other ∈ paths (unloadPlugin filepath plugins) ↔ _
      rw [hpaths, List.mem_filter, hold]
      simp [PluginManager.step, eq_comm (a := other)]
    | unloaded _ => exact ⟨hnodup, hmem, horder⟩
    | loaded _ => exact ⟨hnodup, hmem, horder⟩
  | load script =>
    cases pc with
    | unloaded filepath =>
      have hpaths : paths (loadPlugin filepath script.file plugins) = paths plugins ++ [filepath] := by
        rw [loadPlugin_valid, paths_append]
        rfl
      have hout : filepath ∉ paths plugins := fun hin => ((hmem filepath).1 hin).2 rfl
      refine ⟨?_, fun other => ?_, ⟨plugins, loadPlugin_valid filepath script plugins, horder⟩⟩
      · show (paths (loadPlugin filepath script.file plugins)).Nodup
        rw [hpaths, ← List.concat_eq_append, List.nodup_concat]
        exact ⟨hout, hnodup⟩
      · show other ∈ paths (loadPlugin filepath script.file plugins) ↔ _
        rw [hpaths, List.mem_append, List.mem_singleton, hmem other]
        by_cases hother : other = filepath
        · simp [PluginManager.step, hother]
        · simp [PluginManager.step, hother, Ne.symm hother]
    | idle => exact ⟨hnodup, hmem, horder⟩
    | loaded _ => exact ⟨hnodup, hmem, horder⟩
  | sort sortPlugins =>
    cases pc with
    | loaded rt =>
      have hperm : (paths (sortPlugins.sort plugins)).Perm (paths plugins) :=
        (sortPlugins.perm plugins).map _
      refine ⟨hperm.nodup_iff.2 hnodup, fun other => ?_, sortPlugins.descending plugins⟩
      refine hperm.mem_iff.trans ((hmem other).trans ?_)
      simp [PluginManager.step]
    | idle => exact ⟨hnodup, hmem, horder⟩
    | unloaded _ => exact ⟨hnodup, hmem, horder⟩
  | snapshot => cases pc <;> exact ⟨hnodup, hmem, horder⟩

/-- The files of a directory are loaded at most once each. -/
theorem nodup_paths_scan (entries : List DirEntry) (hnodup : (entries.map DirEntry.path).Nodup)
    (plugins : List LoadedPlugin) (hplugins : (paths plugins).Nodup)
    (hdisjoint : ∀ entry ∈ entries, entry.path ∉ paths plugins) :
    (paths (entries.foldl scanEntry plugins)).Nodup := by
  induction entries generalizing plugins with
  | nil => exact hplugins
  | cons entry entries ih =>
    rw [List.map_cons, List.nodup_cons] at hnodup
    obtain ⟨hentry, hrest⟩ := List.forall_mem_cons.1 hdisjoint
    rw [List.foldl_cons, scanEntry]
    have hskip := ih hnodup.2 plugins hplugins hrest
    split_ifs
    · rcases paths_loadPlugin entry.path entry.file plugins with hpaths | hpaths
      · exact ih hnodup.2 _ (hpaths ▸ hplugins) (hpaths ▸ hrest)
      · refine ih hnodup.2 _ ?_ fun entry' hentry' => ?_
        · rw [hpaths, ← List.concat_eq_append, List.nodup_concat]
          exact ⟨hentry, hplugins⟩
        · rw [hpaths, List.mem_append, List.mem_singleton]
          rintro (hin | heq)
          · exact hrest entry' hentry' hin
          · exact hnodup.1 (heq ▸ List.mem_map_of_mem hentry')
    · exact hskip

theorem valid_start (dir : PluginsDir) (sortPlugins : PluginSort) : Valid (start dir sortPlugins) where
  nodup := by
    refine (((sortPlugins.perm _).map _).nodup_iff).2 (nodup_paths_scan dir.entries dir.nodup [] ?_ ?_)
    · exact List.nodup_nil
    · exact fun _ _ => List.not_mem_nil
  mem filepath := by simp [start]
  order := sortPlugins.descending _

/-- The list is whole exactly if no reload disturbs it. -/
theorem Valid.whole_iff {s : Reloading} (h : Valid s) : Whole s ↔ Undisturbed s := by
  obtain ⟨plugins, pc, files⟩ := s
  obtain ⟨hnodup, hmem, horder⟩ := h
  have hcount (filepath : Str) : (paths plugins).count filepath = 1 ↔ filepath ∈ paths plugins := by
    refine ⟨fun hone => List.count_pos_iff.1 (by omega), List.count_eq_one_of_mem hnodup⟩
  unfold Whole Undisturbed
  simp only [hcount]
  cases pc with
  | idle =>
    exact iff_of_true ⟨fun filepath hfile => (hmem filepath).2 ⟨hfile, by simp⟩, horder⟩ trivial
  | unloaded filepath =>
    constructor
    · exact fun hwhole hfile => ((hmem filepath).1 (hwhole.1 filepath hfile)).2 rfl
    · refine fun hfile => ⟨fun other hother => (hmem other).2 ⟨hother, ?_⟩, horder⟩
      rintro ⟨⟩
      exact hfile hother
  | loaded rt =>
    obtain ⟨others, rfl, hdescending⟩ := horder
    rw [descending_concat, and_iff_right hdescending]
    rw [and_iff_right fun filepath hfile => (hmem filepath).2 ⟨hfile, by simp⟩]
    simp [or_imp, forall_and]

/-- In every run of the watcher and the requests, all snapshots are whole exactly if no reload disturbs
one. -/
theorem snapshots_whole_iff (dir : PluginsDir) (sortPlugins : PluginSort) (events : List Event) :
    (∀ pre post, events = pre ++ .snapshot :: post → Whole (run (start dir sortPlugins) pre)) ↔
      ∀ pre post, events = pre ++ .snapshot :: post → Undisturbed (run (start dir sortPlugins) pre) := by
  have hvalid (pre : List Event) : Valid (run (start dir sortPlugins) pre) :=
    Outcome.run_invariant Valid (valid_start dir sortPlugins) fun s event _ h => h.step event
  simp only [fun pre => (hvalid pre).whole_iff]

/-! ## A request during a reload -/

/-- Sorting by insertion, which keeps equal elements as they are. -/
def insertionSort : PluginSort where
  sort plugins := plugins.insertionSort fun a b => b.info.priority ≤ a.info.priority
  perm plugins := List.perm_insertionSort _ plugins
  descending plugins := by
    have : Std.Total fun a b : LoadedPlugin => b.info.priority ≤ a.info.priority :=
      ⟨fun a b => Int32.le_total b.info.priority a.info.priority⟩
    have : IsTrans LoadedPlugin fun a b => b.info.priority ≤ a.info.priority :=
      ⟨fun _ _ _ hab hbc => Int32.le_trans hbc hab⟩
    exact List.pairwise_insertionSort _ plugins

/-- A script with a hook. -/
def authScript : ValidScript where
  body := str "function on_request() end"
  globals := { hasOnRequest := true }
  nonempty := by decide

/-- The script is the only file. -/
def authDir : PluginsDir where
  entries := [⟨str "plugins/auth.lua", true, authScript.file⟩]
  nodup := List.nodup_singleton _

/-- A reload, and a request between its first two steps. -/
def reloadAndRequest : List Event :=
  [.unload (str "plugins/auth.lua"), .snapshot, .load authScript, .sort insertionSort]

/-- The request finds no plugins. -/
theorem request_in_gap :
    paths (start authDir insertionSort).plugins = [str "plugins/auth.lua"] ∧
      (run (start authDir insertionSort) [.unload (str "plugins/auth.lua")]).plugins = [] ∧
      ¬∀ pre post, reloadAndRequest = pre ++ .snapshot :: post →
        Whole (run (start authDir insertionSort) pre) := by
  have hpaths : paths (start authDir insertionSort).plugins = [str "plugins/auth.lua"] := by decide +kernel
  have hgap : (run (start authDir insertionSort) [.unload (str "plugins/auth.lua")]).plugins = [] := by
    decide +kernel
  refine ⟨hpaths, hgap, fun h => ?_⟩
  have hwhole := h [.unload (str "plugins/auth.lua")] [.load authScript, .sort insertionSort] rfl
  have hfiles : str "plugins/auth.lua" ∈ (start authDir insertionSort).files := by
    rw [show (start authDir insertionSort).files = [str "plugins/auth.lua"] from hpaths]
    exact List.mem_singleton_self _
  have hcount := hwhole.1 (str "plugins/auth.lua") hfiles
  rw [hgap] at hcount
  exact absurd hcount (by decide)

end PluginManager

end LlmGateway
