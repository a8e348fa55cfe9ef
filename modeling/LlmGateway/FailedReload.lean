import LlmGateway.PluginReload

/-!
# A reload of a file that does not load

An editor that saves a plugin in several steps makes the watcher reload whatever the file holds in between:
nothing, a part of the script, or the script.  `reload_plugin` takes the old runtime out before it reads the
file, and it returns `true` in any case.

`reload_keepsOld_iff`: for every list and every content of the file, the reload takes place or leaves the
list alone exactly if the file loads.  If it does not, the old runtime is gone
(`runtimesOf_reload_of_not_loads`).
-/

namespace LlmGateway

/-- The script can be read and raises no error. -/
def PluginFile.Loads (file : PluginFile) : Prop := file.body ≠ [] ∧ file.globals.isSome

namespace PluginManager

/-- `reload_plugin`, with the value that it returns. -/
def reload (filepath : Str) (file : PluginFile) (sortPlugins : PluginSort) (plugins : List LoadedPlugin) :
    Bool × List LoadedPlugin :=
  (true, reloadPlugin filepath file sortPlugins plugins)

/-- The runtime that the file gives, if it loads. -/
def newVersion (filepath : Str) (file : PluginFile) : Option LoadedPlugin :=
  if file.body = [] then none else file.globals.map (pluginRuntime filepath file.body)

/-- The runtimes of a file. -/
def runtimesOf (filepath : Str) (plugins : List LoadedPlugin) : List LoadedPlugin :=
  plugins.filter fun rt => rt.info.filepath = filepath

/-- A reload of the file returns `true` only with the new version in place of the old one, the other
runtimes as they were, and the list in order; and if it returns `false` the list is the old one. -/
structure KeepsOld (filepath : Str) (file : PluginFile) (plugins : List LoadedPlugin)
    (r : Bool × List LoadedPlugin) : Prop where
  success : r.1 = true → ∃ rt, newVersion filepath file = some rt ∧ runtimesOf filepath r.2 = [rt] ∧
    (unloadPlugin filepath r.2).Perm (unloadPlugin filepath plugins) ∧ Descending r.2
  failure : r.1 = false → r.2 = plugins

variable (filepath : Str) (file : PluginFile) (sortPlugins : PluginSort) (plugins : List LoadedPlugin)

theorem isSome_newVersion : (newVersion filepath file).isSome ↔ file.Loads := by
  unfold newVersion PluginFile.Loads
  split_ifs with hbody <;> simp [hbody]

theorem newVersion_path {rt : LoadedPlugin} (h : newVersion filepath file = some rt) :
    rt.info.filepath = filepath := by
  unfold newVersion at h
  split_ifs at h
  obtain ⟨globals, -, rfl⟩ := Option.map_eq_some_iff.1 h
  rfl

/-- Loading a file appends its runtime, if there is one. -/
theorem loadPlugin_eq : loadPlugin filepath file plugins = plugins ++ (newVersion filepath file).toList := by
  unfold loadPlugin newVersion
  split_ifs
  · simp
  · cases file.globals <;> simp

theorem runtimesOf_unloadPlugin : runtimesOf filepath (unloadPlugin filepath plugins) = [] := by
  simp [runtimesOf, unloadPlugin]

/-- The list after a reload holds the others and the new version. -/
theorem reload_perm : (reload filepath file sortPlugins plugins).2.Perm
    (unloadPlugin filepath plugins ++ (newVersion filepath file).toList) := by
  rw [← loadPlugin_eq]
  exact sortPlugins.perm _

/-- The new version is the only runtime of the file. -/
theorem runtimesOf_reload :
    runtimesOf filepath (reload filepath file sortPlugins plugins).2 = (newVersion filepath file).toList := by
  have hperm := (reload_perm filepath file sortPlugins plugins).filter fun rt => rt.info.filepath = filepath
  have hrest : (unloadPlugin filepath plugins ++ (newVersion filepath file).toList).filter
      (fun rt => rt.info.filepath = filepath) = (newVersion filepath file).toList := by
    rw [List.filter_append]
    have hnone : (unloadPlugin filepath plugins).filter (fun rt => rt.info.filepath = filepath) = [] :=
      runtimesOf_unloadPlugin filepath plugins
    rw [hnone, List.nil_append, List.filter_eq_self]
    intro rt hrt
    exact decide_eq_true (newVersion_path filepath file (Option.mem_toList.1 hrt))
  rw [hrest] at hperm
  cases hnew : newVersion filepath file with
  | none =>
    rw [hnew] at hperm
    exact hperm.eq_nil
  | some rt =>
    rw [hnew] at hperm
    exact List.perm_singleton.1 hperm

/-- The runtimes of the other files stay. -/
theorem unloadPlugin_reload : (unloadPlugin filepath (reload filepath file sortPlugins plugins).2).Perm
    (unloadPlugin filepath plugins) := by
  have hperm := (reload_perm filepath file sortPlugins plugins).filter fun rt => rt.info.filepath ≠ filepath
  refine hperm.trans (List.Perm.of_eq ?_)
  have hnew : (newVersion filepath file).toList.filter (fun rt => rt.info.filepath ≠ filepath) = [] := by
    rw [List.filter_eq_nil_iff]
    intro rt hrt
    simp [newVersion_path filepath file (Option.mem_toList.1 hrt)]
  rw [List.filter_append, hnew, List.append_nil, unloadPlugin, List.filter_filter]
  simp

/-- After a reload of a file that does not load there is no runtime of the file. -/
theorem runtimesOf_reload_of_not_loads (h : ¬file.Loads) :
    runtimesOf filepath (reload filepath file sortPlugins plugins).2 = [] := by
  have hnone : newVersion filepath file = none := by
    rw [← Option.not_isSome_iff_eq_none, isSome_newVersion]
    exact h
  rw [runtimesOf_reload, hnone]
  rfl

/-- A reload takes place or leaves the list as it is exactly if the file loads. -/
theorem reload_keepsOld_iff :
    KeepsOld filepath file plugins (reload filepath file sortPlugins plugins) ↔ file.Loads := by
  rw [← isSome_newVersion filepath, Option.isSome_iff_exists]
  constructor
  · intro h
    obtain ⟨rt, hrt, -⟩ := h.success rfl
    exact ⟨rt, hrt⟩
  · rintro ⟨rt, hrt⟩
    refine ⟨fun _ => ⟨rt, hrt, ?_, ?_, sortPlugins.descending _⟩, fun h => by cases h⟩
    · rw [runtimesOf_reload, hrt]
      rfl
    · exact unloadPlugin_reload filepath file sortPlugins plugins

/-- The file while it is written: it is empty. -/
def truncatedFile : PluginFile := ⟨[], none⟩

/-- The only plugin is gone, and the reload has returned `true`. -/
theorem reload_truncated :
    runtimesOf (str "plugins/auth.lua") (start authDir insertionSort).plugins ≠ [] ∧
      reload (str "plugins/auth.lua") truncatedFile insertionSort (start authDir insertionSort).plugins =
        (true, []) ∧
      ¬KeepsOld (str "plugins/auth.lua") truncatedFile (start authDir insertionSort).plugins
        (reload (str "plugins/auth.lua") truncatedFile insertionSort
          (start authDir insertionSort).plugins) := by
  refine ⟨by decide +kernel, by decide +kernel, fun h => ?_⟩
  obtain ⟨rt, hrt, -⟩ := h.success rfl
  cases hrt

end PluginManager

end LlmGateway
