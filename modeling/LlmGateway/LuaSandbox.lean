import Mathlib.Data.List.TakeWhile
import Mathlib.Logic.Function.Basic
import LlmGateway.Base
import LlmGateway.Lib.Outcome

/-!
# The environment of a pooled Lua state

`LuaSandbox::create` and `LuaSandbox::reset`.  The global environment is a map from keys to values, and the
library tables are maps of their own, which values refer to.  Plugin scripts are arbitrary programs that
write globals and fields of these tables.

`reset` reads the keys of the globals as C strings, and deletes the globals under the texts that are not on its
list (`globals_reset_eq`).  It restores neither those on the list nor the tables, and leaves the globals whose
key is no C string: `clean_borrows_iff`.  A number as the key of a global is left out, as `for_each` converts
it in place and fails.
-/

namespace LlmGateway

/-- The tables of the libraries that are opened, and the one that is injected. -/
inductive LibTable where
  | string
  | math
  | table
  | coroutine
  | utf8
  | gateway
  deriving DecidableEq

/-- A value: a table of a library, the table of the globals, a function of the host, or what scripts make,
with all that belongs to it. -/
inductive LuaValue (V : Type) where
  | lib (t : LibTable)
  | globals
  | builtin (name : Str)
  | made (v : V)
  deriving DecidableEq

/-- A key of a table: a string, which may hold any bytes, or another value. -/
inductive LuaKey (V : Type) where
  | name (s : Str)
  | other (v : LuaValue V)
  deriving DecidableEq

/-- A map from keys to values that are not nil. -/
abbrev LuaTable (V : Type) := LuaKey V → Option (LuaValue V)

/-- The tables that all scripts of a state share. -/
@[ext]
structure LuaEnv (V : Type) where
  globals : LuaTable V
  lib : LibTable → LuaTable V

namespace LuaEnv

variable {V : Type} [DecidableEq V]

/-- Assign a global, or delete it. -/
def setGlobal (key : LuaKey V) (v : Option (LuaValue V)) (env : LuaEnv V) : LuaEnv V :=
  { env with globals := Function.update env.globals key v }

/-- Assign a field of a library table, or delete it. -/
def setField (t : LibTable) (key : LuaKey V) (v : Option (LuaValue V)) (env : LuaEnv V) : LuaEnv V :=
  { env with lib := Function.update env.lib t (Function.update (env.lib t) key v) }

end LuaEnv

namespace LuaSandbox

variable {V : Type}

/-- `kDangerous`. -/
def dangerous : List Str :=
  ["os", "io", "package", "require", "dofile", "loadfile", "load", "rawset", "rawget", "rawlen", "rawequal",
    "module", "debug", "collectgarbage", "gcinfo", "newproxy"].map str

/-- `nullify_dangerous`. -/
def nullifyDangerous [DecidableEq V] (env : LuaEnv V) : LuaEnv V :=
  (dangerous.foldl (fun env name => env.setGlobal (.name name) none) env).setGlobal
    (.name (str "package")) none

/-- The functions of `gateway`. -/
def apiNames : List Str :=
  ["log", "metric_inc", "metric_get", "now_ms", "http_post", "cache_get", "cache_set", "cache_size"].map str

/-- `inject_api`. -/
def injectApi [DecidableEq V] (env : LuaEnv V) : LuaEnv V :=
  apiNames.foldl
    (fun env name => env.setField .gateway (.name name) (some (.builtin (str "gateway." ++ name))))
    { env.setGlobal (.name (str "gateway")) (some (.lib .gateway)) with
      lib := Function.update env.lib .gateway fun _ => none }

/-- `create`, from the environment that opening the libraries gives. -/
def create [DecidableEq V] (opened : LuaEnv V) : LuaEnv V := injectApi (nullifyDangerous opened)

/-- `kKeep`. -/
def keep : List Str :=
  ["assert", "error", "ipairs", "next", "pairs", "pcall", "print", "select", "tonumber", "tostring", "type",
    "xpcall", "string", "math", "table", "coroutine", "utf8", "gateway", "_VERSION", "_G"].map str

/-- The text that `for_each` passes for a key: the bytes of a string up to the first NUL, and nothing for
another key. -/
def keyText : LuaKey V → Str
  | .name s => s.takeWhile fun b => b ≠ 0
  | .other _ => []

/-- The key is the string that its text is assigned under. -/
def isText : LuaKey V → Bool
  | .name s => !s.contains 0
  | .other _ => false

/-- The text of the key is on the list, or does not lead back to the key. -/
def Survives (key : LuaKey V) : Prop := keyText key ∈ keep ∨ isText key = false

instance (key : LuaKey V) : Decidable (Survives key) := inferInstanceAs (Decidable (_ ∨ _))

/-- `reset`. -/
def reset (env : LuaEnv V) : LuaEnv V :=
  { env with globals := fun key => if Survives key then env.globals key else none }

/-! ## Scripts -/

/-- What a script writes. -/
inductive Command (V : Type) where
  | setGlobal (key : LuaKey V) (v : Option (LuaValue V))
  | setField (t : LibTable) (key : LuaKey V) (v : Option (LuaValue V))

/-- What the command does. -/
def Command.exec [DecidableEq V] : Command V → LuaEnv V → LuaEnv V
  | .setGlobal key v, env => env.setGlobal key v
  | .setField t key v, env => env.setField t key v

/-- A program: what it writes depends on the environment. -/
abbrev Script (V : Type) := LuaEnv V → List (Command V)

/-- What a script does. -/
def runScript [DecidableEq V] (script : Script V) (env : LuaEnv V) : LuaEnv V :=
  (script env).foldl (fun env c => c.exec env) env

/-- What some scripts do, one after the other. -/
def runScripts [DecidableEq V] (scripts : List (Script V)) (env : LuaEnv V) : LuaEnv V :=
  scripts.foldl (fun env script => runScript script env) env

/-- A borrower: the state is reset, and its scripts run. -/
def useVm [DecidableEq V] (scripts : List (Script V)) (env : LuaEnv V) : Outcome (LuaEnv V) :=
  .ok (runScripts scripts (reset env))

/-- The environment after some borrowers. -/
def used [DecidableEq V] (env : LuaEnv V) (borrowers : List (List (Script V))) : LuaEnv V :=
  Outcome.run useVm env borrowers

/-- The globals that a reset does not delete and the tables of the libraries are as they were. -/
structure Leaves (env env' : LuaEnv V) : Prop where
  globals : ∀ key, Survives key → env'.globals key = env.globals key
  lib : env'.lib = env.lib

/-! ## What a reset restores -/

theorem globals_reset (env : LuaEnv V) (key : LuaKey V) :
    (reset env).globals key = if Survives key then env.globals key else none := rfl

theorem keyText_of_isText {key : LuaKey V} (h : isText key = true) : key = .name (keyText key) := by
  cases key with
  | name s =>
    rw [keyText, List.takeWhile_eq_self_iff.2]
    intro b hb
    rw [isText, Bool.not_eq_true', List.contains_eq_mem, decide_eq_false_iff_not] at h
    refine decide_eq_true fun hzero => h ?_
    rw [← hzero]
    exact hb
  | other v => cases h

theorem isText_name_keyText (key : LuaKey V) : isText (.name (keyText key) : LuaKey V) = true := by
  cases key with
  | name s =>
    rw [isText, keyText, Bool.not_eq_true', List.contains_eq_mem, decide_eq_false_iff_not]
    intro hzero
    simpa using List.mem_takeWhile_imp hzero
  | other v => rfl

/-- The loops of `reset`: the texts of the keys that are not on the list are collected, and then the globals
under these texts are deleted. -/
theorem globals_reset_eq (env : LuaEnv V) (key : LuaKey V)
    [Decidable (∃ key', (env.globals key').isSome ∧ keyText key' ∉ keep ∧ key = .name (keyText key'))] :
    (reset env).globals key =
      if ∃ key', (env.globals key').isSome ∧ keyText key' ∉ keep ∧ key = .name (keyText key') then none
      else env.globals key := by
  rw [globals_reset]
  by_cases hsurvives : Survives key
  · rw [if_pos hsurvives, if_neg]
    rintro ⟨key', -, hkeep, rfl⟩
    have htext : keyText (.name (keyText key') : LuaKey V) = keyText key' :=
      (LuaKey.name.inj (keyText_of_isText (isText_name_keyText key'))).symm
    rcases hsurvives with hlisted | hhidden
    · exact hkeep (htext ▸ hlisted)
    · rw [isText_name_keyText] at hhidden
      cases hhidden
  · rw [if_neg hsurvives]
    rw [Survives, not_or, Bool.not_eq_false] at hsurvives
    split_ifs with hremoved
    · rfl
    · -- a global that is there is found under its own text
      by_contra hpresent
      exact hremoved ⟨key, Option.isSome_iff_ne_none.2 (Ne.symm hpresent), hsurvives.1,
        keyText_of_isText hsurvives.2⟩

theorem reset_eq_iff {env env' : LuaEnv V} : reset env' = reset env ↔ Leaves (reset env) env' := by
  constructor
  · intro h
    refine ⟨fun key hkey => ?_, show (reset env').lib = _ from congrArg LuaEnv.lib h⟩
    have hglobal := congrFun (congrArg LuaEnv.globals h) key
    rwa [globals_reset, if_pos hkey] at hglobal
  · intro h
    ext1
    · funext key
      rw [globals_reset]
      split_ifs with hkey
      · exact h.globals key hkey
      · rw [globals_reset, if_neg hkey]
    · exact h.lib

/-! ## Borrowers -/

/-- After every borrower, the next one finds the environment of the first exactly if no borrower, in that
environment, changes a global that a reset does not delete or a table of a library for good. -/
theorem clean_borrows_iff [DecidableEq V] (opened : LuaEnv V) (borrowers : List (List (Script V))) :
    (∀ pre, pre <+: borrowers → reset (used (create opened) pre) = reset (create opened)) ↔
      ∀ scripts ∈ borrowers, Leaves (reset (create opened)) (runScripts scripts (reset (create opened))) := by
  have hstep (env : LuaEnv V) (scripts : List (Script V)) (h : reset env = reset (create opened)) :
      reset (useVm scripts env).state = reset (create opened) ↔
        Leaves (reset (create opened)) (runScripts scripts (reset (create opened))) := by
    rw [← reset_eq_iff, useVm, Outcome.ok_state, h]
  refine (Outcome.run_holds_iff (I := fun env => reset env = reset (create opened))
    (C := fun _ scripts => Leaves (reset (create opened)) (runScripts scripts (reset (create opened))))
    (fun _ h => h) rfl (fun env scripts _ h => (hstep env scripts h).2)
    fun env scripts _ h => (hstep env scripts h).1).trans ?_
  constructor
  · intro h scripts hscripts
    obtain ⟨pre, post, heq⟩ := List.append_of_mem hscripts
    exact h pre scripts post heq
  · rintro h pre scripts post rfl
    exact h scripts (List.mem_append_right pre List.mem_cons_self)

/-! ## A script that replaces functions -/

/-- The names in the libraries of Lua 5.3. -/
def libraryNames : LibTable → List String
  | .string =>
      ["byte", "char", "dump", "find", "format", "gmatch", "gsub", "len", "lower", "match", "rep", "reverse",
        "sub", "upper", "pack", "packsize", "unpack"]
  | .math =>
      ["abs", "ceil", "floor", "max", "min", "fmod", "modf", "log", "exp", "sqrt", "sin", "cos", "tan",
        "asin", "acos", "atan", "deg", "rad", "random", "randomseed", "tointeger", "type", "ult", "pi", "huge",
        "maxinteger", "mininteger"]
  | .table => ["concat", "insert", "move", "pack", "remove", "sort", "unpack"]
  | .coroutine => ["create", "isyieldable", "resume", "running", "status", "wrap", "yield"]
  | .utf8 => ["char", "charpattern", "codepoint", "codes", "len", "offset"]
  | .gateway => []

/-- The functions of the base library of Lua 5.3. -/
def baseNames : List String :=
  ["assert", "collectgarbage", "dofile", "error", "getmetatable", "ipairs", "load", "loadfile", "next", "pairs",
    "pcall", "print", "rawequal", "rawget", "rawlen", "rawset", "select", "setmetatable", "tonumber",
    "tostring", "type", "xpcall", "_VERSION"]

/-- The environment of a new state with the libraries of Lua 5.3. -/
def opened : LuaEnv Unit where
  globals
    | .name name =>
        if name = str "_G" then some .globals
        else if name = str "string" then some (.lib .string)
        else if name = str "math" then some (.lib .math)
        else if name = str "table" then some (.lib .table)
        else if name = str "coroutine" then some (.lib .coroutine)
        else if name = str "utf8" then some (.lib .utf8)
        else if (baseNames.map str).any (· = name) then some (.builtin name)
        else none
    | .other _ => none
  lib
    | t, .name name => if ((libraryNames t).map str).any (· = name) then some (.builtin name) else none
    | _, .other _ => none

/-- `a\0b`. -/
def hidden : Str := str "a" ++ 0 :: str "b"

/-- `pcall = function ... end; string.format = nil; _G["a\0b"] = function ... end`. -/
def replacing : Script Unit := fun _ =>
  [.setGlobal (.name (str "pcall")) (some (.made ())), .setField .string (.name (str "format")) none,
    .setGlobal (.name hidden) (some (.made ()))]

/-- The next borrower finds the script's functions, and no `string.format`. -/
theorem replacing_leaks :
    (reset (used (create opened) [[replacing]])).globals (.name (str "pcall")) = some (.made ()) ∧
      (reset (used (create opened) [[replacing]])).lib .string (.name (str "format")) = none ∧
      (reset (used (create opened) [[replacing]])).globals (.name hidden) = some (.made ()) ∧
      (reset (create opened)).globals (.name (str "pcall")) = some (.builtin (str "pcall")) ∧
      (reset (create opened)).globals (.name hidden) = none ∧
      reset (used (create opened) [[replacing]]) ≠ reset (create opened) := by
  have hpcall : (reset (used (create opened) [[replacing]])).globals (.name (str "pcall")) =
      some (.made ()) := by
    decide +kernel
  have hclean : (reset (create opened)).globals (.name (str "pcall")) =
      some (.builtin (str "pcall")) := by
    decide +kernel
  refine ⟨hpcall, by decide +kernel, by decide +kernel, hclean, by decide +kernel, fun heq => ?_⟩
  rw [heq, hclean] at hpcall
  exact absurd hpcall (by decide)

end LuaSandbox

end LlmGateway
