import LlmGateway.Json

/-!
# The tool registry

`ToolRegistry`: the tools that the executors offer, in the order in which they were first added, each
with the session that it came from.  A session that adds a tool again changes its entry.
-/

namespace LlmGateway

/-- A tool, as it is registered. -/
structure ToolDef where
  name : Str
  description : Str
  parametersJson : Str
  deriving DecidableEq

/-- A tool, and who offers it. -/
structure ToolEntry where
  tool : ToolDef
  source : Str
  deriving DecidableEq

/-- The entries, in the order of their first registration. -/
structure ToolRegistry where
  entries : List ToolEntry := []
  deriving DecidableEq

namespace ToolRegistry

/-- The loop of `add` over the entries: change the first one of the tool and the source, or add one. -/
def addLoop (tool : ToolDef) (source : Str) : List ToolEntry → List ToolEntry
  | [] => [⟨tool, source⟩]
  | e :: es =>
      if e.tool.name = tool.name ∧ e.source = source then { e with tool } :: es
      else e :: addLoop tool source es

/-- Add a tool of a source, or replace it. -/
def add (name description parametersJson source : Str) (r : ToolRegistry) : ToolRegistry :=
  let source := if source = [] then str "static" else source
  { entries := addLoop ⟨name, description, parametersJson⟩ source r.entries }

/-- Remove the tools of a source. -/
def removeSource (source : Str) (r : ToolRegistry) : ToolRegistry :=
  { entries := r.entries.filter (·.source ≠ source) }

/-- The names of the entries. -/
def names (r : ToolRegistry) : List Str := r.entries.map (·.tool.name)

end ToolRegistry

end LlmGateway
