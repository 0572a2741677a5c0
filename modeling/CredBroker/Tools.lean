import CredBroker.Models

/-!
# Tools

The adapters agents may name, and the registry as the package ships it.
-/

namespace CredBroker

open Python

/-- A tool adapter without its `call`, which is the provider's side, and without what
nothing reads. -/
structure ToolAdapter where
  name : Str
  provider : Str
  scope : Str
  deriving DecidableEq

/-- `DriveListFilesTool`. -/
def driveListFilesTool : ToolAdapter where
  name := "drive.read"
  provider := "google"
  scope := "read"

/-- `TOOL_REGISTRY` once `credbroker.tools` is imported. -/
def toolRegistry : List ToolAdapter := [driveListFilesTool]

/-- `get_tool(name)`. -/
def getTool (name : Str) : Except PyExn ToolAdapter :=
  match toolRegistry.find? (·.name = name) with
  | some tool => .ok tool
  | none => .error (.unknownToolError ("unknown tool: " ++ name))

/-- A registered tool is found under its own name only. -/
theorem getTool_name {name : Str} {tool : ToolAdapter} (found : getTool name = .ok tool) :
    tool ∈ toolRegistry ∧ tool.name = name := by
  unfold getTool at found
  split at found
  · rename_i hit
    obtain rfl := Except.ok.inj found
    exact ⟨List.mem_of_find?_eq_some hit, by simpa using List.find?_some hit⟩
  · cases found

/-- No registered tool's name contains the separator of idempotency keys. -/
theorem toolRegistry_colon : ∀ tool ∈ toolRegistry, ':' ∉ tool.name := by decide

end CredBroker
