import BuildPlan.Resolution.Error

/-!
# Resolving globals

Globals are expanded in order, each against the values of those before it.
-/

namespace BuildPlan.Resolution

/-- Add one global to those already resolved. -/
def addGlobal (ws : Workspace) (ns : Namespace) (g : Text × Text) :
    Except ResolutionError Namespace :=
  match Template.expand ws ns g.2 with
  | .ok value => .ok (ns.insert g.1 value)
  | .error e => .error (.template g.1 e)

/-- The values of all globals. -/
def resolveGlobals (ws : Workspace) (raw : Bindings Text) : Except ResolutionError Namespace :=
  raw.entries.foldlM (addGlobal ws) .empty

end BuildPlan.Resolution
