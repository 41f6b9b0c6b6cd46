import BuildPlan.Template.Expansion

/-!
# Errors of a resolution

The values of globals and the properties of rules are templates under keys. An error names the key
at which the resolution stopped.
-/

namespace BuildPlan

/-- Why a build description can not be resolved. -/
inductive ResolutionError where
  /-- The template under the key can not be expanded. -/
  | template (key : Text) (cause : ExpansionError)
  | malformedKey (key : Text)
  | unknownRule (rule key : Text)
  | unknownProperty (property key : Text)
deriving DecidableEq

namespace ResolutionError

/-- What the error says. -/
def message : ResolutionError → Text
  | .template key _ => "failed to evaluate '" ++ key ++ "'"
  | .malformedKey key => "bad rule key '" ++ key ++ "': expected <rule>.<ins|out|pat>"
  | .unknownRule rule key => "bad rule " ++ rule ++ " (in " ++ key ++ ")"
  | .unknownProperty property key => "bad opt " ++ property ++ " (in " ++ key ++ ")"

/-- The messages of the errors behind this one. -/
def causes : ResolutionError → List Text
  | .template _ e => [e.message]
  | _ => []

end ResolutionError

end BuildPlan
