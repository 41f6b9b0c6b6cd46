import BuildPlan.Description.Basic
import BuildPlan.Manifest.Basic
import BuildPlan.Resolution.Globals
import BuildPlan.Resolution.Rules

/-!
# Evaluation

Evaluating a build description resolves its globals, then its rules, starting from the names of the
globals. The manifest defines the globals alone; the names published by rules are known only inside
the evaluation.
-/

namespace BuildPlan

/-- The result of an evaluation: the manifest, and every name that is bound at the end. -/
structure Evaluation where
  manifest : Manifest
  names : Namespace

/-- Why a file can not be evaluated. -/
inductive EvaluationError where
  | description (cause : DescriptionError)
  | resolution (cause : ResolutionError)
deriving DecidableEq

namespace EvaluationError

/-- What the error says. -/
def message : EvaluationError → Text
  | .description e => e.message
  | .resolution e => e.message

/-- The messages of the errors behind this one. -/
def causes : EvaluationError → List Text
  | .description e => e.causes
  | .resolution e => e.causes

end EvaluationError

/-- Evaluate a build description. -/
def Description.evaluate (ws : Workspace) (d : Description) :
    Except ResolutionError Evaluation := do
  let defines ← Resolution.resolveGlobals ws d.globals
  let resolved ← Resolution.resolveRules ws d.ruleNames d.assignments defines
  return ⟨⟨d.includes, defines, resolved.rules⟩, resolved.names⟩

/-- Evaluate the build description in the file at a path. -/
def evaluateFile (ws : Workspace) (path : Text) : Except EvaluationError Evaluation := do
  let d ← (Description.load ws path).mapError .description
  (d.evaluate ws).mapError .resolution

end BuildPlan
