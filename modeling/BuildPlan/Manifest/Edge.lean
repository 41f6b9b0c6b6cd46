import BuildPlan.Rule

/-!
# Build edges

An edge says that an output is made from inputs by a rule. A rule with exactly one output makes it
from all its inputs. Otherwise each output is made from the input at the same position, and there
must be as many of the one as of the other.
-/

namespace BuildPlan

/-- One output, the rule that makes it and the inputs it is made from. -/
structure Edge where
  output : Text
  rule : Text
  inputs : List Text
deriving DecidableEq

/-- An edge as a line of a manifest, without the line end. -/
def Edge.line (e : Edge) : Text :=
  "build " ++ e.output ++ ": " ++ e.rule ++ e.inputs.flatMap (' ' :: ·)

/-- Why a rule has no edges. -/
inductive EdgeError where
  | outputsUndefined (rule : Text)
  | countMismatch (rule : Text) (ins outs : Nat)
  | template (rule : Text) (cause : ExpansionError)
deriving DecidableEq

namespace EdgeError

/-- What the error says. -/
def message : EdgeError → Text
  | .outputsUndefined rule => "can't compute outs of " ++ rule
  | .countMismatch rule ins outs =>
    rule ++ " pairs inputs with outputs but has " ++ decimal ins ++ " input(s) and "
      ++ decimal outs ++ " output(s)"
  | .template rule _ => "failed to compute outputs of " ++ rule

/-- The messages of the errors behind this one. -/
def causes : EdgeError → List Text
  | .template _ e => [e.message]
  | _ => []

end EdgeError

namespace Rule

/-- The edges between inputs and outputs. -/
def pairUp (name : Text) (ins outs : List Text) : Except EdgeError (List Edge) :=
  match outs with
  | [output] => .ok [⟨output, name, ins⟩]
  | outs =>
    if outs.length = ins.length then
      .ok ((ins.zip outs).map fun (input, output) => ⟨output, name, [input]⟩)
    else .error (.countMismatch name ins.length outs.length)

/-- The edges of the rule of that name. -/
def edges (ws : Workspace) (name : Text) (r : Rule) : Except EdgeError (List Edge) :=
  match r.outs ws with
  | .error e => .error (.template name e)
  | .ok none => .error (.outputsUndefined name)
  | .ok (some outs) => pairUp name r.ins outs

end Rule

end BuildPlan
