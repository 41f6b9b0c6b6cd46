import BuildPlan.Bindings
import BuildPlan.Template.Segment
import BuildPlan.WordFunction

/-!
# Expanding templates

Expanding a template replaces its placeholders. A plain reference stands for the value its name is
bound to, and for itself if the name is not bound. A call applies a function; a name that is bound
can not be called. Values are inserted as they are and not read as templates again.

A function works on its operand. The argument of a call may name a value, which is then the
operand. Otherwise the argument itself is expanded as a template first. Inside a template that
changes nothing: an argument ends before the first closing brace, so it holds no placeholder.
-/

namespace BuildPlan

/-- Why a template can not be expanded. -/
inductive ExpansionError where
  | undefinedFunction (name : Text)
  | notCallable (name : Text)
  | badPattern (cause : BadPattern)
deriving DecidableEq

/-- What the error says. -/
def ExpansionError.message : ExpansionError → Text
  | .undefinedFunction name => "no such function: '" ++ name ++ "'"
  | .notCallable name => "'" ++ name ++ "' is not callable"
  | .badPattern cause =>
    "invalid glob pattern '" ++ cause.word ++ "': " ++ cause.fault.message

namespace WordFunction

/-- Apply the function to a text, as part of an expansion. -/
def run (ws : Workspace) (f : WordFunction) (operand : Text) : Except ExpansionError Text :=
  (f.apply ws operand).mapError .badPattern

end WordFunction

namespace Template

/-- The operand that an argument without placeholders denotes: the value it names, or itself. -/
def inertOperand (ns : Namespace) (arg : Text) : Text := (ns.get? (trim arg)).getD arg

/-- The text that a placeholder of a parsed template stands for. The argument of a call is taken as
it is, where a function that is `invoke`d with any text expands it first. `parse` gives no argument
with a placeholder in it, so for what it gives the two agree (`expandPlaceholder_eq_invoke`). -/
def expandPlaceholder (ws : Workspace) (ns : Namespace) (p : Placeholder) :
    Except ExpansionError Text :=
  match p.arg with
  | none => .ok ((ns.get? p.name).getD p.raw)
  | some arg =>
    if ns.contains p.name then .error (.notCallable p.name)
    else
      match WordFunction.ofName? p.name with
      | none => .error (.undefinedFunction p.name)
      | some f => f.run ws (inertOperand ns arg)

/-- The text that a segment stands for. -/
def expandSegment (ws : Workspace) (ns : Namespace) : Segment → Except ExpansionError Text
  | .literal t => .ok t
  | .placeholder p => expandPlaceholder ws ns p

/-- The text that the segments of a parsed template stand for. -/
def expandSegments (ws : Workspace) (ns : Namespace) (segments : List Segment) :
    Except ExpansionError Text :=
  (segments.mapM (expandSegment ws ns)).map List.flatten

/-- The text that a template stands for. -/
def expand (ws : Workspace) (ns : Namespace) (t : Text) : Except ExpansionError Text :=
  expandSegments ws ns (parse t)

end Template

namespace WordFunction

/-- The operand of a call with any text as argument: the value that the argument names, or else
the argument expanded as a template. -/
def operand (ws : Workspace) (ns : Namespace) (arg : Text) : Except ExpansionError Text :=
  match ns.get? (trim arg) with
  | some v => .ok v
  | none => Template.expand ws ns arg

/-- Call the function with any text as argument. -/
def invoke (ws : Workspace) (ns : Namespace) (f : WordFunction) (arg : Text) :
    Except ExpansionError Text := do
  f.run ws (← operand ws ns arg)

end WordFunction

end BuildPlan
