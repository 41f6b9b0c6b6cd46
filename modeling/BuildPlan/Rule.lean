import BuildPlan.Template.Expansion

/-!
# Rules

A rule has inputs, and its outputs either as a list or as a pattern: a template that makes one
output of each input, which it knows as `in`. If a rule has both, the pattern counts.
-/

namespace BuildPlan

/-- A rule as far as it has been described. -/
structure Rule where
  ins : List Text := []
  /-- The template that makes an output of an input. -/
  pat : Option Text := none
  out : Option (List Text) := none
deriving DecidableEq

/-- A property that can be assigned to a rule. -/
inductive Property where
  | ins
  | out
  | pat
deriving DecidableEq

namespace Property

/-- All properties. -/
def all : List Property := [.ins, .out, .pat]

/-- The name of a property in a key. -/
def name : Property → Text
  | .ins => "ins"
  | .out => "out"
  | .pat => "pat"

/-- The property of that name. -/
def ofName? (t : Text) : Option Property := all.find? (·.name == t)

end Property

namespace Rule

/-- A rule about which nothing is known. -/
def empty : Rule := {}

/-- The rule says how to get its outputs. -/
def hasOuts (r : Rule) : Bool := r.pat.isSome || r.out.isSome

/-- The output that a pattern makes of an input. -/
def outputOf (ws : Workspace) (pat input : Text) : Except ExpansionError Text :=
  Template.expand ws (Bindings.empty.insert "in" input) pat

/-- The outputs of a rule, if it says how to get them. -/
def outs (ws : Workspace) (r : Rule) : Except ExpansionError (Option (List Text)) :=
  match r.pat with
  | some pat => (r.ins.mapM (outputOf ws pat)).map some
  | none => .ok r.out

end Rule

end BuildPlan
