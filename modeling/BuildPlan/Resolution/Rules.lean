import BuildPlan.Resolution.Error
import BuildPlan.Rule

/-!
# Resolving rules

Assignments are taken in order. A key is the name of a declared rule, a dot and the name of a
property. Inputs and outputs are expanded at once, against the names bound so far, and split into
words; a pattern is kept as it is. After each assignment the rule is published: its properties are
bound under dotted names, so that later templates can refer to them.
-/

namespace BuildPlan

/-- The rules and the names bound after some assignments. -/
structure Resolution where
  rules : Bindings Rule
  names : Namespace

namespace Resolution

/-- The name under which a property of a rule is published. -/
def publishedName (rule : Text) (p : Property) : Text := rule ++ '.' :: p.name

/-- The two parts of a key around its only dot. -/
def splitKey? (key : Text) : Option (Text × Text) :=
  match cutAtFirst (· == '.') key with
  | some (rule, property) => if property.contains '.' then none else some (rule, property)
  | none => none

/-- The rule and the property that a key stands for. -/
def readKey (rules : Bindings Rule) (key : Text) :
    Except ResolutionError (Text × Rule × Property) :=
  match splitKey? key with
  | none => .error (.malformedKey key)
  | some (name, property) =>
    match rules.get? name with
    | none => .error (.unknownRule name key)
    | some rule =>
      match Property.ofName? property with
      | none => .error (.unknownProperty property key)
      | some p => .ok (name, rule, p)

/-- The rule after a property has been set to what a template gives. -/
def update (ws : Workspace) (names : Namespace) (rule : Rule) (p : Property) (raw : Text) :
    Except ExpansionError Rule :=
  match p with
  | .ins => (Template.expand ws names raw).map fun t => { rule with ins := words t }
  | .out => (Template.expand ws names raw).map fun t => { rule with out := some (words t) }
  | .pat => .ok { rule with pat := some raw }

/-- Bind a name to a text if there is one. -/
def bindSome (names : Namespace) (name : Text) : Option Text → Namespace
  | some t => names.insert name t
  | none => names

/-- Bind the properties of a rule under its published names: the inputs, the outputs if it has
any, and the pattern if it has one. -/
def publish (ws : Workspace) (names : Namespace) (name : Text) (rule : Rule) :
    Except ExpansionError Namespace := do
  let names := names.insert (publishedName name .ins) (unwords rule.ins)
  let outs ← rule.outs ws
  let names := bindSome names (publishedName name .out) (outs.map unwords)
  return bindSome names (publishedName name .pat) rule.pat

/-- Carry out one assignment. -/
def assign (ws : Workspace) (s : Resolution) (a : Text × Text) :
    Except ResolutionError Resolution := do
  let (name, rule, p) ← readKey s.rules a.1
  let rule ← (update ws s.names rule p a.2).mapError (.template a.1)
  let names ← (publish ws s.names name rule).mapError (.template a.1)
  return ⟨s.rules.insert name rule, names⟩

/-- The state before the first assignment: every declared rule is empty. -/
def start (ruleNames : List Text) (names : Namespace) : Resolution :=
  ⟨Bindings.ofList (ruleNames.map fun n => (n, Rule.empty)), names⟩

/-- Carry out all assignments. -/
def resolveRules (ws : Workspace) (ruleNames : List Text) (assignments : List (Text × Text))
    (names : Namespace) : Except ResolutionError Resolution :=
  assignments.foldlM (assign ws) (start ruleNames names)

end Resolution

end BuildPlan
