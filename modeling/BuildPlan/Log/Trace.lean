import BuildPlan.Evaluation
import BuildPlan.Log.Event

/-!
# Traces

The trace of a computation is the list of the events that happen in it, in order. A computation that
fails has a trace too: the events up to the failure. Traces follow the steps of the computation, and
each step is the one that the computation itself takes.
-/

namespace BuildPlan.Trace

/-! ## Steps in a row -/

/-- The events of independent steps, up to and including the first that fails. -/
def along {α β ε : Type} (step : α → Except ε β) (events : α → List Event) :
    List α → List Event
  | [] => []
  | a :: as =>
    match step a with
    | .ok _ => events a ++ along step events as
    | .error _ => events a

/-- The events of steps that each start from the result of the one before, up to and including the
first that fails. -/
def alongFold {σ α ε : Type} (step : σ → α → Except ε σ) (events : σ → α → List Event) :
    σ → List α → List Event
  | _, [] => []
  | s, a :: as =>
    match step s a with
    | .ok s' => events s a ++ alongFold step events s' as
    | .error _ => events s a

/-- The event of a success. -/
def onSuccess {α ε : Type} (result : Except ε α) (event : α → List Event) : List Event :=
  match result with
  | .ok a => event a
  | .error _ => []

/-! ## Templates and rules -/

/-- Coming upon a directory that can not be listed. -/
def skipped? : Except Wildcard.Unreadable Text → Option Event
  | .ok _ => none
  | .error unreadable => some (.skippedDirectory unreadable.path unreadable.cause)

/-- Expanding one word. -/
def pattern (ws : Workspace) (word : Text) : List Event :=
  onSuccess (Wildcard.expandWord ws word) fun found =>
    found.filterMap skipped?
      ++ [.expandedPattern word (found.filterMap Except.toOption).length]

/-- Applying a function: `glob` expands one word after the other. -/
def call (ws : Workspace) (f : WordFunction) (operand : Text) : List Event :=
  match f with
  | .glob => along (Wildcard.expandWord ws) (pattern ws) (words operand)
  | _ => []

/-- Expanding a segment. -/
def segment (ws : Workspace) (names : Namespace) : Segment → List Event
  | .placeholder ⟨name, some arg, _⟩ =>
    if names.contains name then []
    else
      match WordFunction.ofName? name with
      | some f => call ws f (Template.inertOperand names arg)
      | none => []
  | _ => []

/-- Expanding a template. -/
def template (ws : Workspace) (names : Namespace) (t : Text) : List Event :=
  along (Template.expandSegment ws names) (segment ws names) (Template.parse t)

/-- Working out the outputs of a rule. -/
def outs (ws : Workspace) (r : Rule) : List Event :=
  match r.pat with
  | some pat =>
    along (Rule.outputOf ws pat) (fun input => template ws (Bindings.empty.insert "in" input) pat)
      r.ins
  | none => []

/-! ## Resolution -/

/-- Resolving one global. -/
def globalStep (ws : Workspace) (names : Namespace) (g : Text × Text) : List Event :=
  template ws names g.2
    ++ onSuccess (Template.expand ws names g.2) fun value => [.resolvedGlobal g.1 value]

/-- Resolving all globals. -/
def globals (ws : Workspace) (raw : Bindings Text) : List Event :=
  alongFold (Resolution.addGlobal ws) (globalStep ws) .empty raw.entries
    ++ onSuccess (Resolution.resolveGlobals ws raw) fun names => [.resolvedGlobals names.size]

/-- Expanding the template of an assignment. -/
def update (ws : Workspace) (names : Namespace) (p : Property) (raw : Text) : List Event :=
  match p with
  | .ins | .out => template ws names raw
  | .pat => []

/-- Carrying out an assignment. -/
def assignment (ws : Workspace) (s : Resolution) (a : Text × Text) : List Event :=
  onSuccess (Resolution.readKey s.rules a.1) fun (name, rule, p) =>
    update ws s.names p a.2
      ++ onSuccess (Resolution.update ws s.names rule p a.2) fun rule =>
        .resolvedProperty name p :: outs ws rule

/-- Carrying out all assignments. -/
def rules (ws : Workspace) (ruleNames : List Text) (assignments : List (Text × Text))
    (names : Namespace) : List Event :=
  alongFold (Resolution.assign ws) (assignment ws) (Resolution.start ruleNames names) assignments
    ++ onSuccess (Resolution.resolveRules ws ruleNames assignments names) fun s =>
      [.resolvedRules s.rules.size s.names.size]

/-! ## Evaluation and edges -/

/-- Evaluating a build description. -/
def evaluation (ws : Workspace) (d : Description) : List Event :=
  globals ws d.globals
    ++ onSuccess (Resolution.resolveGlobals ws d.globals) fun defines =>
      rules ws d.ruleNames d.assignments defines

/-- Reading and evaluating a build description. -/
def evaluationOfFile (ws : Workspace) (path : Text) : List Event :=
  onSuccess (ws.readText path) fun t =>
    .loadedDescription path
      :: onSuccess (Description.parse t) fun d =>
        .evaluating path d.ruleNames.length :: evaluation ws d

/-- Working out the edges of a manifest. -/
def edges (ws : Workspace) (m : Manifest) : List Event :=
  along (fun (name, rule) => Rule.edges ws name rule) (fun (_, rule) => outs ws rule)
      m.rules.entries
    ++ onSuccess (m.edges ws) fun es => [.computedEdges es.length]

end BuildPlan.Trace
