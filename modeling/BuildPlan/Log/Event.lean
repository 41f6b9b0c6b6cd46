import BuildPlan.Rule
import BuildPlan.Text.Quoted

/-!
# Log events

An event is something that happened during a run. It is shown on one line: how important it is,
which part of the program reports it, what happened, and the details as fields. Words that could be
mistaken for something else are quoted. Events are shown without colours.
-/

namespace BuildPlan

/-- How important an event is. -/
inductive Level where
  | warn
  | info
  | debug
deriving DecidableEq

/-- The level in five columns. -/
def Level.label : Level → Text
  | .warn => " WARN"
  | .info => " INFO"
  | .debug => "DEBUG"

/-- Something that happened during a run. -/
inductive Event where
  | skippedDirectory (path : Text) (cause : AccessError)
  | expandedPattern (word : Text) (count : Nat)
  | loadedDescription (path : Text)
  | evaluating (path : Text) (rules : Nat)
  | resolvedGlobal (key value : Text)
  | resolvedGlobals (count : Nat)
  | resolvedProperty (rule : Text) (property : Property)
  | resolvedRules (rules keys : Nat)
  | computedEdges (count : Nat)
  | renderedManifest (edges bytes : Nat)
  | wroteManifest (path : Text) (bytes : Nat)
deriving DecidableEq

namespace Event

/-- How important the event is. -/
def level : Event → Level
  | .skippedDirectory .. => .warn
  | .evaluating .. | .resolvedGlobals .. | .resolvedRules .. | .wroteManifest .. => .info
  | _ => .debug

/-- The part of the program that reports the event. -/
def reporter : Event → Text
  | .skippedDirectory .. | .expandedPattern .. => "ninjagen_lib::functions"
  | .loadedDescription .. => "ninjagen_lib::config"
  | .evaluating .. => "ninjagen_lib::eval"
  | .resolvedGlobal .. | .resolvedGlobals .. | .resolvedProperty .. | .resolvedRules .. =>
    "ninjagen_lib::resolve"
  | .computedEdges .. | .wroteManifest .. => "ninjagen_lib::manifest"
  | .renderedManifest .. => "ninjagen::cmd::gen_manifest"

/-- What happened. -/
def message : Event → Text
  | .skippedDirectory .. => "skipping unreadable path"
  | .expandedPattern .. => "expanded glob"
  | .loadedDescription .. => "loaded build description"
  | .evaluating .. => "evaluating build description"
  | .resolvedGlobal .. => "resolved global"
  | .resolvedGlobals .. => "resolved globals"
  | .resolvedProperty .. => "resolved rule property"
  | .resolvedRules .. => "resolved rules"
  | .computedEdges .. => "computed build edges"
  | .renderedManifest .. => "rendered manifest"
  | .wroteManifest .. => "wrote manifest"

/-- The details of the event, as names and texts. -/
def fields : Event → List (Text × Text)
  | .skippedDirectory path cause => [("path", Quoted.quote path), ("error", cause.message)]
  | .expandedPattern word count => [("pattern", Quoted.quote word), ("count", decimal count)]
  | .loadedDescription path => [("path", path)]
  | .evaluating path rules => [("path", path), ("rules", decimal rules)]
  | .resolvedGlobal key value => [("key", key), ("value", value)]
  | .resolvedGlobals count => [("count", decimal count)]
  | .resolvedProperty rule property =>
    [("rule", Quoted.quote rule), ("property", property.name)]
  | .resolvedRules rules keys => [("rules", decimal rules), ("keys", decimal keys)]
  | .computedEdges count => [("count", decimal count)]
  | .renderedManifest edges bytes => [("edges", decimal edges), ("bytes", decimal bytes)]
  | .wroteManifest path bytes => [("path", path), ("bytes", decimal bytes)]

/-- The event on one line, with the line end. -/
def line (e : Event) : Text :=
  e.level.label ++ " " ++ e.reporter ++ ": " ++ e.message
    ++ e.fields.flatMap (fun (name, value) => ' ' :: name ++ '=' :: value) ++ "\n"

end Event

end BuildPlan
