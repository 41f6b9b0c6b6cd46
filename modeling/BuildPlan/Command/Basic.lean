import BuildPlan.Evaluation
import BuildPlan.FileTree.Replace
import BuildPlan.Listing

/-!
# Commands

There are three commands. `gen` writes the manifest of a build description to a file, `show` prints
it, and `vars` prints every name that the evaluation bound. Only `gen` changes a file, and only when
nothing has failed.

A command meets conditions that are not in the workspace: whether the streams show colours, and what
the system refuses. Ordinarily they do not, and it refuses nothing.
-/

namespace BuildPlan

/-- The conditions under which a command is carried out. -/
structure Conditions where
  /-- How texts look on the output stream. -/
  stdout : Style
  /-- How texts look on the error stream. -/
  stderr : Style
  /-- What the system refuses. -/
  refused : Refusals

/-- Streams without colours, and nothing refused. -/
def Conditions.ordinary : Conditions := ⟨.plain, .plain, .nothing⟩

/-- How `vars` prints names. -/
inductive ListingFormat where
  | text
  | json
deriving DecidableEq

/-- A command. -/
inductive Command where
  | gen (output : Text)
  | show
  | vars (format : ListingFormat)
deriving DecidableEq

/-- Why a command fails. -/
inductive CommandError where
  | evaluation (config : Text) (cause : EvaluationError)
  | edges (cause : EdgeError)
  | rendering (cause : EdgeError)
  | writing (output : Text) (cause : WriteError)
deriving DecidableEq

namespace CommandError

/-- What was attempted, then what went wrong, then why. -/
def chain : CommandError → List Text
  | .evaluation config e => ("Failed to evaluate config: " ++ config) :: e.message :: e.causes
  | .edges e => "Failed to compute build edges" :: e.message :: e.causes
  | .rendering e => "Failed to render manifest" :: e.message :: e.causes
  | .writing output e => [("Failed to write manifest: " ++ output), e.message]

end CommandError

namespace Command

/-- What is reported about a manifest that has been written. -/
def wroteReport (style : Style) (output : Text) (rules edges : Nat) : Text :=
  style.green "✓" ++ " Wrote " ++ output ++ " (" ++ decimal rules ++ " rule(s), " ++ decimal edges
    ++ " build edge(s))\n"

/-- The manifest as a text, with the number of its rules and of its edges. -/
def manifestFor (ws : Workspace) (config : Text) : Except CommandError (Text × Nat × Nat) := do
  let e ← (evaluateFile ws config).mapError (.evaluation config)
  let edges ← (e.manifest.edges ws).mapError .edges
  let text := Manifest.renderEdges e.manifest.includes e.manifest.defines edges
  return (text, e.manifest.rules.size, edges.length)

/-- Write the manifest to `output`. -/
def generate (cond : Conditions) (ws : Workspace) (config output : Text) :
    Workspace × Except CommandError Text :=
  match manifestFor ws config with
  | .error e => (ws, .error e)
  | .ok (text, rules, edges) =>
    match ws.replaceFile cond.refused output text with
    | (after, .ok ()) => (after, .ok (wroteReport cond.stdout output rules edges))
    | (after, .error e) => (after, .error (.writing output e))

/-- Print the manifest. -/
def showManifest (ws : Workspace) (config : Text) : Except CommandError Text := do
  let e ← (evaluateFile ws config).mapError (.evaluation config)
  (e.manifest.render ws).mapError .rendering

/-- Print the names. -/
def listNames (style : Style) (ws : Workspace) (config : Text) (format : ListingFormat) :
    Except CommandError Text := do
  let e ← (evaluateFile ws config).mapError (.evaluation config)
  return match format with
    | .text => Listing.text style e.names
    | .json => Listing.indentedJson e.names ++ ['\n']

/-- Carry out a command on the build description at `config`: the workspace after it, and what it
prints. -/
def execute (cond : Conditions) (ws : Workspace) (config : Text) :
    Command → Workspace × Except CommandError Text
  | .gen output => generate cond ws config output
  | .show => (ws, showManifest ws config)
  | .vars format => (ws, listNames cond.stdout ws config format)

end Command

end BuildPlan
