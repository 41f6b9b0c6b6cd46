import BuildPlan.Description.Sections
import BuildPlan.FileTree.Workspace
import BuildPlan.Text.Words

/-!
# Build descriptions

A build description names the files to include and the rules, gives the globals, and assigns
properties to rules. The first two are words in the section `meta`, which must be there; `globals`
and `rules` are sections of their own and may be missing. Other sections are of no account.
-/

namespace BuildPlan

/-- A build description. -/
structure Description where
  includes : List Text
  ruleNames : List Text
  globals : Bindings Text
  /-- Keys and templates of the section `rules`, in order. -/
  assignments : List (Text × Text)

/-- Why there is no build description. -/
inductive DescriptionError where
  | unreadable (path : Text) (cause : AccessError)
  | layout (cause : LayoutError)
  | missingSection (name : Text)
  | missingKey (name key : Text)
deriving DecidableEq

namespace DescriptionError

/-- What the error says. -/
def message : DescriptionError → Text
  | .unreadable path _ => "failed to read " ++ path
  | .layout e => e.message
  | .missingSection name => "missing section [" ++ name ++ "]"
  | .missingKey name key => "missing key '" ++ key ++ "' in [" ++ name ++ "]"

/-- The messages of the errors behind this one. -/
def causes : DescriptionError → List Text
  | .unreadable _ e => [e.message]
  | _ => []

end DescriptionError

namespace Description

/-- The words that a section must have under a key. -/
def requiredWords (name : Text) (s : Section) (key : Text) : Except DescriptionError (List Text) :=
  match s.get? key with
  | some value => .ok (words value)
  | none => .error (.missingKey name key)

/-- The build description that the sections give. -/
def ofSections (s : Sections) : Except DescriptionError Description :=
  match s.get? "meta" with
  | none => .error (.missingSection "meta")
  | some main => do
    let includes ← requiredWords "meta" main "includes"
    let ruleNames ← requiredWords "meta" main "rulenames"
    return {
      includes
      ruleNames
      globals := (s.get? "globals").getD .empty
      assignments := ((s.get? "rules").map Bindings.entries).getD [] }

/-- Read a build description. -/
def parse (t : Text) : Except DescriptionError Description := do
  let s ← (Sections.parse t).mapError .layout
  ofSections s

/-- Read the build description in the file at a path. -/
def load (ws : Workspace) (path : Text) : Except DescriptionError Description := do
  let t ← (ws.readText path).mapError (.unreadable path)
  parse t

end Description

end BuildPlan
