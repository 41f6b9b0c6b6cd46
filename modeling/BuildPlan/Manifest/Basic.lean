import BuildPlan.Manifest.Edge
import BuildPlan.Text.Lines

/-!
# Manifests

A manifest has three regions: the files to include, the definitions and the build edges. Each ends
with an empty line. A newline in the value of a definition is written as a space, a dollar sign and
the newline, which is how a line is continued there.
-/

namespace BuildPlan

/-- What a manifest is made from. -/
structure Manifest where
  includes : List Text
  defines : Namespace
  rules : Bindings Rule

namespace Manifest

/-- The edges of all rules, in the order of the rules. -/
def edges (ws : Workspace) (m : Manifest) : Except EdgeError (List Edge) :=
  (m.rules.entries.mapM fun (name, rule) => Rule.edges ws name rule).map List.flatten

/-- The line of an included file. -/
def includeLine (file : Text) : Text := "include " ++ file

/-- The lines of a definition. -/
def defineLine (name value : Text) : Text := name ++ " = " ++ replaceNewlines " $\n" value

/-- Lines, each with its line end, and an empty line after them. -/
def region (ls : List Text) : Text := ls.flatMap (· ++ ['\n']) ++ ['\n']

/-- The text of a manifest with the given edges. -/
def renderEdges (includes : List Text) (defines : Namespace) (edges : List Edge) : Text :=
  region (includes.map includeLine)
    ++ region (defines.entries.map fun (name, value) => defineLine name value)
    ++ region (edges.map Edge.line)

/-- The text of a manifest. -/
def render (ws : Workspace) (m : Manifest) : Except EdgeError Text :=
  (m.edges ws).map (renderEdges m.includes m.defines)

end Manifest

end BuildPlan
