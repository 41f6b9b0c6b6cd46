import BuildPlan.Bindings
import BuildPlan.Description.Statement
import BuildPlan.Text.Lines

/-!
# Sections of a build description

The statements of a build description are put into sections: a header opens a section, and the keys
that follow belong to it. No two sections have the same name and no two keys of one section are
equal. The first statement that breaks a rule is the error.
-/

namespace BuildPlan

/-- The keys of one section with their values, in order. -/
abbrev Section := Bindings Text

/-- Sections by name, in order. -/
abbrev Sections := Bindings Section

/-- What is wrong with the layout of a build description, and in which line. -/
inductive LayoutError where
  | missingHeader (line : Nat)
  | unreadable (line : Nat) (text : Text)
  | duplicateSection (line : Nat) (name : Text)
  | duplicateKey (line : Nat) (name key : Text)
deriving DecidableEq

namespace LayoutError

/-- The number of the offending line. -/
def line : LayoutError → Nat
  | .missingHeader n => n
  | .unreadable n _ => n
  | .duplicateSection n _ => n
  | .duplicateKey n _ _ => n

/-- What the error says. -/
def message : LayoutError → Text
  | .missingHeader n => "line " ++ decimal n ++ ": key outside of any section"
  | .unreadable n t => "line " ++ decimal n ++ ": expected 'key = value', found '" ++ t ++ "'"
  | .duplicateSection n name => "line " ++ decimal n ++ ": duplicate section [" ++ name ++ "]"
  | .duplicateKey n name key =>
    "line " ++ decimal n ++ ": duplicate key '" ++ key ++ "' in [" ++ name ++ "]"

end LayoutError

namespace Sections

/-- The section that is being filled: the one opened last. -/
def last? (s : Sections) : Option (Text × Section) := s.entries.getLast?

/-- Add one statement. -/
def add (s : Sections) : Statement → Except LayoutError Sections
  | .header n name =>
    if s.contains name then .error (.duplicateSection n name) else .ok (s.insert name .empty)
  | .setting n key value =>
    match last? s with
    | none => .error (.missingHeader n)
    | some (name, keys) =>
      if keys.contains key then .error (.duplicateKey n name key)
      else .ok (s.insert name (keys.insert key value))
  | .unreadable n t =>
    match last? s with
    | none => .error (.missingHeader n)
    | some _ => .error (.unreadable n t)

/-- Put statements into sections. -/
def ofStatements (l : List Statement) : Except LayoutError Sections := l.foldlM add .empty

/-- Read the sections of a list of lines. -/
def ofLines (ls : List Text) : Except LayoutError Sections :=
  ofStatements (Description.statements ls)

/-- Read the sections of a text. -/
def parse (t : Text) : Except LayoutError Sections := ofLines (lines t)

end Sections

end BuildPlan
