import BuildPlan.Text.Basic

/-!
# Lines

A line ends at a newline, and a carriage return directly before the newline belongs to the line
end. What follows the last newline is a line unless it is empty.
-/

namespace BuildPlan

/-- A line without one carriage return at its end. -/
def dropReturn (line : Text) : Text :=
  match line.reverse with
  | '\r' :: rest => rest.reverse
  | _ => line

/-- From the pieces between newlines to lines: all but the last piece end in a newline. -/
def closeLines : List Text → List Text
  | [] => []
  | [last] => if last.isEmpty then [] else [last]
  | piece :: pieces => dropReturn piece :: closeLines pieces

/-- The lines of a text, without their line ends. -/
def lines (t : Text) : List Text := closeLines (t.splitOn '\n')

/-- The text with `replacement` in place of each newline. -/
def replaceNewlines (replacement t : Text) : Text :=
  t.flatMap fun c => if c = '\n' then replacement else [c]

end BuildPlan
