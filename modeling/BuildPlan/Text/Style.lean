import BuildPlan.Text.Basic

/-!
# Styles

A stream may understand escape sequences. A text is then shown in bold or in a colour by putting one
sequence before it and one behind it. To all other streams texts are written as they are.
-/

namespace BuildPlan

/-- How texts look on a stream. -/
inductive Style where
  /-- All texts look alike. -/
  | plain
  /-- The stream understands escape sequences. -/
  | coloured
deriving DecidableEq

namespace Style

/-- The text between two escape sequences, if the stream understands them. -/
def between (on off : Text) (style : Style) (t : Text) : Text :=
  match style with
  | .plain => t
  | .coloured => on ++ t ++ off

/-- The text in bold. -/
def bold : Style → Text → Text := between "\x1b[1m" "\x1b[0m"

/-- The text in green. -/
def green : Style → Text → Text := between "\x1b[32m" "\x1b[39m"

/-- The text in red. -/
def red : Style → Text → Text := between "\x1b[31m" "\x1b[39m"

end Style

end BuildPlan
