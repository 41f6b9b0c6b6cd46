import BuildPlan.Wildcard.Token

/-!
# Wildcard patterns

A pattern is matched against a file tree one path component at a time. A word is compiled twice:
first as a whole, then, if that succeeds, each component on its own. A bracketed set that reaches
across a slash passes the first and fails the second.
-/

namespace BuildPlan.Wildcard

/-- A path component of a pattern. -/
inductive Component where
  /-- A name without wildcards. -/
  | literal (name : Text)
  /-- A name with wildcards. -/
  | wild (tokens : List Token)
  /-- Two stars: any number of directories. -/
  | anyDepth
deriving DecidableEq

/-- The token stands for itself. -/
def Token.isChar : Token → Bool
  | .char _ => true
  | _ => false

/-- Read one component. -/
def Component.read (text : Text) : Except Fault Component :=
  (compile text).map fun tokens =>
    if tokens.all Token.isChar then .literal text
    else if tokens = [.anyDepth] then .anyDepth
    else .wild tokens

/-- The component matches a file name. -/
def Component.matches : Component → Text → Bool
  | .literal text, name => text == name
  | .wild tokens, name => matchTokens tokens name
  | .anyDepth, _ => true

/-- The component begins with a literal dot, so that it may match `.` and `..`. -/
def Component.isDotted : Component → Bool
  | .wild (.char '.' :: _) => true
  | _ => false

/-- A pattern: whether it starts at the root, whether only directories are asked for, and its
components. -/
structure Pattern where
  rooted : Bool
  directoriesOnly : Bool
  components : List Component
deriving DecidableEq

/-- The pieces between slashes, without one empty piece at the end if others come before it. -/
def componentTexts (body : Text) : List Text :=
  let pieces := body.splitOn '/'
  if 1 < pieces.length && pieces.getLast? == some [] then pieces.dropLast else pieces

/-- Read a word as a pattern. -/
def Pattern.read (word : Text) : Except Fault Pattern := do
  let _ ← compile word
  let rooted := word.head? == some '/'
  let components ← (componentTexts (if rooted then word.drop 1 else word)).mapM Component.read
  return ⟨rooted, word.getLast? == some '/', components⟩

end BuildPlan.Wildcard
