import BuildPlan.FileTree.Workspace
import BuildPlan.Wildcard.Pattern

/-!
# Expanding patterns

A pattern is expanded by walking through the file tree, one component after the other. The paths
found are written the way the pattern leads to them, and come in the order of a walk through the
tree. Hidden entries are never found by a wildcard; `.` and `..` are found by a component that
begins with a literal dot.

Everything is looked up by the path that is shown for it, so the walk goes only where that path
leads. A directory that can not be listed is reported when its turn comes, and the walk goes on.
-/

namespace BuildPlan.Wildcard

/-- A place the walk has reached. -/
structure Place where
  /-- The path that is shown for it. -/
  shown : Text
  /-- It is known to be a directory. -/
  isDirectory : Bool

/-- A directory that can not be listed, and why. -/
structure Unreadable where
  path : Text
  cause : AccessError
deriving DecidableEq

namespace Place

/-- The place that a path leads to. -/
def ofPath (ws : Workspace) (path : Text) : Place := ⟨path, ws.leadsToDirectory path⟩

/-- The shown path is the working directory itself, written as `.` and possibly further dots. -/
def isHere (p : Place) : Bool :=
  match p.shown.splitOn '/' with
  | [] => false
  | first :: rest => first == ['.'] && rest.all fun piece => piece.isEmpty || piece == ['.']

/-- The shown path after one more piece. The working directory is not shown in front of it. -/
def showNext (p : Place) (piece : Text) : Text :=
  if p.isHere then piece else joinPath p.shown piece

/-- The entries of a directory that are not hidden, in order. The listing says which of them are
directories. -/
def entries (ws : Workspace) (p : Place) : Except Unreadable (List (FileName × Place)) :=
  match ws.list p.shown with
  | .error cause => .error ⟨p.shown, cause⟩
  | .ok listed =>
    .ok ((listed.filter fun (name, _) => !name.isHidden).map fun (name, isDirectory) =>
      (name, ⟨p.showNext name.text, isDirectory⟩))

/-- Everything below a place that is not hidden, on some levels, in the order of a walk. As many
levels as the tree has are all levels (`below_eq_of_levels_le`). -/
def below (ws : Workspace) : Nat → Place → List (Except Unreadable (FileName × Place))
  | 0, _ => []
  | levels + 1, p =>
    if p.isDirectory then
      match p.entries ws with
      | .error unreadable => [.error unreadable]
      | .ok entries =>
        entries.flatMap fun (name, next) => .ok (name, next) :: below ws levels next
    else []

/-- The parent and the directory itself, where the component asks for them. -/
def dots (ws : Workspace) (c : Component) (p : Place) : List Place :=
  if c.isDotted then
    ([['.', '.'], ['.']].filter c.matches).map fun piece => ofPath ws (joinPath p.shown piece)
  else []

end Place

/-- The place that a component without wildcards leads to. A name is looked up by its path, while
`.` and `..` are in every directory. -/
def literalStep (ws : Workspace) (p : Place) (piece : Text) : Option Place :=
  let shown := p.showNext piece
  let isThere :=
    if piece = ['.'] ∨ piece = ['.', '.'] then p.isDirectory else (ws.resolve shown).isOk
  if isThere then some (.ofPath ws shown) else none

/-- What a walk along the components comes to: the shown paths of the places they lead to, and the
directories that it could not list. -/
def walk (ws : Workspace) (directoriesOnly : Bool) :
    List Component → Place → List (Except Unreadable Text)
  | [], p => if directoriesOnly && !p.isDirectory then [] else [.ok p.shown]
  | .literal piece :: rest, p =>
    match literalStep ws p piece with
    | some next => walk ws directoriesOnly rest next
    | none => []
  | .wild tokens :: rest, p =>
    if p.isDirectory then
      match p.entries ws with
      | .error unreadable => [.error unreadable]
      | .ok entries =>
        (p.dots ws (.wild tokens)).flatMap (fun next => walk ws directoriesOnly rest next)
          ++ entries.flatMap fun (name, next) =>
            if matchTokens tokens name.text then walk ws directoriesOnly rest next else []
    else []
  | .anyDepth :: .anyDepth :: rest, p => walk ws directoriesOnly (.anyDepth :: rest) p
  | [.anyDepth], p =>
    (p.below ws ws.tree.levels).filterMap fun
      | .error unreadable => some (.error unreadable)
      | .ok (_, next) => if next.isDirectory then some (.ok next.shown) else none
  | .anyDepth :: c :: rest, p =>
    (p.below ws ws.tree.levels).flatMap fun
      | .error unreadable => [.error unreadable]
      | .ok (name, next) =>
        if c.matches name.text then walk ws directoriesOnly rest next else []

/-- What a pattern finds, with the directories that could not be listed on the way. -/
def Pattern.expand (ws : Workspace) (pattern : Pattern) : List (Except Unreadable Text) :=
  walk ws pattern.directoriesOnly pattern.components
    (.ofPath ws (if pattern.rooted then ['/'] else ['.']))

/-- What a word finds when it is read as a pattern. -/
def expandWord (ws : Workspace) (word : Text) : Except Fault (List (Except Unreadable Text)) :=
  (Pattern.read word).map fun pattern => pattern.expand ws

end BuildPlan.Wildcard
