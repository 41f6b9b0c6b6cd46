import BuildPlan.FileTree.Basic
import BuildPlan.Text.Quoted
import BuildPlan.Text.Utf8

/-!
# Workspaces

A workspace is a file tree with a working directory. Paths are texts; `resolve` walks along a path
from the root or from the working directory and says where it leads or why it leads nowhere. It may
lead only through directories that may be searched, and neither a path nor a name in it may be too
long.

Reading a file needs a path that leads to a file, and reading it as text needs valid UTF-8. Listing
a directory needs a path that leads to a directory that may be read.
-/

namespace BuildPlan

/-! ## Why an access fails -/

/-- Why a path can not be used, or what the system says why it refuses something else. -/
inductive AccessError where
  | missing
  | denied
  | busy
  | notDirectory
  | isDirectory
  | nameTooLong
  | nulByte
  | notUtf8
  | reported (message : Text)
deriving DecidableEq

/-- What the error says. -/
def AccessError.message : AccessError → Text
  | .missing => "No such file or directory (os error 2)"
  | .denied => "Permission denied (os error 13)"
  | .busy => "Device or resource busy (os error 16)"
  | .notDirectory => "Not a directory (os error 20)"
  | .isDirectory => "Is a directory (os error 21)"
  | .nameTooLong => "File name too long (os error 36)"
  | .nulByte => "file name contained an unexpected NUL byte"
  | .notUtf8 => "stream did not contain valid UTF-8"
  | .reported message => message

/-! ## Paths -/

/-- One step along a path. -/
inductive PathStep where
  /-- No step: nothing stands before, between or after slashes. -/
  | slash
  /-- The directory itself. -/
  | stay
  /-- The directory above. -/
  | up
  /-- The entry of that name. -/
  | into (name : FileName)
deriving DecidableEq

/-- The step of one piece between slashes. -/
def PathStep.ofPiece (piece : Text) : PathStep :=
  if piece = [] then .slash
  else if piece = ['.', '.'] then .up
  else
    match FileName.ofText? piece with
    | some name => .into name
    | none => .stay

/-- The path starts at the root. -/
def isAbsolute (path : Text) : Bool := path.head? == some '/'

/-- A path followed by one more piece, with one slash between them. -/
def joinPath (path piece : Text) : Text :=
  if path.isEmpty then piece
  else if path.getLast? == some '/' then path ++ piece
  else path ++ '/' :: piece

/-- No name of a directory entry has more bytes than this. -/
def longestName : Nat := 255

/-- The name is longer than names can be. -/
def FileName.isTooLong (n : FileName) : Bool := longestName < Utf8.byteCount n.text

/-- No path has more bytes than this. -/
def longestPath : Nat := 4095

/-- The path is longer than paths can be. -/
def isTooLong (path : Text) : Bool := longestPath < Utf8.byteCount path

/-! ## Workspaces -/

/-- A file tree with a working directory. -/
structure Workspace where
  tree : FileTree
  cwd : Location
  /-- The working directory as messages show it. -/
  cwdText : Text
  /-- What makes the names of temporary files unique. -/
  tempTag : Text

namespace Workspace

/-- Walk along the steps of a path. Every step starts in a directory, which must allow it. -/
def walk (t : FileTree) : Location → List PathStep → Except AccessError Location
  | loc, [] => .ok loc
  | loc, step :: steps =>
    if !t.isDirectory loc then .error .notDirectory
    else if step ≠ .slash ∧ !t.allows maySearch loc then .error .denied
    else
      match step with
      | .slash | .stay => walk t loc steps
      | .up => walk t loc.dropLast steps
      | .into name =>
        if name.isTooLong then .error .nameTooLong
        else if t.contains (loc ++ [name]) then walk t (loc ++ [name]) steps
        else .error .missing

/-- Where a path starts. -/
def start (ws : Workspace) (path : Text) : Location := if isAbsolute path then [] else ws.cwd

/-- The text can be handed over as a path: it is not empty, not too long and has no NUL. -/
def checkPath (path : Text) : Except AccessError Unit :=
  if path.contains '\x00' then .error .nulByte
  else if path.isEmpty then .error .missing
  else if isTooLong path then .error .nameTooLong
  else .ok ()

/-- Where a path leads. -/
def resolve (ws : Workspace) (path : Text) : Except AccessError Location := do
  checkPath path
  walk ws.tree (ws.start path) ((path.splitOn '/').map PathStep.ofPiece)

/-- The bytes of the file at a path. -/
def readBytes (ws : Workspace) (path : Text) : Except AccessError ByteArray := do
  let loc ← ws.resolve path
  match ws.tree.get? loc with
  | some (.file mode content) => if mayRead mode then return content else throw .denied
  | some (.directory mode) => throw (if mayRead mode then .isDirectory else .denied)
  | none => throw .missing

/-- The text of the file at a path. -/
def readText (ws : Workspace) (path : Text) : Except AccessError Text := do
  let bytes ← ws.readBytes path
  match Utf8.decode? bytes with
  | some t => return t
  | none => throw .notUtf8

/-- The path leads to a directory. -/
def leadsToDirectory (ws : Workspace) (path : Text) : Bool :=
  match ws.resolve path with
  | .ok loc => ws.tree.isDirectory loc
  | .error _ => false

/-- The entries of the directory at a path, in order, each with the answer to whether it is a
directory. -/
def list (ws : Workspace) (path : Text) : Except AccessError (List (FileName × Bool)) := do
  let loc ← ws.resolve path
  if !ws.tree.isDirectory loc then throw .notDirectory
  if !ws.tree.allows mayRead loc then throw .denied
  return (ws.tree.below loc).filterMap fun (names, entry) =>
    match names with
    | [name] => some (name, entry.isDirectory)
    | _ => none

/-- A path as messages show it, from the root. -/
def absolute (ws : Workspace) (path : Text) : Text :=
  if isAbsolute path then path else joinPath ws.cwdText path

/-- The names that lead from the working directory to a path that stays below it. -/
def pathNames (path : Text) : Location :=
  (path.splitOn '/').filterMap FileName.ofText?

/-- All directories on the way from the working directory to the entry allow something. -/
def allowsOnWay (ws : Workspace) (may : Nat → Bool) (names : Location) : Bool :=
  (List.range names.length).all fun n => ws.tree.allows may (ws.cwd ++ names.take n)

/-- What the working directory holds, in order: the path of each entry, with a slash after that of
a directory, and the text of each file, shown even if it is not valid UTF-8. What may not be looked
at is shown like an empty file, and what may not be listed is not shown. -/
def contents (ws : Workspace) : List (Text × Option Text) :=
  (ws.tree.below ws.cwd).filterMap fun (names, entry) =>
    let path := ['/'].intercalate (names.map FileName.text)
    if !(ws.allowsOnWay mayRead names && ws.allowsOnWay maySearch names.dropLast) then none
    else if !ws.allowsOnWay maySearch names then some (path, some [])
    else
      match entry with
      | .directory _ => some (path ++ ['/'], none)
      | .file mode content =>
        some (path, some (if mayRead mode then Utf8.decodeLossy content else []))

end Workspace

end BuildPlan
