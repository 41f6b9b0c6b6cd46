import BuildPlan.FileTree.Workspace

/-!
# Replacing a file

A file is replaced as a whole: the contents go to a temporary file in the directory of the target,
which takes over the permission bits of the target if there is one and is then renamed onto it. Each
of these steps may fail, because the tree does not allow it or because the system refuses it for a
reason of its own, such as a disk that is full. Then the temporary file is removed. Either the
target has the new contents or the tree is as it was.

A new file has the permission bits that the umask leaves of 0o666; the umask is taken to be 0o022.
-/

namespace BuildPlan

/-! ## The directory of a path -/

/-- A piece that does not move: empty, or a dot. -/
def isIdle (piece : Text) : Bool := piece.isEmpty || piece == ['.']

/-- The pieces of a path, each with the answer to whether it is a component. Idle pieces are none,
except a dot at the start. -/
def markPieces (path : Text) : List (Text × Bool) :=
  match path.splitOn '/' with
  | [] => []
  | first :: rest => (first, !first.isEmpty) :: rest.map fun piece => (piece, !isIdle piece)

/-- The path without its last component, if it has a component. -/
def parentPath? (path : Text) : Option Text :=
  match (markPieces path).reverse.dropWhile (!·.2) with
  | [] => none
  | _ :: before =>
    let kept := (before.dropWhile (!·.2)).reverse.map Prod.fst
    some (if kept.isEmpty && isAbsolute path then ['/'] else ['/'].intercalate kept)

/-- The directory in which the file at a path lies, the working directory being `.`. -/
def directoryOf (path : Text) : Text :=
  match parentPath? path with
  | none | some [] => ['.']
  | some parent => parent

/-! ## Temporary files -/

/-- The length of the longest name in a file tree. -/
def FileTree.longestNameLength (t : FileTree) : Nat :=
  (t.entries.flatMap fun (loc, _) => loc.map fun n => n.text.length).foldl max 0

/-- A name for a temporary file, made longer by some letters. -/
def temporaryName (tag : Text) (letters : Nat) : FileName where
  text := '.' :: 't' :: 'm' :: 'p' :: (tag.filter (· != '/') ++ List.replicate letters 'x')
  proper := by simp [List.mem_replicate]

/-- A location in a directory where there is nothing yet, for a temporary file. -/
def FileTree.freshLocation (t : FileTree) (tag : Text) (dir : Location) : Location :=
  let candidate (letters : Nat) : Location := dir ++ [temporaryName tag letters]
  let letters := (List.range t.longestNameLength).find? fun n => !t.contains (candidate n)
  candidate (letters.getD t.longestNameLength)

/-! ## Renaming -/

/-- Move the file at a location to another one, in place of what is there. -/
def FileTree.move (t : FileTree) (source target : Location) : FileTree :=
  match t.get? source with
  | some entry => (t.erase source).insert target entry
  | none => t

namespace Workspace

/-- The workspace with an entry set at a location. -/
def put (ws : Workspace) (loc : Location) (entry : Entry) : Workspace :=
  { ws with tree := ws.tree.insert loc entry }

/-- The path of the temporary file that is made to replace the file at a path. -/
def temporaryPath (ws : Workspace) (path : Text) : Text :=
  joinPath (ws.absolute (directoryOf path)) (".tmp" ++ ws.tempTag)

/-- The location of the directory in which a temporary file is made, to replace the file at a
path. It must allow new entries. -/
def temporaryDirectory (ws : Workspace) (path : Text) : Except AccessError Location := do
  checkPath (ws.temporaryPath path)
  let loc ← ws.resolve (ws.absolute (directoryOf path))
  if !ws.tree.isDirectory loc then throw .notDirectory
  if !(ws.tree.allows mayWrite loc && ws.tree.allows maySearch loc) then throw .denied
  return loc

/-- The location that a file gets when it is renamed onto a path. The last piece must be a name,
and a slash after it is refused, since what is renamed is no directory. -/
def renameTarget (ws : Workspace) (path : Text) : Except AccessError Location := do
  checkPath path
  match (path.splitOn '/').reverse.dropWhile List.isEmpty with
  | [] => throw .busy
  | last :: before =>
    let loc ← walk ws.tree (ws.start path) (before.reverse.map PathStep.ofPiece)
    if !ws.tree.isDirectory loc then throw .notDirectory
    if !ws.tree.allows maySearch loc then throw .denied
    match PathStep.ofPiece last with
    | .slash | .stay | .up => throw .busy
    | .into name =>
      if name.isTooLong then throw .nameTooLong
      if path.getLast? == some '/' then throw .notDirectory
      if !ws.tree.allows mayWrite loc then throw .denied
      if ws.tree.isDirectory (loc ++ [name]) then throw .isDirectory
      return loc ++ [name]

/-- The permission bits that are kept: those of the owner, the group and all others. -/
def permissionBits (mode : Nat) : Nat := mode % 0o1000

/-- The permission bits of what is at a path. -/
def mode? (ws : Workspace) (path : Text) : Option Nat :=
  match ws.resolve path with
  | .ok loc => (ws.tree.get? loc).map Entry.mode
  | .error _ => none

/-- The workspace with other permission bits at a path. -/
def setMode (ws : Workspace) (path : Text) (mode : Nat) : Workspace :=
  match ws.resolve path with
  | .ok loc =>
    match ws.tree.get? loc with
    | some entry => ws.put loc (entry.withMode (permissionBits mode))
    | none => ws
  | .error _ => ws

end Workspace

/-! ## What the system refuses -/

/-- What the system refuses of a replacement that the tree allows, with its reasons. -/
structure Refusals where
  /-- To make a temporary file. -/
  make : Option AccessError
  /-- To write more than so many bytes to it. -/
  write : Option (Nat × AccessError)
  /-- To set its permission bits. -/
  setMode : Option AccessError
  /-- To rename it. -/
  rename : Option AccessError
deriving DecidableEq

namespace Refusals

/-- Nothing is refused. -/
def nothing : Refusals := ⟨none, none, none, none⟩

/-- Go on unless there is a refusal. -/
def heed : Option AccessError → Except AccessError Unit
  | none => .ok ()
  | some cause => .error cause

/-- As many of the bytes as can be written, with the reason if these are not all. -/
def accepted (refused : Refusals) (bytes : ByteArray) : ByteArray × Option AccessError :=
  match refused.write with
  | none => (bytes, none)
  | some (room, cause) =>
    if room < bytes.size then (bytes.extract 0 room, some cause) else (bytes, none)

end Refusals

/-- Why a file can not be replaced. -/
inductive WriteError where
  /-- No temporary file can be made at that path. -/
  | temporary (path : Text) (cause : AccessError)
  /-- The contents can not be written to the temporary file at that path. -/
  | contents (path : Text) (cause : AccessError)
  /-- The temporary file can not be given the permission bits of the target. -/
  | permissions (cause : AccessError)
  /-- The temporary file can not be renamed onto the target. -/
  | rename (cause : AccessError)
deriving DecidableEq

/-- What the error says. -/
def WriteError.message : WriteError → Text
  | .temporary path cause | .contents path cause =>
    cause.message ++ " at path " ++ Quoted.quote path
  | .permissions cause | .rename cause => cause.message

/-! ## The steps of a replacement -/

/-- A temporary file: where it is, and its path as messages show it. -/
structure TemporaryFile where
  location : Location
  shown : Text

/-- What is done to a temporary file before it is renamed. -/
inductive TemporaryStep where
  /-- Bytes are written behind those that are there. -/
  | write (bytes : ByteArray)
  /-- The permission bits of what is at a path are taken over, if there is anything. -/
  | adoptMode (path : Text)

namespace Workspace

/-- The permission bits of a new file. -/
def newFileMode : Nat := 0o644

/-- The workspace with another entry in place of the one at a location. -/
def amend (ws : Workspace) (loc : Location) (change : Entry → Entry) : Workspace :=
  match ws.tree.get? loc with
  | some entry => ws.put loc (change entry)
  | none => ws

/-- The temporary file that is to be made to replace the file at a path. -/
def temporaryFile (ws : Workspace) (refused : Refusals) (path : Text) :
    Except AccessError TemporaryFile := do
  let dir ← ws.temporaryDirectory path
  Refusals.heed refused.make
  return ⟨ws.tree.freshLocation ws.tempTag dir, ws.temporaryPath path⟩

/-- Make a temporary file, which is empty. -/
def make (ws : Workspace) (temp : TemporaryFile) : Workspace :=
  ws.put temp.location (.file newFileMode .empty)

/-- Remove a temporary file. -/
def discard (ws : Workspace) (temp : TemporaryFile) : Workspace :=
  { ws with tree := ws.tree.erase temp.location }

/-- Do a step to a temporary file. A step that fails may have been done in part. -/
def perform (ws : Workspace) (refused : Refusals) (temp : TemporaryFile) :
    TemporaryStep → Workspace × Except WriteError Unit
  | .write bytes =>
    let accepted := refused.accepted bytes
    (ws.amend temp.location (·.append accepted.1),
      (Refusals.heed accepted.2).mapError (.contents temp.shown))
  | .adoptMode path =>
    match ws.mode? path with
    | none => (ws, .ok ())
    | some mode =>
      match refused.setMode with
      | none => (ws.amend temp.location (·.withMode mode), .ok ())
      | some cause => (ws, .error (.permissions cause))

/-- Do some steps to a temporary file, up to the first that fails. -/
def prepare (ws : Workspace) (refused : Refusals) (temp : TemporaryFile) :
    List TemporaryStep → Workspace × Except WriteError Unit
  | [] => (ws, .ok ())
  | step :: steps =>
    match ws.perform refused temp step with
    | (after, .ok ()) => after.prepare refused temp steps
    | (after, .error e) => (after, .error e)

/-- Rename a temporary file onto a path. -/
def persist (ws : Workspace) (refused : Refusals) (temp : TemporaryFile) (path : Text) :
    Except AccessError Workspace := do
  let target ← ws.renameTarget path
  Refusals.heed refused.rename
  return { ws with tree := ws.tree.move temp.location target }

/-- Replace the file at a path, or make it, with the given contents. The temporary file is removed
wherever that fails. -/
def replaceFile (ws : Workspace) (refused : Refusals) (path contents : Text) :
    Workspace × Except WriteError Unit :=
  match ws.temporaryFile refused path with
  | .error cause => (ws, .error (.temporary (ws.temporaryPath path) cause))
  | .ok temp =>
    match (ws.make temp).prepare refused temp [.write (Utf8.encode contents), .adoptMode path] with
    | (prepared, .error e) => (prepared.discard temp, .error e)
    | (prepared, .ok ()) =>
      match prepared.persist refused temp path with
      | .error cause => (prepared.discard temp, .error (.rename cause))
      | .ok after => (after, .ok ())

end Workspace

/-! ## Fresh locations -/

namespace FileTree

theorem le_foldl_max (l : List Nat) (m : Nat) :
    m ≤ l.foldl max m ∧ ∀ n ∈ l, n ≤ l.foldl max m := by
  induction l generalizing m with
  | nil => simp
  | cons k l ih =>
    obtain ⟨h1, h2⟩ := ih (max m k)
    refine ⟨by simp only [List.foldl_cons]; omega, ?_⟩
    intro n hn
    rcases List.mem_cons.mp hn with rfl | hn
    · simp only [List.foldl_cons]; omega
    · exact h2 n hn

theorem mem_of_find? {loc : Location} {entry : Entry} {l : List (Location × Entry)}
    (h : find? loc l = some entry) : (loc, entry) ∈ l := by
  induction l with
  | nil => simp [find?] at h
  | cons e rest ih =>
    obtain ⟨here, found⟩ := e
    unfold find? at h
    split at h
    · rename_i hl
      simp only [Option.some.injEq] at h
      simp [hl, h]
    · exact List.mem_cons_of_mem _ (ih h)

theorem length_le_longestNameLength {t : FileTree} {loc : Location} {entry : Entry}
    (h : t.get? loc = some entry) (name : FileName) (hn : name ∈ loc) :
    name.text.length ≤ t.longestNameLength := by
  refine (le_foldl_max _ 0).2 _ ?_
  rw [List.mem_flatMap]
  exact ⟨(loc, entry), mem_of_find? h, List.mem_map.mpr ⟨name, hn, rfl⟩⟩

/-- There is nothing at a fresh location. -/
theorem get?_freshLocation (t : FileTree) (tag : Text) (dir : Location) :
    t.get? (t.freshLocation tag dir) = none := by
  unfold freshLocation
  simp only
  cases hf : (List.range t.longestNameLength).find? fun n =>
      !t.contains (dir ++ [temporaryName tag n]) with
  | some n =>
    have := List.find?_some hf
    simpa [contains] using this
  | none =>
    -- all shorter names are taken; this one is longer than any name in the tree
    rw [Option.getD_none]
    cases hg : t.get? (dir ++ [temporaryName tag t.longestNameLength]) with
    | none => rfl
    | some entry =>
      have := length_le_longestNameLength hg (temporaryName tag t.longestNameLength) (by simp)
      simp [temporaryName] at this
      omega

end FileTree

end BuildPlan
