import BuildPlan.Command.Run

/-!
# The program

The program looks at the directory it is started in and at what lies below, reads the build
description, lets the library decide what happens, and carries it out: it prints the two outputs and
stores the manifest if there is one to store. It decides nothing itself. What the system refuses
when the manifest is stored is a condition of the run, so the library says what comes of that, too.

The streams are taken to show no colours. Permission bits can not be asked for here: everything that
is found counts as readable and writable, and a file that is replaced gets the bits of a new one.
-/

namespace BuildPlan.Main

/-- The names on an absolute path. -/
def locationOf (path : String) : Location := Workspace.pathNames path.toList

/-- Add the entries of a directory, and of the directories below it, to a file tree. The contents of
files are left out. -/
partial def survey (dir : String) (loc : Location) (t : FileTree) : IO FileTree := do
  let mut t := t.addDirectory loc
  for e in ← (← IO.FS.realPath dir).readDir do
    if let some name := FileName.ofText? e.fileName.toList then
      let here := loc ++ [name]
      match (← e.path.symlinkMetadata).type with
      | .dir => t ← survey e.path.toString here t
      | _ => t := t.addFile here ByteArray.empty
  return t

/-- The workspace around the directory in which the program was started. -/
def surroundings : IO Workspace := do
  let here := (← IO.FS.realPath ".").toString
  let loc := locationOf here
  let tree ← survey here loc FileTree.empty
  return ⟨tree, loc, here.toList, toString (← IO.monoNanosNow) |>.toList⟩

/-- Put the contents of the file at a path into the workspace. -/
def withContents (ws : Workspace) (path : Text) : IO Workspace := do
  let path := String.ofList path
  try
    let loc := locationOf (← IO.FS.realPath path).toString
    let bytes ← IO.FS.readBinFile path
    return { ws with tree := ws.tree.addFile loc bytes }
  catch _ => return ws

/-- Put the directory of the file at a path into the workspace, if it exists. -/
def withDirectory (ws : Workspace) (path : Text) : IO Workspace := do
  try
    let dir ← IO.FS.realPath (String.ofList (directoryOf path))
    if ← dir.isDir then
      return { ws with tree := ws.tree.addDirectory (locationOf dir.toString) }
    return ws
  catch _ => return ws

/-- Store bytes in the file at a path by way of a temporary file, which is removed if that fails.
The answer is what the system refused. -/
def store (ws : Workspace) (path : Text) (bytes : ByteArray) : IO Refusals := do
  let temporary := String.ofList (joinPath (directoryOf path) (".tmp" ++ ws.tempTag))
  let discard : IO Unit := try IO.FS.removeFile temporary catch _ => pure ()
  let cause (e : IO.Error) : AccessError := .reported (toString e).toList
  try
    IO.FS.writeBinFile temporary bytes
  catch e =>
    discard
    return { Refusals.nothing with write := some (0, cause e) }
  try
    IO.FS.rename temporary (String.ofList path)
  catch e =>
    discard
    return { Refusals.nothing with rename := some (cause e) }
  return .nothing

/-- Carry out a run that writes a file: first without regard to the system, then under what it
refused. -/
def performWriting (ws : Workspace) (output : Text) (args : List Text) : IO Outcome := do
  let planned := run .ordinary ws args
  match planned.exit, planned.workspace.readBytes output with
  | 0, .ok bytes =>
    let refused ← store ws output bytes
    return run { Conditions.ordinary with refused } ws args
  | _, _ => return planned

/-- Carry out a run. -/
def perform (args : List Text) : IO Outcome := do
  let ws ← surroundings
  match Arguments.read args with
  | .run i =>
    let ws ← withContents ws i.config
    match i.command with
    | .gen output => performWriting (← withDirectory ws output) output args
    | _ => return run .ordinary ws args
  | _ => return run .ordinary ws args

end BuildPlan.Main

/-- Run the program. -/
def main (args : List String) : IO UInt32 := do
  let outcome ← BuildPlan.Main.perform (args.map String.toList)
  IO.print (String.ofList outcome.stdout)
  IO.eprint (String.ofList outcome.stderr)
  return outcome.exit.toUInt32
