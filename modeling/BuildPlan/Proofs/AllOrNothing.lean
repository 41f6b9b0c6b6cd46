import BuildPlan.Proofs.FileReplacement
import BuildPlan.Proofs.TemporaryDirectory

/-!
# All or nothing

A replacement makes a temporary file, writes to it, gives it the permission bits of the file that is
to be replaced and renames it. Each of these steps may be the last one, and then all is as it was.

When all steps are done, one entry of the tree is different (`Replaced`). That they can be done
depends on the path and on what is there before (`CanReplace`), and on that the system refuses
nothing that is needed (`Granted`).
-/

namespace BuildPlan

namespace Workspace

variable {ws after : Workspace} {refused : Refusals} {path contents : Text} {target : Location}

/-- **The file at a path was replaced.** The path leads to `target`, where the file has the
permission bits `mode`. -/
structure Replaced (ws : Workspace) (path contents : Text) (target : Location) (mode : Nat)
    (after : Workspace) : Prop where
  leads : after.resolve path = .ok target
  file : after.tree.get? target = some (.file mode (Utf8.encode contents))
  /-- The path led nowhere else before. -/
  led : ∀ loc, ws.resolve path = .ok loc → loc = target
  /-- What was there was a file at that path, and its permission bits are kept. -/
  kept : ∀ old, ws.tree.get? target = some old →
    ws.resolve path = .ok target ∧ old.isDirectory = false ∧ mode = old.mode
  made : ws.tree.get? target = none → mode = newFileMode
  /-- All else is as it was, so no temporary file is left. -/
  others : ∀ loc, loc ≠ target → after.tree.get? loc = ws.tree.get? loc
  whole : after = ws.put target (.file mode (Utf8.encode contents))

theorem mode?_of_renameTarget (h : ws.renameTarget path = .ok target) :
    ws.mode? path = (ws.tree.get? target).map Entry.mode := by
  obtain ⟨hcheck, loc, name, hnames, rfl⟩ := renameTarget_eq_ok_iff.mp h
  cases hres : ws.resolve path with
  | ok found =>
    obtain ⟨-, rfl⟩ := (hnames.resolve_eq_ok_iff hcheck).mp hres
    exact mode?_of_resolve hres
  | error e =>
    cases hget : ws.tree.get? (loc ++ [name]) with
    | none => rw [mode?, hres, Option.map_none]
    | some entry =>
      rw [(hnames.resolve_eq_ok_iff hcheck).mpr ⟨FileTree.contains_of_get? hget, rfl⟩] at hres
      cases hres

theorem replaced_of_replaceFile (h : ws.replaceFile refused path contents = (after, .ok ())) :
    ∃ target mode, Replaced ws path contents target mode after := by
  obtain ⟨-, -, target, htarget, rfl⟩ := replaceFile_eq_ok_iff.mp h
  have hmode := mode?_of_renameTarget htarget
  have hleads := resolve_put_of_renameTarget htarget ((ws.mode? path).getD newFileMode)
    (Utf8.encode contents)
  obtain ⟨hcheck, loc, name, hnames, rfl⟩ := renameTarget_eq_ok_iff.mp htarget
  refine ⟨_, _, hleads, ?_, ?_, ?_, ?_, ?_, rfl⟩
  · rw [put, FileTree.get?_insert, if_pos rfl]
  · intro found hfound
    exact ((hnames.resolve_eq_ok_iff hcheck).mp hfound).2
  · intro old hold
    rw [hold] at hmode
    refine ⟨?_, ?_, by rw [hmode]; rfl⟩
    · exact (hnames.resolve_eq_ok_iff hcheck).mpr ⟨FileTree.contains_of_get? hold, rfl⟩
    · have hfile := hnames.noDirectory
      rwa [FileTree.isDirectory, hold, Option.any_some] at hfile
  · intro hnone
    rw [hmode, hnone]
    rfl
  · intro l hl
    rw [put, FileTree.get?_insert, if_neg hl]

/-- **The file at a path can be replaced**: the path and that of the temporary file can be handed
over, and the path names a file. -/
structure CanReplace (ws : Workspace) (path : Text) : Prop where
  usable : checkPath path = .ok ()
  usableTemporary : checkPath (ws.temporaryPath path) = .ok ()
  named : ∃ loc name, NamesFile ws path loc name

theorem canReplace_of_replaceFile (h : ws.replaceFile refused path contents = (after, .ok ())) :
    CanReplace ws path ∧ Granted ws refused path contents := by
  obtain ⟨⟨dir, hdir⟩, hgranted, target, htarget, -⟩ := replaceFile_eq_ok_iff.mp h
  obtain ⟨hcheck, loc, name, hnames, -⟩ := renameTarget_eq_ok_iff.mp htarget
  obtain ⟨⟨⟩, htemp, -⟩ := Outcome.bind_eq_ok_iff.mp hdir
  exact ⟨⟨hcheck, htemp, loc, name, hnames⟩, hgranted⟩

theorem exists_replaceFile_of_canReplace (home : AtHome ws) (h : CanReplace ws path)
    (hgranted : Granted ws refused path contents) :
    ∃ after, ws.replaceFile refused path contents = (after, .ok ()) := by
  obtain ⟨hcheck, htemp, loc, name, hnames⟩ := h
  have htarget := renameTarget_eq_ok_iff.mpr ⟨hcheck, loc, name, hnames, rfl⟩
  exact ⟨_, replaceFile_eq_ok_iff.mpr
    ⟨⟨loc, temporaryDirectory_of_namesFile home hnames htemp⟩, hgranted,
      loc ++ [name], htarget, rfl⟩⟩

/-- The file at a path can not be replaced if the path is empty, ends in a slash or leads to a
directory, or if its directory is missing. -/
theorem not_canReplace
    (h : path = [] ∨ path.getLast? = some '/' ∨
      (∃ loc, ws.resolve path = .ok loc ∧ ws.tree.isDirectory loc = true) ∨
      ¬∃ loc, ws.resolve (directoryOf path) = .ok loc ∧ ws.tree.isDirectory loc = true) :
    ¬CanReplace ws path := by
  rintro ⟨hcheck, htemp, loc, name, hnames⟩
  obtain ⟨hne, hslash, -⟩ := name.proper
  rcases h with hempty | hend | ⟨found, hfound, hdir⟩ | hmissing
  · exact ne_nil_of_checkPath hcheck hempty
  · obtain ⟨front, hsplit, -⟩ := hnames.leads
    rw [getLast?_of_splitOn_concat hsplit hne] at hend
    exact hslash (List.mem_of_getLast? hend)
  · obtain ⟨-, rfl⟩ := (hnames.resolve_eq_ok_iff hcheck).mp hfound
    exact Bool.false_ne_true (hnames.noDirectory.symm.trans hdir)
  · refine hmissing ⟨loc, resolve_eq_ok_iff.mpr ⟨?_, walk_directoryOf hnames⟩, ?_⟩
    · exact (checkPath_directoryOf htemp).2
    · exact FileTree.isDirectory_of_allows hnames.searchable

theorem exists_error_of_not_canReplace (refused : Refusals) (contents : Text)
    (h : ¬CanReplace ws path) : ∃ e, ws.replaceFile refused path contents = (ws, .error e) := by
  cases hres : ws.replaceFile refused path contents with
  | mk after result =>
    cases result with
    | ok u => exact absurd (canReplace_of_replaceFile hres).1 h
    | error e => exact ⟨e, by rw [replaceFile_error hres]⟩

/-- **A replacement is all or nothing**, whatever the system refuses. If it succeeds, the path leads
to a file with the contents, which has the permission bits that the file there had before, and all
else is as it was. If it fails, at whichever step, all is as it was. It does fail if the path is
empty, ends in a slash or leads to a directory, or if its directory is missing; and it succeeds
where a temporary file can be made, the path names a file and the system refuses nothing that is
needed. The temporary file is made in the directory of the path, where there was nothing, and after
any steps, done or broken off, its removal restores the workspace. -/
theorem replaceFile_all_or_nothing (ws : Workspace) (refused : Refusals) (path contents : Text) :
    (∀ after, ws.replaceFile refused path contents = (after, .ok ()) →
      ∃ target mode, Replaced ws path contents target mode after) ∧
    (∀ after e, ws.replaceFile refused path contents = (after, .error e) → after = ws) ∧
    (path = [] ∨ path.getLast? = some '/' ∨
        (∃ loc, ws.resolve path = .ok loc ∧ ws.tree.isDirectory loc = true) ∨
        (¬∃ loc, ws.resolve (directoryOf path) = .ok loc ∧ ws.tree.isDirectory loc = true) →
      ∃ e, ws.replaceFile refused path contents = (ws, .error e)) ∧
    (AtHome ws →
      ((∃ after, ws.replaceFile refused path contents = (after, .ok ())) ↔
        CanReplace ws path ∧ Granted ws refused path contents)) ∧
    ∀ temp, ws.temporaryFile refused path = .ok temp →
      (∃ dir name, ws.temporaryDirectory path = .ok dir ∧ temp.location = dir ++ [name]) ∧
      ws.tree.get? temp.location = none ∧
      ∀ steps, ((ws.make temp).prepare refused temp steps).1.discard temp = ws := by
  refine ⟨fun after => replaced_of_replaceFile, fun after e => replaceFile_error,
    fun h => exists_error_of_not_canReplace refused contents (not_canReplace h),
    fun home => ⟨?_, ?_⟩, ?_⟩
  · rintro ⟨after, h⟩
    exact canReplace_of_replaceFile h
  · rintro ⟨hcan, hgranted⟩
    exact exists_replaceFile_of_canReplace home hcan hgranted
  · intro temp htemp
    have hfresh := get?_temporaryFile htemp
    obtain ⟨-, dir, hdir, rfl⟩ := temporaryFile_eq_ok_iff.mp htemp
    exact ⟨⟨dir, _, hdir, rfl⟩, hfresh, discard_prepare refused hfresh⟩

/-- A file at `d/o` with permission bits of its own. -/
def guarded : Workspace :=
  setMode ⟨FileTree.empty.addFile (pathNames "d/o") (Utf8.encode "old"), [], "/", "t"⟩ "d/o" 0o640

/-- The error of a disk that is full. -/
def noSpace : AccessError := .reported "No space left on device (os error 28)"

/-- The file is replaced, by a path with idle pieces, and keeps its permission bits; its directory
is not. On a disk with room for one byte more nothing is replaced, nor where permission bits can not
be set, and both say why. -/
theorem replaceFile_all_or_nothing_guarded :
    (∃ after, guarded.replaceFile .nothing "./d//./o" "new" = (after, .ok ()) ∧
      after.tree.get? (pathNames "d/o") = some (.file 0o640 (Utf8.encode "new"))) ∧
    (∃ e, guarded.replaceFile .nothing "d" "new" = (guarded, .error e)) ∧
    guarded.replaceFile ⟨none, some (1, noSpace), none, none⟩ "d/o" "new"
      = (guarded, .error (.contents "/d/.tmpt" noSpace)) ∧
    guarded.replaceFile ⟨none, none, some .denied, none⟩ "d/o" "new"
      = (guarded, .error (.permissions .denied)) := by
  obtain ⟨hdone, -, -, hwhen, -⟩ := replaceFile_all_or_nothing guarded .nothing "./d//./o" "new"
  obtain ⟨-, -, hfails, -⟩ := replaceFile_all_or_nothing guarded .nothing "d" "new"
  have hundone : ∀ {refused : Refusals} {after : Workspace} {e : WriteError},
      guarded.replaceFile refused "d/o" "new" = (after, .error e) →
        guarded.replaceFile refused "d/o" "new" = (guarded, .error e) := by
    intro refused after e h
    rw [h, (replaceFile_all_or_nothing guarded refused "d/o" "new").2.1 after e h]
  have hcan : CanReplace guarded "./d//./o" :=
    ⟨rfl, rfl, pathNames "d", ⟨"o", by decide⟩, ⟨[".", "d", "", "."], rfl, rfl⟩, rfl, rfl, rfl, rfl⟩
  refine ⟨?_, hfails (Or.inr (Or.inr (Or.inl ⟨pathNames "d", rfl, rfl⟩))), hundone rfl, hundone rfl⟩
  obtain ⟨after, hafter⟩ := (hwhen ⟨rfl, rfl⟩).mpr ⟨hcan, granted_nothing ..⟩
  obtain ⟨target, mode, h⟩ := hdone after hafter
  obtain rfl := h.led (pathNames "d/o") rfl
  obtain ⟨-, -, rfl⟩ := h.kept (.file 0o640 (Utf8.encode "old")) rfl
  exact ⟨after, hafter, h.file⟩

end Workspace

end BuildPlan
