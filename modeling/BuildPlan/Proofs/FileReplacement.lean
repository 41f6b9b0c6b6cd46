import BuildPlan.Proofs.NamedFiles

/-!
# What a replacement changes

A replacement makes a temporary file, does some steps to it and renames it. Every step changes the
entry of the temporary file and nothing else (`perform_put`), so that is all that any number of
steps comes to, be they done or broken off (`prepare_put`). The temporary file stands where there
was nothing: removing it brings the workspace back as it was. So every way in which a replacement
can fail leaves the workspace unchanged (`replaceFile_error`).

The steps look at paths while the temporary file is there. It does not come in their way: a path
leads past it, or to itself, and then there was nothing at that path before (`mode?_put`). That is
why a replacement that succeeds sets one entry of the tree, where the path leads afterwards, and why
it can be said without the temporary file when it does succeed (`replaceFile_eq_ok_iff`).
-/

namespace BuildPlan

namespace Refusals

theorem heed_eq_ok_iff {refusal : Option AccessError} {u : Unit} :
    heed refusal = .ok u ↔ refusal = none := by
  cases refusal with
  | none => exact ⟨fun _ => rfl, fun _ => rfl⟩
  | some cause => exact ⟨nofun, nofun⟩

/-- The system takes a text of that many bytes. -/
def Accepts (refused : Refusals) (size : Nat) : Prop :=
  ∀ room cause, refused.write = some (room, cause) → size ≤ room

/-- **All bytes are written, or not all of them and there is a reason.** -/
theorem accepted_cases (refused : Refusals) (bytes : ByteArray) :
    refused.Accepts bytes.size ∧ refused.accepted bytes = (bytes, none) ∨
      ¬refused.Accepts bytes.size ∧ ∃ cause, (refused.accepted bytes).2 = some cause := by
  unfold accepted
  cases hwrite : refused.write with
  | none => exact Or.inl ⟨fun room cause h => by simp [hwrite] at h, rfl⟩
  | some limit =>
    obtain ⟨room, cause⟩ := limit
    by_cases hroom : room < bytes.size
    · refine Or.inr ⟨fun h => ?_, cause, by simp only [if_pos hroom]⟩
      exact absurd (h room cause hwrite) (Nat.not_le.mpr hroom)
    · refine Or.inl ⟨fun room' cause' h => ?_, by simp only [if_neg hroom]⟩
      obtain ⟨rfl, rfl⟩ := Prod.mk.inj (Option.some.inj (hwrite.symm.trans h))
      exact Nat.not_lt.mp hroom

end Refusals

namespace Workspace

variable {ws after prepared : Workspace} {refused : Refusals} {path contents : Text}
  {loc : Location} {temp : TemporaryFile} {mode : Nat} {bytes content : ByteArray}

/-! ## One entry -/

theorem amend_put (ws : Workspace) (loc : Location) (entry : Entry) (change : Entry → Entry) :
    (ws.put loc entry).amend loc change = ws.put loc (change entry) := by
  rw [amend, put, FileTree.get?_insert, if_pos rfl]
  simp only [put, FileTree.insert_insert]

/-- **Setting an entry where there was none and removing it again restores the workspace.** -/
theorem discard_put (hfresh : ws.tree.get? temp.location = none) (entry : Entry) :
    (ws.put temp.location entry).discard temp = ws := by
  rw [discard, put]
  simp only [FileTree.erase_insert entry hfresh]

theorem mode?_of_resolve (h : ws.resolve path = .ok loc) :
    ws.mode? path = (ws.tree.get? loc).map Entry.mode := by
  rw [mode?, h]

/-- **A file that is set where there was nothing changes nothing about the permission bits found at
a path**, unless it is found itself and there was nothing. -/
theorem mode?_put (hfresh : ws.tree.get? loc = none) :
    ((ws.put loc (.file mode content)).mode? path).getD mode = (ws.mode? path).getD mode := by
  have hnone := FileTree.isDirectory_of_get? hfresh
  cases hres : (ws.put loc (.file mode content)).resolve path with
  | error e =>
    cases hws : ws.resolve path with
    | error e' => rw [mode?, mode?, hres, hws]
    | ok found =>
      rw [resolve_put hnone hws] at hres
      cases hres
  | ok found =>
    rw [mode?_of_resolve hres, put, FileTree.get?_insert]
    by_cases hfound : found = loc
    · -- the new file is what the path leads to, so there was nothing
      subst hfound
      have hbefore : ws.mode? path = none := by
        rw [mode?]
        cases hws : ws.resolve path with
        | error e => rfl
        | ok found' =>
          obtain rfl := Except.ok.inj (hres.symm.trans (resolve_put hnone hws))
          simp only [hfresh, Option.map_none]
      rw [hbefore, if_pos rfl]
      rfl
    · rw [if_neg hfound, mode?_of_resolve (resolve_of_put hnone hfound hres)]

/-- What a file holds does not matter to the permission bits that are found. -/
theorem mode?_put_congr (hfresh : ws.tree.get? loc = none) (content content' : ByteArray) :
    (ws.put loc (.file mode content)).mode? path
      = (ws.put loc (.file mode content')).mode? path := by
  have hsame : ∀ x y : ByteArray, ∀ found,
      (ws.put loc (.file mode x)).resolve path = .ok found →
        (ws.put loc (.file mode y)).mode? path = (ws.put loc (.file mode x)).mode? path := by
    intro x y found hfound
    have hput : (ws.put loc (.file mode x)).put loc (.file mode y) = ws.put loc (.file mode y) := by
      simp only [put, FileTree.insert_insert]
    have hfile : (ws.put loc (.file mode x)).tree.isDirectory loc = false := by
      rw [put, FileTree.isDirectory_insert_file (FileTree.isDirectory_of_get? hfresh)]
      exact FileTree.isDirectory_of_get? hfresh
    have hfound' : (ws.put loc (.file mode y)).resolve path = .ok found :=
      hput ▸ resolve_put hfile hfound
    rw [mode?_of_resolve hfound, mode?_of_resolve hfound', put, put, FileTree.get?_insert,
      FileTree.get?_insert]
    split
    · rfl
    · rfl
  cases h : (ws.put loc (.file mode content)).resolve path with
  | ok found => exact (hsame content content' found h).symm
  | error e =>
    cases h' : (ws.put loc (.file mode content')).resolve path with
    | ok found => exact hsame content' content found h'
    | error e' => rw [mode?, mode?, h, h']

/-! ## The steps -/

/-- **A step changes the entry of the temporary file and nothing else**, even if it fails. -/
theorem perform_put (ws : Workspace) (refused : Refusals) (temp : TemporaryFile) (entry : Entry)
    (step : TemporaryStep) :
    ∃ entry', ((ws.put temp.location entry).perform refused temp step).1
      = ws.put temp.location entry' := by
  cases step with
  | write bytes => exact ⟨_, amend_put ws temp.location entry _⟩
  | adoptMode path =>
    rw [perform]
    split
    · exact ⟨entry, rfl⟩
    · split
      · exact ⟨_, amend_put ws temp.location entry _⟩
      · exact ⟨entry, rfl⟩

/-- The same holds of any steps, up to the last or to the first that fails. -/
theorem prepare_put (ws : Workspace) (refused : Refusals) (temp : TemporaryFile)
    (steps : List TemporaryStep) (entry : Entry) :
    ∃ entry', ((ws.put temp.location entry).prepare refused temp steps).1
      = ws.put temp.location entry' := by
  induction steps generalizing entry with
  | nil => exact ⟨entry, rfl⟩
  | cons step steps ih =>
    obtain ⟨entry', hstep⟩ := perform_put ws refused temp entry step
    unfold prepare
    split
    · rename_i after hperform
      rw [hperform] at hstep
      subst hstep
      exact ih entry'
    · rename_i after e hperform
      rw [hperform] at hstep
      exact ⟨entry', hstep⟩

/-- **Whatever was done to a temporary file, removing it restores the workspace.** -/
theorem discard_prepare (refused : Refusals) (hfresh : ws.tree.get? temp.location = none)
    (steps : List TemporaryStep) :
    ((ws.make temp).prepare refused temp steps).1.discard temp = ws := by
  obtain ⟨entry, hentry⟩ := prepare_put ws refused temp steps (.file newFileMode .empty)
  rw [make, hentry, discard_put hfresh]

/-- The contents are written if the system takes all of them. -/
theorem perform_write_eq_ok_iff :
    (ws.make temp).perform refused temp (.write bytes) = (after, .ok ()) ↔
      refused.Accepts bytes.size ∧ ws.put temp.location (.file newFileMode bytes) = after := by
  rw [perform, make, amend_put, Prod.mk.injEq, Outcome.mapError_eq_ok_iff, Refusals.heed_eq_ok_iff]
  rcases refused.accepted_cases bytes with ⟨haccepts, haccepted⟩ | ⟨hrefuses, cause, hcause⟩
  · rw [haccepted, Entry.append, ByteArray.empty_append]
    simp [haccepts]
  · simp [hrefuses, hcause]

/-- The permission bits are taken over if there are none or the system lets them be set. -/
theorem perform_adoptMode_eq_ok_iff (hfresh : ws.tree.get? temp.location = none) :
    (ws.put temp.location (.file newFileMode bytes)).perform refused temp (.adoptMode path)
        = (after, .ok ()) ↔
      (refused.setMode = none ∨ (ws.make temp).mode? path = none) ∧
        ws.put temp.location (.file ((ws.mode? path).getD newFileMode) bytes) = after := by
  have hfound : (ws.put temp.location (.file newFileMode bytes)).mode? path
      = (ws.make temp).mode? path := mode?_put_congr hfresh bytes .empty
  have hmode : ((ws.make temp).mode? path).getD newFileMode = (ws.mode? path).getD newFileMode :=
    mode?_put hfresh
  rw [perform, hfound, ← hmode]
  cases (ws.make temp).mode? path with
  | none => simp
  | some mode =>
    cases refused.setMode with
    | none => simp [amend_put, Entry.withMode]
    | some cause => simp

theorem prepare_cons_eq_ok_iff {step : TemporaryStep} {steps : List TemporaryStep} :
    ws.prepare refused temp (step :: steps) = (after, .ok ()) ↔
      ∃ mid, ws.perform refused temp step = (mid, .ok ()) ∧
        mid.prepare refused temp steps = (after, .ok ()) := by
  rw [prepare]
  split
  · rename_i mid hmid
    simp [hmid]
  · rename_i mid e hmid
    simp [hmid]

/-- **A temporary file is prepared if the system refuses neither step**, and then it has the
contents and the permission bits of what is at the path. -/
theorem prepare_eq_ok_iff (hfresh : ws.tree.get? temp.location = none) :
    (ws.make temp).prepare refused temp [.write bytes, .adoptMode path] = (prepared, .ok ()) ↔
      refused.Accepts bytes.size ∧ (refused.setMode = none ∨ (ws.make temp).mode? path = none) ∧
        ws.put temp.location (.file ((ws.mode? path).getD newFileMode) bytes) = prepared := by
  simp only [prepare_cons_eq_ok_iff, perform_write_eq_ok_iff]
  constructor
  · rintro ⟨written, ⟨haccepts, rfl⟩, adopted, hadopted, hend⟩
    obtain ⟨hmode, rfl⟩ := (perform_adoptMode_eq_ok_iff hfresh).mp hadopted
    exact ⟨haccepts, hmode, congrArg Prod.fst hend⟩
  · rintro ⟨haccepts, hmode, rfl⟩
    exact ⟨_, ⟨haccepts, rfl⟩, _, (perform_adoptMode_eq_ok_iff hfresh).mpr ⟨hmode, rfl⟩, rfl⟩

/-- **The temporary file does not decide whether it can be renamed.** -/
theorem persist_put_eq_ok_iff (hfresh : ws.tree.get? temp.location = none) :
    (ws.put temp.location (.file mode content)).persist refused temp path = .ok after ↔
      refused.rename = none ∧
        ∃ target,
          ws.renameTarget path = .ok target ∧ ws.put target (.file mode content) = after := by
  have hnone := FileTree.isDirectory_of_get? hfresh
  simp only [persist, Outcome.bind_eq_ok_iff, Refusals.heed_eq_ok_iff, Outcome.pure_eq_ok_iff,
    renameTarget_put_eq_ok_iff hnone]
  simp only [put, FileTree.move_insert hfresh]
  constructor
  · rintro ⟨target, htarget, -, hrename, hafter⟩
    exact ⟨hrename, target, htarget, hafter⟩
  · rintro ⟨hrename, target, htarget, hafter⟩
    exact ⟨target, htarget, (), hrename, hafter⟩

/-! ## The whole replacement -/

theorem temporaryFile_eq_ok_iff :
    ws.temporaryFile refused path = .ok temp ↔
      refused.make = none ∧ ∃ dir, ws.temporaryDirectory path = .ok dir ∧
        ⟨ws.tree.freshLocation ws.tempTag dir, ws.temporaryPath path⟩ = temp := by
  simp only [temporaryFile, Outcome.bind_eq_ok_iff, Refusals.heed_eq_ok_iff, Outcome.pure_eq_ok_iff]
  constructor
  · rintro ⟨dir, hdir, -, hmake, htemp⟩
    exact ⟨hmake, dir, hdir, htemp⟩
  · rintro ⟨hmake, dir, hdir, htemp⟩
    exact ⟨dir, hdir, (), hmake, htemp⟩

/-- A temporary file is made where there is nothing. -/
theorem get?_temporaryFile (h : ws.temporaryFile refused path = .ok temp) :
    ws.tree.get? temp.location = none := by
  obtain ⟨-, dir, -, rfl⟩ := temporaryFile_eq_ok_iff.mp h
  exact FileTree.get?_freshLocation ws.tree ws.tempTag dir

/-- **A replacement that fails leaves the workspace as it was**, whichever step it failed at. -/
theorem replaceFile_error {e : WriteError}
    (h : ws.replaceFile refused path contents = (after, .error e)) : after = ws := by
  unfold replaceFile at h
  split at h
  · exact (congrArg Prod.fst h).symm
  · rename_i temp htemp
    have hdiscard := discard_prepare refused (get?_temporaryFile htemp)
      [.write (Utf8.encode contents), .adoptMode path]
    split at h
    · rename_i prepared e' hprepared
      rw [hprepared] at hdiscard
      exact (congrArg Prod.fst h).symm.trans hdiscard
    · rename_i prepared hprepared
      rw [hprepared] at hdiscard
      split at h
      · exact (congrArg Prod.fst h).symm.trans hdiscard
      · cases congrArg Prod.snd h

/-- A replacement succeeds if its steps do. -/
theorem replaceFile_eq_ok_iff_steps :
    ws.replaceFile refused path contents = (after, .ok ()) ↔
      ∃ temp prepared, ws.temporaryFile refused path = .ok temp ∧
        (ws.make temp).prepare refused temp [.write (Utf8.encode contents), .adoptMode path]
          = (prepared, .ok ()) ∧
        prepared.persist refused temp path = .ok after := by
  unfold replaceFile
  split
  · rename_i cause htemp
    simp [htemp]
  · rename_i temp htemp
    split
    · rename_i prepared e hprepared
      simp [htemp, hprepared]
    · rename_i prepared hprepared
      split
      · rename_i cause hpersist
        simp [htemp, hprepared, hpersist]
      · rename_i renamed hpersist
        simp [htemp, hprepared, hpersist]

/-- **The system refuses nothing that the replacement needs.** -/
structure Granted (ws : Workspace) (refused : Refusals) (path contents : Text) : Prop where
  make : refused.make = none
  write : refused.Accepts (Utf8.encode contents).size
  /-- Permission bits are set only if there is something at the path, when they are asked for. -/
  setMode : refused.setMode = none ∨
    ∀ temp, ws.temporaryFile refused path = .ok temp → (ws.make temp).mode? path = none
  rename : refused.rename = none

theorem granted_nothing (ws : Workspace) (path contents : Text) :
    Granted ws .nothing path contents :=
  ⟨rfl, nofun, Or.inl rfl, rfl⟩

/-- **A replacement succeeds exactly if a temporary file can be made and renamed and the system
refuses nothing**, and then it sets one entry of the tree. -/
theorem replaceFile_eq_ok_iff :
    ws.replaceFile refused path contents = (after, .ok ()) ↔
      (∃ dir, ws.temporaryDirectory path = .ok dir) ∧ Granted ws refused path contents ∧
        ∃ target, ws.renameTarget path = .ok target ∧
          after = ws.put target
            (.file ((ws.mode? path).getD newFileMode) (Utf8.encode contents)) := by
  rw [replaceFile_eq_ok_iff_steps]
  constructor
  · rintro ⟨temp, prepared, htemp, hprepared, hpersist⟩
    have hfresh := get?_temporaryFile htemp
    obtain ⟨haccepts, hmode, rfl⟩ := (prepare_eq_ok_iff hfresh).mp hprepared
    obtain ⟨hrename, target, htarget, rfl⟩ := (persist_put_eq_ok_iff hfresh).mp hpersist
    obtain ⟨hmake, dir, hdir, -⟩ := temporaryFile_eq_ok_iff.mp htemp
    refine ⟨⟨dir, hdir⟩, ⟨hmake, haccepts, hmode.imp_right fun hnone temp' htemp' => ?_, hrename⟩,
      target, htarget, rfl⟩
    rwa [← Except.ok.inj (htemp.symm.trans htemp')]
  · rintro ⟨⟨dir, hdir⟩, ⟨hmake, haccepts, hmode, hrename⟩, target, htarget, rfl⟩
    have htemp := temporaryFile_eq_ok_iff.mpr ⟨hmake, dir, hdir, rfl⟩
    have hfresh := get?_temporaryFile htemp
    exact ⟨_, _, htemp,
      (prepare_eq_ok_iff hfresh).mpr ⟨haccepts, hmode.imp_right fun h => h _ htemp, rfl⟩,
      (persist_put_eq_ok_iff hfresh).mpr ⟨hrename, target, htarget, rfl⟩⟩

/-- **A replacement that succeeds sets one entry of the tree**, and the path leads to it. -/
theorem replaceFile_eq_ok (h : ws.replaceFile refused path contents = (after, .ok ())) :
    ∃ target, after.resolve path = .ok target ∧
      after = ws.put target (.file ((ws.mode? path).getD newFileMode) (Utf8.encode contents)) := by
  obtain ⟨-, -, target, htarget, rfl⟩ := replaceFile_eq_ok_iff.mp h
  exact ⟨target, resolve_put_of_renameTarget htarget _ _, rfl⟩

end Workspace

end BuildPlan
