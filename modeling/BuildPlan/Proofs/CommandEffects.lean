import BuildPlan.Command.Basic
import BuildPlan.Proofs.FileReplacement

/-!
# What commands do to the workspace

`show` and `vars` change nothing. `gen` makes the manifest as `show` does, by another way: it
computes the edges first and renders them itself, since it reports how many there are. Both ways
fail together and give the same text (`manifestFor_eq_ok_iff`, `showManifest_eq_ok_iff`). Then `gen`
replaces the output file, which is all that it can still fail at, and a replacement that fails, at
any of its steps, leaves the workspace as it was (`replaceFile_error`).
-/

namespace BuildPlan.Command

variable {cond : Conditions} {ws after : Workspace} {config output text report : Text}
  {rules edges : Nat} {e : CommandError}

/-! ## The two ways to a manifest -/

theorem manifestFor_eq_ok_iff :
    manifestFor ws config = .ok (text, rules, edges) ↔
      ∃ ev es, evaluateFile ws config = .ok ev ∧ ev.manifest.edges ws = .ok es ∧
        Manifest.renderEdges ev.manifest.includes ev.manifest.defines es = text ∧
        ev.manifest.rules.size = rules ∧ es.length = edges := by
  simp only [manifestFor, Outcome.bind_eq_ok_iff, Outcome.mapError_eq_ok_iff,
    Outcome.pure_eq_ok_iff, Prod.mk.injEq]
  constructor
  · rintro ⟨ev, hev, es, hes, htext, hrules, hedges⟩
    exact ⟨ev, es, hev, hes, htext, hrules, hedges⟩
  · rintro ⟨ev, es, hev, hes, htext, hrules, hedges⟩
    exact ⟨ev, hev, es, hes, htext, hrules, hedges⟩

theorem showManifest_eq_ok_iff :
    showManifest ws config = .ok text ↔
      ∃ ev es, evaluateFile ws config = .ok ev ∧ ev.manifest.edges ws = .ok es ∧
        Manifest.renderEdges ev.manifest.includes ev.manifest.defines es = text := by
  simp only [showManifest, Manifest.render, Outcome.bind_eq_ok_iff, Outcome.mapError_eq_ok_iff,
    Outcome.map_eq_ok_iff]
  constructor
  · rintro ⟨ev, hev, es, hes, htext⟩
    exact ⟨ev, es, hev, hes, htext⟩
  · rintro ⟨ev, es, hev, hes, htext⟩
    exact ⟨ev, hev, es, hes, htext⟩

/-- **Both ways come to the same text.** -/
theorem showManifest_eq_ok_iff_manifestFor :
    showManifest ws config = .ok text ↔
      ∃ rules edges, manifestFor ws config = .ok (text, rules, edges) := by
  simp only [showManifest_eq_ok_iff, manifestFor_eq_ok_iff]
  constructor
  · rintro ⟨ev, es, hev, hes, htext⟩
    exact ⟨_, _, ev, es, hev, hes, htext, rfl, rfl⟩
  · rintro ⟨rules, edges, ev, es, hev, hes, htext, -⟩
    exact ⟨ev, es, hev, hes, htext⟩

/-! ## Writing the manifest -/

/-- `gen` succeeds only if the manifest has been made and written. -/
theorem generate_eq_ok (h : generate cond ws config output = (after, .ok report)) :
    ∃ text, showManifest ws config = .ok text ∧
      ws.replaceFile cond.refused output text = (after, .ok ()) := by
  unfold generate at h
  split at h
  · exact absurd h (by simp)
  · rename_i text rules edges hmanifest
    refine ⟨text, showManifest_eq_ok_iff_manifestFor.mpr ⟨rules, edges, hmanifest⟩, ?_⟩
    split at h
    · rename_i written hwrite
      rw [Prod.mk.injEq] at h
      rw [hwrite, h.1]
    · exact absurd h (by simp)

/-- **`gen` fails before it writes, or because it can not write**, and the workspace is as it was.
-/
theorem generate_eq_error (h : generate cond ws config output = (after, .error e)) :
    after = ws ∧
      (manifestFor ws config = .error e ∨
        ∃ text cause, showManifest ws config = .ok text ∧ e = .writing output cause ∧
          ws.replaceFile cond.refused output text = (ws, .error cause)) := by
  unfold generate at h
  split at h
  · rename_i cause hmanifest
    rw [Prod.mk.injEq, Except.error.injEq] at h
    obtain ⟨rfl, rfl⟩ := h
    exact ⟨rfl, Or.inl hmanifest⟩
  · rename_i text rules edges hmanifest
    split at h
    · exact absurd h (by simp)
    · rename_i written cause hwrite
      rw [Prod.mk.injEq, Except.error.injEq] at h
      obtain ⟨rfl, rfl⟩ := h
      obtain rfl := Workspace.replaceFile_error hwrite
      have hshow := showManifest_eq_ok_iff_manifestFor.mpr ⟨rules, edges, hmanifest⟩
      exact ⟨rfl, Or.inr ⟨text, cause, hshow, rfl, hwrite⟩⟩

/-- **What `gen` writes and `show` prints**, under all conditions. Neither `show` nor `vars` changes
the workspace. If `gen` succeeds, `show` would have printed exactly what is now in the file to which
the output path leads, and nothing else is different. If `gen` fails, be it at a step of writing the
file, nothing is different at all; and where `show` succeeds, it can fail only because the text that
`show` prints could not be written. -/
theorem gen_show_effects (cond : Conditions) (ws : Workspace) (config output : Text) :
    (execute cond ws config .show).1 = ws ∧
    (∀ format, (execute cond ws config (.vars format)).1 = ws) ∧
    (∀ after report, execute cond ws config (.gen output) = (after, .ok report) →
      ∃ text target mode, execute cond ws config .show = (ws, .ok text) ∧
        after.resolve output = .ok target ∧
        after.tree.get? target = some (.file mode (Utf8.encode text)) ∧
        (∀ loc, loc ≠ target → after.tree.get? loc = ws.tree.get? loc) ∧
        after = { ws with tree := ws.tree.insert target (.file mode (Utf8.encode text)) }) ∧
    (∀ after e, execute cond ws config (.gen output) = (after, .error e) → after = ws) ∧
    ∀ text, execute cond ws config .show = (ws, .ok text) →
      ∀ after e, execute cond ws config (.gen output) = (after, .error e) →
        ∃ cause, e = .writing output cause ∧
          ws.replaceFile cond.refused output text = (ws, .error cause) := by
  refine ⟨rfl, fun _ => rfl, ?_, fun after e h => (generate_eq_error h).1, ?_⟩
  · intro after report h
    obtain ⟨text, hshow, hwrite⟩ := generate_eq_ok h
    obtain ⟨target, hleads, rfl⟩ := Workspace.replaceFile_eq_ok hwrite
    refine ⟨text, target, _, by rw [execute, hshow], hleads, ?_, fun loc hne => ?_, rfl⟩
    · rw [Workspace.put, FileTree.get?_insert, if_pos rfl]
    · rw [Workspace.put, FileTree.get?_insert, if_neg hne]
  · intro text hprinted after e h
    have hshow : showManifest ws config = .ok text := congrArg Prod.snd hprinted
    obtain ⟨rules, edges, hmanifest⟩ := showManifest_eq_ok_iff_manifestFor.mp hshow
    rcases (generate_eq_error h).2 with hnone | ⟨made, cause, hmade, hcause, hwrite⟩
    · rw [hmanifest] at hnone
      cases hnone
    · rw [hshow, Except.ok.injEq] at hmade
      subst hmade
      exact ⟨cause, hcause, hwrite⟩

/-- A build description at `b` and a file at `d/o`. -/
def described : Workspace where
  tree := (FileTree.empty.addFile (Workspace.pathNames "b")
    (Utf8.encode "[meta]\nincludes=\nrulenames=ld\n[rules]\nld.ins=x y\nld.out=app\n")).addFile
      (Workspace.pathNames "d/o") (Utf8.encode "old")
  cwd := []
  cwdText := "/"
  tempTag := "t"

/-- A disk on which there is no room for a single byte. -/
def fullDisk : Conditions :=
  ⟨.plain, .plain, ⟨none, some (0, .reported "No space left on device (os error 28)"), none, none⟩⟩

/-- The file is replaced, by a path that goes through a directory and back. On a full disk it is
not: the temporary file is made and can not be written, and then all is as it was. -/
theorem gen_show_effects_replaced :
    (∃ after report text target mode,
      execute .ordinary described "b" (.gen "d/../d/o") = (after, .ok report) ∧
      execute .ordinary described "b" .show = (described, .ok text) ∧
      text = "\n\nbuild app: ld x y\n\n" ∧
      after.resolve "d/../d/o" = .ok target ∧ target = Workspace.pathNames "d/o" ∧
      after.tree.get? target = some (.file mode (Utf8.encode text))) ∧
    execute fullDisk described "b" (.gen "d/o") = (described, .error (.writing "d/o"
      (.contents "/d/.tmpt" (.reported "No space left on device (os error 28)")))) := by
  constructor
  · have h : execute .ordinary described "b" (.gen "d/../d/o") = (_, .ok _) := rfl
    obtain ⟨text, target, mode, hshow, hleads, hfile, -⟩ :=
      (gen_show_effects .ordinary described "b" "d/../d/o").2.2.1 _ _ h
    have htext : execute .ordinary described "b" .show
        = (described, .ok "\n\nbuild app: ld x y\n\n") := rfl
    refine ⟨_, _, text, target, mode, h, hshow, ?_, hleads, ?_, hfile⟩
    · rw [hshow, Prod.mk.injEq, Except.ok.injEq] at htext
      exact htext.2
    · exact Except.ok.inj
        (hleads.symm.trans (show _ = Except.ok (Workspace.pathNames "d/o") from rfl))
  · have h : execute fullDisk described "b" (.gen "d/o") = (_, .error (.writing "d/o"
        (.contents "/d/.tmpt" (.reported "No space left on device (os error 28)")))) := rfl
    obtain ⟨-, -, -, hsame, -⟩ := gen_show_effects fullDisk described "b" "d/o"
    exact h.trans (by rw [hsame _ _ h])

end BuildPlan.Command
