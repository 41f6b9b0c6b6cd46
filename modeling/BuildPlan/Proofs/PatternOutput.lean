import BuildPlan.Proofs.CallArguments
import BuildPlan.Proofs.ManifestReading
import BuildPlan.Rule

/-!
# The output that a pattern makes

A pattern is expanded for one input and the text that comes out is the output, as a whole: it is not
split into words. So it can be empty, because a function may leave nothing of its operand, and it
can hold white space, which may stand in the pattern or in what a wildcard finds.

There is no other way. A pattern without white space that calls no wildcard search makes outputs
without white space (`unspaced_of_outputOf`), and one that does not consist of calls alone makes
none that is empty (`ne_nil_of_outputOf`).
-/

namespace BuildPlan

/-! ## Texts without white space -/

/-- The text holds no white space. -/
def Unspaced (t : Text) : Prop := ∀ c ∈ t, isBlank c = false

-- As for `IsWord`, over the letters of the text.
instance (t : Text) : Decidable (Unspaced t) :=
  decidable_of_iff (t.all fun c => !isBlank c) (by simp [Unspaced])

theorem Unspaced.of_subset {t u : Text} (h : Unspaced t) (hsub : u ⊆ t) : Unspaced u :=
  fun c hc => h c (hsub hc)

/-! ## Word functions -/

namespace PathWord

theorem unspaced_dir {w : Text} (h : Unspaced w) : Unspaced (dir w) := by
  have hsub : (splitDir w).1 ⊆ w := fun _ hc => splitDir_append w ▸ List.mem_append_left _ hc
  unfold dir
  dsimp only
  split
  · decide
  · exact h.of_subset hsub

theorem unspaced_notdir {w : Text} (h : Unspaced w) : Unspaced (notdir w) :=
  h.of_subset fun _ hc => splitDir_append w ▸ List.mem_append_right _ hc

theorem unspaced_basename {w : Text} (h : Unspaced w) : Unspaced (basename w) :=
  h.of_subset fun _ hc => splitSuffix_append w ▸ List.mem_append_left _ hc

theorem unspaced_suffix {w : Text} (h : Unspaced w) : Unspaced (suffix w) :=
  h.of_subset fun _ hc => splitSuffix_append w ▸ List.mem_append_right _ hc

end PathWord

namespace WordFunction

variable {ws : Workspace} {f : WordFunction}

/-- Every function but `glob` makes at most one text of a word. -/
theorem exists_onWord (hf : f ≠ .glob) {w : Text} (hw : Unspaced w) :
    ∃ part, f.onWord ws w = .ok (kept part) ∧ Unspaced part := by
  cases f with
  | glob => exact absurd rfl hf
  | basename => exact ⟨_, rfl, PathWord.unspaced_basename hw⟩
  | notdir => exact ⟨_, rfl, PathWord.unspaced_notdir hw⟩
  | dir => exact ⟨_, rfl, PathWord.unspaced_dir hw⟩
  | suffix => exact ⟨_, rfl, PathWord.unspaced_suffix hw⟩

theorem unwords_kept (part : Text) : unwords (kept part) = part := by
  cases part with
  | nil => rfl
  | cons c part => exact List.intercalate_singleton

/-- **No function but `glob` adds white space** to a text that has none. -/
theorem unspaced_of_apply (hf : f ≠ .glob) {t r : Text} (ht : Unspaced t)
    (h : f.apply ws t = .ok r) : Unspaced r := by
  rw [apply, Outcome.bind_eq_ok_iff] at h
  obtain ⟨results, hresults, hr⟩ := h
  rw [Outcome.pure_eq_ok_iff] at hr
  by_cases hne : t = []
  · subst hne
    rw [words, List.mapM_nil, Outcome.pure_eq_ok_iff] at hresults
    rw [← hr, ← hresults]
    decide
  · obtain ⟨part, hpart, hunspaced⟩ := exists_onWord hf ht
    rw [words_of_forall hne ht, Outcome.mapM_cons_eq_ok_iff] at hresults
    obtain ⟨y, rest, hy, hrest, rfl⟩ := hresults
    rw [hpart, Except.ok.injEq] at hy
    rw [List.mapM_nil, Outcome.pure_eq_ok_iff] at hrest
    rw [← hr, ← hy, ← hrest, List.flatten_cons, List.flatten_nil, List.append_nil, unwords_kept]
    exact hunspaced

end WordFunction

/-! ## Templates -/

/-- The segment is a call of a function. -/
def Segment.isCall : Segment → Bool
  | .literal _ => false
  | .placeholder p => p.arg.isSome

/-- The function that the segment calls. -/
def Segment.called? : Segment → Option WordFunction
  | .literal _ => none
  | .placeholder p => if p.arg.isSome then WordFunction.ofName? p.name else none

namespace Template

/-- The template has a call of the function. -/
def calls (t : Text) (f : WordFunction) : Bool := (parse t).any (·.called? == some f)

theorem written_subset {t : Text} {s : Segment} (h : s ∈ parse t) : s.written ⊆ t := by
  intro c hc
  rw [← written_parse t]
  exact List.mem_flatMap.mpr ⟨s, h, hc⟩

theorem arg_subset_raw {p : Placeholder} (h : WellFormed p) {arg : Text} (harg : p.arg = some arg) :
    arg ⊆ p.raw := by
  obtain ⟨gap, hraw, -⟩ := exists_raw_of_arg h harg
  intro c hc
  simp [hraw, hc]

section Segments

variable {ws : Workspace} {ns : Namespace} {t part : Text} {s : Segment}

/-- What stands for a segment of a template has no white space, if neither the template nor a value
has any and no search is called. -/
theorem unspaced_of_expandSegment (hns : ∀ name v, ns.get? name = some v → Unspaced v)
    (ht : Unspaced t) (hs : s ∈ parse t) (hcalls : s.called? ≠ some .glob)
    (h : expandSegment ws ns s = .ok part) : Unspaced part := by
  have hwritten : Unspaced s.written := ht.of_subset (written_subset hs)
  cases s with
  | literal u =>
    rw [← Except.ok.inj h]
    exact hwritten
  | placeholder p =>
    rw [expandSegment, expandPlaceholder] at h
    cases harg : p.arg with
    | none =>
      rw [harg] at h
      rw [← Except.ok.inj h]
      cases hv : ns.get? p.name with
      | none => exact hwritten
      | some v => exact hns p.name v hv
    | some arg =>
      rw [harg] at h
      dsimp only at h
      split at h
      · exact absurd h (by simp)
      · split at h
        · exact absurd h (by simp)
        · rename_i f hf
          have hglob : f ≠ .glob := by
            rintro rfl
            exact hcalls (by rw [Segment.called?, harg, hf]; rfl)
          have hoperand : Unspaced (inertOperand ns arg) := by
            unfold inertOperand
            cases hv : ns.get? (trim arg) with
            | none =>
              have hwell := (segmentation_parse t).wellFormed p hs
              exact hwritten.of_subset (arg_subset_raw hwell harg)
            | some v => exact hns _ v hv
          exact WordFunction.unspaced_of_apply hglob hoperand (Outcome.mapError_eq_ok_iff.mp h)

/-- What stands for a segment that is no call is not empty, if no value is. -/
theorem ne_nil_of_expandSegment (hns : ∀ name v, ns.get? name = some v → v ≠ [])
    (hs : s ∈ parse t) (hcall : s.isCall = false) (h : expandSegment ws ns s = .ok part) :
    part ≠ [] := by
  cases s with
  | literal u =>
    rw [← Except.ok.inj h]
    exact (segmentation_parse t).literal_ne_nil u hs
  | placeholder p =>
    have harg : p.arg = none := by simpa [Segment.isCall] using hcall
    rw [expandSegment, expandPlaceholder, harg] at h
    rw [← Except.ok.inj h]
    cases hv : ns.get? p.name with
    | none =>
      have hwell := (segmentation_parse t).wellFormed p hs
      cases hwell <;> simp
    | some v => exact hns p.name v hv

end Segments

end Template

/-! ## Patterns -/

namespace Rule

variable {ws : Workspace} {pat input output : Text}

/-- The only value that a pattern can refer to is the input. -/
theorem get?_input {name v : Text} (h : (Bindings.empty.insert "in" input).get? name = some v) :
    v = input := by
  rw [Bindings.get?_insert] at h
  split at h
  · exact (Option.some.inj h).symm
  · exact absurd h (by simp)

theorem outputOf_eq_ok_iff :
    outputOf ws pat input = .ok output ↔
      ∃ parts, (Template.parse pat).mapM
        (Template.expandSegment ws (Bindings.empty.insert "in" input)) = .ok parts ∧
          parts.flatten = output :=
  Outcome.map_eq_ok_iff

/-- **A pattern without white space and without a search makes no white space.** -/
theorem unspaced_of_outputOf (hinput : IsWord input) (hpat : Unspaced pat)
    (hcalls : Template.calls pat .glob = false) (h : outputOf ws pat input = .ok output) :
    Unspaced output := by
  obtain ⟨parts, hparts, rfl⟩ := outputOf_eq_ok_iff.mp h
  intro c hc
  obtain ⟨part, hpart, hc⟩ := List.mem_flatten.mp hc
  obtain ⟨s, hs, hexpand⟩ := Outcome.exists_of_mem_mapM hparts hpart
  have hnot : s.called? ≠ some .glob := by
    simpa using List.any_eq_false.mp hcalls s hs
  refine Template.unspaced_of_expandSegment (fun name v hv => ?_) hpat hs hnot hexpand c hc
  rw [get?_input hv]
  exact hinput.2

/-- **A pattern that does not consist of calls alone makes no empty output.** -/
theorem ne_nil_of_outputOf (hinput : IsWord input)
    (hcalls : (Template.parse pat).all Segment.isCall = false)
    (h : outputOf ws pat input = .ok output) :
    output ≠ [] := by
  obtain ⟨parts, hparts, rfl⟩ := outputOf_eq_ok_iff.mp h
  obtain ⟨s, hs, hcall⟩ := List.all_eq_false.mp hcalls
  obtain ⟨part, hpart, hexpand⟩ := Outcome.exists_mem_of_mapM hparts hs
  have hne : part ≠ [] := by
    refine Template.ne_nil_of_expandSegment (fun name v hv => ?_) hs (by simpa using hcall) hexpand
    rw [get?_input hv]
    exact hinput.1
  intro hnil
  exact hne (List.flatten_eq_nil_iff.mp hnil part hpart)

end Rule

end BuildPlan
