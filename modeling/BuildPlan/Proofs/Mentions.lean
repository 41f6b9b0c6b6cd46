import BuildPlan.Proofs.Outcome
import BuildPlan.Template.Expansion

/-!
# What a template reads

A template mentions the names of its placeholders and, where a placeholder has an argument, the
argument without the white space around it. These are the only names it looks up, so two namespaces
that agree on them are the same to it, in the result as in the error (`expand_congr`).
-/

namespace BuildPlan

/-- The two tables answer every look-up alike. The order of their names may differ. -/
def Bindings.SameLookups {α : Type} (b c : Bindings α) : Prop := ∀ name, b.get? name = c.get? name

/-- The placeholder has the key as its name or, trimmed, as its argument. -/
def Placeholder.Mentions (p : Placeholder) (key : Text) : Prop :=
  p.name = key ∨ p.arg.map trim = some key

instance (p : Placeholder) (key : Text) : Decidable (p.Mentions key) :=
  inferInstanceAs (Decidable (_ ∨ _))

namespace Template

/-- Some placeholder of the template mentions the key. -/
def Mentions (t key : Text) : Prop := ∃ p, Segment.placeholder p ∈ parse t ∧ p.Mentions key

/-- Whether a segment mentions the key. -/
def segmentMentions (key : Text) : Segment → Bool
  | .literal _ => false
  | .placeholder p => decide (p.Mentions key)

theorem any_segmentMentions_iff {t key : Text} :
    (parse t).any (segmentMentions key) = true ↔ Mentions t key := by
  rw [List.any_eq_true]
  constructor
  · rintro ⟨segment, hmem, hkey⟩
    cases segment with
    | literal text => exact absurd hkey (by simp [segmentMentions])
    | placeholder p => exact ⟨p, hmem, of_decide_eq_true hkey⟩
  · rintro ⟨p, hmem, hkey⟩
    exact ⟨.placeholder p, hmem, decide_eq_true hkey⟩

instance (t key : Text) : Decidable (Mentions t key) :=
  decidable_of_iff _ any_segmentMentions_iff

variable {ws : Workspace} {n n' : Namespace}

theorem expandPlaceholder_congr {p : Placeholder}
    (h : ∀ key, p.Mentions key → n.get? key = n'.get? key) :
    expandPlaceholder ws n p = expandPlaceholder ws n' p := by
  have hname : n.get? p.name = n'.get? p.name := h p.name (Or.inl rfl)
  unfold expandPlaceholder
  cases harg : p.arg with
  | none => simp only [hname]
  | some arg =>
    have hbound : n.contains p.name = n'.contains p.name := by
      rw [Bindings.contains, Bindings.contains, hname]
    have hoperand : inertOperand n arg = inertOperand n' arg := by
      rw [inertOperand, inertOperand, h (trim arg) (Or.inr (by rw [harg, Option.map_some]))]
    simp only [hbound, hoperand]

/-- **A template reads only what it mentions.** -/
theorem expand_congr {t : Text} (h : ∀ key, Mentions t key → n.get? key = n'.get? key) :
    expand ws n t = expand ws n' t := by
  unfold expand expandSegments
  rw [Outcome.mapM_congr (g := expandSegment ws n')]
  intro segment hmem
  cases segment with
  | literal text => rfl
  | placeholder p => exact expandPlaceholder_congr fun key hkey => h key ⟨p, hmem, hkey⟩

end Template

end BuildPlan
