import BuildPlan.Proofs.CallArguments

/-!
# How deep an expansion goes

To expand a template is to call functions, to call a function is to ask for its operand, and the
operand may be a template again, which is given the whole namespace. Written as such a recursion
(`expandVia` with `placeholderVia`), it is not plain that it ends, all the less where a value holds
a reference to itself.

It ends because an argument holds no closing brace: it is shorter than the template and has no
placeholder, so there is nothing left to do when it is expanded. `expandWithin` is the recursion
with a limit to the levels of placeholders. One level is enough for every template, and for every
call of a function with any argument. Without a limit the recursion has one solution only, which is
`expand`.
-/

namespace BuildPlan

namespace Template

/-! ## The recursion -/

/-- Why an expansion of limited depth gives no text. -/
inductive Halt where
  /-- There is a placeholder at a deeper level. -/
  | tooDeep
  /-- The expansion fails. -/
  | failed (cause : ExpansionError)

section Recursion

variable (ws : Workspace) (ns : Namespace) (inner : Text → Except Halt Text)

/-- The operand of a call, if `inner` expands the argument. -/
def operandVia (arg : Text) : Except Halt Text :=
  match ns.get? (trim arg) with
  | some v => .ok v
  | none => inner arg

/-- What a call gives, if `inner` expands the argument. -/
def invokeVia (f : WordFunction) (arg : Text) : Except Halt Text := do
  (f.run ws (← operandVia ns inner arg)).mapError .failed

/-- The text that a placeholder stands for, if `inner` expands its argument. -/
def placeholderVia (p : Placeholder) : Except Halt Text :=
  match p.arg with
  | none => .ok ((ns.get? p.name).getD p.raw)
  | some arg =>
    if ns.contains p.name then .error (.failed (.notCallable p.name))
    else
      match WordFunction.ofName? p.name with
      | none => .error (.failed (.undefinedFunction p.name))
      | some f => invokeVia ws ns inner f arg

end Recursion

/-- The text that a segment stands for, if its placeholder has a meaning. -/
def segmentVia (meaning : Placeholder → Except Halt Text) : Segment → Except Halt Text
  | .literal t => .ok t
  | .placeholder p => meaning p

/-- The text that a template stands for, if its placeholders have a meaning. -/
def expandVia (meaning : Placeholder → Except Halt Text) (t : Text) : Except Halt Text :=
  ((parse t).mapM (segmentVia meaning)).map List.flatten

/-- Expand a template with so many levels of placeholders: those of the template itself, those of
the arguments in it, and so on. -/
def expandWithin (ws : Workspace) (ns : Namespace) : Nat → Text → Except Halt Text
  | 0, t => expandVia (fun _ => .error .tooDeep) t
  | levels + 1, t => expandVia (placeholderVia ws ns (expandWithin ws ns levels)) t

/-- Call a function with any text as argument, which may have so many levels of placeholders. -/
def invokeWithin (ws : Workspace) (ns : Namespace) (levels : Nat) (f : WordFunction) (arg : Text) :
    Except Halt Text :=
  invokeVia ws ns (expandWithin ws ns levels) f arg

/-! ## Arguments are inert -/

section Inert

variable {ws : Workspace} {ns : Namespace} {inner : Text → Except Halt Text}
  {meaning : Placeholder → Except Halt Text} {p : Placeholder} {t arg : Text}

/-- **A text without a closing brace stands for itself**, whatever placeholders mean. -/
theorem expandVia_of_brace_not_mem (h : '}' ∉ t) : expandVia meaning t = .ok t := by
  by_cases hne : t = []
  · subst hne
    rfl
  · rw [expandVia, parse_of_brace_not_mem hne h, Outcome.map_eq_ok_iff]
    exact ⟨[t], Outcome.mapM_cons_eq_ok_iff.mpr ⟨t, [], rfl, List.mapM_nil, rfl⟩, by simp⟩

theorem expandWithin_of_brace_not_mem (h : '}' ∉ t) (levels : Nat) :
    expandWithin ws ns levels t = .ok t := by
  cases levels with
  | zero => exact expandVia_of_brace_not_mem h
  | succ levels => exact expandVia_of_brace_not_mem h

theorem operandVia_eq_inertOperand (hinner : inner arg = .ok arg) :
    operandVia ns inner arg = .ok (inertOperand ns arg) := by
  unfold operandVia inertOperand
  cases ns.get? (trim arg) with
  | none => exact hinner
  | some v => rfl

/-- **A placeholder of a template stands for the same text**, however texts with a closing brace are
expanded. -/
theorem placeholderVia_of_mem_parse (hinner : ∀ a, '}' ∉ a → inner a = .ok a)
    (hp : .placeholder p ∈ parse t) :
    placeholderVia ws ns inner p = (expandPlaceholder ws ns p).mapError .failed := by
  unfold placeholderVia expandPlaceholder
  cases harg : p.arg with
  | none => rfl
  | some arg =>
    simp only
    split
    · rfl
    · cases WordFunction.ofName? p.name with
      | none => rfl
      | some f =>
        have hoperand : operandVia ns inner arg = .ok (inertOperand ns arg) :=
          operandVia_eq_inertOperand (hinner arg (brace_not_mem_arg hp harg))
        simp only [invokeVia, hoperand]
        rfl

/-- If the placeholders of a template mean what they stand for, the template is expanded. -/
theorem expandVia_eq_expand
    (h : ∀ p, .placeholder p ∈ parse t → meaning p = (expandPlaceholder ws ns p).mapError .failed) :
    expandVia meaning t = (expand ws ns t).mapError .failed := by
  have hsegments :
      ∀ s ∈ parse t, segmentVia meaning s = (expandSegment ws ns s).mapError .failed := by
    intro s hs
    cases s with
    | literal text => rfl
    | placeholder p => exact h p hs
  rw [expandVia, expand, expandSegments, Outcome.mapM_of_mapError hsegments, Outcome.map_mapError]

/-! ## One level is enough -/

/-- **One level of placeholders is enough to expand any template.** -/
theorem expandWithin_succ (ws : Workspace) (ns : Namespace) (levels : Nat) (t : Text) :
    expandWithin ws ns (levels + 1) t = (expand ws ns t).mapError .failed :=
  expandVia_eq_expand fun _ => placeholderVia_of_mem_parse fun _ h =>
    expandWithin_of_brace_not_mem h levels

/-- **One level of placeholders is enough to call a function with any argument.** -/
theorem invokeWithin_succ (ws : Workspace) (ns : Namespace) (levels : Nat) (f : WordFunction)
    (arg : Text) :
    invokeWithin ws ns (levels + 1) f arg = (f.invoke ws ns arg).mapError .failed := by
  unfold invokeWithin invokeVia operandVia WordFunction.invoke WordFunction.operand
  cases ns.get? (trim arg) with
  | some v => rfl
  | none =>
    simp only [expandWithin_succ]
    cases expand ws ns arg with
    | error e => rfl
    | ok text => rfl

/-- No level is needed for the argument of a call that stands in a template. -/
theorem invokeWithin_of_mem_parse (hp : .placeholder p ∈ parse t) (harg : p.arg = some arg)
    (f : WordFunction) (levels : Nat) :
    invokeWithin ws ns levels f arg = (f.run ws (inertOperand ns arg)).mapError .failed := by
  have hinner : expandWithin ws ns levels arg = .ok arg :=
    expandWithin_of_brace_not_mem (brace_not_mem_arg hp harg) levels
  rw [invokeWithin, invokeVia, operandVia_eq_inertOperand hinner]
  rfl

/-- Without a level there must not be any placeholder. -/
theorem expandWithin_zero_eq_tooDeep_iff :
    expandWithin ws ns 0 t = .error .tooDeep ↔ ∃ p, .placeholder p ∈ parse t := by
  rw [expandWithin, expandVia, Outcome.map_eq_error_iff]
  constructor
  · intro h
    obtain ⟨before, s, after, hparse, hs, -⟩ := Outcome.mapM_eq_error_iff_exists.mp h
    cases s with
    | literal text => exact absurd hs nofun
    | placeholder p => exact ⟨p, by rw [hparse]; simp⟩
  · rintro ⟨p, hp⟩
    cases hres : (parse t).mapM (segmentVia fun _ => .error .tooDeep) with
    | ok texts =>
      obtain ⟨text, -, htext⟩ := Outcome.exists_mem_of_mapM hres hp
      exact absurd htext nofun
    | error e =>
      obtain ⟨-, s, -, -, hs, -⟩ := Outcome.mapM_eq_error_iff_exists.mp hres
      cases s with
      | literal text => exact absurd hs nofun
      | placeholder q =>
        obtain rfl := Except.error.inj hs
        rfl

/-- **Without a limit the recursion has one solution.** -/
theorem solves_iff (ws : Workspace) (ns : Namespace) (g : Text → Except Halt Text) :
    (∀ u, g u = expandVia (placeholderVia ws ns g) u) ↔
      ∀ u, g u = (expand ws ns u).mapError .failed := by
  constructor
  · intro hg u
    have hinert : ∀ a, '}' ∉ a → g a = .ok a :=
      fun a ha => (hg a).trans (expandVia_of_brace_not_mem ha)
    rw [hg u]
    exact expandVia_eq_expand fun _ => placeholderVia_of_mem_parse hinert
  · intro hg u
    have hinert : ∀ a, '}' ∉ a → g a = .ok a := by
      intro a ha
      rw [hg a, expand_of_brace_not_mem ha]
      rfl
    rw [hg u]
    exact (expandVia_eq_expand fun _ => placeholderVia_of_mem_parse hinert).symm

/-- **Arguments are inert, and expansion ends.** The argument of a call in a template is not empty,
holds no closing brace, does not begin with white space, is shorter than the template and has no
placeholder. So a function works on the value that the argument names, or else on the argument
itself, and not one placeholder is expanded for that. Hence one level of placeholders is enough for
the template, and for a call of a function with the template as its argument, whatever values hold;
none is enough only if there is no placeholder. The recursion without a limit has no solution but
the expansion. -/
theorem arguments_inert (ws : Workspace) (ns : Namespace) (t : Text) :
    (∀ p arg, .placeholder p ∈ parse t → p.arg = some arg →
      arg ≠ [] ∧ '}' ∉ arg ∧ (∀ c ∈ arg.head?, isBlank c = false) ∧ arg.length < t.length ∧
      parse arg = [.literal arg] ∧
      WordFunction.operand ws ns arg = .ok ((ns.get? (trim arg)).getD arg) ∧
      ∀ f levels, invokeWithin ws ns levels f arg
        = (f.run ws ((ns.get? (trim arg)).getD arg)).mapError .failed) ∧
    (∀ levels, expandWithin ws ns (levels + 1) t = (expand ws ns t).mapError .failed) ∧
    (∀ levels f, invokeWithin ws ns (levels + 1) f t = (f.invoke ws ns t).mapError .failed) ∧
    (expandWithin ws ns 0 t = .error .tooDeep ↔ ∃ p, .placeholder p ∈ parse t) ∧
    ∀ g, (∀ u, g u = expandVia (placeholderVia ws ns g) u) ↔
      ∀ u, g u = (expand ws ns u).mapError .failed := by
  refine ⟨?_, fun levels => expandWithin_succ ws ns levels t,
    fun levels f => invokeWithin_succ ws ns levels f t, expandWithin_zero_eq_tooDeep_iff,
    solves_iff ws ns⟩
  intro p arg hp harg
  obtain ⟨gap, -, -, hne, hstart, hbrace⟩ :=
    exists_raw_of_arg ((segmentation_parse t).wellFormed p hp) harg
  have hlen := length_arg_le hp harg
  refine ⟨hne, hbrace, ?_, by omega, parse_of_brace_not_mem hne hbrace,
    operand_of_mem_parse hp harg, invokeWithin_of_mem_parse hp harg⟩
  rw [← hstart]
  exact head?_trimStart arg

/-- A value that holds a reference to itself. -/
def circular : Namespace := Bindings.ofList [("x", "a/${notdir:x}")]

/-- The value is inserted as it is, by a call in a template as by a call with a template; and what
looks like a reference to it in an argument is not one. -/
theorem arguments_inert_circular :
    expandWithin ⟨.empty, [], "/", "t"⟩ circular 1 "${notdir:x}" = .ok "${notdir:x}" ∧
    invokeWithin ⟨.empty, [], "/", "t"⟩ circular 1 .notdir "b/${x}" = .ok "${notdir:x}" ∧
    .placeholder ⟨"notdir", some "b/$\x7bx", "$\x7bnotdir: b/${x}"⟩ ∈ parse "$\x7bnotdir: b/${x}" ∧
    parse "b/$\x7bx" = [.literal "b/$\x7bx"] ∧
    invokeWithin ⟨.empty, [], "/", "t"⟩ circular 0 .notdir "b/$\x7bx" = .ok "$\x7bx" := by
  obtain ⟨-, hexpand, -⟩ := arguments_inert ⟨.empty, [], "/", "t"⟩ circular "${notdir:x}"
  obtain ⟨-, -, hinvoke, -⟩ := arguments_inert ⟨.empty, [], "/", "t"⟩ circular "b/${x}"
  obtain ⟨hargs, -⟩ := arguments_inert ⟨.empty, [], "/", "t"⟩ circular "$\x7bnotdir: b/${x}"
  have hmem : .placeholder ⟨"notdir", some "b/$\x7bx", "$\x7bnotdir: b/${x}"⟩ ∈
      parse "$\x7bnotdir: b/${x}" := List.mem_singleton.mpr rfl
  obtain ⟨-, -, -, -, hparse, -, hcall⟩ := hargs _ _ hmem rfl
  exact ⟨(hexpand 0).trans rfl, (hinvoke 0 .notdir).trans rfl, hmem, hparse,
    (hcall .notdir 0).trans rfl⟩

end Inert

end Template

end BuildPlan
