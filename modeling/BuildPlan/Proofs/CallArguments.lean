import BuildPlan.Proofs.Mentions
import BuildPlan.Proofs.TemplateGrammar
import BuildPlan.Proofs.Trimming

/-!
# The arguments of calls

A function expands its argument as a template, unless the argument names a value. Where the call
stands in a template there is nothing to expand: the argument ends before the first closing brace,
and without a closing brace there is no placeholder (`parse_of_brace_not_mem`). So the function
works on the value that the argument names, or on the argument as it is written
(`operand_of_mem_parse`).

That bounds what a template can read. It looks up the names of its placeholders and their arguments
without the white space around them. The expansion of an argument is given all names and looks up
none of them (`expand_reads`).
-/

namespace BuildPlan

/-- A function is found by its own name and by no other. -/
theorem WordFunction.ofName?_eq_some_iff {t : Text} {f : WordFunction} :
    ofName? t = some f ↔ t = f.name := by
  constructor
  · intro h
    have hf := List.find?_some h
    exact (beq_iff_eq.mp hf).symm
  · rintro rfl
    cases f <;> rfl

namespace Template

/-! ## How an argument is written -/

section Written

variable {p : Placeholder} {t arg : Text}

theorem isName_of_wellFormed (h : WellFormed p) : isName p.name = true := by
  cases h with
  | reference hname => exact hname
  | call hname => exact hname

/-- **A placeholder with an argument** is written as its name, a gap with a colon in it and the
argument, which is not empty, does not begin with white space and holds no closing brace. -/
theorem exists_raw_of_arg (h : WellFormed p) (harg : p.arg = some arg) :
    ∃ gap, p.raw = ['$', '{'] ++ p.name ++ gap ++ arg ++ ['}'] ∧ ':' ∈ gap ∧
      arg ≠ [] ∧ trimStart arg = arg ∧ '}' ∉ arg := by
  cases h with
  | reference hname hgap => exact absurd harg nofun
  | @call name gap gap' text hname hgap hgap' hbrace =>
    simp only [argument?] at harg
    split at harg
    · exact absurd harg nofun
    · rename_i hne
      obtain rfl : trimStart text = arg := Option.some.inj harg
      have hsplit : text.takeWhile isBlank ++ trimStart text = text :=
        List.takeWhile_append_dropWhile
      refine ⟨gap ++ [':'] ++ gap' ++ text.takeWhile isBlank, ?_, by simp, ?_, ?_, ?_⟩
      · conv => lhs; rw [← hsplit]
        simp
      · exact fun hnil => hne (List.isEmpty_iff.mpr hnil)
      · exact trimStart_of_head? (head?_trimStart text)
      · exact fun hm => hbrace ((List.dropWhile_sublist _).subset hm)

theorem brace_not_mem_arg (hp : .placeholder p ∈ parse t) (harg : p.arg = some arg) :
    '}' ∉ arg := by
  obtain ⟨gap, -, -, -, -, hbrace⟩ :=
    exists_raw_of_arg ((segmentation_parse t).wellFormed p hp) harg
  exact hbrace

theorem length_raw_le (hp : .placeholder p ∈ parse t) : p.raw.length ≤ t.length := by
  obtain ⟨before, after, hparse⟩ := List.append_of_mem hp
  have hwritten := congrArg List.length (written_parse t)
  rw [hparse, List.flatMap_append, List.flatMap_cons, List.length_append,
    List.length_append] at hwritten
  simp only [Segment.written] at hwritten
  omega

/-- Around an argument there are a dollar sign, two braces, a name and a colon. -/
theorem length_arg_le (hp : .placeholder p ∈ parse t) (harg : p.arg = some arg) :
    arg.length + 5 ≤ t.length := by
  have hwell := (segmentation_parse t).wellFormed p hp
  obtain ⟨gap, hraw, hcolon, -⟩ := exists_raw_of_arg hwell harg
  have hname : 0 < p.name.length := by
    rw [List.length_pos_iff]
    intro hnil
    have h := isName_of_wellFormed hwell
    rw [hnil] at h
    exact absurd h (by decide)
  have hgap : 0 < gap.length := List.length_pos_of_mem hcolon
  have hlen := length_raw_le hp
  rw [hraw] at hlen
  simp only [List.length_append, List.length_cons, List.length_nil] at hlen
  omega

end Written

/-! ## Expanding an argument -/

theorem parse_of_brace_not_mem {t : Text} (hne : t ≠ []) (h : '}' ∉ t) :
    parse t = [.literal t] := by
  have hinside :
      ∀ x y, t = x ++ y → y ≠ [] → ¬BeginsPlaceholder (y ++ [].flatMap Segment.written) := by
    intro x y ht _
    rw [List.flatMap_nil, List.append_nil, ← readPlaceholder_eq_none_iff]
    exact readPlaceholder_eq_none fun hm => h (ht ▸ List.mem_append_right x hm)
  have hliteral : Segmentation t [.literal t] :=
    segmentation_literal_iff.mpr
      ⟨⟨hne, nofun, hinside⟩, [], (List.append_nil t).symm, segmentation_nil_iff.mpr rfl⟩
  exact hliteral.eq_parse.symm

section Expanded

variable {ws : Workspace} {n n' : Namespace} {p : Placeholder} {t arg : Text} {f : WordFunction}

theorem expand_of_parse_singleton {s : Segment} {r : Text} (hparse : parse t = [s])
    (hs : expandSegment ws n s = .ok r) : expand ws n t = .ok r := by
  rw [expand, expandSegments, hparse, Outcome.map_eq_ok_iff]
  exact ⟨[r], Outcome.mapM_cons_eq_ok_iff.mpr ⟨r, [], hs, List.mapM_nil, rfl⟩, by simp⟩

/-- **A text without a closing brace expands to itself**, whatever is bound. -/
theorem expand_of_brace_not_mem (h : '}' ∉ t) : expand ws n t = .ok t := by
  by_cases hne : t = []
  · subst hne
    rfl
  · exact expand_of_parse_singleton (parse_of_brace_not_mem hne h) rfl

/-- The operand of a call in a template is what the argument names, or the argument as it is
written. -/
theorem operand_of_mem_parse (hp : .placeholder p ∈ parse t) (harg : p.arg = some arg) :
    WordFunction.operand ws n arg = .ok (inertOperand n arg) := by
  unfold WordFunction.operand inertOperand
  cases n.get? (trim arg) with
  | none => exact expand_of_brace_not_mem (brace_not_mem_arg hp harg)
  | some v => rfl

theorem invoke_of_mem_parse (hp : .placeholder p ∈ parse t) (harg : p.arg = some arg) :
    f.invoke ws n arg = f.run ws (inertOperand n arg) := by
  rw [WordFunction.invoke, operand_of_mem_parse hp harg]
  rfl

/-- A call in a template hands its argument to the function. -/
theorem expandPlaceholder_eq_invoke (hp : .placeholder p ∈ parse t) (harg : p.arg = some arg)
    (hf : p.name = f.name) (hfree : n.get? p.name = none) :
    expandPlaceholder ws n p = f.invoke ws n arg := by
  have hbound : ¬n.contains p.name = true := by
    rw [Bindings.contains, hfree]
    exact Bool.false_ne_true
  rw [invoke_of_mem_parse hp harg, expandPlaceholder, harg]
  simp only [if_neg hbound, WordFunction.ofName?_eq_some_iff.mpr hf]

/-! ## What a template reads -/

/-- **What a template can read.** Two namespaces that give the same for the name of every
placeholder and for every argument without the white space around it are the same to the template,
in the result as in the error. Each function it calls is given the argument and the whole namespace,
and to it the two are the same as well. -/
theorem expand_reads (ws : Workspace) (t : Text) (n n' : Namespace)
    (hname : ∀ p, .placeholder p ∈ parse t → n.get? p.name = n'.get? p.name)
    (harg : ∀ p arg, .placeholder p ∈ parse t → p.arg = some arg →
      n.get? (trim arg) = n'.get? (trim arg)) :
    expand ws n t = expand ws n' t ∧
    ∀ p arg, .placeholder p ∈ parse t → p.arg = some arg → ∀ f : WordFunction,
      f.invoke ws n arg = f.invoke ws n' arg ∧
      (p.name = f.name → n.get? p.name = none → expandPlaceholder ws n p = f.invoke ws n arg) := by
  refine ⟨expand_congr ?_, ?_⟩
  · rintro key ⟨p, hp, rfl | hkey⟩
    · exact hname p hp
    · obtain ⟨arg, ha, rfl⟩ := Option.map_eq_some_iff.mp hkey
      exact harg p arg hp ha
  · intro p arg hp ha f
    have hoperand : inertOperand n arg = inertOperand n' arg := by
      rw [inertOperand, inertOperand, harg p arg hp ha]
    refine ⟨?_, expandPlaceholder_eq_invoke hp ha⟩
    rw [invoke_of_mem_parse hp ha, invoke_of_mem_parse hp ha, hoperand]

end Expanded

/-- A template with an argument that looks like the beginning of a reference to `x`. -/
def unclosed : Text := "${basename:${x}.c} ${y} ${notdir: in }"

/-- Neither that argument nor a value that looks like a reference to `x` makes a difference of `x`.
-/
theorem expand_reads_unclosed :
    expand ⟨.empty, [], "/", "t"⟩ (Bindings.ofList [("in", "src/a.c"), ("y", "${x}")]) unclosed
      = .ok "${x.c} ${x} a.c" ∧
    expand ⟨.empty, [], "/", "t"⟩
      (Bindings.ofList [("x", "1"), ("y", "${x}"), ("in", "src/a.c"), ("${x}", "2"), ("src", "3")])
      unclosed = .ok "${x.c} ${x} a.c" := by
  have hparse : parse unclosed =
      [.placeholder ⟨"basename", some "$\x7bx", "$\x7bbasename:${x}"⟩, .literal ".c\x7d ",
        .placeholder ⟨"y", none, "${y}"⟩, .literal " ",
        .placeholder ⟨"notdir", some "in ", "${notdir: in }"⟩] := rfl
  have hmem : ∀ p, .placeholder p ∈ parse unclosed →
      p = ⟨"basename", some "$\x7bx", "$\x7bbasename:${x}"⟩ ∨ p = ⟨"y", none, "${y}"⟩ ∨
        p = ⟨"notdir", some "in ", "${notdir: in }"⟩ := by
    intro p hp
    rw [hparse] at hp
    simpa only [List.mem_cons, Segment.placeholder.injEq, reduceCtorEq, List.not_mem_nil, or_false,
      false_or] using hp
  refine ⟨rfl, (expand_reads _ unclosed _ (Bindings.ofList [("in", "src/a.c"), ("y", "${x}")])
    ?_ ?_).1.trans rfl⟩
  · intro p hp
    rcases hmem p hp with rfl | rfl | rfl <;> rfl
  · intro p arg hp harg
    rcases hmem p hp with rfl | rfl | rfl <;> cases harg <;> rfl

end Template

end BuildPlan
