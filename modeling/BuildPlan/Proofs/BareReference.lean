import BuildPlan.Proofs.CallArguments
import BuildPlan.Proofs.Publication

/-!
# References to a key

Any text can be a key, but not every key can be read by writing it between braces. What is written
so may be a reference to another name, a call, several segments or no placeholder at all. If the key
is a name, it is a reference to the key and stands for its value (`expand_reference`). If not, the
key is not read in any of these shapes: names of placeholders are names, and an argument is shorter
than the text it stands in by more than what was written around the key (`not_mentions_reference`).

So the properties of a rule can be read by a reference exactly if its name is an identifier.
-/

namespace BuildPlan

namespace Template

/-- The key between braces. -/
def reference (key : Text) : Text := ['$', '{'] ++ key ++ ['}']

/-! ## Keys that are names -/

theorem parse_reference {key : Text} (h : isName key = true) :
    parse (reference key) = [.placeholder ⟨key, none, reference key⟩] := by
  have hparse := parse_append_of_wellFormed (@WellFormed.reference key [] h (by simp)) []
  rw [parse_nil, List.append_nil] at hparse
  simpa [reference] using hparse

/-- **A reference to a name stands for what the name is bound to.** -/
theorem expand_reference {ws : Workspace} {ns : Namespace} {key v : Text} (h : isName key = true)
    (hv : ns.get? key = some v) : expand ws ns (reference key) = .ok v := by
  refine expand_of_parse_singleton (parse_reference h) ?_
  simp only [expandSegment, expandPlaceholder, hv, Option.getD_some]

/-! ## Keys that are none -/

/-- **A key that is no name is not read by a reference to it**, neither as a name nor as an
argument. -/
theorem not_mentions_reference {key : Text} (h : isName key = false) :
    ¬Mentions (reference key) key := by
  rintro ⟨p, hp, rfl | hkey⟩
  · have hname := isName_of_wellFormed ((segmentation_parse _).wellFormed p hp)
    rw [h] at hname
    exact absurd hname Bool.false_ne_true
  · obtain ⟨arg, harg, rfl⟩ := Option.map_eq_some_iff.mp hkey
    have hlen := length_arg_le hp harg
    have htrim := length_trim_le arg
    simp only [reference, List.length_append, List.length_cons, List.length_nil] at hlen
    omega

theorem expand_reference_congr {ws : Workspace} {n n' : Namespace} {key : Text}
    (h : isName key = false) (hsame : ∀ name, name ≠ key → n.get? name = n'.get? name) :
    expand ws n (reference key) = expand ws n' (reference key) :=
  expand_congr fun name hname => hsame name fun he => not_mentions_reference h (he ▸ hname)

/-! ## Identifiers -/

/-- The text is an identifier: a letter or an underscore, and then letters, digits and underscores.
-/
def isIdentifier : Text → Bool
  | [] => false
  | c :: cs => isNameStart c && cs.all fun d => isNameStart d || d.isDigit

/-- An identifier is a name without a dot. -/
theorem isIdentifier_iff {t : Text} : isIdentifier t = true ↔ isName t = true ∧ '.' ∉ t := by
  cases t with
  | nil => simp [isIdentifier, isName]
  | cons c cs =>
    simp only [isIdentifier, isName, Bool.and_eq_true, List.all_eq_true]
    constructor
    · rintro ⟨hc, hcs⟩
      refine ⟨⟨hc, fun d hd => by rw [isNameChar, hcs d hd, Bool.true_or]⟩, fun hdot => ?_⟩
      rcases List.mem_cons.mp hdot with rfl | hdot
      · exact absurd hc (by decide)
      · exact absurd (hcs _ hdot) (by decide)
    · rintro ⟨⟨hc, hcs⟩, hdot⟩
      refine ⟨hc, fun d hd => ?_⟩
      have hd' := hcs d hd
      rw [isNameChar, Bool.or_eq_true] at hd'
      refine hd'.resolve_right fun he => hdot ?_
      rw [← beq_iff_eq.mp he]
      exact List.mem_cons_of_mem c hd

end Template

namespace Resolution

open Template

/-- A published name is a name exactly if the name of the rule is. -/
theorem isName_publishedName (rule : Text) (p : Property) :
    isName (publishedName rule p) = isName rule := by
  have hname : p.name.all isNameChar = true := by
    cases p <;> decide
  have hdot : isNameChar '.' = true := by decide
  cases rule with
  | nil => rfl
  | cons c cs => simp [publishedName, isName, hname, hdot]

/-- **Which keys a reference can reach.** A key that is a name is read, wherever it is bound. A key
that is none is not: the reference gives the same, value or error, whatever is bound to the key. So
it is with all that is published of a rule, if the name of the rule is no identifier. -/
theorem reference_reach (ws : Workspace) (key : Text) :
    (isName key = true →
      ∀ ns v, ns.get? key = some v → expand ws ns (reference key) = .ok v) ∧
    (isName key = false →
      ∀ n n', (∀ name, name ≠ key → n.get? name = n'.get? name) →
        expand ws n (reference key) = expand ws n' (reference key)) ∧
    (∀ ruleNames assignments before s rule p,
      resolveRules ws ruleNames assignments before = .ok s →
      (∃ a ∈ assignments, NamesRule a rule) → isIdentifier rule = false →
      key = publishedName rule p →
      ∀ n n', (∀ name, name ≠ key → n.get? name = n'.get? name) →
        expand ws n (reference key) = expand ws n' (reference key)) := by
  refine ⟨fun h ns v hv => expand_reference h hv,
    fun h n n' hsame => expand_reference_congr h hsame, ?_⟩
  rintro ruleNames assignments before s rule p hrun ⟨a, ha, q, hq⟩ hrule rfl n n' hsame
  -- a rule that can be assigned has no dot in its name, so it is not even a name
  obtain ⟨other, q', hq', hdot⟩ := exists_key_of_mem hrun a ha
  obtain ⟨rfl, -⟩ := publishedName_inj_iff.mp (hq.symm.trans hq')
  refine expand_reference_congr ?_ hsame
  rw [isName_publishedName, ← Bool.not_eq_true]
  intro hname
  rw [isIdentifier_iff.mpr ⟨hname, hdot⟩] at hrule
  exact absurd hrule.symm Bool.false_ne_true

/-- A key with a hyphen is bound and stays as it is written; with a colon it is a call. -/
example : ∃ s, resolveRules ⟨.empty, [], "/", "t"⟩ ["cc-obj", "dir:a"]
      [("cc-obj.ins", "a.c"), ("cc-obj.out", "a.o"),
        ("dir:a.ins", "${cc-obj.out} ${dir:a.ins}")] .empty
        = .ok s ∧
    s.names.get? "cc-obj.out" = some "a.o" ∧ s.names.get? "dir:a.ins" = some "${cc-obj.out} ./" :=
  ⟨_, rfl, rfl, rfl⟩

end Resolution

end BuildPlan
