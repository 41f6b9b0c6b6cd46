import BuildPlan.Proofs.CallArguments

/-!
# Why an expansion fails

Whether a template can be expanded is decided at its calls. A call is at fault if its name is bound,
if it is the name of no function, or if a word of its operand should be a wildcard pattern and is
none. The leftmost call at fault gives the error, and there is no other one: plain references stand
for themselves where nothing is bound, the argument of a call is expanded without looking at
anything (`operand_of_mem_parse`), and the functions that cut path words take every word.
-/

namespace BuildPlan

/-! ## Functions -/

namespace WordFunction

variable {ws : Workspace} {f : WordFunction} {text : Text} {bad : BadPattern}

theorem ofName?_eq_none_iff {t : Text} : ofName? t = none ↔ ∀ f : WordFunction, t ≠ f.name := by
  rw [Option.eq_none_iff_forall_ne_some]
  simp only [ne_eq, ofName?_eq_some_iff]

/-- The first word of the text that is no pattern, with what is wrong with it. -/
def FirstBadPattern (text : Text) (bad : BadPattern) : Prop :=
  ∃ before after, words text = before ++ bad.word :: after ∧
    Wildcard.Pattern.read bad.word = .error bad.fault ∧
    ∀ w ∈ before, ∃ pattern, Wildcard.Pattern.read w = .ok pattern

theorem findPaths_eq_error_iff {w : Text} :
    findPaths ws w = .error bad ↔ bad.word = w ∧ Wildcard.Pattern.read w = .error bad.fault := by
  rw [findPaths, Outcome.mapError_eq_error_iff]
  simp only [Wildcard.expandWord, Outcome.map_eq_error_iff]
  constructor
  · rintro ⟨fault, hfault, rfl⟩
    exact ⟨rfl, hfault⟩
  · rintro ⟨rfl, hfault⟩
    exact ⟨bad.fault, hfault, rfl⟩

theorem exists_findPaths_iff {w : Text} :
    (∃ paths, findPaths ws w = .ok paths) ↔ ∃ pattern, Wildcard.Pattern.read w = .ok pattern := by
  simp only [findPaths, Wildcard.expandWord, Outcome.mapError_eq_ok_iff, Outcome.map_eq_ok_iff]
  constructor
  · rintro ⟨paths, found, ⟨pattern, hread, -⟩, -⟩
    exact ⟨pattern, hread⟩
  · rintro ⟨pattern, hread⟩
    exact ⟨_, _, ⟨pattern, hread, rfl⟩, rfl⟩

/-- Applying a function fails exactly if a word does. -/
theorem apply_eq_error_iff :
    f.apply ws text = .error bad ↔ (words text).mapM (f.onWord ws) = .error bad := by
  rw [apply, Outcome.bind_eq_error_iff]
  constructor
  · rintro (h | ⟨results, -, h⟩)
    · exact h
    · exact absurd h nofun
  · exact Or.inl

/-- **A search fails with the first word that is no pattern.** -/
theorem apply_glob_eq_error_iff : glob.apply ws text = .error bad ↔ FirstBadPattern text bad := by
  rw [apply_eq_error_iff, Outcome.mapM_eq_error_iff_exists, FirstBadPattern]
  simp only [onWord, findPaths_eq_error_iff, exists_findPaths_iff]
  constructor
  · rintro ⟨before, w, after, hwords, ⟨rfl, hread⟩, hbefore⟩
    exact ⟨before, after, hwords, hread, hbefore⟩
  · rintro ⟨before, after, hwords, hread, hbefore⟩
    exact ⟨before, bad.word, after, hwords, ⟨rfl, hread⟩, hbefore⟩

/-- **The functions that cut path words never fail.** -/
theorem exists_apply (ws : Workspace) (text : Text) (hf : f ≠ .glob) :
    ∃ r, f.apply ws text = .ok r := by
  cases h : f.apply ws text with
  | ok r => exact ⟨r, rfl⟩
  | error bad =>
    rw [apply_eq_error_iff, Outcome.mapM_eq_error_iff_exists] at h
    obtain ⟨before, w, after, -, herror, -⟩ := h
    cases f with
    | glob => exact absurd rfl hf
    | basename => exact absurd herror nofun
    | notdir => exact absurd herror nofun
    | dir => exact absurd herror nofun
    | suffix => exact absurd herror nofun

/-- A call fails exactly if it is a search with a word that is no pattern. -/
theorem run_eq_error_iff {e : ExpansionError} :
    f.run ws text = .error e ↔
      f = .glob ∧ ∃ bad, FirstBadPattern text bad ∧ .badPattern bad = e := by
  rw [run, Outcome.mapError_eq_error_iff]
  by_cases hf : f = .glob
  · subst hf
    simp only [apply_glob_eq_error_iff, true_and]
  · obtain ⟨r, hr⟩ := exists_apply ws text hf
    simp [hr, hf]

end WordFunction

/-! ## Templates -/

namespace Template

/-- The placeholder is a call at fault, and this is the error. -/
inductive Faulty (ns : Namespace) (p : Placeholder) : ExpansionError → Prop where
  | notCallable {arg : Text} : p.arg = some arg → ns.contains p.name = true →
      Faulty ns p (.notCallable p.name)
  | undefinedFunction {arg : Text} : p.arg = some arg → ns.contains p.name = false →
      (∀ f : WordFunction, p.name ≠ f.name) → Faulty ns p (.undefinedFunction p.name)
  | badPattern {arg : Text} {bad : BadPattern} : p.arg = some arg → ns.contains p.name = false →
      p.name = WordFunction.glob.name → WordFunction.FirstBadPattern (inertOperand ns arg) bad →
      Faulty ns p (.badPattern bad)

section

variable {ws : Workspace} {ns : Namespace} {p : Placeholder} {t : Text} {e : ExpansionError}

/-- Only calls can be at fault. -/
theorem Faulty.exists_arg (h : Faulty ns p e) : ∃ arg, p.arg = some arg := by
  cases h with
  | notCallable harg => exact ⟨_, harg⟩
  | undefinedFunction harg => exact ⟨_, harg⟩
  | badPattern harg => exact ⟨_, harg⟩

/-- **A placeholder fails exactly if it is a call at fault**, with the error of that fault. -/
theorem expandPlaceholder_eq_error_iff : expandPlaceholder ws ns p = .error e ↔ Faulty ns p e := by
  constructor
  · intro h
    unfold expandPlaceholder at h
    split at h
    · exact absurd h nofun
    · rename_i arg harg
      split at h
      · rename_i hbound
        cases h
        exact .notCallable harg hbound
      · rename_i hfree
        rw [Bool.not_eq_true] at hfree
        split at h
        · rename_i hnone
          cases h
          exact .undefinedFunction harg hfree (WordFunction.ofName?_eq_none_iff.mp hnone)
        · rename_i f hf
          obtain ⟨rfl, bad, hbad, rfl⟩ := WordFunction.run_eq_error_iff.mp h
          exact .badPattern harg hfree (WordFunction.ofName?_eq_some_iff.mp hf) hbad
  · rintro (⟨harg, hbound⟩ | ⟨harg, hfree, hnone⟩ | ⟨harg, hfree, hglob, hbad⟩)
    · simp only [expandPlaceholder, harg, if_pos hbound]
    · simp only [expandPlaceholder, harg, hfree, WordFunction.ofName?_eq_none_iff.mpr hnone,
        Bool.false_eq_true, if_false]
    · simp only [expandPlaceholder, harg, hfree, WordFunction.ofName?_eq_some_iff.mpr hglob,
        Bool.false_eq_true, if_false]
      exact WordFunction.run_eq_error_iff.mpr ⟨rfl, _, hbad, rfl⟩

theorem expandSegment_eq_error_iff {s : Segment} :
    expandSegment ws ns s = .error e ↔ ∃ p, s = .placeholder p ∧ Faulty ns p e := by
  cases s with
  | literal u => simp [expandSegment]
  | placeholder p => simp [expandSegment, expandPlaceholder_eq_error_iff]

theorem exists_expandSegment_iff {s : Segment} :
    (∃ r, expandSegment ws ns s = .ok r) ↔ ∀ p, s = .placeholder p → ¬∃ e, Faulty ns p e := by
  cases h : expandSegment ws ns s with
  | ok r =>
    refine iff_of_true ⟨r, rfl⟩ ?_
    rintro p hp ⟨e, he⟩
    rw [expandSegment_eq_error_iff.mpr ⟨p, hp, he⟩] at h
    exact absurd h nofun
  | error e =>
    obtain ⟨p, hp, he⟩ := expandSegment_eq_error_iff.mp h
    exact iff_of_false nofun fun hnot => hnot p hp ⟨e, he⟩

/-- **The leftmost call at fault is the error.** -/
theorem expand_eq_error_iff :
    expand ws ns t = .error e ↔
      ∃ before p after, parse t = before ++ .placeholder p :: after ∧ Faulty ns p e ∧
        ∀ q, .placeholder q ∈ before → ¬∃ e', Faulty ns q e' := by
  rw [expand, expandSegments, Outcome.map_eq_error_iff, Outcome.mapM_eq_error_iff_exists]
  simp only [expandSegment_eq_error_iff, exists_expandSegment_iff]
  constructor
  · rintro ⟨before, s, after, hparse, ⟨p, rfl, hp⟩, hbefore⟩
    exact ⟨before, p, after, hparse, hp, fun q hq => hbefore _ hq q rfl⟩
  · rintro ⟨before, p, after, hparse, hp, hbefore⟩
    refine ⟨before, .placeholder p, after, hparse, ⟨p, rfl, hp⟩, ?_⟩
    rintro s hs q rfl
    exact hbefore q hs

/-- A template can be expanded exactly if none of its placeholders is at fault. -/
theorem exists_expand_iff :
    (∃ r, expand ws ns t = .ok r) ↔ ∀ p, .placeholder p ∈ parse t → ¬∃ e, Faulty ns p e := by
  have hparts : (∃ r, expand ws ns t = .ok r) ↔
      ∃ parts, (parse t).mapM (expandSegment ws ns) = .ok parts := by
    simp only [expand, expandSegments, Outcome.map_eq_ok_iff]
    constructor
    · rintro ⟨r, parts, h, -⟩
      exact ⟨parts, h⟩
    · rintro ⟨parts, h⟩
      exact ⟨parts.flatten, parts, h, rfl⟩
  rw [hparts, Outcome.exists_mapM_iff]
  simp only [exists_expandSegment_iff]
  constructor
  · intro h p hp
    exact h _ hp p rfl
  · rintro h s hs p rfl
    exact h p hs

end

/-- **When a template can not be expanded, and with which error.** Exactly if one of its calls is at
fault, and then with the error of the leftmost one. Nothing fails inside an argument, a call of a
function that cuts path words never fails, nor does a template without calls. -/
theorem expand_error_exact (ws : Workspace) (ns : Namespace) (t : Text) :
    ((∃ e, expand ws ns t = .error e) ↔ ∃ p, .placeholder p ∈ parse t ∧ ∃ e, Faulty ns p e) ∧
    (∀ e, expand ws ns t = .error e ↔
      ∃ before p after, parse t = before ++ .placeholder p :: after ∧ Faulty ns p e ∧
        ∀ q, .placeholder q ∈ before → ¬∃ e', Faulty ns q e') ∧
    (∀ p arg, .placeholder p ∈ parse t → p.arg = some arg →
      WordFunction.operand ws ns arg = .ok (inertOperand ns arg) ∧
      ∀ f : WordFunction, f ≠ .glob → ∃ r, f.invoke ws ns arg = .ok r) ∧
    ((∀ p, .placeholder p ∈ parse t → p.arg = none) → ∃ r, expand ws ns t = .ok r) := by
  refine ⟨?_, fun e => expand_eq_error_iff, ?_, ?_⟩
  · constructor
    · rintro ⟨e, he⟩
      obtain ⟨before, p, after, hparse, hp, -⟩ := expand_eq_error_iff.mp he
      exact ⟨p, by rw [hparse]; simp, e, hp⟩
    · rintro ⟨p, hmem, hp⟩
      cases h : expand ws ns t with
      | error e => exact ⟨e, rfl⟩
      | ok r => exact absurd hp (exists_expand_iff.mp ⟨r, h⟩ p hmem)
  · intro p arg hmem harg
    refine ⟨operand_of_mem_parse hmem harg, fun f hf => ?_⟩
    obtain ⟨r, hr⟩ := WordFunction.exists_apply ws (inertOperand ns arg) hf
    exact ⟨r, by rw [invoke_of_mem_parse hmem harg]; exact Outcome.mapError_eq_ok_iff.mpr hr⟩
  · intro hplain
    refine exists_expand_iff.mpr fun p hp => ?_
    rintro ⟨e, he⟩
    obtain ⟨arg, harg⟩ := he.exists_arg
    exact absurd ((hplain p hp).symm.trans harg) nofun

/-- Of three calls at fault the leftmost counts, and of its words the first that is no pattern. -/
example : expand ⟨.empty, [], "/", "t"⟩ (Bindings.ofList [("dir", "d"), ("src", "*.c a***  b***")])
    "${x} ${suffix:a.c} ${glob: src } ${dir:a} ${nope:a}"
      = .error (.badPattern ⟨"a***", ⟨3, .starRun⟩⟩) := rfl

end Template

end BuildPlan
