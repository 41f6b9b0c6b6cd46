import BuildPlan.Proofs.EdgeGroups
import BuildPlan.Proofs.ExpansionFaults

/-!
# Patterns at fault

A pattern is expanded once for each input, and knows the input as `in`. What can go wrong lies in
the pattern: it may call `in`, which is always bound, or call what is no function. Neither depends
on the text that the input is, and the functions that cut path words take every text
(`exists_apply`). Only a search may read a word of the input as a wildcard pattern, and fail or not
as the word may be.

So a pattern without searches is at fault for all inputs or for none, and with the same error
(`outputOf_eq_error_iff`). The fault shows as soon as there is an input.
-/

namespace BuildPlan

namespace Template

variable {pat input : Text} {p : Placeholder} {e : ExpansionError}

/-- The placeholder is a call that no pattern can make, and this is the error. -/
inductive WrongCall (p : Placeholder) : ExpansionError → Prop where
  /-- The input is a value. -/
  | input {arg : Text} : p.arg = some arg → p.name = "in" → WrongCall p (.notCallable p.name)
  | unknown {arg : Text} :
      p.arg = some arg → p.name ≠ "in" → (∀ f : WordFunction, p.name ≠ f.name) →
      WrongCall p (.undefinedFunction p.name)

/-- The error of the leftmost wrong call. -/
def FirstWrongCall (pat : Text) (e : ExpansionError) : Prop :=
  ∃ before p after, parse pat = before ++ .placeholder p :: after ∧ WrongCall p e ∧
    ∀ q, .placeholder q ∈ before → ¬∃ e', WrongCall q e'

theorem not_glob_of_calls (hcalls : calls pat .glob = false) (hp : .placeholder p ∈ parse pat)
    {arg : Text} (harg : p.arg = some arg) : p.name ≠ WordFunction.glob.name := by
  intro hname
  have hcalled : (Segment.placeholder p).called? = some .glob := by
    rw [Segment.called?, harg, hname]
    rfl
  simpa [hcalled] using List.any_eq_false.mp hcalls _ hp

theorem contains_input_iff (input name : Text) :
    (Bindings.empty.insert "in" input).contains name = true ↔ name = "in" := by
  rw [Bindings.contains_iff, Bindings.keys_insert, Bindings.keys_empty, if_neg List.not_mem_nil,
    List.nil_append, List.mem_singleton]

theorem contains_input_eq_false_iff (input name : Text) :
    (Bindings.empty.insert "in" input).contains name = false ↔ name ≠ "in" := by
  rw [← Bool.not_eq_true, contains_input_iff]

/-- **Whether a call is at fault in a pattern does not depend on the input**, unless it is a search.
-/
theorem faulty_input_iff (input : Text)
    (hsearch : ∀ arg, p.arg = some arg → p.name ≠ WordFunction.glob.name) :
    Faulty (Bindings.empty.insert "in" input) p e ↔ WrongCall p e := by
  constructor
  · rintro (⟨harg, hbound⟩ | ⟨harg, hfree, hnone⟩ | ⟨harg, -, hglob, -⟩)
    · exact .input harg ((contains_input_iff input p.name).mp hbound)
    · exact .unknown harg ((contains_input_eq_false_iff input p.name).mp hfree) hnone
    · exact absurd hglob (hsearch _ harg)
  · rintro (⟨harg, hname⟩ | ⟨harg, hname, hnone⟩)
    · exact .notCallable harg ((contains_input_iff input p.name).mpr hname)
    · exact .undefinedFunction harg ((contains_input_eq_false_iff input p.name).mpr hname) hnone

end Template

namespace Rule

open Template

variable {ws : Workspace} {pat input : Text} {ins : List Text} {out : Option (List Text)}
  {e : ExpansionError}

/-- **A pattern without searches fails for every input alike**, at its leftmost wrong call. -/
theorem outputOf_eq_error_iff (hcalls : calls pat .glob = false) :
    outputOf ws pat input = .error e ↔ FirstWrongCall pat e := by
  have hfaulty : ∀ p, .placeholder p ∈ parse pat → ∀ e',
      Faulty (Bindings.empty.insert "in" input) p e' ↔ WrongCall p e' := fun p hp _ =>
    faulty_input_iff input fun _ harg => not_glob_of_calls hcalls hp harg
  rw [outputOf, expand_eq_error_iff, FirstWrongCall]
  refine exists_congr fun before => exists_congr fun p => exists_congr fun after =>
    and_congr_right fun hparse => ?_
  have hp : .placeholder p ∈ parse pat := by simp [hparse]
  have hbefore :
      (∀ q, .placeholder q ∈ before → ¬∃ e', Faulty (Bindings.empty.insert "in" input) q e') ↔
      ∀ q, .placeholder q ∈ before → ¬∃ e', WrongCall q e' := by
    refine forall_congr' fun q => imp_congr_right fun hq => not_congr (exists_congr fun e' => ?_)
    exact hfaulty q (by simp [hparse, hq]) e'
  rw [hfaulty p hp e, hbefore]

/-- A rule with a pattern fails at the first input for which the pattern does. -/
theorem outs_pat_eq_error_iff :
    outs ws ⟨ins, some pat, out⟩ = .error e ↔
      ∃ before input after, ins = before ++ input :: after ∧ outputOf ws pat input = .error e ∧
        ∀ i ∈ before, ∃ o, outputOf ws pat i = .ok o := by
  show (ins.mapM (outputOf ws pat)).map some = .error e ↔ _
  rw [Outcome.map_eq_error_iff, Outcome.mapM_eq_error_iff_exists]

/-- The outputs of a rule with a pattern are made of its inputs, one of each. -/
theorem outs_pat_eq_ok_iff {result : Option (List Text)} :
    outs ws ⟨ins, some pat, out⟩ = .ok result ↔
      ∃ os, result = some os ∧ List.Forall₂ (fun i o => outputOf ws pat i = .ok o) ins os := by
  show (ins.mapM (outputOf ws pat)).map some = .ok result ↔ _
  rw [Outcome.map_eq_ok_iff]
  simp only [Outcome.mapM_eq_ok_iff]
  constructor
  · rintro ⟨os, hos, rfl⟩
    exact ⟨os, rfl, hos⟩
  · rintro ⟨os, rfl, hos⟩
    exact ⟨os, hos, rfl⟩

/-- **A rule with a pattern fails exactly if it has inputs and the pattern a wrong call.** -/
theorem outs_eq_error_iff_firstWrongCall (hcalls : calls pat .glob = false) :
    outs ws ⟨ins, some pat, out⟩ = .error e ↔ ins ≠ [] ∧ FirstWrongCall pat e := by
  rw [outs_pat_eq_error_iff]
  simp only [outputOf_eq_error_iff hcalls]
  constructor
  · rintro ⟨before, input, after, rfl, hwrong, -⟩
    exact ⟨by simp, hwrong⟩
  · rintro ⟨hne, hwrong⟩
    -- the pattern fails for the first input already
    obtain ⟨input, after, rfl⟩ := List.exists_cons_of_ne_nil hne
    exact ⟨[], input, after, rfl, hwrong, fun i hi => absurd hi List.not_mem_nil⟩

/-- **A pattern without searches is good or bad whatever the inputs are.** A rule with such a
pattern and at least one input fails exactly if the pattern has a wrong call, so any two of them
fail together and with the same error. If the outputs can be made there is one for each input, in
order, and it is what the pattern expands to where `in` is bound to the input. A rule without inputs
has no outputs and never fails. What was listed as outputs plays no part. -/
theorem outs_of_pattern (ws ws' : Workspace) (pat : Text) (hcalls : calls pat .glob = false) :
    (∀ ins out e, outs ws ⟨ins, some pat, out⟩ = .error e ↔ ins ≠ [] ∧ FirstWrongCall pat e) ∧
    (∀ ins ins' out out' e, ins ≠ [] → ins' ≠ [] →
      (outs ws ⟨ins, some pat, out⟩ = .error e ↔ outs ws' ⟨ins', some pat, out'⟩ = .error e)) ∧
    (∀ ins out result, outs ws ⟨ins, some pat, out⟩ = .ok result →
      ∃ os, result = some os ∧
        List.Forall₂ (fun i o => expand ws (Bindings.empty.insert "in" i) pat = .ok o) ins os) ∧
    ∀ out, outs ws ⟨[], some pat, out⟩ = .ok (some []) := by
  refine ⟨fun ins out e => outs_eq_error_iff_firstWrongCall hcalls, ?_, ?_, ?_⟩
  · intro ins ins' out out' e hne hne'
    rw [outs_eq_error_iff_firstWrongCall hcalls, outs_eq_error_iff_firstWrongCall hcalls,
      and_iff_right hne, and_iff_right hne']
  · intro ins out result h
    exact outs_pat_eq_ok_iff.mp h
  · intro out
    exact outs_pat_eq_ok_iff.mpr ⟨[], rfl, .nil⟩

/-- A call of the input behind calls that are in order, and a call of no function behind it. -/
theorem outs_of_pattern_calling_input :
    calls "${dir:in}${suffix: in }${in:a}${shell:in}" .glob = false ∧
    (∀ ins out, ins ≠ [] → outs ⟨.empty, [], "/", "t"⟩
      ⟨ins, some "${dir:in}${suffix: in }${in:a}${shell:in}", out⟩ = .error (.notCallable "in")) ∧
    ∀ out, outs ⟨.empty, [], "/", "t"⟩
      ⟨[], some "${dir:in}${suffix: in }${in:a}${shell:in}", out⟩ = .ok (some []) := by
  have hcalls : calls "${dir:in}${suffix: in }${in:a}${shell:in}" .glob = false := by decide +kernel
  obtain ⟨-, hsame, -, hnone⟩ :=
    outs_of_pattern ⟨.empty, [], "/", "t"⟩ ⟨.empty, [], "/", "t"⟩ _ hcalls
  refine ⟨hcalls, fun ins out hne => ?_, hnone⟩
  exact (hsame ins ["a.c"] out none _ hne (by simp)).mpr rfl

end Rule

end BuildPlan
