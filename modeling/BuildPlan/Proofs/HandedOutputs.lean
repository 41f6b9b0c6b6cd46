import BuildPlan.Proofs.AssignmentOrder
import BuildPlan.Proofs.BareReference
import BuildPlan.Proofs.EdgeLines
import BuildPlan.Proofs.WordwiseFunctions

/-!
# Handing outputs on

The outputs of one rule become the inputs of another by a reference to the published name. On the
way they are written as one text, bound, read by the reference and split into words. They arrive as
they were exactly if each of them is a word (`words_unwords_eq_self_iff`): an output without letters
is lost, and one with white space arrives in pieces. Outputs that were listed are words, because
they were split from a text when they were assigned; what a pattern makes need not be.
-/

namespace BuildPlan

namespace Resolution

open Template

variable {ws : Workspace} {ruleNames : List Text} {done : List (Text × Text)} {before : Namespace}
  {m s : Resolution} {source target : Text} {rule : Rule} {os : List Text}

/-- **The outputs of a rule are bound under its name.** A rule that has outputs has been assigned,
so they were published. -/
theorem get?_out_of_outs (h : resolveRules ws ruleNames done before = .ok m)
    (hget : m.rules.get? source = some rule) (houts : rule.outs ws = .ok (some os)) :
    m.names.get? (publishedName source .out) = some (unwords os) := by
  have hsource : source ∈ ruleNames := (mem_ruleNames_iff h).mpr ⟨rule, hget⟩
  obtain ⟨found, hfound, hpub, hunt⟩ := publicationInvariant_resolveRules h source hsource
  obtain rfl : found = rule := Option.some.inj (hfound.symm.trans hget)
  by_cases hnamed : ∃ a ∈ done, NamesRule a source
  · obtain ⟨os', houts', hnames⟩ := (hpub hnamed).out (Rule.set_of_outs houts)
    rw [houts, Except.ok.injEq, Option.some.injEq] at houts'
    rw [houts']
    exact hnames
  · rw [(hunt hnamed).empty] at houts
    exact absurd houts nofun

/-- The last assignment gives the target the words of what is bound to the name it refers to. -/
theorem exists_ins_of_assign {key v : Text}
    (h : assign ws m (publishedName target .ins, reference key) = .ok s) (hkey : isName key = true)
    (hv : m.names.get? key = some v) :
    ∃ rule, s.rules.get? target = some rule ∧ rule.ins = words v := by
  obtain ⟨name, rule, p, rule', hname, -, -, hupdate, -, hrules⟩ := assign_eq_ok_iff.mp h
  obtain ⟨rfl, rfl⟩ := publishedName_inj_iff.mp hname
  obtain ⟨text, htext, rfl⟩ := Outcome.map_eq_ok_iff.mp hupdate
  rw [expand_reference hkey hv, Except.ok.injEq] at htext
  exact ⟨_, by rw [hrules, Bindings.get?_insert_self], by rw [htext]⟩

theorem isWord_of_listed (h : resolveRules ws ruleNames done before = .ok m)
    (hget : m.rules.get? source = some rule) (houts : rule.outs ws = .ok (some os))
    (hpat : rule.pat = none) : ∀ o ∈ os, IsWord o := by
  rw [Rule.outs, hpat, Except.ok.injEq] at houts
  exact (holdsWords_resolveRules h source rule hget).out os houts

/-- **Outputs that are handed on arrive as they were exactly if they are words**, which outputs that
were listed always are. -/
theorem ins_of_handed_on (hsource : isIdentifier source = true)
    (h : resolveRules ws ruleNames
      (done ++ [(publishedName target .ins, reference (publishedName source .out))]) before
        = .ok s) :
    ∃ m, resolveRules ws ruleNames done before = .ok m ∧
      ∀ rule os, m.rules.get? source = some rule → rule.outs ws = .ok (some os) →
        ∃ rule', s.rules.get? target = some rule' ∧
          (rule'.ins = os ↔ ∀ o ∈ os, IsWord o) ∧
          (rule.pat = none → (∀ o ∈ os, IsWord o) ∧ rule'.ins = os) := by
  obtain ⟨m, hm, hlast⟩ := Outcome.foldlM_append_eq_ok_iff.mp h
  rw [Outcome.foldlM_singleton] at hlast
  refine ⟨m, hm, fun rule os hget houts => ?_⟩
  have hname : isName (publishedName source .out) = true := by
    rw [isName_publishedName]
    exact (isIdentifier_iff.mp hsource).1
  obtain ⟨rule', hget', hins⟩ := exists_ins_of_assign hlast hname (get?_out_of_outs hm hget houts)
  have hiff : rule'.ins = os ↔ ∀ o ∈ os, IsWord o := by
    rw [hins]
    exact words_unwords_eq_self_iff
  refine ⟨rule', hget', hiff, fun hpat => ?_⟩
  have hwords := isWord_of_listed hm hget houts hpat
  exact ⟨hwords, hiff.mpr hwords⟩

/-- Outputs that a pattern made of two inputs arrive; of outputs of which one is empty only the
other does. -/
theorem ins_of_handed_on_patterned :
    (∃ s rule, resolveRules ⟨.empty, [], "/", "t"⟩ ["cc", "link"]
        [("cc.ins", "a.c  b.c"), ("cc.pat", "${basename:in}.o"), ("link.ins", "${cc.out}")] .empty
          = .ok s ∧
      s.rules.get? "link" = some rule ∧ rule.ins = ["a.o", "b.o"]) ∧
    ∃ s rule, resolveRules ⟨.empty, [], "/", "t"⟩ ["cc", "link"]
        [("cc.ins", "a.c b"), ("cc.pat", "${suffix:in}"), ("link.ins", "${cc.out}")] .empty
          = .ok s ∧
      s.rules.get? "link" = some rule ∧ rule.ins ≠ [".c", ""] := by
  constructor
  · have h : resolveRules ⟨.empty, [], "/", "t"⟩ ["cc", "link"]
        (([("cc.ins", "a.c  b.c"), ("cc.pat", "${basename:in}.o")] : List (Text × Text)) ++
          [(publishedName "link" .ins, reference (publishedName "cc" .out))]) .empty = .ok _ := rfl
    obtain ⟨m, hm, hall⟩ := ins_of_handed_on (by decide) h
    cases hm
    obtain ⟨rule, hget, hiff, -⟩ := hall _ ["a.o", "b.o"] rfl rfl
    exact ⟨_, rule, h, hget, hiff.mpr (by decide)⟩
  · have h : resolveRules ⟨.empty, [], "/", "t"⟩ ["cc", "link"]
        (([("cc.ins", "a.c b"), ("cc.pat", "${suffix:in}")] : List (Text × Text)) ++
          [(publishedName "link" .ins, reference (publishedName "cc" .out))]) .empty = .ok _ := rfl
    obtain ⟨m, hm, hall⟩ := ins_of_handed_on (by decide) h
    cases hm
    obtain ⟨rule, hget, hiff, -⟩ := hall _ [".c", ""] rfl rfl
    exact ⟨_, rule, h, hget, mt hiff.mp (by decide)⟩

end Resolution

end BuildPlan
