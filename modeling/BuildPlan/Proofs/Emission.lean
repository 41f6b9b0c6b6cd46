import BuildPlan.Evaluation
import BuildPlan.Proofs.Publication

/-!
# When an evaluated description has no edges

Edges are made after the resolution, and the outputs of every rule are made again for them. Whether
that fails can be read off the properties of the rules alone (`Rule.fault?`): no template is
expanded in vain, because every rule with outputs was published after it was last changed, so its
outputs could be made then and can be made now. What is left are rules without outputs and lists of
outputs that can not be paired with the inputs; the first of them in the order of declaration is
reported.
-/

namespace BuildPlan

/-! ## A single rule -/

namespace Rule

/-- Why the rule has no edges, as its properties show. -/
def fault? (name : Text) (r : Rule) : Option EdgeError :=
  match r.pat, r.out with
  | some _, _ => none
  | none, none => some (.outputsUndefined name)
  | none, some out =>
    if out.length = 1 ∨ out.length = r.ins.length then none
    else some (.countMismatch name r.ins.length out.length)

/-- A rule is at fault exactly if it has no pattern, and either no outputs or neither one of them
nor one for each input. -/
theorem exists_fault?_iff {name : Text} {r : Rule} :
    (∃ e, r.fault? name = some e) ↔ r.pat = none ∧
      (r.out = none ∨
        ∃ out, r.out = some out ∧ out.length ≠ 1 ∧ out.length ≠ r.ins.length) := by
  unfold fault?
  split
  · rename_i pat hpat
    simp [hpat]
  · rename_i hpat hout
    simp [hpat, hout]
  · rename_i out hpat hout
    have hlist : (∃ out', r.out = some out' ∧ out'.length ≠ 1 ∧ out'.length ≠ r.ins.length)
        ↔ ¬(out.length = 1 ∨ out.length = r.ins.length) := by
      rw [not_or]
      simp [hout]
    have hset : r.out ≠ none := by simp [hout]
    rw [hlist]
    by_cases h : out.length = 1 ∨ out.length = r.ins.length
    · simp [hset, h]
    · simp [hpat, h]

theorem fault?_ne_template (r : Rule) (name rule : Text) (cause : ExpansionError) :
    r.fault? name ≠ some (.template rule cause) := by
  unfold fault?
  split
  · simp
  · simp
  · split <;> simp

theorem pairUp_of_length {ins outs : List Text}
    (h : outs.length = 1 ∨ outs.length = ins.length) (name : Text) :
    ∃ es, pairUp name ins outs = .ok es := by
  unfold pairUp
  split
  · exact ⟨_, rfl⟩
  · rename_i hne
    have hlen : outs.length = ins.length := by
      refine h.resolve_left fun hone => ?_
      obtain ⟨output, rfl⟩ := List.length_eq_one_iff.mp hone
      exact hne output rfl
    rw [if_pos hlen]
    exact ⟨_, rfl⟩

theorem pairUp_of_mismatch {ins outs : List Text}
    (h : ¬(outs.length = 1 ∨ outs.length = ins.length)) (name : Text) :
    pairUp name ins outs = .error (.countMismatch name ins.length outs.length) := by
  unfold pairUp
  split
  · exact absurd (Or.inl rfl) h
  · rw [if_neg fun hlen => h (Or.inr hlen)]

theorem edges_of_outs {ws : Workspace} {r : Rule} {os : List Text}
    (h : r.outs ws = .ok (some os)) (name : Text) : r.edges ws name = pairUp name r.ins os := by
  rw [edges, h]

/-- **A rule with a pattern has edges** if its outputs can be made: there is one of each input. -/
theorem exists_edges_of_pat {ws : Workspace} {r : Rule} {made : Option (List Text)}
    (h : r.outs ws = .ok made) (hpat : r.pat ≠ none) (name : Text) :
    ∃ es, r.edges ws name = .ok es := by
  obtain ⟨pat, hp⟩ := Option.ne_none_iff_exists'.mp hpat
  have hmade := h
  rw [outs, hp] at hmade
  obtain ⟨os, hmap, rfl⟩ := Outcome.map_eq_ok_iff.mp hmade
  rw [edges_of_outs h]
  exact pairUp_of_length (Or.inr (Outcome.length_of_mapM_eq_ok hmap)) name

/-- **Where the outputs can be made, the fault of a rule is its error.** -/
theorem edges_eq_error_iff {ws : Workspace} {r : Rule} {made : Option (List Text)}
    (h : r.outs ws = .ok made) (name : Text) (e : EdgeError) :
    r.edges ws name = .error e ↔ r.fault? name = some e := by
  cases hpat : r.pat with
  | some pat =>
    obtain ⟨es, hes⟩ := exists_edges_of_pat h (by simp [hpat]) name
    simp [hes, fault?, hpat]
  | none =>
    have houts : r.outs ws = .ok r.out := by rw [outs, hpat]
    cases hout : r.out with
    | none => simp [edges, houts, fault?, hpat, hout]
    | some os =>
      rw [hout] at houts
      by_cases hlen : os.length = 1 ∨ os.length = r.ins.length
      · obtain ⟨es, hes⟩ := pairUp_of_length hlen name
        simp [edges_of_outs houts, hes, fault?, hpat, hout, hlen]
      · simp [edges_of_outs houts, pairUp_of_mismatch hlen name, fault?, hpat, hout, hlen]

end Rule

/-! ## All rules -/

namespace Resolution

/-- **After a run the outputs of every rule can be made.** Those of a rule that was assigned were
made when it was last published; a rule that was not has none. -/
theorem exists_outs_of_resolveRules {ws : Workspace} {ruleNames : List Text}
    {assignments : List (Text × Text)} {names : Namespace} {s : Resolution}
    (h : resolveRules ws ruleNames assignments names = .ok s) {name : Text} {rule : Rule}
    (hget : s.rules.get? name = some rule) : ∃ made, rule.outs ws = .ok made := by
  have hname : name ∈ ruleNames := (mem_ruleNames_iff h).mpr ⟨rule, hget⟩
  obtain ⟨found, hfound, hpub, hunt⟩ := publicationInvariant_resolveRules h name hname
  have hsame : found = rule := Option.some.inj (hfound.symm.trans hget)
  subst hsame
  by_cases hnamed : ∃ a ∈ assignments, NamesRule a name
  · by_cases hset : found.pat ≠ none ∨ found.out ≠ none
    · obtain ⟨os, hos, -⟩ := (hpub hnamed).out hset
      exact ⟨some os, hos⟩
    · simp only [ne_eq, not_or, Classical.not_not] at hset
      exact ⟨none, by rw [Rule.outs, hset.1, hset.2]⟩
  · exact ⟨none, by rw [(hunt hnamed).empty]; rfl⟩

end Resolution

/-- The fault that a rule of the table has, if it has one. -/
def Manifest.faultOf? (m : Manifest) (name : Text) : Option EdgeError :=
  (m.rules.get? name).bind (Rule.fault? name)

theorem Manifest.faultOf?_eq_some_iff {m : Manifest} {name : Text} {e : EdgeError} :
    m.faultOf? name = some e ↔ ∃ rule, m.rules.get? name = some rule ∧ rule.fault? name = some e :=
  Option.bind_eq_some_iff

theorem Manifest.faultOf?_eq_none_iff {m : Manifest} {name : Text} :
    m.faultOf? name = none ↔ ∀ rule, m.rules.get? name = some rule → rule.fault? name = none :=
  Option.bind_eq_none_iff

/-- Where all outputs can be made, the first fault of a rule is the error. -/
theorem Manifest.edges_eq_error_iff {ws : Workspace} {m : Manifest}
    (hmade : ∀ name rule, m.rules.get? name = some rule → ∃ made, rule.outs ws = .ok made)
    (e : EdgeError) : m.edges ws = .error e ↔ m.rules.keys.findSome? m.faultOf? = some e := by
  have hfault : ∀ x ∈ m.rules.entries, ∀ e, Rule.edges ws x.1 x.2 = .error e
      ↔ Rule.fault? x.1 x.2 = some e := by
    intro x hx e
    obtain ⟨made, h⟩ := hmade x.1 x.2 (Bindings.mem_entries_iff.mp hx)
    exact Rule.edges_eq_error_iff h x.1 e
  rw [edges, Outcome.map_eq_error_iff, Outcome.mapM_eq_error_iff hfault]
  rw [Bindings.findSome?_entries m.rules Rule.fault?]
  rfl

/-! ## After an evaluation -/

namespace Description

theorem evaluate_eq_ok_iff {ws : Workspace} {d : Description} {ev : Evaluation} :
    d.evaluate ws = .ok ev ↔
      ∃ defines, Resolution.resolveGlobals ws d.globals = .ok defines ∧
        ∃ s, Resolution.resolveRules ws d.ruleNames d.assignments defines = .ok s ∧
          (⟨⟨d.includes, defines, s.rules⟩, s.names⟩ : Evaluation) = ev := by
  simp only [evaluate, Outcome.bind_eq_ok_iff, Outcome.pure_eq_ok_iff]

section Evaluated

variable {ws : Workspace} {d : Description} {ev : Evaluation}

theorem exists_outs_of_evaluate (h : d.evaluate ws = .ok ev) (name : Text) (rule : Rule)
    (hget : ev.manifest.rules.get? name = some rule) : ∃ made, rule.outs ws = .ok made := by
  obtain ⟨defines, -, s, hs, rfl⟩ := evaluate_eq_ok_iff.mp h
  exact Resolution.exists_outs_of_resolveRules hs hget

/-- **The error is the first fault in the order of declaration.** -/
theorem edges_eq_error_iff_of_evaluate (h : d.evaluate ws = .ok ev) (e : EdgeError) :
    ev.manifest.edges ws = .error e ↔ d.ruleNames.findSome? ev.manifest.faultOf? = some e := by
  have hkeys : ev.manifest.rules.keys = d.ruleNames.eraseDups := by
    obtain ⟨defines, -, s, hs, rfl⟩ := evaluate_eq_ok_iff.mp h
    exact Resolution.keys_resolveRules hs
  rw [Manifest.edges_eq_error_iff (exists_outs_of_evaluate h), hkeys, Bindings.findSome?_eraseDups]

/-- There is an error exactly if a declared rule is at fault. -/
theorem exists_edges_error_iff_of_evaluate (h : d.evaluate ws = .ok ev) :
    (∃ e, ev.manifest.edges ws = .error e) ↔
      ∃ name ∈ d.ruleNames, ∃ rule, ev.manifest.rules.get? name = some rule ∧
        ∃ e, rule.fault? name = some e := by
  simp only [edges_eq_error_iff_of_evaluate h]
  rw [← Option.isSome_iff_exists, List.findSome?_isSome_iff]
  constructor
  · rintro ⟨name, hname, hsome⟩
    obtain ⟨e, he⟩ := Option.isSome_iff_exists.mp hsome
    obtain ⟨rule, hget, hfault⟩ := Manifest.faultOf?_eq_some_iff.mp he
    exact ⟨name, hname, rule, hget, e, hfault⟩
  · rintro ⟨name, hname, rule, hget, e, hfault⟩
    refine ⟨name, hname, Option.isSome_iff_exists.mpr ⟨e, ?_⟩⟩
    exact Manifest.faultOf?_eq_some_iff.mpr ⟨rule, hget, hfault⟩

/-- No assignment can name a rule with a dot in its name, so such a rule stays empty. -/
theorem get?_of_dot_mem (h : d.evaluate ws = .ok ev) {name : Text} (hname : name ∈ d.ruleNames)
    (hdot : '.' ∈ name) : ev.manifest.rules.get? name = some Rule.empty := by
  obtain ⟨defines, -, s, hs, rfl⟩ := evaluate_eq_ok_iff.mp h
  obtain ⟨rule, hget, -, hunt⟩ := Resolution.publicationInvariant_resolveRules hs name hname
  have hnot : ¬∃ a ∈ d.assignments, Resolution.NamesRule a name := by
    rintro ⟨a, ha, p, hp⟩
    obtain ⟨other, q, hq, hfree⟩ := Resolution.exists_key_of_mem hs a ha
    rw [hp, Resolution.publishedName_inj_iff] at hq
    exact hfree (hq.1 ▸ hdot)
  rw [← (hunt hnot).empty]
  exact hget

/-- **When an evaluated description has no edges.** Never because of a template; exactly if a
declared rule has neither pattern nor outputs, or no pattern and outputs that can not be paired; and
then for the first such rule. A rule with a pattern always has edges, one with a dot in its name
never. -/
theorem edges_error_of_evaluate_exact (h : d.evaluate ws = .ok ev) :
    (∀ name cause, ev.manifest.edges ws ≠ .error (.template name cause)) ∧
    ((∃ e, ev.manifest.edges ws = .error e) ↔
      ∃ name ∈ d.ruleNames, ∃ rule, ev.manifest.rules.get? name = some rule ∧ rule.pat = none ∧
        (rule.out = none ∨
          ∃ out, rule.out = some out ∧ out.length ≠ 1 ∧ out.length ≠ rule.ins.length)) ∧
    (∀ e, ev.manifest.edges ws = .error e ↔
      ∃ earlier name later, d.ruleNames = earlier ++ name :: later ∧
        (∃ rule, ev.manifest.rules.get? name = some rule ∧ rule.fault? name = some e) ∧
        ∀ n ∈ earlier, ∀ rule, ev.manifest.rules.get? n = some rule → rule.fault? n = none) ∧
    (∀ name rule, ev.manifest.rules.get? name = some rule → rule.pat ≠ none →
      ∃ es, rule.edges ws name = .ok es) ∧
    (∀ name ∈ d.ruleNames, '.' ∈ name → ∃ e, ev.manifest.edges ws = .error e) := by
  refine ⟨?_, ?_, ?_, ?_, ?_⟩
  · intro name cause he
    obtain ⟨n, -, hn⟩ := List.exists_of_findSome?_eq_some
      ((edges_eq_error_iff_of_evaluate h _).mp he)
    obtain ⟨rule, -, hfault⟩ := Manifest.faultOf?_eq_some_iff.mp hn
    exact rule.fault?_ne_template n name cause hfault
  · simp only [exists_edges_error_iff_of_evaluate h, Rule.exists_fault?_iff]
  · intro e
    rw [edges_eq_error_iff_of_evaluate h, List.findSome?_eq_some_iff]
    simp only [Manifest.faultOf?_eq_some_iff, Manifest.faultOf?_eq_none_iff]
  · intro name rule hget hpat
    obtain ⟨made, hmade⟩ := exists_outs_of_evaluate h name rule hget
    exact Rule.exists_edges_of_pat hmade hpat name
  · intro name hname hdot
    exact (exists_edges_error_iff_of_evaluate h).mpr
      ⟨name, hname, Rule.empty, get?_of_dot_mem h hname hdot, .outputsUndefined name, rfl⟩

end Evaluated

/-- Three rules at fault: one with two outputs for three inputs, one that is never assigned and one
with a dot in its name. A rule with a pattern is declared before them. -/
def mismatched : Description where
  includes := ["rules.ninja"]
  ruleNames := ["cc", "copy", "idle", "a.b", "copy"]
  globals := Bindings.ofList [("src", "a.c b.c")]
  assignments := [("copy.out", "x y"), ("cc.ins", "${src}"), ("cc.pat", "${in}.o"),
    ("cc.out", "z"), ("copy.ins", "${cc.out} c")]

/-- Of the rules at fault the one declared first is reported, with its counts. -/
theorem edges_error_of_evaluate_mismatched :
    ∃ ev, mismatched.evaluate ⟨.empty, [], "/", "t"⟩ = .ok ev ∧
      ev.manifest.edges ⟨.empty, [], "/", "t"⟩ = .error (.countMismatch "copy" 3 2) := by
  have h : mismatched.evaluate ⟨.empty, [], "/", "t"⟩ = .ok _ := rfl
  refine ⟨_, h, ((edges_error_of_evaluate_exact h).2.2.1 (.countMismatch "copy" 3 2)).mpr ?_⟩
  refine ⟨["cc"], "copy", ["idle", "a.b", "copy"], rfl, ⟨_, rfl, rfl⟩, ?_⟩
  intro n hn rule hget
  rw [List.mem_singleton.mp hn] at hget ⊢
  cases hget
  rfl

end Description

end BuildPlan
