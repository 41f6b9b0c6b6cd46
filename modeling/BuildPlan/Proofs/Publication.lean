import BuildPlan.Proofs.Assignment

/-!
# Published names are up to date

After every run of assignments the names of a rule say what the rule is: its inputs, its outputs if
it has any and its pattern if it has one. A rule that no assignment names is as it was declared, and
whatever was bound under its names before the run still is.

The invariant is `PublicationInvariant`. One assignment preserves it for the rule it names because
that rule is published after the change, whichever property changed; for all other rules because
publishing touches no name of theirs.
-/

namespace BuildPlan

/-- A rule that has a pattern or a list of outputs has outputs, if they can be made at all. -/
theorem Rule.exists_outs_of_set {ws : Workspace} {rule : Rule} {outs : Option (List Text)}
    (h : rule.outs ws = .ok outs) (hset : rule.pat ≠ none ∨ rule.out ≠ none) :
    ∃ os, outs = some os := by
  unfold Rule.outs at h
  split at h
  · obtain ⟨os, -, hos⟩ := Outcome.map_eq_ok_iff.mp h
    exact ⟨os, hos.symm⟩
  · rename_i hpat
    have hout : rule.out ≠ none := hset.resolve_left fun hne => hne hpat
    obtain ⟨os, hos⟩ := Option.ne_none_iff_exists'.mp hout
    rw [hos, Except.ok.injEq] at h
    exact ⟨os, h.symm⟩

namespace Resolution

/-! ## The invariant -/

/-- The key of the assignment is one of the three published names of the rule. -/
def NamesRule (a : Text × Text) (name : Text) : Prop := ∃ p, a.1 = publishedName name p

/-- What is bound under the published names of a rule is what the rule says. -/
structure Published (ws : Workspace) (names : Namespace) (name : Text) (rule : Rule) : Prop where
  ins : names.get? (publishedName name .ins) = some (unwords rule.ins)
  out : rule.pat ≠ none ∨ rule.out ≠ none →
    ∃ os, rule.outs ws = .ok (some os) ∧
      names.get? (publishedName name .out) = some (unwords os)
  pat : ∀ pat, rule.pat = some pat → names.get? (publishedName name .pat) = some pat

/-- Nothing is known about a rule, and its published names are bound as they were before. -/
structure Untouched (before names : Namespace) (name : Text) (rule : Rule) : Prop where
  empty : rule = Rule.empty
  unchanged : ∀ p, names.get? (publishedName name p) = before.get? (publishedName name p)

/-- What holds of every declared rule after the assignments `done`, where `before` is what was bound
before the first of them. -/
def PublicationInvariant (ws : Workspace) (ruleNames : List Text) (before : Namespace)
    (done : List (Text × Text)) (s : Resolution) : Prop :=
  ∀ name ∈ ruleNames, ∃ rule, s.rules.get? name = some rule ∧
    ((∃ a ∈ done, NamesRule a name) → Published ws s.names name rule) ∧
    ((¬∃ a ∈ done, NamesRule a name) → Untouched before s.names name rule)

/-! ## One step -/

/-- **A rule that has just been published is up to date.** -/
theorem published_of_publish {ws : Workspace} {names names' : Namespace} {name : Text} {rule : Rule}
    (h : publish ws names name rule = .ok names') : Published ws names' name rule := by
  have hne : ∀ {p q : Property}, p ≠ q → publishedName name p ≠ publishedName name q :=
    fun hpq he => hpq (publishedName_inj_iff.mp he).2
  obtain ⟨outs, houts, rfl⟩ := publish_eq_ok_iff.mp h
  refine ⟨?_, ?_, ?_⟩
  · rw [get?_bindSome_of_ne _ (hne (by decide)), get?_bindSome_of_ne _ (hne (by decide)),
      Bindings.get?_insert_self]
  · intro hset
    obtain ⟨os, rfl⟩ := Rule.exists_outs_of_set houts hset
    refine ⟨os, houts, ?_⟩
    rw [get?_bindSome_of_ne _ (hne (by decide)), Option.map_some, get?_bindSome_self]
  · intro pat hpat
    rw [hpat, get?_bindSome_self]

theorem get?_publish_of_name_ne {ws : Workspace} {names names' : Namespace} {name other : Text}
    {rule : Rule} (h : publish ws names name rule = .ok names') (hne : other ≠ name)
    (p : Property) : names'.get? (publishedName other p) = names.get? (publishedName other p) :=
  get?_publish_of_ne h fun _ he => hne (publishedName_inj_iff.mp he).1

/-- Whatever leaves the names of a rule alone leaves the rule up to date. -/
theorem Published.congr {ws : Workspace} {names names' : Namespace} {name : Text} {rule : Rule}
    (h : Published ws names name rule)
    (hsame : ∀ p, names'.get? (publishedName name p) = names.get? (publishedName name p)) :
    Published ws names' name rule := by
  refine ⟨by rw [hsame]; exact h.ins, ?_, ?_⟩
  · intro hset
    obtain ⟨os, hos, hget⟩ := h.out hset
    exact ⟨os, hos, by rw [hsame]; exact hget⟩
  · intro pat hpat
    rw [hsame]
    exact h.pat pat hpat

theorem exists_namesRule_snoc_iff {done : List (Text × Text)} {a : Text × Text} {name : Text}
    (h : ¬NamesRule a name) :
    (∃ b ∈ done ++ [a], NamesRule b name) ↔ ∃ b ∈ done, NamesRule b name := by
  constructor
  · rintro ⟨b, hb, hn⟩
    rcases List.mem_append.mp hb with hb | hb
    · exact ⟨b, hb, hn⟩
    · rw [List.mem_singleton.mp hb] at hn
      exact absurd hn h
  · rintro ⟨b, hb, hn⟩
    exact ⟨b, List.mem_append_left _ hb, hn⟩

/-- **One assignment preserves the invariant.** -/
theorem PublicationInvariant.assign {ws : Workspace} {ruleNames : List Text} {before : Namespace}
    {done : List (Text × Text)} {a : Text × Text} {s s' : Resolution}
    (hinv : PublicationInvariant ws ruleNames before done s)
    (h : Resolution.assign ws s a = .ok s') :
    PublicationInvariant ws ruleNames before (done ++ [a]) s' := by
  obtain ⟨name, -, p, rule', hkey, -, -, -, hpublish, hrules⟩ := assign_eq_ok_iff.mp h
  intro other hother
  by_cases hne : other = name
  · -- the rule that the assignment names: it has been published with its new properties
    subst hne
    have hnamed : ∃ b ∈ done ++ [a], NamesRule b other := ⟨a, by simp, p, hkey⟩
    refine ⟨rule', by rw [hrules, Bindings.get?_insert_self], ?_, fun hnot => absurd hnamed hnot⟩
    exact fun _ => published_of_publish hpublish
  · -- any other rule: neither it nor its names have changed
    have hnot : ¬NamesRule a other := by
      rintro ⟨q, hq⟩
      exact hne (publishedName_inj_iff.mp (hq.symm.trans hkey)).1
    have hsame := get?_publish_of_name_ne hpublish hne
    obtain ⟨rule, hget, hpub, hunt⟩ := hinv other hother
    refine ⟨rule, by rw [hrules, Bindings.get?_insert_of_ne hne]; exact hget, ?_, ?_⟩
    · rw [exists_namesRule_snoc_iff hnot]
      exact fun hnamed => (hpub hnamed).congr hsame
    · rw [exists_namesRule_snoc_iff hnot]
      exact fun hnamed =>
        ⟨(hunt hnamed).empty, fun q => (hsame q).trans ((hunt hnamed).unchanged q)⟩

/-! ## A whole run -/

theorem publicationInvariant_start (ws : Workspace) (ruleNames : List Text) (before : Namespace) :
    PublicationInvariant ws ruleNames before [] (start ruleNames before) := by
  intro name hname
  refine ⟨Rule.empty, by rw [get?_start_rules, if_pos hname], ?_, ?_⟩
  · rintro ⟨a, ha, -⟩
    exact absurd ha List.not_mem_nil
  · exact fun _ => ⟨rfl, fun _ => rfl⟩

theorem publicationInvariant_resolveRules {ws : Workspace} {ruleNames : List Text}
    {assignments : List (Text × Text)} {before : Namespace} {s : Resolution}
    (h : resolveRules ws ruleNames assignments before = .ok s) :
    PublicationInvariant ws ruleNames before assignments s :=
  Outcome.run_invariant (PublicationInvariant ws ruleNames before)
    (publicationInvariant_start ws ruleNames before)
    (fun _ _ _ _ hinv hstep => hinv.assign hstep) h

/-- **Published names are up to date after every run, and were so after each of its assignments.**
-/
theorem resolveRules_published {ws : Workspace} {ruleNames : List Text}
    {assignments : List (Text × Text)} {before : Namespace} {s : Resolution}
    (h : resolveRules ws ruleNames assignments before = .ok s) :
    PublicationInvariant ws ruleNames before assignments s ∧
      ∀ done, done <+: assignments → ∃ m, resolveRules ws ruleNames done before = .ok m ∧
        PublicationInvariant ws ruleNames before done m := by
  refine ⟨publicationInvariant_resolveRules h, ?_⟩
  rintro done ⟨rest, rfl⟩
  obtain ⟨m, hm, -⟩ := Outcome.foldlM_append_eq_ok_iff.mp h
  exact ⟨m, hm, publicationInvariant_resolveRules hm⟩

/-- A rule whose inputs change under its pattern, declared twice, beside a rule that is never named
although a global has one of its names. -/
theorem resolveRules_published_reassigned :
    ∃ s, resolveRules ⟨.empty, [], "/", "t"⟩ ["cc", "link", "cc"]
        [("cc.pat", "${basename:in}.o"), ("cc.ins", "a.c b.c"), ("cc.out", "z"), ("cc.ins", "c.c")]
        (Bindings.ofList [("link.out", "app"), ("cc.out", "old")]) = .ok s ∧
      s.names.get? "cc.out" = some "c.o" ∧ s.names.get? "link.out" = some "app" ∧
      PublicationInvariant ⟨.empty, [], "/", "t"⟩ ["cc", "link", "cc"]
        (Bindings.ofList [("link.out", "app"), ("cc.out", "old")])
        [("cc.pat", "${basename:in}.o"), ("cc.ins", "a.c b.c"), ("cc.out", "z"), ("cc.ins", "c.c")]
        s :=
  ⟨_, rfl, rfl, rfl, (resolveRules_published rfl).1⟩

end Resolution

end BuildPlan
