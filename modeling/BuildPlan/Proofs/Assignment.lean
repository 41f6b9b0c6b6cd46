import BuildPlan.Proofs.BindingOrder
import BuildPlan.Proofs.Cutting
import BuildPlan.Proofs.Outcome
import BuildPlan.Resolution.Rules

/-!
# What one assignment does

An assignment that succeeds names one declared rule by its key, replaces that rule and publishes it.
`assign_eq_ok_iff` says so once; everything about runs of assignments is derived from it.

Publishing binds three names at most, and those of one rule are never those of another
(`publishedName_inj_iff`): the name of a property holds no dot, so the last dot of a published name
is the one that was put there.
-/

namespace BuildPlan

/-! ## Properties and their names -/

namespace Property

theorem dot_not_mem_name (p : Property) : '.' ∉ p.name := by
  cases p <;> decide

theorem name_inj_iff {p q : Property} : p.name = q.name ↔ p = q := by
  cases p <;> cases q <;> decide

/-- A property is found by its own name and by no other. -/
theorem ofName?_eq_some_iff {t : Text} {p : Property} : ofName? t = some p ↔ t = p.name := by
  constructor
  · intro h
    have hp := List.find?_some h
    exact (beq_iff_eq.mp hp).symm
  · rintro rfl
    cases p <;> rfl

end Property

namespace Resolution

/-! ## Keys -/

/-- Two texts around their last dots: the parts after a dot decide where the dot is. -/
theorem append_dot_inj {r r' s s' : Text} (hs : '.' ∉ s) (hs' : '.' ∉ s')
    (h : r ++ '.' :: s = r' ++ '.' :: s') : r = r' ∧ s = s' := by
  -- read backwards, the last dot is the first one, and there is one way to cut at it
  have hrev : s.reverse ++ '.' :: r.reverse = s'.reverse ++ '.' :: r'.reverse := by
    simpa using congrArg List.reverse h
  have hcut : cutAtFirst (· == '.') (s.reverse ++ '.' :: r.reverse) = some (s.reverse, r.reverse) :=
    cutAtFirst_char_eq_some_iff.mpr ⟨rfl, by simpa using hs⟩
  have hcut' : cutAtFirst (· == '.') (s.reverse ++ '.' :: r.reverse)
      = some (s'.reverse, r'.reverse) :=
    cutAtFirst_char_eq_some_iff.mpr ⟨hrev, by simpa using hs'⟩
  rw [hcut] at hcut'
  simp only [Option.some.injEq, Prod.mk.injEq, List.reverse_inj] at hcut'
  exact ⟨hcut'.2, hcut'.1⟩

/-- **No two rules share a published name**, nor do two properties of one rule. -/
theorem publishedName_inj_iff {r r' : Text} {p p' : Property} :
    publishedName r p = publishedName r' p' ↔ r = r' ∧ p = p' := by
  constructor
  · intro h
    obtain ⟨hr, hp⟩ := append_dot_inj p.dot_not_mem_name p'.dot_not_mem_name h
    exact ⟨hr, Property.name_inj_iff.mp hp⟩
  · rintro ⟨rfl, rfl⟩
    rfl

/-- A key has two parts exactly if it has one dot. -/
theorem splitKey?_eq_some_iff {key rule property : Text} :
    splitKey? key = some (rule, property)
      ↔ key = rule ++ '.' :: property ∧ '.' ∉ rule ∧ '.' ∉ property := by
  unfold splitKey?
  constructor
  · intro h
    split at h
    · rename_i r q hcut
      obtain ⟨hkey, hr⟩ := cutAtFirst_char_eq_some_iff.mp hcut
      split at h
      · simp at h
      · rename_i hq
        simp only [Option.some.injEq, Prod.mk.injEq] at h
        obtain ⟨rfl, rfl⟩ := h
        exact ⟨hkey, hr, by simpa using hq⟩
    · simp at h
  · rintro ⟨hkey, hr, hp⟩
    rw [cutAtFirst_char_eq_some_iff.mpr ⟨hkey, hr⟩]
    simp [hp]

/-- A key can be read exactly if it is a published name of a declared rule without a dot. -/
theorem readKey_eq_ok_iff {rules : Bindings Rule} {key name : Text} {rule : Rule} {p : Property} :
    readKey rules key = .ok (name, rule, p)
      ↔ key = publishedName name p ∧ '.' ∉ name ∧ rules.get? name = some rule := by
  unfold readKey
  constructor
  · intro h
    split at h
    · simp at h
    · rename_i r q hsplit
      obtain ⟨hkey, hr, -⟩ := splitKey?_eq_some_iff.mp hsplit
      split at h
      · simp at h
      · rename_i found hget
        split at h
        · simp at h
        · rename_i prop hprop
          simp only [Except.ok.injEq, Prod.mk.injEq] at h
          obtain ⟨rfl, rfl, rfl⟩ := h
          rw [Property.ofName?_eq_some_iff] at hprop
          subst hprop
          exact ⟨hkey, hr, hget⟩
  · rintro ⟨rfl, hdot, hget⟩
    have hsplit : splitKey? (publishedName name p) = some (name, p.name) :=
      splitKey?_eq_some_iff.mpr ⟨rfl, hdot, p.dot_not_mem_name⟩
    simp only [hsplit, hget, Property.ofName?_eq_some_iff.mpr rfl]

/-! ## Publishing -/

theorem get?_bindSome_self (names : Namespace) (name t : Text) :
    (bindSome names name (some t)).get? name = some t :=
  names.get?_insert_self name t

theorem get?_bindSome_of_ne (names : Namespace) {name other : Text} (h : other ≠ name) :
    ∀ t : Option Text, (bindSome names name t).get? other = names.get? other
  | none => rfl
  | some t => Bindings.get?_insert_of_ne h t

/-- Publishing succeeds exactly if the outputs can be made; then it binds the three names. -/
theorem publish_eq_ok_iff {ws : Workspace} {names names' : Namespace} {name : Text} {rule : Rule} :
    publish ws names name rule = .ok names' ↔
      ∃ outs, rule.outs ws = .ok outs ∧
        bindSome
          (bindSome (names.insert (publishedName name .ins) (unwords rule.ins))
            (publishedName name .out) (outs.map unwords))
          (publishedName name .pat) rule.pat = names' := by
  simp only [publish, Outcome.bind_eq_ok_iff, Outcome.pure_eq_ok_iff]

/-- **Publishing a rule touches only its own three names.** -/
theorem get?_publish_of_ne {ws : Workspace} {names names' : Namespace} {name other : Text}
    {rule : Rule} (h : publish ws names name rule = .ok names')
    (hne : ∀ p, other ≠ publishedName name p) : names'.get? other = names.get? other := by
  obtain ⟨outs, -, rfl⟩ := publish_eq_ok_iff.mp h
  rw [get?_bindSome_of_ne _ (hne .pat), get?_bindSome_of_ne _ (hne .out),
    Bindings.get?_insert_of_ne (hne .ins)]

/-! ## The whole assignment -/

/-- **An assignment succeeds exactly so:** its key is a published name of a declared rule without a
dot, the property can be set, and the changed rule can be published. -/
theorem assign_eq_ok_iff {ws : Workspace} {s s' : Resolution} {a : Text × Text} :
    assign ws s a = .ok s' ↔
      ∃ name rule p rule', a.1 = publishedName name p ∧ '.' ∉ name ∧
        s.rules.get? name = some rule ∧ update ws s.names rule p a.2 = .ok rule' ∧
        publish ws s.names name rule' = .ok s'.names ∧ s'.rules = s.rules.insert name rule' := by
  simp only [assign, Outcome.bind_eq_ok_iff, Outcome.mapError_eq_ok_iff, Outcome.pure_eq_ok_iff]
  constructor
  · rintro ⟨⟨name, rule, p⟩, hkey, rule', hupdate, names', hpublish, rfl⟩
    obtain ⟨hname, hdot, hget⟩ := readKey_eq_ok_iff.mp hkey
    exact ⟨name, rule, p, rule', hname, hdot, hget, hupdate, hpublish, rfl⟩
  · rintro ⟨name, rule, p, rule', hname, hdot, hget, hupdate, hpublish, hrules⟩
    refine ⟨⟨name, rule, p⟩, readKey_eq_ok_iff.mpr ⟨hname, hdot, hget⟩, rule', hupdate, s'.names,
      hpublish, ?_⟩
    rw [← hrules]

/-! ## Before the first assignment -/

theorem get?_start_rules (ruleNames : List Text) (names : Namespace) (name : Text) :
    (start ruleNames names).rules.get? name = if name ∈ ruleNames then some Rule.empty else none :=
  Bindings.get?_ofList_const Rule.empty ruleNames name

theorem eq_empty_of_get?_start {ruleNames : List Text} {names : Namespace} {name : Text}
    {rule : Rule}
    (h : (start ruleNames names).rules.get? name = some rule) : rule = Rule.empty := by
  rw [get?_start_rules] at h
  split at h
  · exact (Option.some.inj h).symm
  · exact absurd h nofun

theorem keys_start_rules (ruleNames : List Text) (names : Namespace) :
    (start ruleNames names).rules.keys = ruleNames.eraseDups :=
  Bindings.keys_ofList_const Rule.empty ruleNames

/-! ## Runs -/

/-- An assignment adds no rule and moves none. -/
theorem keys_assign {ws : Workspace} {s s' : Resolution} {a : Text × Text}
    (h : assign ws s a = .ok s') : s'.rules.keys = s.rules.keys := by
  obtain ⟨name, rule, p, rule', -, -, hget, -, -, hrules⟩ := assign_eq_ok_iff.mp h
  rw [hrules, Bindings.keys_insert_of_get? hget]

section Run

variable {ws : Workspace} {ruleNames : List Text} {assignments : List (Text × Text)}
  {names : Namespace} {s : Resolution}

/-- **After a run the rules are the declared ones**, in the order of their first declarations. -/
theorem keys_resolveRules (h : resolveRules ws ruleNames assignments names = .ok s) :
    s.rules.keys = ruleNames.eraseDups :=
  Outcome.run_invariant (fun _ s => s.rules.keys = ruleNames.eraseDups)
    (keys_start_rules ruleNames names) (fun _ _ _ _ hs hstep => (keys_assign hstep).trans hs) h

theorem mem_ruleNames_iff (h : resolveRules ws ruleNames assignments names = .ok s) {name : Text} :
    name ∈ ruleNames ↔ ∃ rule, s.rules.get? name = some rule := by
  rw [← Bindings.mem_keys_iff, keys_resolveRules h, List.mem_eraseDups]

/-- Every key of a successful run is a published name of a rule without a dot in its name. -/
theorem exists_key_of_mem (h : resolveRules ws ruleNames assignments names = .ok s) :
    ∀ a ∈ assignments, ∃ name p, a.1 = publishedName name p ∧ '.' ∉ name := by
  refine Outcome.run_invariant
    (fun done _ => ∀ a ∈ done, ∃ name p, a.1 = publishedName name p ∧ '.' ∉ name)
    (by simp) ?_ h
  intro done a s t hdone hstep b hb
  rcases List.mem_append.mp hb with hb | hb
  · exact hdone b hb
  · obtain ⟨name, -, p, -, hkey, hdot, -⟩ := assign_eq_ok_iff.mp hstep
    rw [List.mem_singleton.mp hb]
    exact ⟨name, p, hkey, hdot⟩

end Run

end Resolution

end BuildPlan
