import BuildPlan.Proofs.AssignmentOrder

/-!
# The first assignment that is refused

Assignments are carried out one after the other, and a run stops at the first one that is refused.
What comes behind it is never looked at, so the error is that of the shortest list of first
assignments that can not be carried out (`resolveRules_stops`).

`assign_eq_error_iff` says why an assignment is refused, as `assign_eq_ok_iff` says what it does if
it is not. The reasons are tried in order: the key has two parts, the first names a declared rule,
the second a property, the template can be expanded, and the changed rule has outputs. The last
reason may lie in a pattern that was assigned long before: it is expanded only once there are
inputs.
-/

namespace BuildPlan

theorem Bindings.keys_prefix_insert {α : Type} (b : Bindings α) (name : Text) (v : α) :
    b.keys <+: (b.insert name v).keys := by
  rw [keys_insert]
  split
  · exact List.prefix_rfl
  · exact List.prefix_append b.keys [name]

theorem Property.ofName?_eq_none_iff {t : Text} :
    ofName? t = none ↔ ∀ p : Property, t ≠ p.name := by
  rw [Option.eq_none_iff_forall_ne_some]
  simp only [Ne, ofName?_eq_some_iff]

namespace Resolution

/-! ## Keys -/

/-- The key is made of the two texts and of a dot between them, which is its only one. -/
def KeyParts (key name property : Text) : Prop :=
  key = name ++ '.' :: property ∧ '.' ∉ name ∧ '.' ∉ property

/-- **A key has two parts exactly if it has one dot.** -/
theorem exists_keyParts_iff {key : Text} :
    (∃ name property, KeyParts key name property) ↔ key.count '.' = 1 := by
  constructor
  · rintro ⟨name, property, rfl, hname, hproperty⟩
    rw [List.count_append, List.count_cons_self, List.count_eq_zero_of_not_mem hname,
      List.count_eq_zero_of_not_mem hproperty]
  · intro hone
    have hmem : '.' ∈ key := List.count_pos_iff.mp (by omega)
    obtain ⟨name, property, rfl, hname⟩ := List.eq_append_cons_of_mem hmem
    rw [List.count_append, List.count_cons_self, List.count_eq_zero_of_not_mem hname] at hone
    exact ⟨name, property, rfl, hname, List.count_eq_zero.mp (by omega)⟩

theorem KeyParts.unique {key name property name' property' : Text} (h : KeyParts key name property)
    (h' : KeyParts key name' property') : name' = name ∧ property' = property := by
  have hsplit := splitKey?_eq_some_iff.mpr h
  rw [splitKey?_eq_some_iff.mpr h', Option.some.injEq, Prod.mk.injEq] at hsplit
  exact hsplit

theorem splitKey?_eq_none_iff {key : Text} : splitKey? key = none ↔ key.count '.' ≠ 1 := by
  rw [Ne, ← exists_keyParts_iff, Option.eq_none_iff_forall_ne_some]
  constructor
  · rintro h ⟨name, property, hparts⟩
    exact h (name, property) (splitKey?_eq_some_iff.mpr hparts)
  · rintro h ⟨name, property⟩ hsplit
    exact h ⟨name, property, splitKey?_eq_some_iff.mp hsplit⟩

/-! ## Why an assignment is refused -/

variable {ws : Workspace} {s s' m : Resolution} {key raw name property : Text} {e : ResolutionError}

/-- The reasons to refuse an assignment, with the error that each of them gives. No two of them
apply to one assignment. -/
inductive Refused (ws : Workspace) (s : Resolution) (key raw : Text) : ResolutionError → Prop
  | malformedKey (h : key.count '.' ≠ 1) : Refused ws s key raw (.malformedKey key)
  | unknownRule {name property : Text} (hkey : KeyParts key name property)
      (h : name ∉ s.rules.keys) : Refused ws s key raw (.unknownRule name key)
  | unknownProperty {name property : Text} (hkey : KeyParts key name property)
      (hname : name ∈ s.rules.keys) (h : ∀ p : Property, property ≠ p.name) :
      Refused ws s key raw (.unknownProperty property key)
  /-- The template of inputs or outputs can not be expanded. -/
  | expansion {name : Text} {p : Property} {cause : ExpansionError}
      (hkey : KeyParts key name p.name)
      (hname : name ∈ s.rules.keys) (hp : p ≠ .pat)
      (h : Template.expand ws s.names raw = .error cause) :
      Refused ws s key raw (.template key cause)
  /-- The pattern of the changed rule can not be expanded for one of its inputs. -/
  | outputs {name : Text} {p : Property} {rule rule' : Rule} {cause : ExpansionError}
      (hkey : KeyParts key name p.name) (hget : s.rules.get? name = some rule)
      (hupdate : update ws s.names rule p raw = .ok rule') (h : rule'.outs ws = .error cause) :
      Refused ws s key raw (.template key cause)

theorem refused_of_readKey (h : readKey s.rules key = .error e) : Refused ws s key raw e := by
  unfold readKey at h
  split at h
  · rename_i hnone
    cases h
    exact .malformedKey (splitKey?_eq_none_iff.mp hnone)
  · rename_i name property hsplit
    have hkey : KeyParts key name property := splitKey?_eq_some_iff.mp hsplit
    split at h
    · rename_i hget
      cases h
      exact .unknownRule hkey ((s.rules.get?_eq_none_iff name).mp hget)
    · rename_i rule hget
      split at h
      · rename_i hnone
        cases h
        exact .unknownProperty hkey (Bindings.mem_keys_iff.mpr ⟨rule, hget⟩)
          (Property.ofName?_eq_none_iff.mp hnone)
      · exact absurd h nofun

theorem update_eq_error_iff {names : Namespace} {rule : Rule} {p : Property}
    {cause : ExpansionError} :
    update ws names rule p raw = .error cause ↔
      p ≠ .pat ∧ Template.expand ws names raw = .error cause := by
  cases p with
  | ins => simp [update, Outcome.map_eq_error_iff]
  | out => simp [update, Outcome.map_eq_error_iff]
  | pat => simp [update]

theorem publish_eq_error_iff {names : Namespace} {rule : Rule} {cause : ExpansionError} :
    publish ws names name rule = .error cause ↔ rule.outs ws = .error cause := by
  unfold publish
  rw [Outcome.bind_eq_error_iff, or_iff_left]
  rintro ⟨outs, -, h⟩
  exact Outcome.pure_ne_error h

/-- **An assignment is refused exactly for one of these reasons.** -/
theorem assign_eq_error_iff : assign ws s (key, raw) = .error e ↔ Refused ws s key raw e := by
  simp only [assign, Outcome.bind_eq_error_iff, Outcome.mapError_eq_error_iff, update_eq_error_iff,
    publish_eq_error_iff, Outcome.mapError_eq_ok_iff]
  constructor
  · rintro (h | ⟨⟨name, rule, p⟩, hread, ⟨cause, ⟨hp, h⟩, rfl⟩ | ⟨rule', hupdate, ⟨cause, h, rfl⟩ |
      ⟨names, -, h⟩⟩⟩)
    · exact refused_of_readKey h
    · obtain ⟨rfl, hdot, hget⟩ := readKey_eq_ok_iff.mp hread
      exact .expansion ⟨rfl, hdot, p.dot_not_mem_name⟩ (Bindings.mem_keys_iff.mpr ⟨rule, hget⟩) hp h
    · obtain ⟨rfl, hdot, hget⟩ := readKey_eq_ok_iff.mp hread
      exact .outputs ⟨rfl, hdot, p.dot_not_mem_name⟩ hget hupdate h
    · exact absurd h Outcome.pure_ne_error
  · intro h
    cases h with
    | malformedKey h =>
      refine Or.inl ?_
      simp only [readKey, splitKey?_eq_none_iff.mpr h]
    | unknownRule hkey h =>
      refine Or.inl ?_
      simp only [readKey, splitKey?_eq_some_iff.mpr hkey, (s.rules.get?_eq_none_iff _).mpr h]
    | unknownProperty hkey hname h =>
      obtain ⟨rule, hget⟩ := Bindings.mem_keys_iff.mp hname
      refine Or.inl ?_
      simp only [readKey, splitKey?_eq_some_iff.mpr hkey, hget, Property.ofName?_eq_none_iff.mpr h]
    | expansion hkey hname hp h =>
      obtain ⟨rule, hget⟩ := Bindings.mem_keys_iff.mp hname
      exact Or.inr ⟨_, readKey_eq_ok_iff.mpr ⟨hkey.1, hkey.2.1, hget⟩, Or.inl ⟨_, ⟨hp, h⟩, rfl⟩⟩
    | outputs hkey hget hupdate h =>
      exact Or.inr ⟨_, readKey_eq_ok_iff.mpr ⟨hkey.1, hkey.2.1, hget⟩,
        Or.inr ⟨_, hupdate, Or.inl ⟨_, h, rfl⟩⟩⟩

/-- What the error of an assignment says, given the declared rules and the state in which the
assignment is refused. -/
structure FaultAt (ws : Workspace) (ruleNames : List Text) (m : Resolution) (key raw : Text)
    (e : ResolutionError) : Prop where
  malformedKey : e = .malformedKey key ↔ key.count '.' ≠ 1
  unknownRule : ∀ name property, KeyParts key name property →
    (e = .unknownRule name key ↔ name ∉ ruleNames)
  unknownProperty : ∀ name property, KeyParts key name property → name ∈ ruleNames →
    (e = .unknownProperty property key ↔ ∀ p : Property, property ≠ p.name)
  /-- The template of inputs or outputs can not be expanded, or else the outputs of the changed
  rule can not be made. -/
  template : ∀ name p, KeyParts key name p.name → name ∈ ruleNames →
    ∃ rule cause, m.rules.get? name = some rule ∧ e = .template key cause ∧
      ((p ≠ .pat ∧ Template.expand ws m.names raw = .error cause) ∨
        ∃ rule', update ws m.names rule p raw = .ok rule' ∧ rule'.outs ws = .error cause)

theorem faultAt_of_assign {ruleNames : List Text}
    (hrules : ∀ name, name ∈ m.rules.keys ↔ name ∈ ruleNames)
    (h : assign ws m (key, raw) = .error e) : FaultAt ws ruleNames m key raw e := by
  have hrefused := assign_eq_error_iff.mp h
  have hunique : ∀ e', Refused ws m key raw e' → e = e' := fun e' h' =>
    Except.error.inj (h.symm.trans (assign_eq_error_iff.mpr h'))
  refine ⟨⟨?_, fun hcount => hunique _ (.malformedKey hcount)⟩, fun name property hkey => ⟨?_, ?_⟩,
    fun name property hkey hname => ⟨?_, ?_⟩, fun name p hkey hname => ?_⟩
  · rintro rfl
    cases hrefused with
    | malformedKey hcount => exact hcount
  · rintro rfl
    cases hrefused with
    | unknownRule _ hname => exact mt (hrules name).mpr hname
  · intro hname
    exact hunique _ (.unknownRule hkey (mt (hrules name).mp hname))
  · rintro rfl
    cases hrefused with
    | unknownProperty _ _ hproperty => exact hproperty
  · intro hproperty
    exact hunique _ (.unknownProperty hkey ((hrules name).mpr hname) hproperty)
  · -- the first three reasons are excluded by what is known of the key
    obtain ⟨rule, hget⟩ := Bindings.mem_keys_iff.mp ((hrules name).mpr hname)
    cases hrefused with
    | malformedKey hcount => exact absurd (exists_keyParts_iff.mp ⟨name, p.name, hkey⟩) hcount
    | unknownRule hkey' hname' =>
      obtain ⟨rfl, -⟩ := hkey.unique hkey'
      exact absurd ((hrules _).mpr hname) hname'
    | unknownProperty hkey' _ hproperty => exact absurd (hkey.unique hkey').2 (hproperty p)
    | expansion hkey' _ hp hexpand =>
      obtain ⟨rfl, hsame⟩ := hkey.unique hkey'
      rw [Property.name_inj_iff.mp hsame] at hp
      exact ⟨rule, _, hget, rfl, Or.inl ⟨hp, hexpand⟩⟩
    | outputs hkey' hget' hupdate houts =>
      obtain ⟨rfl, hsame⟩ := hkey.unique hkey'
      rw [Property.name_inj_iff.mp hsame] at hupdate
      exact ⟨_, _, hget', rfl, Or.inr ⟨_, hupdate, houts⟩⟩

/-! ## The names on the way -/

theorem keys_prefix_bindSome (names : Namespace) (name : Text) (t : Option Text) :
    names.keys <+: (bindSome names name t).keys := by
  cases t with
  | none => exact List.prefix_rfl
  | some t => exact names.keys_prefix_insert name t

/-- An assignment binds new names behind those that are bound. -/
theorem keys_prefix_assign {a : Text × Text} (h : assign ws s a = .ok s') :
    s.names.keys <+: s'.names.keys := by
  obtain ⟨name, rule, p, rule', -, -, -, -, hpublish, -⟩ := assign_eq_ok_iff.mp h
  obtain ⟨outs, -, hnames⟩ := publish_eq_ok_iff.mp hpublish
  rw [← hnames]
  exact ((s.names.keys_prefix_insert _ _).trans (keys_prefix_bindSome _ _ _)).trans
    (keys_prefix_bindSome _ _ _)

theorem keys_prefix_run {l : List (Text × Text)} (h : l.foldlM (assign ws) m = .ok s) :
    m.names.keys <+: s.names.keys :=
  Outcome.run_invariant (fun _ s => m.names.keys <+: s.names.keys) List.prefix_rfl
    (fun _ _ _ _ hs hstep => hs.trans (keys_prefix_assign hstep)) h

/-! ## Runs -/

section Runs

variable {ruleNames : List Text} {assignments done : List (Text × Text)} {before : Namespace}

/-- **The first assignments of a run that succeeds succeed**, and have bound the first of its names.
-/
theorem exists_resolveRules_of_prefix (h : resolveRules ws ruleNames assignments before = .ok s)
    (hdone : done <+: assignments) :
    ∃ m, resolveRules ws ruleNames done before = .ok m ∧ m.names.keys <+: s.names.keys := by
  obtain ⟨rest, rfl⟩ := hdone
  obtain ⟨m, hm, hrest⟩ := Outcome.foldlM_append_eq_ok_iff.mp h
  exact ⟨m, hm, keys_prefix_run hrest⟩

/-- **A run stops at the first assignment that is refused.** If it succeeds, so do its first
assignments, however many, and the names they bind are the first of those that it binds. If it
fails, then at an assignment that is refused behind others that are carried out, with the reason for
that as the error, whatever stands behind it. -/
theorem resolveRules_stops (ws : Workspace) (ruleNames : List Text)
    (assignments : List (Text × Text)) (before : Namespace) :
    (∀ s, resolveRules ws ruleNames assignments before = .ok s → ∀ done, done <+: assignments →
      ∃ m, resolveRules ws ruleNames done before = .ok m ∧ m.names.keys <+: s.names.keys) ∧
    ∀ e, resolveRules ws ruleNames assignments before = .error e →
      ∃ done key raw m, done ++ [(key, raw)] <+: assignments ∧
        (∀ first, first <+: assignments →
          ((∃ t, resolveRules ws ruleNames first before = .ok t) ↔ first <+: done)) ∧
        (∀ more, resolveRules ws ruleNames (done ++ (key, raw) :: more) before = .error e) ∧
        resolveRules ws ruleNames done before = .ok m ∧ FaultAt ws ruleNames m key raw e := by
  refine ⟨fun s h done hdone => exists_resolveRules_of_prefix h hdone, fun e h => ?_⟩
  obtain ⟨done, ⟨key, raw⟩, rest, m, rfl, hm, hstep⟩ := Outcome.foldlM_eq_error_iff_exists.mp h
  have hmore : ∀ more, resolveRules ws ruleNames (done ++ (key, raw) :: more) before = .error e :=
    fun more => Outcome.foldlM_eq_error_iff_exists.mpr ⟨done, _, more, m, rfl, hm, hstep⟩
  have hat : done ++ [(key, raw)] <+: done ++ (key, raw) :: rest := ⟨rest, by simp⟩
  refine ⟨done, key, raw, m, hat, fun first hfirst => ⟨?_, ?_⟩, hmore, hm, ?_⟩
  · rintro ⟨t, ht⟩
    have hnot : ¬done ++ [(key, raw)] <+: first := by
      intro hlong
      obtain ⟨u, hu, -⟩ := exists_resolveRules_of_prefix ht hlong
      exact absurd ((hmore []).symm.trans hu) nofun
    rcases List.prefix_or_prefix_of_prefix hfirst hat with hshort | hlong
    · rcases List.prefix_concat_iff.mp hshort with heq | hshort
      · exact absurd (heq ▸ List.prefix_rfl) hnot
      · exact hshort
    · exact absurd hlong hnot
  · intro hshort
    obtain ⟨t, ht, -⟩ := exists_resolveRules_of_prefix hm hshort
    exact ⟨t, ht⟩
  · refine faultAt_of_assign (fun name => ?_) hstep
    rw [keys_resolveRules hm, List.mem_eraseDups]

/-- A pattern that calls its own input is kept without complaint and found to be wrong when the rule
gets inputs. The assignment to a rule that was never declared comes too late to be noticed. -/
theorem resolveRules_stops_late :
    resolveRules ⟨.empty, [], "/", "t"⟩ ["cc"]
        [("cc.pat", "${in:basename}.o"), ("cc.out", "x"), ("cc.ins", "a.c"),
          ("ld.ins", "a.o")] .empty
      = .error (.template "cc.ins" (.notCallable "in")) ∧
    ∃ done key raw m, resolveRules ⟨.empty, [], "/", "t"⟩ ["cc"] done .empty = .ok m ∧
      (∀ more, resolveRules ⟨.empty, [], "/", "t"⟩ ["cc"] (done ++ (key, raw) :: more) .empty
        = .error (.template "cc.ins" (.notCallable "in"))) ∧
      FaultAt ⟨.empty, [], "/", "t"⟩ ["cc"] m key raw (.template "cc.ins" (.notCallable "in")) := by
  have h : resolveRules ⟨.empty, [], "/", "t"⟩ ["cc"]
      [("cc.pat", "${in:basename}.o"), ("cc.out", "x"), ("cc.ins", "a.c"), ("ld.ins", "a.o")] .empty
        = .error (.template "cc.ins" (.notCallable "in")) := rfl
  obtain ⟨done, key, raw, m, -, -, hmore, hm, hfault⟩ := (resolveRules_stops _ _ _ _).2 _ h
  exact ⟨h, done, key, raw, m, hm, hmore, hfault⟩

end Runs

end Resolution

end BuildPlan
