import BuildPlan.Proofs.EdgeGroups

/-!
# Only the set of declared names matters

Rules are declared by a list of names. Which names are in it decides what a run of assignments does;
how often and in which order they stand there decides only in which order the rules are listed, and
with them the groups of their edges.

A run looks rules up by name and never asks for their order. So two runs that start from the same
names, declared differently, go on together (`SameRules.assign`): they fail at the same assignment
with the same error, or they end with the same rule under every name and with one and the same
namespace.
-/

namespace BuildPlan

namespace Resolution

/-! ## Rules in another order -/

/-- The namespace is the same, its order included, and there is the same rule under every name. The
rules may be listed in another order. -/
structure SameRules (s t : Resolution) : Prop where
  names : s.names = t.names
  rules : ∀ name, s.rules.get? name = t.rules.get? name

variable {ws : Workspace} {s t : Resolution}

/-- A key is read by looking up one rule. -/
theorem readKey_congr {b c : Bindings Rule} (h : ∀ name, b.get? name = c.get? name) (key : Text) :
    readKey b key = readKey c key := by
  simp only [readKey, h]

/-- **An assignment does not see the order of the rules**, neither when it succeeds nor when it
fails. -/
theorem SameRules.assign (h : SameRules s t) (a : Text × Text) :
    Outcome.Alike SameRules (Resolution.assign ws s a) (Resolution.assign ws t a) := by
  refine (Outcome.Alike.of_eq (readKey_congr h.rules a.1)).bind ?_
  rintro ⟨name, rule, p⟩ _ rfl
  refine (Outcome.Alike.of_eq (by rw [h.names])).bind ?_
  rintro rule' _ rfl
  refine (Outcome.Alike.of_eq (by rw [h.names])).bind ?_
  rintro names' _ rfl
  refine .ok ⟨rfl, fun other => ?_⟩
  simp only [Bindings.get?_insert, h.rules]

theorem sameRules_start {ruleNames ruleNames' : List Text}
    (h : ∀ name, name ∈ ruleNames ↔ name ∈ ruleNames') (names : Namespace) :
    SameRules (start ruleNames names) (start ruleNames' names) := by
  refine ⟨rfl, fun name => ?_⟩
  simp only [get?_start_rules, h]

/-- **A run does not see the order of the declarations**, nor their repetitions. -/
theorem alike_resolveRules {ruleNames ruleNames' : List Text}
    (h : ∀ name, name ∈ ruleNames ↔ name ∈ ruleNames') (assignments : List (Text × Text))
    (names : Namespace) :
    Outcome.Alike SameRules (resolveRules ws ruleNames assignments names)
      (resolveRules ws ruleNames' assignments names) :=
  Outcome.Alike.run (fun a _ _ hsame => hsame.assign a) assignments (sameRules_start h names)

end Resolution

/-! ## Edges by rule -/

namespace Manifest

variable {ws : Workspace} {m m' : Manifest} {es es' : List Edge} {name : Text}

/-- The edges of a single rule, in their order. -/
def edgesOf (es : List Edge) (name : Text) : List Edge := es.filter (·.rule = name)

theorem edgesOf_of_forall (h : ∀ e ∈ es, e.rule = name) : edgesOf es name = es :=
  List.filter_eq_self.mpr fun e he => by simpa using h e he

theorem edgesOf_eq_nil (h : ∀ e ∈ es, e.rule ≠ name) : edgesOf es name = [] :=
  List.filter_eq_nil_iff.mpr fun e he => by simpa using h e he

/-- Edges in groups, under different names: those of a single rule are its group, or none. -/
theorem edgesOf_flatMap {group : Text → List Edge} (hgroup : ∀ n, ∀ e ∈ group n, e.rule = n)
    {names : List Text} (hnodup : names.Nodup) :
    edgesOf (names.flatMap group) name = if name ∈ names then group name else [] := by
  induction names with
  | nil => rfl
  | cons n names ih =>
    obtain ⟨hn, hnodup⟩ := List.nodup_cons.mp hnodup
    rw [List.flatMap_cons, edgesOf, List.filter_append]
    show edgesOf (group n) name ++ edgesOf (names.flatMap group) name = _
    rw [ih hnodup]
    by_cases hname : name = n
    · -- the group stands in front, and no edge behind it has the name
      subst hname
      rw [edgesOf_of_forall (hgroup name), if_neg hn, if_pos List.mem_cons_self, List.append_nil]
    · have hfront : edgesOf (group n) name = [] := by
        refine edgesOf_eq_nil fun e he => ?_
        rw [hgroup n e he]
        exact fun h => hname h.symm
      rw [hfront, List.nil_append]
      simp only [List.mem_cons, hname, false_or]

/-- The edges that the rule of that name makes, if there is such a rule and it makes any. -/
def groupOf (ws : Workspace) (rules : Bindings Rule) (name : Text) : List Edge :=
  match rules.get? name with
  | some rule => (rule.edges ws name).toOption.getD []
  | none => []

section GroupOf

variable {rules rules' : Bindings Rule} {rule : Rule} {group : List Edge}

theorem groupOf_of_edges (hget : rules.get? name = some rule) (h : rule.edges ws name = .ok group) :
    groupOf ws rules name = group := by
  rw [groupOf, hget]
  show (rule.edges ws name).toOption.getD [] = group
  rw [h]
  rfl

theorem rule_of_mem_groupOf {e : Edge} (he : e ∈ groupOf ws rules name) : e.rule = name := by
  unfold groupOf at he
  split at he
  · rename_i rule _
    cases h : rule.edges ws name with
    | error cause =>
      rw [h] at he
      exact absurd he List.not_mem_nil
    | ok group =>
      rw [h] at he
      exact (Rule.edges_eq_ok_iff_isGroup.mp h).rule e he
  · exact absurd he List.not_mem_nil

theorem groupOf_congr (h : ∀ name, rules.get? name = rules'.get? name) (name : Text) :
    groupOf ws rules name = groupOf ws rules' name := by
  simp only [groupOf, h]

end GroupOf

/-- **The edges are the groups of the rules**, in the order of the rules. -/
theorem eq_flatMap_groupOf (h : m.edges ws = .ok es) :
    es = m.rules.keys.flatMap (groupOf ws m.rules) := by
  obtain ⟨groups, hgroups, rfl⟩ := Outcome.map_eq_ok_iff.mp h
  have hmap : groups = m.rules.entries.map fun x => groupOf ws m.rules x.1 := by
    refine Outcome.eq_map_of_mapM hgroups fun x hx group hgroup => ?_
    exact groupOf_of_edges (Bindings.mem_entries_iff.mp hx) hgroup
  rw [hmap, Bindings.keys, List.flatMap_map, List.flatMap_def]

/-- What has the name of a rule is the group of that rule. -/
theorem edgesOf_eq_groupOf (h : m.edges ws = .ok es) (name : Text) :
    edgesOf es name = groupOf ws m.rules name := by
  have hgroup : ∀ n, ∀ e ∈ groupOf ws m.rules n, e.rule = n := fun _ _ he => rule_of_mem_groupOf he
  have hnodup : m.rules.keys.Nodup := m.rules.nodup
  rw [eq_flatMap_groupOf h, edgesOf_flatMap hgroup hnodup]
  split
  · rfl
  · rename_i hname
    rw [groupOf, (m.rules.get?_eq_none_iff name).mpr hname]

theorem exists_edges_iff :
    (∃ es, m.edges ws = .ok es) ↔
      ∀ name rule, m.rules.get? name = some rule → ∃ group, rule.edges ws name = .ok group := by
  constructor
  · rintro ⟨es, h⟩ name rule hget
    obtain ⟨groups, hgroups, -⟩ := Outcome.map_eq_ok_iff.mp h
    exact Outcome.exists_mapM_iff.mp ⟨groups, hgroups⟩ (name, rule)
      (Bindings.mem_entries_iff.mpr hget)
  · intro h
    obtain ⟨groups, hgroups⟩ := Outcome.exists_mapM_iff.mpr
      fun (x : Text × Rule) hx => h x.1 x.2 (Bindings.mem_entries_iff.mp hx)
    exact ⟨groups.flatten, Outcome.map_eq_ok_iff.mpr ⟨groups, hgroups, rfl⟩⟩

/-- **The same rules in another order have the same edges**, rule by rule, if they have edges at
all. -/
theorem edgesOf_congr (hrules : ∀ name, m.rules.get? name = m'.rules.get? name)
    (h : m.edges ws = .ok es)
    (h' : m'.edges ws = .ok es') (name : Text) : edgesOf es name = edgesOf es' name := by
  rw [edgesOf_eq_groupOf h, edgesOf_eq_groupOf h', groupOf_congr hrules]

/-- The edges, rule by rule. -/
theorem eq_flatMap_edgesOf (h : m.edges ws = .ok es) : es = m.rules.keys.flatMap (edgesOf es) := by
  have hgroups : edgesOf es = groupOf ws m.rules := funext (edgesOf_eq_groupOf h)
  rw [hgroups]
  exact eq_flatMap_groupOf h

end Manifest

/-! ## Two lists of declarations -/

namespace Resolution

/-- **Only the set of declared names matters.** Two lists of names with the same elements: the runs
fail with the same error, or both succeed, with the same namespace and the same rule under every
name. Each lists the rules in the order of their first declarations. Then the one has edges exactly
if the other has; the edges of a single rule are the same, and each lists them rule by rule in its
own order. -/
theorem resolveRules_same_declarations {ruleNames ruleNames' : List Text}
    (h : ∀ name, name ∈ ruleNames ↔ name ∈ ruleNames') (ws : Workspace)
    (assignments : List (Text × Text)) (names : Namespace) :
    (∃ e, resolveRules ws ruleNames assignments names = .error e ∧
      resolveRules ws ruleNames' assignments names = .error e) ∨
    ∃ s s', resolveRules ws ruleNames assignments names = .ok s ∧
      resolveRules ws ruleNames' assignments names = .ok s' ∧
      s.names = s'.names ∧ (∀ name, s.rules.get? name = s'.rules.get? name) ∧
      s.rules.keys = ruleNames.eraseDups ∧ s'.rules.keys = ruleNames'.eraseDups ∧
      ∀ includes defines,
        ((∃ es, Manifest.edges ws ⟨includes, defines, s.rules⟩ = .ok es) ↔
          ∃ es', Manifest.edges ws ⟨includes, defines, s'.rules⟩ = .ok es') ∧
        ∀ es es', Manifest.edges ws ⟨includes, defines, s.rules⟩ = .ok es →
          Manifest.edges ws ⟨includes, defines, s'.rules⟩ = .ok es' →
            (∀ name, Manifest.edgesOf es name = Manifest.edgesOf es' name) ∧
            es = ruleNames.eraseDups.flatMap (Manifest.edgesOf es) ∧
            es' = ruleNames'.eraseDups.flatMap (Manifest.edgesOf es') := by
  rcases Outcome.alike_iff.mp (alike_resolveRules h assignments names) with
    hfail | ⟨s, s', hs, hs', hsame⟩
  · exact Or.inl hfail
  · refine Or.inr ⟨s, s', hs, hs', hsame.names, hsame.rules, keys_resolveRules hs,
      keys_resolveRules hs', fun includes defines => ⟨?_, ?_⟩⟩
    · simp only [Manifest.exists_edges_iff, hsame.rules]
    · intro es es' hes hes'
      refine ⟨Manifest.edgesOf_congr hsame.rules hes hes', ?_, ?_⟩
      · rw [← keys_resolveRules hs]
        exact Manifest.eq_flatMap_edgesOf hes
      · rw [← keys_resolveRules hs']
        exact Manifest.eq_flatMap_edgesOf hes'

/-- Objects and the program that they are linked to. -/
def linked : List (Text × Text) :=
  [("cc.ins", "a.c b.c"), ("cc.pat", "${in}.o"), ("link.out", "app"), ("link.ins", "${cc.out}")]

/-- A rule is declared again behind another one. With the second list of declarations the edges of
the two rules stand in the other order. -/
theorem resolveRules_same_declarations_linked :
    (∀ name, name ∈ (["cc", "link", "cc"] : List Text) ↔ name ∈ (["link", "cc"] : List Text)) ∧
    ∃ s s' es es', resolveRules ⟨.empty, [], "/", "t"⟩ ["cc", "link", "cc"] linked .empty = .ok s ∧
      resolveRules ⟨.empty, [], "/", "t"⟩ ["link", "cc"] linked .empty = .ok s' ∧
      s.names = s'.names ∧
      Manifest.edges ⟨.empty, [], "/", "t"⟩ ⟨[], .empty, s.rules⟩ = .ok es ∧
      Manifest.edges ⟨.empty, [], "/", "t"⟩ ⟨[], .empty, s'.rules⟩ = .ok es' ∧
      es.map Edge.output = (["a.c.o", "b.c.o", "app"] : List Text) ∧
      es'.map Edge.output = (["app", "a.c.o", "b.c.o"] : List Text) ∧
      ∀ name, Manifest.edgesOf es name = Manifest.edgesOf es' name := by
  have hset :
      ∀ name, name ∈ (["cc", "link", "cc"] : List Text) ↔ name ∈ (["link", "cc"] : List Text) := by
    intro name
    simp only [List.mem_cons, List.not_mem_nil, or_false]
    constructor
    · rintro (h | h | h)
      · exact Or.inr h
      · exact Or.inl h
      · exact Or.inr h
    · rintro (h | h)
      · exact Or.inr (Or.inl h)
      · exact Or.inl h
  have h : resolveRules ⟨.empty, [], "/", "t"⟩ ["cc", "link", "cc"] linked .empty = .ok _ := rfl
  have h' : resolveRules ⟨.empty, [], "/", "t"⟩ ["link", "cc"] linked .empty = .ok _ := rfl
  rcases resolveRules_same_declarations hset ⟨.empty, [], "/", "t"⟩ linked .empty with
    ⟨e, he, -⟩ | ⟨s, s', hs, hs', hnames, -, -, -, hedges⟩
  · rw [h] at he
    exact absurd he nofun
  · obtain rfl := Except.ok.inj (h.symm.trans hs)
    obtain rfl := Except.ok.inj (h'.symm.trans hs')
    exact ⟨hset, _, _, _, _, h, h', hnames, rfl, rfl, rfl, rfl,
      ((hedges [] .empty).2 _ _ rfl rfl).1⟩

end Resolution

end BuildPlan
