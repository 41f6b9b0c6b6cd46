import BuildPlan.Proofs.Mentions
import BuildPlan.Proofs.Publication

/-!
# The order of assignments

Two neighbouring assignments may change places if neither template mentions a published name of the
rule that the other one names. The rules are then the same and every name is bound to the same
value; only the order in which names were first bound may differ.

An assignment reads the namespace through its template alone, so it does the same before and after
the other one. What remains is to compare what the two orders publish. For two rules the published
names are different ones (`sameLookups_of_two_rules`). For one rule the second publication replaces
the first, because a rule never loses a property (`get?_publish_again`).
`Same` is what the rest of a run can not tell apart (`Same.run`).
-/

namespace BuildPlan

namespace Rule

/-- The rule after a property has been set to what a text says. -/
def set (rule : Rule) (t : Text) : Property → Rule
  | .ins => { rule with ins := words t }
  | .out => { rule with out := some (words t) }
  | .pat => { rule with pat := some t }

theorem set_comm (rule : Rule) (t u : Text) {p q : Property} (h : p ≠ q) :
    (rule.set t p).set u q = (rule.set u q).set t p := by
  cases p <;> cases q <;> simp_all [set]

/-- What the rule binds under a property, where `outs` are its outputs. -/
def shown (rule : Rule) (outs : Option (List Text)) : Property → Option Text
  | .ins => some (unwords rule.ins)
  | .out => outs.map unwords
  | .pat => rule.pat

/-- A rule that has outputs has a pattern or a list of outputs. -/
theorem set_of_outs {ws : Workspace} {rule : Rule} {os : List Text}
    (h : rule.outs ws = .ok (some os)) : rule.pat ≠ none ∨ rule.out ≠ none := by
  unfold outs at h
  split at h
  · rename_i pat hpat
    exact Or.inl (by rw [hpat]; simp)
  · rw [Except.ok.injEq] at h
    exact Or.inr (by rw [h]; simp)

/-- **A rule never loses a property**: what it shows before one is set it shows afterwards. -/
theorem shown_set {ws : Workspace} {rule : Rule} {t : Text} {p : Property}
    {outs outs' : Option (List Text)} (h : rule.outs ws = .ok outs)
    (h' : (rule.set t p).outs ws = .ok outs') {q : Property} (hq : rule.shown outs q ≠ none) :
    (rule.set t p).shown outs' q ≠ none := by
  cases q with
  | ins => exact Option.some_ne_none _
  | pat =>
    cases p with
    | ins => exact hq
    | out => exact hq
    | pat => exact Option.some_ne_none _
  | out =>
    obtain ⟨os, rfl⟩ : ∃ os, outs = some os := by
      cases outs with
      | none => exact absurd rfl hq
      | some os => exact ⟨os, rfl⟩
    have hbefore := set_of_outs h
    have hset : (rule.set t p).pat ≠ none ∨ (rule.set t p).out ≠ none := by
      cases p with
      | ins => exact hbefore
      | out => exact Or.inr (Option.some_ne_none _)
      | pat => exact Or.inl (Option.some_ne_none _)
    obtain ⟨os', rfl⟩ := exists_outs_of_set h' hset
    exact Option.some_ne_none _

end Rule

namespace Resolution

variable {ws : Workspace} {n n' m m' : Namespace} {name : Text} {rule rule' : Rule}

/-! ## Setting a property -/

/-- The text that a property is set to: a pattern is taken as it is written. -/
def propertyText (ws : Workspace) (n : Namespace) (raw : Text) :
    Property → Except ExpansionError Text
  | .ins => Template.expand ws n raw
  | .out => Template.expand ws n raw
  | .pat => .ok raw

theorem update_eq_ok_iff {p : Property} {raw : Text} :
    update ws n rule p raw = .ok rule' ↔
      ∃ t, propertyText ws n raw p = .ok t ∧ rule.set t p = rule' := by
  cases p with
  | ins => exact Outcome.map_eq_ok_iff
  | out => exact Outcome.map_eq_ok_iff
  | pat => simp [update, propertyText, Rule.set]

theorem propertyText_congr {raw : Text}
    (h : ∀ key, Template.Mentions raw key → n.get? key = n'.get? key) (p : Property) :
    propertyText ws n raw p = propertyText ws n' raw p := by
  cases p with
  | ins => exact Template.expand_congr h
  | out => exact Template.expand_congr h
  | pat => rfl

/-! ## Publishing -/

theorem get?_bindSome (names : Namespace) (key : Text) (t : Option Text) :
    (bindSome names key t).get? key = t.or (names.get? key) := by
  cases t with
  | none => rfl
  | some t => exact names.get?_insert_self key t

/-- **What is bound under the names of a rule once it is published**: what it shows, or else what
was bound there before. -/
theorem get?_publish (h : publish ws n name rule = .ok m) :
    ∃ outs, rule.outs ws = .ok outs ∧ ∀ p, m.get? (publishedName name p)
      = (rule.shown outs p).or (n.get? (publishedName name p)) := by
  have hne : ∀ {p q : Property}, p ≠ q → publishedName name p ≠ publishedName name q :=
    fun hpq he => hpq (publishedName_inj_iff.mp he).2
  obtain ⟨outs, houts, rfl⟩ := publish_eq_ok_iff.mp h
  refine ⟨outs, houts, fun p => ?_⟩
  cases p with
  | ins =>
    rw [get?_bindSome_of_ne _ (hne (by decide)), get?_bindSome_of_ne _ (hne (by decide)),
      Bindings.get?_insert_self]
    rfl
  | out =>
    rw [get?_bindSome_of_ne _ (hne (by decide)), get?_bindSome,
      Bindings.get?_insert_of_ne (hne (by decide))]
    rfl
  | pat =>
    rw [get?_bindSome, get?_bindSome_of_ne _ (hne (by decide)),
      Bindings.get?_insert_of_ne (hne (by decide))]
    rfl

theorem exists_publish {outs : Option (List Text)} (h : rule.outs ws = .ok outs) (n : Namespace)
    (name : Text) : ∃ m, publish ws n name rule = .ok m :=
  ⟨_, publish_eq_ok_iff.mpr ⟨outs, h, rfl⟩⟩

/-- Publishing in two namespaces: names bound alike before are bound alike afterwards. -/
theorem get?_publish_congr (h : publish ws n name rule = .ok m)
    (h' : publish ws n' name rule = .ok m')
    {key : Text} (hkey : n.get? key = n'.get? key) : m.get? key = m'.get? key := by
  by_cases hp : ∃ p, key = publishedName name p
  · obtain ⟨p, rfl⟩ := hp
    obtain ⟨outs, houts, hm⟩ := get?_publish h
    obtain ⟨outs', houts', hm'⟩ := get?_publish h'
    rw [houts, Except.ok.injEq] at houts'
    rw [hm p, hm' p, houts', hkey]
  · have hne : ∀ p, key ≠ publishedName name p := fun p he => hp ⟨p, he⟩
    rw [get?_publish_of_ne h hne, get?_publish_of_ne h' hne, hkey]

/-- **A second publication replaces the first**: what was published before a property was set makes
no difference. -/
theorem get?_publish_again {t : Text} {p : Property} (h : publish ws n name rule = .ok m)
    (hset : publish ws m name (rule.set t p) = .ok m')
    (honce : publish ws n name (rule.set t p) = .ok n') : m'.SameLookups n' := by
  intro key
  by_cases hq : ∃ q, key = publishedName name q
  · obtain ⟨q, rfl⟩ := hq
    obtain ⟨outs, houts, hm⟩ := get?_publish h
    obtain ⟨outs', houts', hm'⟩ := get?_publish hset
    obtain ⟨outs'', houts'', hn'⟩ := get?_publish honce
    rw [houts', Except.ok.injEq] at houts''
    rw [hm' q, hn' q, hm q, ← houts'']
    cases hshown : rule.shown outs q with
    | none => rw [Option.none_or]
    | some v =>
      have hsome :=
        Rule.shown_set houts houts' (q := q) (by rw [hshown]; exact Option.some_ne_none v)
      obtain ⟨w, hw⟩ := Option.ne_none_iff_exists'.mp hsome
      rw [hw, Option.some_or, Option.some_or]
  · have hne : ∀ q, key ≠ publishedName name q := fun q he => hq ⟨q, he⟩
    rw [get?_publish_of_ne hset hne, get?_publish_of_ne honce hne, get?_publish_of_ne h hne]

/-- Two rules are published in either order: no name belongs to both. -/
theorem sameLookups_of_two_rules {other : Text} {m₁ m₂ m₃ m₄ : Namespace} (hne : other ≠ name)
    (h₁ : publish ws n name rule = .ok m₁) (h₂ : publish ws m₁ other rule' = .ok m₂)
    (h₃ : publish ws n other rule' = .ok m₃) (h₄ : publish ws m₃ name rule = .ok m₄) :
    m₂.SameLookups m₄ := by
  intro key
  by_cases hp : ∃ p, key = publishedName name p
  · obtain ⟨p, rfl⟩ := hp
    rw [get?_publish_of_name_ne h₂ hne.symm p]
    exact get?_publish_congr h₁ h₄ (get?_publish_of_name_ne h₃ hne.symm p).symm
  · have hnot : ∀ p, key ≠ publishedName name p := fun p he => hp ⟨p, he⟩
    rw [get?_publish_of_ne h₄ hnot]
    exact get?_publish_congr h₂ h₃ (get?_publish_of_ne h₁ hnot)

/-! ## States that a run can not tell apart -/

/-- The rules are the same, and every name is bound to the same value. -/
structure Same (s t : Resolution) : Prop where
  rules : s.rules = t.rules
  names : s.names.SameLookups t.names

variable {s s' t t' s₁ s₂ t₁ t₂ : Resolution} {a b : Text × Text}

/-- An assignment sets one property of one rule and publishes the rule. -/
theorem assign_eq_ok_iff_set :
    assign ws s a = .ok s' ↔
      ∃ name rule p text, a.1 = publishedName name p ∧ '.' ∉ name ∧
        s.rules.get? name = some rule ∧ propertyText ws s.names a.2 p = .ok text ∧
        publish ws s.names name (rule.set text p) = .ok s'.names ∧
        s'.rules = s.rules.insert name (rule.set text p) := by
  rw [assign_eq_ok_iff]
  constructor
  · rintro ⟨name, rule, p, rule', hkey, hdot, hget, hupdate, hpublish, hrules⟩
    obtain ⟨text, htext, rfl⟩ := update_eq_ok_iff.mp hupdate
    exact ⟨name, rule, p, text, hkey, hdot, hget, htext, hpublish, hrules⟩
  · rintro ⟨name, rule, p, text, hkey, hdot, hget, htext, hpublish, hrules⟩
    exact ⟨name, rule, p, _, hkey, hdot, hget, update_eq_ok_iff.mpr ⟨text, htext, rfl⟩, hpublish,
      hrules⟩

/-- **An assignment reads the namespace through its template alone.** If the property gets the same
text in two states with the same rules, it does the same in both, and names bound alike stay so. -/
theorem exists_assign_of_same_text (hrules : s.rules = t.rules)
    (htext : ∀ name p, '.' ∉ name → a.1 = publishedName name p →
      propertyText ws t.names a.2 p = propertyText ws s.names a.2 p)
    (h : assign ws s a = .ok s') :
    ∃ t', assign ws t a = .ok t' ∧ s'.rules = t'.rules ∧
      ∀ key, s.names.get? key = t.names.get? key → s'.names.get? key = t'.names.get? key := by
  obtain ⟨name, rule, p, text, hkey, hdot, hget, hread, hpublish, hrules'⟩ :=
    assign_eq_ok_iff_set.mp h
  obtain ⟨outs, houts, -⟩ := get?_publish hpublish
  obtain ⟨m, hm⟩ := exists_publish houts t.names name
  rw [hrules] at hget hrules'
  exact ⟨⟨t.rules.insert name (rule.set text p), m⟩,
    assign_eq_ok_iff_set.mpr
      ⟨name, rule, p, text, hkey, hdot, hget, (htext name p hdot hkey).trans hread, hm, rfl⟩,
    hrules', fun key hsame => get?_publish_congr hpublish hm hsame⟩

theorem Same.assign (hsame : Same s t) (h : Resolution.assign ws s a = .ok s') :
    ∃ t', Resolution.assign ws t a = .ok t' ∧ Same s' t' := by
  obtain ⟨t', ht', hrules, hnames⟩ := exists_assign_of_same_text hsame.rules
    (fun _ p _ _ => propertyText_congr (fun key _ => (hsame.names key).symm) p) h
  exact ⟨t', ht', hrules, fun key => hnames key (hsame.names key)⟩

/-- **The rest of a run goes the same way from the same states.** -/
theorem Same.run (hsame : Same s t) {ys : List (Text × Text)}
    (h : ys.foldlM (Resolution.assign ws) s = .ok s') :
    ∃ t', ys.foldlM (Resolution.assign ws) t = .ok t' ∧ Same s' t' := by
  have hstep : ∀ a ∈ ys, ∀ s t s', Same s t → Resolution.assign ws s a = .ok s' →
      ∃ t', Resolution.assign ws t a = .ok t' ∧ Same s' t' :=
    fun _ _ _ _ _ hsame h => hsame.assign h
  exact Outcome.run_simulation hstep hsame h

/-! ## Two assignments -/

/-- The template of the first assignment mentions no published name of the rule that the second one
names. -/
def Ignores (a b : Text × Text) : Prop :=
  ∀ name p, NamesRule b name → ¬Template.Mentions a.2 (publishedName name p)

/-- A key names one rule. -/
theorem ignores_iff {q : Property} (hkey : b.1 = publishedName name q) :
    Ignores a b ↔ ∀ p, ¬Template.Mentions a.2 (publishedName name p) := by
  constructor
  · intro h p
    exact h name p ⟨q, hkey⟩
  · rintro h other p ⟨q', hother⟩
    obtain ⟨rfl, -⟩ := publishedName_inj_iff.mp (hkey.symm.trans hother)
    exact h p

/-- Publishing the rule that one assignment names changes nothing for a template that ignores it. -/
theorem propertyText_of_ignores {p q : Property} (hignores : Ignores a b)
    (hkey : b.1 = publishedName name q) (h : publish ws n name rule = .ok m) :
    propertyText ws m a.2 p = propertyText ws n a.2 p := by
  refine propertyText_congr (fun key hmentions => ?_) p
  refine get?_publish_of_ne h fun r he => ?_
  rw [he] at hmentions
  exact (ignores_iff hkey).mp hignores r hmentions

/-- **Assignments to two rules change places**: what one order can do the other one can. -/
theorem assign_swap (hab : Ignores a b) (hba : Ignores b a)
    (hne : ∀ r r', NamesRule a r → NamesRule b r' → r ≠ r')
    (h₁ : assign ws s a = .ok s₁) (h₂ : assign ws s₁ b = .ok s₂) :
    ∃ t₁ t₂, assign ws s b = .ok t₁ ∧ assign ws t₁ a = .ok t₂ ∧ Same s₂ t₂ := by
  obtain ⟨name, rule, p, text, hkey, hdot, hget, htext, hpublish, hrules⟩ :=
    assign_eq_ok_iff_set.mp h₁
  obtain ⟨other, rule', q, text', hkey', hdot', hget', htext', hpublish', hrules'⟩ :=
    assign_eq_ok_iff_set.mp h₂
  have hnames : other ≠ name := (hne name other ⟨p, hkey⟩ ⟨q, hkey'⟩).symm
  -- the second assignment finds its rule and what its template reads as they were at the start
  rw [hrules, Bindings.get?_insert_of_ne hnames] at hget'
  rw [propertyText_of_ignores hba hkey hpublish] at htext'
  obtain ⟨outs, houts, -⟩ := get?_publish hpublish
  obtain ⟨outs', houts', -⟩ := get?_publish hpublish'
  obtain ⟨m, hm⟩ := exists_publish houts' s.names other
  obtain ⟨m', hm'⟩ := exists_publish houts m name
  have hfirst : assign ws s b = .ok ⟨s.rules.insert other (rule'.set text' q), m⟩ :=
    assign_eq_ok_iff_set.mpr ⟨other, rule', q, text', hkey', hdot', hget', htext', hm, rfl⟩
  refine ⟨_, ⟨_, m'⟩, hfirst, assign_eq_ok_iff_set.mpr
    ⟨name, rule, p, text, hkey, hdot, ?_, ?_, hm', rfl⟩, ?_, ?_⟩
  · rw [Bindings.get?_insert_of_ne hnames.symm, hget]
  · rw [propertyText_of_ignores hab hkey' hm, htext]
  · rw [hrules', hrules]
    exact Bindings.insert_comm hnames hget hget'
  · exact sameLookups_of_two_rules hnames hpublish hpublish' hm hm'

/-- Two assignments to one rule: the second sets its property of the rule that the first has made,
and what the first has published makes no difference. -/
theorem two_properties (hba : Ignores b a) {p q : Property} (ha : a.1 = publishedName name p)
    (hb : b.1 = publishedName name q) (h₁ : assign ws s a = .ok s₁) (h₂ : assign ws s₁ b = .ok s₂) :
    ∃ rule text text' m, s.rules.get? name = some rule ∧
      propertyText ws s.names a.2 p = .ok text ∧ propertyText ws s.names b.2 q = .ok text' ∧
      s₂.rules = s.rules.insert name ((rule.set text p).set text' q) ∧
      publish ws s.names name ((rule.set text p).set text' q) = .ok m ∧ s₂.names.SameLookups m := by
  obtain ⟨name₁, rule, p₁, text, hkey, -, hget, htext, hpublish, hrules⟩ :=
    assign_eq_ok_iff_set.mp h₁
  obtain ⟨rfl, rfl⟩ := publishedName_inj_iff.mp (ha.symm.trans hkey)
  obtain ⟨name₂, rule₁, q₁, text', hkey', -, hget', htext', hpublish', hrules'⟩ :=
    assign_eq_ok_iff_set.mp h₂
  obtain ⟨rfl, rfl⟩ := publishedName_inj_iff.mp (hb.symm.trans hkey')
  rw [hrules, Bindings.get?_insert_self, Option.some.injEq] at hget'
  subst hget'
  rw [propertyText_of_ignores hba ha hpublish] at htext'
  obtain ⟨outs, houts, -⟩ := get?_publish hpublish'
  obtain ⟨m, hm⟩ := exists_publish houts s.names name
  refine ⟨rule, text, text', m, hget, htext, htext', ?_, hm,
    get?_publish_again hpublish hpublish' hm⟩
  rw [hrules', hrules, Bindings.insert_insert]

/-- **Two properties of one rule are set in either order**, if both orders can be carried out. -/
theorem same_of_one_rule (hab : Ignores a b) (hba : Ignores b a) {p q : Property} (hne : p ≠ q)
    (ha : a.1 = publishedName name p) (hb : b.1 = publishedName name q)
    (h₁ : assign ws s a = .ok s₁) (h₂ : assign ws s₁ b = .ok s₂)
    (h₃ : assign ws s b = .ok t₁) (h₄ : assign ws t₁ a = .ok t₂) : Same s₂ t₂ := by
  obtain ⟨rule, x, y, m, hget, hx, hy, hrules, hm, hnames⟩ := two_properties hba ha hb h₁ h₂
  obtain ⟨rule', y', x', m', hget', hy', hx', hrules', hm', hnames'⟩ :=
    two_properties hab hb ha h₃ h₄
  rw [hget, Option.some.injEq] at hget'
  rw [hx, Except.ok.injEq] at hx'
  rw [hy, Except.ok.injEq] at hy'
  subst hget' hx' hy'
  rw [← Rule.set_comm rule x y hne] at hrules' hm'
  rw [hm, Except.ok.injEq] at hm'
  subst hm'
  refine ⟨hrules.trans hrules'.symm, fun key => ?_⟩
  rw [hnames key, hnames' key]

/-- **Both orders come to the same**, if both can be carried out. -/
theorem same_of_both (hkeys : a.1 ≠ b.1) (hab : Ignores a b) (hba : Ignores b a)
    (h₁ : assign ws s a = .ok s₁) (h₂ : assign ws s₁ b = .ok s₂)
    (h₃ : assign ws s b = .ok t₁) (h₄ : assign ws t₁ a = .ok t₂) : Same s₂ t₂ := by
  obtain ⟨name, -, p, -, ha, -⟩ := assign_eq_ok_iff.mp h₁
  obtain ⟨other, -, q, -, hb, -⟩ := assign_eq_ok_iff.mp h₃
  by_cases hnames : name = other
  · subst hnames
    exact same_of_one_rule hab hba (fun hpq => hkeys (by rw [ha, hb, hpq])) ha hb h₁ h₂ h₃ h₄
  · have hne : ∀ r r', NamesRule a r → NamesRule b r' → r ≠ r' := by
      rintro r r' ⟨p', hr⟩ ⟨q', hr'⟩ rfl
      rw [ha] at hr
      rw [hb] at hr'
      exact hnames ((publishedName_inj_iff.mp hr).1.trans (publishedName_inj_iff.mp hr').1.symm)
    obtain ⟨u₁, u₂, h₅, h₆, hsame⟩ := assign_swap hab hba hne h₁ h₂
    rw [h₃, Except.ok.injEq] at h₅
    subst h₅
    rw [h₄, Except.ok.injEq] at h₆
    subst h₆
    exact hsame

/-! ## Runs -/

theorem foldlM_pair_eq_ok_iff :
    [a, b].foldlM (assign ws) s = .ok s₂ ↔
      ∃ s₁, assign ws s a = .ok s₁ ∧ assign ws s₁ b = .ok s₂ := by
  simp only [List.foldlM_cons, List.foldlM_nil, Outcome.bind_eq_ok_iff, Outcome.pure_eq_ok_iff,
    exists_eq_right]

/-- A run around two assignments. -/
theorem run_eq_ok_iff {ruleNames : List Text} {xs ys : List (Text × Text)} :
    resolveRules ws ruleNames (xs ++ [a, b] ++ ys) n = .ok t ↔
      ∃ s s₁ s₂, resolveRules ws ruleNames xs n = .ok s ∧ assign ws s a = .ok s₁ ∧
        assign ws s₁ b = .ok s₂ ∧ ys.foldlM (assign ws) s₂ = .ok t := by
  simp only [resolveRules, Outcome.foldlM_append_eq_ok_iff, foldlM_pair_eq_ok_iff]
  constructor
  · rintro ⟨s₂, ⟨s, hs, s₁, h₁, h₂⟩, ht⟩
    exact ⟨s, s₁, s₂, hs, h₁, h₂, ht⟩
  · rintro ⟨s, s₁, s₂, hs, h₁, h₂, ht⟩
    exact ⟨s₂, ⟨s, hs, s₁, h₁, h₂⟩, ht⟩

/-- With two rules, whatever follows one order follows the other. -/
theorem run_swap (hab : Ignores a b) (hba : Ignores b a)
    (hne : ∀ r r', NamesRule a r → NamesRule b r' → r ≠ r') {ruleNames : List Text}
    {xs ys : List (Text × Text)} (h : resolveRules ws ruleNames (xs ++ [a, b] ++ ys) n = .ok t) :
    ∃ t', resolveRules ws ruleNames (xs ++ [b, a] ++ ys) n = .ok t' ∧ Same t t' := by
  obtain ⟨s, s₁, s₂, hs, h₁, h₂, ht⟩ := run_eq_ok_iff.mp h
  obtain ⟨t₁, t₂, h₃, h₄, hsame⟩ := assign_swap hab hba hne h₁ h₂
  obtain ⟨t', ht', hsame'⟩ := hsame.run ht
  exact ⟨t', run_eq_ok_iff.mpr ⟨s, t₁, t₂, hs, h₃, h₄, ht'⟩, hsame'⟩

/-- **Independent assignments commute.** Whatever comes before and after two assignments with
different keys, of which neither mentions the rule of the other: if both orders succeed they give
the same rules and bind every name to the same value. If the assignments name two rules, one order
succeeds exactly if the other does. -/
theorem resolveRules_comm (ruleNames : List Text) (xs ys : List (Text × Text)) (hkeys : a.1 ≠ b.1)
    (hab : Ignores a b) (hba : Ignores b a) :
    (∀ t t', resolveRules ws ruleNames (xs ++ [a, b] ++ ys) n = .ok t →
      resolveRules ws ruleNames (xs ++ [b, a] ++ ys) n = .ok t' →
      t.rules = t'.rules ∧ ∀ key, t.names.get? key = t'.names.get? key) ∧
    ((∀ r r', NamesRule a r → NamesRule b r' → r ≠ r') →
      ((∃ t, resolveRules ws ruleNames (xs ++ [a, b] ++ ys) n = .ok t) ↔
        ∃ t', resolveRules ws ruleNames (xs ++ [b, a] ++ ys) n = .ok t')) := by
  refine ⟨?_, fun hne => ⟨?_, ?_⟩⟩
  · intro t t' h h'
    obtain ⟨s, s₁, s₂, hs, h₁, h₂, ht⟩ := run_eq_ok_iff.mp h
    obtain ⟨s', t₁, t₂, hs', h₃, h₄, ht'⟩ := run_eq_ok_iff.mp h'
    rw [hs, Except.ok.injEq] at hs'
    subst hs'
    obtain ⟨u, hu, hsame⟩ := (same_of_both hkeys hab hba h₁ h₂ h₃ h₄).run ht
    rw [ht', Except.ok.injEq] at hu
    subst hu
    exact ⟨hsame.rules, hsame.names⟩
  · rintro ⟨t, h⟩
    obtain ⟨t', h', -⟩ := run_swap hab hba hne h
    exact ⟨t', h'⟩
  · rintro ⟨t', h'⟩
    obtain ⟨t, h, -⟩ := run_swap hba hab (fun r r' hr hr' he => hne r' r hr' hr he.symm) h'
    exact ⟨t, h⟩

/-- The inputs of one rule and the outputs of another change places before a template that reads
both. Each order binds the names in another order. -/
theorem resolveRules_comm_link :
    ∃ t t',
      resolveRules ⟨.empty, [], "/", "t"⟩ ["cc", "link"]
        [("cc.ins", "a.c b.c"), ("link.out", "${dir}app"), ("link.ins", "${cc.ins} ${link.out}")]
        .empty = .ok t ∧
      resolveRules ⟨.empty, [], "/", "t"⟩ ["cc", "link"]
        [("link.out", "${dir}app"), ("cc.ins", "a.c b.c"), ("link.ins", "${cc.ins} ${link.out}")]
        .empty = .ok t' ∧
      t.names.keys ≠ t'.names.keys ∧ t.names.get? "link.ins" = some "a.c b.c ${dir}app" ∧
      t.rules = t'.rules ∧ ∀ key, t.names.get? key = t'.names.get? key := by
  have hkey : ("link.out" : Text) = publishedName "link" .out := rfl
  have hkey' : ("cc.ins" : Text) = publishedName "cc" .ins := rfl
  have hab : Ignores ("cc.ins", "a.c b.c") ("link.out", "${dir}app") := by
    refine (ignores_iff hkey).mpr fun p => ?_
    cases p <;> decide +kernel
  have hba : Ignores ("link.out", "${dir}app") ("cc.ins", "a.c b.c") := by
    refine (ignores_iff hkey').mpr fun p => ?_
    cases p <;> decide +kernel
  have h : resolveRules ⟨.empty, [], "/", "t"⟩ ["cc", "link"]
      [("cc.ins", "a.c b.c"), ("link.out", "${dir}app"), ("link.ins", "${cc.ins} ${link.out}")]
      .empty = .ok _ := rfl
  have h' : resolveRules ⟨.empty, [], "/", "t"⟩ ["cc", "link"]
      [("link.out", "${dir}app"), ("cc.ins", "a.c b.c"), ("link.ins", "${cc.ins} ${link.out}")]
      .empty = .ok _ := rfl
  exact ⟨_, _, h, h', by decide +kernel, rfl, (resolveRules_comm _ []
    [("link.ins", "${cc.ins} ${link.out}")] (by decide +kernel) hab hba).1 _ _ h h'⟩

end Resolution

end BuildPlan
