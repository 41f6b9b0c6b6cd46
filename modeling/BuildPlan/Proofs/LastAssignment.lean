import BuildPlan.Proofs.AssignmentOrder

/-!
# The last assignment counts

A property of a rule is what its last assignment made it, and that assignment was read where it
stands: against the names that were bound by the assignments before it and by no later ones. A
pattern is kept as it was written. A property that was never assigned is as it was declared.

The invariant of a run carries two things: that the state is the one which the assignments done so
far lead to, and for each property the text that it was last set to (`LastText`). One assignment
changes the text of one property of one rule, and the template of that text is read in the state
that the invariant speaks of.
-/

namespace BuildPlan

namespace Rule

/-- The rule whose properties have been set to these texts, as far as they have been set at all. -/
def ofTexts (texts : Property → Option Text) : Rule where
  ins := ((texts .ins).map words).getD []
  pat := texts .pat
  out := (texts .out).map words

theorem set_ofTexts (texts : Property → Option Text) (t : Text) (p : Property) :
    (ofTexts texts).set t p = ofTexts fun q => if q = p then some t else texts q := by
  cases p <;> rfl

end Rule

namespace Resolution

/-! ## The last assignment under a key -/

/-- The last assignment under a key: the assignments before it, and its template. -/
def lastUnder? (key : Text) : List (Text × Text) → Option (List (Text × Text) × Text)
  | [] => none
  | a :: rest =>
    match lastUnder? key rest with
    | some (done, raw) => some (a :: done, raw)
    | none => if a.1 = key then some ([], a.2) else none

variable {key raw : Text} {l done rest : List (Text × Text)} {a : Text × Text}

theorem lastUnder?_eq_none_iff : lastUnder? key l = none ↔ key ∉ l.map Prod.fst := by
  induction l with
  | nil => simp [lastUnder?]
  | cons a l ih =>
    rw [List.map_cons, List.mem_cons, not_or, ← ih, lastUnder?]
    split
    · rename_i done raw h
      simp [h]
    · rename_i h
      simp [h, eq_comm]

/-- **It is an assignment under the key, and none behind it is.** -/
theorem lastUnder?_eq_some_iff :
    lastUnder? key l = some (done, raw) ↔
      ∃ rest, l = done ++ (key, raw) :: rest ∧ key ∉ rest.map Prod.fst := by
  constructor
  · intro h
    induction l generalizing done with
    | nil => exact absurd h nofun
    | cons a l ih =>
      unfold lastUnder? at h
      split at h
      · rename_i first last hlast
        cases h
        obtain ⟨rest, rfl, hrest⟩ := ih hlast
        exact ⟨rest, rfl, hrest⟩
      · rename_i hnone
        split at h
        · rename_i hkey
          cases h
          exact ⟨l, by rw [← hkey]; rfl, lastUnder?_eq_none_iff.mp hnone⟩
        · exact absurd h nofun
  · rintro ⟨rest, rfl, hrest⟩
    induction done with
    | nil => simp only [List.nil_append, lastUnder?, lastUnder?_eq_none_iff.mpr hrest, if_pos]
    | cons a done ih => simp only [List.cons_append, lastUnder?, ih]

theorem lastUnder?_append_of_not_mem (h : key ∉ rest.map Prod.fst) :
    lastUnder? key (done ++ rest) = lastUnder? key done := by
  cases hdone : lastUnder? key done with
  | none =>
    rw [lastUnder?_eq_none_iff] at hdone ⊢
    rw [List.map_append, List.mem_append, not_or]
    exact ⟨hdone, h⟩
  | some last =>
    obtain ⟨first, raw⟩ := last
    obtain ⟨more, rfl, hmore⟩ := lastUnder?_eq_some_iff.mp hdone
    refine lastUnder?_eq_some_iff.mpr ⟨more ++ rest, by simp, ?_⟩
    rw [List.map_append, List.mem_append, not_or]
    exact ⟨hmore, h⟩

theorem lastUnder?_concat_self (done : List (Text × Text)) (key raw : Text) :
    lastUnder? key (done ++ [(key, raw)]) = some (done, raw) :=
  lastUnder?_eq_some_iff.mpr ⟨[], rfl, List.not_mem_nil⟩

/-! ## The text of a property -/

variable {ws : Workspace} {ruleNames : List Text} {before : Namespace} {p : Property}
  {last : Option (List (Text × Text) × Text)} {t t' : Option Text}

/-- The text that the last assignment set a property to, if there is one: what its template gives in
the state that the assignments before it lead to. -/
inductive LastText (ws : Workspace) (ruleNames : List Text) (before : Namespace) (p : Property) :
    Option (List (Text × Text) × Text) → Option Text → Prop
  | unset : LastText ws ruleNames before p none none
  | set {done : List (Text × Text)} {raw text : Text} {m : Resolution}
      (hm : resolveRules ws ruleNames done before = .ok m)
      (htext : propertyText ws m.names raw p = .ok text) :
      LastText ws ruleNames before p (some (done, raw)) (some text)

theorem LastText.eq_none (h : LastText ws ruleNames before p none t) : t = none := by
  cases h
  rfl

theorem LastText.exists_set (h : LastText ws ruleNames before p (some (done, raw)) t) :
    ∃ m text, resolveRules ws ruleNames done before = .ok m ∧
      propertyText ws m.names raw p = .ok text ∧ t = some text := by
  cases h with
  | set hm htext => exact ⟨_, _, hm, htext, rfl⟩

theorem LastText.unique (h : LastText ws ruleNames before p last t)
    (h' : LastText ws ruleNames before p last t') : t = t' := by
  cases h with
  | unset =>
    cases h'
    rfl
  | set hm htext =>
    cases h' with
    | set hm' htext' =>
      obtain rfl := Except.ok.inj (hm.symm.trans hm')
      rw [Except.ok.inj (htext.symm.trans htext')]

/-! ## A run with its history -/

/-- What holds after the assignments `done`. -/
structure HistoryInvariant (ws : Workspace) (ruleNames : List Text) (before : Namespace)
    (done : List (Text × Text)) (s : Resolution) : Prop where
  /-- The state is the one that they lead to. -/
  run : resolveRules ws ruleNames done before = .ok s
  /-- The properties of every rule have been set to the texts of their last assignments. -/
  texts : ∀ name rule, s.rules.get? name = some rule →
    ∃ texts, rule = Rule.ofTexts texts ∧
      ∀ p, LastText ws ruleNames before p (lastUnder? (publishedName name p) done) (texts p)

/-- **One assignment preserves the invariant**: it changes the text of the property that it names,
and reads its template in the state that the assignments before it have led to. -/
theorem HistoryInvariant.assign {s s' : Resolution}
    (hinv : HistoryInvariant ws ruleNames before done s) (h : Resolution.assign ws s a = .ok s') :
    HistoryInvariant ws ruleNames before (done ++ [a]) s' := by
  refine ⟨?_, fun other found hfound => ?_⟩
  · rw [resolveRules, Outcome.foldlM_append_eq_ok_iff]
    exact ⟨s, hinv.run, by rwa [Outcome.foldlM_singleton]⟩
  · obtain ⟨key, raw⟩ := a
    obtain ⟨name, rule, p, text, hkey, -, hget, htext, -, hrules⟩ := assign_eq_ok_iff_set.mp h
    have hkeep : ∀ q, publishedName other q ≠ key →
        lastUnder? (publishedName other q) (done ++ [(key, raw)])
          = lastUnder? (publishedName other q) done :=
      fun q hne => lastUnder?_append_of_not_mem (by simpa using hne)
    rw [hrules, Bindings.get?_insert] at hfound
    split at hfound
    · -- the rule that is named: one of its texts is new
      rename_i hother
      subst hother
      obtain ⟨texts, rfl, htexts⟩ := hinv.texts other rule hget
      refine ⟨fun q => if q = p then some text else texts q, ?_, fun q => ?_⟩
      · rw [← Option.some.inj hfound, Rule.set_ofTexts]
      · show LastText ws ruleNames before q _ (if q = p then some text else texts q)
        by_cases hq : q = p
        · rw [if_pos hq, hq, ← show key = publishedName other p from hkey, lastUnder?_concat_self]
          exact .set hinv.run htext
        · rw [if_neg hq, hkeep q fun he => hq (publishedName_inj_iff.mp (he.trans hkey)).2]
          exact htexts q
    · rename_i hother
      obtain ⟨texts, hrule, htexts⟩ := hinv.texts other found hfound
      refine ⟨texts, hrule, fun q => ?_⟩
      rw [hkeep q fun he => hother (publishedName_inj_iff.mp (he.trans hkey)).1]
      exact htexts q

theorem historyInvariant_resolveRules {s : Resolution}
    (h : resolveRules ws ruleNames l before = .ok s) :
    HistoryInvariant ws ruleNames before l s := by
  refine Outcome.run_invariant (HistoryInvariant ws ruleNames before)
    ⟨rfl, fun name rule hget => ?_⟩
    (fun _ _ _ _ hinv hstep => hinv.assign hstep) h
  exact ⟨fun _ => none, eq_empty_of_get?_start hget, fun _ => .unset⟩

/-! ## The properties of a rule -/

/-- The properties of a rule are those of its last assignments, each read where it stands; a
property without an assignment is empty or unset. -/
structure LastAssigned (ws : Workspace) (ruleNames : List Text) (before : Namespace)
    (assignments : List (Text × Text)) (name : Text) (rule : Rule) : Prop where
  pat : rule.pat = (lastUnder? (publishedName name .pat) assignments).map Prod.snd
  ins_empty : lastUnder? (publishedName name .ins) assignments = none → rule.ins = []
  ins : ∀ done raw, lastUnder? (publishedName name .ins) assignments = some (done, raw) →
    ∃ m text, resolveRules ws ruleNames done before = .ok m ∧
      Template.expand ws m.names raw = .ok text ∧ rule.ins = words text
  out_unset : lastUnder? (publishedName name .out) assignments = none → rule.out = none
  out : ∀ done raw, lastUnder? (publishedName name .out) assignments = some (done, raw) →
    ∃ m text, resolveRules ws ruleNames done before = .ok m ∧
      Template.expand ws m.names raw = .ok text ∧ rule.out = some (words text)

theorem lastAssigned_of_texts {name : Text} {texts : Property → Option Text}
    (h : ∀ p, LastText ws ruleNames before p (lastUnder? (publishedName name p) l) (texts p)) :
    LastAssigned ws ruleNames before l name (Rule.ofTexts texts) := by
  have hnone : ∀ p, lastUnder? (publishedName name p) l = none → texts p = none := fun p hlast =>
    (hlast ▸ h p).eq_none
  have hsome : ∀ p done raw, lastUnder? (publishedName name p) l = some (done, raw) →
      ∃ m text, resolveRules ws ruleNames done before = .ok m ∧
        propertyText ws m.names raw p = .ok text ∧ texts p = some text := fun p done raw hlast =>
    (hlast ▸ h p).exists_set
  refine ⟨?_, fun hlast => ?_, fun done raw hlast => ?_, fun hlast => ?_, fun done raw hlast => ?_⟩
  · show texts .pat = _
    cases hlast : lastUnder? (publishedName name .pat) l with
    | none => exact hnone .pat hlast
    | some last =>
      obtain ⟨m, text, -, htext, hset⟩ := hsome .pat last.1 last.2 hlast
      rw [hset, ← Except.ok.inj htext, Option.map_some]
  · rw [Rule.ofTexts, hnone .ins hlast]
    rfl
  · obtain ⟨m, text, hm, htext, hset⟩ := hsome .ins done raw hlast
    exact ⟨m, text, hm, htext, by rw [Rule.ofTexts, hset]; rfl⟩
  · rw [Rule.ofTexts, hnone .out hlast]
    rfl
  · obtain ⟨m, text, hm, htext, hset⟩ := hsome .out done raw hlast
    exact ⟨m, text, hm, htext, by rw [Rule.ofTexts, hset]; rfl⟩

/-- **Every property is what its last assignment made it, read where that assignment stands.** No
later assignment, to this rule or another one, changes a property that it does not name. -/
theorem rule_of_last_assignments {assignments : List (Text × Text)} {s : Resolution} {name : Text}
    (h : resolveRules ws ruleNames assignments before = .ok s) (hname : name ∈ ruleNames) :
    ∃ rule, s.rules.get? name = some rule ∧
      LastAssigned ws ruleNames before assignments name rule ∧
      ∀ done rest, assignments = done ++ rest → ∃ m rule',
        resolveRules ws ruleNames done before = .ok m ∧ m.rules.get? name = some rule' ∧
        (publishedName name .ins ∉ rest.map Prod.fst → rule.ins = rule'.ins) ∧
        (publishedName name .out ∉ rest.map Prod.fst → rule.out = rule'.out) ∧
        (publishedName name .pat ∉ rest.map Prod.fst → rule.pat = rule'.pat) := by
  obtain ⟨rule, hget⟩ := (mem_ruleNames_iff h).mp hname
  obtain ⟨texts, rfl, htexts⟩ := (historyInvariant_resolveRules h).texts name rule hget
  refine ⟨_, hget, lastAssigned_of_texts htexts, ?_⟩
  rintro done rest rfl
  obtain ⟨m, hm, -⟩ := Outcome.foldlM_append_eq_ok_iff.mp h
  obtain ⟨rule', hget'⟩ := (mem_ruleNames_iff hm).mp hname
  obtain ⟨texts', rfl, htexts'⟩ := (historyInvariant_resolveRules hm).texts name rule' hget'
  have hsame : ∀ p, publishedName name p ∉ rest.map Prod.fst → texts p = texts' p := by
    intro p hnot
    have hp := htexts p
    rw [lastUnder?_append_of_not_mem hnot] at hp
    exact hp.unique (htexts' p)
  refine ⟨m, _, hm, hget', fun hnot => ?_, fun hnot => ?_, fun hnot => hsame .pat hnot⟩
  · rw [Rule.ofTexts, Rule.ofTexts, hsame .ins hnot]
  · rw [Rule.ofTexts, Rule.ofTexts, hsame .out hnot]

/-- The outputs of the second rule stay those of the pattern that was there when they were assigned,
although the pattern is replaced, and its inputs those of an earlier time still. -/
theorem rule_of_last_assignments_replaced :
    ∃ s rule, resolveRules ⟨.empty, [], "/", "t"⟩ ["cc", "ld"]
        [("cc.ins", "a.c"), ("ld.ins", "${cc.ins}"), ("cc.pat", "${in}.o"),
          ("cc.ins", "b.c ${ld.ins}"),
          ("ld.out", "${cc.out}"), ("cc.pat", "x/${in}")] .empty = .ok s ∧
      s.rules.get? "ld" = some rule ∧ rule.ins = (["a.c"] : List Text) ∧
      rule.out = some (["b.c.o", "a.c.o"] : List Text) ∧ rule.pat = none := by
  have h : resolveRules ⟨.empty, [], "/", "t"⟩ ["cc", "ld"]
      [("cc.ins", "a.c"), ("ld.ins", "${cc.ins}"), ("cc.pat", "${in}.o"),
        ("cc.ins", "b.c ${ld.ins}"),
        ("ld.out", "${cc.out}"), ("cc.pat", "x/${in}")] .empty = .ok _ := rfl
  have hname : ("ld" : Text) ∈ (["cc", "ld"] : List Text) := by decide
  obtain ⟨rule, hget, hlast, -⟩ := rule_of_last_assignments h hname
  obtain ⟨m, text, hm, htext, hins⟩ := hlast.ins _ _ rfl
  obtain ⟨m', text', hm', htext', hout⟩ := hlast.out _ _ rfl
  cases hm
  cases htext
  cases hm'
  cases htext'
  exact ⟨_, rule, h, hget, hins, hout, hlast.pat⟩

end Resolution

end BuildPlan
