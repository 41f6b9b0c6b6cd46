import BuildPlan.Proofs.UnmentionedGlobal

/-!
# The names at the end of an evaluation

The definitions of a manifest are the globals. The namespace at the end of the evaluation begins
with the same names in the same order; behind them stand the names that were published and are no
globals, in the order in which they were first published. A published name may be that of a global:
then the value is the published one and the place is that of the global.

Which names are published, and when, can be read off the keys of the assignments (`publications`):
each assignment publishes the inputs of its rule, the outputs if they or a pattern have been
assigned so far, and the pattern if it has been assigned so far. What is bound by a sequence of
bindings is `Binds`, which composes; publishing is three bindings at most, and a run is one
publication behind the other.
-/

namespace BuildPlan

/-! ## Sequences of bindings -/

namespace Bindings

variable {α : Type} {b c d : Bindings α} {first second : List Text}

/-- Names have been bound, one after the other: the new ones stand behind the old ones, each in the
place of its first binding, and the values of all other names are unchanged. -/
structure Binds (before : Bindings α) (written : List Text) (after : Bindings α) : Prop where
  keys : after.keys = before.keys ++ (written.filter fun key => !before.keys.contains key).eraseDups
  others : ∀ key, key ∉ written → after.get? key = before.get? key

theorem Binds.refl (b : Bindings α) : Binds b [] b :=
  ⟨by rw [List.filter_nil, List.eraseDups_nil, List.append_nil], fun _ _ => rfl⟩

theorem binds_insert (b : Bindings α) (name : Text) (v : α) : Binds b [name] (b.insert name v) := by
  refine ⟨?_, fun key hkey => get?_insert_of_ne (by simpa using hkey) v⟩
  rw [keys_insert]
  by_cases hname : name ∈ b.keys
  · simp [hname]
  · rw [if_neg hname, List.filter_cons_of_pos (by simpa using hname)]
    rfl

/-- **Bindings one behind the other.** -/
theorem Binds.append (h : Binds b first c) (h' : Binds c second d) :
    Binds b (first ++ second) d := by
  constructor
  · -- what is new to `c` is new to `b` and not among the first names
    have hnew : (second.filter fun key => !c.keys.contains key)
        = (second.filter fun key => !b.keys.contains key).removeAll
            (first.filter fun key => !b.keys.contains key) := by
      rw [List.removeAll, List.filter_filter]
      refine List.filter_congr fun key _ => ?_
      rw [h.keys]
      by_cases hb : key ∈ b.keys
      · simp [hb]
      · simp [hb]
    rw [h'.keys, hnew, h.keys, List.filter_append, List.eraseDups_append, List.append_assoc]
  · intro key hkey
    rw [List.mem_append, not_or] at hkey
    rw [h'.others key hkey.2, h.others key hkey.1]

/-- Whatever is bound at the end was bound before or has been written. -/
theorem Binds.mem_of_mem_keys (h : Binds b first c) {key : Text} (hkey : key ∈ c.keys) :
    key ∈ b.keys ∨ key ∈ first := by
  rw [h.keys, List.mem_append, List.mem_eraseDups] at hkey
  rcases hkey with hkey | hkey
  · exact Or.inl hkey
  · exact Or.inr (List.mem_of_mem_filter hkey)

end Bindings

/-! ## The names that are published -/

namespace Resolution

/-- After assignments with these keys the rule of that name shows the property: its inputs always,
its outputs if they or a pattern have been assigned, its pattern if that has been assigned. -/
def shows (keys : List Text) (name : Text) : Property → Bool
  | .ins => true
  | .out => keys.contains (publishedName name .out) || keys.contains (publishedName name .pat)
  | .pat => keys.contains (publishedName name .pat)

/-- The names that the rule is published under after assignments with these keys, in order. -/
def shownNames (keys : List Text) (name : Text) : List Text :=
  (Property.all.filter (shows keys name)).map (publishedName name)

/-- The names that assignments with the given keys publish, behind those with the keys `done`. -/
def publicationsFrom (done : List Text) : List Text → List Text
  | [] => []
  | key :: keys =>
    (match splitKey? key with
      | some (name, _) => shownNames (done ++ [key]) name
      | none => []) ++ publicationsFrom (done ++ [key]) keys

/-- The names that assignments with the given keys publish, one after the other. -/
def publications (keys : List Text) : List Text := publicationsFrom [] keys

theorem publicationsFrom_append (done xs ys : List Text) :
    publicationsFrom done (xs ++ ys)
      = publicationsFrom done xs ++ publicationsFrom (done ++ xs) ys := by
  induction xs generalizing done with
  | nil => simp [publicationsFrom]
  | cons key xs ih =>
    rw [List.cons_append, publicationsFrom, publicationsFrom, ih, List.append_assoc,
      List.append_assoc]
    rfl

/-- One more assignment publishes the rule that it names. -/
theorem publications_concat (done : List Text) {name : Text} (hdot : '.' ∉ name) (p : Property) :
    publications (done ++ [publishedName name p])
      = publications done ++ shownNames (done ++ [publishedName name p]) name := by
  have hsplit : splitKey? (publishedName name p) = some (name, p.name) :=
    splitKey?_eq_some_iff.mpr ⟨rfl, hdot, p.dot_not_mem_name⟩
  rw [publications, publicationsFrom_append, publicationsFrom, publicationsFrom, hsplit,
    List.append_nil]
  rfl

/-! ## One publication -/

section Publish

variable {ws : Workspace} {names names' : Namespace} {keys : List Text} {name other : Text}
  {rule : Rule}
  {outs : Option (List Text)}

/-- The properties of the rule that can be assigned and read back are set as the keys say. -/
structure AssignedBy (keys : List Text) (name : Text) (rule : Rule) : Prop where
  out : rule.out ≠ none ↔ publishedName name .out ∈ keys
  pat : rule.pat ≠ none ↔ publishedName name .pat ∈ keys

theorem AssignedBy.set (h : AssignedBy keys name rule) (t : Text) (p : Property) :
    AssignedBy (keys ++ [publishedName name p]) name (rule.set t p) := by
  obtain ⟨hout, hpat⟩ := h
  cases p with
  | ins => constructor <;> simp [Rule.set, publishedName_inj_iff, hout, hpat]
  | out => constructor <;> simp [Rule.set, publishedName_inj_iff, hpat]
  | pat => constructor <;> simp [Rule.set, publishedName_inj_iff, hout]

theorem AssignedBy.concat_of_ne (h : AssignedBy keys other rule) (hne : other ≠ name)
    (p : Property) : AssignedBy (keys ++ [publishedName name p]) other rule := by
  obtain ⟨hout, hpat⟩ := h
  constructor
  · simp [publishedName_inj_iff, hne, hout]
  · simp [publishedName_inj_iff, hne, hpat]

/-- A rule shows what the keys of its assignments say. -/
theorem isSome_shown (h : AssignedBy keys name rule) (houts : rule.outs ws = .ok outs)
    (p : Property) : (rule.shown outs p).isSome = shows keys name p := by
  cases p with
  | ins => rfl
  | out =>
    rw [Rule.shown, Option.isSome_map, shows, Bool.eq_iff_iff, Bool.or_eq_true,
      List.contains_iff_mem, List.contains_iff_mem, ← h.out, ← h.pat]
    constructor
    · intro hsome
      obtain ⟨os, rfl⟩ := Option.isSome_iff_exists.mp hsome
      exact (Rule.set_of_outs houts).symm
    · intro hset
      obtain ⟨os, rfl⟩ := Rule.exists_outs_of_set houts hset.symm
      rfl
  | pat =>
    rw [Rule.shown, shows, Bool.eq_iff_iff, List.contains_iff_mem, ← h.pat,
      Option.isSome_iff_ne_none]

theorem binds_bindSome (names : Namespace) (name : Text) (t : Option Text) :
    names.Binds (if t.isSome then [name] else []) (bindSome names name t) := by
  cases t with
  | none => exact Bindings.Binds.refl names
  | some t => exact Bindings.binds_insert names name t

/-- **Publishing a rule binds the names that it shows**, in the order of the properties. -/
theorem binds_publish (h : publish ws names name rule = .ok names')
    (hkeys : AssignedBy keys name rule) : names.Binds (shownNames keys name) names' := by
  obtain ⟨outs, houts, rfl⟩ := publish_eq_ok_iff.mp h
  have hins := Bindings.binds_insert names (publishedName name .ins) (unwords rule.ins)
  have hout := hins.append (binds_bindSome _ (publishedName name .out) (outs.map unwords))
  have hpat := hout.append (binds_bindSome _ (publishedName name .pat) rule.pat)
  have hshows : shows keys name = fun p => (rule.shown outs p).isSome :=
    funext fun p => (isSome_shown hkeys houts p).symm
  have hnames : shownNames keys name = [publishedName name .ins]
      ++ (if (outs.map unwords).isSome then [publishedName name .out] else [])
      ++ (if rule.pat.isSome then [publishedName name .pat] else []) := by
    rw [shownNames, hshows]
    cases outs <;> cases hp : rule.pat <;> simp [Property.all, Rule.shown, hp]
  rw [hnames]
  exact hpat

end Publish

/-! ## A whole run -/

section Run

variable {ws : Workspace} {ruleNames : List Text} {assignments : List (Text × Text)}
  {before : Namespace}
  {s s' : Resolution}

/-- What holds after assignments with these keys. -/
structure NamesInvariant (before : Namespace) (keys : List Text) (s : Resolution) : Prop where
  /-- Every rule is set as the keys say. -/
  assigned : ∀ name rule, s.rules.get? name = some rule → AssignedBy keys name rule
  /-- What has been bound since the beginning are the publications. -/
  binds : before.Binds (publications keys) s.names
  /-- Publications are names of rules that have been assigned. -/
  named : ∀ key ∈ publications keys, ∃ name p q,
    name ∈ s.rules.keys ∧ key = publishedName name p ∧ publishedName name q ∈ keys

/-- **One assignment preserves the invariant**: it sets one property and publishes that rule. -/
theorem NamesInvariant.assign {keys : List Text} {a : Text × Text}
    (hinv : NamesInvariant before keys s)
    (h : Resolution.assign ws s a = .ok s') : NamesInvariant before (keys ++ [a.1]) s' := by
  have hkeys := keys_assign h
  obtain ⟨name, rule, p, text, hkey, hdot, hget, -, hpublish, hrules⟩ := assign_eq_ok_iff_set.mp h
  have hassigned := (hinv.assigned name rule hget).set text p
  rw [hkey]
  refine ⟨?_, ?_, ?_⟩
  · intro other found hfound
    rw [hrules, Bindings.get?_insert] at hfound
    split at hfound
    · rename_i hother
      rw [hother, ← Option.some.inj hfound]
      exact hassigned
    · rename_i hne
      exact (hinv.assigned other found hfound).concat_of_ne hne p
  · rw [publications_concat keys hdot p]
    exact hinv.binds.append (binds_publish hpublish hassigned)
  · intro key hmem
    rw [publications_concat keys hdot p] at hmem
    rw [hkeys]
    rcases List.mem_append.mp hmem with hmem | hmem
    · obtain ⟨other, q, r, hother, hq, hr⟩ := hinv.named key hmem
      exact ⟨other, q, r, hother, hq, List.mem_append_left _ hr⟩
    · obtain ⟨q, -, rfl⟩ := List.mem_map.mp hmem
      exact ⟨name, q, p, Bindings.mem_keys_iff.mpr ⟨rule, hget⟩, rfl,
        List.mem_append_right _ (by simp)⟩

theorem namesInvariant_start (ruleNames : List Text) (before : Namespace) :
    NamesInvariant before [] (start ruleNames before) := by
  refine ⟨fun name rule hget => ?_, Bindings.Binds.refl before,
    fun key hmem => absurd hmem List.not_mem_nil⟩
  rw [eq_empty_of_get?_start hget]
  constructor <;> simp [Rule.empty]

/-- **A run binds what its assignments publish, in that order.** -/
theorem namesInvariant_resolveRules (h : resolveRules ws ruleNames assignments before = .ok s) :
    NamesInvariant before (assignments.map Prod.fst) s := by
  refine Outcome.run_invariant (fun done s => NamesInvariant before (done.map Prod.fst) s)
    (namesInvariant_start ruleNames before) ?_ h
  intro done a s t hs hstep
  rw [List.map_append, List.map_singleton]
  exact hs.assign hstep

end Run

end Resolution

/-! ## After an evaluation -/

namespace Description

open Resolution

/-- **The names at the end against the definitions.** The definitions are the globals in the order
of their declaration. The namespace at the end has the same names in the same order, and behind them
the published names that are no globals, in the order of their first publication. Each of these is a
name of a declared rule that some assignment names, and a global that was never published has the
value of its definition. -/
theorem names_of_evaluate {ws : Workspace} {d : Description} {ev : Evaluation}
    (h : d.evaluate ws = .ok ev) :
    ev.manifest.defines.keys = d.globals.keys ∧
    ev.names.keys = d.globals.keys
      ++ ((publications (d.assignments.map Prod.fst)).filter
          fun key => !d.globals.keys.contains key).eraseDups ∧
    (∀ key ∈ ev.names.keys, key ∉ d.globals.keys →
      ∃ name ∈ d.ruleNames, (∃ a ∈ d.assignments, NamesRule a name) ∧
        ∃ p, key = publishedName name p) ∧
    ∀ key ∈ d.globals.keys, key ∉ publications (d.assignments.map Prod.fst) →
      ∃ value, ev.manifest.defines.get? key = some value ∧ ev.names.get? key = some value := by
  obtain ⟨defines, hdefines, s, hs, rfl⟩ := evaluate_eq_ok_iff.mp h
  have hglobals := keys_resolveGlobals hdefines
  have hinv := namesInvariant_resolveRules hs
  refine ⟨hglobals, ?_, ?_, ?_⟩
  · rw [← hglobals]
    exact hinv.binds.keys
  · intro key hkey hnew
    rw [← hglobals] at hnew
    have hpublished := (hinv.binds.mem_of_mem_keys hkey).resolve_left hnew
    obtain ⟨name, p, q, hname, hp, hq⟩ := hinv.named key hpublished
    obtain ⟨a, ha, hkey⟩ := List.mem_map.mp hq
    rw [keys_resolveRules hs, List.mem_eraseDups] at hname
    exact ⟨name, hname, ⟨a, ha, q, hkey⟩, p, hp⟩
  · intro key hkey hunpublished
    rw [← hglobals] at hkey
    obtain ⟨value, hvalue⟩ := Bindings.mem_keys_iff.mp hkey
    exact ⟨value, hvalue, (hinv.binds.others key hunpublished).trans hvalue⟩

/-- Globals with the names of published properties: one is published, one belongs to a rule without
a pattern. -/
def shadowed : Description where
  includes := []
  ruleNames := ["cc", "ld"]
  globals := Bindings.ofList [("cc.out", "old"), ("src", "a.c"), ("ld.pat", "kept")]
  assignments :=
    [("ld.ins", "${cc.out}"), ("cc.ins", "${src}"), ("cc.pat", "${in}.o"), ("ld.out", "app")]

/-- The published global keeps its place, the other one its value as well. -/
theorem names_of_evaluate_shadowed :
    ∃ ev, shadowed.evaluate ⟨.empty, [], "/", "t"⟩ = .ok ev ∧
      ev.names.keys
        = (["cc.out", "src", "ld.pat", "ld.ins", "cc.ins", "cc.pat", "ld.out"] : List Text) ∧
      ev.names.get? "cc.out" = some "a.c.o" ∧ ev.names.get? "ld.pat" = some "kept" := by
  have h : shadowed.evaluate ⟨.empty, [], "/", "t"⟩ = .ok _ := rfl
  obtain ⟨-, hkeys, -, hglobal⟩ := names_of_evaluate h
  obtain ⟨value, hdefine, hvalue⟩ := hglobal "ld.pat" (by decide +kernel) (by decide +kernel)
  refine ⟨_, h, hkeys.trans (by decide +kernel), rfl, ?_⟩
  rw [hvalue, ← hdefine]
  rfl

end Description

end BuildPlan
