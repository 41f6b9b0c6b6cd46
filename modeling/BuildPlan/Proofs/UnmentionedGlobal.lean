import BuildPlan.Proofs.AssignmentOrder
import BuildPlan.Proofs.Emission
import BuildPlan.Proofs.GlobalOrder

/-!
# A global that nothing mentions

One more global, at any place among the others, changes nothing but the definitions, if no template
that is expanded mentions it: the rules are the same, so are the edges, and the definitions have one
more entry at that place.

Two runs are compared step by step. While globals are resolved the second namespace is the first
with one entry more (`Widens`). While rules are resolved the two namespaces agree on every other
name (`SameBut`). The extra name may well be one that a rule is published under: publishing then
binds it again, and still nothing has read it.
-/

namespace BuildPlan

/-! ## One more entry -/

namespace Bindings

variable {α : Type} {front : List (Text × α)} {e : Text × α} {b c : Bindings α}

/-- The first names of a table, with their values. -/
def take (b : Bindings α) (i : Nat) : Bindings α :=
  ⟨b.entries.take i, ((List.take_sublist i b.entries).map Prod.fst).nodup b.nodup⟩

theorem nodup_insertAt (i : Nat) {name : Text} (h : name ∉ b.keys) (v : α) :
    ((b.entries.take i ++ (name, v) :: b.entries.drop i).map Prod.fst).Nodup := by
  have hperm :
      (b.entries.take i ++ (name, v) :: b.entries.drop i).Perm ((name, v) :: b.entries) := by
    have hmiddle : (b.entries.take i ++ (name, v) :: b.entries.drop i).Perm
        ((name, v) :: (b.entries.take i ++ b.entries.drop i)) := List.perm_middle
    rwa [List.take_append_drop] at hmiddle
  rw [(hperm.map Prod.fst).nodup_iff, List.map_cons, List.nodup_cons]
  exact ⟨h, b.nodup⟩

/-- The table with a new name behind its first `i` names. -/
def insertAt (b : Bindings α) (i : Nat) (name : Text) (v : α) (h : name ∉ b.keys) : Bindings α :=
  ⟨b.entries.take i ++ (name, v) :: b.entries.drop i, nodup_insertAt i h v⟩

/-- The second table has one more entry than the first, behind the entries `front`. -/
def Widens (front : List (Text × α)) (e : Text × α) (b c : Bindings α) : Prop :=
  ∃ back, b.entries = front ++ back ∧ c.entries = front ++ e :: back

theorem Widens.get? (h : Widens front e b c) {key : Text} (hkey : key ≠ e.1) :
    b.get? key = c.get? key := by
  obtain ⟨back, hb, hc⟩ := h
  refine Option.ext fun v => ?_
  have hne : (key, v) ≠ e := fun he => hkey (congrArg Prod.fst he)
  rw [← mem_entries_iff, ← mem_entries_iff, hb, hc, List.mem_append, List.mem_append, List.mem_cons]
  simp only [hne, false_or]

theorem Widens.not_mem_keys (h : Widens front e b c) {key : Text} (hkey : key ∉ b.keys)
    (hne : key ≠ e.1) : key ∉ c.keys := by
  rw [← get?_eq_none_iff] at hkey ⊢
  rw [← h.get? hne, hkey]

theorem Widens.entries_eq {i : Nat} (h : Widens (b.entries.take i) e b c) :
    c.entries = b.entries.take i ++ e :: b.entries.drop i := by
  obtain ⟨back, hb, hc⟩ := h
  have hsplit : b.entries.take i ++ b.entries.drop i = b.entries.take i ++ back := by
    rw [List.take_append_drop, ← hb]
  rw [hc, List.append_cancel_left hsplit]

/-- Binding a name that is new to both keeps the one entry more. -/
theorem Widens.insert (h : Widens front e b c) {name : Text} (hname : name ∉ b.keys)
    (hne : name ≠ e.1) (v : α) : Widens front e (b.insert name v) (c.insert name v) := by
  have hname' := h.not_mem_keys hname hne
  obtain ⟨back, hb, hc⟩ := h
  refine ⟨back ++ [(name, v)], ?_, ?_⟩
  · rw [entries_insert_of_not_mem hname, hb, List.append_assoc]
  · rw [entries_insert_of_not_mem hname', hc, List.append_assoc]
    rfl

end Bindings

namespace Resolution

variable {ws : Workspace} {k v : Text}

/-! ## Resolving globals -/

section Globals

variable {front : List (Text × Text)} {l : List (Text × Text)} {m m' ns : Namespace}

/-- **Globals with new names are bound behind the names that are there**, in order. -/
theorem exists_entries_run (hnodup : (m.keys ++ l.map Prod.fst).Nodup)
    (h : l.foldlM (addGlobal ws) m = .ok ns) :
    ∃ added, ns.entries = m.entries ++ added ∧ added.map Prod.fst = l.map Prod.fst := by
  refine Outcome.run_invariant
    (fun done ns => (m.keys ++ done.map Prod.fst).Nodup →
      ∃ added, ns.entries = m.entries ++ added ∧ added.map Prod.fst = done.map Prod.fst)
    (fun _ => ⟨[], (List.append_nil _).symm, rfl⟩) ?_ h hnodup
  intro done g s t hs hstep hnodup
  obtain ⟨w, -, rfl⟩ := addGlobal_eq_ok_iff.mp hstep
  rw [List.map_append, ← List.append_assoc, List.map_singleton] at hnodup
  obtain ⟨hdone, -, hnew⟩ := List.nodup_append.mp hnodup
  obtain ⟨added, hadded, hnames⟩ := hs hdone
  have hfresh : g.1 ∉ s.keys := by
    intro hmem
    rw [Bindings.keys, hadded, List.map_append, hnames] at hmem
    exact hnew g.1 hmem g.1 (List.mem_singleton.mpr rfl) rfl
  refine ⟨added ++ [(g.1, w)], ?_, ?_⟩
  · rw [Bindings.entries_insert_of_not_mem hfresh, hadded, List.append_assoc]
  · rw [List.map_append, hnames, List.map_append]
    rfl

/-- **The definitions have the names of the globals**, in their order. -/
theorem keys_resolveGlobals {globals : Bindings Text} (h : resolveGlobals ws globals = .ok ns) :
    ns.keys = globals.keys := by
  obtain ⟨added, hadded, hnames⟩ := exists_entries_run (m := .empty) globals.nodup h
  rw [Bindings.keys, hadded]
  exact hnames

/-- The first globals alone are resolved as in the whole run, and the others behind them. -/
theorem run_drop_of_take {globals : Bindings Text} {i : Nat}
    (h : resolveGlobals ws globals = .ok ns)
    (hbefore : resolveGlobals ws (globals.take i) = .ok m) :
    (globals.entries.drop i).foldlM (addGlobal ws) m = .ok ns ∧
      m.keys = (globals.entries.take i).map Prod.fst ∧
      (m.keys ++ (globals.entries.drop i).map Prod.fst).Nodup := by
  have hsplit := List.take_append_drop i globals.entries
  have hkeys : m.keys = (globals.entries.take i).map Prod.fst := keys_resolveGlobals hbefore
  rw [resolveGlobals, ← hsplit, Outcome.foldlM_append_eq_ok_iff] at h
  obtain ⟨m₀, hm₀, hrest⟩ := h
  obtain rfl : m = m₀ := Except.ok.inj (hbefore.symm.trans hm₀)
  refine ⟨hrest, hkeys, ?_⟩
  rw [hkeys, ← List.map_append, hsplit]
  exact globals.nodup

/-- **The first globals alone have the first definitions.** -/
theorem entries_resolveGlobals_take {globals : Bindings Text} {i : Nat}
    (h : resolveGlobals ws globals = .ok ns)
    (hbefore : resolveGlobals ws (globals.take i) = .ok m) :
    m.entries = ns.entries.take i := by
  obtain ⟨hrest, hkeys, hnodup⟩ := run_drop_of_take h hbefore
  obtain ⟨added, hadded, hnames⟩ := exists_entries_run hnodup hrest
  have hlength : m.entries.length = min i globals.entries.length := by
    have := congrArg List.length hkeys
    simpa [Bindings.keys] using this
  have hlength' : added.length = globals.entries.length - i := by
    have := congrArg List.length hnames
    simpa using this
  rw [hadded]
  -- either there are `i` globals or more, or none is left behind the first ones
  rcases Nat.le_total i globals.entries.length with hi | hi
  · exact (List.take_left' (by omega)).symm
  · have hnone : added = [] := List.length_eq_zero_iff.mp (by omega)
    rw [hnone, List.append_nil, List.take_of_length_le (by omega)]

/-- A global that does not mention the extra name gets the same value in both runs. -/
theorem exists_addGlobal_of_widens (hwidens : m.Widens front (k, v) m') {g : Text × Text}
    (hunread : ¬Template.Mentions g.2 k) (hnew : g.1 ∉ m.keys) (hne : g.1 ≠ k)
    (h : addGlobal ws m g = .ok ns) :
    ∃ ns', addGlobal ws m' g = .ok ns' ∧ ns.Widens front (k, v) ns' := by
  obtain ⟨w, hw, rfl⟩ := addGlobal_eq_ok_iff.mp h
  have hsame : Template.expand ws m' g.2 = Template.expand ws m g.2 := by
    refine Template.expand_congr fun key hkey => (hwidens.get? ?_).symm
    rintro rfl
    exact hunread hkey
  exact ⟨m'.insert g.1 w, addGlobal_eq_ok_iff.mpr ⟨w, hsame.trans hw, rfl⟩,
    hwidens.insert hnew hne w⟩

/-- **The rest of the globals is resolved as before**, with one entry more. -/
theorem exists_run_of_widens (hwidens : m.Widens front (k, v) m')
    (hunread : ∀ g ∈ l, ¬Template.Mentions g.2 k) (hne : k ∉ l.map Prod.fst)
    (hnodup : (m.keys ++ l.map Prod.fst).Nodup) (h : l.foldlM (addGlobal ws) m = .ok ns) :
    ∃ ns', l.foldlM (addGlobal ws) m' = .ok ns' ∧ ns.Widens front (k, v) ns' := by
  induction l generalizing m m' with
  | nil =>
    rw [List.foldlM_nil, Outcome.pure_eq_ok_iff] at h
    rw [← h]
    exact ⟨m', List.foldlM_nil, hwidens⟩
  | cons g l ih =>
    rw [List.foldlM_cons, Outcome.bind_eq_ok_iff] at h
    obtain ⟨m₁, hstep, hrest⟩ := h
    rw [List.map_cons, List.mem_cons, not_or] at hne
    have hnew : g.1 ∉ m.keys := fun hmem =>
      (List.nodup_append.mp hnodup).2.2 g.1 hmem g.1 (by simp) rfl
    obtain ⟨m₁', hstep', hwidens₁⟩ := exists_addGlobal_of_widens hwidens
      (hunread g List.mem_cons_self) hnew (Ne.symm hne.1) hstep
    have hkeys : m₁.keys = m.keys ++ [g.1] := by
      obtain ⟨w, -, rfl⟩ := addGlobal_eq_ok_iff.mp hstep
      rw [Bindings.keys_insert, if_neg hnew]
    obtain ⟨ns', hrun, hns'⟩ :=
      ih hwidens₁ (fun x hx => hunread x (List.mem_cons_of_mem _ hx)) hne.2
      (by rw [hkeys, List.append_assoc]; exact hnodup) hrest
    refine ⟨ns', ?_, hns'⟩
    rw [List.foldlM_cons, Outcome.bind_eq_ok_iff]
    exact ⟨m₁', hstep', hrun⟩

/-- **Globals with a further one among them**, which none of those behind it mentions. -/
theorem exists_resolveGlobals_insertAt {globals : Bindings Text} {raw : Text} (i : Nat)
    (hnew : k ∉ globals.keys) (hunread : ∀ g ∈ globals.entries, ¬Template.Mentions g.2 k)
    (h : resolveGlobals ws globals = .ok ns) (hbefore : resolveGlobals ws (globals.take i) = .ok m)
    (hvalue : Template.expand ws m raw = .ok v) :
    ∃ ns', resolveGlobals ws (globals.insertAt i k raw hnew) = .ok ns' ∧
      ns.Widens (ns.entries.take i) (k, v) ns' := by
  have hfirst := entries_resolveGlobals_take h hbefore
  obtain ⟨hrest, hkeys, hnodup⟩ := run_drop_of_take h hbefore
  have hfresh : k ∉ m.keys := by
    rw [hkeys]
    exact fun hmem => hnew (((List.take_sublist i _).map Prod.fst).subset hmem)
  have hwidens : m.Widens m.entries (k, v) (m.insert k v) :=
    ⟨[], (List.append_nil _).symm, Bindings.entries_insert_of_not_mem hfresh v⟩
  obtain ⟨ns', hrun, hns'⟩ := exists_run_of_widens hwidens
    (fun g hg => hunread g (List.mem_of_mem_drop hg))
    (fun hmem => hnew (((List.drop_sublist i _).map Prod.fst).subset hmem)) hnodup hrest
  refine ⟨ns', Outcome.foldlM_append_eq_ok_iff.mpr ⟨m, hbefore, ?_⟩, hfirst ▸ hns'⟩
  rw [List.foldlM_cons, Outcome.bind_eq_ok_iff]
  exact ⟨m.insert k v, addGlobal_eq_ok_iff.mpr ⟨v, hvalue, rfl⟩, hrun⟩

end Globals

/-! ## Resolving rules -/

/-- The property that a key sets, if it can be read. -/
def keyProperty? (key : Text) : Option Property :=
  (splitKey? key).bind fun parts => Property.ofName? parts.2

theorem keyProperty?_publishedName {name : Text} (hdot : '.' ∉ name) (p : Property) :
    keyProperty? (publishedName name p) = some p := by
  have hsplit : splitKey? (publishedName name p) = some (name, p.name) :=
    splitKey?_eq_some_iff.mpr ⟨rfl, hdot, p.dot_not_mem_name⟩
  rw [keyProperty?, hsplit, Option.bind_some]
  exact Property.ofName?_eq_some_iff.mpr rfl

/-- The assignment sets inputs or outputs, so that its template is expanded. A pattern is not. -/
def SetsWords (a : Text × Text) : Prop :=
  keyProperty? a.1 = some .ins ∨ keyProperty? a.1 = some .out

instance (a : Text × Text) : Decidable (SetsWords a) := inferInstanceAs (Decidable (_ ∨ _))

/-- The rules are the same, and every name but `k` is bound to the same value. -/
structure SameBut (k : Text) (s t : Resolution) : Prop where
  rules : s.rules = t.rules
  names : ∀ key, key ≠ k → s.names.get? key = t.names.get? key

variable {s s' t : Resolution} {a : Text × Text}

/-- **An assignment that does not read the name does the same in both states.** -/
theorem SameBut.assign (hsame : SameBut k s t) (hunread : SetsWords a → ¬Template.Mentions a.2 k)
    (h : Resolution.assign ws s a = .ok s') :
    ∃ t', Resolution.assign ws t a = .ok t' ∧ SameBut k s' t' := by
  have htext : ∀ name p, '.' ∉ name → a.1 = publishedName name p →
      propertyText ws t.names a.2 p = propertyText ws s.names a.2 p := by
    intro name p hdot hkey
    have hexpand : SetsWords a →
        Template.expand ws t.names a.2 = Template.expand ws s.names a.2 := by
      intro hwords
      refine Template.expand_congr fun key hmentions => (hsame.names key fun he => ?_).symm
      exact hunread hwords (he ▸ hmentions)
    have hproperty : keyProperty? a.1 = some p := hkey ▸ keyProperty?_publishedName hdot p
    cases p with
    | ins => exact hexpand (Or.inl hproperty)
    | out => exact hexpand (Or.inr hproperty)
    | pat => rfl
  obtain ⟨t', ht', hrules, hnames⟩ := exists_assign_of_same_text hsame.rules htext h
  exact ⟨t', ht', hrules, fun key hkey => hnames key (hsame.names key hkey)⟩

theorem SameBut.run (hsame : SameBut k s t) {l : List (Text × Text)}
    (hunread : ∀ a ∈ l, SetsWords a → ¬Template.Mentions a.2 k)
    (h : l.foldlM (Resolution.assign ws) s = .ok s') :
    ∃ t', l.foldlM (Resolution.assign ws) t = .ok t' ∧ SameBut k s' t' := by
  have hstep : ∀ a ∈ l, ∀ s t s', SameBut k s t → Resolution.assign ws s a = .ok s' →
      ∃ t', Resolution.assign ws t a = .ok t' ∧ SameBut k s' t' :=
    fun a ha _ _ _ hsame h => hsame.assign (hunread a ha) h
  exact Outcome.run_simulation hstep hsame h

end Resolution

/-! ## The whole evaluation -/

namespace Description

variable {ws : Workspace} {d : Description} {ev : Evaluation} {k raw v : Text} {m : Namespace}

/-- **An unmentioned global changes nothing but the definitions.** Wherever among the globals it is
put and can be expanded, the evaluation succeeds again, with the same rules, edges and files to
include, and the definitions have its entry at that place. Every other name has the same value in
the end. -/
theorem evaluate_insertAt (h : d.evaluate ws = .ok ev) (hnew : k ∉ d.globals.keys)
    (hglobals : ∀ g ∈ d.globals.entries, ¬Template.Mentions g.2 k)
    (hassignments : ∀ a ∈ d.assignments, Resolution.SetsWords a → ¬Template.Mentions a.2 k)
    (i : Nat)
    (hbefore : Resolution.resolveGlobals ws (d.globals.take i) = .ok m)
    (hvalue : Template.expand ws m raw = .ok v) :
    ∃ ev', evaluate ws { d with globals := d.globals.insertAt i k raw hnew } = .ok ev' ∧
      ev'.manifest.rules = ev.manifest.rules ∧
      ev'.manifest.edges ws = ev.manifest.edges ws ∧
      ev'.manifest.includes = ev.manifest.includes ∧
      ev'.manifest.defines.entries
        = ev.manifest.defines.entries.take i ++ (k, v) :: ev.manifest.defines.entries.drop i ∧
      ∀ key, key ≠ k → ev'.names.get? key = ev.names.get? key := by
  obtain ⟨defines, hdefines, s, hs, rfl⟩ := evaluate_eq_ok_iff.mp h
  obtain ⟨defines', hdefines', hwidens⟩ :=
    Resolution.exists_resolveGlobals_insertAt i hnew hglobals hdefines hbefore hvalue
  have hstart : Resolution.SameBut k (.start d.ruleNames defines) (.start d.ruleNames defines') :=
    ⟨rfl, fun key hkey => hwidens.get? hkey⟩
  obtain ⟨t, ht, hsame⟩ := hstart.run hassignments hs
  have hmanifest : ∀ defs : Namespace, Manifest.edges ws ⟨d.includes, defs, t.rules⟩
      = Manifest.edges ws ⟨d.includes, defines, s.rules⟩ := fun _ => by
    rw [Manifest.edges, Manifest.edges, hsame.rules]
  refine ⟨⟨⟨d.includes, defines', t.rules⟩, t.names⟩,
    evaluate_eq_ok_iff.mpr ⟨defines', hdefines', t, ht, rfl⟩, hsame.rules.symm, hmanifest defines',
    rfl, hwidens.entries_eq, fun key hkey => (hsame.names key hkey).symm⟩

/-- A rule with a pattern, and a global that looks like the outputs of that rule. -/
def patterned : Description where
  includes := ["rules.ninja"]
  ruleNames := ["cc"]
  globals := Bindings.ofList [("src", "a.c"), ("flags", "-I${dir:src}")]
  assignments := [("cc.ins", "${src}"), ("cc.pat", "${cc.out}/${in}.o")]

/-- The extra global has the name under which the outputs of the rule are published, and the pattern
has a placeholder of that name; it stands between a global that it mentions and another one. -/
theorem evaluate_insertAt_patterned :
    ∃ (ev ev' : Evaluation) (hnew : ("cc.out" : Text) ∉ patterned.globals.keys),
      patterned.evaluate ⟨.empty, [], "/", "t"⟩ = .ok ev ∧
      evaluate ⟨.empty, [], "/", "t"⟩
        { patterned with globals := patterned.globals.insertAt 1 "cc.out" "x${suffix:src}" hnew }
          = .ok ev' ∧
      ev'.manifest.rules = ev.manifest.rules ∧
      ev'.manifest.defines.entries
        = ([("src", "a.c"), ("cc.out", "x.c"), ("flags", "-I./")] : List (Text × Text)) := by
  have hnew : ("cc.out" : Text) ∉ patterned.globals.keys := by decide +kernel
  have h : patterned.evaluate ⟨.empty, [], "/", "t"⟩ = .ok _ := rfl
  have hbefore :
      Resolution.resolveGlobals ⟨.empty, [], "/", "t"⟩ (patterned.globals.take 1) = .ok _ :=
    rfl
  obtain ⟨ev', hev', hrules, -, -, hdefines, -⟩ := evaluate_insertAt h hnew (by decide +kernel)
    (by decide +kernel) 1 hbefore
    (show Template.expand _ _ "x${suffix:src}" = .ok ("x.c" : Text) from rfl)
  exact ⟨_, ev', hnew, h, hev', hrules, hdefines⟩

end Description

end BuildPlan
