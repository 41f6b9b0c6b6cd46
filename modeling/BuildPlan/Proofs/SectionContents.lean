import BuildPlan.Description.Sections
import BuildPlan.Proofs.BindingOrder
import BuildPlan.Proofs.Outcome

/-!
# Sections and their statements

The contents of sections are a list of names, each with a list of keys and values. Written out as
headers and settings they are a list of statements (`stated`), and putting statements into sections
is the way back: it succeeds exactly on the statements of some sections and gives these
(`ofStatements_eq_ok_iff`).
-/

namespace BuildPlan

/-- The statement without the number of its line. -/
def Statement.unnumbered : Statement → Statement
  | .header _ name => .header 0 name
  | .setting _ key value => .setting 0 key value
  | .unreadable _ text => .unreadable 0 text

/-- The statement is a header. -/
def Statement.isHeader : Statement → Bool
  | .header _ _ => true
  | _ => false

namespace Sections

/-- The names of the sections, each with its keys and values. -/
def contents (s : Sections) : List (Text × List (Text × Text)) :=
  s.entries.map fun e => (e.1, e.2.entries)

/-- The settings of a list of keys and values. -/
def settings (l : List (Text × Text)) : List Statement := l.map fun d => .setting 0 d.1 d.2

/-- The headers and settings of a list of sections. -/
def stated (l : List (Text × List (Text × Text))) : List Statement :=
  l.flatMap fun e => .header 0 e.1 :: settings e.2

theorem stated_append (l l' : List (Text × List (Text × Text))) :
    stated (l ++ l') = stated l ++ stated l' :=
  List.flatMap_append

theorem stated_cons (e : Text × List (Text × Text)) (l : List (Text × List (Text × Text))) :
    stated (e :: l) = .header 0 e.1 :: (settings e.2 ++ stated l) :=
  List.flatMap_cons

theorem settings_append (l l' : List (Text × Text)) :
    settings (l ++ l') = settings l ++ settings l' :=
  List.map_append

theorem contents_of_entries {s : Sections} {front : List (Text × Section)} {name : Text}
    {keys : Section} (h : s.entries = front ++ [(name, keys)]) :
    s.contents = (front.map fun e => (e.1, e.2.entries)) ++ [(name, keys.entries)] := by
  rw [contents, h, List.map_append]
  rfl

theorem eq_of_contents {s s' : Sections} (h : s.contents = s'.contents) : s = s' := by
  obtain ⟨l, hl⟩ := s
  obtain ⟨l', hl'⟩ := s'
  have hinj : ∀ e e' : Text × Section, (e.1, e.2.entries) = (e'.1, e'.2.entries) → e = e' := by
    rintro ⟨name, keys, hk⟩ ⟨name', keys', hk'⟩ he
    simp only [Prod.mk.injEq] at he
    obtain ⟨rfl, rfl⟩ := he
    rfl
  have hentries : l = l' := (List.map_inj_right hinj).mp h
  subst hentries
  rfl

/-! ## One statement -/

theorem exists_last {s : Sections} {e : Text × Section} (h : s.last? = some e) :
    ∃ front, s.entries = front ++ [e] :=
  List.getLast?_eq_some_iff.mp h

/-- **What a statement that can be added does.** A header opens a new section behind the others, and
a setting puts a new key into the last section. -/
theorem entries_of_add {s s' : Sections} {st : Statement} (h : s.add st = .ok s') :
    (∃ n name, st = .header n name ∧ name ∉ s.keys ∧ s'.entries = s.entries ++ [(name, .empty)]) ∨
      ∃ n key value front name keys, st = .setting n key value ∧
        s.entries = front ++ [(name, keys)] ∧ key ∉ keys.keys ∧
        s'.entries = front ++ [(name, keys.insert key value)] := by
  cases st with
  | header n name =>
    rw [add] at h
    split at h
    · exact absurd h (by simp)
    · rename_i hnew
      have hname : name ∉ s.keys := fun hm => hnew ((s.contains_iff name).mpr hm)
      rw [← Except.ok.inj h]
      exact Or.inl ⟨n, name, rfl, hname, Bindings.entries_insert_of_not_mem hname _⟩
  | setting n key value =>
    rw [add] at h
    split at h
    · exact absurd h (by simp)
    · rename_i name keys hlast
      obtain ⟨front, hfront⟩ := exists_last hlast
      split at h
      · exact absurd h (by simp)
      · rename_i hnew
        have hkey : key ∉ keys.keys := fun hm => hnew ((keys.contains_iff key).mpr hm)
        rw [← Except.ok.inj h]
        exact Or.inr ⟨n, key, value, front, name, keys, rfl, hfront, hkey,
          Bindings.entries_insert_last hfront _⟩
  | unreadable n text =>
    rw [add] at h
    split at h
    · exact absurd h (by simp)
    · exact absurd h (by simp)

/-- **A statement that can be added is added at the end.** -/
theorem stated_add {s s' : Sections} {st : Statement} (h : s.add st = .ok s') :
    stated s'.contents = stated s.contents ++ [st.unnumbered] := by
  obtain ⟨n, name, rfl, -, hs'⟩ | ⟨n, key, value, front, name, keys, rfl, hs, hkey, hs'⟩ :=
    entries_of_add h
  · rw [contents_of_entries hs', stated_append]
    rfl
  · rw [contents_of_entries hs', contents_of_entries hs, Bindings.entries_insert_of_not_mem hkey,
      stated_append, stated_append, stated_cons, stated_cons, settings_append]
    simp [stated, settings, Statement.unnumbered]

theorem add_header {s : Sections} {name : Text} (h : name ∉ s.keys) (n : Nat) :
    ∃ s', s.add (.header n name) = .ok s' ∧ s'.entries = s.entries ++ [(name, .empty)] := by
  refine ⟨s.insert name .empty, ?_, Bindings.entries_insert_of_not_mem h _⟩
  rw [add, if_neg fun hc => h ((s.contains_iff name).mp hc)]

theorem add_setting {s : Sections} {front : List (Text × Section)} {name key : Text}
    {keys : Section} (hs : s.entries = front ++ [(name, keys)]) (h : key ∉ keys.keys) (n : Nat)
    (value : Text) :
    ∃ s', s.add (.setting n key value) = .ok s' ∧
      s'.entries = front ++ [(name, keys.insert key value)] := by
  have hlast : s.last? = some (name, keys) := List.getLast?_eq_some_iff.mpr ⟨front, hs⟩
  refine ⟨s.insert name (keys.insert key value), ?_, Bindings.entries_insert_last hs _⟩
  rw [add, hlast]
  exact if_neg fun hc => h ((keys.contains_iff key).mp hc)

/-! ## Runs -/

theorem exists_of_unnumbered_eq_header {st : Statement} {name : Text}
    (h : st.unnumbered = .header 0 name) : ∃ n, st = .header n name := by
  cases st with
  | header n name' =>
    rw [Statement.unnumbered, Statement.header.injEq] at h
    exact ⟨n, by rw [h.2]⟩
  | setting n key value => exact absurd h (by simp [Statement.unnumbered])
  | unreadable n text => exact absurd h (by simp [Statement.unnumbered])

theorem exists_of_unnumbered_eq_setting {st : Statement} {key value : Text}
    (h : st.unnumbered = .setting 0 key value) : ∃ n, st = .setting n key value := by
  cases st with
  | header n name => exact absurd h (by simp [Statement.unnumbered])
  | setting n key' value' =>
    rw [Statement.unnumbered, Statement.setting.injEq] at h
    exact ⟨n, by rw [h.2.1, h.2.2]⟩
  | unreadable n text => exact absurd h (by simp [Statement.unnumbered])

/-- Settings with different keys go into the section opened last. -/
theorem run_settings {l : List Statement} {kvs : List (Text × Text)} {s : Sections}
    {front : List (Text × Section)} {name : Text} {keys : Section}
    (hs : s.entries = front ++ [(name, keys)]) (hnodup : (keys.keys ++ kvs.map Prod.fst).Nodup)
    (hl : l.map Statement.unnumbered = settings kvs) :
    ∃ s' keys', l.foldlM add s = .ok s' ∧ s'.entries = front ++ [(name, keys')] ∧
      keys'.entries = keys.entries ++ kvs := by
  induction kvs generalizing l s keys with
  | nil =>
    rw [settings, List.map_nil, List.map_eq_nil_iff] at hl
    subst hl
    exact ⟨s, keys, List.foldlM_nil, hs, (List.append_nil _).symm⟩
  | cons d kvs ih =>
    obtain ⟨key, value⟩ := d
    obtain ⟨st, l, rfl, hst, hrest⟩ := List.map_eq_cons_iff.mp hl
    obtain ⟨n, rfl⟩ := exists_of_unnumbered_eq_setting hst
    have hnew : key ∉ keys.keys := fun hm =>
      (List.nodup_append.mp hnodup).2.2 key hm key (by simp) rfl
    obtain ⟨s₁, hadd, hs₁⟩ := add_setting hs hnew n value
    have hentries := Bindings.entries_insert_of_not_mem hnew value
    have hkeys : (keys.insert key value).keys ++ kvs.map Prod.fst
        = keys.keys ++ ((key, value) :: kvs).map Prod.fst := by
      simp [Bindings.keys, hentries]
    obtain ⟨s', keys', hrun, hs', hkeys'⟩ := ih hs₁ (hkeys ▸ hnodup) hrest
    refine ⟨s', keys', ?_, hs', ?_⟩
    · rw [List.foldlM_cons, Outcome.bind_eq_ok_iff]
      exact ⟨s₁, hadd, hrun⟩
    · rw [hkeys', hentries, List.append_assoc]
      rfl

/-- Sections with different names, each with different keys, go behind those that are there. -/
theorem run_stated {l : List Statement} {secs : List (Text × List (Text × Text))} {s : Sections}
    (hnames : (s.keys ++ secs.map Prod.fst).Nodup) (hkeys : ∀ e ∈ secs, (e.2.map Prod.fst).Nodup)
    (hl : l.map Statement.unnumbered = stated secs) :
    ∃ s', l.foldlM add s = .ok s' ∧ s'.contents = s.contents ++ secs := by
  induction secs generalizing l s with
  | nil =>
    rw [stated, List.flatMap_nil, List.map_eq_nil_iff] at hl
    subst hl
    exact ⟨s, List.foldlM_nil, (List.append_nil _).symm⟩
  | cons e secs ih =>
    obtain ⟨name, kvs⟩ := e
    rw [stated_cons] at hl
    obtain ⟨st, l, rfl, hst, hrest⟩ := List.map_eq_cons_iff.mp hl
    obtain ⟨n, rfl⟩ := exists_of_unnumbered_eq_header hst
    obtain ⟨l₁, l₂, rfl, hl₁, hl₂⟩ := List.map_eq_append_iff.mp hrest
    have hnew : name ∉ s.keys := fun hm =>
      (List.nodup_append.mp hnames).2.2 name hm name (by simp) rfl
    obtain ⟨s₁, hadd, hs₁⟩ := add_header hnew n
    have hnodup : ((Bindings.empty : Section).keys ++ kvs.map Prod.fst).Nodup :=
      hkeys (name, kvs) List.mem_cons_self
    obtain ⟨s₂, keys, hrun, hs₂, hentries⟩ := run_settings hs₁ hnodup hl₁
    have hkeys₂ : s₂.keys ++ secs.map Prod.fst = s.keys ++ ((name, kvs) :: secs).map Prod.fst := by
      simp [Bindings.keys, hs₂]
    obtain ⟨s', hrun', hs'⟩ :=
      ih (hkeys₂ ▸ hnames) (fun e he => hkeys e (List.mem_cons_of_mem _ he)) hl₂
    refine ⟨s', ?_, ?_⟩
    · rw [List.foldlM_cons, Outcome.bind_eq_ok_iff]
      exact ⟨s₁, hadd, Outcome.foldlM_append_eq_ok_iff.mpr ⟨s₂, hrun, hrun'⟩⟩
    · rw [hs', contents_of_entries hs₂, hentries, List.append_assoc]
      rfl

theorem exists_ofStatements {l : List Statement} {secs : List (Text × List (Text × Text))}
    (hnames : (secs.map Prod.fst).Nodup) (hkeys : ∀ e ∈ secs, (e.2.map Prod.fst).Nodup)
    (hl : l.map Statement.unnumbered = stated secs) :
    ∃ s, ofStatements l = .ok s ∧ s.contents = secs :=
  run_stated (s := .empty) hnames hkeys hl

theorem stated_of_ofStatements {l : List Statement} {s : Sections} (h : ofStatements l = .ok s) :
    l.map Statement.unnumbered = stated s.contents := by
  refine Outcome.run_invariant (fun done s => done.map Statement.unnumbered = stated s.contents)
    rfl ?_ h
  intro done st s s' hs hadd
  rw [List.map_append, hs, stated_add hadd]
  rfl

/-- **Statements can be put into sections exactly if they are those of the sections**, in order. -/
theorem ofStatements_eq_ok_iff {l : List Statement} {s : Sections} :
    ofStatements l = .ok s ↔ l.map Statement.unnumbered = stated s.contents := by
  constructor
  · exact stated_of_ofStatements
  · intro hl
    have hnames : (s.contents.map Prod.fst).Nodup := by
      rw [contents, List.map_map]
      exact s.nodup
    have hkeys : ∀ e ∈ s.contents, (e.2.map Prod.fst).Nodup := by
      intro e he
      obtain ⟨d, -, rfl⟩ := List.mem_map.mp he
      exact d.2.nodup
    obtain ⟨s', hs', hcontents⟩ := exists_ofStatements hnames hkeys hl
    rw [hs', eq_of_contents hcontents]

end Sections

end BuildPlan
