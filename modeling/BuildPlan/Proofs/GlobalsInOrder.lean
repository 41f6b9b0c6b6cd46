import BuildPlan.Proofs.UnmentionedGlobal

/-!
# Globals are resolved in order

Each global is expanded against the globals before it and nothing else. So the definition in any
place is fixed by the first globals up to that place, whatever stands behind them, and the first
global that can not be expanded is the error (`resolveGlobals_in_order`).

The state of a resolution is the table of the definitions so far. That the first globals alone lead
to the first definitions is `entries_resolveGlobals_take`; what is left is one step at a time.
-/

namespace BuildPlan

namespace Bindings

variable {α : Type} {b c : Bindings α} {i j : Nat} {name : Text} {v : α}

theorem take_congr (h : b.entries.take i = c.entries.take i) : b.take i = c.take i := by
  simp only [take, h]

theorem take_take (h : j ≤ i) : (b.take i).take j = b.take j := by
  simp only [take, List.take_take, Nat.min_eq_left h]

theorem drop_entries (h : b.entries[i]? = some (name, v)) :
    b.entries.drop i = (name, v) :: b.entries.drop (i + 1) := by
  obtain ⟨hi, he⟩ := List.getElem?_eq_some_iff.mp h
  rw [List.drop_eq_getElem_cons hi, he]

end Bindings

namespace Resolution

variable {ws : Workspace} {globals : Bindings Text} {ns m : Namespace} {i : Nat} {key raw : Text}
  {e : ResolutionError}

theorem addGlobal_eq_error_iff {g : Text × Text} :
    addGlobal ws ns g = .error e ↔
      ∃ cause, Template.expand ws ns g.2 = .error cause ∧ e = .template g.1 cause := by
  unfold addGlobal
  cases Template.expand ws ns g.2 with
  | error cause => simp [eq_comm]
  | ok v => simp

/-- What the template gives against the globals before the place `i`, which can be resolved. -/
def ExpandsAt (ws : Workspace) (globals : Bindings Text) (i : Nat) (raw : Text)
    (r : Except ExpansionError Text) : Prop :=
  ∃ m, resolveGlobals ws (globals.take i) = .ok m ∧ Template.expand ws m raw = r

theorem ExpandsAt.of_take {j : Nat} {r : Except ExpansionError Text} (hj : j ≤ i)
    (h : ExpandsAt ws (globals.take i) j raw r) : ExpandsAt ws globals j raw r := by
  rwa [ExpandsAt, Bindings.take_take hj] at h

/-- The first globals of a successful resolution can be resolved. -/
theorem exists_resolveGlobals_take (h : resolveGlobals ws globals = .ok ns) (i : Nat) :
    ∃ m, resolveGlobals ws (globals.take i) = .ok m := by
  rw [resolveGlobals, ← List.take_append_drop i globals.entries,
    Outcome.foldlM_append_eq_ok_iff] at h
  obtain ⟨m, hm, -⟩ := h
  exact ⟨m, hm⟩

/-- An error of the first globals is the error of all. -/
theorem resolveGlobals_of_take_error (h : resolveGlobals ws (globals.take i) = .error e) :
    resolveGlobals ws globals = .error e := by
  rw [resolveGlobals, ← List.take_append_drop i globals.entries, Outcome.foldlM_append_eq_error_iff]
  exact Or.inl h

/-- **A definition is its template, expanded against the definitions before it.** -/
theorem exists_definition (h : resolveGlobals ws globals = .ok ns)
    (hi : globals.entries[i]? = some (key, raw)) :
    ∃ v, ExpandsAt ws globals i raw (.ok v) ∧ ns.entries[i]? = some (key, v) := by
  obtain ⟨m, hm⟩ := exists_resolveGlobals_take h i
  obtain ⟨hrest, hkeys, hnodup⟩ := run_drop_of_take h hm
  rw [Bindings.drop_entries hi] at hrest hnodup
  rw [List.foldlM_cons, Outcome.bind_eq_ok_iff] at hrest
  obtain ⟨m', hstep, hafter⟩ := hrest
  obtain ⟨v, hv, rfl⟩ := addGlobal_eq_ok_iff.mp hstep
  refine ⟨v, ⟨m, hm, hv⟩, ?_⟩
  -- the definition goes behind the first `i`, and all others behind it
  have hnew : key ∉ m.keys := fun hmem =>
    (List.nodup_append.mp hnodup).2.2 key hmem key List.mem_cons_self rfl
  have hnodup' : ((m.insert key v).keys ++ (globals.entries.drop (i + 1)).map Prod.fst).Nodup := by
    rw [Bindings.keys_insert, if_neg hnew, List.append_assoc]
    exact hnodup
  obtain ⟨added, hadded, -⟩ := exists_entries_run hnodup' hafter
  have hlength : m.entries.length = i := by
    have hlen := congrArg List.length hkeys
    rw [Bindings.keys, List.length_map, List.length_map, List.length_take] at hlen
    have hlt := (List.getElem?_eq_some_iff.mp hi).1
    omega
  rw [hadded, Bindings.entries_insert_of_not_mem hnew, List.append_assoc, ← hlength,
    List.getElem?_append_right (Nat.le_refl _), Nat.sub_self]
  rfl

/-- **The first definitions are those of the first globals**, whatever stands behind these. -/
theorem take_definitions_congr {globals' : Bindings Text} {ns' : Namespace}
    (hsame : globals'.entries.take i = globals.entries.take i)
    (h : resolveGlobals ws globals = .ok ns)
    (h' : resolveGlobals ws globals' = .ok ns') : ns'.entries.take i = ns.entries.take i := by
  obtain ⟨m, hm⟩ := exists_resolveGlobals_take h i
  have hm' : resolveGlobals ws (globals'.take i) = .ok m := by rwa [Bindings.take_congr hsame]
  rw [← entries_resolveGlobals_take h hm, ← entries_resolveGlobals_take h' hm']

/-- **The first global that can not be expanded is the error.** -/
theorem resolveGlobals_eq_error_iff :
    resolveGlobals ws globals = .error e ↔
      ∃ i key raw cause, globals.entries[i]? = some (key, raw) ∧
        ExpandsAt ws globals i raw (.error cause) ∧ e = .template key cause := by
  constructor
  · intro h
    obtain ⟨before, ⟨key, raw⟩, after, m, hsplit, hm, hstep⟩ :=
      Outcome.foldlM_eq_error_iff_exists.mp h
    obtain ⟨cause, hcause, rfl⟩ := addGlobal_eq_error_iff.mp hstep
    have htake : (globals.take before.length).entries = before := by
      show globals.entries.take before.length = before
      rw [hsplit, List.take_left]
    refine ⟨before.length, key, raw, cause, ?_, ⟨m, ?_, hcause⟩, rfl⟩
    · rw [hsplit, List.getElem?_append_right (Nat.le_refl _), Nat.sub_self]
      rfl
    · rwa [resolveGlobals, htake]
  · rintro ⟨i, key, raw, cause, hi, ⟨m, hm, hcause⟩, rfl⟩
    refine Outcome.foldlM_eq_error_iff_exists.mpr
      ⟨globals.entries.take i, (key, raw), globals.entries.drop (i + 1), m, ?_, hm,
        addGlobal_eq_error_iff.mpr ⟨cause, hcause, rfl⟩⟩
    rw [← Bindings.drop_entries hi, List.take_append_drop]

/-- **Globals are resolved strictly in order.** If that succeeds, the definitions have the names of
the globals, in their places, and each value is the template expanded against the definitions before
it. Globals that begin alike have definitions that begin alike, or fail alike. If it fails, then at
the first global that can not be expanded against the definitions before it, and with that error. -/
theorem resolveGlobals_in_order (ws : Workspace) (globals : Bindings Text) :
    (∀ ns, resolveGlobals ws globals = .ok ns →
      ns.keys = globals.keys ∧
      ∀ i key raw, globals.entries[i]? = some (key, raw) →
        ∃ v, ExpandsAt ws globals i raw (.ok v) ∧ ns.entries[i]? = some (key, v)) ∧
    (∀ (globals' : Bindings Text) (i : Nat), globals'.entries.take i = globals.entries.take i →
      (∀ ns ns', resolveGlobals ws globals = .ok ns → resolveGlobals ws globals' = .ok ns' →
        ns'.entries.take i = ns.entries.take i) ∧
      ∀ e, resolveGlobals ws (globals.take i) = .error e →
        resolveGlobals ws globals = .error e ∧ resolveGlobals ws globals' = .error e) ∧
    ∀ e, resolveGlobals ws globals = .error e ↔
      ∃ i key raw cause, globals.entries[i]? = some (key, raw) ∧
        (∀ j key' raw', j < i → globals.entries[j]? = some (key', raw') →
          ∃ v, ExpandsAt ws globals j raw' (.ok v)) ∧
        ExpandsAt ws globals i raw (.error cause) ∧ e = .template key cause := by
  refine ⟨fun ns h => ⟨keys_resolveGlobals h, fun i key raw hi => exists_definition h hi⟩,
    fun globals' i hsame => ⟨fun ns ns' h h' => take_definitions_congr hsame h h', fun e h => ?_⟩,
    fun e => ⟨fun h => ?_, ?_⟩⟩
  · exact ⟨resolveGlobals_of_take_error h,
      resolveGlobals_of_take_error (by rwa [Bindings.take_congr hsame])⟩
  · obtain ⟨i, key, raw, cause, hi, hfault, rfl⟩ := resolveGlobals_eq_error_iff.mp h
    refine ⟨i, key, raw, cause, hi, fun j key' raw' hj hentry => ?_, hfault, rfl⟩
    obtain ⟨m, hm, -⟩ := hfault
    have hentry' : (globals.take i).entries[j]? = some (key', raw') := by
      rw [Bindings.take, List.getElem?_take_of_lt hj, hentry]
    obtain ⟨v, hv, -⟩ := exists_definition hm hentry'
    exact ⟨v, hv.of_take (Nat.le_of_lt hj)⟩
  · rintro ⟨i, key, raw, cause, hi, -, hfault, rfl⟩
    exact resolveGlobals_eq_error_iff.mpr ⟨i, key, raw, cause, hi, hfault, rfl⟩

/-- Globals of which one mentions the one before it, itself and the one behind it, and bears the
name of a function. -/
def overshadowing (last : Text) : Bindings Text :=
  Bindings.ofList [("src", "a.c"), ("dir", "${dir:src}${dir} ${out}"), ("out", last)]

/-- A global sees those before it, also as an argument, and neither itself nor those behind it. It
hides a function of its name from those behind it. -/
theorem resolveGlobals_in_order_overshadowing :
    (∃ ns, resolveGlobals ⟨.empty, [], "/", "t"⟩ (overshadowing "${suffix:src}") = .ok ns ∧
      ∃ v, ExpandsAt ⟨.empty, [], "/", "t"⟩ (overshadowing "${suffix:src}") 1
          "${dir:src}${dir} ${out}" (.ok v) ∧
        v = "./${dir} ${out}" ∧ ns.get? "dir" = some v) ∧
    resolveGlobals ⟨.empty, [], "/", "t"⟩ (overshadowing "${dir:src}")
      = .error (.template "out" (.notCallable "dir")) ∧
    ∃ i raw, ExpandsAt ⟨.empty, [], "/", "t"⟩ (overshadowing "${dir:src}") i raw
      (.error (.notCallable "dir")) := by
  constructor
  · have h : resolveGlobals ⟨.empty, [], "/", "t"⟩ (overshadowing "${suffix:src}") = .ok _ := rfl
    obtain ⟨-, hentries⟩ := (resolveGlobals_in_order _ _).1 _ h
    obtain ⟨v, hv, hentry⟩ := hentries 1 "dir" "${dir:src}${dir} ${out}" rfl
    have hvalue : v = "./${dir} ${out}" := by
      cases hentry
      rfl
    exact ⟨_, h, v, hv, hvalue, Bindings.mem_entries_iff.mp (List.mem_of_getElem? hentry)⟩
  · have h : resolveGlobals ⟨.empty, [], "/", "t"⟩ (overshadowing "${dir:src}")
        = .error (.template "out" (.notCallable "dir")) := rfl
    obtain ⟨i, key, raw, cause, -, -, hfault, heq⟩ := ((resolveGlobals_in_order _ _).2.2 _).mp h
    cases heq
    exact ⟨h, i, raw, hfault⟩

end Resolution

end BuildPlan
