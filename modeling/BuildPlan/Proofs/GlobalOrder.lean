import Mathlib.Data.List.Nodup
import BuildPlan.Proofs.BindingOrder
import BuildPlan.Proofs.Mentions
import BuildPlan.Resolution.Globals

/-!
# The order of globals

Globals are expanded one after the other, but the order of two of them matters only if one mentions
the other. `resolveGlobals_reordered` says so for every reordering that keeps such pairs in order.

The argument compares one run with the values of the other and needs no exchange of neighbours. In a
successful run each global was expanded against the values of those before it (`expand_of_run`).
A template reads only what it mentions, and of what it mentions the same globals come before it in
both orders (`mem_before_iff`), so it gives the same value in the other run (`run_of_values`).
-/

namespace BuildPlan

/-! ## Pairs in order -/

/-- In a list without repetitions the elements before `e` are those that form a pair with it. -/
theorem pair_sublist_iff {α : Type} {d e : α} {before after : List α}
    (h : (before ++ e :: after).Nodup) : [d, e].Sublist (before ++ e :: after) ↔ d ∈ before := by
  obtain ⟨-, hafter, hdisj⟩ := List.nodup_append.mp h
  have hnot : e ∉ after := (List.nodup_cons.mp hafter).1
  constructor
  · intro hsub
    obtain ⟨front, back, heq, hfront, hback⟩ := List.cons_sublist_iff.mp hsub
    have he : e ∈ back := List.singleton_sublist.mp hback
    -- the only `e` stands behind `before`, so what comes in front of it is part of `before`
    rcases List.append_eq_append_iff.mp heq with ⟨more, rfl, hmore⟩ | ⟨more, rfl, hmore⟩
    · cases more with
      | nil => simpa using hfront
      | cons c more =>
        rw [List.cons_append, List.cons.injEq] at hmore
        exact absurd (hmore.2 ▸ List.mem_append_right more he) hnot
    · exact List.mem_append_left more hfront
  · intro hd
    exact (List.singleton_sublist.mpr hd).append (List.singleton_sublist.mpr List.mem_cons_self)

theorem pair_sublist_or {α : Type} {d e : α} {l : List α} (hd : d ∈ l) (he : e ∈ l) (hne : d ≠ e) :
    [d, e].Sublist l ∨ [e, d].Sublist l := by
  obtain ⟨before, after, rfl⟩ := List.append_of_mem he
  rcases List.mem_append.mp hd with hd | hd
  · exact Or.inl ((List.singleton_sublist.mpr hd).append
      (List.singleton_sublist.mpr List.mem_cons_self))
  · have hd : d ∈ after := (List.mem_cons.mp hd).resolve_left hne
    exact Or.inr (List.sublist_append_of_sublist_right
      ((List.singleton_sublist.mpr hd).cons_cons e))

namespace Resolution

/-- One of the two globals mentions the other. -/
def Linked (d e : Text × Text) : Prop :=
  Template.Mentions d.2 e.1 ∨ Template.Mentions e.2 d.1

instance (d e : Text × Text) : Decidable (Linked d e) := inferInstanceAs (Decidable (_ ∨ _))

theorem Linked.symm {d e : Text × Text} (h : Linked d e) : Linked e d := Or.symm h

/-- Whatever stands in order in the first list and is linked stands in order in the second. -/
def KeepsLinks (l l' : List (Text × Text)) : Prop :=
  ∀ d e, Linked d e → [d, e].Sublist l → [d, e].Sublist l'

/-- Only the pairs of the first list have to be looked at. -/
theorem keepsLinks_iff {l l' : List (Text × Text)} :
    KeepsLinks l l' ↔
      ∀ d ∈ l, ∀ e ∈ l, Linked d e → [d, e].Sublist l → [d, e].Sublist l' := by
  constructor
  · intro h d _ e _
    exact h d e
  · intro h d e hlink hsub
    exact h d (hsub.subset (by simp)) e (hsub.subset (by simp)) hlink hsub

instance (l l' : List (Text × Text)) : Decidable (KeepsLinks l l') :=
  decidable_of_iff _ keepsLinks_iff.symm

variable {ws : Workspace} {l l' before after : List (Text × Text)} {ns m : Namespace}

theorem KeepsLinks.symm (hperm : l.Perm l') (hnodup : l.Nodup) (h : KeepsLinks l l') :
    KeepsLinks l' l := by
  intro d e hlink hsub
  have hd : d ∈ l := hperm.mem_iff.mpr (hsub.subset (by simp))
  have he : e ∈ l := hperm.mem_iff.mpr (hsub.subset (by simp))
  have hne : d ≠ e := by
    have := (hsub.nodup (hperm.nodup_iff.mp hnodup))
    simpa using this
  rcases pair_sublist_or hd he hne with hde | hed
  · exact hde
  · -- in the other order the pair would stand in both orders in the second list
    have hback := h e d hlink.symm hed
    obtain ⟨before, after, rfl⟩ := List.append_of_mem (hperm.mem_iff.mp he)
    have hnodup' := hperm.nodup_iff.mp hnodup
    have hbefore : d ∈ before := (pair_sublist_iff hnodup').mp hsub
    obtain ⟨front, rest, rfl⟩ := List.append_of_mem hbefore
    rw [List.append_assoc, List.cons_append] at hback hnodup'
    have hfront : e ∈ front := (pair_sublist_iff hnodup').mp hback
    have hdisj := (List.nodup_append.mp hnodup').2.2 e hfront e (by simp)
    exact absurd rfl hdisj

/-- **Of what a global mentions, the same globals come before it in both orders.** -/
theorem mem_before_iff {before' after' : List (Text × Text)} {e : Text × Text} {key : Text}
    (hnodup : (before ++ e :: after).Nodup) (hnodup' : (before' ++ e :: after').Nodup)
    (h : KeepsLinks (before ++ e :: after) (before' ++ e :: after'))
    (h' : KeepsLinks (before' ++ e :: after') (before ++ e :: after))
    (hkey : Template.Mentions e.2 key) :
    key ∈ before.map Prod.fst ↔ key ∈ before'.map Prod.fst := by
  constructor
  · intro hm
    obtain ⟨d, hd, rfl⟩ := List.mem_map.mp hm
    have hsub := h d e (Or.inr hkey) ((pair_sublist_iff hnodup).mpr hd)
    exact List.mem_map.mpr ⟨d, (pair_sublist_iff hnodup').mp hsub, rfl⟩
  · intro hm
    obtain ⟨d, hd, rfl⟩ := List.mem_map.mp hm
    have hsub := h' d e (Or.inr hkey) ((pair_sublist_iff hnodup').mpr hd)
    exact List.mem_map.mpr ⟨d, (pair_sublist_iff hnodup).mp hsub, rfl⟩

/-! ## One run -/

theorem addGlobal_eq_ok_iff {ns' : Namespace} {g : Text × Text} :
    addGlobal ws ns g = .ok ns' ↔
      ∃ v, Template.expand ws ns g.2 = .ok v ∧ ns.insert g.1 v = ns' := by
  unfold addGlobal
  cases Template.expand ws ns g.2 with
  | error e => simp
  | ok v => simp

/-- A run binds the names of its globals and no others. -/
theorem get?_run_of_not_mem {key : Text} (hkey : key ∉ l.map Prod.fst)
    (h : l.foldlM (addGlobal ws) m = .ok ns) : ns.get? key = m.get? key := by
  refine Outcome.run_invariant
    (fun done ns => key ∉ done.map Prod.fst → ns.get? key = m.get? key) (fun _ => rfl) ?_ h hkey
  intro done g s t hs hstep hnot
  obtain ⟨v, -, rfl⟩ := addGlobal_eq_ok_iff.mp hstep
  rw [List.map_append, List.mem_append, not_or, List.map_singleton, List.mem_singleton] at hnot
  rw [Bindings.get?_insert_of_ne hnot.2, hs hnot.1]

/-- The namespace has the values of `ns` under the names of `l`, and nothing else. -/
def HasValues (ns : Namespace) (l : List (Text × Text)) (m : Namespace) : Prop :=
  ∀ key, m.get? key = if key ∈ l.map Prod.fst then ns.get? key else none

/-- **In a successful run each global is expanded against the values of those before it.** -/
theorem expand_of_run {e : Text × Text} (hnodup : ((before ++ e :: after).map Prod.fst).Nodup)
    (h : (before ++ e :: after).foldlM (addGlobal ws) .empty = .ok ns) :
    ∃ m v, HasValues ns before m ∧ Template.expand ws m e.2 = .ok v ∧ ns.get? e.1 = some v := by
  obtain ⟨m, hm, hrest⟩ := Outcome.foldlM_append_eq_ok_iff.mp h
  rw [List.foldlM_cons, Outcome.bind_eq_ok_iff] at hrest
  obtain ⟨m', hstep, hafter⟩ := hrest
  obtain ⟨v, hv, rfl⟩ := addGlobal_eq_ok_iff.mp hstep
  rw [List.map_append, List.map_cons] at hnodup
  obtain ⟨-, hnodup', hdisj⟩ := List.nodup_append.mp hnodup
  refine ⟨m, v, ?_, hv, ?_⟩
  · intro key
    by_cases hkey : key ∈ before.map Prod.fst
    · have hne : key ≠ e.1 := hdisj key hkey e.1 List.mem_cons_self
      have hlater : key ∉ after.map Prod.fst := fun hm =>
        hdisj key hkey key (List.mem_cons_of_mem _ hm) rfl
      rw [if_pos hkey, get?_run_of_not_mem hlater hafter, Bindings.get?_insert_of_ne hne]
    · rw [if_neg hkey, get?_run_of_not_mem hkey hm, Bindings.get?_empty]
  · rw [get?_run_of_not_mem (List.nodup_cons.mp hnodup').1 hafter, Bindings.get?_insert_self]

/-! ## The other run -/

/-- **The values of one run are those of the other**, as far as it has gone and to its end. -/
theorem run_of_values (hnodup : (l.map Prod.fst).Nodup) (hperm : l.Perm l')
    (hkeeps : KeepsLinks l l')
    (h : l.foldlM (addGlobal ws) .empty = .ok ns) {done rest : List (Text × Text)}
    (hl' : l' = done ++ rest) (hm : HasValues ns done m) :
    ∃ ns', rest.foldlM (addGlobal ws) m = .ok ns' ∧ HasValues ns l' ns' := by
  have hentries : l.Nodup := List.Nodup.of_map Prod.fst hnodup
  induction rest generalizing done m with
  | nil =>
    rw [List.append_nil] at hl'
    rw [hl']
    exact ⟨m, List.foldlM_nil, hm⟩
  | cons e rest ih =>
    have he : e ∈ l := hperm.mem_iff.mpr (by rw [hl']; simp)
    obtain ⟨before, after, hl⟩ := List.append_of_mem he
    rw [hl] at hnodup h
    obtain ⟨m₀, v, hm₀, hv, hget⟩ := expand_of_run hnodup h
    -- what `e` mentions is bound alike in both runs when `e` is expanded
    have hsame : Template.expand ws m e.2 = Template.expand ws m₀ e.2 := by
      refine Template.expand_congr fun key hkey => ?_
      have hback := hkeeps.symm hperm hentries
      have hnodup' := hperm.nodup_iff.mp hentries
      rw [hl] at hentries hkeeps hback
      rw [hl'] at hkeeps hback hnodup'
      have hiff := mem_before_iff hentries hnodup' hkeeps hback hkey
      rw [hm key, hm₀ key]
      simp only [hiff]
    have hstep : addGlobal ws m e = .ok (m.insert e.1 v) :=
      addGlobal_eq_ok_iff.mpr ⟨v, hsame.trans hv, rfl⟩
    have hnext : HasValues ns (done ++ [e]) (m.insert e.1 v) := by
      intro key
      rw [Bindings.get?_insert]
      by_cases hkey : key = e.1
      · rw [if_pos hkey, hkey, hget]
        simp
      · have hiff : key ∈ (done ++ [e]).map Prod.fst ↔ key ∈ done.map Prod.fst := by
          rw [List.map_append, List.mem_append, List.map_singleton, List.mem_singleton]
          exact or_iff_left hkey
        rw [if_neg hkey, hm key]
        simp only [hiff]
    obtain ⟨ns', hns', hvalues⟩ := ih (by rw [hl', List.append_assoc]; rfl) hnext
    refine ⟨ns', ?_, hvalues⟩
    rw [List.foldlM_cons, Outcome.bind_eq_ok_iff]
    exact ⟨_, hstep, hns'⟩

theorem run_of_perm (hnodup : (l.map Prod.fst).Nodup) (hperm : l.Perm l') (hkeeps : KeepsLinks l l')
    (h : l.foldlM (addGlobal ws) .empty = .ok ns) :
    ∃ ns', l'.foldlM (addGlobal ws) .empty = .ok ns' ∧ ns.SameLookups ns' := by
  obtain ⟨ns', hns', hvalues⟩ := run_of_values hnodup hperm hkeeps h (m := .empty)
    (List.nil_append l').symm (fun _ => rfl)
  refine ⟨ns', hns', fun key => ?_⟩
  rw [hvalues key]
  by_cases hkey : key ∈ l'.map Prod.fst
  · rw [if_pos hkey]
  · have hnot : key ∉ l.map Prod.fst := fun hm => hkey ((hperm.map Prod.fst).mem_iff.mp hm)
    rw [if_neg hkey, get?_run_of_not_mem hnot h, Bindings.get?_empty]

/-- **Globals may be reordered as long as linked ones keep their order.** Both orders fail, or both
succeed and bind every name to the same value. -/
theorem resolveGlobals_reordered {globals globals' : Bindings Text}
    (hperm : globals.entries.Perm globals'.entries)
    (hkeeps : KeepsLinks globals.entries globals'.entries) :
    ((∃ ns, resolveGlobals ws globals = .ok ns) ↔ ∃ ns', resolveGlobals ws globals' = .ok ns') ∧
      ∀ ns ns', resolveGlobals ws globals = .ok ns → resolveGlobals ws globals' = .ok ns' →
        ∀ key, ns.get? key = ns'.get? key := by
  have hkeeps' : KeepsLinks globals'.entries globals.entries :=
    KeepsLinks.symm hperm (List.Nodup.of_map Prod.fst globals.nodup) hkeeps
  refine ⟨⟨?_, ?_⟩, ?_⟩
  · rintro ⟨ns, h⟩
    obtain ⟨ns', h', -⟩ := run_of_perm globals.nodup hperm hkeeps h
    exact ⟨ns', h'⟩
  · rintro ⟨ns', h'⟩
    obtain ⟨ns, h, -⟩ := run_of_perm globals'.nodup hperm.symm hkeeps' h'
    exact ⟨ns, h⟩
  · intro ns ns' h h'
    obtain ⟨ns'', h'', hsame⟩ := run_of_perm globals.nodup hperm hkeeps h
    have heq : Except.ok ns'' = Except.ok ns' := h''.symm.trans h'
    rw [Except.ok.injEq] at heq
    rw [← heq]
    exact hsame

/-- The command mentions a global before it, one after it, which stays as it is written, and a
function; the flags change places with both. -/
theorem resolveGlobals_reordered_command :
    ∃ ns ns',
      resolveGlobals ⟨.empty, [], "/", "t"⟩ (Bindings.ofList
        [("src", "lib/a.c"), ("flags", "-O2"), ("cmd", "${basename: src } ${mode}"), ("mode", "x")])
        = .ok ns ∧
      resolveGlobals ⟨.empty, [], "/", "t"⟩ (Bindings.ofList
        [("src", "lib/a.c"), ("cmd", "${basename: src } ${mode}"), ("mode", "x"), ("flags", "-O2")])
        = .ok ns' ∧
      ns'.get? "cmd" = some "lib/a ${mode}" ∧ ∀ key, ns.get? key = ns'.get? key := by
  have h : resolveGlobals ⟨.empty, [], "/", "t"⟩ (Bindings.ofList
      [("src", "lib/a.c"), ("flags", "-O2"), ("cmd", "${basename: src } ${mode}"), ("mode", "x")])
      = .ok _ := rfl
  have h' : resolveGlobals ⟨.empty, [], "/", "t"⟩ (Bindings.ofList
      [("src", "lib/a.c"), ("cmd", "${basename: src } ${mode}"), ("mode", "x"), ("flags", "-O2")])
      = .ok _ := rfl
  exact ⟨_, _, h, h', rfl,
    (resolveGlobals_reordered (by decide +kernel) (by decide +kernel)).2 _ _ h h'⟩

end Resolution

end BuildPlan
