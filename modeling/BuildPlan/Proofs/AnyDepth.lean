import Mathlib.Data.List.Basic
import BuildPlan.Proofs.TemporaryDirectory
import BuildPlan.Wildcard.Expansion

/-!
# Walks of any depth

A component `**` finds what is below a place on as many levels as the tree has. Deeper it would find
nothing (`below_eq_of_levels_le`): each step down goes to an entry of the tree that is one level
deeper, since the path that is shown for it leads there or nowhere (`StandsAt`).
-/

namespace BuildPlan

namespace FileTree

variable {t : FileTree} {loc : Location} {entry : Entry}

/-- Every entry of a tree lies on one of its levels. -/
theorem length_lt_levels (h : (loc, entry) ∈ t.entries) : loc.length < t.levels :=
  (le_foldl_max _ 0).2 _ (List.mem_map.mpr ⟨(loc, entry), h, rfl⟩)

theorem mem_below_iff {names : Location} :
    (names, entry) ∈ t.below loc ↔ names ≠ [] ∧ (loc ++ names, entry) ∈ t.entries := by
  simp only [below, List.mem_filterMap]
  constructor
  · rintro ⟨⟨l, e⟩, hentry, h⟩
    obtain ⟨hbelow, h⟩ := Option.ite_none_right_eq_some.mp h
    rw [Bool.and_eq_true_iff, List.isPrefixOf_iff_prefix, decide_eq_true_iff] at hbelow
    obtain ⟨⟨further, rfl⟩, hlength⟩ := hbelow
    rw [List.drop_left, Option.some.injEq, Prod.mk.injEq] at h
    obtain ⟨rfl, rfl⟩ := h
    refine ⟨?_, hentry⟩
    rintro rfl
    simp at hlength
  · rintro ⟨hne, hentry⟩
    refine ⟨(loc ++ names, entry), hentry, ?_⟩
    simp [List.length_pos_iff, hne]

end FileTree

namespace Workspace

variable {ws : Workspace} {path : Text} {loc : Location} {name : FileName}

/-- What is listed is in the directory to which the path leads. -/
theorem mem_entries_of_mem_list {listed : List (FileName × Bool)} (h : ws.list path = .ok listed)
    {isDirectory : Bool} (hmem : (name, isDirectory) ∈ listed) :
    ∃ loc entry, ws.resolve path = .ok loc ∧ (loc ++ [name], entry) ∈ ws.tree.entries := by
  obtain ⟨loc, hloc, h⟩ := Outcome.bind_eq_ok_iff.mp h
  simp only [Outcome.guard_eq_ok_iff, Outcome.pure_eq_ok_iff] at h
  obtain ⟨-, -, rfl⟩ := h
  obtain ⟨⟨names, entry⟩, hbelow, hname⟩ := List.mem_filterMap.mp hmem
  refine ⟨loc, entry, hloc, ?_⟩
  split at hname
  · rename_i other hsingle
    obtain rfl : other = name := congrArg Prod.fst (Option.some.inj hname)
    obtain rfl : names = [other] := hsingle
    exact (FileTree.mem_below_iff.mp hbelow).2
  · cases hname

/-- A walk along a name goes into the entry of that name. -/
theorem eq_of_walk_name {found : Location}
    (h : walk ws.tree loc [PathStep.ofPiece name.text] = .ok found) : found = loc ++ [name] := by
  rw [ofPiece_eq_into_iff.mpr rfl, walk_cons_eq_ok_iff] at h
  obtain ⟨-, -, next, ⟨-, -, rfl⟩, hend⟩ := h
  exact (Except.ok.inj hend).symm

/-- A name joined to a path leads into the entry of that name. -/
theorem eq_of_resolve_joinPath (hloc : ws.resolve path = .ok loc) {found : Location}
    (hfound : ws.resolve (joinPath path name.text) = .ok found) : found = loc ++ [name] := by
  obtain ⟨hcheck, hwalk⟩ := resolve_eq_ok_iff.mp hloc
  obtain ⟨-, hfound⟩ := resolve_eq_ok_iff.mp hfound
  have hne := ne_nil_of_checkPath hcheck
  have hstart : ws.start (joinPath path name.text) = ws.start path := by
    obtain ⟨further, hfurther⟩ := isPrefix_joinPath hne name.text
    rw [start, start, ← hfurther, isAbsolute, isAbsolute, List.head?_append_of_ne_nil _ hne]
  obtain ⟨front, hjoin, hfront⟩ := exists_joinPath hne name.text
  rw [hstart, hjoin, List.splitOn_append_cons_self, List.map_append, walk_append_eq_ok_iff,
    List.splitOn_eq_singleton name.proper.2.1] at hfound
  obtain ⟨mid, hmid, hlast⟩ := hfound
  obtain rfl : loc = mid := Except.ok.inj ((walk_front hfront hwalk).symm.trans hmid)
  exact eq_of_walk_name hlast

end Workspace

namespace Wildcard.Place

variable {ws : Workspace} {p next : Place} {loc : Location} {name : FileName}

/-- A path of dots leads to the working directory. -/
theorem eq_cwd_of_isHere (hhere : p.isHere = true) (hloc : ws.resolve p.shown = .ok loc) :
    loc = ws.cwd := by
  obtain ⟨-, hwalk⟩ := Workspace.resolve_eq_ok_iff.mp hloc
  have hjoin : ['/'].intercalate (p.shown.splitOn '/') = p.shown := List.intercalate_splitOn '/'
  unfold isHere at hhere
  split at hhere
  · cases hhere
  · rename_i first rest hsplit
    rw [Bool.and_eq_true_iff, beq_iff_eq, List.all_eq_true] at hhere
    obtain ⟨rfl, hidle⟩ := hhere
    have hrelative : ¬isAbsolute p.shown = true := by
      rw [← hjoin, hsplit, isAbsolute_intercalate (by decide)]
      simp
    rw [Workspace.start, if_neg hrelative, hsplit] at hwalk
    exact Workspace.eq_of_walk_idle (List.forall_mem_cons.mpr ⟨rfl, hidle⟩) hwalk

/-- **The path of an entry leads to the entry**, if it leads anywhere. -/
theorem eq_of_resolve_showNext (hloc : ws.resolve p.shown = .ok loc) {found : Location}
    (hfound : ws.resolve (p.showNext name.text) = .ok found) : found = loc ++ [name] := by
  unfold showNext at hfound
  split at hfound
  · rename_i hhere
    obtain rfl := eq_cwd_of_isHere hhere hloc
    obtain ⟨-, hwalk⟩ := Workspace.resolve_eq_ok_iff.mp hfound
    have hrelative : ¬isAbsolute name.text = true := fun habs =>
      name.proper.2.1 (List.mem_of_head? (beq_iff_eq.mp habs))
    rw [Workspace.start, if_neg hrelative, List.splitOn_eq_singleton name.proper.2.1] at hwalk
    exact Workspace.eq_of_walk_name hwalk
  · exact Workspace.eq_of_resolve_joinPath hloc hfound

/-! ## Where a walk goes -/

/-- A place that a walk may reach: one that a path leads to, or an entry of such a directory. -/
inductive Reached (ws : Workspace) : Place → Prop
  | path (path : Text) : Reached ws (ofPath ws path)
  | entry {p : Place} {found : List (FileName × Place)} {name : FileName} {next : Place} :
      Reached ws p → p.isDirectory = true → p.entries ws = .ok found → (name, next) ∈ found →
      Reached ws next

/-- **A place stands at a location** of the tree: the shown path leads nowhere else. -/
structure StandsAt (ws : Workspace) (p : Place) (loc : Location) : Prop where
  there : ∃ entry, (loc, entry) ∈ ws.tree.entries
  leads : ∀ found, ws.resolve p.shown = .ok found → found = loc

theorem exists_standsAt_ofPath {path : Text} (h : (ofPath ws path).isDirectory = true) :
    ∃ loc, (ofPath ws path).StandsAt ws loc := by
  change ws.leadsToDirectory path = true at h
  unfold Workspace.leadsToDirectory at h
  split at h
  · rename_i loc hloc
    obtain ⟨entry, hentry, -⟩ := (Option.any_eq_true ..).mp h
    refine ⟨loc, ⟨entry, FileTree.mem_of_find? hentry⟩, fun found hfound => ?_⟩
    exact Except.ok.inj (hfound.symm.trans hloc)
  · cases h

/-- **One step down.** -/
theorem standsAt_of_mem_entries (h : p.StandsAt ws loc) {found : List (FileName × Place)}
    (hentries : p.entries ws = .ok found) (hmem : (name, next) ∈ found) :
    next.StandsAt ws (loc ++ [name]) := by
  unfold entries at hentries
  split at hentries
  · cases hentries
  · rename_i listed hlisted
    cases hentries
    obtain ⟨⟨name', isDirectory⟩, hlist, heq⟩ := List.mem_map.mp hmem
    obtain ⟨rfl, rfl⟩ := Prod.mk.inj heq
    obtain ⟨there, entry, hthere, hentry⟩ :=
      Workspace.mem_entries_of_mem_list hlisted (List.mem_filter.mp hlist).1
    obtain rfl := h.leads there hthere
    exact ⟨⟨entry, hentry⟩, fun found => eq_of_resolve_showNext hthere⟩

/-- **A directory that a walk reaches stands somewhere in the tree.** -/
theorem Reached.exists_standsAt (h : Reached ws p) (hdir : p.isDirectory = true) :
    ∃ loc, p.StandsAt ws loc := by
  induction h with
  | path path => exact exists_standsAt_ofPath hdir
  | entry _ hparent hentries hmem ih =>
    obtain ⟨loc, hloc⟩ := ih hparent
    exact ⟨_, standsAt_of_mem_entries hloc hentries hmem⟩

/-! ## How deep it goes -/

/-- Below a place so deep that the tree has no more levels, one level more makes no difference. -/
theorem below_succ {n : Nat} (h : p.isDirectory = true →
    ∃ loc, p.StandsAt ws loc ∧ ws.tree.levels ≤ loc.length + n) :
    p.below ws (n + 1) = p.below ws n := by
  induction n generalizing p with
  | zero =>
    cases hdir : p.isDirectory with
    | false => simp [below, hdir]
    | true =>
      obtain ⟨loc, ⟨⟨entry, hentry⟩, -⟩, hlevels⟩ := h hdir
      exact absurd (FileTree.length_lt_levels hentry) (Nat.not_lt.mpr hlevels)
  | succ n ih =>
    rw [below, below]
    split
    · rename_i hdir
      obtain ⟨loc, hloc, hlevels⟩ := h hdir
      cases hentries : p.entries ws with
      | error unreadable => rfl
      | ok found =>
        refine List.flatMap_congr fun ⟨name, next⟩ hmem => ?_
        have hlevels' : ws.tree.levels ≤ (loc ++ [name]).length + n := by
          rw [List.length_append, List.length_singleton]
          omega
        exact congrArg (.ok (name, next) :: ·)
          (ih fun _ => ⟨_, standsAt_of_mem_entries hloc hentries hmem, hlevels'⟩)
    · rfl

/-- **As many levels as the tree has are all levels.** Below any place that a walk may reach, `**`
finds no more by going deeper. -/
theorem below_eq_of_levels_le (h : Reached ws p) {n : Nat} (hn : ws.tree.levels ≤ n) :
    p.below ws n = p.below ws ws.tree.levels := by
  induction hn with
  | refl => rfl
  | step hle ih =>
    rw [← ih]
    refine below_succ fun hdir => ?_
    obtain ⟨loc, hloc⟩ := h.exists_standsAt hdir
    exact ⟨loc, hloc, Nat.le_add_left_of_le hle⟩

end Wildcard.Place

end BuildPlan
