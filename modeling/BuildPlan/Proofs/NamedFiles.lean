import BuildPlan.FileTree.Replace
import BuildPlan.Proofs.Cutting
import BuildPlan.Proofs.Outcome

/-!
# Paths that name a file

A file can be renamed onto a path if the path names a file, which is there or can be made
(`NamesFile`, `renameTarget_eq_ok_iff`). What a path names depends on the directories it leads
through and on nothing else: whoever walks along a path sees only directories on the way, so the
walk goes the same way in every tree that has the same ones (`walk_of_same_directories`).

So a file that is set where there is no directory comes in nobody's way. Paths lead to where they
led, or to that file, and then there was nothing before (`resolve_of_put`).
-/

namespace BuildPlan

/-! ## Trees -/

namespace FileTree

variable {t t' : FileTree} {loc : Location}

theorem isDirectory_congr (h : t'.get? loc = t.get? loc) :
    t'.isDirectory loc = t.isDirectory loc := by
  rw [isDirectory, isDirectory, h]

theorem allows_congr (h : t'.get? loc = t.get? loc) (may : Nat → Bool) :
    t'.allows may loc = t.allows may loc := by
  rw [allows, allows, h]

theorem contains_congr (h : t'.get? loc = t.get? loc) : t'.contains loc = t.contains loc := by
  rw [contains, contains, h]

theorem contains_of_get? {entry : Entry} (h : t.get? loc = some entry) : t.contains loc = true := by
  rw [contains, h, Option.isSome_some]

theorem isDirectory_of_get? (h : t.get? loc = none) : t.isDirectory loc = false := by
  rw [isDirectory, h, Option.any_none]

theorem isDirectory_of_allows {may : Nat → Bool} (h : t.allows may loc = true) :
    t.isDirectory loc = true := by
  unfold allows at h
  unfold isDirectory
  cases hentry : t.get? loc with
  | none => rw [hentry] at h; exact h
  | some entry =>
    rw [hentry, Option.any_some, Bool.and_eq_true] at h
    exact h.1

/-- A file where there is no directory makes no difference to directories. -/
theorem isDirectory_insert_file (h : t.isDirectory loc = false) (mode : Nat) (content : ByteArray)
    (l : Location) : (t.insert loc (.file mode content)).isDirectory l = t.isDirectory l := by
  by_cases hl : l = loc
  · rw [isDirectory, get?_insert, if_pos hl, hl, h]
    rfl
  · rw [isDirectory, get?_insert, if_neg hl]
    rfl

theorem get?_insert_of_isDirectory {l : Location} (h : t.isDirectory loc = false) (entry : Entry)
    (hl : t.isDirectory l = true) : (t.insert loc entry).get? l = t.get? l := by
  rw [get?_insert, if_neg]
  rintro rfl
  exact Bool.false_ne_true (h.symm.trans hl)

theorem put_put (loc : Location) (entry entry' : Entry) (l : List (Location × Entry)) :
    put loc entry' (put loc entry l) = put loc entry' l := by
  induction l with
  | nil => simp [put]
  | cons e rest ih =>
    obtain ⟨here, found⟩ := e
    by_cases h : here = loc
    · simp [put, h]
    · by_cases hb : Location.before loc here = true
      · simp [put, h, hb]
      · simp [put, h, hb, ih]

/-- The later of two entries at one location stays. -/
theorem insert_insert (t : FileTree) (loc : Location) (entry entry' : Entry) :
    (t.insert loc entry).insert loc entry' = t.insert loc entry' :=
  congrArg FileTree.mk (put_put loc entry entry' t.entries)

/-- What was set where there was nothing is moved by setting it elsewhere. -/
theorem move_insert {source : Location} (h : t.get? source = none) (target : Location)
    (entry : Entry) : (t.insert source entry).move source target = t.insert target entry := by
  rw [move, get?_insert, if_pos rfl]
  show ((t.insert source entry).erase source).insert target entry = t.insert target entry
  rw [erase_insert entry h]

end FileTree

namespace Workspace

/-! ## Walking along a path -/

section Walk

variable {t t' : FileTree} {loc target : Location} {step : PathStep} {steps : List PathStep}

/-- Where a step leads. An entry that is stepped into has to be there. -/
def Leads (t : FileTree) (loc : Location) : PathStep → Location → Prop
  | .slash, next => next = loc
  | .stay, next => next = loc
  | .up, next => next = loc.dropLast
  | .into name, next =>
    name.isTooLong = false ∧ t.contains (loc ++ [name]) = true ∧ next = loc ++ [name]

/-- **One step along a path** starts in a directory that may be searched, unless it is no step at
all. -/
theorem walk_cons_eq_ok_iff :
    walk t loc (step :: steps) = .ok target ↔
      t.isDirectory loc = true ∧ (step ≠ .slash → t.allows maySearch loc = true) ∧
        ∃ next, Leads t loc step next ∧ walk t next steps = .ok target := by
  conv => lhs; unfold walk
  cases hdir : t.isDirectory loc with
  | false => simp
  | true =>
    by_cases hsearch : step ≠ .slash → t.allows maySearch loc = true
    · have hgo : ¬(step ≠ .slash ∧ (!t.allows maySearch loc) = true) := by
        rintro ⟨hstep, hdenied⟩
        rw [hsearch hstep] at hdenied
        simp at hdenied
      rw [if_neg (by simp), if_neg hgo]
      cases step with
      | slash => simp [Leads]
      | stay => simp [Leads, hsearch (by simp)]
      | up => simp [Leads, hsearch (by simp)]
      | into name =>
        have hallowed : t.allows maySearch loc = true := hsearch (by simp)
        cases hlong : name.isTooLong with
        | true => simp [Leads, hlong]
        | false =>
          cases hthere : t.contains (loc ++ [name]) with
          | true => simp [Leads, hlong, hthere, hallowed]
          | false => simp [Leads, hlong, hthere]
    · have hdenied : step ≠ .slash ∧ (!t.allows maySearch loc) = true := by
        simpa using hsearch
      rw [if_neg (by simp), if_pos hdenied]
      constructor
      · intro h
        exact absurd h (by simp)
      · rintro ⟨-, h, -⟩
        exact absurd h hsearch

theorem walk_append_eq_ok_iff {before after : List PathStep} :
    walk t loc (before ++ after) = .ok target ↔
      ∃ mid, walk t loc before = .ok mid ∧ walk t mid after = .ok target := by
  induction before generalizing loc with
  | nil => simp [walk]
  | cons step before ih =>
    rw [List.cons_append, walk_cons_eq_ok_iff]
    simp only [walk_cons_eq_ok_iff, ih]
    constructor
    · rintro ⟨hdir, hsearch, next, hnext, mid, hmid, htarget⟩
      exact ⟨mid, ⟨hdir, hsearch, next, hnext, hmid⟩, htarget⟩
    · rintro ⟨mid, ⟨hdir, hsearch, next, hnext, hmid⟩, htarget⟩
      exact ⟨hdir, hsearch, next, hnext, mid, hmid, htarget⟩

/-- A walk that has come to a file ends there. -/
theorem eq_of_walk_file (hfile : t.isDirectory loc = false) (h : walk t loc steps = .ok target) :
    target = loc := by
  cases steps with
  | nil => exact (Except.ok.inj h).symm
  | cons step steps =>
    obtain ⟨hdir, -⟩ := walk_cons_eq_ok_iff.mp h
    exact absurd (hfile.symm.trans hdir) Bool.false_ne_true

/-- **A walk sees nothing but directories on its way**, so it goes the same way in a tree that has
them too, if that has what is at its end. -/
theorem walk_of_same_directories (hsame : ∀ l, t.isDirectory l = true → t'.get? l = t.get? l)
    (hend : t.contains target = true → t'.contains target = true)
    (h : walk t loc steps = .ok target) :
    walk t' loc steps = .ok target := by
  induction steps generalizing loc with
  | nil => exact h
  | cons step steps ih =>
    obtain ⟨hdir, hsearch, next, hnext, hrest⟩ := walk_cons_eq_ok_iff.mp h
    have hhere := hsame loc hdir
    refine walk_cons_eq_ok_iff.mpr ⟨?_, ?_, next, ?_, ih hrest⟩
    · rw [FileTree.isDirectory_congr hhere, hdir]
    · rw [FileTree.allows_congr hhere]
      exact hsearch
    · cases step with
      | slash => exact hnext
      | stay => exact hnext
      | up => exact hnext
      | into name =>
        obtain ⟨hlong, hthere, rfl⟩ := hnext
        refine ⟨hlong, ?_, rfl⟩
        -- the walk goes on from the entry if it is a directory, and ends there if it is a file
        cases hnextdir : t.isDirectory (loc ++ [name]) with
        | true =>
          rw [FileTree.contains_congr (hsame _ hnextdir)]
          exact hthere
        | false =>
          obtain rfl := eq_of_walk_file hnextdir hrest
          exact hend hthere

end Walk

/-! ## The target of a rename -/

variable {ws : Workspace} {path : Text} {target loc : Location} {name : FileName}

theorem resolve_eq_ok_iff :
    ws.resolve path = .ok target ↔
      checkPath path = .ok () ∧
        walk ws.tree (ws.start path) ((path.splitOn '/').map PathStep.ofPiece) = .ok target := by
  rw [resolve, Outcome.bind_eq_ok_iff]
  constructor
  · rintro ⟨⟨⟩, hcheck, hwalk⟩
    exact ⟨hcheck, hwalk⟩
  · rintro ⟨hcheck, hwalk⟩
    exact ⟨(), hcheck, hwalk⟩

theorem ne_nil_of_checkPath (h : checkPath path = .ok ()) : path ≠ [] := by
  rintro rfl
  exact absurd h nofun

/-- A step into an entry is written as the name of the entry. -/
theorem ofPiece_eq_into_iff {piece : Text} :
    PathStep.ofPiece piece = .into name ↔ piece = name.text := by
  constructor
  · intro h
    unfold PathStep.ofPiece FileName.ofText? at h
    by_cases hproper : piece ≠ [] ∧ '/' ∉ piece ∧ piece ≠ ['.'] ∧ piece ≠ ['.', '.']
    · rw [if_neg hproper.1, if_neg hproper.2.2.2, dif_pos hproper] at h
      rw [← PathStep.into.inj h]
    · rw [dif_neg hproper] at h
      split at h
      · cases h
      · split at h
        · cases h
        · cases h
  · rintro rfl
    obtain ⟨hne, -, -, hup⟩ := name.proper
    rw [PathStep.ofPiece, if_neg hne, if_neg hup, FileName.ofText?, dif_pos name.proper]

/-- **A path names a file**, which is there or can be made: its last piece is a name, the rest of it
leads to a directory that may be searched and changed, and no directory has that name there. -/
structure NamesFile (ws : Workspace) (path : Text) (loc : Location) (name : FileName) : Prop where
  leads : ∃ front, path.splitOn '/' = front ++ [name.text] ∧
    walk ws.tree (ws.start path) (front.map PathStep.ofPiece) = .ok loc
  searchable : ws.tree.allows maySearch loc = true
  writable : ws.tree.allows mayWrite loc = true
  short : name.isTooLong = false
  noDirectory : ws.tree.isDirectory (loc ++ [name]) = false

/-- **A file can be renamed onto a path** exactly if the path names a file. -/
theorem renameTarget_eq_ok_iff :
    ws.renameTarget path = .ok target ↔
      checkPath path = .ok () ∧
        ∃ loc name, NamesFile ws path loc name ∧ target = loc ++ [name] := by
  constructor
  · intro h
    obtain ⟨⟨⟩, hcheck, h⟩ := Outcome.bind_eq_ok_iff.mp h
    refine ⟨hcheck, ?_⟩
    split at h
    · exact absurd h nofun
    · rename_i last before hpieces
      obtain ⟨loc, hwalk, h⟩ := Outcome.bind_eq_ok_iff.mp h
      simp only [Outcome.guard_eq_ok_iff] at h
      obtain ⟨-, hsearch, h⟩ := h
      split at h
      · exact absurd h nofun
      · exact absurd h nofun
      · exact absurd h nofun
      · rename_i name hname
        simp only [Outcome.guard_eq_ok_iff, Outcome.pure_eq_ok_iff] at h
        obtain ⟨hlong, hslash, hwrite, hfile, rfl⟩ := h
        -- there is no slash at the end, so no piece is dropped there
        obtain ⟨front, piece, hsplit, hne⟩ := exists_splitOn_concat (ne_nil_of_checkPath hcheck)
          (by simpa using hslash)
        rw [hsplit, List.reverse_append, List.reverse_singleton, List.singleton_append,
          List.dropWhile_cons_of_neg (by simpa using hne), List.cons.injEq] at hpieces
        obtain ⟨rfl, rfl⟩ := hpieces
        rw [List.reverse_reverse] at hwalk
        rw [ofPiece_eq_into_iff.mp hname] at hsplit
        exact ⟨loc, name, ⟨⟨front, hsplit, hwalk⟩, by simpa using hsearch, by simpa using hwrite,
          by simpa using hlong, by simpa using hfile⟩, rfl⟩
  · rintro ⟨hcheck, loc, name, ⟨⟨front, hsplit, hwalk⟩, hsearch, hwrite, hlong, hfile⟩, rfl⟩
    obtain ⟨hne, hslash, -⟩ := name.proper
    have hpieces :
        (path.splitOn '/').reverse.dropWhile List.isEmpty = name.text :: front.reverse := by
      rw [hsplit, List.reverse_append, List.reverse_singleton, List.singleton_append,
        List.dropWhile_cons_of_neg (by simpa using hne)]
    have hlast : path.getLast? ≠ some '/' := by
      rw [getLast?_of_splitOn_concat hsplit hne]
      exact fun h => hslash (List.mem_of_getLast? h)
    refine Outcome.bind_eq_ok_iff.mpr ⟨(), hcheck, ?_⟩
    simp only [hpieces, List.reverse_reverse]
    refine Outcome.bind_eq_ok_iff.mpr ⟨loc, hwalk, ?_⟩
    simp only [Outcome.guard_eq_ok_iff, ofPiece_eq_into_iff.mpr rfl, Outcome.pure_eq_ok_iff]
    simp [FileTree.isDirectory_of_allows hsearch, hsearch, hwrite, hlong, hfile, hlast]

/-- A tree with the same directories makes no difference, as long as the name is not one of theirs.
-/
theorem NamesFile.of_same_directories {t : FileTree} (h : NamesFile ws path loc name)
    (hsame : ∀ l, ws.tree.isDirectory l = true → t.get? l = ws.tree.get? l)
    (hfile : t.isDirectory (loc ++ [name]) = false) :
    NamesFile { ws with tree := t } path loc name := by
  have hloc := FileTree.isDirectory_of_allows h.searchable
  obtain ⟨front, hsplit, hwalk⟩ := h.leads
  have hend : ws.tree.contains loc = true → t.contains loc = true := by
    rw [FileTree.contains_congr (hsame loc hloc)]
    exact id
  refine ⟨⟨front, hsplit, walk_of_same_directories hsame hend hwalk⟩, ?_, ?_, h.short, hfile⟩
  · rw [FileTree.allows_congr (hsame loc hloc)]
    exact h.searchable
  · rw [FileTree.allows_congr (hsame loc hloc)]
    exact h.writable

/-- A path that names a file leads to it, if it is there. -/
theorem NamesFile.resolve_eq_ok_iff {found : Location} (h : NamesFile ws path loc name)
    (hcheck : checkPath path = .ok ()) :
    ws.resolve path = .ok found ↔
      ws.tree.contains (loc ++ [name]) = true ∧ found = loc ++ [name] := by
  obtain ⟨front, hsplit, hwalk⟩ := h.leads
  have hsteps :
      (path.splitOn '/').map PathStep.ofPiece = front.map PathStep.ofPiece ++ [.into name] := by
    rw [hsplit, List.map_append, List.map_singleton, ofPiece_eq_into_iff.mpr rfl]
  rw [Workspace.resolve_eq_ok_iff, hsteps, walk_append_eq_ok_iff]
  constructor
  · rintro ⟨-, mid, hmid, hlast⟩
    obtain rfl : loc = mid := Except.ok.inj (hwalk.symm.trans hmid)
    obtain ⟨-, -, next, ⟨-, hthere, rfl⟩, hend⟩ := walk_cons_eq_ok_iff.mp hlast
    exact ⟨hthere, (Except.ok.inj hend).symm⟩
  · rintro ⟨hthere, rfl⟩
    refine ⟨hcheck, loc, hwalk, walk_cons_eq_ok_iff.mpr ?_⟩
    exact ⟨FileTree.isDirectory_of_allows h.searchable, fun _ => h.searchable, loc ++ [name],
      ⟨h.short, hthere, rfl⟩, rfl⟩

/-! ## Beside another file -/

section Put

variable {mode : Nat} {content : ByteArray} (h : ws.tree.isDirectory loc = false)

include h

/-- A file where there is no directory makes no difference to what paths name. -/
theorem namesFile_put_iff {dir : Location} :
    NamesFile (ws.put loc (.file mode content)) path dir name ↔ NamesFile ws path dir name := by
  have hdirs := FileTree.isDirectory_insert_file h mode content
  constructor
  · intro hnames
    refine hnames.of_same_directories (t := ws.tree) (fun l hl => ?_) ?_
    · exact (FileTree.get?_insert_of_isDirectory h _ ((hdirs l).symm.trans hl)).symm
    · exact (hdirs _).symm.trans hnames.noDirectory
  · intro hnames
    refine hnames.of_same_directories (fun l hl => ?_) ?_
    · exact FileTree.get?_insert_of_isDirectory h _ hl
    · exact (hdirs _).trans hnames.noDirectory

theorem renameTarget_put_eq_ok_iff :
    (ws.put loc (.file mode content)).renameTarget path = .ok target ↔
      ws.renameTarget path = .ok target := by
  simp only [renameTarget_eq_ok_iff, namesFile_put_iff h]

/-- A path that leads somewhere leads there beside another file, too. -/
theorem resolve_put (hresolve : ws.resolve path = .ok target) :
    (ws.put loc (.file mode content)).resolve path = .ok target := by
  obtain ⟨hcheck, hwalk⟩ := resolve_eq_ok_iff.mp hresolve
  refine resolve_eq_ok_iff.mpr ⟨hcheck, walk_of_same_directories (fun l hl => ?_) ?_ hwalk⟩
  · exact FileTree.get?_insert_of_isDirectory h _ hl
  · intro hthere
    rw [FileTree.contains, put, FileTree.get?_insert]
    split
    · rfl
    · exact hthere

/-- A path that leads past a file does not need it. -/
theorem resolve_of_put (hne : target ≠ loc)
    (hresolve : (ws.put loc (.file mode content)).resolve path = .ok target) :
    ws.resolve path = .ok target := by
  obtain ⟨hcheck, hwalk⟩ := resolve_eq_ok_iff.mp hresolve
  refine resolve_eq_ok_iff.mpr ⟨hcheck, walk_of_same_directories (fun l hl => ?_) ?_ hwalk⟩
  · rw [put, FileTree.isDirectory_insert_file h] at hl
    exact (FileTree.get?_insert_of_isDirectory h _ hl).symm
  · rw [put, FileTree.contains_congr ((FileTree.get?_insert ..).trans (if_neg hne))]
    exact id

end Put

/-- After a file was renamed onto a path, the path leads to it. -/
theorem resolve_put_of_renameTarget (h : ws.renameTarget path = .ok target) (mode : Nat)
    (content : ByteArray) : (ws.put target (.file mode content)).resolve path = .ok target := by
  obtain ⟨hcheck, loc, name, hnames, rfl⟩ := renameTarget_eq_ok_iff.mp h
  have hput : NamesFile (ws.put (loc ++ [name]) (.file mode content)) path loc name :=
    (namesFile_put_iff hnames.noDirectory).mpr hnames
  refine (hput.resolve_eq_ok_iff hcheck).mpr ⟨?_, rfl⟩
  exact FileTree.contains_of_get? ((FileTree.get?_insert ..).trans (if_pos rfl))

end Workspace

end BuildPlan
