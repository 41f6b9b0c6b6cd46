import BuildPlan.Proofs.NamedFiles

/-!
# The directory of a temporary file

A temporary file has to lie beside the file that it replaces. Its directory is found by looking at
the text of the path alone, and there are paths of many shapes: with no slash in it, with the root
in front, with slashes and dots that do not move. Whatever the shape, the directory that is found is
the one to which the path leads in front of its last name (`walk_directoryOf`). Pieces that do not
move may be left out at its end: without them a path comes to the same place.

The temporary file is made by a path from the root, which is put together from the text of the
working directory. So that this leads to the same place, the text has to lead to the working
directory (`AtHome`).
-/

namespace BuildPlan

theorem Utf8.byteCount_append (x y : Text) : byteCount (x ++ y) = byteCount x + byteCount y := by
  induction x with
  | nil => simp [byteCount]
  | cons c x ih =>
    rw [List.cons_append, byteCount, byteCount, ih]
    omega

/-! ## The text of a directory -/

section Text

variable {path last piece : Text} {front pieces : List Text}

theorem isIdle_iff : isIdle piece = true ↔ piece = [] ∨ piece = ['.'] := by
  simp [isIdle]

/-- A path starts at the root exactly if its first piece is empty and not the only one. -/
theorem isAbsolute_intercalate (h : '/' ∉ piece) :
    isAbsolute (['/'].intercalate (piece :: pieces)) = true ↔ piece = [] ∧ pieces ≠ [] := by
  have hhead : piece.head? ≠ some '/' := fun hc => h (List.mem_of_head? hc)
  by_cases hp : pieces = []
  · simp [hp, isAbsolute, hhead]
  · rw [List.intercalate_cons_of_ne_nil hp]
    cases piece with
    | nil => simp [isAbsolute, hp]
    | cons c cs => simpa [isAbsolute] using hhead

/-- The marks of the pieces in front of the last one, if that is a component. -/
theorem exists_markPieces (h : path.splitOn '/' = front ++ [last]) (hlast : isIdle last = false) :
    ∃ marks, markPieces path = marks ++ [(last, true)] ∧ marks.map Prod.fst = front ∧
      (∀ m ∈ marks, m.2 = true → m.1 ≠ []) ∧ ∀ m ∈ marks, m.2 = false → isIdle m.1 = true := by
  have hne : last.isEmpty = false := by
    simp only [isIdle, Bool.or_eq_false_iff] at hlast
    exact hlast.1
  unfold markPieces
  cases front with
  | nil =>
    rw [h]
    exact ⟨[], by simp [hne], rfl, by simp, by simp⟩
  | cons first rest =>
    rw [h]
    refine ⟨(first, !first.isEmpty) :: rest.map fun piece => (piece, !isIdle piece), ?_, ?_, ?_, ?_⟩
    · simp [hlast]
    · simp [Function.comp_def]
    · intro m hm hmark
      rcases List.mem_cons.mp hm with rfl | hm
      · simpa using hmark
      · obtain ⟨piece, -, rfl⟩ := List.mem_map.mp hm
        rintro rfl
        simp [isIdle] at hmark
    · intro m hm hmark
      rcases List.mem_cons.mp hm with rfl | hm
      · exact isIdle_iff.mpr (Or.inl (by simpa using hmark))
      · obtain ⟨piece, -, rfl⟩ := List.mem_map.mp hm
        simpa using hmark

/-- A list is cut behind its last element that is not of a kind. -/
theorem exists_dropWhile_reverse {α : Type} (p : α → Bool) (l : List α) :
    ∃ kept cut, l = kept ++ cut ∧ l.reverse.dropWhile p = kept.reverse ∧ (∀ x ∈ cut, p x = true) ∧
      ∀ x ∈ kept.getLast?, p x = false := by
  refine ⟨(l.reverse.dropWhile p).reverse, (l.reverse.takeWhile p).reverse, ?_, ?_, ?_, ?_⟩
  · rw [← List.reverse_append, List.takeWhile_append_dropWhile, List.reverse_reverse]
  · rw [List.reverse_reverse]
  · intro x hx
    exact List.all_eq_true.mp List.all_takeWhile x (List.mem_reverse.mp hx)
  · intro x hx
    have hhead := List.head?_dropWhile_not p l.reverse
    rw [List.getLast?_reverse] at hx
    rw [Option.mem_def.mp hx] at hhead
    exact hhead

/-- **The path without its last component** is what stands in front of it, up to the component
before. Where there is none, it is the root or nothing. -/
theorem exists_parentPath? (h : path.splitOn '/' = front ++ [last]) (hlast : isIdle last = false) :
    ∃ kept idle, front = kept ++ idle ∧ (∀ piece ∈ idle, isIdle piece = true) ∧
      (∀ piece ∈ kept.getLast?, piece ≠ []) ∧
      parentPath? path =
        some (if kept.isEmpty && isAbsolute path then ['/'] else ['/'].intercalate kept) := by
  obtain ⟨marks, hmarks, rfl, hfull, hidle⟩ := exists_markPieces h hlast
  obtain ⟨kept, cut, rfl, hdrop, hfalse, htrue⟩ := exists_dropWhile_reverse (fun m => !m.2) marks
  refine ⟨kept.map Prod.fst, cut.map Prod.fst, List.map_append, ?_, ?_, ?_⟩
  · intro piece hpiece
    obtain ⟨m, hm, rfl⟩ := List.mem_map.mp hpiece
    exact hidle m (List.mem_append_right _ hm) (by simpa using hfalse m hm)
  · intro piece hpiece
    rw [List.getLast?_map] at hpiece
    obtain ⟨m, hm, rfl⟩ := Option.map_eq_some_iff.mp hpiece
    exact hfull m (List.mem_append_left _ (List.mem_of_getLast? hm)) (by simpa using htrue m hm)
  · rw [parentPath?, hmarks, List.reverse_append, List.reverse_singleton, List.singleton_append,
      List.dropWhile_cons_of_neg (by simp)]
    simp only [hdrop, List.reverse_reverse]

theorem directoryOf_of_parentPath? {parent : Text} (h : parentPath? path = some parent)
    (hne : parent ≠ []) : directoryOf path = parent := by
  rw [directoryOf, h]
  cases parent with
  | nil => exact absurd rfl hne
  | cons c cs => rfl

/-- Pieces of which the last is a component are not the empty path. -/
theorem intercalate_ne_nil (hne : pieces ≠ []) (hslash : ∀ piece ∈ pieces, '/' ∉ piece)
    (hlast : ∀ piece ∈ pieces.getLast?, piece ≠ []) : ['/'].intercalate pieces ≠ [] := by
  intro hnil
  have hsplit := List.splitOn_intercalate '/' hslash hne
  rw [hnil] at hsplit
  exact hlast [] (by rw [← hsplit]; rfl) rfl

/-- The first of these pieces says whether a path starts at the root, however it goes on. -/
theorem isAbsolute_intercalate_append (hne : pieces ≠ []) (hslash : ∀ piece ∈ pieces, '/' ∉ piece)
    (hlast : ∀ piece ∈ pieces.getLast?, piece ≠ []) {further : List Text}
    (hfurther : further ≠ []) :
    isAbsolute (['/'].intercalate (pieces ++ further)) = isAbsolute (['/'].intercalate pieces) := by
  obtain ⟨piece, rest, rfl⟩ := List.exists_cons_of_ne_nil hne
  have hpiece := hslash piece List.mem_cons_self
  rw [Bool.eq_iff_iff, List.cons_append, isAbsolute_intercalate hpiece,
    isAbsolute_intercalate hpiece]
  constructor
  · rintro ⟨rfl, -⟩
    refine ⟨rfl, ?_⟩
    rintro rfl
    exact hlast [] rfl rfl
  · rintro ⟨rfl, -⟩
    exact ⟨rfl, by simp [hfurther]⟩

end Text

namespace Workspace

variable {ws : Workspace} {path dir : Text} {t : FileTree} {loc target : Location} {name : FileName}

/-! ## Where the text leads -/

theorem ofPiece_of_isIdle {piece : Text} (h : isIdle piece = true) :
    PathStep.ofPiece piece = .slash ∨ PathStep.ofPiece piece = .stay := by
  rcases isIdle_iff.mp h with rfl | rfl
  · exact Or.inl rfl
  · exact Or.inr rfl

/-- Idle pieces lead nowhere else. -/
theorem eq_of_walk_idle {idle : List Text} (hidle : ∀ piece ∈ idle, isIdle piece = true)
    (h : walk t loc (idle.map PathStep.ofPiece) = .ok target) : target = loc := by
  induction idle with
  | nil => exact (Except.ok.inj h).symm
  | cons piece idle ih =>
    obtain ⟨-, -, next, hnext, hrest⟩ := walk_cons_eq_ok_iff.mp h
    obtain rfl : next = loc := by
      rcases ofPiece_of_isIdle (hidle piece List.mem_cons_self) with hstep | hstep
      · rwa [hstep] at hnext
      · rwa [hstep] at hnext
    exact ih (fun p hp => hidle p (List.mem_cons_of_mem _ hp)) hrest

theorem walk_idle {idle : List Text} (hidle : ∀ piece ∈ idle, isIdle piece = true)
    (h : t.allows maySearch loc = true) : walk t loc (idle.map PathStep.ofPiece) = .ok loc := by
  induction idle with
  | nil => rfl
  | cons piece idle ih =>
    refine walk_cons_eq_ok_iff.mpr ⟨FileTree.isDirectory_of_allows h, fun _ => h, loc, ?_,
      ih fun p hp => hidle p (List.mem_cons_of_mem _ hp)⟩
    rcases ofPiece_of_isIdle (hidle piece List.mem_cons_self) with hstep | hstep
    · rw [hstep]
      rfl
    · rw [hstep]
      rfl

/-- **The directory of a path leads to where the path leads in front of its last name.** -/
theorem walk_directoryOf (h : NamesFile ws path loc name) :
    walk ws.tree (ws.start (directoryOf path))
        (((directoryOf path).splitOn '/').map PathStep.ofPiece)
      = .ok loc := by
  obtain ⟨front, hsplit, hwalk⟩ := h.leads
  obtain ⟨hne, -, hdot, -⟩ := name.proper
  obtain ⟨kept, idle, rfl, hidle, hlast, hparent⟩ :=
    exists_parentPath? hsplit (by simp [isIdle, hne, hdot])
  rw [List.map_append, walk_append_eq_ok_iff] at hwalk
  obtain ⟨mid, hkept, hidles⟩ := hwalk
  obtain rfl := eq_of_walk_idle hidle hidles
  by_cases hnil : kept = []
  · -- all pieces are idle, so the name lies where the path starts
    obtain rfl : ws.start path = loc := by
      rw [hnil] at hkept
      exact Except.ok.inj hkept
    rw [hnil] at hparent
    by_cases habs : isAbsolute path = true
    · have hroot : directoryOf path = ['/'] :=
        directoryOf_of_parentPath? (by simp [hparent, habs]) (by simp)
      rw [hroot, show ws.start ['/'] = ws.start path from (if_pos habs).symm]
      exact walk_idle (by decide) h.searchable
    · have hhere : directoryOf path = ['.'] := by simp [directoryOf, hparent, habs]
      rw [hhere, show ws.start ['.'] = ws.start path from (if_neg habs).symm]
      exact walk_idle (by decide) h.searchable
  · have hslash : ∀ piece ∈ kept, '/' ∉ piece := by
      intro piece hpiece
      refine not_mem_of_mem_splitOn (t := path) ?_
      rw [hsplit]
      simp [hpiece]
    have htext : directoryOf path = ['/'].intercalate kept :=
      directoryOf_of_parentPath? (by simp [hparent, hnil]) (intercalate_ne_nil hnil hslash hlast)
    have hjoin : ['/'].intercalate (path.splitOn '/') = path := List.intercalate_splitOn '/'
    have hstart : ws.start (['/'].intercalate kept) = ws.start path := by
      rw [start, start, ← hjoin, hsplit, List.append_assoc,
        isAbsolute_intercalate_append hnil hslash hlast (by simp)]
    rw [htext, List.splitOn_intercalate '/' hslash hnil, hstart, hkept]

/-! ## From the root -/

/-- The text that shows the working directory leads to it. -/
def AtHome (ws : Workspace) : Prop :=
  isAbsolute ws.cwdText = true ∧ ws.resolve ws.cwdText = .ok ws.cwd

theorem isAbsolute_append (h : isAbsolute path = true) (further : Text) :
    isAbsolute (path ++ further) = true := by
  cases path with
  | nil => exact absurd h (by decide)
  | cons c cs => exact h

/-- A piece is joined to a path by one slash, which may be there already. -/
theorem exists_joinPath (hne : path ≠ []) (piece : Text) :
    ∃ front,
      joinPath path piece = front ++ '/' :: piece ∧ (path = front ∨ path = front ++ ['/']) := by
  rw [joinPath, if_neg (by simpa using hne)]
  split
  · rename_i hslash
    obtain ⟨front, rfl⟩ := List.getLast?_eq_some_iff.mp (beq_iff_eq.mp hslash)
    exact ⟨front, by simp, Or.inr rfl⟩
  · exact ⟨path, rfl, Or.inl rfl⟩

theorem isPrefix_joinPath (hne : path ≠ []) (piece : Text) : path <+: joinPath path piece := by
  obtain ⟨front, hjoin, rfl | rfl⟩ := exists_joinPath hne piece
  · exact ⟨_, hjoin.symm⟩
  · exact ⟨piece, by simp [hjoin]⟩

/-- A slash at the end of a path is an idle piece, so the path leads to the same place without it. -/
theorem walk_front {front : Text} (hfront : path = front ∨ path = front ++ ['/'])
    (h : walk t loc ((path.splitOn '/').map PathStep.ofPiece) = .ok target) :
    walk t loc ((front.splitOn '/').map PathStep.ofPiece) = .ok target := by
  rcases hfront with rfl | rfl
  · exact h
  · rw [List.splitOn_append_cons_self, List.map_append, walk_append_eq_ok_iff] at h
    obtain ⟨mid, hmid, hend⟩ := h
    rw [hmid, eq_of_walk_idle (by decide) hend]

/-- **A path leads to the same place from the root**, if the working directory does. -/
theorem walk_absolute (home : AtHome ws)
    (h : walk ws.tree (ws.start dir) ((dir.splitOn '/').map PathStep.ofPiece) = .ok loc) :
    walk ws.tree (ws.start (ws.absolute dir)) (((ws.absolute dir).splitOn '/').map PathStep.ofPiece)
      = .ok loc := by
  obtain ⟨habs, hresolve⟩ := home
  obtain ⟨hcheck, hcwd⟩ := resolve_eq_ok_iff.mp hresolve
  rw [start, if_pos habs] at hcwd
  unfold absolute
  split
  · exact h
  · rename_i hrel
    have hcwdText := ne_nil_of_checkPath hcheck
    obtain ⟨further, hfurther⟩ := isPrefix_joinPath hcwdText dir
    obtain ⟨front, hjoin, hfront⟩ := exists_joinPath hcwdText dir
    rw [start, if_neg hrel] at h
    rw [start, if_pos (hfurther ▸ isAbsolute_append habs further), hjoin,
      List.splitOn_append_cons_self, List.map_append, walk_append_eq_ok_iff]
    exact ⟨ws.cwd, walk_front hfront hcwd, h⟩

/-! ## Making the temporary file -/

theorem checkPath_eq_ok_iff :
    checkPath path = .ok () ↔ '\x00' ∉ path ∧ path ≠ [] ∧ Utf8.byteCount path ≤ longestPath := by
  rw [checkPath]
  constructor
  · intro h
    split at h
    · exact absurd h nofun
    · split at h
      · exact absurd h nofun
      · split at h
        · exact absurd h nofun
        · rename_i hnul hempty hlong
          exact ⟨by simpa using hnul, by simpa using hempty, by simpa [isTooLong] using hlong⟩
  · rintro ⟨hnul, hne, hlong⟩
    rw [if_neg (by simpa using hnul), if_neg (by simpa using hne),
      if_neg (by simpa [isTooLong] using hlong)]

/-- What is part of a usable path is usable, if it is not empty. -/
theorem checkPath_of_isInfix (h : checkPath path = .ok ()) (hpart : dir <:+: path)
    (hne : dir ≠ []) : checkPath dir = .ok () := by
  obtain ⟨hnul, -, hlong⟩ := checkPath_eq_ok_iff.mp h
  refine checkPath_eq_ok_iff.mpr ⟨fun hm => hnul (hpart.subset hm), hne, ?_⟩
  obtain ⟨before, after, rfl⟩ := hpart
  rw [Utf8.byteCount_append, Utf8.byteCount_append] at hlong
  omega

theorem directoryOf_ne_nil (path : Text) : directoryOf path ≠ [] := by
  cases h : parentPath? path with
  | none => simp [directoryOf, h]
  | some parent =>
    cases parent with
    | nil => simp [directoryOf, h]
    | cons c cs => simp [directoryOf, h]

theorem isSuffix_absolute (ws : Workspace) (path : Text) : path <:+ ws.absolute path := by
  unfold absolute
  split
  · exact List.suffix_rfl
  · by_cases hne : ws.cwdText = []
    · simp [joinPath, hne]
    · obtain ⟨front, hjoin, -⟩ := exists_joinPath hne path
      exact ⟨front ++ ['/'], by simp [hjoin]⟩

/-- The directory of a path is part of the path of the temporary file. -/
theorem checkPath_directoryOf (h : checkPath (ws.temporaryPath path) = .ok ()) :
    checkPath (ws.absolute (directoryOf path)) = .ok () ∧
      checkPath (directoryOf path) = .ok () := by
  have hsuffix := isSuffix_absolute ws (directoryOf path)
  have hne := directoryOf_ne_nil path
  have hne' : ws.absolute (directoryOf path) ≠ [] :=
    fun hnil => hne (List.suffix_nil.mp (hnil ▸ hsuffix))
  have habs := checkPath_of_isInfix h (isPrefix_joinPath hne' _).isInfix hne'
  exact ⟨habs, checkPath_of_isInfix habs hsuffix.isInfix hne⟩

/-- **The temporary file is made in the directory of the file that it replaces.** -/
theorem temporaryDirectory_of_namesFile (home : AtHome ws) (h : NamesFile ws path loc name)
    (hcheck : checkPath (ws.temporaryPath path) = .ok ()) :
    ws.temporaryDirectory path = .ok loc := by
  have hresolve : ws.resolve (ws.absolute (directoryOf path)) = .ok loc :=
    resolve_eq_ok_iff.mpr ⟨(checkPath_directoryOf hcheck).1,
      walk_absolute home (walk_directoryOf h)⟩
  refine Outcome.bind_eq_ok_iff.mpr ⟨(), hcheck, Outcome.bind_eq_ok_iff.mpr ⟨loc, hresolve, ?_⟩⟩
  simp only [Outcome.guard_eq_ok_iff, Outcome.pure_eq_ok_iff]
  simp [FileTree.isDirectory_of_allows h.searchable, h.searchable, h.writable]

end Workspace

end BuildPlan
