import Mathlib.Data.List.Infix
import BuildPlan.Manifest.Basic
import BuildPlan.Proofs.Cutting

/-!
# Reading a manifest back

`Manifest.read` takes a manifest apart again: physical lines up to an empty one are the includes,
logical lines up to an empty one the definitions, physical lines up to an empty one the edges. A
physical line that ends in a space and a dollar sign goes on in the next one.

Two things can not be read back. A definition whose text ends in a space and a dollar sign runs on
into the next line, and an output with a space or a newline in it ends too early.
`read_renderEdges_iff` says that there is nothing else: whatever `read` finds has neither
(`not_suffix_of_read`, `output_of_read`), and everything without them is found again.
-/

namespace BuildPlan

/-- The text is not empty and holds no white space. -/
def IsWord (w : Text) : Prop := w ≠ [] ∧ ∀ c ∈ w, isBlank c = false

-- Over the letters of the text: a bounded quantifier over `Char` may be decided over all
-- characters.
instance (w : Text) : Decidable (IsWord w) :=
  decidable_of_iff (w ≠ [] ∧ w.all fun c => !isBlank c) (by simp [IsWord])

theorem IsWord.not_mem {w : Text} (h : IsWord w) {c : Char} (hc : isBlank c = true) : c ∉ w :=
  fun hm => by simp [h.2 c hm] at hc

namespace Manifest

/-! ## Lines -/

/-- What stands before a space and a dollar sign at the end of a line. -/
def continued? (line : Text) : Option Text := List.isSuffixOf? [' ', '$'] line

/-- The lines up to the first empty one, and the lines behind it. -/
def takeRegion : List Text → Option (List Text × List Text)
  | [] => none
  | line :: rest =>
    if line.isEmpty then some ([], rest)
    else (takeRegion rest).map fun (ls, behind) => (line :: ls, behind)

/-- The logical lines up to the first empty one, and the physical lines behind it. `begun` is what
has been read of the present logical line. -/
def takeLogical : Text → List Text → Option (List Text × List Text)
  | _, [] => none
  | begun, line :: rest =>
    match continued? line with
    | some front => takeLogical (begun ++ front ++ ['\n']) rest
    | none =>
      if (begun ++ line).isEmpty then some ([], rest)
      else (takeLogical [] rest).map fun (ls, behind) => ((begun ++ line) :: ls, behind)

/-! ## What a line says -/

/-- The file that a line includes. -/
def readInclude (line : Text) : Option Text :=
  match cutAtFirst (· == ' ') line with
  | some (word, file) => if word = "include" then some file else none
  | none => none

/-- The name and the value of a logical line. -/
def readDefine (line : Text) : Option (Text × Text) := cutAtText " = " line

/-- The edge of a line, whose words stand between single spaces. The output has a colon behind it.
-/
def readEdge (line : Text) : Option Edge :=
  match line.splitOn ' ' with
  | word :: output :: rule :: inputs =>
    if word = "build" then (List.isSuffixOf? [':'] output).map fun o => ⟨o, rule, inputs⟩ else none
  | _ => none

/-- What can be read from a manifest. -/
structure Contents where
  includes : List Text
  defines : List (Text × Text)
  edges : List Edge
deriving DecidableEq

/-- Read a manifest. -/
def read (t : Text) : Option Contents := do
  let (includeLines, rest) ← takeRegion (t.splitOn '\n')
  let (defineLines, rest) ← takeLogical [] rest
  let (edgeLines, _) ← takeRegion rest
  return ⟨← includeLines.mapM readInclude, ← defineLines.mapM readDefine, ← edgeLines.mapM readEdge⟩

/-! ## Lines that go on -/

theorem continued?_eq_some_iff {line front : Text} :
    continued? line = some front ↔ line = front ++ [' ', '$'] := by
  rw [continued?, List.isSuffixOf?_eq_some_iff_append_eq, eq_comm]

theorem continued?_eq_none_iff {line : Text} : continued? line = none ↔ ¬[' ', '$'] <:+ line := by
  rw [Option.eq_none_iff_forall_ne_some]
  constructor
  · rintro h ⟨front, hfront⟩
    exact h front (continued?_eq_some_iff.mpr hfront.symm)
  · rintro h front hfront
    exact h ⟨front, (continued?_eq_some_iff.mp hfront).symm⟩

/-- The end of a text is the end of its last line, if it holds no newline. -/
theorem suffix_of_suffix_append_newline {front line : Text}
    (h : [' ', '$'] <:+ front ++ '\n' :: line) : [' ', '$'] <:+ line := by
  rcases List.suffix_or_suffix_of_suffix h (List.suffix_append front ('\n' :: line)) with h | h
  · rcases List.suffix_cons_iff.mp h with h | h
    · exact absurd h (by simp)
    · exact h
  · have hm : '\n' ∈ [' ', '$'] := h.subset List.mem_cons_self
    exact absurd hm (by decide)

/-! ## Regions -/

theorem takeRegion_append {ls : List Text} (h : [] ∉ ls) (behind : List Text) :
    takeRegion (ls ++ [] :: behind) = some (ls, behind) := by
  induction ls with
  | nil => rfl
  | cons line ls ih =>
    rw [List.mem_cons, not_or] at h
    have hline : ¬line.isEmpty = true := fun he => h.1 (List.isEmpty_iff.mp he).symm
    rw [List.cons_append, takeRegion, if_neg hline, ih h.2]
    rfl

theorem eq_append_of_takeRegion {lines ls behind : List Text}
    (h : takeRegion lines = some (ls, behind)) : lines = ls ++ [] :: behind := by
  induction lines generalizing ls with
  | nil => simp [takeRegion] at h
  | cons line lines ih =>
    unfold takeRegion at h
    split at h
    · rename_i hline
      simp only [Option.some.injEq, Prod.mk.injEq] at h
      obtain ⟨rfl, rfl⟩ := h
      rw [List.isEmpty_iff.mp hline]
      rfl
    · obtain ⟨⟨ls', behind'⟩, hrest, he⟩ := Option.map_eq_some_iff.mp h
      simp only [Prod.mk.injEq] at he
      obtain ⟨rfl, rfl⟩ := he
      rw [ih hrest]
      rfl

theorem takeLogical_last {begun line : Text} (hline : ¬[' ', '$'] <:+ line)
    (hne : begun ++ line ≠ []) (rest : List Text) :
    takeLogical begun (line :: rest)
      = (takeLogical [] rest).map fun (ls, behind) => ((begun ++ line) :: ls, behind) := by
  have hempty : ¬(begun ++ line).isEmpty = true := fun he => hne (List.isEmpty_iff.mp he)
  rw [takeLogical, continued?_eq_none_iff.mpr hline]
  exact if_neg hempty

theorem takeLogical_continued (begun front : Text) (rest : List Text) :
    takeLogical begun ((front ++ [' ', '$']) :: rest)
      = takeLogical (begun ++ front ++ ['\n']) rest := by
  rw [takeLogical, continued?_eq_some_iff.mpr rfl]

/-- **A text is one logical line, however many newlines it holds**, if it does not end like a line
that goes on. `front` is what stands before the text in the present physical line. -/
theorem takeLogical_replaceNewlines (t : Text) (begun front : Text) (rest : List Text)
    (hfront : '\n' ∉ front) (hend : ¬[' ', '$'] <:+ front ++ t) (hne : begun ++ front ++ t ≠ []) :
    takeLogical begun ((front ++ replaceNewlines " $\n" t).splitOn '\n' ++ rest)
      = (takeLogical [] rest).map fun (ls, behind) => ((begun ++ front ++ t) :: ls, behind) := by
  induction t generalizing begun front with
  | nil =>
    rw [List.append_nil] at hend hne
    rw [replaceNewlines, List.flatMap_nil, List.append_nil, List.append_nil,
      List.splitOn_eq_singleton hfront]
    exact takeLogical_last hend hne rest
  | cons c t ih =>
    by_cases hc : c = '\n'
    · -- the physical line ends here; the rest of the text stands in the lines that follow
      subst hc
      have hsplit : front ++ replaceNewlines " $\n" ('\n' :: t)
          = (front ++ [' ', '$']) ++ '\n' :: ([] ++ replaceNewlines " $\n" t) := by
        simp [replaceNewlines]
      have hfree : '\n' ∉ front ++ [' ', '$'] := by simp [hfront]
      rw [hsplit, List.splitOn_append_cons_self, List.splitOn_eq_singleton hfree, List.append_assoc,
        List.singleton_append, takeLogical_continued, ih (begun ++ front ++ ['\n']) [] (by simp)
          (fun h => hend (List.suffix_append_of_suffix (h.trans (List.suffix_cons '\n' t))))
          (by simp)]
      simp
    · have hstep : front ++ replaceNewlines " $\n" (c :: t)
          = (front ++ [c]) ++ replaceNewlines " $\n" t := by
        simp [replaceNewlines, hc]
      have hfree : '\n' ∉ front ++ [c] := by
        have hc' : '\n' ≠ c := fun e => hc e.symm
        simp [hfront, hc']
      rw [hstep, ih begun (front ++ [c]) hfree (by simpa using hend) (by simp)]
      simp

theorem takeLogical_texts {ts : List Text} (h : ∀ t ∈ ts, t ≠ [] ∧ ¬[' ', '$'] <:+ t)
    (behind : List Text) :
    takeLogical [] (ts.flatMap (fun t => (replaceNewlines " $\n" t).splitOn '\n') ++ [] :: behind)
      = some (ts, behind) := by
  induction ts with
  | nil => rfl
  | cons t ts ih =>
    obtain ⟨hne, hend⟩ := h t List.mem_cons_self
    have hfirst := takeLogical_replaceNewlines t [] []
      (ts.flatMap (fun t => (replaceNewlines " $\n" t).splitOn '\n') ++ [] :: behind)
      List.not_mem_nil hend hne
    rw [List.flatMap_cons, List.append_assoc]
    refine hfirst.trans ?_
    rw [ih fun u hu => h u (List.mem_cons_of_mem _ hu)]
    rfl

/-- What one physical line does: it goes on, it ends the region, or it ends a logical line. -/
theorem takeLogical_cons_cases {begun line : Text} {lines ls behind : List Text}
    (h : takeLogical begun (line :: lines) = some (ls, behind)) :
    (∃ front, takeLogical (begun ++ front ++ ['\n']) lines = some (ls, behind)) ∨
      (ls = [] ∧ behind = lines) ∨
      (¬[' ', '$'] <:+ line ∧
        ∃ ls', ls = (begun ++ line) :: ls' ∧ takeLogical [] lines = some (ls', behind)) := by
  unfold takeLogical at h
  split at h
  · exact Or.inl ⟨_, h⟩
  · rename_i hline
    rw [continued?_eq_none_iff] at hline
    split at h
    · simp only [Option.some.injEq, Prod.mk.injEq] at h
      exact Or.inr (Or.inl ⟨h.1.symm, h.2.symm⟩)
    · obtain ⟨⟨ls', behind'⟩, hrest, he⟩ := Option.map_eq_some_iff.mp h
      simp only [Prod.mk.injEq] at he
      obtain ⟨rfl, rfl⟩ := he
      exact Or.inr (Or.inr ⟨hline, ls', rfl, hrest⟩)

/-- **No logical line ends like a line that goes on.** What is begun ends in a newline, if there is
anything. -/
theorem not_suffix_of_takeLogical {begun : Text} {lines ls behind : List Text}
    (hbegun : begun = [] ∨ ∃ front, begun = front ++ ['\n'])
    (h : takeLogical begun lines = some (ls, behind)) : ∀ l ∈ ls, ¬[' ', '$'] <:+ l := by
  induction lines generalizing begun ls with
  | nil => simp [takeLogical] at h
  | cons line lines ih =>
    obtain ⟨front, hrest⟩ | ⟨rfl, -⟩ | ⟨hline, ls', rfl, hrest⟩ := takeLogical_cons_cases h
    · exact ih (Or.inr ⟨_, rfl⟩) hrest
    · simp
    · intro l hl hend
      rcases List.mem_cons.mp hl with rfl | hl
      · -- the logical line ends as its last physical line does
        rcases hbegun with rfl | ⟨front, rfl⟩
        · exact hline hend
        · rw [List.append_assoc] at hend
          exact hline (suffix_of_suffix_append_newline hend)
      · exact ih (Or.inl rfl) hrest l hl hend

theorem suffix_of_takeLogical {begun : Text} {lines ls behind : List Text}
    (h : takeLogical begun lines = some (ls, behind)) : behind <:+ lines := by
  induction lines generalizing begun ls with
  | nil => simp [takeLogical] at h
  | cons line lines ih =>
    obtain ⟨front, hrest⟩ | ⟨-, rfl⟩ | ⟨-, ls', -, hrest⟩ := takeLogical_cons_cases h
    · exact (ih hrest).trans (List.suffix_cons line lines)
    · exact List.suffix_cons line _
    · exact (ih hrest).trans (List.suffix_cons line lines)

/-! ## Single lines -/

theorem readInclude_includeLine (file : Text) : readInclude (includeLine file) = some file := by
  have hcut : cutAtFirst (· == ' ') (includeLine file) = some (("include" : Text), file) :=
    cutAtFirst_char_eq_some_iff.mpr ⟨rfl, by decide⟩
  rw [readInclude, hcut]
  rfl

theorem readDefine_append {name : Text} (h : '=' ∉ name) (value : Text) :
    readDefine (name ++ " = " ++ value) = some (name, value) := by
  have hcut : cutAtText ([' '] ++ '=' :: [' ']) (name ++ ([' '] ++ '=' :: [' ']) ++ value)
      = some (name, value) := cutAtText_append (by decide) h value
  exact hcut

/-- A definition is written as its text with every newline made a line that goes on. -/
theorem defineLine_eq {name : Text} (h : '\n' ∉ name) (value : Text) :
    defineLine name value = replaceNewlines " $\n" (name ++ " = " ++ value) := by
  have hsep : '\n' ∉ name ++ " = " := by
    rw [List.mem_append, not_or]
    exact ⟨h, by decide⟩
  rw [defineLine, replaceNewlines_append, replaceNewlines_of_not_mem _ hsep]

theorem line_eq_flatMap (e : Edge) :
    e.line = "build" ++ ((e.output ++ [':']) :: e.rule :: e.inputs).flatMap (' ' :: ·) := by
  have hword : ("build " : Text) = "build" ++ [' '] := rfl
  have hcolon : (": " : Text) = [':', ' '] := rfl
  unfold Edge.line
  rw [hword, hcolon, List.flatMap_cons, List.flatMap_cons]
  -- which word it is plays no part, and `simp` would evaluate it
  generalize ("build" : Text) = word
  simp only [List.append_assoc, List.cons_append, List.nil_append]

/-- **An edge can be read from its line** if none of its words holds a space. -/
theorem readEdge_line {e : Edge} (houtput : ' ' ∉ e.output) (hrule : ' ' ∉ e.rule)
    (hinputs : ∀ i ∈ e.inputs, ' ' ∉ i) : readEdge e.line = some e := by
  have hwords : ∀ u ∈ (e.output ++ [':']) :: e.rule :: e.inputs, ' ' ∉ u := by
    intro u hu
    rcases List.mem_cons.mp hu with rfl | hu
    · simp [houtput]
    · rcases List.mem_cons.mp hu with rfl | hu
      · exact hrule
      · exact hinputs u hu
  have hsplit :
      e.line.splitOn ' ' = ("build" : Text) :: (e.output ++ [':']) :: e.rule :: e.inputs := by
    rw [line_eq_flatMap]
    exact splitOn_flatMap_cons (by decide) hwords
  have hcolon : List.isSuffixOf? [':'] (e.output ++ [':']) = some e.output :=
    List.isSuffixOf?_eq_some_iff_append_eq.mpr rfl
  rw [readEdge, hsplit]
  simp only [hcolon, if_true, Option.map_some]

/-- An output that is read from a line is part of the line and holds no space. -/
theorem output_of_readEdge {line : Text} {e : Edge} (h : readEdge line = some e) :
    ' ' ∉ e.output ∧ e.output ⊆ line := by
  unfold readEdge at h
  split at h
  · rename_i word output rule inputs hsplit
    split at h
    · obtain ⟨o, ho, rfl⟩ := Option.map_eq_some_iff.mp h
      rw [List.isSuffixOf?_eq_some_iff_append_eq] at ho
      have hmem : output ∈ line.splitOn ' ' := by rw [hsplit]; simp
      have hsub : o ⊆ output := by rw [← ho]; exact List.subset_append_left _ _
      exact ⟨fun hm => not_mem_of_mem_splitOn hmem (hsub hm),
        fun c hc => subset_of_mem_splitOn hmem (hsub hc)⟩
    · simp at h
  · simp at h

/-! ## The whole text -/

/-- The text of a definition, before its newlines are made lines that go on. -/
def defineText (d : Text × Text) : Text := d.1 ++ " = " ++ d.2

/-- A region is cut into the lines of its texts, and an empty line ends it. -/
theorem splitOn_region (ls : List Text) (rest : Text) :
    (region ls ++ rest).splitOn '\n'
      = ls.flatMap (List.splitOn '\n') ++ [] :: rest.splitOn '\n' := by
  induction ls with
  | nil => rfl
  | cons l ls ih =>
    have hfirst : region (l :: ls) ++ rest = l ++ '\n' :: (region ls ++ rest) := by
      simp [region]
    rw [hfirst, List.splitOn_append_cons_self, ih, List.flatMap_cons, List.append_assoc]

theorem flatMap_splitOn_of_not_mem {ls : List Text} (h : ∀ l ∈ ls, '\n' ∉ l) :
    ls.flatMap (List.splitOn '\n') = ls := by
  induction ls with
  | nil => rfl
  | cons l ls ih =>
    rw [List.flatMap_cons, List.splitOn_eq_singleton (h l List.mem_cons_self),
      ih fun x hx => h x (List.mem_cons_of_mem _ hx)]
    rfl

theorem newline_not_mem_includeLine {file : Text} (h : '\n' ∉ file) : '\n' ∉ includeLine file := by
  unfold includeLine
  intro hm
  rcases List.mem_append.mp hm with hm | hm
  · exact absurd hm (by decide)
  · exact h hm

theorem newline_not_mem_line {e : Edge} (houtput : '\n' ∉ e.output) (hrule : '\n' ∉ e.rule)
    (hinputs : ∀ i ∈ e.inputs, '\n' ∉ i) : '\n' ∉ e.line := by
  intro hm
  rw [line_eq_flatMap] at hm
  rcases List.mem_append.mp hm with hm | hm
  · exact absurd hm (by decide)
  · obtain ⟨u, hu, hm⟩ := List.mem_flatMap.mp hm
    have hm : '\n' ∈ u := by simpa using hm
    rcases List.mem_cons.mp hu with rfl | hu
    · exact houtput (by simpa using hm)
    · rcases List.mem_cons.mp hu with rfl | hu
      · exact hrule hm
      · exact hinputs u hu hm

/-- **The physical lines of a manifest**, where neither a file nor an edge holds a newline. -/
theorem splitOn_renderEdges {includes : List Text} {defines : Namespace} {edges : List Edge}
    (hincludes : ∀ i ∈ includes, '\n' ∉ i) (hnames : ∀ d ∈ defines.entries, '\n' ∉ d.1)
    (hedges : ∀ e ∈ edges, '\n' ∉ e.line) :
    (renderEdges includes defines edges).splitOn '\n'
      = includes.map includeLine ++ [] ::
        ((defines.entries.map defineText).flatMap
            (fun t => (replaceNewlines " $\n" t).splitOn '\n') ++ [] ::
          (edges.map Edge.line ++ [] :: [[]])) := by
  have hfirst : ∀ l ∈ includes.map includeLine, '\n' ∉ l := by
    intro l hl
    obtain ⟨i, hi, rfl⟩ := List.mem_map.mp hl
    exact newline_not_mem_includeLine (hincludes i hi)
  have hlast : ∀ l ∈ edges.map Edge.line, '\n' ∉ l := by
    intro l hl
    obtain ⟨e, he, rfl⟩ := List.mem_map.mp hl
    exact hedges e he
  have hmiddle : (defines.entries.map fun d => defineLine d.1 d.2)
      = (defines.entries.map defineText).map (replaceNewlines " $\n") := by
    rw [List.map_map]
    exact List.map_congr_left fun d hd => defineLine_eq (hnames d hd) d.2
  have hend := splitOn_region (edges.map Edge.line) []
  rw [List.append_nil, flatMap_splitOn_of_not_mem hlast] at hend
  have hregions : renderEdges includes defines edges
      = region (includes.map includeLine)
        ++ region (defines.entries.map fun d => defineLine d.1 d.2)
        ++ region (edges.map Edge.line) := rfl
  rw [hregions, List.append_assoc, splitOn_region, flatMap_splitOn_of_not_mem hfirst,
    splitOn_region, hend, hmiddle, List.flatMap_map]
  rfl

/-! ## Reading each line -/

theorem mapM_map_eq_some {α β : Type} {f : α → β} {g : β → Option α} {xs : List α}
    (h : ∀ x ∈ xs, g (f x) = some x) : (xs.map f).mapM g = some xs := by
  induction xs with
  | nil => rfl
  | cons x xs ih =>
    rw [List.map_cons, List.mapM_cons, h x List.mem_cons_self,
      ih fun y hy => h y (List.mem_cons_of_mem _ hy)]
    rfl

theorem exists_of_mem_mapM {α β : Type} {g : α → Option β} {xs : List α} {ys : List β}
    (h : xs.mapM g = some ys) {y : β} (hy : y ∈ ys) : ∃ x ∈ xs, g x = some y := by
  induction xs generalizing ys with
  | nil =>
    rw [List.mapM_nil] at h
    rw [← Option.some.inj h] at hy
    exact absurd hy List.not_mem_nil
  | cons x xs ih =>
    simp only [List.mapM_cons, Option.bind_eq_bind, Option.bind_eq_some_iff, Option.pure_def,
      Option.some.injEq] at h
    obtain ⟨z, hz, zs, hzs, rfl⟩ := h
    rcases List.mem_cons.mp hy with rfl | hy
    · exact ⟨x, List.mem_cons_self, hz⟩
    · obtain ⟨w, hw, hwy⟩ := ih hzs hy
      exact ⟨w, List.mem_cons_of_mem _ hw, hwy⟩

theorem read_eq_some_iff {t : Text} {c : Contents} :
    read t = some c ↔
      ∃ includeLines rest, takeRegion (t.splitOn '\n') = some (includeLines, rest) ∧
        ∃ defineLines rest', takeLogical [] rest = some (defineLines, rest') ∧
          ∃ edgeLines rest'', takeRegion rest' = some (edgeLines, rest'') ∧
            includeLines.mapM readInclude = some c.includes ∧
            defineLines.mapM readDefine = some c.defines ∧
            edgeLines.mapM readEdge = some c.edges := by
  simp only [read, Option.bind_eq_bind, Option.bind_eq_some_iff, Option.pure_def,
    Option.some.injEq, Prod.exists]
  constructor
  · rintro ⟨is, rest, h1, ds, rest', h2, es, rest'', h3, _, h4, _, h5, _, h6, rfl⟩
    exact ⟨is, rest, h1, ds, rest', h2, es, rest'', h3, h4, h5, h6⟩
  · rintro ⟨is, rest, h1, ds, rest', h2, es, rest'', h3, h4, h5, h6⟩
    exact ⟨is, rest, h1, ds, rest', h2, es, rest'', h3, _, h4, _, h5, _, h6, rfl⟩

/-- Nothing that was read has a definition that ends like a line that goes on. -/
theorem not_suffix_of_read {t : Text} {c : Contents} (h : read t = some c) :
    ∀ d ∈ c.defines, ¬[' ', '$'] <:+ defineText d := by
  obtain ⟨_, _, _, defineLines, _, hlogical, _, _, _, _, hdefines, _⟩ := read_eq_some_iff.mp h
  intro d hd
  obtain ⟨line, hline, hread⟩ := exists_of_mem_mapM hdefines hd
  have htext : line = defineText d := eq_append_of_cutAtText hread
  rw [← htext]
  exact not_suffix_of_takeLogical (Or.inl rfl) hlogical line hline

/-- Nothing that was read has an output with a space or a newline in it. -/
theorem output_of_read {t : Text} {c : Contents} (h : read t = some c) :
    ∀ e ∈ c.edges, ' ' ∉ e.output ∧ '\n' ∉ e.output := by
  obtain ⟨_, _, hregion, _, _, hlogical, edgeLines, _, hlast, _, _, hedges⟩ := read_eq_some_iff.mp h
  intro e he
  obtain ⟨line, hline, hread⟩ := exists_of_mem_mapM hedges he
  have hlines := eq_append_of_takeRegion hregion
  -- no physical line holds a newline, and the lines of the edges are physical ones
  have hphysical : line ∈ t.splitOn '\n' := by
    rw [hlines]
    refine List.mem_append_right _
      (List.mem_cons_of_mem _ ((suffix_of_takeLogical hlogical).subset ?_))
    rw [eq_append_of_takeRegion hlast]
    exact List.mem_append_left _ hline
  obtain ⟨hspace, hsub⟩ := output_of_readEdge hread
  exact ⟨hspace, fun hm => not_mem_of_mem_splitOn hphysical (hsub hm)⟩

/-- Everything without these is read back. -/
theorem read_renderEdges {includes : List Text} {defines : Namespace} {edges : List Edge}
    (hincludes : ∀ i ∈ includes, IsWord i)
    (hnames : ∀ d ∈ defines.entries, '\n' ∉ d.1 ∧ '=' ∉ d.1)
    (hwords : ∀ e ∈ edges, IsWord e.rule ∧ ∀ i ∈ e.inputs, IsWord i)
    (hdefines : ∀ d ∈ defines.entries, ¬[' ', '$'] <:+ defineText d)
    (hedges : ∀ e ∈ edges, ' ' ∉ e.output ∧ '\n' ∉ e.output) :
    read (renderEdges includes defines edges) = some ⟨includes, defines.entries, edges⟩ := by
  have hlines := splitOn_renderEdges (fun i hi => (hincludes i hi).not_mem (by decide))
    (fun d hd => (hnames d hd).1) (fun e he => newline_not_mem_line (hedges e he).2
      ((hwords e he).1.not_mem (by decide)) fun i hi => ((hwords e he).2 i hi).not_mem (by decide))
  have hfirst : [] ∉ includes.map includeLine := by
    intro hm
    obtain ⟨i, -, hi⟩ := List.mem_map.mp hm
    exact List.append_ne_nil_of_left_ne_nil (by decide) i hi
  have hmiddle : ∀ t ∈ defines.entries.map defineText, t ≠ [] ∧ ¬[' ', '$'] <:+ t := by
    intro t ht
    obtain ⟨d, hd, rfl⟩ := List.mem_map.mp ht
    exact ⟨by simp [defineText], hdefines d hd⟩
  have hlast : [] ∉ edges.map Edge.line := by
    intro hm
    obtain ⟨e, -, he⟩ := List.mem_map.mp hm
    rw [line_eq_flatMap] at he
    exact List.append_ne_nil_of_left_ne_nil (by decide) _ he
  refine read_eq_some_iff.mpr ⟨_, _,
    (congrArg takeRegion hlines).trans (takeRegion_append hfirst _),
    _, _, takeLogical_texts hmiddle _, _, _, takeRegion_append hlast _, ?_, ?_, ?_⟩
  · exact mapM_map_eq_some fun i _ => readInclude_includeLine i
  · exact mapM_map_eq_some fun d hd => readDefine_append (hnames d hd).2 d.2
  · exact mapM_map_eq_some fun e he => readEdge_line (hedges e he).1
      ((hwords e he).1.not_mem (by decide)) fun i hi => ((hwords e he).2 i hi).not_mem (by decide)

/-- **A manifest can be read back exactly if** no definition ends like a line that goes on and no
output holds a space or a newline. Files, rules and inputs are words, and names hold neither a
newline nor an equals sign. -/
theorem read_renderEdges_iff {includes : List Text} {defines : Namespace} {edges : List Edge}
    (hincludes : ∀ i ∈ includes, IsWord i)
    (hnames : ∀ d ∈ defines.entries, d.1 ≠ [] ∧ '\n' ∉ d.1 ∧ '=' ∉ d.1)
    (hwords : ∀ e ∈ edges, IsWord e.rule ∧ ∀ i ∈ e.inputs, IsWord i) :
    read (renderEdges includes defines edges) = some ⟨includes, defines.entries, edges⟩ ↔
      (∀ d ∈ defines.entries, ¬(" $" : Text) <:+ d.1 ++ " = " ++ d.2) ∧
        ∀ e ∈ edges, ' ' ∉ e.output ∧ '\n' ∉ e.output := by
  constructor
  · intro h
    exact ⟨not_suffix_of_read h, output_of_read h⟩
  · rintro ⟨hdefines, hedges⟩
    exact read_renderEdges hincludes (fun d hd => (hnames d hd).2) hwords hdefines hedges

/-- Blank lines, a newline at the end and lines that look continued survive inside a value; a value
that ends in a space and a dollar sign does not. -/
theorem read_renderEdges_values :
    read (renderEdges ["rules.ninja"] (Bindings.ofList [("flags", "-O2 $\n\n$\n"), ("a b", "$ = ")])
        [⟨"x:", "cc", ["a.c", "b.c"]⟩, ⟨"", "stamp", []⟩])
      = some ⟨["rules.ninja"], [("flags", "-O2 $\n\n$\n"), ("a b", "$ = ")],
        [⟨"x:", "cc", ["a.c", "b.c"]⟩, ⟨"", "stamp", []⟩]⟩ ∧
    read (renderEdges [] (Bindings.ofList [("a", "b $"), ("c", "d")]) [])
      ≠ some ⟨[], [("a", "b $"), ("c", "d")], []⟩ := by
  constructor
  · refine (read_renderEdges_iff ?_ ?_ ?_).mpr ⟨?_, ?_⟩ <;> decide +kernel
  · intro h
    have hends := (read_renderEdges_iff (by decide +kernel) (by decide +kernel) (by simp)).mp h
    exact absurd hends.1 (by decide +kernel)

end Manifest

end BuildPlan
