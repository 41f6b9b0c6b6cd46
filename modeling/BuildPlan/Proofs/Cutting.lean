import BuildPlan.Text.Lines

/-!
# Cutting undoes joining

The converse of "nothing is lost": a text that was put together around separators is cut into the
parts it was put together from, as long as no part holds a separator. A separator is a character or,
for `cutAtText`, a text of several characters.
-/

namespace BuildPlan

/-! ## At the first character of a kind -/

theorem cutAtFirst_append {p : Char → Bool} {before : Text} (hb : ∀ d ∈ before, p d = false)
    {c : Char} (hc : p c = true) (after : Text) :
    cutAtFirst p (before ++ c :: after) = some (before, after) := by
  induction before with
  | nil => simp [cutAtFirst, hc]
  | cons d before ih =>
    have hd : p d = false := hb d List.mem_cons_self
    have hrest := ih fun x hx => hb x (List.mem_cons_of_mem _ hx)
    rw [List.cons_append, cutAtFirst, if_neg (by simp [hd]), hrest]
    rfl

/-- **Cutting at a character finds its first occurrence**, and nothing else is a result. -/
theorem cutAtFirst_char_eq_some_iff {c : Char} {t before after : Text} :
    cutAtFirst (· == c) t = some (before, after) ↔ t = before ++ c :: after ∧ c ∉ before := by
  constructor
  · intro h
    obtain ⟨d, rfl, hd, hall⟩ := eq_append_of_cutAtFirst h
    have hdc : d = c := by simpa using hd
    subst hdc
    refine ⟨rfl, fun hm => ?_⟩
    simpa using hall d hm
  · rintro ⟨rfl, hn⟩
    refine cutAtFirst_append (fun d hd => ?_) (by simp) after
    have hne : d ≠ c := fun e => hn (e ▸ hd)
    simpa using hne

/-! ## At every occurrence of a character -/

theorem splitOn_cons_self (sep : Char) (t : Text) :
    (sep :: t).splitOn sep = [] :: t.splitOn sep := by
  rw [List.splitOn_cons_eq_if_modifyHead, if_pos (beq_self_eq_true sep)]

/-- Any other character belongs to the first piece, which there always is. -/
theorem exists_splitOn_cons {sep c : Char} (h : c ≠ sep) (t : Text) :
    ∃ piece pieces, t.splitOn sep = piece :: pieces ∧
      (c :: t).splitOn sep = (c :: piece) :: pieces := by
  obtain ⟨piece, pieces, hp⟩ := List.exists_cons_of_ne_nil (List.splitOn_ne_nil sep t)
  refine ⟨piece, pieces, hp, ?_⟩
  rw [List.splitOn_cons_eq_if_modifyHead, if_neg (by simpa using h), hp, List.modifyHead_cons]

theorem length_splitOn (sep : Char) (t : Text) : (t.splitOn sep).length = t.count sep + 1 := by
  induction t with
  | nil => rfl
  | cons c t ih =>
    by_cases h : c = sep
    · rw [h, splitOn_cons_self, List.length_cons, ih, List.count_cons_self]
    · obtain ⟨piece, pieces, hp, hcons⟩ := exists_splitOn_cons h t
      rw [hcons, List.count_cons_of_ne h, ← ih, hp, List.length_cons, List.length_cons]

/-- No piece holds the character at which the text was cut. -/
theorem not_mem_of_mem_splitOn {sep : Char} {t piece : Text} (h : piece ∈ t.splitOn sep) :
    sep ∉ piece := by
  induction t generalizing piece with
  | nil =>
    rw [List.splitOn_nil, List.mem_singleton] at h
    rw [h]
    exact List.not_mem_nil
  | cons c t ih =>
    by_cases hc : c = sep
    · rw [hc, splitOn_cons_self] at h
      rcases List.mem_cons.mp h with rfl | h
      · exact List.not_mem_nil
      · exact ih h
    · obtain ⟨first, rest, hp, hcons⟩ := exists_splitOn_cons hc t
      rw [hcons] at h
      rw [hp] at ih
      rcases List.mem_cons.mp h with rfl | h
      · rw [List.mem_cons, not_or]
        exact ⟨fun e => hc e.symm, ih List.mem_cons_self⟩
      · exact ih (List.mem_cons_of_mem _ h)

theorem subset_of_mem_splitOn {sep : Char} {t piece : Text} (h : piece ∈ t.splitOn sep) :
    piece ⊆ t := by
  induction t generalizing piece with
  | nil =>
    rw [List.splitOn_nil, List.mem_singleton] at h
    rw [h]
    exact List.Subset.refl _
  | cons c t ih =>
    by_cases hc : c = sep
    · rw [hc, splitOn_cons_self] at h
      rcases List.mem_cons.mp h with rfl | h
      · exact List.nil_subset _
      · exact List.subset_cons_of_subset c (ih h)
    · obtain ⟨first, rest, hp, hcons⟩ := exists_splitOn_cons hc t
      rw [hcons] at h
      rw [hp] at ih
      rcases List.mem_cons.mp h with rfl | h
      · exact List.cons_subset_cons c (ih List.mem_cons_self)
      · exact List.subset_cons_of_subset c (ih (List.mem_cons_of_mem _ h))

/-- A text that does not end in the separator has a last piece that is not empty. -/
theorem exists_splitOn_concat {sep : Char} {t : Text} (hne : t ≠ [])
    (hlast : t.getLast? ≠ some sep) :
    ∃ front last, t.splitOn sep = front ++ [last] ∧ last ≠ [] := by
  induction t with
  | nil => exact absurd rfl hne
  | cons c t ih =>
    by_cases ht : t = []
    · subst ht
      have hc : sep ∉ [c] := by simpa [eq_comm] using hlast
      exact ⟨[], [c], List.splitOn_eq_singleton hc, List.cons_ne_nil c []⟩
    · rw [List.getLast?_cons_of_ne_nil ht] at hlast
      obtain ⟨front, last, hsplit, hlast⟩ := ih ht hlast
      by_cases hc : c = sep
      · exact ⟨[] :: front, last, by rw [hc, splitOn_cons_self, hsplit]; rfl, hlast⟩
      · -- the character joins the first piece, which may be the last one
        obtain ⟨piece, pieces, hp, hcons⟩ := exists_splitOn_cons hc t
        rw [hsplit] at hp
        cases front with
        | nil =>
          obtain ⟨rfl, rfl⟩ := List.cons.inj hp
          exact ⟨[], c :: last, hcons, List.cons_ne_nil c last⟩
        | cons first front =>
          obtain ⟨rfl, rfl⟩ := List.cons.inj hp
          exact ⟨(c :: first) :: front, last, hcons, hlast⟩

/-- A text ends as its last piece does, if that is not empty. -/
theorem getLast?_of_splitOn_concat {sep : Char} {t last : Text} {front : List Text}
    (h : t.splitOn sep = front ++ [last]) (hne : last ≠ []) : t.getLast? = last.getLast? := by
  have hjoin : [sep].intercalate (t.splitOn sep) = t := List.intercalate_splitOn sep
  rw [← hjoin, h]
  clear h hjoin
  induction front with
  | nil => rw [List.nil_append, List.intercalate_singleton]
  | cons piece front ih =>
    rw [List.cons_append, List.intercalate_cons_of_ne_nil (by simp), List.getLast?_append, ih,
      Option.or_of_isSome (List.getLast?_isSome.mpr hne)]

/-- **Cutting at a character undoes writing it in front of every further piece.** -/
theorem splitOn_flatMap_cons {sep : Char} {t : Text} (ht : sep ∉ t) :
    ∀ {ts : List Text}, (∀ u ∈ ts, sep ∉ u) → (t ++ ts.flatMap (sep :: ·)).splitOn sep = t :: ts
  | [], _ => by rw [List.flatMap_nil, List.append_nil, List.splitOn_eq_singleton ht]
  | u :: ts, h => by
    have hu : sep ∉ u := h u List.mem_cons_self
    rw [List.flatMap_cons, List.cons_append, List.splitOn_append_cons_self_of_not_mem ht,
      splitOn_flatMap_cons hu fun x hx => h x (List.mem_cons_of_mem _ hx)]

/-! ## Into lines -/

theorem dropReturn_of_getLast? {line : Text} (h : line.getLast? ≠ some '\r') :
    dropReturn line = line := by
  unfold dropReturn
  split
  · rename_i rest hrev
    exact absurd (by rw [List.getLast?_eq_head?_reverse, hrev]; rfl) h
  · rfl

theorem subset_of_dropReturn (line : Text) : dropReturn line ⊆ line := by
  unfold dropReturn
  split
  · rename_i rest hrev
    intro c hc
    refine List.mem_reverse.mp ?_
    rw [hrev]
    exact List.mem_cons_of_mem _ (List.mem_reverse.mp hc)
  · exact List.Subset.refl _

theorem newline_not_mem_of_mem_closeLines {pieces : List Text} (h : ∀ p ∈ pieces, '\n' ∉ p) :
    ∀ line ∈ closeLines pieces, '\n' ∉ line := by
  intro line hline
  fun_induction closeLines pieces with
  | case1 => exact absurd hline List.not_mem_nil
  | case2 last hlast => exact absurd hline List.not_mem_nil
  | case3 last hlast =>
    rw [List.mem_singleton.mp hline]
    exact h last List.mem_cons_self
  | case4 piece pieces hne ih =>
    rcases List.mem_cons.mp hline with rfl | hline
    · exact fun hm => h piece List.mem_cons_self (subset_of_dropReturn piece hm)
    · exact ih (fun p hp => h p (List.mem_cons_of_mem _ hp)) hline

theorem newline_not_mem_of_mem_lines {t line : Text} (h : line ∈ lines t) : '\n' ∉ line :=
  newline_not_mem_of_mem_closeLines (fun _ hp => not_mem_of_mem_splitOn hp) line h

/-- Pieces in front of others are lines that end in a newline. -/
theorem closeLines_append (pieces : List Text) {rest : List Text} (hne : rest ≠ []) :
    closeLines (pieces ++ rest) = pieces.map dropReturn ++ closeLines rest := by
  induction pieces with
  | nil => rfl
  | cons piece pieces ih =>
    obtain ⟨next, more, hmore⟩ :=
      List.exists_cons_of_ne_nil (List.append_ne_nil_of_right_ne_nil pieces hne)
    rw [List.cons_append, hmore, closeLines, ← hmore, ih, List.map_cons, List.cons_append]
    exact fun h => absurd h (by simp)

/-- **A newline ends a line.** What stands behind it has the same lines as alone. -/
theorem lines_append_newline (x y : Text) :
    lines (x ++ '\n' :: y) = (x.splitOn '\n').map dropReturn ++ lines y := by
  rw [lines, List.splitOn_append_cons_self, closeLines_append _ (List.splitOn_ne_nil '\n' y), lines]

/-- **A text that ends in a newline and a text behind it have the lines of both.** -/
theorem lines_append {t : Text} (h : t.getLast? = some '\n') (u : Text) :
    lines (t ++ u) = lines t ++ lines u := by
  obtain ⟨x, rfl⟩ := List.getLast?_eq_some_iff.mp h
  rw [List.append_assoc, List.singleton_append, lines_append_newline, lines_append_newline]
  exact congrArg (· ++ lines u) (List.append_nil _).symm

theorem splitOn_flatMap_newline {ls : List Text} (h : ∀ l ∈ ls, '\n' ∉ l) :
    (ls.flatMap (· ++ ['\n'])).splitOn '\n' = ls ++ [[]] := by
  induction ls with
  | nil => rfl
  | cons l ls ih =>
    rw [List.flatMap_cons, List.append_assoc, List.singleton_append,
      List.splitOn_append_cons_self_of_not_mem (h l List.mem_cons_self),
      ih fun x hx => h x (List.mem_cons_of_mem _ hx), List.cons_append]

/-- Lines that were written one after the other are read back, but for one carriage return each. -/
theorem lines_flatMap_newline {ls : List Text} (h : ∀ l ∈ ls, '\n' ∉ l) :
    lines (ls.flatMap (· ++ ['\n'])) = ls.map dropReturn := by
  rw [lines, splitOn_flatMap_newline h, closeLines_append ls (by simp)]
  exact List.append_nil _

/-- **Lines that were written one after the other are read back**, if none ends like a line end. -/
theorem lines_flatMap {ls : List Text} (h : ∀ l ∈ ls, '\n' ∉ l ∧ l.getLast? ≠ some '\r') :
    lines (ls.flatMap (· ++ ['\n'])) = ls := by
  have hsame : ls.map dropReturn = ls.map id :=
    List.map_congr_left fun l hl => dropReturn_of_getLast? (h l hl).2
  rw [lines_flatMap_newline fun l hl => (h l hl).1, hsame, List.map_id]

/-! ## Replacing newlines -/

theorem replaceNewlines_append (r x y : Text) :
    replaceNewlines r (x ++ y) = replaceNewlines r x ++ replaceNewlines r y :=
  List.flatMap_append

theorem replaceNewlines_of_not_mem (r : Text) {t : Text} (h : '\n' ∉ t) :
    replaceNewlines r t = t := by
  induction t with
  | nil => rfl
  | cons c t ih =>
    rw [List.mem_cons, not_or] at h
    have hrest : replaceNewlines r t = t := ih h.2
    rw [replaceNewlines] at hrest ⊢
    rw [List.flatMap_cons, if_neg fun e => h.1 e.symm, hrest]
    rfl

/-- The pieces around newlines are then around the replacements. -/
theorem replaceNewlines_flatMap (r : Text) {first : Text} (hfirst : '\n' ∉ first)
    {further : List Text} (hfurther : ∀ line ∈ further, '\n' ∉ line) :
    replaceNewlines r (first ++ further.flatMap ('\n' :: ·))
      = first ++ further.flatMap (r ++ ·) := by
  rw [replaceNewlines_append, replaceNewlines_of_not_mem r hfirst]
  refine congrArg (first ++ ·) ?_
  induction further with
  | nil => rfl
  | cons line further ih =>
    have hline := replaceNewlines_of_not_mem r (hfurther line List.mem_cons_self)
    have hrest := ih fun l hl => hfurther l (List.mem_cons_of_mem _ hl)
    have hbreak : replaceNewlines r ('\n' :: line) = r ++ replaceNewlines r line := by
      rw [replaceNewlines, List.flatMap_cons, if_pos rfl]
      rfl
    rw [List.flatMap_cons, replaceNewlines_append, hbreak, hline, hrest, List.flatMap_cons]

/-! ## At the first occurrence of a text -/

/-- The two parts around the first occurrence of `sep`. -/
def cutAtText (sep : Text) : Text → Option (Text × Text)
  | [] => none
  | c :: cs =>
    if sep.isPrefixOf (c :: cs) then some ([], (c :: cs).drop sep.length)
    else (cutAtText sep cs).map fun (before, after) => (c :: before, after)

theorem eq_append_of_cutAtText {sep t before after : Text}
    (h : cutAtText sep t = some (before, after)) : t = before ++ sep ++ after := by
  induction t generalizing before with
  | nil => simp [cutAtText] at h
  | cons c t ih =>
    unfold cutAtText at h
    split at h
    · rename_i hsep
      simp only [Option.some.injEq, Prod.mk.injEq] at h
      obtain ⟨rfl, rfl⟩ := h
      exact (List.prefix_iff_eq_append.mp (List.isPrefixOf_iff_prefix.mp hsep)).symm
    · obtain ⟨⟨b, a⟩, hb, he⟩ := Option.map_eq_some_iff.mp h
      simp only [Prod.mk.injEq] at he
      obtain ⟨rfl, rfl⟩ := he
      rw [ih hb]
      rfl

/-- Text without the character `d` in front moves the first `d`, so a separator with a `d` in it
does not begin there. -/
theorem not_sep_isPrefix_cons {front t : Text} {c d : Char} (hfront : d ∉ front) (ht : d ∉ c :: t)
    (back after : Text) : ¬front ++ d :: back <+: c :: t ++ (front ++ d :: back) ++ after := by
  rintro ⟨rest, h⟩
  -- the one text would have its first `d` behind `front` and also further on
  have hshort : cutAtFirst (· == d) (front ++ d :: back ++ rest) = some (front, back ++ rest) :=
    cutAtFirst_char_eq_some_iff.mpr ⟨by simp, hfront⟩
  have hlong : cutAtFirst (· == d) (front ++ d :: back ++ rest)
      = some (c :: t ++ front, back ++ after) := by
    refine cutAtFirst_char_eq_some_iff.mpr ⟨by rw [h]; simp, ?_⟩
    rw [List.mem_append, not_or]
    exact ⟨ht, hfront⟩
  rw [hshort, Option.some.injEq, Prod.mk.injEq] at hlong
  have hlen := congrArg List.length hlong.1
  simp at hlen
  omega

/-- **A separator is found where it was put**, if it has a character that does not occur before. -/
theorem cutAtText_append {front back t : Text} {d : Char} (hfront : d ∉ front) (ht : d ∉ t)
    (after : Text) :
    cutAtText (front ++ d :: back) (t ++ (front ++ d :: back) ++ after) = some (t, after) := by
  induction t with
  | nil =>
    have hne : front ++ d :: back ≠ [] := by simp
    obtain ⟨c, sep, hsep⟩ := List.exists_cons_of_ne_nil hne
    rw [hsep, List.nil_append, List.cons_append, cutAtText, if_pos]
    · rw [← List.cons_append, List.drop_left]
    · rw [← List.cons_append]
      exact List.isPrefixOf_iff_prefix.mpr (List.prefix_append _ _)
  | cons c t ih =>
    have hnot := not_sep_isPrefix_cons hfront ht back after
    have hrest := ih fun hm => ht (List.mem_cons_of_mem _ hm)
    simp only [List.cons_append] at hnot ⊢
    rw [cutAtText, if_neg fun hp => hnot (List.isPrefixOf_iff_prefix.mp hp), hrest]
    rfl

end BuildPlan
