import BuildPlan.Proofs.Cutting
import BuildPlan.Template.Segment

/-!
# The grammar of templates

`WellFormed` says how a placeholder is written, and `Segmentation` what it means to cut a text into
segments: nothing is lost, literals are as long as can be, placeholders are well formed, and inside
a literal no placeholder begins. `parse` finds the one list of segments that does all this
(`segmentation_iff`).

The proof has two halves. The reader of a single placeholder finds exactly the well-formed ones
(`readPlaceholder_eq_some_iff`), because a name ends where no character of a name follows and an
argument ends at its first brace. And a segmentation can be taken apart from its front in the same
three steps in which `parse` goes through the text: nothing left, a placeholder, one literal
character.
-/

namespace BuildPlan.Template

/-! ## The grammar -/

/-- A placeholder as it may be written: `${name}`, with white space after the name, or
`${name:argument}`, with white space after the name and before the argument as well. The argument
proper begins where the white space ends; if nothing is left, there is none. -/
inductive WellFormed : Placeholder → Prop where
  | reference {name gap : Text} : isName name = true → (∀ c ∈ gap, isBlank c = true) →
      WellFormed ⟨name, none, ['$', '{'] ++ name ++ gap ++ ['}']⟩
  | call {name gap gap' arg : Text} : isName name = true → (∀ c ∈ gap, isBlank c = true) →
      (∀ c ∈ gap', isBlank c = true) → '}' ∉ arg →
      WellFormed ⟨name, argument? (trimStart arg),
        ['$', '{'] ++ name ++ gap ++ [':'] ++ gap' ++ arg ++ ['}']⟩

/-- The text begins with a placeholder. -/
def BeginsPlaceholder (t : Text) : Prop := ∃ p, WellFormed p ∧ p.raw <+: t

/-- The segments are what the text is cut into. -/
structure Segmentation (input : Text) (segments : List Segment) : Prop where
  written : segments.flatMap Segment.written = input
  literal_ne_nil : ∀ t, .literal t ∈ segments → t ≠ []
  not_adjacent : ∀ before t u after, segments ≠ before ++ .literal t :: .literal u :: after
  wellFormed : ∀ p, .placeholder p ∈ segments → WellFormed p
  /-- Wherever a literal is cut in two, what follows in the text does not begin with a placeholder.
  -/
  leftmost : ∀ before x y after, segments = before ++ .literal (x ++ y) :: after → y ≠ [] →
    ¬BeginsPlaceholder (y ++ after.flatMap Segment.written)

/-! ## Names and gaps -/

/-- A character of a name is a letter, a digit, an underscore or a dot, as its code shows. -/
theorem toNat_of_isNameChar {c : Char} (h : isNameChar c = true) :
    (65 ≤ c.toNat ∧ c.toNat ≤ 90) ∨ (97 ≤ c.toNat ∧ c.toNat ≤ 122) ∨ c.toNat = 95 ∨
      (48 ≤ c.toNat ∧ c.toNat ≤ 57) ∨ c.toNat = 46 := by
  delta isNameChar isNameStart Char.isAlpha Char.isUpper Char.isLower Char.isDigit at h
  simp only [Bool.or_eq_true, Bool.and_eq_true, decide_eq_true_eq, beq_iff_eq,
    UInt32.le_iff_toNat_le, ge_iff_le] at h
  rcases h with (((h | h) | rfl) | h) | rfl
  · exact Or.inl h
  · exact Or.inr (Or.inl h)
  · decide
  · exact Or.inr (Or.inr (Or.inr (Or.inl h)))
  · decide

theorem isNameChar_eq_false_of_isBlank {c : Char} (h : isBlank c = true) :
    isNameChar c = false := by
  cases hname : isNameChar c with
  | false => rfl
  | true =>
    have hcode := toNat_of_isNameChar hname
    simp only [isBlank, Bool.or_eq_true, Bool.and_eq_true, decide_eq_true_eq, beq_iff_eq] at h
    omega

theorem isName_leadingName {t : Text} (h : leadingName t ≠ []) : isName (leadingName t) = true := by
  cases t with
  | nil => exact absurd rfl h
  | cons c cs =>
    rw [leadingName] at h ⊢
    split at h
    · rename_i hc
      rw [if_pos hc, isName, hc, Bool.true_and, List.all_takeWhile]
    · exact absurd rfl h

/-- **A name ends where no character of a name follows.** -/
theorem leadingName_append {name rest : Text} (hname : isName name = true)
    (hstop : ∀ c, rest.head? = some c → isNameChar c = false) :
    leadingName (name ++ rest) = name := by
  cases name with
  | nil => exact absurd hname (by simp [isName])
  | cons c cs =>
    rw [isName, Bool.and_eq_true, List.all_eq_true] at hname
    have hrest : rest.takeWhile isNameChar = [] := by
      cases rest with
      | nil => rfl
      | cons d rest => rw [List.takeWhile_cons_of_neg (by simp [hstop d rfl])]
    rw [List.cons_append, leadingName, if_pos hname.1, List.takeWhile_append_of_pos hname.2, hrest,
      List.append_nil]

theorem takeWhile_isBlank_append {gap : Text} (hgap : ∀ c ∈ gap, isBlank c = true) {c : Char}
    (hc : isBlank c = false) (rest : Text) : (gap ++ c :: rest).takeWhile isBlank = gap := by
  rw [List.takeWhile_append_of_pos hgap, List.takeWhile_cons_of_neg (by simp [hc]), List.append_nil]

theorem dropWhile_isBlank_append {gap : Text} (hgap : ∀ c ∈ gap, isBlank c = true) {c : Char}
    (hc : isBlank c = false) (rest : Text) :
    (gap ++ c :: rest).dropWhile isBlank = c :: rest := by
  rw [List.dropWhile_append_of_pos hgap, List.dropWhile_cons_of_neg (by simp [hc])]

/-! ## The end of a placeholder -/

theorem readBody_reference {gap : Text} (hgap : ∀ c ∈ gap, isBlank c = true)
    (name written rest : Text) :
    readBody name written (gap ++ '}' :: rest) = some ⟨name, none, written ++ gap ++ ['}']⟩ := by
  have hbrace : isBlank '}' = false := by decide
  simp only [readBody, dropWhile_isBlank_append hgap hbrace, takeWhile_isBlank_append hgap hbrace]

/-- What stands between a colon and the first brace behind it is white space and the argument. -/
theorem trimStart_append_brace (arg rest : Text) :
    (arg ++ '}' :: rest).dropWhile isBlank = trimStart arg ++ '}' :: rest ∧
      (arg ++ '}' :: rest).takeWhile isBlank ++ trimStart arg = arg := by
  induction arg with
  | nil =>
    have hbrace : isBlank '}' = false := by decide
    simp [trimStart, hbrace]
  | cons c arg ih =>
    by_cases hc : isBlank c = true
    · simp only [trimStart] at ih ⊢
      simp [hc, ih.1, ih.2]
    · simp [trimStart, hc]

theorem readBody_call {gap arg : Text} (hgap : ∀ c ∈ gap, isBlank c = true) (harg : '}' ∉ arg)
    (name written rest : Text) :
    readBody name written (gap ++ ':' :: (arg ++ '}' :: rest))
      = some ⟨name, argument? (trimStart arg), written ++ gap ++ [':'] ++ arg ++ ['}']⟩ := by
  have hcolon : isBlank ':' = false := by decide
  have hfree : '}' ∉ trimStart arg := fun hm => harg ((List.dropWhile_sublist _).subset hm)
  obtain ⟨hdrop, htake⟩ := trimStart_append_brace arg rest
  have hcut : cutAtFirst (· == '}') (trimStart arg ++ '}' :: rest) = some (trimStart arg, rest) :=
    cutAtFirst_char_eq_some_iff.mpr ⟨rfl, hfree⟩
  have hraw : ∀ front : Text,
      front ++ ':' :: (arg ++ '}' :: rest).takeWhile isBlank ++ trimStart arg ++ ['}']
        = front ++ [':'] ++ arg ++ ['}'] := by
    intro front
    rw [List.append_assoc front, List.cons_append, htake]
    simp
  simp only [readBody, dropWhile_isBlank_append hgap hcolon, takeWhile_isBlank_append hgap hcolon,
    hdrop, hcut, Option.map_some, hraw]

/-! ## A single placeholder -/

theorem trimStart_of_cut {t arg after : Text}
    (h : cutAtFirst (· == '}') (t.dropWhile isBlank) = some (arg, after)) :
    trimStart arg = arg := by
  obtain ⟨ht, -⟩ := cutAtFirst_char_eq_some_iff.mp h
  cases arg with
  | nil => rfl
  | cons c arg =>
    have hhead := List.head?_dropWhile_not isBlank t
    rw [ht] at hhead
    exact List.dropWhile_cons_of_neg (by simpa using hhead)

theorem wellFormed_of_readBody {name rest : Text} {p : Placeholder} (hname : isName name = true)
    (h : readBody name ('$' :: '{' :: name) rest = some p) : WellFormed p := by
  have hgap : ∀ t : Text, ∀ c ∈ t.takeWhile isBlank, isBlank c = true :=
    fun t => List.all_eq_true.mp (List.all_takeWhile)
  unfold readBody at h
  split at h
  · rw [Option.some.injEq] at h
    rw [← h]
    exact .reference hname (hgap rest)
  · rename_i rest' _
    obtain ⟨⟨arg, after⟩, hcut, rfl⟩ := Option.map_eq_some_iff.mp h
    have hfree : '}' ∉ arg := (cutAtFirst_char_eq_some_iff.mp hcut).2
    have hcall := WellFormed.call hname (hgap rest) (hgap rest') hfree
    rw [trimStart_of_cut hcut] at hcall
    simpa using hcall
  · exact absurd h (by simp)

theorem wellFormed_of_readPlaceholder {t : Text} {p : Placeholder}
    (h : readPlaceholder t = some p) : WellFormed p := by
  unfold readPlaceholder at h
  split at h
  · rename_i rest
    simp only at h
    split at h
    · exact absurd h (by simp)
    · rename_i hne
      exact wellFormed_of_readBody (isName_leadingName fun he => hne (by rw [he]; rfl)) h
  · exact absurd h (by simp)

/-- The first character behind a gap and not of it ends a name before the gap. -/
theorem isNameChar_head_gap {gap : Text} (hgap : ∀ c ∈ gap, isBlank c = true) {d : Char}
    (hd : isNameChar d = false) (rest : Text) :
    ∀ c, (gap ++ d :: rest).head? = some c → isNameChar c = false := by
  intro c hc
  cases gap with
  | nil =>
    rw [List.nil_append, List.head?_cons, Option.some.injEq] at hc
    rw [← hc]
    exact hd
  | cons b gap =>
    rw [List.cons_append, List.head?_cons, Option.some.injEq] at hc
    rw [← hc]
    exact isNameChar_eq_false_of_isBlank (hgap b List.mem_cons_self)

theorem readPlaceholder_append {name rest : Text} (hname : isName name = true)
    (hstop : ∀ c, rest.head? = some c → isNameChar c = false) :
    readPlaceholder ('$' :: '{' :: (name ++ rest)) = readBody name ('$' :: '{' :: name) rest := by
  have hne : ¬name.isEmpty = true := by
    cases name with
    | nil => exact absurd hname (by simp [isName])
    | cons c cs => simp
  simp only [readPlaceholder, leadingName_append hname hstop, if_neg hne, List.drop_left]

theorem readPlaceholder_of_wellFormed {p : Placeholder} (h : WellFormed p) (rest : Text) :
    readPlaceholder (p.raw ++ rest) = some p := by
  cases h with
  | @reference name gap hname hgap =>
    have hread := readPlaceholder_append hname
      (isNameChar_head_gap hgap (d := '}') (by decide) rest)
    rw [readBody_reference hgap] at hread
    simpa using hread
  | @call name gap gap' arg hname hgap hgap' harg =>
    -- white space and argument behind the colon are one text up to the first brace
    have hfree : '}' ∉ gap' ++ arg := by
      rw [List.mem_append, not_or]
      exact ⟨fun hm => absurd (hgap' _ hm) (by decide), harg⟩
    have htrim : trimStart (gap' ++ arg) = trimStart arg := List.dropWhile_append_of_pos hgap'
    have hread := readPlaceholder_append hname
      (isNameChar_head_gap hgap (d := ':') (by decide) (gap' ++ arg ++ '}' :: rest))
    rw [readBody_call hgap hfree, htrim] at hread
    simpa using hread

/-- **The reader finds exactly the well-formed placeholders** that a text begins with. -/
theorem readPlaceholder_eq_some_iff {t : Text} {p : Placeholder} :
    readPlaceholder t = some p ↔ WellFormed p ∧ p.raw <+: t := by
  constructor
  · intro h
    obtain ⟨after, ht⟩ := readPlaceholder_raw h
    exact ⟨wellFormed_of_readPlaceholder h, after, ht.symm⟩
  · rintro ⟨hp, after, rfl⟩
    exact readPlaceholder_of_wellFormed hp after

theorem readPlaceholder_eq_none_iff {t : Text} :
    readPlaceholder t = none ↔ ¬BeginsPlaceholder t := by
  rw [Option.eq_none_iff_forall_ne_some]
  constructor
  · rintro h ⟨p, hp⟩
    exact h p (readPlaceholder_eq_some_iff.mpr hp)
  · intro h p hp
    exact h ⟨p, readPlaceholder_eq_some_iff.mp hp⟩

/-! ## The steps of the parser -/

theorem parseFrom_eq_drop (n : Nat) (t : Text) : parseFrom n t = parseFrom 0 (t.drop n) := by
  induction t generalizing n with
  | nil => simp [parseFrom]
  | cons c t ih =>
    cases n with
    | zero => rfl
    | succ n => rw [parseFrom, List.drop_succ_cons, ih]

theorem parse_nil : parse [] = [] := rfl

/-- A placeholder at the front is one segment. -/
theorem parse_append_of_wellFormed {p : Placeholder} (h : WellFormed p) (rest : Text) :
    parse (p.raw ++ rest) = .placeholder p :: parse rest := by
  have hread := readPlaceholder_of_wellFormed h rest
  obtain ⟨c, raw, hraw⟩ := List.exists_cons_of_ne_nil (readPlaceholder_raw_ne_nil hread)
  have hlen : p.raw.length - 1 = raw.length := by
    rw [hraw]
    rfl
  rw [hraw, List.cons_append] at hread ⊢
  rw [parse_eq_parseFrom, parse_eq_parseFrom, parseFrom, hread]
  simp only [hlen]
  rw [parseFrom_eq_drop raw.length, List.drop_left]

/-- Where no placeholder begins, one more character is literal. -/
theorem parse_cons_of_not_begins {c : Char} {t : Text} (h : ¬BeginsPlaceholder (c :: t)) :
    parse (c :: t) = consLiteral c (parse t) := by
  rw [parse_eq_parseFrom, parse_eq_parseFrom, parseFrom, readPlaceholder_eq_none_iff.mpr h]

/-! ## The steps of a segmentation -/

theorem segmentation_nil_iff {input : Text} : Segmentation input [] ↔ input = [] := by
  constructor
  · intro h
    exact h.written.symm
  · rintro rfl
    refine ⟨rfl, by simp, ?_, by simp, ?_⟩
    · intro before t u after h
      exact absurd h.symm (by simp)
    · intro before x y after h
      exact absurd h.symm (by simp)

/-- **The first segment can be taken off.** A placeholder is well formed; a literal is not empty, no
other literal follows it, and no placeholder begins inside it. -/
theorem segmentation_cons_iff {input : Text} {s : Segment} {segments : List Segment} :
    Segmentation input (s :: segments) ↔
      (∀ p, s = .placeholder p → WellFormed p) ∧
      (∀ t, s = .literal t → t ≠ [] ∧ (∀ u after, segments ≠ .literal u :: after) ∧
        ∀ x y, t = x ++ y → y ≠ [] →
          ¬BeginsPlaceholder (y ++ segments.flatMap Segment.written)) ∧
      ∃ rest, input = s.written ++ rest ∧ Segmentation rest segments := by
  constructor
  · intro h
    refine ⟨fun p hp => h.wellFormed p (by simp [hp]), ?_, segments.flatMap Segment.written,
      h.written.symm, ?_⟩
    · rintro t rfl
      refine ⟨h.literal_ne_nil t List.mem_cons_self, ?_, ?_⟩
      · intro u after he
        exact h.not_adjacent [] t u after (by rw [he]; rfl)
      · intro x y he
        exact h.leftmost [] x y segments (by rw [he]; rfl)
    · refine ⟨rfl, fun u hu => h.literal_ne_nil u (List.mem_cons_of_mem _ hu), ?_,
        fun q hq => h.wellFormed q (List.mem_cons_of_mem _ hq), ?_⟩
      · intro before u v after he
        exact h.not_adjacent (s :: before) u v after (by rw [he]; rfl)
      · intro before x y after he
        exact h.leftmost (s :: before) x y after (by rw [he]; rfl)
  · rintro ⟨hplaceholder, hliteral, rest, rfl, h⟩
    -- what is asked of every place in the list is asked of its front or of a place in `segments`
    refine ⟨by rw [List.flatMap_cons, h.written], ?_, ?_, ?_, ?_⟩
    · intro t ht
      rcases List.mem_cons.mp ht with ht | ht
      · exact (hliteral t ht.symm).1
      · exact h.literal_ne_nil t ht
    · intro before t u after he
      cases before with
      | nil => exact (hliteral t (List.cons.inj he).1).2.1 u after (List.cons.inj he).2
      | cons s' before => exact h.not_adjacent before t u after (List.cons.inj he).2
    · intro q hq
      rcases List.mem_cons.mp hq with hq | hq
      · exact hplaceholder q hq.symm
      · exact h.wellFormed q hq
    · intro before x y after he
      cases before with
      | nil =>
        obtain ⟨hs, rfl⟩ := List.cons.inj he
        exact (hliteral (x ++ y) hs).2.2 x y rfl
      | cons s' before => exact h.leftmost before x y after (List.cons.inj he).2

theorem segmentation_placeholder_iff {input : Text} {p : Placeholder} {segments : List Segment} :
    Segmentation input (.placeholder p :: segments) ↔
      WellFormed p ∧ ∃ rest, input = p.raw ++ rest ∧ Segmentation rest segments := by
  simp [segmentation_cons_iff, Segment.written]

theorem segmentation_literal_iff {input t : Text} {segments : List Segment} :
    Segmentation input (.literal t :: segments) ↔
      (t ≠ [] ∧ (∀ u after, segments ≠ .literal u :: after) ∧
        ∀ x y, t = x ++ y → y ≠ [] →
          ¬BeginsPlaceholder (y ++ segments.flatMap Segment.written)) ∧
      ∃ rest, input = t ++ rest ∧ Segmentation rest segments := by
  simp [segmentation_cons_iff, Segment.written]

theorem consLiteral_of_not_literal {segments : List Segment}
    (h : ∀ u after, segments ≠ .literal u :: after) (c : Char) :
    consLiteral c segments = .literal [c] :: segments := by
  unfold consLiteral
  split
  · exact absurd rfl (h _ _)
  · rfl

/-- One literal character can be put in front where no placeholder begins. -/
theorem Segmentation.consLiteral {c : Char} {t : Text} {segments : List Segment}
    (h : Segmentation t segments) (hc : ¬BeginsPlaceholder (c :: t)) :
    Segmentation (c :: t) (Template.consLiteral c segments) := by
  have hwritten := h.written
  by_cases hfirst : ∃ u after, segments = .literal u :: after
  · -- the character begins the literal that is there
    obtain ⟨u, after, rfl⟩ := hfirst
    obtain ⟨⟨-, hfollow, hinside⟩, rest, rfl, hrest⟩ := segmentation_literal_iff.mp h
    refine segmentation_literal_iff.mpr ⟨⟨by simp, hfollow, ?_⟩, rest, rfl, hrest⟩
    intro x y he hy
    cases x with
    | nil =>
      rw [List.nil_append] at he
      rw [← he, hrest.written]
      exact hc
    | cons d x => exact hinside x y (List.cons.inj he).2 hy
  · -- the character is a literal of its own
    have hnot : ∀ u after, segments ≠ .literal u :: after :=
      fun u after he => hfirst ⟨u, after, he⟩
    rw [consLiteral_of_not_literal hnot]
    refine segmentation_literal_iff.mpr ⟨⟨by simp, hnot, ?_⟩, t, rfl, h⟩
    intro x y he hy
    have hy' : y = [c] := by
      cases x with
      | nil => exact he.symm
      | cons d x => exact absurd (List.append_eq_nil_iff.mp (List.cons.inj he).2.symm).2 hy
    rw [hy', hwritten]
    exact hc

/-- **One literal character at the front can be taken off**, and there no placeholder begins. -/
theorem Segmentation.exists_consLiteral {c : Char} {u input : Text} {segments : List Segment}
    (h : Segmentation input (.literal (c :: u) :: segments)) :
    ∃ t rest, input = c :: t ∧ ¬BeginsPlaceholder (c :: t) ∧
      Template.consLiteral c rest = .literal (c :: u) :: segments ∧ Segmentation t rest := by
  obtain ⟨⟨-, hfollow, hinside⟩, after, rfl, hafter⟩ := segmentation_literal_iff.mp h
  have hc : ¬BeginsPlaceholder (c :: (u ++ after)) := by
    have hwhole := hinside [] (c :: u) rfl (by simp)
    rwa [hafter.written, List.cons_append] at hwhole
  cases u with
  | nil => exact ⟨after, segments, rfl, hc, consLiteral_of_not_literal hfollow c, hafter⟩
  | cons d u =>
    refine ⟨d :: u ++ after, .literal (d :: u) :: segments, rfl, hc, rfl, ?_⟩
    refine segmentation_literal_iff.mpr ⟨⟨by simp, hfollow, ?_⟩, after, rfl, hafter⟩
    intro x y he
    exact hinside (c :: x) y (by rw [he]; rfl)

/-! ## The parser and the grammar -/

theorem length_lt_of_wellFormed {p : Placeholder} (h : WellFormed p) (rest : Text) :
    rest.length < (p.raw ++ rest).length := by
  have hne : p.raw ≠ [] := readPlaceholder_raw_ne_nil (readPlaceholder_of_wellFormed h [])
  have hpos := List.length_pos_iff.mpr hne
  rw [List.length_append]
  omega

/-- The parser gives a segmentation. -/
theorem segmentation_parse (input : Text) : Segmentation input (parse input) := by
  match input with
  | [] => exact segmentation_nil_iff.mpr rfl
  | c :: t =>
    by_cases hbegins : BeginsPlaceholder (c :: t)
    · obtain ⟨p, hp, rest, hrest⟩ := hbegins
      have hlen : rest.length < (c :: t).length := hrest ▸ length_lt_of_wellFormed hp rest
      rw [← hrest, parse_append_of_wellFormed hp]
      exact segmentation_placeholder_iff.mpr ⟨hp, rest, rfl, segmentation_parse rest⟩
    · rw [parse_cons_of_not_begins hbegins]
      exact (segmentation_parse t).consLiteral hbegins
termination_by input.length
decreasing_by
  · exact hlen
  · exact Nat.lt_succ_self _

/-- There is no other. -/
theorem Segmentation.eq_parse {input : Text} {segments : List Segment}
    (h : Segmentation input segments) : segments = parse input := by
  match segments with
  | [] => rw [segmentation_nil_iff.mp h, parse_nil]
  | .placeholder p :: segments =>
    obtain ⟨hp, rest, hrest, hsegments⟩ := segmentation_placeholder_iff.mp h
    have hlen : rest.length < input.length := hrest ▸ length_lt_of_wellFormed hp rest
    rw [hrest, parse_append_of_wellFormed hp, ← hsegments.eq_parse]
  | .literal [] :: segments => exact absurd rfl (h.literal_ne_nil [] List.mem_cons_self)
  | .literal (c :: u) :: segments =>
    obtain ⟨t, rest, hinput, hc, hcons, ht⟩ := h.exists_consLiteral
    have hlen : t.length < input.length := by
      rw [hinput, List.length_cons]
      omega
    rw [hinput, parse_cons_of_not_begins hc, ← ht.eq_parse, hcons]
termination_by input.length

/-- **The parser accepts exactly the grammar, leftmost first:** a list of segments is a segmentation
of the text exactly if it is what the parser gives. -/
theorem segmentation_iff (input : Text) (segments : List Segment) :
    Segmentation input segments ↔ segments = parse input := by
  constructor
  · intro h
    exact h.eq_parse
  · rintro rfl
    exact segmentation_parse input

end BuildPlan.Template
