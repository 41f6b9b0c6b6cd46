import BuildPlan.Proofs.SectionLayout

/-!
# Which sections can be written

Not every list of sections can be read from a text. `Writable` says which can: names and keys are
trimmed and stand in one line, a key holds no separator, no key and no further line of a value looks
like a comment, a value does not end in a blank line, and no key line looks like a header.

`write` gives such sections a text. Everything that is read is writable (`writable_of_parse`), and
everything writable is read back from its text (`exists_parse_write`), so `Writable` is the image of
`Sections.parse`.
-/

namespace BuildPlan.Description

/-! ## Writable sections -/

/-- The text does not begin like a comment. -/
def NoComment (t : Text) : Prop := t.head? ≠ some '#' ∧ t.head? ≠ some ';'

/-- The first line of a value. -/
def firstLine (value : Text) : Text := (value.splitOn '\n').headD []

/-- The lines of a value behind its first. -/
def furtherLines (value : Text) : List Text := (value.splitOn '\n').tail

/-- A text that can stand before the separator of a key line. -/
structure WritableKey (key : Text) : Prop where
  ne_nil : key ≠ []
  trimmed : Trimmed key
  newline : '\n' ∉ key
  equals : '=' ∉ key
  colon : ':' ∉ key
  comment : NoComment key

/-- A text that can be a value. -/
structure WritableValue (value : Text) : Prop where
  first : Trimmed (firstLine value)
  further : ∀ line ∈ furtherLines value, Trimmed line ∧ NoComment line
  /-- Blank lines at the end of a value are no part of it. -/
  last : (furtherLines value).getLast? ≠ some []

/-- A key and a value that can be set. -/
structure WritableSetting (d : Text × Text) : Prop where
  key : WritableKey d.1
  value : WritableValue d.2
  /-- The key line is no header. -/
  header : d.1.head? = some '[' → (firstLine d.2).getLast? ≠ some ']'

/-- Sections that can be read from some text. -/
structure Writable (secs : List (Text × List (Text × Text))) : Prop where
  names_nodup : (secs.map Prod.fst).Nodup
  names : ∀ e ∈ secs, Trimmed e.1 ∧ '\n' ∉ e.1
  keys_nodup : ∀ e ∈ secs, (e.2.map Prod.fst).Nodup
  settings : ∀ e ∈ secs, ∀ d ∈ e.2, WritableSetting d

/-! ## Their text -/

/-- The line that opens a section. -/
def headerLine (name : Text) : Text := '[' :: (name ++ [']'])

/-- The line that sets a key to the first line of its value. -/
def keyLine (key first : Text) : Text := key ++ " = " ++ first

/-- The line for a further line of a value. -/
def furtherLine (line : Text) : Text := if line = [] then [] else "  " ++ line

/-- The lines that set a key. -/
def settingLines (d : Text × Text) : List Text :=
  keyLine d.1 (firstLine d.2) :: (furtherLines d.2).map furtherLine

/-- The lines of a section. -/
def sectionLines (e : Text × List (Text × Text)) : List Text :=
  headerLine e.1 :: e.2.flatMap settingLines

/-- The text of sections. -/
def write (secs : List (Text × List (Text × Text))) : Text :=
  (secs.flatMap sectionLines).flatMap (· ++ ['\n'])

/-! ## The lines of a value -/

theorem splitOn_eq_cons (value : Text) :
    value.splitOn '\n' = firstLine value :: furtherLines value := by
  obtain ⟨first, further, h⟩ := List.exists_cons_of_ne_nil (List.splitOn_ne_nil '\n' value)
  rw [firstLine, furtherLines, h]
  rfl

theorem newline_not_mem_firstLine (value : Text) : '\n' ∉ firstLine value :=
  not_mem_of_mem_splitOn (splitOn_eq_cons value ▸ List.mem_cons_self)

theorem newline_not_mem_furtherLines {value line : Text} (h : line ∈ furtherLines value) :
    '\n' ∉ line :=
  not_mem_of_mem_splitOn (splitOn_eq_cons value ▸ List.mem_cons_of_mem _ h)

theorem value_eq_append (value : Text) :
    value = firstLine value ++ (furtherLines value).flatMap ('\n' :: ·) := by
  have hjoin : ∀ (first : Text) (further : List Text),
      ['\n'].intercalate (first :: further) = first ++ further.flatMap ('\n' :: ·) := by
    intro first further
    induction further generalizing first with
    | nil => simp [List.intercalate]
    | cons line further ih =>
      have h := ih line
      rw [List.flatMap_cons, List.cons_append, ← h]
      simp [List.intercalate]
  rw [← hjoin, ← splitOn_eq_cons, List.intercalate_splitOn]

/-- The lines of a value are those it was made from. -/
theorem lines_of_value {first : Text} {further : List Text} (hfirst : '\n' ∉ first)
    (hfurther : ∀ line ∈ further, '\n' ∉ line) :
    firstLine (first ++ further.flatMap ('\n' :: ·)) = first ∧
      furtherLines (first ++ further.flatMap ('\n' :: ·)) = further := by
  have h := splitOn_flatMap_cons hfirst hfurther
  rw [splitOn_eq_cons, List.cons.injEq] at h
  exact h

/-! ## What is read is writable -/

theorem significant_iff {line : Text} :
    Significant line ↔ trim line ≠ [] ∧ NoComment (trim line) := by
  rw [Significant, firstMark_eq_head?, Ne, List.head?_eq_none_iff]
  rfl

/-- A key is the beginning of its trimmed line and the value the end of it. -/
theorem SetsKey.ends {line key value : Text} (h : SetsKey (trim line) key value) (hne : key ≠ []) :
    key.head? = (trim line).head? ∧ (value ≠ [] → value.getLast? = (trim line).getLast?) := by
  obtain ⟨before, sep, after, ht, -, -, -, rfl, rfl⟩ := h
  have htrimmed := trimmed_trim line
  rw [ht] at htrimmed ⊢
  constructor
  · obtain ⟨x, y, hx, -, hbefore⟩ := exists_trim before
    rw [hbefore, List.append_assoc, List.append_assoc] at htrimmed
    obtain rfl := eq_nil_of_trimmed_append htrimmed hx
    obtain ⟨c, rest, hc⟩ := List.exists_cons_of_ne_nil hne
    conv => rhs; rw [hbefore, hc]
    rw [hc]
    rfl
  · intro hvalue
    obtain ⟨x, y, -, hy, hafter⟩ := exists_trim after
    have hsplit : before ++ sep :: after = before ++ sep :: (x ++ trim after) ++ y := by
      conv => lhs; rw [hafter]
      simp
    rw [hsplit] at htrimmed ⊢
    obtain rfl := eq_nil_of_append_trimmed htrimmed hy
    obtain ⟨c, hc⟩ := Option.ne_none_iff_exists'.mp (mt List.getLast?_eq_none_iff.mp hvalue)
    rw [List.append_nil, ← List.cons_append, ← List.append_assoc, List.getLast?_append, hc]
    rfl

/-- The lines that a continuation line adds to a value. -/
def Continuation.added (c : Continuation) : List Text :=
  List.replicate (blankCount c.gap) [] ++ [trim c.line]

theorem Continuation.text_eq (c : Continuation) : c.text = c.added.flatMap ('\n' :: ·) := by
  have hblank :
      ∀ n, (List.replicate n ([] : Text)).flatMap ('\n' :: ·) = List.replicate n '\n' := by
    intro n
    induction n with
    | zero => rfl
    | succ n ih => rw [List.replicate_succ, List.flatMap_cons, ih, List.replicate_succ]; rfl
  rw [Continuation.text, Continuation.added, List.flatMap_append, hblank, Nat.add_comm,
    List.replicate_succ']
  simp

theorem mem_added {c : Continuation} {line : Text} (h : line ∈ c.added) :
    line = [] ∨ line = trim c.line := by
  rcases List.mem_append.mp h with h | h
  · exact Or.inl (List.eq_of_mem_replicate h)
  · exact Or.inr (List.mem_singleton.mp h)

section Continuations

variable {first : Text} {cs : List Continuation} (hnewline : '\n' ∉ first)
  (hcs : ∀ c ∈ cs, '\n' ∉ c.line ∧ Significant c.line)

include hnewline hcs

/-- **The lines of a value** are the first one and those that its continuation lines add. -/
theorem lines_of_continuations :
    firstLine (first ++ cs.flatMap Continuation.text) = first ∧
      furtherLines (first ++ cs.flatMap Continuation.text) = cs.flatMap Continuation.added := by
  have htext :
      cs.flatMap Continuation.text = (cs.flatMap Continuation.added).flatMap ('\n' :: ·) := by
    rw [List.flatMap_assoc]
    exact List.flatMap_congr fun c _ => c.text_eq
  rw [htext]
  refine lines_of_value hnewline fun line hline hm => ?_
  obtain ⟨c, hc, hadded⟩ := List.mem_flatMap.mp hline
  rcases mem_added hadded with rfl | rfl
  · exact absurd hm List.not_mem_nil
  · exact (hcs c hc).1 (mem_of_mem_trim hm)

theorem writableValue_of_continuations (hfirst : Trimmed first) :
    WritableValue (first ++ cs.flatMap Continuation.text) := by
  obtain ⟨hone, hmore⟩ := lines_of_continuations hnewline hcs
  refine ⟨?_, ?_, ?_⟩
  · rw [hone]
    exact hfirst
  · intro line hline
    rw [hmore] at hline
    obtain ⟨c, hc, hadded⟩ := List.mem_flatMap.mp hline
    rcases mem_added hadded with rfl | rfl
    · exact ⟨rfl, nofun, nofun⟩
    · exact ⟨trimmed_trim _, (significant_iff.mp (hcs c hc).2).2⟩
  · rw [hmore]
    intro hlast
    -- the last line is that of the last continuation line
    rcases List.eq_nil_or_concat cs with rfl | ⟨front, c, rfl⟩
    · simp at hlast
    · have hc : Significant c.line := (hcs c (by simp)).2
      simp only [List.concat_eq_append, List.flatMap_append, Continuation.added, List.flatMap_cons,
        List.flatMap_nil, List.append_nil] at hlast
      rw [← List.append_assoc, List.getLast?_concat, Option.some.injEq] at hlast
      exact (significant_iff.mp hc).1 hlast

end Continuations

/-- A key line and its continuation lines set a writable key to a writable value. -/
theorem KeyBlock.Gives.writable {k : KeyBlock} {d : Text × Text} (h : k.Gives d)
    (hroles : ∀ r line, (r, line) ∈ k.marked → '\n' ∉ line ∧ ∃ keySeen, role keySeen line = r) :
    WritableSetting d := by
  obtain ⟨hne, first, hsets, hvalue⟩ := h
  obtain ⟨hline, keySeen, hrole⟩ := hroles .key k.line List.mem_cons_self
  obtain ⟨hsig, -, hbr⟩ := role_eq_key_iff.mp hrole
  obtain ⟨hhead, hlast⟩ := hsets.ends hne
  have hcs : ∀ c ∈ k.continuations, '\n' ∉ c.line ∧ Significant c.line := by
    intro c hc
    have hm : (Role.continuation, c.line) ∈ k.marked := by
      refine List.mem_cons_of_mem _ (List.mem_append_left _ (List.mem_flatMap.mpr ⟨c, hc, ?_⟩))
      simp [Continuation.marked]
    obtain ⟨hnewline, seen, hcont⟩ := hroles _ _ hm
    exact ⟨hnewline, (role_eq_continuation_iff.mp hcont).1⟩
  obtain ⟨before, sep, after, ht, -, hequals, hcolon, hkey, hfirst⟩ := hsets
  -- key and value are parts of one line
  have hfree : '\n' ∉ before ∧ '\n' ∉ after := by
    have hm : '\n' ∉ before ++ sep :: after := ht ▸ fun hm => hline (mem_of_mem_trim hm)
    rw [List.mem_append, List.mem_cons, not_or, not_or] at hm
    exact ⟨hm.1, hm.2.2⟩
  have hnewline : '\n' ∉ first := hfirst ▸ fun hm => hfree.2 (mem_of_mem_trim hm)
  refine ⟨⟨hne, hkey ▸ trimmed_trim before, ?_, ?_, ?_, ?_⟩, ?_, ?_⟩
  · exact hkey ▸ fun hm => hfree.1 (mem_of_mem_trim hm)
  · exact hkey ▸ fun hm => hequals (mem_of_mem_trim hm)
  · exact hkey ▸ fun hm => hcolon (mem_of_mem_trim hm)
  · rw [NoComment, hhead]
    exact (significant_iff.mp hsig).2
  · rw [hvalue]
    exact writableValue_of_continuations hnewline hcs (hfirst ▸ trimmed_trim after)
  · intro hbracket hclose
    rw [hvalue, (lines_of_continuations hnewline hcs).1] at hclose
    have hfirstne : first ≠ [] := by
      rintro rfl
      simp at hclose
    exact hbr (bracketed_of_ends (hhead ▸ hbracket) (hlast hfirstne ▸ hclose))

theorem exists_of_forall₂ {α β : Type} {R : α → β → Prop} {l : List α} {l' : List β}
    (h : List.Forall₂ R l l') {y : β} (hy : y ∈ l') : ∃ x ∈ l, R x y := by
  induction h with
  | nil => exact absurd hy List.not_mem_nil
  | cons hxy _ ih =>
    rcases List.mem_cons.mp hy with rfl | hy
    · exact ⟨_, List.mem_cons_self, hxy⟩
    · obtain ⟨x, hx, hR⟩ := ih hy
      exact ⟨x, List.mem_cons_of_mem _ hx, hR⟩

/-- **What is read from a text is writable.** -/
theorem writable_of_parse {t : Text} {s : Sections} (h : Sections.parse t = .ok s) :
    Writable s.contents := by
  obtain ⟨d, hmarked, hgives⟩ := exists_layout h
  have hroles : ∀ b ∈ d.sections, ∀ r line, (r, line) ∈ b.marked →
      '\n' ∉ line ∧ ∃ keySeen, role keySeen line = r := by
    intro b hb r line hm
    have hmark : (r, line) ∈ mark (lines t) :=
      hmarked ▸ List.mem_append_right _ (List.mem_flatMap.mpr ⟨b, hb, hm⟩)
    obtain ⟨hline, hrole⟩ := role_of_mem_markFrom hmark
    exact ⟨newline_not_mem_of_mem_lines hline, hrole⟩
  refine ⟨?_, ?_, ?_, ?_⟩
  · rw [Sections.contents, List.map_map]
    exact s.nodup
  · intro e he
    obtain ⟨b, hb, hname, -⟩ := exists_of_forall₂ hgives he
    obtain ⟨hline, -⟩ := hroles b hb .header b.line List.mem_cons_self
    rw [hname, innerText]
    refine ⟨trimmed_trim _, fun hm => hline (mem_of_mem_trim ?_)⟩
    exact List.mem_of_mem_tail (List.dropLast_subset _ (mem_of_mem_trim hm))
  · intro e he
    obtain ⟨b, -, rfl⟩ := List.mem_map.mp he
    exact b.2.nodup
  · intro e he kv hkv
    obtain ⟨b, hb, -, hkeys⟩ := exists_of_forall₂ hgives he
    obtain ⟨k, hk, hkgives⟩ := exists_of_forall₂ hkeys hkv
    refine hkgives.writable fun r line hm => hroles b hb r line ?_
    exact List.mem_cons_of_mem _ (List.mem_append_right _ (List.mem_flatMap.mpr ⟨k, hk, hm⟩))

/-! ## The roles of written lines -/

theorem trim_headerLine (name : Text) : trim (headerLine name) = headerLine name :=
  trimmed_append (x := ['[']) (y := [']']) rfl rfl nofun nofun name

theorem role_headerLine (keySeen : Bool) (name : Text) :
    role keySeen (headerLine name) = .header := by
  refine role_eq_header_iff.mpr ⟨significant_iff.mpr ?_, fun h => ?_, ?_⟩
  · rw [trim_headerLine]
    exact ⟨nofun, by rw [NoComment, headerLine, List.head?_cons]; decide⟩
  · exact absurd h.1 Bool.false_ne_true
  · rw [trim_headerLine]
    exact bracketed_iff.mpr ⟨name, rfl⟩

theorem trim_keyLine_nil {key : Text} (hkey : WritableKey key) :
    trim (keyLine key []) = key ++ [' '] ++ ['='] := by
  have hline : keyLine key [] = key ++ [' '] ++ ['='] ++ [' '] := by
    simp [keyLine]
  rw [hline, trim_append_right _ (by decide)]
  exact trimmed_append (y := ['=']) hkey.trimmed rfl hkey.ne_nil nofun _

theorem trim_keyLine {key first : Text} (hkey : WritableKey key) (hfirst : Trimmed first)
    (hne : first ≠ []) : trim (keyLine key first) = key ++ [' '] ++ '=' :: ' ' :: first := by
  have hline : keyLine key first = key ++ [' '] ++ '=' :: ' ' :: first := by
    simp [keyLine]
  rw [← hline]
  exact trimmed_append hkey.trimmed hfirst hkey.ne_nil hne _

theorem setsKey_keyLine {key first : Text} (hkey : WritableKey key) (hfirst : Trimmed first) :
    SetsKey (trim (keyLine key first)) key first := by
  have htrim : key = trim (key ++ [' ']) :=
    ((trim_append_right key (by decide)).trans hkey.trimmed).symm
  have hequals : '=' ∉ key ++ [' '] := by simp [hkey.equals]
  have hcolon : ':' ∉ key ++ [' '] := by simp [hkey.colon]
  by_cases hne : first = []
  · subst hne
    exact ⟨key ++ [' '], '=', [], trim_keyLine_nil hkey, Or.inl rfl, hequals, hcolon, htrim, rfl⟩
  · have hvalue : first = trim (' ' :: first) :=
      ((trim_append_left (x := [' ']) (by decide) first).trans hfirst).symm
    exact ⟨key ++ [' '], '=', ' ' :: first, trim_keyLine hkey hfirst hne, Or.inl rfl, hequals,
      hcolon, htrim, hvalue⟩

theorem role_keyLine (keySeen : Bool) {d : Text × Text} (h : WritableSetting d) :
    role keySeen (keyLine d.1 (firstLine d.2)) = .key := by
  obtain ⟨hhead, hlast⟩ := (setsKey_keyLine h.key h.value.first).ends h.key.ne_nil
  refine role_eq_key_iff.mpr ⟨significant_iff.mpr ⟨fun he => ?_, ?_⟩, fun hindent => ?_,
    fun hbr => ?_⟩
  · rw [he] at hhead
    exact h.key.ne_nil (List.head?_eq_none_iff.mp hhead)
  · rw [NoComment, ← hhead]
    exact h.key.comment
  · rw [keyLine, List.append_assoc, isIndented_append h.key.trimmed h.key.ne_nil] at hindent
    exact absurd hindent.1 Bool.false_ne_true
  · by_cases hne : firstLine d.2 = []
    · -- the line ends in its separator
      have hclose := hbr.2.1
      rw [hne, trim_keyLine_nil h.key, List.getLast?_concat] at hclose
      exact absurd hclose (by decide)
    · exact h.header (hhead.trans hbr.1) ((hlast hne).trans hbr.2.1)

theorem trim_furtherLine {line : Text} (h : Trimmed line) : trim (furtherLine line) = line := by
  unfold furtherLine
  split
  · rename_i he
    rw [he]
    rfl
  · exact (trim_append_left (by decide) line).trans h

theorem role_furtherLine {line : Text} (h : Trimmed line ∧ NoComment line) :
    role true (furtherLine line) = if line = [] then .blank else .continuation := by
  split
  · rename_i he
    rw [he]
    rfl
  · rename_i hne
    refine role_eq_continuation_iff.mpr ⟨significant_iff.mpr ?_, ?_, rfl⟩
    · rw [trim_furtherLine h.1]
      exact ⟨hne, h.2⟩
    · rw [furtherLine, if_neg hne]
      rfl

/-! ## What is written is read back -/

/-- **The further lines of a value are put at its end.** `o` is the setting that is open, and the
blank lines it has counted belong to the value as soon as another line follows. -/
theorem statementsFrom_further {further : List Text} (n : Nat) (o : OpenSetting) (rest : List Text)
    (hlines : ∀ line ∈ further, Trimmed line ∧ NoComment line) (hlast : further.getLast? ≠ some [])
    (hopen : further = [] → o.blanks = 0) :
    ∃ m o', statementsFrom n (some o) (further.map furtherLine ++ rest)
      = statementsFrom m (some o') rest ∧
      o'.key = o.key ∧
      o'.value = o.value ++ List.replicate o.blanks '\n' ++ further.flatMap ('\n' :: ·) := by
  induction further generalizing n o with
  | nil => exact ⟨n, o, rfl, rfl, by simp [hopen rfl]⟩
  | cons line further ih =>
    have hrole := role_furtherLine (hlines line List.mem_cons_self)
    have hrest : ∀ l ∈ further, Trimmed l ∧ NoComment l :=
      fun l hl => hlines l (List.mem_cons_of_mem _ hl)
    have hlast' : further.getLast? ≠ some [] := by
      cases further with
      | nil => nofun
      | cons l ls => rwa [List.getLast?_cons_cons] at hlast
    by_cases hne : line = []
    · subst hne
      have hmore : further ≠ [] := by
        rintro rfl
        exact hlast rfl
      obtain ⟨m, o', hrun, hkey, hvalue⟩ := ih (n + 1) o.addBlank hrest hlast' (absurd · hmore)
      refine ⟨m, o', ?_, hkey, ?_⟩
      · rw [← hrun]
        exact statementsFrom_blank (s := some o) hrole
      · have hadd : o.addBlank.value = o.value := rfl
        have hblanks : o.addBlank.blanks = o.blanks + 1 := rfl
        rw [hvalue, hadd, hblanks, List.replicate_succ']
        simp
    · rw [if_neg hne] at hrole
      obtain ⟨m, o', hrun, hkey, hvalue⟩ := ih (n + 1) (o.extend line) hrest hlast' fun _ => rfl
      refine ⟨m, o', ?_, hkey, ?_⟩
      · rw [← hrun, List.map_cons, List.cons_append, statementsFrom_continuation hrole,
          trim_furtherLine (hlines line List.mem_cons_self).1]
      · have hblanks : (o.extend line).blanks = 0 := rfl
        rw [hvalue, OpenSetting.value_extend, hblanks, List.replicate_succ']
        simp

/-- The lines of a setting end the setting before them and leave theirs open. -/
theorem statementsFrom_setting {d : Text × Text} (h : WritableSetting d) (n : Nat)
    (s : Option OpenSetting) (rest : List Text) :
    ∃ m o, statementsFrom n s (settingLines d ++ rest)
      = closeSetting s ++ statementsFrom m (some o) rest ∧
      o.close.unnumbered = .setting 0 d.1 d.2 := by
  obtain ⟨m, o, hrun, hkey, hvalue⟩ :=
    statementsFrom_further (n + 1) ⟨n, d.1, [firstLine d.2], 0⟩ rest
    h.value.further h.value.last fun _ => rfl
  refine ⟨m, o, ?_, ?_⟩
  · rw [← hrun]
    exact statementsFrom_key (role_keyLine _ h) (setsKey_keyLine h.key h.value.first) h.key.ne_nil
  · have hall : o.value = d.2 := by
      rw [value_eq_append d.2, hvalue]
      simp [OpenSetting.value]
    rw [OpenSetting.close, Statement.unnumbered, hkey, hall]

/-- The settings of a section, all but the last of which have been closed. -/
theorem statementsFrom_settings {kvs : List (Text × Text)} (h : ∀ d ∈ kvs, WritableSetting d)
    (n : Nat) (s : Option OpenSetting) (rest : List Text) :
    ∃ m s' l, statementsFrom n s (kvs.flatMap settingLines ++ rest)
      = l ++ statementsFrom m s' rest ∧
      (l ++ closeSetting s').map Statement.unnumbered
        = (closeSetting s).map Statement.unnumbered ++ Sections.settings kvs := by
  induction kvs generalizing n s with
  | nil => exact ⟨n, s, [], rfl, by simp [Sections.settings]⟩
  | cons d kvs ih =>
    obtain ⟨m, o, hfirst, hclose⟩ :=
      statementsFrom_setting (h d List.mem_cons_self) n s (kvs.flatMap settingLines ++ rest)
    obtain ⟨m', s', l, hrest, hl⟩ := ih (fun e he => h e (List.mem_cons_of_mem _ he)) m (some o)
    refine ⟨m', s', closeSetting s ++ l, ?_, ?_⟩
    · rw [List.flatMap_cons, List.append_assoc, hfirst, hrest, List.append_assoc]
    · rw [List.append_assoc, List.map_append, hl, closeSetting, List.map_singleton, hclose]
      rfl

/-- **The statements of written sections are those of the sections.** -/
theorem unnumbered_statementsFrom {secs : List (Text × List (Text × Text))}
    (hnames : ∀ e ∈ secs, Trimmed e.1) (hsettings : ∀ e ∈ secs, ∀ d ∈ e.2, WritableSetting d)
    (n : Nat)
    (s : Option OpenSetting) :
    (statementsFrom n s (secs.flatMap sectionLines)).map Statement.unnumbered
      = (closeSetting s).map Statement.unnumbered ++ Sections.stated secs := by
  induction secs generalizing n s with
  | nil => exact (List.append_nil _).symm
  | cons e secs ih =>
    obtain ⟨m, s', l, hrun, hl⟩ :=
      statementsFrom_settings (hsettings e List.mem_cons_self) (n + 1) none
      (secs.flatMap sectionLines)
    have hinner : innerText (trim (headerLine e.1)) = e.1 := by
      rw [trim_headerLine, headerLine, innerText_bracketed]
      exact hnames e List.mem_cons_self
    have hrest := ih (fun x hx => hnames x (List.mem_cons_of_mem _ hx))
      (fun x hx => hsettings x (List.mem_cons_of_mem _ hx)) m s'
    rw [List.flatMap_cons, sectionLines, List.cons_append,
      statementsFrom_header (role_headerLine _ _),
      hinner, hrun, Sections.stated_cons, List.map_append, List.map_cons, List.map_append, hrest,
      ← List.append_assoc, ← List.map_append, hl]
    rfl

/-! ## The lines of the text -/

theorem getLast?_append_ne_return {x t : Text} (hx : x.getLast? ≠ some '\r') (ht : Trimmed t) :
    (x ++ t).getLast? ≠ some '\r' := by
  rw [List.getLast?_append]
  cases hlast : t.getLast? with
  | none => exact hx
  | some c =>
    rintro ⟨⟩
    exact absurd ((trimmed_iff.mp ht).2 _ hlast) (by decide)

theorem no_line_end_of_mem_sectionLines {e : Text × List (Text × Text)} (hname : '\n' ∉ e.1)
    (hsettings : ∀ d ∈ e.2, WritableSetting d) {line : Text} (h : line ∈ sectionLines e) :
    '\n' ∉ line ∧ line.getLast? ≠ some '\r' := by
  rcases List.mem_cons.mp h with rfl | h
  · refine ⟨by simp [headerLine, hname], ?_⟩
    rw [headerLine, ← List.cons_append, List.getLast?_concat]
    decide
  · obtain ⟨d, hd, h⟩ := List.mem_flatMap.mp h
    have hset := hsettings d hd
    rcases List.mem_cons.mp h with rfl | h
    · refine ⟨by simp [keyLine, hset.key.newline, newline_not_mem_firstLine], ?_⟩
      refine getLast?_append_ne_return ?_ hset.value.first
      have hspace : (d.1 ++ " = ".toList).getLast? = some ' ' := by
        rw [List.getLast?_append]
        rfl
      rw [hspace]
      decide
    · obtain ⟨l, hl, rfl⟩ := List.mem_map.mp h
      unfold furtherLine
      split
      · exact ⟨List.not_mem_nil, nofun⟩
      · refine ⟨by simp [newline_not_mem_furtherLines hl], ?_⟩
        exact getLast?_append_ne_return (by decide) (hset.value.further l hl).1

/-- **Writable sections are read back from their text.** -/
theorem exists_parse_write {secs : List (Text × List (Text × Text))} (h : Writable secs) :
    ∃ s, Sections.parse (write secs) = .ok s ∧ s.contents = secs := by
  have hlines : lines (write secs) = secs.flatMap sectionLines := by
    refine lines_flatMap fun line hline => ?_
    obtain ⟨e, he, hline⟩ := List.mem_flatMap.mp hline
    exact no_line_end_of_mem_sectionLines (h.names e he).2 (h.settings e he) hline
  rw [Sections.parse, hlines]
  exact Sections.exists_ofStatements h.names_nodup h.keys_nodup
    (unnumbered_statementsFrom (fun e he => (h.names e he).1) h.settings 1 none)

example : write [("cc", [("ins", "a.c\n\nb.c"), ("pat", "")])]
    = "[cc]\nins = a.c\n\n  b.c\npat = \n".toList := by decide +kernel

/-- **Sections can be read from some text exactly if they are writable, and then from their own.**
-/
theorem parse_image (secs : List (Text × List (Text × Text))) :
    ((∃ t s, Sections.parse t = .ok s ∧ s.contents = secs) ↔ Writable secs) ∧
      (Writable secs ↔ ∃ s, Sections.parse (write secs) = .ok s ∧ s.contents = secs) := by
  have hread : (∃ t s, Sections.parse t = .ok s ∧ s.contents = secs) → Writable secs := by
    rintro ⟨t, s, hs, rfl⟩
    exact writable_of_parse hs
  refine ⟨⟨hread, fun h => ⟨write secs, exists_parse_write h⟩⟩, exists_parse_write, fun h => ?_⟩
  exact hread ⟨write secs, h⟩

end BuildPlan.Description
