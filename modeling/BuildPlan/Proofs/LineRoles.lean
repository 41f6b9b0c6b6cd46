import BuildPlan.Description.Statement
import BuildPlan.Proofs.Cutting
import BuildPlan.Proofs.Trimming

/-!
# The roles of lines

What a line of a build description is depends on the line and on one thing about the lines before
it: whether a key line has occurred since the last header line. `mark` gives every line its role.

The statements of a build description are read line by line, and what a line does to them depends on
its role alone. One lemma for each role says what (`statementsFrom_blank` and the lemmas after it).
-/

namespace BuildPlan.Description

/-- What a line is. -/
inductive Role where
  | blank
  | comment
  | continuation
  | header
  | key
deriving DecidableEq

/-- The first character of a line that is not white space. -/
def firstMark (line : Text) : Option Char := line.find? fun c => !isBlank c

/-- The line is neither blank nor a comment. -/
def Significant (line : Text) : Prop :=
  firstMark line ≠ none ∧ firstMark line ≠ some '#' ∧ firstMark line ≠ some ';'

/-- The text stands between square brackets. -/
def Bracketed (t : Text) : Prop := t.head? = some '[' ∧ t.getLast? = some ']' ∧ 2 ≤ t.length

instance (t : Text) : Decidable (Bracketed t) := inferInstanceAs (Decidable (_ ∧ _))

/-- What stands between the brackets, trimmed. -/
def innerText (t : Text) : Text := trim t.tail.dropLast

/-- The role of a line, where `keySeen` says whether a key line has occurred since the last header
line. -/
def role (keySeen : Bool) (line : Text) : Role :=
  if firstMark line = none then .blank
  else if firstMark line = some '#' ∨ firstMark line = some ';' then .comment
  else if isIndented line = true ∧ keySeen = true then .continuation
  else if Bracketed (trim line) then .header
  else .key

/-- A key line has occurred since the last header line. `past` holds the roles of the lines before,
the latest first. -/
def keySince (past : List Role) : Bool := (past.takeWhile (· != .header)).contains .key

/-- The lines with their roles, behind lines with the roles `past`, the latest first. -/
def markFrom (past : List Role) : List Text → List (Role × Text)
  | [] => []
  | line :: rest =>
    (role (keySince past) line, line) :: markFrom (role (keySince past) line :: past) rest

/-- The lines of a build description with their roles. -/
def mark (ls : List Text) : List (Role × Text) := markFrom [] ls

/-- Every line has a role that it gets with or without a key line before it. -/
theorem role_of_mem_markFrom {past : List Role} {ls : List Text} {r : Role} {line : Text}
    (h : (r, line) ∈ markFrom past ls) : line ∈ ls ∧ ∃ keySeen, role keySeen line = r := by
  induction ls generalizing past with
  | nil => exact absurd h List.not_mem_nil
  | cons l ls ih =>
    rcases List.mem_cons.mp h with he | h
    · rw [Prod.mk.injEq] at he
      obtain ⟨rfl, rfl⟩ := he
      exact ⟨List.mem_cons_self, _, rfl⟩
    · obtain ⟨hmem, hrole⟩ := ih h
      exact ⟨List.mem_cons_of_mem _ hmem, hrole⟩

/-! ## Single roles -/

variable {keySeen : Bool} {line t : Text}

theorem firstMark_eq_head? (line : Text) : firstMark line = (trim line).head? :=
  (head?_trim_eq_find? line).symm

theorem isEmpty_trim_iff : (trim line).isEmpty = true ↔ firstMark line = none := by
  rw [firstMark_eq_head?, List.isEmpty_iff, List.head?_eq_none_iff]

theorem isComment_trim_iff :
    isComment (trim line) = true ↔ firstMark line = some '#' ∨ firstMark line = some ';' := by
  rw [firstMark_eq_head?, isComment, Bool.or_eq_true, beq_iff_eq, beq_iff_eq]

theorem role_eq_blank_iff : role keySeen line = .blank ↔ firstMark line = none := by
  unfold role
  split
  · rename_i h
    exact iff_of_true rfl h
  · rename_i h
    refine iff_of_false ?_ h
    split
    · exact Role.noConfusion
    · split
      · exact Role.noConfusion
      · split <;> exact Role.noConfusion

theorem role_eq_comment_iff :
    role keySeen line = .comment ↔ firstMark line = some '#' ∨ firstMark line = some ';' := by
  unfold role
  split
  · rename_i h
    rw [h]
    simp
  · split
    · rename_i h
      exact iff_of_true rfl h
    · rename_i h
      refine iff_of_false ?_ h
      split
      · exact Role.noConfusion
      · split <;> exact Role.noConfusion

theorem role_of_significant (h : Significant line) :
    role keySeen line = if isIndented line = true ∧ keySeen = true then .continuation
      else if Bracketed (trim line) then .header else .key := by
  rw [role, if_neg h.1, if_neg (not_or.mpr h.2)]

theorem significant_of_role {r : Role} (h : role keySeen line = r) (hblank : r ≠ .blank)
    (hcomment : r ≠ .comment) : Significant line := by
  subst h
  refine ⟨fun h => hblank (role_eq_blank_iff.mpr h), ?_, ?_⟩
  · exact fun h => hcomment (role_eq_comment_iff.mpr (Or.inl h))
  · exact fun h => hcomment (role_eq_comment_iff.mpr (Or.inr h))

theorem role_eq_continuation_iff :
    role keySeen line = .continuation ↔
      Significant line ∧ isIndented line = true ∧ keySeen = true := by
  constructor
  · intro h
    have hsig := significant_of_role h (by decide) (by decide)
    rw [role_of_significant hsig] at h
    split at h
    · rename_i hindent
      exact ⟨hsig, hindent⟩
    · split at h <;> exact absurd h Role.noConfusion
  · rintro ⟨hsig, hindent⟩
    rw [role_of_significant hsig, if_pos hindent]

theorem role_eq_header_iff :
    role keySeen line = .header ↔
      Significant line ∧ ¬(isIndented line = true ∧ keySeen = true) ∧ Bracketed (trim line) := by
  constructor
  · intro h
    have hsig := significant_of_role h (by decide) (by decide)
    rw [role_of_significant hsig] at h
    split at h
    · exact absurd h Role.noConfusion
    · rename_i hindent
      split at h
      · rename_i hbr
        exact ⟨hsig, hindent, hbr⟩
      · exact absurd h Role.noConfusion
  · rintro ⟨hsig, hindent, hbr⟩
    rw [role_of_significant hsig, if_neg hindent, if_pos hbr]

theorem role_eq_key_iff :
    role keySeen line = .key ↔
      Significant line ∧ ¬(isIndented line = true ∧ keySeen = true) ∧ ¬Bracketed (trim line) := by
  constructor
  · intro h
    have hsig := significant_of_role h (by decide) (by decide)
    rw [role_of_significant hsig] at h
    split at h
    · exact absurd h Role.noConfusion
    · rename_i hindent
      split at h
      · exact absurd h Role.noConfusion
      · rename_i hbr
        exact ⟨hsig, hindent, hbr⟩
  · rintro ⟨hsig, hindent, hbr⟩
    rw [role_of_significant hsig, if_neg hindent, if_neg hbr]

/-! ## Headers and keys -/

theorem bracketed_iff : Bracketed t ↔ ∃ inner, t = '[' :: (inner ++ [']']) := by
  constructor
  · rintro ⟨hhead, hlast, hlength⟩
    cases t with
    | nil => simp at hhead
    | cons c t =>
      have hc : c = '[' := by simpa using hhead
      have hne : t ≠ [] := by
        rintro rfl
        simp at hlength
      rw [List.getLast?_cons_of_ne_nil hne, List.getLast?_eq_some_iff] at hlast
      obtain ⟨inner, rfl⟩ := hlast
      exact ⟨inner, by rw [hc]⟩
  · rintro ⟨inner, rfl⟩
    refine ⟨rfl, ?_, by simp⟩
    rw [← List.cons_append, List.getLast?_concat]

theorem bracketed_of_ends (hhead : t.head? = some '[') (hlast : t.getLast? = some ']') :
    Bracketed t := by
  refine ⟨hhead, hlast, ?_⟩
  -- a single character cannot be both brackets
  match t, hhead, hlast with
  | [c], hhead, hlast => exact absurd (hhead.symm.trans hlast) (by decide)
  | _ :: _ :: _, _, _ => simp

theorem innerText_bracketed (inner : Text) : innerText ('[' :: (inner ++ [']'])) = trim inner := by
  rw [innerText, List.tail_cons, List.dropLast_concat]

theorem headerName?_of_bracketed (h : Bracketed t) : headerName? t = some (innerText t) := by
  obtain ⟨inner, rfl⟩ := bracketed_iff.mp h
  rw [innerText_bracketed, headerName?, List.reverse_append]
  simp

theorem headerName?_of_not_bracketed (h : ¬Bracketed t) : headerName? t = none := by
  unfold headerName?
  split
  · rename_i rest
    split
    · rename_i name hrev
      have hrest : rest = name.reverse ++ [']'] := by
        rw [← List.reverse_reverse rest, hrev, List.reverse_cons]
      exact absurd (bracketed_iff.mpr ⟨name.reverse, by rw [hrest]⟩) h
    · rfl
  · rfl

/-- The text is a key, a separator and a value, which are trimmed; the separator is the first `=` or
`:` of the text. -/
def SetsKey (t key value : Text) : Prop :=
  ∃ before sep after, t = before ++ sep :: after ∧ (sep = '=' ∨ sep = ':') ∧
    '=' ∉ before ∧ ':' ∉ before ∧ key = trim before ∧ value = trim after

theorem keyValue?_eq_some_iff {key value : Text} :
    keyValue? t = some (key, value) ↔ SetsKey t key value ∧ key ≠ [] := by
  unfold keyValue?
  constructor
  · intro h
    split at h
    · rename_i before after hcut
      obtain ⟨sep, ht, hsep, hbefore⟩ := eq_append_of_cutAtFirst hcut
      split at h
      · exact absurd h (by simp)
      · rename_i hne
        simp only [Option.some.injEq, Prod.mk.injEq] at h
        obtain ⟨rfl, rfl⟩ := h
        refine ⟨⟨before, sep, after, ht, by simpa using hsep, ?_, ?_, rfl, rfl⟩,
          fun he => hne (List.isEmpty_iff.mpr he)⟩
        · intro hm
          simpa using hbefore '=' hm
        · intro hm
          simpa using hbefore ':' hm
    · exact absurd h (by simp)
  · rintro ⟨⟨before, sep, after, rfl, hsep, heq, hcolon, rfl, rfl⟩, hne⟩
    have hbefore : ∀ d ∈ before, (d == '=' || d == ':') = false := by
      intro d hd
      have h₁ : d ≠ '=' := fun e => heq (e ▸ hd)
      have h₂ : d ≠ ':' := fun e => hcolon (e ▸ hd)
      simp [h₁, h₂]
    rw [cutAtFirst_append hbefore (by simpa using hsep) after]
    exact if_neg fun he => hne (List.isEmpty_iff.mp he)

/-! ## What a line does -/

variable {n : Nat} {s : Option OpenSetting} {rest : List Text}

theorem not_isComment_of_significant (h : Significant line) : ¬isComment (trim line) = true := by
  rw [isComment_trim_iff, not_or]
  exact h.2

theorem not_isEmpty_of_significant (h : Significant line) : ¬(trim line).isEmpty = true :=
  fun he => h.1 (isEmpty_trim_iff.mp he)

/-- A blank line counts only inside a value. -/
theorem statementsFrom_blank (h : role s.isSome line = .blank) :
    statementsFrom n s (line :: rest)
      = statementsFrom (n + 1) (s.map OpenSetting.addBlank) rest := by
  have hnone := role_eq_blank_iff.mp h
  have hcomment : ¬isComment (trim line) = true := by
    rw [isComment_trim_iff, hnone]
    simp
  exact (if_neg hcomment).trans (if_pos (isEmpty_trim_iff.mpr hnone))

theorem statementsFrom_comment (h : role s.isSome line = .comment) :
    statementsFrom n s (line :: rest) = statementsFrom (n + 1) s rest :=
  if_pos (isComment_trim_iff.mpr (role_eq_comment_iff.mp h))

theorem statementsFrom_continuation {o : OpenSetting} (h : role true line = .continuation) :
    statementsFrom n (some o) (line :: rest)
      = statementsFrom (n + 1) (some (o.extend (trim line))) rest := by
  obtain ⟨hsig, hindent, -⟩ := role_eq_continuation_iff.mp h
  conv => lhs; unfold statementsFrom
  rw [if_neg (not_isComment_of_significant hsig), if_neg (not_isEmpty_of_significant hsig), hindent]

/-- Every other line ends the setting that was open, and is read as if there had been none. -/
theorem statementsFrom_close (hsig : Significant line)
    (hindent : ¬(isIndented line = true ∧ s.isSome = true)) :
    statementsFrom n s (line :: rest) = closeSetting s ++ statementsFrom n none (line :: rest) := by
  unfold statementsFrom
  rw [if_neg (not_isComment_of_significant hsig), if_neg (not_isEmpty_of_significant hsig),
    if_neg (not_isComment_of_significant hsig), if_neg (not_isEmpty_of_significant hsig)]
  cases s with
  | none => rfl
  | some o =>
    have hline : isIndented line = false := by simpa using hindent
    rw [hline]
    rfl

theorem statementsFrom_header (h : role s.isSome line = .header) :
    statementsFrom n s (line :: rest) = closeSetting s ++
      .header n (innerText (trim line)) :: statementsFrom (n + 1) none rest := by
  obtain ⟨hsig, hindent, hbr⟩ := role_eq_header_iff.mp h
  rw [statementsFrom_close hsig hindent]
  congr 1
  conv => lhs; unfold statementsFrom
  rw [if_neg (not_isComment_of_significant hsig), if_neg (not_isEmpty_of_significant hsig),
    headerName?_of_bracketed hbr]
  rfl

theorem statementsFrom_key {key value : Text} (h : role s.isSome line = .key)
    (hsets : SetsKey (trim line) key value) (hne : key ≠ []) :
    statementsFrom n s (line :: rest) = closeSetting s ++
      statementsFrom (n + 1) (some ⟨n, key, [value], 0⟩) rest := by
  obtain ⟨hsig, hindent, hbr⟩ := role_eq_key_iff.mp h
  rw [statementsFrom_close hsig hindent]
  congr 1
  conv => lhs; unfold statementsFrom
  rw [if_neg (not_isComment_of_significant hsig), if_neg (not_isEmpty_of_significant hsig),
    headerName?_of_not_bracketed hbr, keyValue?_eq_some_iff.mpr ⟨hsets, hne⟩]
  rfl

/-- A key line that sets no key is a statement of its own. -/
theorem statementsFrom_unreadable (h : role s.isSome line = .key)
    (hnone : ∀ key value, SetsKey (trim line) key value → key = []) :
    statementsFrom n s (line :: rest) = closeSetting s ++
      .unreadable n (trim line) :: statementsFrom (n + 1) none rest := by
  obtain ⟨hsig, hindent, hbr⟩ := role_eq_key_iff.mp h
  have hkey : keyValue? (trim line) = none := by
    rw [Option.eq_none_iff_forall_ne_some]
    rintro ⟨key, value⟩ hkv
    obtain ⟨hsets, hne⟩ := keyValue?_eq_some_iff.mp hkv
    exact hne (hnone key value hsets)
  rw [statementsFrom_close hsig hindent]
  congr 1
  conv => lhs; unfold statementsFrom
  rw [if_neg (not_isComment_of_significant hsig), if_neg (not_isEmpty_of_significant hsig),
    headerName?_of_not_bracketed hbr, hkey]
  rfl

theorem setsKey_or (t : Text) :
    (∃ key value, SetsKey t key value ∧ key ≠ []) ∨
      ∀ key value, SetsKey t key value → key = [] := by
  by_cases h : ∃ key value, SetsKey t key value ∧ key ≠ []
  · exact Or.inl h
  · exact Or.inr fun key value hsets =>
      Classical.byContradiction fun hne => h ⟨key, value, hsets, hne⟩

/-- Where every statement can be read, every key line sets a key. -/
theorem exists_setsKey (h : role s.isSome line = .key)
    (hread : ∀ m t, .unreadable m t ∉ statementsFrom n s (line :: rest)) :
    ∃ key value, SetsKey (trim line) key value ∧ key ≠ [] := by
  refine (setsKey_or (trim line)).resolve_right fun hnone => ?_
  rw [statementsFrom_unreadable h hnone] at hread
  exact hread n (trim line) (List.mem_append_right _ List.mem_cons_self)

/-! ## One line after the other -/

/-- The same setting is open, or none, however far its value has been read. -/
def SameSetting (s s' : Option OpenSetting) : Prop :=
  s.map (fun o => (o.line, o.key)) = s'.map fun o => (o.line, o.key)

/-- **What one line does.** It completes some statements and leaves a setting open. Either it says
nothing new, or it closes the open setting and is the first line of one statement. -/
theorem exists_line_step (n : Nat) (s : Option OpenSetting) (line : Text) :
    ∃ done s',
      (∀ rest, statementsFrom n s (line :: rest) = done ++ statementsFrom (n + 1) s' rest) ∧
      ((done = [] ∧ SameSetting s s') ∨
        ∃ added st, done = closeSetting s ++ added ∧ added ++ closeSetting s' = [st] ∧
          st.line = n) := by
  cases hrole : role s.isSome line with
  | blank =>
    refine ⟨[], s.map OpenSetting.addBlank, fun _ => statementsFrom_blank hrole, Or.inl ⟨rfl, ?_⟩⟩
    cases s <;> rfl
  | comment => exact ⟨[], s, fun _ => statementsFrom_comment hrole, Or.inl ⟨rfl, rfl⟩⟩
  | continuation =>
    obtain ⟨o, rfl⟩ := Option.isSome_iff_exists.mp (role_eq_continuation_iff.mp hrole).2.2
    exact ⟨[], some (o.extend (trim line)), fun _ => statementsFrom_continuation hrole,
      Or.inl ⟨rfl, rfl⟩⟩
  | header =>
    refine ⟨closeSetting s ++ [.header n (innerText (trim line))], none, fun rest => ?_,
      Or.inr ⟨_, _, rfl, rfl, rfl⟩⟩
    rw [statementsFrom_header hrole, List.append_assoc]
    rfl
  | key =>
    rcases setsKey_or (trim line) with ⟨key, value, hsets, hne⟩ | hnone
    · exact ⟨closeSetting s, some ⟨n, key, [value], 0⟩, fun _ => statementsFrom_key hrole hsets hne,
        Or.inr ⟨[], _, (List.append_nil _).symm, rfl, rfl⟩⟩
    · refine ⟨closeSetting s ++ [.unreadable n (trim line)], none, fun rest => ?_,
        Or.inr ⟨_, _, rfl, rfl, rfl⟩⟩
      rw [statementsFrom_unreadable hrole hnone, List.append_assoc]
      rfl

/-- **Lines are read one after the other.** What is left of the first lines is the setting they
leave open. -/
theorem exists_statementsFrom_append (n : Nat) (s : Option OpenSetting) (ls : List Text) :
    ∃ done s', ∀ more, statementsFrom n s (ls ++ more)
      = done ++ statementsFrom (n + ls.length) s' more := by
  induction ls generalizing n s with
  | nil => exact ⟨[], s, fun _ => rfl⟩
  | cons line ls ih =>
    obtain ⟨done, s', hstep, -⟩ := exists_line_step n s line
    obtain ⟨done', s'', hrest⟩ := ih (n + 1) s'
    refine ⟨done ++ done', s'', fun more => ?_⟩
    have hlength : n + 1 + ls.length = n + (line :: ls).length := by
      rw [List.length_cons]
      omega
    rw [List.cons_append, hstep, hrest, hlength, List.append_assoc]

/-- The statements of the first lines, and how further lines go on: with the setting that is open
then. -/
theorem exists_statements_append (ls : List Text) :
    ∃ done s, statements ls = done ++ closeSetting s ∧
      ∀ more, statements (ls ++ more) = done ++ statementsFrom (1 + ls.length) s more := by
  obtain ⟨done, s, hsplit⟩ := exists_statementsFrom_append 1 none ls
  refine ⟨done, s, ?_, hsplit⟩
  have hend := hsplit []
  rwa [List.append_nil] at hend

/-- An open setting becomes the first statement, whatever its value will be. -/
theorem exists_statementsFrom_some (n : Nat) (o : OpenSetting) (ls : List Text) :
    ∃ value rest, statementsFrom n (some o) ls = .setting o.line o.key value :: rest := by
  induction ls generalizing n o with
  | nil => exact ⟨o.value, [], rfl⟩
  | cons line ls ih =>
    obtain ⟨done, s', hstep, ⟨rfl, hsame⟩ | ⟨added, st, rfl, -⟩⟩ := exists_line_step n (some o) line
    · obtain ⟨o', rfl, hpair⟩ := Option.map_eq_some_iff.mp hsame.symm
      obtain ⟨hline, hkey⟩ := Prod.mk.inj hpair
      obtain ⟨value, rest, h⟩ := ih (n + 1) o'
      rw [hline, hkey] at h
      exact ⟨value, rest, (hstep ls).trans h⟩
    · exact ⟨o.value, added ++ statementsFrom (n + 1) s' ls, hstep ls⟩

end BuildPlan.Description
