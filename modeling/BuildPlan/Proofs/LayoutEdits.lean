import BuildPlan.Description.Sections
import BuildPlan.Proofs.LineRoles
import BuildPlan.Proofs.Outcome

/-!
# Layout that does not matter

Comment lines can be put into a build description anywhere, also between a key and the lines that
continue its value, and white space can be put behind any line. The sections that are read stay the
same, and so does an error, whose line is only counted anew (`parse_edited`).

`Relaid` relates the lines before and after such an edit, and `statementsFrom_relaid` says that the
two lists are read alike, line by line: where the one list has a line, the other has a line of the
same role, and a comment line leaves the setting that is open as it is.
-/

namespace BuildPlan

/-! ## White space behind a line -/

theorem trim_congr {t u : Text} (h : trimEnd t = trimEnd u) : trim t = trim u := by
  obtain ⟨x, hx, ht⟩ := exists_trimEnd t
  obtain ⟨y, hy, hu⟩ := exists_trimEnd u
  rw [ht, hu, trim_append_right _ hx, trim_append_right _ hy, h]

/-- Whether a line is indented does not depend on its end, unless it is blank. -/
theorem isIndented_congr {t u : Text} (h : trimEnd t = trimEnd u) (hne : trim t ≠ []) :
    isIndented t = isIndented u := by
  obtain ⟨x, hx, ht⟩ := exists_trimEnd t
  obtain ⟨y, -, hu⟩ := exists_trimEnd u
  rw [← h] at hu
  cases hend : trimEnd t with
  | nil =>
    rw [hend] at ht
    refine absurd ?_ hne
    rw [ht, trim_append_right [] hx]
    rfl
  | cons c rest =>
    rw [ht, hu, hend]
    rfl

theorem trimEnd_dropReturn (line : Text) : trimEnd (dropReturn line) = trimEnd line := by
  unfold dropReturn
  split
  · rename_i rest hrev
    have hline : line = rest.reverse ++ ['\r'] := by
      rw [← List.reverse_reverse line, hrev, List.reverse_cons]
    have hreturn : AllBlank ['\r'] := by decide
    rw [hline, trimEnd_append _ hreturn]
  · rfl

/-! ## Lines under other numbers -/

/-- The statement with the new number of its line. -/
def Statement.renumber (f : Nat → Nat) : Statement → Statement
  | .header n name => .header (f n) name
  | .setting n key value => .setting (f n) key value
  | .unreadable n text => .unreadable (f n) text

/-- The error with the new number of its line. -/
def LayoutError.renumber (f : Nat → Nat) : LayoutError → LayoutError
  | .missingHeader n => .missingHeader (f n)
  | .unreadable n text => .unreadable (f n) text
  | .duplicateSection n name => .duplicateSection (f n) name
  | .duplicateKey n name key => .duplicateKey (f n) name key

namespace Description

/-- The setting with the new number of its line. -/
def OpenSetting.renumber (f : Nat → Nat) (o : OpenSetting) : OpenSetting :=
  { o with line := f o.line }

variable {f : Nat → Nat}

theorem closeSetting_renumber (s : Option OpenSetting) :
    closeSetting (s.map (OpenSetting.renumber f))
      = (closeSetting s).map (Statement.renumber f) := by
  cases s <;> rfl

theorem firstMark_congr {line line' : Text} (h : trimEnd line' = trimEnd line) :
    firstMark line' = firstMark line := by
  rw [firstMark_eq_head?, firstMark_eq_head?, trim_congr h]

/-- White space at its end does not change what a line is. -/
theorem role_congr {line line' : Text} (h : trimEnd line' = trimEnd line) (keySeen : Bool) :
    role keySeen line' = role keySeen line := by
  unfold role
  rw [firstMark_congr h, trim_congr h]
  by_cases hblank : firstMark line = none
  · rw [if_pos hblank, if_pos hblank]
  · have hne : trim line' ≠ [] := by
      rw [← firstMark_congr h, firstMark_eq_head?] at hblank
      exact fun he => hblank (List.head?_eq_none_iff.mpr he)
    rw [isIndented_congr h hne]

/-- The second list of lines is the first one with comment lines put in and with other white space
at the ends of the lines. The first lines have the numbers `n` and `n'`, and `f` gives the new
number of every line of the first list. -/
inductive Relaid (f : Nat → Nat) : Nat → Nat → List Text → List Text → Prop where
  | nil {n n' : Nat} : Relaid f n n' [] []
  | comment {n n' : Nat} {ls ls' : List Text} {line : Text}
      (hmark : firstMark line = some '#' ∨ firstMark line = some ';')
      (h : Relaid f n (n' + 1) ls ls') : Relaid f n n' ls (line :: ls')
  | line {n n' : Nat} {ls ls' : List Text} {line line' : Text} (hend : trimEnd line' = trimEnd line)
      (hnumber : f n = n') (h : Relaid f (n + 1) (n' + 1) ls ls') :
      Relaid f n n' (line :: ls) (line' :: ls')

/-- **Lines that were laid out anew are read alike**, and their statements have the new numbers. -/
theorem statementsFrom_relaid {n n' : Nat} {ls ls' : List Text} (h : Relaid f n n' ls ls')
    (s : Option OpenSetting) :
    statementsFrom n' (s.map (OpenSetting.renumber f)) ls'
      = (statementsFrom n s ls).map (Statement.renumber f) := by
  -- a comment line is a step of the second list alone, which leaves the open setting as it is
  induction h generalizing s with
  | nil => exact closeSetting_renumber s
  | comment hmark _ ih => rw [statementsFrom_comment (role_eq_comment_iff.mpr hmark), ih]
  | @line n n' ls ls' line line' hend hnumber _ ih =>
    have hrole' : role (s.map (OpenSetting.renumber f)).isSome line' = role s.isSome line := by
      rw [Option.isSome_map, role_congr hend]
    have htrim : trim line' = trim line := trim_congr hend
    subst hnumber
    cases hrole : role s.isSome line with
    | blank =>
      rw [hrole] at hrole'
      rw [statementsFrom_blank hrole, statementsFrom_blank hrole', ← ih]
      cases s <;> rfl
    | comment =>
      rw [hrole] at hrole'
      rw [statementsFrom_comment hrole, statementsFrom_comment hrole', ih]
    | continuation =>
      obtain ⟨o, rfl⟩ := Option.isSome_iff_exists.mp (role_eq_continuation_iff.mp hrole).2.2
      rw [hrole] at hrole'
      rw [statementsFrom_continuation hrole, ← ih, Option.map_some,
        statementsFrom_continuation hrole', htrim]
      rfl
    | header =>
      rw [hrole] at hrole'
      rw [statementsFrom_header hrole, statementsFrom_header hrole', htrim, closeSetting_renumber,
        List.map_append, List.map_cons, ← ih]
      rfl
    | key =>
      rw [hrole] at hrole'
      rcases setsKey_or (trim line) with ⟨key, value, hsets, hne⟩ | hnone
      · rw [statementsFrom_key hrole hsets hne, statementsFrom_key hrole' (htrim ▸ hsets) hne,
          closeSetting_renumber, List.map_append, ← ih]
        rfl
      · rw [statementsFrom_unreadable hrole hnone, statementsFrom_unreadable hrole' (htrim ▸ hnone),
          htrim, closeSetting_renumber, List.map_append, List.map_cons, ← ih]
        rfl

end Description

namespace Sections

open Description

/-- The number of a line is only used to report it. -/
theorem add_renumber (f : Nat → Nat) (s : Sections) (st : Statement) :
    s.add (st.renumber f) = (s.add st).mapError (LayoutError.renumber f) := by
  cases st with
  | header n name =>
    show (if s.contains name then _ else _) = Except.mapError _ (if s.contains name then _ else _)
    split <;> rfl
  | setting n key value =>
    unfold Statement.renumber add
    cases last? s with
    | none => rfl
    | some entry =>
      show (if entry.2.contains key then _ else _)
        = Except.mapError _ (if entry.2.contains key then _ else _)
      split <;> rfl
  | unreadable n text =>
    unfold Statement.renumber add
    cases last? s <;> rfl

theorem ofLines_relaid {f : Nat → Nat} {ls ls' : List Text} (h : Relaid f 1 1 ls ls') :
    ofLines ls' = (ofLines ls).mapError (LayoutError.renumber f) := by
  have hstatements : statements ls' = (statements ls).map (Statement.renumber f) :=
    statementsFrom_relaid h none
  rw [ofLines, hstatements]
  exact Outcome.foldlM_map_of_mapError (add_renumber f) (statements ls) .empty

end Sections

/-! ## Edits -/

namespace Description

/-- One line of an edited text: a comment line that was put in, or a line that was there before,
with white space put behind it. -/
inductive Edit where
  | comment (line : Text) (hmark : firstMark line = some '#' ∨ firstMark line = some ';')
      (hline : '\n' ∉ line)
  | keep (line blanks : Text) (hblank : AllBlank blanks) (hline : '\n' ∉ blanks)

namespace Edit

/-- The line that was there before. -/
def old? : Edit → Option Text
  | .comment .. => none
  | .keep line .. => some line

/-- The line that is there afterwards. -/
def new : Edit → Text
  | .comment line .. => line
  | .keep line blanks .. => line ++ blanks

/-- The lines before the edits. -/
def before (es : List Edit) : List Text := es.filterMap old?

/-- The lines after the edits. -/
def after (es : List Edit) : List Text := es.map new

/-- The edited text. -/
def text (es : List Edit) : Text := (after es).flatMap (· ++ ['\n'])

/-- How many lines were put in before the line that had the number `n`. -/
def insertedBefore : List Edit → Nat → Nat
  | [], _ => 0
  | .comment .. :: es, n => insertedBefore es n + 1
  | .keep .. :: es, n => if n ≤ 1 then 0 else insertedBefore es (n - 1)

/-- **Edited lines are the lines before, laid out anew.** The new numbers only have to be right from
the first line on, which has the number `n`. -/
theorem relaid {f : Nat → Nat} {n n' : Nat} {ls' : List Text} (es : List Edit)
    (hls' : ls'.map trimEnd = (after es).map trimEnd)
    (hf : ∀ k, f (n + k) = n' + k + insertedBefore es (k + 1)) : Relaid f n n' (before es) ls' := by
  induction es generalizing n n' ls' with
  | nil =>
    rw [List.map_eq_nil_iff.mp hls']
    exact .nil
  | cons e es ih =>
    obtain ⟨line', rest', rfl, hline', hrest'⟩ := List.map_eq_cons_iff.mp hls'
    cases e with
    | comment line hmark hline =>
      refine .comment ?_ (ih hrest' fun k => ?_)
      · rw [firstMark_congr hline']
        exact hmark
      · have hk : f (n + k) = n' + k + (insertedBefore es (k + 1) + 1) := hf k
        omega
    | keep line blanks hblank hline =>
      refine .line (hline'.trans (trimEnd_append line hblank)) (hf 0) (ih hrest' fun k => ?_)
      -- line `k` of the rest is line `k + 1` here, and nothing was put in before the first
      have hk : f (n + (k + 1)) = n' + (k + 1) + insertedBefore es (k + 1) := hf (k + 1)
      rw [show n + 1 + k = n + (k + 1) by omega, hk]
      omega

theorem newline_not_mem_of_mem_after {t : Text} {es : List Edit} (h : before es = lines t) :
    ∀ line ∈ after es, '\n' ∉ line := by
  intro line hmem
  obtain ⟨e, he, rfl⟩ := List.mem_map.mp hmem
  cases e with
  | comment _ _ hline => exact hline
  | keep line blanks hblank hline =>
    have hold : line ∈ lines t := h ▸ List.mem_filterMap.mpr ⟨_, he, rfl⟩
    show '\n' ∉ line ++ blanks
    rw [List.mem_append, not_or]
    exact ⟨newline_not_mem_of_mem_lines hold, hline⟩

/-- The edited text has the edited lines, but for carriage returns at their ends. -/
theorem trimEnd_lines_text {t : Text} {es : List Edit} (h : before es = lines t) :
    (lines (text es)).map trimEnd = (after es).map trimEnd := by
  rw [text, lines_flatMap_newline (newline_not_mem_of_mem_after h), List.map_map]
  exact List.map_congr_left fun line _ => trimEnd_dropReturn line

end Edit

end Description

namespace Sections

open Description

/-- **Comment lines and white space at the ends of lines do not matter.** Where the lines of a text
are edited in these two ways, the edited text, and every text with the edited lines, has the same
sections; or it has the same error, in a line whose number has grown by the number of the lines put
in before it. -/
theorem parse_edited (t : Text) (es : List Edit) (h : Edit.before es = lines t) :
    parse (Edit.text es)
        = (parse t).mapError (LayoutError.renumber fun n => n + Edit.insertedBefore es n) ∧
      ∀ t', (lines t').map trimEnd = (Edit.after es).map trimEnd →
        parse t'
          = (parse t).mapError (LayoutError.renumber fun n => n + Edit.insertedBefore es n) := by
  have hall : ∀ t', (lines t').map trimEnd = (Edit.after es).map trimEnd →
      parse t'
        = (parse t).mapError (LayoutError.renumber fun n => n + Edit.insertedBefore es n) := by
    intro t' ht'
    have hrelaid : Relaid (fun n => n + Edit.insertedBefore es n) 1 1 (lines t) (lines t') := by
      rw [← h]
      exact Edit.relaid es ht' fun k => by rw [Nat.add_comm 1 k]
    exact ofLines_relaid hrelaid
  exact ⟨hall (Edit.text es) (Edit.trimEnd_lines_text h), hall⟩

/-- Comment lines inside a value of two lines and before a key that is set twice, and carriage
returns. -/
def annotating : List Edit :=
  [.keep "[a]" "\r" (by decide) (by decide),
    .keep "k = x" "" (by decide) (by decide),
    .comment "# inside the value" (Or.inl rfl) (by decide),
    .keep "" " \t" (by decide) (by decide),
    .comment "  ; still inside" (Or.inr rfl) (by decide),
    .keep "  y" "  " (by decide) (by decide),
    .comment "#" (Or.inl rfl) (by decide),
    .keep "k = z" "\r" (by decide) (by decide),
    .comment ";" (Or.inr rfl) (by decide)]

theorem parse_edited_annotating :
    Edit.before annotating = lines "[a]\nk = x\n\n  y\nk = z" ∧
      parse "[a]\nk = x\n\n  y\nk = z" = .error (.duplicateKey 5 "a" "k") ∧
      parse (Edit.text annotating) = .error (.duplicateKey 8 "a" "k") ∧
      parse "[a]\nk = x\r\n# inside the value \n\n  ; still inside\r\n  y\n#\nk = z\n;\r"
        = .error (.duplicateKey 8 "a" "k") := by
  have hlines : Edit.before annotating = lines "[a]\nk = x\n\n  y\nk = z" := by decide +kernel
  have hparse : parse "[a]\nk = x\n\n  y\nk = z" = .error (.duplicateKey 5 "a" "k") := rfl
  obtain ⟨hedited, hall⟩ := parse_edited "[a]\nk = x\n\n  y\nk = z" annotating hlines
  rw [hparse] at hedited hall
  exact ⟨hlines, hparse, hedited, hall _ (by decide +kernel)⟩

end Sections

end BuildPlan
