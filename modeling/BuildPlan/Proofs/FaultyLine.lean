import Mathlib.Data.List.Induction
import BuildPlan.Proofs.LineRoles
import BuildPlan.Proofs.SectionContents

/-!
# The line of an error

An error in the layout of a build description carries the number of a line. That line is where the
description first goes wrong: the lines before it can be read, and whatever follows it, the error
stays the same (`ofLines_take_of_error`, and for texts `lines_takeLines`).

A duplicate key is found late, when its value is complete. Until then the lines that follow can do
nothing but continue the value, and the value plays no part in the error. So adding lines never
changes an error (`ofLines_append_of_error`), and a line that brings one carries its own number
(`line_of_ofLines_concat`).
-/

namespace BuildPlan

/-! ## Statements that can not be added -/

namespace Sections

variable {s : Sections} {n : Nat} {key : Text} {e : LayoutError}

/-- The error is at the line with which the statement begins. -/
theorem line_of_add {st : Statement} (h : s.add st = .error e) : e.line = st.line := by
  cases st with
  | header n name =>
    rw [add] at h
    split at h
    · rw [← Except.error.inj h]
      rfl
    · exact absurd h (by simp)
  | setting n key value =>
    rw [add] at h
    split at h
    · rw [← Except.error.inj h]
      rfl
    · split at h
      · rw [← Except.error.inj h]
        rfl
      · exact absurd h (by simp)
  | unreadable n text =>
    rw [add] at h
    split at h
    · rw [← Except.error.inj h]
      rfl
    · rw [← Except.error.inj h]
      rfl

/-- Whether a key can be set does not depend on its value. -/
theorem add_setting_error {value : Text} (h : s.add (.setting n key value) = .error e)
    (value' : Text) : s.add (.setting n key value') = .error e := by
  rw [add] at h ⊢
  split at h
  · exact h
  · split at h
    · rename_i hdup
      exact (if_pos hdup).trans h
    · exact absurd h (by simp)

end Sections

/-! ## Lists of lines -/

namespace Sections

variable {ls : List Text} {line : Text} {e : LayoutError}

open Description

/-- **Further lines do not change an error.** -/
theorem ofLines_append_of_error (h : ofLines ls = .error e) (more : List Text) :
    ofLines (ls ++ more) = .error e := by
  obtain ⟨done, s, hls, hsplit⟩ := exists_statements_append ls
  rw [ofLines, ofStatements, hls, Outcome.foldlM_append_eq_error_iff] at h
  rw [ofLines, ofStatements, hsplit, Outcome.foldlM_append_eq_error_iff]
  refine h.imp_right ?_
  rintro ⟨m, hm, hlast⟩
  refine ⟨m, hm, ?_⟩
  -- the error is that of the setting still open, which only gets a longer value
  cases s with
  | none => exact absurd hlast (by simp [closeSetting, pure, Except.pure])
  | some o =>
    rw [closeSetting, Outcome.foldlM_singleton] at hlast
    obtain ⟨value, rest, hfirst⟩ := exists_statementsFrom_some (1 + ls.length) o more
    rw [hfirst]
    exact Outcome.foldlM_cons_eq_error (add_setting_error hlast value) rest

/-- A setting that is closed later brings the same error. -/
theorem run_closeSetting_error {o o' : Option OpenSetting} (hsame : SameSetting o o') {m : Sections}
    (h : (closeSetting o').foldlM add m = .error e) : (closeSetting o).foldlM add m = .error e := by
  cases o' with
  | none => exact absurd h (by simp [closeSetting, pure, Except.pure])
  | some o' =>
    obtain ⟨o, rfl, hpair⟩ := Option.map_eq_some_iff.mp hsame
    obtain ⟨hline, hkey⟩ := Prod.mk.inj hpair
    rw [closeSetting, Outcome.foldlM_singleton, OpenSetting.close] at h ⊢
    rw [hline, hkey]
    exact add_setting_error h o.value

/-- **A line that brings an error carries its number.** -/
theorem line_of_ofLines_concat {s : Sections} (hok : ofLines ls = .ok s)
    (h : ofLines (ls ++ [line]) = .error e) : e.line = ls.length + 1 := by
  obtain ⟨done, o, hls, hsplit⟩ := exists_statements_append ls
  obtain ⟨done', o', hstep, hcases⟩ := exists_line_step (1 + ls.length) o line
  rw [ofLines, ofStatements, hsplit, hstep] at h
  rw [ofLines, ofStatements, hls] at hok
  rcases hcases with ⟨rfl, hsame⟩ | ⟨added, st, rfl, hst, hline⟩
  · -- the same setting is closed at the end, so the error would have been there before
    have hbefore : (done ++ closeSetting o).foldlM add .empty = .error e := by
      rw [Outcome.foldlM_append_eq_error_iff] at h ⊢
      refine h.imp_right ?_
      rintro ⟨m, hm, hlast⟩
      exact ⟨m, hm, run_closeSetting_error hsame hlast⟩
    rw [hok] at hbefore
    exact absurd hbefore (by simp)
  · have hall : done ++ (closeSetting o ++ added ++ statementsFrom (1 + ls.length + 1) o' [])
        = (done ++ closeSetting o) ++ [st] := by
      rw [← hst, List.append_assoc, List.append_assoc]
      rfl
    rw [hall, Outcome.foldlM_append_eq_error_iff, hok] at h
    rcases h with h | ⟨m, hm, h⟩
    · exact absurd h (by simp)
    · rw [Outcome.foldlM_singleton] at h
      rw [line_of_add h, hline, Nat.add_comm]

/-- **An error is at the first line that can not be read**: the lines before it can be, and with it
they can not, for the same reason. -/
theorem ofLines_take_of_error (h : ofLines ls = .error e) :
    0 < e.line ∧ e.line ≤ ls.length ∧ (∃ s, ofLines (ls.take (e.line - 1)) = .ok s) ∧
      ofLines (ls.take e.line) = .error e := by
  induction ls using List.reverseRecOn with
  | nil => exact absurd h (by simp [ofLines, ofStatements, statements, statementsFrom, closeSetting,
      pure, Except.pure])
  | append_singleton ls line ih =>
    cases hls : ofLines ls with
    | error e' =>
      -- the error was there before the last line
      have hsame : e' = e := Except.error.inj ((ofLines_append_of_error hls [line]).symm.trans h)
      obtain ⟨hpos, hle, hbefore, hat⟩ := ih (hsame ▸ hls)
      refine ⟨hpos, ?_, ?_, ?_⟩
      · rw [List.length_append]
        omega
      · rwa [List.take_append_of_le_length (by omega)]
      · rwa [List.take_append_of_le_length hle]
    | ok s =>
      have hline := line_of_ofLines_concat hls h
      have hlength : (ls ++ [line]).length = ls.length + 1 := by simp
      refine ⟨by omega, by omega, ⟨s, ?_⟩, ?_⟩
      · rw [hline, Nat.add_sub_cancel, List.take_left]
        exact hls
      · rw [List.take_of_length_le (by omega)]
        exact h

end Sections

/-! ## Texts -/

/-- The first lines of a text, with their line ends. -/
def takeLines : Nat → Text → Text
  | 0, _ => []
  | _ + 1, [] => []
  | k + 1, c :: cs => c :: takeLines (if c = '\n' then k else k + 1) cs

theorem takeLines_of_not_mem (k : Nat) {t : Text} (h : '\n' ∉ t) : takeLines (k + 1) t = t := by
  induction t with
  | nil => rfl
  | cons c t ih =>
    rw [List.mem_cons, not_or] at h
    rw [takeLines, if_neg (fun e => h.1 e.symm), ih h.2]

theorem takeLines_append_newline (k : Nat) {x : Text} (h : '\n' ∉ x) (y : Text) :
    takeLines (k + 1) (x ++ '\n' :: y) = x ++ '\n' :: takeLines k y := by
  induction x with
  | nil => rw [List.nil_append, takeLines, if_pos rfl, List.nil_append]
  | cons c x ih =>
    rw [List.mem_cons, not_or] at h
    rw [List.cons_append, takeLines, if_neg (fun e => h.1 e.symm), ih h.2, List.cons_append]

/-- **The first lines of a text are its first lines.** -/
theorem lines_takeLines (k : Nat) (t : Text) : lines (takeLines k t) = (lines t).take k := by
  induction k generalizing t with
  | zero =>
    rw [takeLines, List.take_zero, lines, List.splitOn_nil, closeLines, List.isEmpty_nil,
      if_pos rfl]
  | succ k ih =>
    by_cases hnewline : '\n' ∈ t
    · obtain ⟨x, y, rfl, hx⟩ := List.eq_append_cons_of_mem hnewline
      rw [takeLines_append_newline k hx, lines_append_newline, lines_append_newline,
        List.splitOn_eq_singleton hx, ih]
      rfl
    · rw [takeLines_of_not_mem k hnewline, lines, List.splitOn_eq_singleton hnewline, closeLines]
      split
      · rw [List.take_nil]
      · rw [List.take_succ_cons, List.take_nil]

namespace Sections

/-- **An error names the first offending line.** The lines before it can be read. With that line,
and with whatever lines behind it, the error is the same in every part. Conversely the error of some
first lines is the error of all lines. -/
theorem parse_error_line (t : Text) :
    (∀ e, parse t = .error e →
      (0 < e.line ∧ e.line ≤ (lines t).length) ∧
      (∃ s, parse (takeLines (e.line - 1) t) = .ok s) ∧
      ∀ u, (lines t).take e.line <+: lines u → parse u = .error e) ∧
    ∀ u e, lines u <+: lines t → parse u = .error e → parse t = .error e := by
  refine ⟨fun e h => ?_, ?_⟩
  · obtain ⟨hpos, hle, ⟨s, hs⟩, hat⟩ := ofLines_take_of_error h
    refine ⟨⟨hpos, hle⟩, ⟨s, ?_⟩, ?_⟩
    · rw [parse, lines_takeLines]
      exact hs
    · rintro u ⟨more, hmore⟩
      rw [parse, ← hmore]
      exact ofLines_append_of_error hat more
  · rintro u e ⟨more, hmore⟩ h
    rw [parse, ← hmore]
    exact ofLines_append_of_error h more

/-- A key set for the second time, with a comment, a blank line, a continuation line and a line that
sets no key behind it: its own line is reported, as it is if other lines follow. -/
theorem parse_error_line_duplicate :
    parse "[a]\nk = 1\nk = 2\n# c\n\n  more\nno key\n" = .error (.duplicateKey 3 "a" "k") ∧
      (∃ s, parse "[a]\nk = 1\n" = .ok s) ∧
      parse "[a]\nk = 1\nk = 2\n[a]\n" = .error (.duplicateKey 3 "a" "k") := by
  have h :
      parse "[a]\nk = 1\nk = 2\n# c\n\n  more\nno key\n" = .error (.duplicateKey 3 "a" "k") := rfl
  obtain ⟨-, hbefore, hbehind⟩ := (parse_error_line _).1 _ h
  exact ⟨h, hbefore, hbehind _ (by decide +kernel)⟩

end Sections

end BuildPlan
