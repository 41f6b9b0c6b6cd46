import BuildPlan.Text.Basic

/-!
# Words

A word is a maximal run of characters that are not white space. Lists of words are written with
one space between them.

The words of a text are fixed by three facts: white space separates (`words_append_blank`), a word
holds none (`mem_words`), and a text without any is one word (`words_of_forall`).
-/

namespace BuildPlan

/-- Put one more character in front of the first word. -/
def consHead (c : Char) : List Text → List Text
  | [] => [[c]]
  | t :: ts => (c :: t) :: ts

/-- The words of a text, in order. -/
def words : Text → List Text
  | [] => []
  | [c] => if isBlank c then [] else [[c]]
  | c :: d :: cs =>
    if isBlank c then words (d :: cs)
    else if isBlank d then [c] :: words (d :: cs)
    else consHead c (words (d :: cs))

/-- Words written one after the other, with one space between them. -/
def unwords (ws : List Text) : Text := [' '].intercalate ws

/-! ## What words are -/

theorem words_ne_nil {c : Char} (h : isBlank c = false) (t : Text) : words (c :: t) ≠ [] := by
  induction t generalizing c with
  | nil => simp [words, h]
  | cons d t ih =>
    by_cases hd : isBlank d = true
    · simp [words, h, hd]
    · cases hw : words (d :: t) <;> simp [words, h, hd, consHead, hw]

/-- White space in front belongs to no word. -/
theorem words_cons_blank {c : Char} (h : isBlank c = true) (t : Text) :
    words (c :: t) = words t := by
  cases t with
  | nil => simp [words, h]
  | cons d cs => simp [words, h]

/-- **Words end at white space.** The words around a blank are those of the two sides. -/
theorem words_append_blank (x : Text) {c : Char} (h : isBlank c = true) (y : Text) :
    words (x ++ c :: y) = words x ++ words y := by
  induction x with
  | nil => simp [words, words_cons_blank h]
  | cons d x ih =>
    by_cases hd : isBlank d = true
    · rw [List.cons_append, words_cons_blank hd, words_cons_blank hd, ih]
    · cases x with
      | nil => simp [words, hd, h, words_cons_blank h]
      | cons e x =>
        by_cases he : isBlank e = true
        · simp only [List.cons_append] at ih ⊢
          simp [words, hd, he, ih]
        · simp only [List.cons_append] at ih ⊢
          rw [words, words, if_neg hd, if_neg hd, if_neg he, if_neg he, ih]
          obtain ⟨w, ws, hw⟩ := List.exists_cons_of_ne_nil (words_ne_nil (by simpa using he) x)
          simp [hw, consHead]

/-- A word is not empty and holds no white space. -/
theorem mem_words {t w : Text} (h : w ∈ words t) : w ≠ [] ∧ ∀ c ∈ w, isBlank c = false := by
  induction t generalizing w with
  | nil => simp [words] at h
  | cons c t ih =>
    cases t with
    | nil =>
      by_cases hc : isBlank c = true
      · simp [words, hc] at h
      · simp only [words, hc, Bool.false_eq_true, if_false, List.mem_singleton] at h
        subst h
        simpa using hc
    | cons d t =>
      by_cases hc : isBlank c = true
      · rw [words, if_pos hc] at h
        exact ih h
      · rw [words, if_neg hc] at h
        by_cases hd : isBlank d = true
        · rw [if_pos hd] at h
          rcases List.mem_cons.mp h with rfl | h
          · simpa using hc
          · exact ih h
        · rw [if_neg hd] at h
          obtain ⟨v, vs, hv⟩ := List.exists_cons_of_ne_nil (words_ne_nil (by simpa using hd) t)
          rw [hv] at h ih
          rcases List.mem_cons.mp h with rfl | h
          · -- the first word goes on behind `c`, and the rest of it is a word of the rest
            have := (ih List.mem_cons_self).2
            refine ⟨by simp, ?_⟩
            intro x hx
            rcases List.mem_cons.mp hx with rfl | hx
            · simpa using hc
            · exact this x hx
          · exact ih (List.mem_cons_of_mem _ h)

theorem words_of_forall {w : Text} (hne : w ≠ []) (h : ∀ c ∈ w, isBlank c = false) :
    words w = [w] := by
  induction w with
  | nil => exact absurd rfl hne
  | cons c w ih =>
    have hc := h c List.mem_cons_self
    cases w with
    | nil => simp [words, hc]
    | cons d w =>
      have hd := h d (by simp)
      rw [words, if_neg (by simp [hc]), if_neg (by simp [hd]),
        ih (by simp) (fun x hx => h x (List.mem_cons_of_mem _ hx))]
      rfl

theorem unwords_singleton (t : Text) : unwords [t] = t := List.intercalate_singleton

theorem unwords_cons (t : Text) {ts : List Text} (h : ts ≠ []) :
    unwords (t :: ts) = t ++ ' ' :: unwords ts := by
  rw [unwords, List.intercalate_cons_of_ne_nil h, List.append_assoc]
  rfl

/-- **The words of texts written one after the other** are those of the texts. -/
theorem words_unwords : ∀ ts : List Text, words (unwords ts) = ts.flatMap words
  | [] => rfl
  | [t] => by rw [unwords_singleton, List.flatMap_singleton]
  | t :: u :: ts => by
    rw [unwords_cons t (List.cons_ne_nil u ts), words_append_blank t (by decide),
      words_unwords (u :: ts)]
    exact List.flatMap_cons.symm

end BuildPlan
