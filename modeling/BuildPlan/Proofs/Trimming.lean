import BuildPlan.Text.Basic

/-!
# Trimmed texts

A text is white space, its trimmed form and white space again (`exists_trim`), and white space at
its ends does not change its trimmed form (`trim_append_left`, `trim_append_right`). A text is
trimmed if neither its first nor its last character is white space (`trimmed_iff`).
-/

namespace BuildPlan

/-- There is no white space at either end. -/
def Trimmed (t : Text) : Prop := trim t = t

instance (t : Text) : Decidable (Trimmed t) := inferInstanceAs (Decidable (_ = _))

/-- The text consists of white space. -/
def AllBlank (t : Text) : Prop := ∀ c ∈ t, isBlank c = true

instance (t : Text) : Decidable (AllBlank t) :=
  decidable_of_iff (t.all isBlank = true) List.all_eq_true

/-! ## Single ends -/

theorem exists_trimStart (t : Text) : ∃ x, AllBlank x ∧ t = x ++ trimStart t := by
  refine ⟨t.takeWhile isBlank, fun c hc => List.all_eq_true.mp List.all_takeWhile c hc, ?_⟩
  exact List.takeWhile_append_dropWhile.symm

theorem exists_trimEnd (t : Text) : ∃ y, AllBlank y ∧ t = trimEnd t ++ y := by
  obtain ⟨x, hx, h⟩ := exists_trimStart t.reverse
  refine ⟨x.reverse, fun c hc => hx c (List.mem_reverse.mp hc), ?_⟩
  have hrev := congrArg List.reverse h
  rw [List.reverse_reverse, List.reverse_append] at hrev
  exact hrev

theorem trimStart_append {x : Text} (hx : AllBlank x) (t : Text) :
    trimStart (x ++ t) = trimStart t :=
  List.dropWhile_append_of_pos hx

theorem trimEnd_append (t : Text) {y : Text} (hy : AllBlank y) : trimEnd (t ++ y) = trimEnd t := by
  unfold trimEnd
  rw [List.reverse_append]
  have h := trimStart_append (fun c hc => hy c (List.mem_reverse.mp hc)) t.reverse
  rw [trimStart, trimStart] at h
  rw [h]

theorem trimStart_of_head? {t : Text} (h : ∀ c ∈ t.head?, isBlank c = false) : trimStart t = t := by
  cases t with
  | nil => rfl
  | cons c t => exact List.dropWhile_cons_of_neg (by rw [h c rfl]; exact Bool.false_ne_true)

theorem head?_trimStart (t : Text) : ∀ c ∈ (trimStart t).head?, isBlank c = false := by
  intro c hc
  have h := List.head?_dropWhile_not isBlank t
  rw [trimStart, Option.mem_def] at hc
  rw [hc] at h
  simpa using h

theorem trimEnd_of_getLast? {t : Text} (h : ∀ c ∈ t.getLast?, isBlank c = false) :
    trimEnd t = t := by
  have hrev : trimStart t.reverse = t.reverse :=
    trimStart_of_head? (by rw [List.head?_reverse]; exact h)
  rw [trimStart] at hrev
  rw [trimEnd, hrev, List.reverse_reverse]

theorem getLast?_trimEnd (t : Text) : ∀ c ∈ (trimEnd t).getLast?, isBlank c = false := by
  intro c hc
  rw [trimEnd, List.getLast?_reverse] at hc
  exact head?_trimStart t.reverse c hc

/-! ## Both ends -/

/-- **Trimming takes white space off both ends and nothing else.** -/
theorem exists_trim (t : Text) : ∃ x y, AllBlank x ∧ AllBlank y ∧ t = x ++ trim t ++ y := by
  obtain ⟨x, hx, ht⟩ := exists_trimStart t
  obtain ⟨y, hy, hs⟩ := exists_trimEnd (trimStart t)
  refine ⟨x, y, hx, hy, ?_⟩
  rw [List.append_assoc]
  exact ht.trans (congrArg (x ++ ·) hs)

theorem length_trim_le (t : Text) : (trim t).length ≤ t.length := by
  obtain ⟨x, y, -, -, ht⟩ := exists_trim t
  have hlen := congrArg List.length ht
  rw [List.length_append, List.length_append] at hlen
  omega

theorem trim_append_left {x : Text} (hx : AllBlank x) (t : Text) : trim (x ++ t) = trim t := by
  rw [trim, trim, trimStart_append hx]

theorem trim_append_right (t : Text) {y : Text} (hy : AllBlank y) : trim (t ++ y) = trim t := by
  obtain ⟨z, hz, ht⟩ := exists_trimStart t
  rw [trim, trim]
  by_cases hblank : trimStart t = []
  · -- nothing remains of `t`, so the white space behind it goes with the white space in front
    rw [hblank, List.append_nil] at ht
    have hall : AllBlank (t ++ y) := by
      intro c hc
      rcases List.mem_append.mp hc with hc | hc
      · exact hz c (ht ▸ hc)
      · exact hy c hc
    have hnil : trimStart (t ++ y) = [] := by
      have h := trimStart_append hall []
      rwa [List.append_nil] at h
    rw [hnil, hblank]
  · have hkeep : trimStart (t ++ y) = trimStart t ++ y := by
      rw [ht, List.append_assoc, trimStart_append hz, trimStart_append hz]
      obtain ⟨c, rest, hc⟩ := List.exists_cons_of_ne_nil hblank
      have hhead := head?_trimStart t c (by rw [hc]; rfl)
      rw [hc, List.cons_append, trimStart_of_head? (by simpa using hhead),
        trimStart_of_head? (by simpa using hhead)]
      rfl
    rw [hkeep, trimEnd_append _ hy]

theorem head?_trim (t : Text) : ∀ c ∈ (trim t).head?, isBlank c = false := by
  intro c hc
  obtain ⟨y, -, hs⟩ := exists_trimEnd (trimStart t)
  refine head?_trimStart t c ?_
  rw [hs]
  rw [trim] at hc
  cases htrim : trimEnd (trimStart t) with
  | nil => rw [htrim] at hc; simp at hc
  | cons d rest => rw [htrim] at hc; exact hc

theorem getLast?_trim (t : Text) : ∀ c ∈ (trim t).getLast?, isBlank c = false :=
  getLast?_trimEnd (trimStart t)

theorem trimmed_iff {t : Text} :
    Trimmed t ↔ (∀ c ∈ t.head?, isBlank c = false) ∧ ∀ c ∈ t.getLast?, isBlank c = false := by
  constructor
  · intro h
    rw [Trimmed] at h
    rw [← h]
    exact ⟨head?_trim t, getLast?_trim t⟩
  · rintro ⟨hhead, hlast⟩
    rw [Trimmed, trim, trimStart_of_head? hhead, trimEnd_of_getLast? hlast]

theorem trimmed_trim (t : Text) : Trimmed (trim t) :=
  trimmed_iff.mpr ⟨head?_trim t, getLast?_trim t⟩

theorem mem_of_mem_trim {t : Text} {c : Char} (h : c ∈ trim t) : c ∈ t := by
  obtain ⟨x, y, -, -, ht⟩ := exists_trim t
  rw [ht]
  exact List.mem_append_left _ (List.mem_append_right _ h)

/-- The first character of a trimmed text is the first one that is not white space. -/
theorem head?_trim_eq_find? (t : Text) : (trim t).head? = t.find? fun c => !isBlank c := by
  obtain ⟨x, y, hx, hy, ht⟩ := exists_trim t
  have hnone : ∀ z : Text, AllBlank z → (z.find? fun c => !isBlank c) = none := by
    intro z hz
    rw [List.find?_eq_none]
    intro c hc
    rw [hz c hc]
    exact Bool.false_ne_true
  have hfind : (t.find? fun c => !isBlank c) = (trim t).find? fun c => !isBlank c := by
    conv => lhs; rw [ht]
    rw [List.find?_append, List.find?_append, hnone x hx, hnone y hy, Option.none_or,
      Option.or_none]
  rw [hfind]
  cases htrim : trim t with
  | nil => rfl
  | cons c rest =>
    have hc := head?_trim t c (by rw [htrim]; rfl)
    rw [List.find?_cons_of_pos (by rw [hc]; rfl), List.head?_cons]

/-! ## Trimmed texts and others -/

/-- A trimmed text has no white space to cut off. -/
theorem eq_nil_of_trimmed_append {x t : Text} (h : Trimmed (x ++ t)) (hx : AllBlank x) :
    x = [] := by
  cases x with
  | nil => rfl
  | cons c x =>
    have hblank := hx c List.mem_cons_self
    rw [(trimmed_iff.mp h).1 c rfl] at hblank
    exact absurd hblank Bool.false_ne_true

theorem eq_nil_of_append_trimmed {t y : Text} (h : Trimmed (t ++ y)) (hy : AllBlank y) :
    y = [] := by
  cases hlast : y.getLast? with
  | none => exact List.getLast?_eq_none_iff.mp hlast
  | some c =>
    have hblank := hy c (List.mem_of_getLast? hlast)
    rw [(trimmed_iff.mp h).2 c (by rw [List.getLast?_append, hlast]; rfl)] at hblank
    exact absurd hblank Bool.false_ne_true

/-- Two trimmed texts with anything between them are trimmed. -/
theorem trimmed_append {x y : Text} (hx : Trimmed x) (hy : Trimmed y) (hxne : x ≠ [])
    (hyne : y ≠ []) (t : Text) : Trimmed (x ++ t ++ y) := by
  obtain ⟨c, hc⟩ := Option.ne_none_iff_exists'.mp (mt List.head?_eq_none_iff.mp hxne)
  obtain ⟨d, hd⟩ := Option.ne_none_iff_exists'.mp (mt List.getLast?_eq_none_iff.mp hyne)
  rw [trimmed_iff, List.getLast?_append, hd, List.append_assoc, List.head?_append, hc]
  rw [trimmed_iff, hc] at hx
  rw [trimmed_iff, hd] at hy
  exact ⟨hx.1, hy.2⟩

theorem isIndented_append {t : Text} (h : Trimmed t) (hne : t ≠ []) (rest : Text) :
    isIndented (t ++ rest) = false := by
  cases t with
  | nil => exact absurd rfl hne
  | cons c t => exact (trimmed_iff.mp h).1 c rfl

end BuildPlan
