import BuildPlan.Proofs.ExpansionFaults
import BuildPlan.Proofs.PatternOutput

/-!
# Functions work word by word

A function takes the words of its operand one after the other and writes what it makes of them in a
row. So an operand that is put together around white space gives the results of its parts in a row,
and where a part fails, the first one that does decides the error (`run_append`).

A word may be made into nothing and a part may have no words at all. Then there is nothing to put a
space before or behind: of the results of the parts, only those that are not empty are written. That
this comes to the same is `unwords_append`, and it needs that the functions write nothing empty: the
four that cut path words drop it, and no path that a search finds is empty
(`ne_nil_of_mem_findPaths`).
-/

namespace BuildPlan

/-! ## Rows of words -/

/-- The words around any white space are those of the two sides. -/
theorem words_append_blanks (x : Text) {s : Text} (hne : s ≠ []) (hblank : AllBlank s) (y : Text) :
    words (x ++ s ++ y) = words x ++ words y := by
  have hdrop : ∀ s, AllBlank s → words (s ++ y) = words y := by
    intro s hs
    induction s with
    | nil => rfl
    | cons c s ih =>
      rw [List.cons_append, words_cons_blank (hs c List.mem_cons_self),
        ih fun d hd => hs d (List.mem_cons_of_mem _ hd)]
  obtain ⟨c, s, rfl⟩ := List.exists_cons_of_ne_nil hne
  rw [List.append_assoc, List.cons_append, words_append_blank x (hblank c List.mem_cons_self),
    hdrop s fun d hd => hblank d (List.mem_cons_of_mem _ hd)]

/-- **Texts written one after the other are split into the same texts exactly if they are words.**
-/
theorem words_unwords_eq_self_iff {ts : List Text} :
    words (unwords ts) = ts ↔ ∀ t ∈ ts, IsWord t := by
  rw [words_unwords]
  constructor
  · intro h t ht
    rw [← h] at ht
    obtain ⟨u, -, hu⟩ := List.mem_flatMap.mp ht
    exact mem_words hu
  · intro h
    induction ts with
    | nil => rfl
    | cons t ts ih =>
      obtain ⟨hne, hblank⟩ := h t List.mem_cons_self
      rw [List.flatMap_cons, words_of_forall hne hblank,
        ih fun u hu => h u (List.mem_cons_of_mem _ hu)]
      rfl

/-- The texts that are not empty. -/
def withoutEmpty (ts : List Text) : List Text := ts.filter fun t => !t.isEmpty

theorem withoutEmpty_eq_self {ts : List Text} (h : ∀ t ∈ ts, t ≠ []) : withoutEmpty ts = ts :=
  List.filter_eq_self.mpr fun t ht => by simp [h t ht]

theorem ne_nil_of_mem_withoutEmpty {ts : List Text} {t : Text} (h : t ∈ withoutEmpty ts) :
    t ≠ [] := by
  obtain ⟨-, hkept⟩ := List.mem_filter.mp h
  rintro rfl
  exact absurd hkept (by decide)

theorem unwords_ne_nil {t : Text} (h : t ≠ []) (ts : List Text) : unwords (t :: ts) ≠ [] := by
  cases ts with
  | nil =>
    rw [unwords_singleton]
    exact h
  | cons u ts =>
    rw [unwords_cons t (List.cons_ne_nil u ts)]
    simp

theorem unwords_append_of_ne_nil {ts us : List Text} (hts : ts ≠ []) (hus : us ≠ []) :
    unwords (ts ++ us) = unwords ts ++ ' ' :: unwords us := by
  induction ts with
  | nil => exact absurd rfl hts
  | cons t ts ih =>
    by_cases hrest : ts = []
    · rw [hrest, List.singleton_append, unwords_cons t hus, unwords_singleton]
    · rw [List.cons_append, unwords_cons t (List.append_ne_nil_of_left_ne_nil hrest us), ih hrest,
        unwords_cons t hrest, List.append_assoc]
      rfl

/-- Two texts in a row: nothing is added to the one if the other is empty. -/
def rowOf (a b : Text) : Text := unwords (withoutEmpty [a, b])

theorem rowOf_nil_left (b : Text) : rowOf [] b = b := by
  cases b with
  | nil => rfl
  | cons c b => exact unwords_singleton (c :: b)

theorem rowOf_nil_right (a : Text) : rowOf a [] = a := by
  cases a with
  | nil => rfl
  | cons c a => exact unwords_singleton (c :: a)

theorem rowOf_of_ne_nil {a b : Text} (ha : a ≠ []) (hb : b ≠ []) : rowOf a b = a ++ ' ' :: b := by
  rw [rowOf, withoutEmpty_eq_self (by simp [ha, hb]), unwords_cons a (by simp), unwords_singleton]

/-- **Two rows of words behind each other.** A space comes between them only if both have a word. -/
theorem unwords_append {ts us : List Text} (hts : ∀ t ∈ ts, t ≠ []) (hus : ∀ u ∈ us, u ≠ []) :
    unwords (ts ++ us) = rowOf (unwords ts) (unwords us) := by
  cases ts with
  | nil => exact (rowOf_nil_left _).symm
  | cons t ts =>
    cases us with
    | nil =>
      rw [List.append_nil]
      exact (rowOf_nil_right _).symm
    | cons u us =>
      have ht := hts t List.mem_cons_self
      have hu := hus u List.mem_cons_self
      rw [unwords_append_of_ne_nil (List.cons_ne_nil t ts) (List.cons_ne_nil u us),
        rowOf_of_ne_nil (unwords_ne_nil ht ts) (unwords_ne_nil hu us)]

/-! ## Paths that are found -/

namespace Wildcard

variable {ws : Workspace} {p next : Place} {name : FileName} {piece path : Text}

theorem joinPath_ne_nil (h : path ≠ []) (piece : Text) : joinPath path piece ≠ [] := by
  unfold joinPath
  split
  · rename_i hempty
    exact absurd (List.isEmpty_iff.mp hempty) h
  · split <;> simp [h]

namespace Place

theorem showNext_ne_nil (hp : p.shown ≠ []) (hpiece : piece ≠ []) : p.showNext piece ≠ [] := by
  unfold showNext
  split
  · exact hpiece
  · exact joinPath_ne_nil hp piece

theorem shown_ne_nil_of_mem_entries {found : List (FileName × Place)} (hp : p.shown ≠ [])
    (h : p.entries ws = .ok found) (hnext : (name, next) ∈ found) : next.shown ≠ [] := by
  unfold entries at h
  split at h
  · cases h
  · rw [← Except.ok.inj h] at hnext
    obtain ⟨⟨name', isDirectory⟩, -, hnext⟩ := List.mem_map.mp hnext
    rw [← (Prod.mk.inj hnext).2]
    exact showNext_ne_nil hp name'.proper.1

theorem shown_ne_nil_of_mem_below {levels : Nat} (hp : p.shown ≠ [])
    (h : .ok (name, next) ∈ p.below ws levels) : next.shown ≠ [] := by
  induction levels generalizing p with
  | zero => exact absurd h List.not_mem_nil
  | succ levels ih =>
    rw [below] at h
    split at h
    · split at h
      · cases List.mem_singleton.mp h
      · rename_i found hfound
        obtain ⟨⟨name', here⟩, hhere, h⟩ := List.mem_flatMap.mp h
        have hshown := shown_ne_nil_of_mem_entries hp hfound hhere
        rcases List.mem_cons.mp h with h | h
        · rw [(Prod.mk.inj (Except.ok.inj h)).2]
          exact hshown
        · exact ih hshown h
    · exact absurd h List.not_mem_nil

theorem shown_ne_nil_of_mem_dots {c : Component} (hp : p.shown ≠ []) (h : next ∈ p.dots ws c) :
    next.shown ≠ [] := by
  unfold dots at h
  split at h
  · obtain ⟨piece, -, rfl⟩ := List.mem_map.mp h
    exact joinPath_ne_nil hp piece
  · exact absurd h List.not_mem_nil

end Place

/-- A component without wildcards leads to no empty path: there is nothing at such a path. -/
theorem shown_ne_nil_of_literalStep (hp : p.shown ≠ []) (h : literalStep ws p piece = some next) :
    next.shown ≠ [] := by
  obtain ⟨hthere, hnext⟩ := Option.ite_none_right_eq_some.mp h
  rw [← Option.some.inj hnext]
  intro hempty
  replace hempty : p.showNext piece = [] := hempty
  by_cases hpiece : piece = []
  · subst hpiece
    rw [if_neg (by decide), hempty] at hthere
    cases hthere
  · exact Place.showNext_ne_nil hp hpiece hempty

/-- **A walk shows no empty path**, if it does not begin with one. -/
theorem ne_nil_of_mem_walk {directoriesOnly : Bool} {cs : List Component} (hp : p.shown ≠ [])
    (h : .ok path ∈ walk ws directoriesOnly cs p) : path ≠ [] := by
  fun_induction walk ws directoriesOnly cs p with
  | case1 | case4 | case7 => exact absurd h List.not_mem_nil
  | case2 p =>
    rw [Except.ok.inj (List.mem_singleton.mp h)]
    exact hp
  | case3 piece rest p next hstep ih => exact ih (shown_ne_nil_of_literalStep hp hstep) h
  | case5 tokens rest p hdir unreadable => cases List.mem_singleton.mp h
  | case6 tokens rest p hdir found hfound ih =>
    rcases List.mem_append.mp h with h | h
    · obtain ⟨next, hnext, h⟩ := List.mem_flatMap.mp h
      exact ih next (Place.shown_ne_nil_of_mem_dots hp hnext) h
    · obtain ⟨⟨name, next⟩, hnext, h⟩ := List.mem_flatMap.mp h
      dsimp only at h
      split at h
      · exact ih next (Place.shown_ne_nil_of_mem_entries hp hfound hnext) h
      · exact absurd h List.not_mem_nil
  | case8 rest p ih => exact ih hp h
  | case9 p =>
    obtain ⟨⟨⟩ | ⟨name, next⟩, hnext, h⟩ := List.mem_filterMap.mp h
    · cases h
    · obtain ⟨-, hshown⟩ := Option.ite_none_right_eq_some.mp h
      rw [← Except.ok.inj (Option.some.inj hshown)]
      exact Place.shown_ne_nil_of_mem_below hp hnext
  | case10 c rest p _ ih =>
    obtain ⟨⟨⟩ | ⟨name, next⟩, hnext, h⟩ := List.mem_flatMap.mp h
    · cases List.mem_singleton.mp h
    · dsimp only at h
      split at h
      · exact ih next (Place.shown_ne_nil_of_mem_below hp hnext) h
      · exact absurd h List.not_mem_nil

end Wildcard

namespace WordFunction

variable {ws : Workspace} {f : WordFunction} {ns : Namespace} {x v s word : Text}

/-- **No path that is found is empty.** -/
theorem ne_nil_of_mem_findPaths {path : Text} {paths : List Text}
    (h : findPaths ws word = .ok paths) (hpath : path ∈ paths) : path ≠ [] := by
  obtain ⟨found, hfound, rfl⟩ := Outcome.map_eq_ok_iff.mp (Outcome.mapError_eq_ok_iff.mp h)
  obtain ⟨pattern, -, rfl⟩ := Outcome.map_eq_ok_iff.mp hfound
  obtain ⟨⟨⟩ | ⟨shown⟩, hshown, hpath⟩ := List.mem_filterMap.mp hpath
  · cases hpath
  · rw [← Option.some.inj hpath]
    refine Wildcard.ne_nil_of_mem_walk (p := .ofPath ws _) ?_ hshown
    show (if pattern.rooted then ['/'] else ['.']) ≠ []
    split <;> exact List.cons_ne_nil _ _

/-! ## Parts of an operand -/

/-- **Nothing that a function makes of a word is empty.** -/
theorem ne_nil_of_mem_onWord {results : List Text} {r : Text} (h : f.onWord ws word = .ok results)
    (hr : r ∈ results) : r ≠ [] := by
  have hkept : ∀ {part : Text}, .ok (kept part) = (.ok results : Except BadPattern _) → r ≠ [] := by
    intro part hpart
    rw [← Except.ok.inj hpart, kept] at hr
    split at hr
    · exact absurd hr List.not_mem_nil
    · rename_i hne
      rw [List.mem_singleton.mp hr]
      simpa using hne
  cases f with
  | glob => exact ne_nil_of_mem_findPaths h hr
  | basename => exact hkept h
  | notdir => exact hkept h
  | dir => exact hkept h
  | suffix => exact hkept h

theorem ne_nil_of_mem_mapM_onWord {ts : List Text} {results : List (List Text)}
    (h : ts.mapM (f.onWord ws) = .ok results) : ∀ r ∈ results.flatten, r ≠ [] := by
  intro r hr
  obtain ⟨here, hhere, hr⟩ := List.mem_flatten.mp hr
  obtain ⟨word, -, hword⟩ := Outcome.exists_of_mem_mapM h hhere
  exact ne_nil_of_mem_onWord hword hr

/-- The operand of a call whose argument names a value is that value. -/
theorem invoke_of_get? (h : ns.get? (trim x) = some v) : f.invoke ws ns x = f.run ws v := by
  rw [invoke, operand, h]
  rfl

theorem apply_eq_map (ws : Workspace) (f : WordFunction) (text : Text) :
    f.apply ws text
      = ((words text).mapM (f.onWord ws)).map fun results => unwords results.flatten := by
  rw [apply]
  cases (words text).mapM (f.onWord ws) <;> rfl

/-- **An operand of two parts gives the results of both in a row.** The first part that fails
decides the error. -/
theorem run_append (ws : Workspace) (f : WordFunction) (x : Text) (hne : s ≠ [])
    (hblank : AllBlank s) (y : Text) :
    f.run ws (x ++ s ++ y) = do
      let a ← f.run ws x
      let b ← f.run ws y
      return rowOf a b := by
  simp only [run, apply_eq_map, words_append_blanks x hne hblank y, List.mapM_append]
  cases hfirst : (words x).mapM (f.onWord ws) with
  | error bad => rfl
  | ok first =>
    cases hsecond : (words y).mapM (f.onWord ws) with
    | error bad => rfl
    | ok second =>
      have hrow := unwords_append (ne_nil_of_mem_mapM_onWord hfirst)
        (ne_nil_of_mem_mapM_onWord hsecond)
      rw [← List.flatten_append] at hrow
      exact congrArg Except.ok hrow

/-- A search writes all paths that are found for the words, in order. -/
theorem run_glob_eq_ok {r : Text} (h : glob.run ws v = .ok r) :
    ∃ found, (words v).mapM (findPaths ws) = .ok found ∧ (∀ path ∈ found.flatten, path ≠ []) ∧
      r = unwords found.flatten := by
  rw [run, Outcome.mapError_eq_ok_iff, apply_eq_map, Outcome.map_eq_ok_iff] at h
  obtain ⟨found, hfound, rfl⟩ := h
  exact ⟨found, hfound, ne_nil_of_mem_mapM_onWord hfound, rfl⟩

/-- **Functions distribute over words.** Let the argument of a call name a text that is put together
of two parts with white space between them. If the function succeeds on both parts, the call gives
the two results in a row, with one space between them if neither is empty. If it fails on the first
part, or else on the second, the call fails with that error. What a search gives for a part are all
paths that it finds, and none of them is empty. -/
theorem invoke_append (ws : Workspace) (f : WordFunction) {x v₁ v₂ s : Text} {n₁ n₂ n : Namespace}
    (h₁ : n₁.get? (trim x) = some v₁) (h₂ : n₂.get? (trim x) = some v₂)
    (h : n.get? (trim x) = some (v₁ ++ s ++ v₂)) (hne : s ≠ []) (hblank : AllBlank s) :
    (∀ a b, f.invoke ws n₁ x = .ok a → f.invoke ws n₂ x = .ok b →
      f.invoke ws n x = .ok (unwords (withoutEmpty [a, b]))) ∧
    (∀ e, f.invoke ws n₁ x = .error e → f.invoke ws n x = .error e) ∧
    (∀ a e, f.invoke ws n₁ x = .ok a → f.invoke ws n₂ x = .error e → f.invoke ws n x = .error e) ∧
    ∀ a, glob.invoke ws n₁ x = .ok a →
      ∃ found, (words v₁).mapM (findPaths ws) = .ok found ∧ (∀ path ∈ found.flatten, path ≠ []) ∧
        a = unwords found.flatten := by
  simp only [invoke_of_get? h₁, invoke_of_get? h₂, invoke_of_get? h,
    run_append ws f v₁ hne hblank v₂]
  refine ⟨?_, ?_, ?_, fun a => run_glob_eq_ok⟩
  · intro a b ha hb
    rw [ha, hb]
    rfl
  · intro e he
    rw [he]
    rfl
  · intro a e ha he
    rw [ha, he]
    rfl

/-- A part without suffixes adds nothing. Of two parts that are no patterns the first decides. -/
theorem invoke_append_parts :
    suffix.invoke ⟨.empty, [], "/", "t"⟩
      (Bindings.ofList [("x", "makefile\t\na.c b/.d/c.tar.gz ")]) " x "
      = .ok ".c .gz" ∧
    glob.invoke ⟨.empty, [], "/", "t"⟩ (Bindings.ofList [("x", "a*** [")]) " x "
      = .error (.badPattern ⟨"a***", ⟨3, .starRun⟩⟩) := by
  have hbound : ∀ v : Text, (Bindings.ofList [("x", v)]).get? (trim " x ") = some v := fun _ => rfl
  have hsuffix := invoke_append (s := "\t\n") ⟨.empty, [], "/", "t"⟩ suffix (hbound "makefile")
    (hbound "a.c b/.d/c.tar.gz ") (hbound _) (by decide) (by decide)
  have hglob := invoke_append (s := " ") ⟨.empty, [], "/", "t"⟩ glob (hbound "a***") (hbound "[")
    (hbound _) (by decide) (by decide)
  exact ⟨hsuffix.1 "" ".c .gz" rfl rfl, hglob.2.1 _ rfl⟩

end WordFunction

end BuildPlan
