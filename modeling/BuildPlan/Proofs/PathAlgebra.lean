import BuildPlan.Proofs.WordwiseFunctions

/-!
# The algebra of path functions

A path word is cut behind its last slash, and its name before the last dot. Both rest on one fact
about cutting (`splitEnding_eq`): a word is cut before its longest ending of certain characters. The
two cuts do not disturb each other, because the suffix is cut from the name alone
(`splitSuffix_directory`). So taking the suffix off commutes with taking the directory off.

On texts the functions work word by word, and words of which nothing is left are dropped. That a law
of words is a law of texts (`overWords_overWords`) needs that the second function makes nothing of
nothing. The one exception is `dir`, which makes `./` of it, and which itself leaves something of
every word.
-/

namespace BuildPlan

namespace PathWord

/-! ## Endings -/

/-- The longest ending of a word of its kind. -/
structure IsLongestEnding (P : Text → Prop) (w e : Text) : Prop where
  ending : e <:+ w
  kind : P e
  longest : ∀ y, y <:+ w → P y → y.length ≤ e.length

/-- The shortest ending of a word of its kind. -/
structure IsShortestEnding (P : Text → Prop) (w e : Text) : Prop where
  ending : e <:+ w
  kind : P e
  shortest : ∀ y, y <:+ w → P y → e.length ≤ y.length

variable {p : Char → Bool} {w x y d n stem t : Text}

theorem forall_mem_splitEnding (p : Char → Bool) (w : Text) :
    ∀ c ∈ (splitEnding p w).2, p c = true := by
  intro c hc
  exact List.all_eq_true.mp List.all_takeWhile c (List.mem_reverse.mp hc)

/-- Every ending of such characters is part of the one that is cut off. -/
theorem isSuffix_splitEnding (hy : y <:+ w) (hp : ∀ c ∈ y, p c = true) :
    y <:+ (splitEnding p w).2 := by
  obtain ⟨x, rfl⟩ := hy
  have hrev : ∀ c ∈ y.reverse, p c = true := fun c hc => hp c (List.mem_reverse.mp hc)
  show y <:+ ((x ++ y).reverse.takeWhile p).reverse
  rw [List.reverse_append, List.takeWhile_append_of_pos hrev, List.reverse_append,
    List.reverse_reverse]
  exact List.suffix_append _ y

/-- **A word is cut before its longest ending of such characters.** -/
theorem splitEnding_eq (hy : ∀ c ∈ y, p c = true) (hx : ∀ c, x.getLast? = some c → p c = false) :
    splitEnding p (x ++ y) = (x, y) := by
  have hrev : ∀ c ∈ y.reverse, p c = true := fun c hc => hy c (List.mem_reverse.mp hc)
  unfold splitEnding
  rw [List.reverse_append, List.dropWhile_append_of_pos hrev, List.takeWhile_append_of_pos hrev]
  rcases List.eq_nil_or_concat x with rfl | ⟨front, c, rfl⟩
  · simp
  · have hc : p c = false := hx c (by simp)
    simp [hc]

/-! ## The directory -/

/-- The text can stand before a name: it is empty or ends in a slash. -/
def IsDirectoryPart (d : Text) : Prop := ∀ c, d.getLast? = some c → c = '/'

theorem forall_ne_slash (h : '/' ∉ y) : ∀ c ∈ y, (c != '/') = true := by
  intro c hc
  have hne : c ≠ '/' := fun e => h (e ▸ hc)
  simpa using hne

/-- **A word is cut behind its last slash.** -/
theorem splitDir_eq (hd : IsDirectoryPart d) (hn : '/' ∉ n) : splitDir (d ++ n) = (d, n) :=
  splitEnding_eq (forall_ne_slash hn) fun c hc => by simp [hd c hc]

theorem slash_not_mem_notdir (w : Text) : '/' ∉ notdir w := by
  intro hm
  simpa using forall_mem_splitEnding (· != '/') w '/' hm

theorem isDirectoryPart_splitDir (w : Text) : IsDirectoryPart (splitDir w).1 := by
  intro c hc
  have hhead := List.head?_dropWhile_not (fun c : Char => c != '/') w.reverse
  rw [splitDir, splitEnding, List.getLast?_reverse] at hc
  rw [hc] at hhead
  simpa using hhead

/-- An ending without a slash is an ending of the name. -/
theorem isSuffix_notdir (hy : y <:+ w) (hslash : '/' ∉ y) : y <:+ notdir w :=
  isSuffix_splitEnding hy (forall_ne_slash hslash)

/-- The name is the longest ending without a slash. -/
theorem isLongestEnding_notdir (w : Text) : IsLongestEnding (fun y => '/' ∉ y) w (notdir w) :=
  ⟨⟨(splitDir w).1, splitDir_append w⟩, slash_not_mem_notdir w,
    fun _ hy hslash => (isSuffix_notdir hy hslash).length_le⟩

/-! ## The suffix -/

/-- An ending that could be a suffix: it begins with a dot and stays inside the name. -/
def IsDotted (y : Text) : Prop := y.head? = some '.' ∧ '/' ∉ y

/-- **A suffix is cut before the last dot.** -/
theorem splitSuffix_eq (hdot : '.' ∉ t) (hslash : '/' ∉ t) :
    splitSuffix (stem ++ '.' :: t) = (stem, '.' :: t) := by
  have hends :
      splitEnding (fun c => c != '.' && c != '/') (stem ++ ['.'] ++ t) = (stem ++ ['.'], t) := by
    refine splitEnding_eq (fun c hc => ?_) (fun c hc => ?_)
    · have hne : c ≠ '.' := fun e => hdot (e ▸ hc)
      have hne' : c ≠ '/' := fun e => hslash (e ▸ hc)
      simp [hne, hne']
    · have hc : c = '.' := by simpa using hc.symm
      simp [hc]
  rw [List.append_assoc, List.singleton_append] at hends
  simp [splitSuffix, hends]

/-- A word without a dot in its name has no suffix. -/
theorem splitSuffix_eq_self (h : ∀ y, y <:+ w → ¬IsDotted y) : splitSuffix w = (w, []) := by
  have hjoin := splitEnding_append (fun c => c != '.' && c != '/') w
  have hback := forall_mem_splitEnding (fun c => c != '.' && c != '/') w
  unfold splitSuffix
  split
  rename_i front back hends
  rw [hends] at hjoin hback
  split
  · rename_i stem hrev
    have hfront : front = stem.reverse ++ ['.'] := by
      rw [← List.reverse_cons, ← hrev, List.reverse_reverse]
    have hending : '.' :: back <:+ w := ⟨stem.reverse, by rw [← hjoin, hfront]; simp⟩
    refine absurd ⟨rfl, fun hm => ?_⟩ (h _ hending)
    rcases List.mem_cons.mp hm with hm | hm
    · exact absurd hm (by decide)
    · simpa using hback '/' hm
  · rfl

/-- Either the name has a dot, and then a last one, or no ending could be a suffix. -/
theorem exists_last_dot (w : Text) :
    (∃ stem t, w = stem ++ '.' :: t ∧ '.' ∉ t ∧ '/' ∉ t) ∨ ∀ y, y <:+ w → ¬IsDotted y := by
  by_cases hdot : '.' ∈ notdir w
  · obtain ⟨back, front, hrev, hback⟩ := List.eq_append_cons_of_mem (List.mem_reverse.mpr hdot)
    have hname : notdir w = front.reverse ++ '.' :: back.reverse := by
      rw [← List.reverse_reverse (notdir w), hrev]
      simp
    have hslash := slash_not_mem_notdir w
    rw [hname, List.mem_append, List.mem_cons, not_or, not_or] at hslash
    refine Or.inl ⟨(splitDir w).1 ++ front.reverse, back.reverse, ?_, by simpa using hback,
      hslash.2.2⟩
    rw [List.append_assoc, ← hname]
    exact (splitDir_append w).symm
  · refine Or.inr fun y hy hdotted => hdot ?_
    exact (isSuffix_notdir hy hdotted.2).subset (List.mem_of_head? hdotted.1)

/-- The suffix is the shortest ending that could be one. -/
theorem isShortestEnding_suffix (w : Text) :
    IsShortestEnding IsDotted w (suffix w) ∨ suffix w = [] ∧ ∀ y, y <:+ w → ¬IsDotted y := by
  rcases exists_last_dot w with ⟨stem, t, rfl, hdot, hslash⟩ | hnone
  · refine Or.inl ?_
    rw [suffix, splitSuffix_eq hdot hslash]
    refine ⟨List.suffix_append _ _, ⟨rfl, ?_⟩, fun y hy hdotted => ?_⟩
    · simpa using hslash
    · -- a shorter one would be an ending of `t`, which has no dot
      rcases Nat.lt_or_ge y.length ('.' :: t).length with hlt | hge
      · have hy' : y <:+ t := by
          refine List.suffix_of_suffix_length_le hy ?_ (Nat.le_of_lt_succ hlt)
          exact (List.suffix_cons '.' t).trans (List.suffix_append _ _)
        exact absurd (hy'.subset (List.mem_of_head? hdotted.1)) hdot
      · exact hge
  · exact Or.inr ⟨by rw [suffix, splitSuffix_eq_self hnone], hnone⟩

/-- **The suffix is cut from the name alone**, whatever the directory is. -/
theorem splitSuffix_directory (hd : IsDirectoryPart d) (hn : '/' ∉ n) :
    splitSuffix (d ++ n) = (d ++ (splitSuffix n).1, (splitSuffix n).2) := by
  rcases exists_last_dot n with ⟨stem, t, rfl, hdot, hslash⟩ | hnone
  · rw [splitSuffix_eq hdot hslash, ← List.append_assoc, splitSuffix_eq hdot hslash]
  · rw [splitSuffix_eq_self hnone]
    refine splitSuffix_eq_self fun y hy hdotted => ?_
    -- an ending that could be a suffix of the whole could be one of the name
    have hname := isSuffix_notdir hy hdotted.2
    rw [notdir, splitDir_eq hd hn] at hname
    exact hnone y hname hdotted

/-! ## Laws of words -/

theorem slash_not_mem_basename (hn : '/' ∉ n) : '/' ∉ basename n := fun hm =>
  hn (splitSuffix_append n ▸ List.mem_append_left _ hm)

theorem notdir_basename (w : Text) : notdir (basename w) = basename (notdir w) := by
  have hd := isDirectoryPart_splitDir w
  have hn := slash_not_mem_notdir w
  have hbase : basename w = (splitDir w).1 ++ basename (notdir w) := by
    conv => lhs; rw [← splitDir_append w]
    exact congrArg Prod.fst (splitSuffix_directory hd hn)
  rw [hbase, notdir, splitDir_eq hd (slash_not_mem_basename hn)]

theorem suffix_notdir (w : Text) : suffix (notdir w) = suffix w := by
  conv => rhs; rw [← splitDir_append w]
  exact (congrArg Prod.snd
    (splitSuffix_directory (isDirectoryPart_splitDir w) (slash_not_mem_notdir w))).symm

theorem notdir_notdir (w : Text) : notdir (notdir w) = notdir w := by
  have hsplit : splitDir ([] ++ notdir w) = ([], notdir w) :=
    splitDir_eq nofun (slash_not_mem_notdir w)
  rw [List.nil_append] at hsplit
  show (splitDir (notdir w)).2 = notdir w
  rw [hsplit]

theorem dir_ne_nil (w : Text) : dir w ≠ [] := by
  unfold dir
  dsimp only
  split
  · exact List.cons_ne_nil _ _
  · rename_i h
    exact fun hnil => h (List.isEmpty_iff.mpr hnil)

theorem dir_dir (w : Text) : dir (dir w) = dir w := by
  by_cases hnil : (splitDir w).1 = []
  · have hdir : dir w = "./" := by rw [dir, hnil]; rfl
    rw [hdir]
    rfl
  · have hdir : dir w = (splitDir w).1 := by simp [dir, hnil]
    have hsplit : splitDir ((splitDir w).1 ++ []) = ((splitDir w).1, []) :=
      splitDir_eq (isDirectoryPart_splitDir w) List.not_mem_nil
    rw [List.append_nil] at hsplit
    rw [hdir]
    simp [dir, hsplit, hnil]

theorem suffix_suffix (w : Text) : suffix (suffix w) = suffix w := by
  rcases exists_last_dot w with ⟨stem, t, rfl, hdot, hslash⟩ | hnone
  · have hsuffix : ∀ stem, suffix (stem ++ '.' :: t) = '.' :: t := fun stem => by
      rw [suffix, splitSuffix_eq hdot hslash]
    rw [hsuffix]
    exact hsuffix []
  · have hsuffix : suffix w = [] := by rw [suffix, splitSuffix_eq_self hnone]
    rw [hsuffix]
    rfl

end PathWord

/-! ## Laws of texts -/

/-- A function of words applied to the words of a text. -/
def overWords (g : Text → Text) (v : Text) : Text := unwords (withoutEmpty ((words v).map g))

section OverWords

variable {f g k : Text → Text}

theorem words_overWords (hg : ∀ w, Unspaced w → Unspaced (g w)) (v : Text) :
    words (overWords g v) = withoutEmpty ((words v).map g) := by
  refine words_unwords_eq_self_iff.mpr fun t ht => ⟨ne_nil_of_mem_withoutEmpty ht, ?_⟩
  obtain ⟨w, hw, rfl⟩ := List.mem_map.mp (List.mem_of_mem_filter ht)
  exact hg w (mem_words hw).2

theorem withoutEmpty_map_withoutEmpty {ts : List Text} (h : [] ∈ ts → g [] = []) :
    withoutEmpty ((withoutEmpty ts).map g) = withoutEmpty (ts.map g) := by
  induction ts with
  | nil => rfl
  | cons t ts ih =>
    have hrest := ih fun hm => h (List.mem_cons_of_mem _ hm)
    unfold withoutEmpty at hrest ⊢
    by_cases ht : t = []
    · subst ht
      simp [h List.mem_cons_self, hrest]
    · simp [ht, List.filter_cons, hrest]

/-- **A law of words is a law of texts.** What the first function makes nothing of is dropped in
between, so the second one must make nothing of nothing. -/
theorem overWords_overWords (hf : ∀ w, Unspaced w → Unspaced (f w))
    (hdrop : (∀ w, f w ≠ []) ∨ g [] = []) (hlaw : ∀ w, g (f w) = k w) (v : Text) :
    overWords g (overWords f v) = overWords k v := by
  have hmap : ((words v).map f).map g = (words v).map k := by
    rw [List.map_map]
    exact List.map_congr_left fun w _ => hlaw w
  rw [overWords, words_overWords hf, withoutEmpty_map_withoutEmpty, hmap, overWords]
  intro hm
  obtain ⟨w, -, hw⟩ := List.mem_map.mp hm
  exact hdrop.resolve_left fun hne => hne w hw

end OverWords

namespace WordFunction

variable {ws : Workspace} {f : WordFunction} {g : Text → Text}

theorem flatMap_kept (ts : List Text) : ts.flatMap kept = withoutEmpty ts := by
  induction ts with
  | nil => rfl
  | cons t ts ih =>
    rw [List.flatMap_cons, ih]
    cases t with
    | nil => rfl
    | cons c t => rfl

theorem run_eq_overWords (h : ∀ w, f.onWord ws w = .ok (kept (g w))) (v : Text) :
    f.run ws v = .ok (overWords g v) := by
  have hmapM : ∀ ts : List Text, ts.mapM (f.onWord ws) = .ok (ts.map fun w => kept (g w)) := by
    intro ts
    induction ts with
    | nil => rfl
    | cons t ts ih => exact Outcome.mapM_cons_eq_ok_iff.mpr ⟨_, _, h t, ih, rfl⟩
  have hflat : ((words v).map fun w => kept (g w)).flatten = withoutEmpty ((words v).map g) := by
    rw [← flatMap_kept, List.flatMap_map, List.flatMap_def]
  rw [run, apply_eq_map, hmapM, overWords, ← hflat]
  rfl

open PathWord (IsLongestEnding IsShortestEnding IsDotted splitDir splitSuffix)

/-- **The algebra of path functions.** Called on a name that is bound to a text, each of the four
functions gives what it makes of the words of that text, and never fails. Taking the suffix off and
taking the directory off commute, and the suffix is that of the name. `dir`, `notdir` and `suffix`
give nothing new the second time, and `dir` keeps the number of words. The parts of a word make up
the word; the name is its longest ending without a slash, and the suffix is the shortest ending of
the name that begins with a dot, or empty if there is none. -/
theorem pathFunction_laws (ws : Workspace) (v : Text) :
    (∀ (ns : Namespace) (x : Text), ns.get? (trim x) = some v →
      basename.invoke ws ns x = .ok (overWords PathWord.basename v) ∧
      notdir.invoke ws ns x = .ok (overWords PathWord.notdir v) ∧
      dir.invoke ws ns x = .ok (overWords PathWord.dir v) ∧
      suffix.invoke ws ns x = .ok (overWords PathWord.suffix v)) ∧
    overWords PathWord.notdir (overWords PathWord.basename v)
      = overWords PathWord.basename (overWords PathWord.notdir v) ∧
    overWords PathWord.suffix (overWords PathWord.notdir v) = overWords PathWord.suffix v ∧
    overWords PathWord.dir (overWords PathWord.dir v) = overWords PathWord.dir v ∧
    overWords PathWord.notdir (overWords PathWord.notdir v) = overWords PathWord.notdir v ∧
    overWords PathWord.suffix (overWords PathWord.suffix v) = overWords PathWord.suffix v ∧
    (words (overWords PathWord.dir v)).length = (words v).length ∧
    ∀ w : Text,
      (splitDir w).1 ++ (splitDir w).2 = w ∧ IsLongestEnding (fun y => '/' ∉ y) w (splitDir w).2 ∧
      (splitSuffix w).1 ++ (splitSuffix w).2 = w ∧
      (IsShortestEnding IsDotted w (splitSuffix w).2 ∨
        (splitSuffix w).2 = [] ∧ ∀ y, y <:+ w → ¬IsDotted y) := by
  have hbasename : ∀ w, Unspaced w → Unspaced (PathWord.basename w) :=
    fun _ => PathWord.unspaced_basename
  have hnotdir : ∀ w, Unspaced w → Unspaced (PathWord.notdir w) := fun _ => PathWord.unspaced_notdir
  have hdir : ∀ w, Unspaced w → Unspaced (PathWord.dir w) := fun _ => PathWord.unspaced_dir
  have hsuffix : ∀ w, Unspaced w → Unspaced (PathWord.suffix w) := fun _ => PathWord.unspaced_suffix
  refine ⟨?_, ?_, ?_, ?_, ?_, ?_, ?_, ?_⟩
  · intro ns x hx
    simp only [invoke_of_get? hx]
    exact ⟨run_eq_overWords (fun _ => rfl) v, run_eq_overWords (fun _ => rfl) v,
      run_eq_overWords (fun _ => rfl) v, run_eq_overWords (fun _ => rfl) v⟩
  · have hleft := overWords_overWords hbasename (Or.inr rfl) PathWord.notdir_basename v
    have hright := overWords_overWords hnotdir (Or.inr rfl)
      (fun w => (rfl : PathWord.basename (PathWord.notdir w) = _)) v
    exact hleft.trans hright.symm
  · exact overWords_overWords hnotdir (Or.inr rfl) PathWord.suffix_notdir v
  · exact overWords_overWords hdir (Or.inl PathWord.dir_ne_nil) PathWord.dir_dir v
  · exact overWords_overWords hnotdir (Or.inr rfl) PathWord.notdir_notdir v
  · exact overWords_overWords hsuffix (Or.inr rfl) PathWord.suffix_suffix v
  · rw [words_overWords hdir, withoutEmpty_eq_self, List.length_map]
    intro t ht
    obtain ⟨w, -, rfl⟩ := List.mem_map.mp ht
    exact PathWord.dir_ne_nil w
  · intro w
    exact ⟨PathWord.splitDir_append w, PathWord.isLongestEnding_notdir w,
      PathWord.splitSuffix_append w, PathWord.isShortestEnding_suffix w⟩

/-- A directory, names that end in a dot, and a name that begins with one. -/
example : overWords PathWord.suffix "a/.b/ c. .. x.y/.d" = ". . .d" ∧
    overWords PathWord.basename "a/.b/ c. .. x.y/.d" = "a/.b/ c . x.y/" ∧
    overWords PathWord.notdir (overWords PathWord.basename "a/.b/ c. .. x.y/.d") = "c ." :=
      ⟨rfl, rfl, rfl⟩

end WordFunction

end BuildPlan
