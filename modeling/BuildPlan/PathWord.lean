import BuildPlan.Text.Basic

/-!
# Path words

A word read as a path has a directory part, up to its last slash, and a name; the name may end in
a suffix, which begins at its last dot. `splitDir` and `splitSuffix` cut a word without losing
a character.
-/

namespace BuildPlan.PathWord

/-- Cut before the longest ending of characters that satisfy `p`. -/
def splitEnding (p : Char → Bool) (w : Text) : Text × Text :=
  ((w.reverse.dropWhile p).reverse, (w.reverse.takeWhile p).reverse)

/-- The part up to and including the last slash, and the name after it. -/
def splitDir (w : Text) : Text × Text := splitEnding (· != '/') w

/-- The part before the last dot of the name, and the suffix from that dot on. -/
def splitSuffix (w : Text) : Text × Text :=
  match splitEnding (fun c => c != '.' && c != '/') w with
  | (front, back) =>
    match front.reverse with
    | '.' :: stem => (stem.reverse, '.' :: back)
    | _ => (w, [])

/-- The directory of a word; a bare name is in `./`. -/
def dir (w : Text) : Text :=
  let d := (splitDir w).1
  if d.isEmpty then "./" else d

/-- The name without the directory. -/
def notdir (w : Text) : Text := (splitDir w).2

/-- The word without its suffix. -/
def basename (w : Text) : Text := (splitSuffix w).1

/-- The suffix of a word, empty if there is none. -/
def suffix (w : Text) : Text := (splitSuffix w).2

/-! ## Nothing is lost -/

/-- The two parts make up the word. -/
theorem splitEnding_append (p : Char → Bool) (w : Text) :
    (splitEnding p w).1 ++ (splitEnding p w).2 = w := by
  show (w.reverse.dropWhile p).reverse ++ (w.reverse.takeWhile p).reverse = w
  rw [← List.reverse_append, List.takeWhile_append_dropWhile, List.reverse_reverse]

theorem splitDir_append (w : Text) : (splitDir w).1 ++ (splitDir w).2 = w := splitEnding_append _ w

theorem splitSuffix_append (w : Text) : (splitSuffix w).1 ++ (splitSuffix w).2 = w := by
  have h := splitEnding_append (fun c => c != '.' && c != '/') w
  unfold splitSuffix
  split
  rename_i front back hs
  rw [hs] at h
  split
  · rename_i stem hr
    have hf : front = stem.reverse ++ ['.'] := by
      have := congrArg List.reverse hr
      simpa using this
    rw [← h, hf]
    simp
  · simp

end BuildPlan.PathWord
