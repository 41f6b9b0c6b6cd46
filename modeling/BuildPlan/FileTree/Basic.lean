import BuildPlan.Text.Basic

/-!
# File trees

A file tree maps locations to directories and files. A location is the list of names on the way
from the root; the root is the empty list. The entries are kept in the order of a walk through the
tree: a directory stands before what it holds, and the entries of one directory are sorted by name.

There are no symbolic links: an entry is a directory or a file, and a location has no other name.
New directories and files have the permission bits that the usual umask, 0o022, leaves them.

`FileTree.get?_insert` and `FileTree.get?_erase` say that setting or removing one entry changes
exactly one look-up.
-/

namespace BuildPlan

/-- The name of an entry of a directory: not empty, without slash, and neither `.` nor `..`. -/
structure FileName where
  text : Text
  proper : text ≠ [] ∧ '/' ∉ text ∧ text ≠ ['.'] ∧ text ≠ ['.', '.']
deriving DecidableEq

namespace FileName

/-- A text as a file name. -/
def ofText? (t : Text) : Option FileName :=
  if h : t ≠ [] ∧ '/' ∉ t ∧ t ≠ ['.'] ∧ t ≠ ['.', '.'] then some ⟨t, h⟩ else none

/-- Names that begin with a dot are hidden. -/
def isHidden (n : FileName) : Bool := n.text.head? == some '.'

end FileName

/-- A place in a file tree: the names on the way from the root. -/
abbrev Location := List FileName

/-- The order of a walk: a directory before what it holds, then by name. -/
def Location.before : Location → Location → Bool
  | [], [] => false
  | [], _ :: _ => true
  | _ :: _, [] => false
  | a :: as, b :: bs => if a = b then Location.before as bs else decide (a.text < b.text)

/-! ## Permissions

Whoever works on a tree owns what is in it, so the three bits of the owner decide. -/

/-- The contents of a file, or the names in a directory, may be read. -/
def mayRead (mode : Nat) : Bool := mode.testBit 8

/-- The contents of a file, or the entries of a directory, may be changed. -/
def mayWrite (mode : Nat) : Bool := mode.testBit 7

/-- Paths may lead through a directory. -/
def maySearch (mode : Nat) : Bool := mode.testBit 6

/-- What stands at a location, with its permission bits. -/
inductive Entry where
  | directory (mode : Nat)
  | file (mode : Nat) (content : ByteArray)

namespace Entry

/-- The entry is a directory. -/
def isDirectory : Entry → Bool
  | .directory _ => true
  | .file .. => false

/-- The permission bits. -/
def mode : Entry → Nat
  | .directory m => m
  | .file m _ => m

/-- The entry with other permission bits. -/
def withMode (m : Nat) : Entry → Entry
  | .directory _ => .directory m
  | .file _ content => .file m content

/-- The entry with more bytes behind those it holds, if it is a file. -/
def append (bytes : ByteArray) : Entry → Entry
  | .directory m => .directory m
  | .file m content => .file m (content ++ bytes)

end Entry

/-- A file tree: its entries in the order of a walk. -/
structure FileTree where
  entries : List (Location × Entry)

namespace FileTree

/-- The tree that holds an empty root directory. -/
def empty : FileTree := ⟨[([], .directory 0o755)]⟩

/-- The first entry at a location. -/
def find? (loc : Location) : List (Location × Entry) → Option Entry
  | [] => none
  | (l, e) :: rest => if l = loc then some e else find? loc rest

/-- Set the entry at a location, in its place in the order. -/
def put (loc : Location) (entry : Entry) : List (Location × Entry) → List (Location × Entry)
  | [] => [(loc, entry)]
  | (l, e) :: rest =>
    if l = loc then (l, entry) :: rest
    else if Location.before loc l then (loc, entry) :: (l, e) :: rest
    else (l, e) :: put loc entry rest

/-- The entry at a location. -/
def get? (t : FileTree) (loc : Location) : Option Entry := find? loc t.entries

/-- Set the entry at a location. -/
def insert (t : FileTree) (loc : Location) (entry : Entry) : FileTree :=
  ⟨put loc entry t.entries⟩

/-- Remove the entry at a location. -/
def erase (t : FileTree) (loc : Location) : FileTree :=
  ⟨t.entries.filter fun (l, _) => l ≠ loc⟩

/-- The number of levels of a tree: the root alone is one. -/
def levels (t : FileTree) : Nat := (t.entries.map fun (loc, _) => loc.length + 1).foldl max 0

/-- There is a directory at the location. -/
def isDirectory (t : FileTree) (loc : Location) : Bool := (t.get? loc).any Entry.isDirectory

/-- There is a directory at the location whose permission bits are as asked for. -/
def allows (t : FileTree) (may : Nat → Bool) (loc : Location) : Bool :=
  (t.get? loc).any fun e => e.isDirectory && may e.mode

/-- Something is at the location. -/
def contains (t : FileTree) (loc : Location) : Bool := (t.get? loc).isSome

/-- The entries strictly below a location, by the names that lead to them, in order. -/
def below (t : FileTree) (loc : Location) : List (Location × Entry) :=
  t.entries.filterMap fun (l, e) =>
    if loc.isPrefixOf l && loc.length < l.length then some (l.drop loc.length, e) else none

/-- Add a directory and those on the way to it, where there is nothing yet. -/
def addDirectory (t : FileTree) (loc : Location) : FileTree :=
  (List.range (loc.length + 1)).foldl (fun t n =>
    if t.contains (loc.take n) then t else t.insert (loc.take n) (.directory 0o755)) t

/-- Add a file, and the directories on the way to it where there is nothing yet. -/
def addFile (t : FileTree) (loc : Location) (content : ByteArray) : FileTree :=
  (t.addDirectory loc.dropLast).insert loc (.file 0o644 content)

/-! ## Look-ups -/

theorem find?_put (loc other : Location) (entry : Entry) (l : List (Location × Entry)) :
    find? other (put loc entry l) = if other = loc then some entry else find? other l := by
  induction l with
  | nil => simp [put, find?, eq_comm]
  | cons e rest ih =>
    obtain ⟨here, found⟩ := e
    by_cases h : here = loc
    · subst h
      by_cases ho : here = other
      · simp [put, find?, ho]
      · have ho' : ¬other = here := fun e => ho e.symm
        simp [put, find?, ho, ho']
    · by_cases hb : Location.before loc here = true
      · by_cases ho : loc = other
        · subst ho
          simp [put, find?, h, hb]
        · have ho' : ¬other = loc := fun e => ho e.symm
          simp [put, find?, h, hb, ho, ho']
      · by_cases ho : here = other
        · subst ho
          simp [put, find?, h, hb]
        · simp [put, find?, h, hb, ho, ih]

theorem find?_filter (loc other : Location) (l : List (Location × Entry)) :
    find? other (l.filter fun (here, _) => here ≠ loc)
      = if other = loc then none else find? other l := by
  induction l with
  | nil => simp [find?]
  | cons e rest ih =>
    obtain ⟨here, found⟩ := e
    by_cases h : here = loc
    · subst h
      by_cases ho : other = here
      · simpa [find?, ho] using ih
      · have ho' : ¬here = other := fun e => ho e.symm
        simpa [find?, ho, ho'] using ih
    · by_cases ho : here = other
      · subst ho
        simp [find?, h]
      · simpa [find?, h, ho] using ih

theorem get?_insert (t : FileTree) (loc other : Location) (entry : Entry) :
    (t.insert loc entry).get? other = if other = loc then some entry else t.get? other :=
  find?_put loc other entry t.entries

theorem get?_erase (t : FileTree) (loc other : Location) :
    (t.erase loc).get? other = if other = loc then none else t.get? other :=
  find?_filter loc other t.entries

theorem filter_put_of_find? {loc : Location} {entry : Entry} {l : List (Location × Entry)}
    (h : find? loc l = none) : (put loc entry l).filter (fun (here, _) => here ≠ loc) = l := by
  have hall : ∀ l : List (Location × Entry), find? loc l = none →
      l.filter (fun (here, _) => here ≠ loc) = l := by
    intro l
    induction l with
    | nil => simp
    | cons e rest ih =>
      obtain ⟨here, found⟩ := e
      intro h
      unfold find? at h
      split at h
      · simp at h
      · rename_i hne
        simp only [ne_eq, decide_not] at ih
        simp [hne, ih h]
  induction l with
  | nil => simp [put]
  | cons e rest ih =>
    obtain ⟨here, found⟩ := e
    have hrest := hall _ h
    unfold find? at h
    split at h
    · simp at h
    · rename_i hne
      unfold put
      rw [if_neg hne]
      split
      · rw [List.filter_cons_of_neg (by simp), hrest]
      · rw [List.filter_cons_of_pos (by simpa using hne), ih h]

/-- Setting an entry where there was none and removing it again changes nothing. -/
theorem erase_insert {t : FileTree} {loc : Location} (entry : Entry) (h : t.get? loc = none) :
    (t.insert loc entry).erase loc = t := by
  cases t
  exact congrArg FileTree.mk (filter_put_of_find? h)

end FileTree

end BuildPlan
