import BuildPlan.PathWord
import BuildPlan.Text.Words
import BuildPlan.Wildcard.Expansion

/-!
# Word functions

A template can call five functions. Each takes a text, works on its words one by one and gives back
the results joined by single spaces. Four of them cut path words, and drop what is empty then;
`glob` reads every word as a wildcard pattern and may find any number of paths, or a fault in the
pattern. It passes over directories that it can not list.
-/

namespace BuildPlan

/-- A function that a template can call. -/
inductive WordFunction where
  | glob
  | basename
  | notdir
  | dir
  | suffix
deriving DecidableEq

/-- A word that is no pattern, and why. -/
structure BadPattern where
  word : Text
  fault : Wildcard.Fault
deriving DecidableEq

namespace WordFunction

/-- All functions. -/
def all : List WordFunction := [.glob, .basename, .notdir, .dir, .suffix]

/-- The name by which templates call the function. -/
def name : WordFunction → Text
  | .glob => "glob"
  | .basename => "basename"
  | .notdir => "notdir"
  | .dir => "dir"
  | .suffix => "suffix"

/-- The function of that name. -/
def ofName? (t : Text) : Option WordFunction := all.find? (·.name == t)

/-- The paths that one word finds. -/
def findPaths (ws : Workspace) (word : Text) : Except BadPattern (List Text) :=
  ((Wildcard.expandWord ws word).map fun found => found.filterMap Except.toOption).mapError
    fun fault => ⟨word, fault⟩

/-- The part of a path word, unless it is empty. -/
def kept (part : Text) : List Text := if part.isEmpty then [] else [part]

/-- What the function makes of one word. -/
def onWord (ws : Workspace) (f : WordFunction) (word : Text) : Except BadPattern (List Text) :=
  match f with
  | .glob => findPaths ws word
  | .basename => .ok (kept (PathWord.basename word))
  | .notdir => .ok (kept (PathWord.notdir word))
  | .dir => .ok (kept (PathWord.dir word))
  | .suffix => .ok (kept (PathWord.suffix word))

/-- What the function makes of a text. -/
def apply (ws : Workspace) (f : WordFunction) (text : Text) : Except BadPattern Text := do
  let results ← (words text).mapM (f.onWord ws)
  return unwords results.flatten

end WordFunction

end BuildPlan
