import BuildPlan.Text.Basic

/-!
# Wildcard tokens

A wildcard pattern is compiled into tokens, one for each literal character, `?`, `*`, `**` or set
in brackets. Compiling stops at the first fault, which carries its position in the pattern.

`matchTokens` compares tokens with a file name. A dot at the start of the name is matched by
a literal dot only. The answer is computed for all endings of the name together; the equations
`matchFrom_nil`, `matchFrom_cons_cons`, `matchFrom_star_cons` and their like say what it is.
-/

namespace BuildPlan.Wildcard

/-- A piece of a pattern. -/
inductive Token where
  /-- Exactly this character. -/
  | char (c : Char)
  /-- Any one character. -/
  | anyChar
  /-- Any number of characters. -/
  | anySequence
  /-- Any number of directories. -/
  | anyDepth
  /-- One character of these ranges. -/
  | oneOf (ranges : List (Char × Char))
  /-- One character outside these ranges. -/
  | noneOf (ranges : List (Char × Char))
deriving DecidableEq

/-! ## Faults -/

/-- Why a pattern is not well formed. -/
inductive Reason where
  | starRun
  | partialComponent
  | openSet
deriving DecidableEq

/-- A fault of a pattern: where it is and what it is. Positions count characters from zero. -/
structure Fault where
  position : Nat
  reason : Reason
deriving DecidableEq

/-- What the fault is. -/
def Reason.message : Reason → Text
  | .starRun => "wildcards are either regular `*` or recursive `**`"
  | .partialComponent => "recursive wildcards must form a single path component"
  | .openSet => "invalid range pattern"

/-- What the fault is and where. -/
def Fault.message (f : Fault) : Text :=
  "Pattern syntax error near position " ++ decimal f.position ++ ": " ++ f.reason.message

/-! ## Compiling -/

/-- The ranges of a set. `a-z` is a range, any other character stands for itself. -/
def readRanges : Text → List (Char × Char)
  | first :: '-' :: last :: cs => (first, last) :: readRanges cs
  | c :: cs => (c, c) :: readRanges cs
  | [] => []

/-- A set, after its opening bracket: the token and the number of characters read. The first
member may be a closing bracket, so the end is looked for behind it. -/
def readSet : Text → Option (Token × Nat)
  | '!' :: first :: cs =>
    (cutAtFirst (· == ']') cs).map fun (members, _) =>
      (.noneOf (readRanges (first :: members)), members.length + 3)
  | '!' :: [] => none
  | first :: cs =>
    (cutAtFirst (· == ']') cs).map fun (members, _) =>
      (.oneOf (readRanges (first :: members)), members.length + 2)
  | [] => none

/-- A run of stars, of which the first has been read. Two stars must be a whole path component:
`previous` is the character before them. -/
def readStars (position : Nat) (previous : Option Char) (cs : Text) :
    Except Fault (Token × Nat) :=
  match cs.takeWhile (· == '*') with
  | [] => .ok (.anySequence, 0)
  | [_] =>
    if previous.all (· == '/') then
      match cs.drop 1 with
      | [] | '/' :: _ => .ok (.anyDepth, 1)
      | _ => .error ⟨position + 2, .partialComponent⟩
    else .error ⟨position - 1, .partialComponent⟩
  | _ => .error ⟨position + 2, .starRun⟩

/-- The token that begins with the character `c`, and how many of the characters after `c` belong
to it. -/
def readToken (position : Nat) (previous : Option Char) (c : Char) (cs : Text) :
    Except Fault (Token × Nat) :=
  match c with
  | '?' => .ok (.anyChar, 0)
  | '*' => readStars position previous cs
  | '[' =>
    match readSet cs with
    | some r => .ok r
    | none => .error ⟨position, .openSet⟩
  | c => .ok (.char c, 0)

/-- Compile a pattern from `position` on, passing over `skip` characters of a token already read. -/
def compileFrom : Nat → Nat → Option Char → Text → Except Fault (List Token)
  | _, _, _, [] => .ok []
  | skip + 1, position, _, c :: cs => compileFrom skip (position + 1) (some c) cs
  | 0, position, previous, c :: cs => do
    let (token, more) ← readToken position previous c cs
    let tokens ← compileFrom more (position + 1) (some c) cs
    return token :: tokens

/-- The tokens of a pattern. -/
def compile (pattern : Text) : Except Fault (List Token) := compileFrom 0 0 none pattern

/-! ## Matching -/

/-- The character lies in one of the ranges. -/
def inRanges (c : Char) (ranges : List (Char × Char)) : Bool :=
  ranges.any fun (first, last) => first ≤ c && c ≤ last

/-- A wildcard takes any character but a dot at the start of a name. -/
def isTakable (atStart : Bool) (c : Char) : Bool := !(atStart && c == '.')

/-- The token stands for any number of characters. -/
def Token.isStar : Token → Bool
  | .anySequence | .anyDepth => true
  | _ => false

/-- The token takes this one character. -/
def Token.takes (atStart : Bool) : Token → Char → Bool
  | .char c, d => c == d
  | .anyChar, d | .anySequence, d | .anyDepth, d => isTakable atStart d
  | .oneOf ranges, d => isTakable atStart d && inRanges d ranges
  | .noneOf ranges, d => isTakable atStart d && !inRanges d ranges

/-- From the answers for the endings of a name, the answers when a token that is no star comes
first: it takes one character, and the tokens after it match what is left. -/
def takeOne (token : Token) : Bool → Text → List Bool → List Bool
  | atStart, c :: cs, _ :: answers =>
    (token.takes atStart c && answers.headD false) :: takeOne token false cs answers
  | _, _, _ => [false]

/-- From the answers for the endings of a name, the answers when a star comes first: it takes
nothing more, or one character and then goes on. -/
def takeAny (token : Token) : Bool → Text → List Bool → List Bool
  | atStart, c :: cs, here :: answers =>
    let after := takeAny token false cs answers
    (here || token.takes atStart c && after.headD false) :: after
  | _, _, answers => answers

/-- For a name and each of its endings, the longest first: whether the tokens match the whole of
it. `atStart` tells whether the name itself, and not only an ending, is given. Every token looks at
every character once, however many stars there are. -/
def matchEndings : List Token → Bool → Text → List Bool
  | [], _, name => name.map (fun _ => false) ++ [true]
  | token :: tokens, atStart, name =>
    (if token.isStar then takeAny token else takeOne token) atStart name
      (matchEndings tokens atStart name)

/-- The tokens match the whole rest of a name. -/
def matchFrom (tokens : List Token) (atStart : Bool) (name : Text) : Bool :=
  (matchEndings tokens atStart name).headD false

/-- The tokens match a file name. -/
def matchTokens (tokens : List Token) (name : Text) : Bool := matchFrom tokens true name

/-! ## What matching means -/

/-- The answers for the endings of a name do not depend on what comes before them. -/
theorem matchEndings_cons (tokens : List Token) (atStart : Bool) (c : Char) (cs : Text) :
    matchEndings tokens atStart (c :: cs)
      = matchFrom tokens atStart (c :: cs) :: matchEndings tokens false cs := by
  induction tokens generalizing atStart with
  | nil => simp [matchFrom, matchEndings]
  | cons token tokens ih =>
    unfold matchFrom
    simp only [matchEndings]
    rw [ih]
    cases token.isStar <;> simp [takeOne, takeAny]

@[simp]
theorem matchFrom_nil (atStart : Bool) (name : Text) :
    matchFrom [] atStart name = name.isEmpty := by
  cases name <;> simp [matchFrom, matchEndings]

/-- A token that is no star takes one character. -/
theorem matchFrom_cons_cons {token : Token} (h : token.isStar = false) (tokens : List Token)
    (atStart : Bool) (c : Char) (cs : Text) :
    matchFrom (token :: tokens) atStart (c :: cs)
      = (token.takes atStart c && matchFrom tokens false cs) := by
  rw [matchFrom, matchEndings, matchEndings_cons]
  simp [h, takeOne, matchFrom]

theorem matchFrom_cons_nil {token : Token} (h : token.isStar = false) (tokens : List Token)
    (atStart : Bool) : matchFrom (token :: tokens) atStart [] = false := by
  simp [matchFrom, matchEndings, h, takeOne]

/-- A star takes nothing, or one character and then what a star takes. -/
theorem matchFrom_star_cons {token : Token} (h : token.isStar = true) (tokens : List Token)
    (atStart : Bool) (c : Char) (cs : Text) :
    matchFrom (token :: tokens) atStart (c :: cs)
      = (matchFrom tokens atStart (c :: cs)
        || token.takes atStart c && matchFrom (token :: tokens) false cs) := by
  rw [matchFrom, matchEndings, matchEndings_cons]
  simp [h, takeAny, matchFrom, matchEndings]

theorem matchFrom_star_nil {token : Token} (h : token.isStar = true) (tokens : List Token)
    (atStart : Bool) : matchFrom (token :: tokens) atStart [] = matchFrom tokens atStart [] := by
  simp [matchFrom, matchEndings, h, takeAny]

end BuildPlan.Wildcard
