import BuildPlan.Text.Basic

/-!
# Statements of a build description

A build description is read line by line. Comment lines, which begin with `#` or `;`, are passed
over wherever they stand. A line is the header of a section, or it sets a key, or, if it is indented
and a key is being set, it continues the value of that key. Blank lines between the lines of a value
belong to the value; elsewhere they mean nothing.

`statements` collects the continuation lines of each key, so that what remains is a list of headers
and keys with the numbers of their lines. A line that is neither is a statement too: whether it is
an error, and which, is decided where the statements are put into sections.
-/

namespace BuildPlan

/-- One statement of a build description, with the number of its line. -/
inductive Statement where
  | header (line : Nat) (name : Text)
  | setting (line : Nat) (key value : Text)
  | unreadable (line : Nat) (text : Text)
deriving DecidableEq

namespace Statement

/-- The number of the line with which the statement begins. -/
def line : Statement → Nat
  | .header n _ => n
  | .setting n _ _ => n
  | .unreadable n _ => n

end Statement

namespace Description

/-! ## Single lines -/

/-- A trimmed line that begins with `#` or `;`. -/
def isComment (t : Text) : Bool := t.head? == some '#' || t.head? == some ';'

/-- The section that a trimmed line opens: what stands between brackets. -/
def headerName? : Text → Option Text
  | '[' :: rest =>
    match rest.reverse with
    | ']' :: name => some (trim name.reverse)
    | _ => none
  | _ => none

/-- The key and the value of a trimmed line, around its first `=` or `:`. -/
def keyValue? (t : Text) : Option (Text × Text) :=
  match cutAtFirst (fun c => c == '=' || c == ':') t with
  | some (key, value) => if (trim key).isEmpty then none else some (trim key, trim value)
  | none => none

/-! ## Values of several lines -/

/-- A key whose value may still be continued. -/
structure OpenSetting where
  line : Nat
  key : Text
  /-- The pieces of the value, the last one first. -/
  pieces : List Text
  /-- The number of blank lines after the last line of the value. -/
  blanks : Nat

namespace OpenSetting

/-- The value as far as it is known. -/
def value (s : OpenSetting) : Text := s.pieces.reverse.flatten

/-- The value goes on with a trimmed line. -/
def extend (s : OpenSetting) (t : Text) : OpenSetting :=
  { s with pieces := (List.replicate (s.blanks + 1) '\n' ++ t) :: s.pieces, blanks := 0 }

/-- A blank line follows. -/
def addBlank (s : OpenSetting) : OpenSetting := { s with blanks := s.blanks + 1 }

/-- Nothing more follows. Blank lines at the end are no part of the value. -/
def close (s : OpenSetting) : Statement := .setting s.line s.key s.value

/-- Blank lines and a further line are put at the end of the value. -/
theorem value_extend (s : OpenSetting) (t : Text) :
    (s.extend t).value = s.value ++ List.replicate (s.blanks + 1) '\n' ++ t := by
  simp [value, extend]

end OpenSetting

/-- The statement that an open setting, if there is one, has become. -/
def closeSetting : Option OpenSetting → List Statement
  | none => []
  | some s => [s.close]

/-! ## All lines -/

/-- The statements of the lines from number `n` on, where `s` is the setting that may still be
continued. -/
def statementsFrom (n : Nat) (s : Option OpenSetting) : List Text → List Statement
  | [] => closeSetting s
  | line :: rest =>
    let t := trim line
    if isComment t then statementsFrom (n + 1) s rest
    else if t.isEmpty then statementsFrom (n + 1) (s.map OpenSetting.addBlank) rest
    else
      match s, isIndented line with
      | some open_, true => statementsFrom (n + 1) (some (open_.extend t)) rest
      | s, _ =>
        closeSetting s ++
          match headerName? t with
          | some name => .header n name :: statementsFrom (n + 1) none rest
          | none =>
            match keyValue? t with
            | some (key, value) => statementsFrom (n + 1) (some ⟨n, key, [value], 0⟩) rest
            | none => .unreadable n t :: statementsFrom (n + 1) none rest

/-- The statements of a list of lines. Lines are numbered from one. -/
def statements (ls : List Text) : List Statement := statementsFrom 1 none ls

end Description

end BuildPlan
