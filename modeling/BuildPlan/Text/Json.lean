import BuildPlan.Text.Basic

/-!
# JSON strings

Only quotes, backslashes and control characters below U+0020 are escaped; everything else stands
for itself.
-/

namespace BuildPlan.Json

/-- How one character stands in a JSON string. -/
def escape (c : Char) : Text :=
  match c with
  | '"' => ['\\', '"']
  | '\\' => ['\\', '\\']
  | '\x08' => ['\\', 'b']
  | '\x0c' => ['\\', 'f']
  | '\n' => ['\\', 'n']
  | '\r' => ['\\', 'r']
  | '\t' => ['\\', 't']
  | c =>
    if c.toNat < 0x20 then
      ['\\', 'u', '0', '0', Nat.digitChar (c.toNat / 16), Nat.digitChar (c.toNat % 16)]
    else [c]

/-- A text as a JSON string. -/
def string (t : Text) : Text := '"' :: t.flatMap escape ++ ['"']

end BuildPlan.Json
