import BuildPlan.Text.Printable

/-!
# Quoted text

A text between double quotes, on one line and with every character visible: quotes, backslashes
and the usual control characters have short escapes, and any other character that is not printable
is written by its code point in hexadecimal.
-/

namespace BuildPlan.Quoted

/-- The escape of a character by its code point. -/
def codePoint (c : Char) : Text := ['\\', 'u', '\x7b'] ++ Nat.toDigits 16 c.toNat ++ ['\x7d']

/-- How one character is written between double quotes. -/
def escape (c : Char) : Text :=
  match c with
  | '\x00' => ['\\', '0']
  | '\t' => ['\\', 't']
  | '\n' => ['\\', 'n']
  | '\r' => ['\\', 'r']
  | '"' => ['\\', '"']
  | '\\' => ['\\', '\\']
  | c => if isPrintable c then [c] else codePoint c

/-- A text between double quotes. -/
def quote (t : Text) : Text := '"' :: t.flatMap escape ++ ['"']

end BuildPlan.Quoted
