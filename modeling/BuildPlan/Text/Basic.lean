/-!
# Text

A text is a list of characters. Everything the library reads, compares and produces is a text;
strings appear only as literals, which are read as texts by coercion.

White space is the Unicode property `White_Space`. It decides where words end, what trimming
removes and which lines of a build description are indented.

A text is cut at every occurrence of a character by `List.splitOn`, and at the first of a kind by
`cutAtFirst`. Cutting loses nothing but the separator.
-/

namespace BuildPlan

/-- A text: the list of its characters. -/
abbrev Text := List Char

/-- String literals are read as texts. -/
instance : Coe String Text := ⟨String.toList⟩

/-! ## White space -/

/-- The characters with the Unicode property `White_Space`. -/
def isBlank (c : Char) : Bool :=
  let n := c.toNat
  (0x09 ≤ n && n ≤ 0x0D) || n == 0x20 || n == 0x85 || n == 0xA0 || n == 0x1680
    || (0x2000 ≤ n && n ≤ 0x200A) || n == 0x2028 || n == 0x2029 || n == 0x202F
    || n == 0x205F || n == 0x3000

/-- The text without its leading white space. -/
def trimStart (t : Text) : Text := t.dropWhile isBlank

/-- The text without its trailing white space. -/
def trimEnd (t : Text) : Text := (t.reverse.dropWhile isBlank).reverse

/-- The text without the white space at its two ends. -/
def trim (t : Text) : Text := trimEnd (trimStart t)

/-- The text begins with white space. -/
def isIndented : Text → Bool
  | [] => false
  | c :: _ => isBlank c

/-! ## Cutting -/

/-- The two parts around the first character that satisfies `p`, which belongs to neither. -/
def cutAtFirst (p : Char → Bool) : Text → Option (Text × Text)
  | [] => none
  | c :: cs =>
    if p c then some ([], cs) else (cutAtFirst p cs).map fun (before, after) => (c :: before, after)

/-- A number in decimal digits. -/
def decimal (n : Nat) : Text := Nat.toDigits 10 n

/-! ## Nothing is lost -/

/-- Cutting loses exactly the character at which the text was cut. -/
theorem eq_append_of_cutAtFirst {p : Char → Bool} {t before after : Text}
    (h : cutAtFirst p t = some (before, after)) :
    ∃ c, t = before ++ c :: after ∧ p c = true ∧ ∀ d ∈ before, p d = false := by
  induction t generalizing before with
  | nil => simp [cutAtFirst] at h
  | cons c cs ih =>
    unfold cutAtFirst at h
    split at h
    · rename_i hc
      simp only [Option.some.injEq, Prod.mk.injEq] at h
      obtain ⟨rfl, rfl⟩ := h
      exact ⟨c, by simp, hc, by simp⟩
    · rename_i hc
      obtain ⟨⟨b, a⟩, hb, he⟩ := Option.map_eq_some_iff.mp h
      simp only [Prod.mk.injEq] at he
      obtain ⟨rfl, rfl⟩ := he
      obtain ⟨d, rfl, hd, hall⟩ := ih hb
      refine ⟨d, by simp, hd, ?_⟩
      intro x hx
      rcases List.mem_cons.mp hx with rfl | hx
      · simpa using hc
      · exact hall x hx

theorem cutAtFirst_eq_none_iff {p : Char → Bool} {t : Text} :
    cutAtFirst p t = none ↔ ∀ c ∈ t, p c = false := by
  induction t with
  | nil => simp [cutAtFirst]
  | cons c cs ih => by_cases h : p c = true <;> simp [cutAtFirst, h, ih]

end BuildPlan
