import BuildPlan.Text.Basic

/-!
# Templates

A template is text with placeholders. A placeholder is written `${name}` or `${name:argument}`,
with white space allowed after the name and after the colon; an argument runs up to the first
closing brace. Whatever does not form a placeholder is literal text, so every text is a template.

`parse` cuts a text into segments from left to right. At a dollar sign that begins no placeholder
only that one character is literal, and reading goes on behind it. The segments, written one after
the other, are the text (`written_parse`).
-/

namespace BuildPlan

/-- A placeholder of a template. -/
structure Placeholder where
  name : Text
  /-- The argument of a call. A plain reference has none, nor has a colon with nothing after it. -/
  arg : Option Text
  /-- The placeholder as it was written. -/
  raw : Text
deriving DecidableEq

/-- A piece of a template. -/
inductive Segment where
  | literal (text : Text)
  | placeholder (p : Placeholder)
deriving DecidableEq

/-- The segment as it stands in the template. -/
def Segment.written : Segment → Text
  | .literal t => t
  | .placeholder p => p.raw

namespace Template

/-! ## Names -/

/-- A character that can begin a name: an ASCII letter or an underscore. -/
def isNameStart (c : Char) : Bool := c.isAlpha || c == '_'

/-- A character that can follow in a name: also a digit or a dot. -/
def isNameChar (c : Char) : Bool := isNameStart c || c.isDigit || c == '.'

/-- The longest name at the start of a text, empty if there is none. -/
def leadingName : Text → Text
  | [] => []
  | c :: cs => if isNameStart c then c :: cs.takeWhile isNameChar else []

/-- The text is a name. -/
def isName : Text → Bool
  | [] => false
  | c :: cs => isNameStart c && cs.all isNameChar

/-! ## Placeholders -/

/-- A text as an argument, where the empty text counts as none. -/
def argument? (arg : Text) : Option Text := if arg.isEmpty then none else some arg

/-- The rest of a placeholder, after its name. `written` is what has been read so far. -/
def readBody (name written : Text) (rest : Text) : Option Placeholder :=
  let gap := rest.takeWhile isBlank
  match rest.dropWhile isBlank with
  | '}' :: _ => some ⟨name, none, written ++ gap ++ ['}']⟩
  | ':' :: rest =>
    let gap' := rest.takeWhile isBlank
    (cutAtFirst (· == '}') (rest.dropWhile isBlank)).map fun (arg, _) =>
      ⟨name, argument? arg, written ++ gap ++ ':' :: gap' ++ arg ++ ['}']⟩
  | _ => none

/-- The placeholder at the start of a text. -/
def readPlaceholder : Text → Option Placeholder
  | '$' :: '{' :: rest =>
    let name := leadingName rest
    if name.isEmpty then none
    else readBody name ('$' :: '{' :: name) (rest.drop name.length)
  | _ => none

/-! ## Segments -/

/-- Put one more literal character in front. -/
def consLiteral (c : Char) : List Segment → List Segment
  | .literal t :: segments => .literal (c :: t) :: segments
  | segments => .literal [c] :: segments

/-- Cut a text into segments after passing over its first `skip` characters, which belong to a
placeholder already read. -/
def parseFrom : Nat → Text → List Segment
  | _, [] => []
  | skip + 1, _ :: cs => parseFrom skip cs
  | 0, c :: cs =>
    match readPlaceholder (c :: cs) with
    | some p => .placeholder p :: parseFrom (p.raw.length - 1) cs
    | none => consLiteral c (parseFrom 0 cs)

/-- Cut a text that holds `braces` closing braces into segments, like `parseFrom`. Where no brace is
left no placeholder is looked for, so that no part of the text is searched in vain again and again.
-/
def parseWithin : Nat → Nat → Text → List Segment
  | _, _, [] => []
  | braces, skip + 1, c :: cs => parseWithin (if c = '}' then braces - 1 else braces) skip cs
  | braces, 0, c :: cs =>
    let left := if c = '}' then braces - 1 else braces
    match if braces = 0 then none else readPlaceholder (c :: cs) with
    | some p => .placeholder p :: parseWithin left (p.raw.length - 1) cs
    | none => consLiteral c (parseWithin left 0 cs)

/-- The segments of a template. -/
def parse (t : Text) : List Segment := parseWithin (t.count '}') 0 t

/-! ## Nothing is lost -/

/-- The characters of a placeholder are the first characters of the text it was read from. -/
theorem readBody_raw {name written rest : Text} {p : Placeholder}
    (h : readBody name written rest = some p) : ∃ after, written ++ rest = p.raw ++ after := by
  have hsplit : rest.takeWhile isBlank ++ rest.dropWhile isBlank = rest :=
    List.takeWhile_append_dropWhile
  unfold readBody at h
  split at h
  · rename_i after heq
    simp only [Option.some.injEq] at h
    subst h
    refine ⟨after, ?_⟩
    conv => lhs; rw [← hsplit, heq]
    simp
  · rename_i rest' heq
    obtain ⟨⟨arg, after⟩, hcut, rfl⟩ := Option.map_eq_some_iff.mp h
    obtain ⟨c, hc, hbrace, -⟩ := eq_append_of_cutAtFirst hcut
    have hsplit' : rest'.takeWhile isBlank ++ rest'.dropWhile isBlank = rest' :=
      List.takeWhile_append_dropWhile
    have hb : c = '}' := by simpa using hbrace
    subst hb
    refine ⟨after, ?_⟩
    conv => lhs; rw [← hsplit, heq, ← hsplit', hc]
    simp
  · simp at h

theorem isPrefix_leadingName (t : Text) : leadingName t <+: t := by
  cases t with
  | nil => exact List.prefix_rfl
  | cons c cs =>
    rw [leadingName]
    split
    · exact (List.prefix_cons_inj c).mpr (List.takeWhile_prefix _)
    · exact List.nil_prefix

/-- A placeholder is how the text begins. -/
theorem readPlaceholder_raw {t : Text} {p : Placeholder} (h : readPlaceholder t = some p) :
    ∃ after, t = p.raw ++ after := by
  unfold readPlaceholder at h
  split at h
  · rename_i rest
    simp only at h
    split at h
    · simp at h
    · obtain ⟨after, ha⟩ := readBody_raw h
      refine ⟨after, ?_⟩
      rw [← ha]
      simp [List.prefix_iff_eq_append.mp (isPrefix_leadingName rest)]
  · simp at h

theorem brace_mem_raw {t : Text} {p : Placeholder} (h : readPlaceholder t = some p) :
    '}' ∈ p.raw := by
  unfold readPlaceholder at h
  split at h
  · simp only at h
    split at h
    · simp at h
    · unfold readBody at h
      split at h
      · simp only [Option.some.injEq] at h
        subst h
        simp
      · obtain ⟨⟨arg, after⟩, -, rfl⟩ := Option.map_eq_some_iff.mp h
        simp
      · simp at h
  · simp at h

theorem readPlaceholder_raw_ne_nil {t : Text} {p : Placeholder} (h : readPlaceholder t = some p) :
    p.raw ≠ [] :=
  List.ne_nil_of_mem (brace_mem_raw h)

/-- A text without a closing brace does not begin with a placeholder. -/
theorem readPlaceholder_eq_none {t : Text} (h : '}' ∉ t) : readPlaceholder t = none := by
  cases hp : readPlaceholder t with
  | none => rfl
  | some p =>
    obtain ⟨after, ha⟩ := readPlaceholder_raw hp
    exact absurd (ha ▸ List.mem_append_left after (brace_mem_raw hp)) h

theorem written_consLiteral (c : Char) (segments : List Segment) :
    (consLiteral c segments).flatMap Segment.written = c :: segments.flatMap Segment.written := by
  unfold consLiteral
  split <;> simp [Segment.written]

/-- What is written in the segments is what was not passed over. -/
theorem written_parseFrom (n : Nat) (t : Text) :
    (parseFrom n t).flatMap Segment.written = t.drop n := by
  induction t generalizing n with
  | nil => simp [parseFrom]
  | cons c cs ih =>
    cases n with
    | succ n => simp [parseFrom, ih]
    | zero =>
      unfold parseFrom
      split
      · -- `c` opens the placeholder, so all but one of its characters are passed over
        rename_i p hp
        obtain ⟨after, ha⟩ := readPlaceholder_raw hp
        obtain ⟨d, raw, hraw⟩ := List.exists_cons_of_ne_nil (readPlaceholder_raw_ne_nil hp)
        rw [hraw] at ha
        simp only [List.cons_append, List.cons.injEq] at ha
        obtain ⟨rfl, rfl⟩ := ha
        simp [Segment.written, ih, hraw]
      · simp [written_consLiteral, ih]

/-- Counting the braces that are left changes nothing. -/
theorem parseWithin_count (n : Nat) (t : Text) :
    parseWithin (t.count '}') n t = parseFrom n t := by
  induction t generalizing n with
  | nil => simp [parseWithin, parseFrom]
  | cons c cs ih =>
    have hleft : (if c = '}' then (c :: cs).count '}' - 1 else (c :: cs).count '}')
        = cs.count '}' := by
      by_cases hc : c = '}' <;> simp [hc]
    cases n with
    | succ n => rw [parseWithin, parseFrom, hleft, ih]
    | zero =>
      have hread : (if (c :: cs).count '}' = 0 then none else readPlaceholder (c :: cs))
          = readPlaceholder (c :: cs) := by
        split
        · rename_i h
          exact (readPlaceholder_eq_none (List.count_eq_zero.mp h)).symm
        · rfl
      simp only [parseWithin, parseFrom, hread, hleft, ih]

theorem parse_eq_parseFrom (t : Text) : parse t = parseFrom 0 t := parseWithin_count 0 t

/-- The segments of a template, one after the other, are the template. -/
theorem written_parse (t : Text) : (parse t).flatMap Segment.written = t := by
  simp [parse_eq_parseFrom, written_parseFrom]

end Template

end BuildPlan
