import Mathlib.Data.List.Forall2
import BuildPlan.Proofs.LineRoles
import BuildPlan.Proofs.SectionContents

/-!
# The layout of a build description

A layout is the syntax tree of a build description: sections under their header lines, keys under
their key lines, and the continuation lines of each key, with the blank lines and comments that
stand between them. Every line of the description has its place in the tree.

The sections that are read from a text are those of the layout of its lines (`exists_layout`), and
lines with their roles have one layout at most (`Layout.marked_inj`). The proof follows the reading
of statements from the last line backwards. What stands behind a line is a `Tail`: the rest of an
open value, the keys of an open section and further sections. One more line in front gives one more
`Tail`.
-/

namespace BuildPlan.Description

/-! ## Syntax trees -/

/-- A line that says nothing. -/
inductive Filler where
  | blank (line : Text)
  | comment (line : Text)

/-- The line with its role. -/
def Filler.marked : Filler → Role × Text
  | .blank line => (.blank, line)
  | .comment line => (.comment, line)

/-- The number of blank lines. -/
def blankCount : List Filler → Nat
  | [] => 0
  | .blank _ :: gap => blankCount gap + 1
  | .comment _ :: gap => blankCount gap

/-- A continuation line and what stands between it and the line of the value before it. -/
structure Continuation where
  gap : List Filler
  line : Text

/-- The lines with their roles. -/
def Continuation.marked (c : Continuation) : List (Role × Text) :=
  c.gap.map Filler.marked ++ [(.continuation, c.line)]

/-- What the line adds to the value: a newline for itself and for each blank line before it. -/
def Continuation.text (c : Continuation) : Text :=
  List.replicate (1 + blankCount c.gap) '\n' ++ trim c.line

/-- A key line with its continuation lines, and what follows the last of them. -/
structure KeyBlock where
  line : Text
  continuations : List Continuation
  rest : List Filler

/-- The lines with their roles. -/
def KeyBlock.marked (k : KeyBlock) : List (Role × Text) :=
  (.key, k.line) :: (k.continuations.flatMap Continuation.marked ++ k.rest.map Filler.marked)

/-- The lines set this key to this value. -/
def KeyBlock.Gives (k : KeyBlock) (d : Text × Text) : Prop :=
  d.1 ≠ [] ∧ ∃ first, SetsKey (trim k.line) d.1 first ∧
    d.2 = first ++ k.continuations.flatMap Continuation.text

/-- A header line with its key lines. -/
structure SectionBlock where
  line : Text
  lead : List Filler
  keys : List KeyBlock

/-- The lines with their roles. -/
def SectionBlock.marked (b : SectionBlock) : List (Role × Text) :=
  (.header, b.line) :: (b.lead.map Filler.marked ++ b.keys.flatMap KeyBlock.marked)

/-- The lines make up a section of this name with these keys and values. -/
def SectionBlock.Gives (b : SectionBlock) (e : Text × List (Text × Text)) : Prop :=
  e.1 = innerText (trim b.line) ∧ List.Forall₂ KeyBlock.Gives b.keys e.2

/-- All lines of a build description, each in its place. -/
structure Layout where
  front : List Filler
  sections : List SectionBlock

/-- The lines with their roles. -/
def Layout.marked (d : Layout) : List (Role × Text) :=
  d.front.map Filler.marked ++ d.sections.flatMap SectionBlock.marked

/-- The lines make up these sections. -/
def Layout.Gives (d : Layout) (secs : List (Text × List (Text × Text))) : Prop :=
  List.Forall₂ SectionBlock.Gives d.sections secs

/-! ## The rest of a layout -/

/-- The layout of the last lines of a build description, which may begin inside a value or a
section. -/
structure Tail where
  continuations : List Continuation
  rest : List Filler
  keys : List KeyBlock
  sections : List SectionBlock

namespace Tail

/-- The lines with their roles. -/
def marked (d : Tail) : List (Role × Text) :=
  d.continuations.flatMap Continuation.marked ++ (d.rest.map Filler.marked ++
    (d.keys.flatMap KeyBlock.marked ++ d.sections.flatMap SectionBlock.marked))

/-- A filler belongs to the gap before the next line of the value, if there is one. -/
def consFiller (f : Filler) (d : Tail) : Tail :=
  match d.continuations with
  | [] => { d with rest := f :: d.rest }
  | c :: cs => { d with continuations := { c with gap := f :: c.gap } :: cs }

def consContinuation (line : Text) (d : Tail) : Tail :=
  { d with continuations := ⟨[], line⟩ :: d.continuations }

def consKey (line : Text) (d : Tail) : Tail :=
  ⟨[], [], ⟨line, d.continuations, d.rest⟩ :: d.keys, d.sections⟩

/-- No value is open behind a header, so `d` has no continuation lines of its own. -/
def consHeader (line : Text) (d : Tail) : Tail := ⟨[], [], [], ⟨line, d.rest, d.keys⟩ :: d.sections⟩

theorem marked_consFiller (f : Filler) (d : Tail) :
    (d.consFiller f).marked = f.marked :: d.marked := by
  obtain ⟨cs, rest, keys, sections⟩ := d
  cases cs with
  | nil => rfl
  | cons c cs => rfl

theorem marked_consContinuation (line : Text) (d : Tail) :
    (d.consContinuation line).marked = (.continuation, line) :: d.marked := rfl

theorem marked_consKey (line : Text) (d : Tail) :
    (d.consKey line).marked = (.key, line) :: d.marked := by
  simp [marked, consKey, KeyBlock.marked]

theorem marked_consHeader (line : Text) {d : Tail} (h : d.continuations = []) :
    (d.consHeader line).marked = (.header, line) :: d.marked := by
  simp [marked, consHeader, SectionBlock.marked, h]

/-! ## What the rest of a layout says -/

/-- What continuation lines add to a value that has `b` blank lines behind it already. -/
def addedText (b : Nat) : List Continuation → Text
  | [] => []
  | c :: cs =>
    List.replicate (b + blankCount c.gap + 1) '\n' ++ trim c.line ++ cs.flatMap Continuation.text

/-- What an open setting becomes with the continuation lines. -/
def closed (s : Option OpenSetting) (cs : List Continuation) : List Statement :=
  match s with
  | none => []
  | some o => [.setting 0 o.key (o.value ++ addedText o.blanks cs)]

/-- The statements, without their line numbers, are those of the tail, where `s` is the setting that
it continues. -/
def Says (d : Tail) (s : Option OpenSetting) (l : List Statement) : Prop :=
  ∃ kvs secs,
    List.Forall₂ KeyBlock.Gives d.keys kvs ∧ List.Forall₂ SectionBlock.Gives d.sections secs ∧
    l.map Statement.unnumbered
      = closed s d.continuations ++ (Sections.settings kvs ++ Sections.stated secs)

theorem addedText_zero (cs : List Continuation) :
    addedText 0 cs = cs.flatMap Continuation.text := by
  cases cs with
  | nil => rfl
  | cons c cs =>
    rw [addedText, List.flatMap_cons, Continuation.text, Nat.zero_add, Nat.add_comm]

theorem closed_nil (s : Option OpenSetting) :
    closed s [] = (closeSetting s).map Statement.unnumbered := by
  cases s with
  | none => rfl
  | some o => simp [closed, addedText, closeSetting, OpenSetting.close, Statement.unnumbered]

variable {d : Tail} {s : Option OpenSetting} {l : List Statement}

theorem Says.consBlank (line : Text) (h : d.Says (s.map OpenSetting.addBlank) l) :
    (d.consFiller (.blank line)).Says s l := by
  obtain ⟨kvs, secs, hkeys, hsections, hl⟩ := h
  obtain ⟨cs, rest, keys, sections⟩ := d
  refine ⟨kvs, secs, ?_, ?_, ?_⟩
  · cases cs <;> exact hkeys
  · cases cs <;> exact hsections
  · rw [hl]
    cases s with
    | none => cases cs <;> rfl
    | some o =>
      cases cs with
      | nil => rfl
      | cons c cs =>
        -- the blank line is counted in the open setting or in the gap
        have hcount : o.blanks + 1 + blankCount c.gap = o.blanks + (blankCount c.gap + 1) := by
          omega
        simp only [closed, consFiller, addedText, Option.map_some, OpenSetting.addBlank, blankCount,
          hcount]
        rfl

theorem Says.consComment (line : Text) (h : d.Says s l) :
    (d.consFiller (.comment line)).Says s l := by
  obtain ⟨kvs, secs, hkeys, hsections, hl⟩ := h
  obtain ⟨cs, rest, keys, sections⟩ := d
  refine ⟨kvs, secs, ?_, ?_, ?_⟩
  · cases cs <;> exact hkeys
  · cases cs <;> exact hsections
  · rw [hl]
    cases cs <;> rfl

theorem Says.consContinuation (line : Text) {o : OpenSetting}
    (h : d.Says (some (o.extend (trim line))) l) : (d.consContinuation line).Says (some o) l := by
  obtain ⟨kvs, secs, hkeys, hsections, hl⟩ := h
  refine ⟨kvs, secs, hkeys, hsections, ?_⟩
  rw [hl]
  have hblanks : (o.extend (trim line)).blanks = 0 := rfl
  have hkey : (o.extend (trim line)).key = o.key := rfl
  have hadded : addedText o.blanks (⟨[], line⟩ :: d.continuations)
      = List.replicate (o.blanks + 1) '\n' ++ trim line
        ++ d.continuations.flatMap Continuation.text := rfl
  simp only [closed, Tail.consContinuation, hadded, hblanks, hkey, addedText_zero,
    OpenSetting.value_extend, List.append_assoc]

theorem Says.consKey {line key value : Text} {n : Nat} (hsets : SetsKey (trim line) key value)
    (hne : key ≠ []) (h : d.Says (some ⟨n, key, [value], 0⟩) l) :
    (d.consKey line).Says s (closeSetting s ++ l) := by
  obtain ⟨kvs, secs, hkeys, hsections, hl⟩ := h
  refine ⟨(key, value ++ d.continuations.flatMap Continuation.text) :: kvs, secs,
    List.Forall₂.cons ⟨hne, value, hsets, rfl⟩ hkeys, hsections, ?_⟩
  have hvalue : (⟨n, key, [value], 0⟩ : OpenSetting).value = value := by
    simp [OpenSetting.value]
  rw [List.map_append, hl, Tail.consKey, closed_nil]
  simp only [closed, hvalue, addedText_zero, Sections.settings, List.map_cons, List.cons_append,
    List.nil_append]

theorem Says.consHeader (line : Text) {n : Nat} (h : d.Says none l) :
    (d.consHeader line).Says s
      (closeSetting s ++ .header n (innerText (trim line)) :: l) := by
  obtain ⟨kvs, secs, hkeys, hsections, hl⟩ := h
  refine ⟨[], (innerText (trim line), kvs) :: secs, List.Forall₂.nil,
    List.Forall₂.cons ⟨rfl, hkeys⟩ hsections, ?_⟩
  rw [List.map_append, List.map_cons, hl, Tail.consHeader, closed_nil, Sections.stated_cons]
  rfl

end Tail

/-! ## From the last line backwards -/

/-- **The lines have a layout, and the statements read from them are those of the layout**, if every
key line sets a key. `past` are the roles of the lines before and `s` is the setting that is open.
-/
theorem exists_tail (ls : List Text) (n : Nat) (s : Option OpenSetting) (past : List Role)
    (hs : s.isSome = keySince past) (hread : ∀ m t, .unreadable m t ∉ statementsFrom n s ls) :
    ∃ d : Tail, d.marked = markFrom past ls ∧ (s = none → d.continuations = []) ∧
      d.Says s (statementsFrom n s ls) := by
  induction ls generalizing n s past with
  | nil =>
    refine ⟨⟨[], [], [], []⟩, rfl, fun _ => rfl, [], [], .nil, .nil, ?_⟩
    rw [Tail.closed_nil]
    exact (List.append_nil _).symm
  | cons line ls ih =>
    rw [markFrom]
    cases hrole : role (keySince past) line with
    | blank =>
      rw [← hs] at hrole
      rw [statementsFrom_blank hrole] at hread ⊢
      obtain ⟨d, hmarked, hnone, hsays⟩ := ih (n + 1) (s.map OpenSetting.addBlank) (.blank :: past)
        (by rw [Option.isSome_map, hs]; rfl) hread
      refine ⟨d.consFiller (.blank line), by rw [Tail.marked_consFiller, hmarked]; rfl, ?_,
        hsays.consBlank line⟩
      rintro rfl
      rw [Tail.consFiller, hnone rfl]
    | comment =>
      rw [← hs] at hrole
      rw [statementsFrom_comment hrole] at hread ⊢
      obtain ⟨d, hmarked, hnone, hsays⟩ := ih (n + 1) s (.comment :: past) hs hread
      refine ⟨d.consFiller (.comment line), by rw [Tail.marked_consFiller, hmarked]; rfl, ?_,
        hsays.consComment line⟩
      rintro rfl
      rw [Tail.consFiller, hnone rfl]
    | continuation =>
      rw [← hs] at hrole
      have hopen : s.isSome = true := (role_eq_continuation_iff.mp hrole).2.2
      obtain ⟨o, rfl⟩ := Option.isSome_iff_exists.mp hopen
      rw [statementsFrom_continuation hrole] at hread ⊢
      obtain ⟨d, hmarked, -, hsays⟩ := ih (n + 1) (some (o.extend (trim line)))
        (.continuation :: past) hs hread
      exact ⟨d.consContinuation line, by rw [Tail.marked_consContinuation, hmarked], nofun,
        hsays.consContinuation line⟩
    | header =>
      rw [← hs] at hrole
      rw [statementsFrom_header hrole] at hread ⊢
      obtain ⟨d, hmarked, hnone, hsays⟩ := ih (n + 1) none (.header :: past) rfl
        (fun m t hm => hread m t (List.mem_append_right _ (List.mem_cons_of_mem _ hm)))
      exact ⟨d.consHeader line, by rw [Tail.marked_consHeader line (hnone rfl), hmarked],
        fun _ => rfl, hsays.consHeader line⟩
    | key =>
      rw [← hs] at hrole
      obtain ⟨key, value, hsets, hne⟩ := exists_setsKey hrole hread
      rw [statementsFrom_key hrole hsets hne] at hread ⊢
      obtain ⟨d, hmarked, -, hsays⟩ := ih (n + 1) (some ⟨n, key, [value], 0⟩) (.key :: past) rfl
        (fun m t hm => hread m t (List.mem_append_right _ hm))
      exact ⟨d.consKey line, by rw [Tail.marked_consKey, hmarked], fun _ => rfl,
        hsays.consKey hsets hne⟩

/-! ## One layout -/

/-- Two lists, each cut before its first element with the mark, are cut at the same place. -/
theorem append_inj_of_mark {α : Type} {p : α → Bool} {xs xs' ys ys' : List α}
    (hxs : ∀ x ∈ xs, p x = false) (hxs' : ∀ x ∈ xs', p x = false)
    (hys : ∀ y ∈ ys.head?, p y = true) (hys' : ∀ y ∈ ys'.head?, p y = true)
    (h : xs ++ ys = xs' ++ ys') : xs = xs' ∧ ys = ys' := by
  have htake : ∀ {zs ws : List α}, (∀ z ∈ zs, p z = false) → (∀ w ∈ ws.head?, p w = true) →
      (zs ++ ws).takeWhile (fun a => !p a) = zs := by
    intro zs ws hzs hws
    rw [List.takeWhile_append_of_pos fun z hz => by rw [hzs z hz]; rfl]
    cases ws with
    | nil => simp
    | cons w ws => rw [List.takeWhile_cons_of_neg (by simp [hws w rfl]), List.append_nil]
  have hfront : xs = xs' := by
    rw [← htake hxs hys, h, htake hxs' hys']
  subst hfront
  exact ⟨rfl, List.append_cancel_left h⟩

/-- Every block begins with the mark and holds no other. -/
def Opens {α β : Type} (p : β → Bool) (f : α → List β) : Prop :=
  ∀ a, ∃ m rest, f a = m :: rest ∧ p m = true ∧ ∀ x ∈ rest, p x = false

theorem Opens.head? {α β : Type} {p : β → Bool} {f : α → List β} (hf : Opens p f) (l : List α) :
    ∀ y ∈ (l.flatMap f).head?, p y = true := by
  intro y hy
  cases l with
  | nil => simp at hy
  | cons a l =>
    obtain ⟨m, rest, ha, hm, -⟩ := hf a
    rw [List.flatMap_cons, ha, List.cons_append, List.head?_cons, Option.mem_some] at hy
    rw [← hy, hm]

/-- Such blocks can be told apart in a row. -/
theorem Opens.flatMap_inj {α β : Type} {p : β → Bool} {f : α → List β} (hf : Opens p f)
    (hinj : ∀ a a', f a = f a' → a = a') {l l' : List α} (h : l.flatMap f = l'.flatMap f) :
    l = l' := by
  have hne : ∀ (a : α) (l : List α), (a :: l).flatMap f ≠ [] := by
    intro a l he
    obtain ⟨m, rest, ha, -⟩ := hf a
    rw [List.flatMap_cons, ha] at he
    exact absurd he (by simp)
  induction l generalizing l' with
  | nil =>
    cases l' with
    | nil => rfl
    | cons a l' => exact absurd h.symm (hne a l')
  | cons a l ih =>
    cases l' with
    | nil => exact absurd h (hne a l)
    | cons a' l' =>
      obtain ⟨m, rest, ha, -, hrest⟩ := hf a
      obtain ⟨m', rest', ha', -, hrest'⟩ := hf a'
      rw [List.flatMap_cons, List.flatMap_cons, ha, ha', List.cons_append, List.cons_append,
        List.cons.injEq] at h
      obtain ⟨rfl, htail⟩ := append_inj_of_mark hrest hrest' (hf.head? l) (hf.head? l') h.2
      rw [hinj a a' (by rw [ha, ha', h.1]), ih htail]

/-- The sections are determined by their headers and settings. -/
theorem stated_inj {secs secs' : List (Text × List (Text × Text))}
    (h : Sections.stated secs = Sections.stated secs') : secs = secs' := by
  have hsetting : ∀ (kvs : List (Text × Text)), ∀ st ∈ Sections.settings kvs,
      st.isHeader = false := by
    intro kvs st hst
    obtain ⟨d, -, rfl⟩ := List.mem_map.mp hst
    rfl
  have hopens : Opens Statement.isHeader fun e : Text × List (Text × Text) =>
      Statement.header 0 e.1 :: Sections.settings e.2 :=
    fun e => ⟨_, _, rfl, rfl, hsetting e.2⟩
  refine hopens.flatMap_inj ?_ h
  rintro ⟨name, kvs⟩ ⟨name', kvs'⟩ he
  simp only [List.cons.injEq, Statement.header.injEq, true_and] at he
  have hkvs : kvs = kvs' := by
    refine (List.map_inj_right ?_).mp he.2
    rintro ⟨key, value⟩ ⟨key', value'⟩ hd
    simpa using hd
  rw [he.1, hkvs]

theorem Filler.marked_inj {gap gap' : List Filler}
    (h : gap.map Filler.marked = gap'.map Filler.marked) : gap = gap' := by
  refine (List.map_inj_right ?_).mp h
  intro f f' hf
  cases f <;> cases f' <;> simp_all [Filler.marked]

theorem Filler.role_ne {r : Role} (hblank : r ≠ .blank) (hcomment : r ≠ .comment)
    (gap : List Filler) : ∀ x ∈ gap.map Filler.marked, (x.1 == r) = false := by
  intro x hx
  obtain ⟨f, -, rfl⟩ := List.mem_map.mp hx
  rw [beq_eq_false_iff_ne]
  cases f with
  | blank line => exact hblank.symm
  | comment line => exact hcomment.symm

/-- The lines of a value are determined by their roles: each continuation line ends a gap. -/
theorem Continuation.marked_inj {cs cs' : List Continuation} {rest rest' : List Filler}
    (h : cs.flatMap Continuation.marked ++ rest.map Filler.marked
      = cs'.flatMap Continuation.marked ++ rest'.map Filler.marked) : cs = cs' ∧ rest = rest' := by
  have hfree := Filler.role_ne (r := .continuation) (by decide) (by decide)
  have hnone : ∀ (gap : List Filler) (c : Continuation) (tail : List (Role × Text)),
      gap.map Filler.marked ≠ c.marked ++ tail := by
    intro gap c tail he
    have hm : (Role.continuation, c.line) ∈ gap.map Filler.marked := by
      rw [he]
      simp [Continuation.marked]
    simpa using hfree gap _ hm
  induction cs generalizing cs' with
  | nil =>
    cases cs' with
    | nil => exact ⟨rfl, Filler.marked_inj h⟩
    | cons c' cs' =>
      rw [List.flatMap_cons, List.append_assoc] at h
      exact absurd h (hnone rest c' _)
  | cons c cs ih =>
    cases cs' with
    | nil =>
      rw [List.flatMap_cons, List.append_assoc] at h
      exact absurd h.symm (hnone rest' c _)
    | cons c' cs' =>
      obtain ⟨gap, line⟩ := c
      obtain ⟨gap', line'⟩ := c'
      simp only [List.flatMap_cons, Continuation.marked, List.append_assoc,
        List.singleton_append] at h
      obtain ⟨hgap, htail⟩ :=
        append_inj_of_mark (hfree gap) (hfree gap') (by simp) (by simp) h
      simp only [List.cons_append, List.cons.injEq, Prod.mk.injEq, true_and] at htail
      obtain ⟨rfl, htail⟩ := htail
      obtain ⟨rfl, rfl⟩ := ih htail
      rw [Filler.marked_inj hgap]
      exact ⟨rfl, rfl⟩

theorem KeyBlock.marked_inj {k k' : KeyBlock} (h : k.marked = k'.marked) : k = k' := by
  obtain ⟨line, cs, rest⟩ := k
  obtain ⟨line', cs', rest'⟩ := k'
  simp only [KeyBlock.marked, List.cons.injEq, Prod.mk.injEq, true_and] at h
  obtain ⟨rfl, htail⟩ := h
  obtain ⟨rfl, rfl⟩ := Continuation.marked_inj htail
  rfl

/-- No header and no other key stands among the lines of a value. -/
theorem Continuation.role_ne {r : Role} (h : r = .key ∨ r = .header) (cs : List Continuation)
    (rest : List Filler) :
    ∀ x ∈ cs.flatMap Continuation.marked ++ rest.map Filler.marked, (x.1 == r) = false := by
  have hne : r ≠ .blank ∧ r ≠ .comment ∧ r ≠ .continuation := by
    rcases h with rfl | rfl <;> decide
  intro x hx
  rcases List.mem_append.mp hx with hx | hx
  · obtain ⟨c, -, hx⟩ := List.mem_flatMap.mp hx
    rcases List.mem_append.mp hx with hx | hx
    · exact Filler.role_ne hne.1 hne.2.1 c.gap x hx
    · rw [List.mem_singleton.mp hx, beq_eq_false_iff_ne]
      exact hne.2.2.symm
  · exact Filler.role_ne hne.1 hne.2.1 rest x hx

/-- Fillers in front of blocks are told apart from them, and the blocks from each other. -/
theorem Filler.append_inj {α : Type} {r : Role} (hblank : r ≠ .blank) (hcomment : r ≠ .comment)
    {f : α → List (Role × Text)} (hf : Opens (fun x => x.1 == r) f)
    (hinj : ∀ a a', f a = f a' → a = a') {gap gap' : List Filler} {l l' : List α}
    (h : gap.map Filler.marked ++ l.flatMap f = gap'.map Filler.marked ++ l'.flatMap f) :
    gap = gap' ∧ l = l' := by
  obtain ⟨hgap, hl⟩ := append_inj_of_mark (p := fun x => x.1 == r)
    (Filler.role_ne hblank hcomment gap) (Filler.role_ne hblank hcomment gap') (hf.head? l)
    (hf.head? l') h
  exact ⟨Filler.marked_inj hgap, hf.flatMap_inj hinj hl⟩

theorem KeyBlock.opens : Opens (fun x => x.1 == Role.key) KeyBlock.marked :=
  fun _ => ⟨_, _, rfl, rfl, Continuation.role_ne (Or.inl rfl) _ _⟩

theorem SectionBlock.marked_inj {b b' : SectionBlock} (h : b.marked = b'.marked) : b = b' := by
  obtain ⟨line, lead, keys⟩ := b
  obtain ⟨line', lead', keys'⟩ := b'
  simp only [SectionBlock.marked, List.cons.injEq, Prod.mk.injEq, true_and] at h
  obtain ⟨rfl, htail⟩ := h
  obtain ⟨rfl, rfl⟩ := Filler.append_inj (by decide) (by decide) KeyBlock.opens
    (fun _ _ => KeyBlock.marked_inj) htail
  rfl

theorem SectionBlock.opens : Opens (fun x => x.1 == Role.header) SectionBlock.marked := by
  refine fun b => ⟨_, _, rfl, rfl, fun x hx => ?_⟩
  rcases List.mem_append.mp hx with hx | hx
  · exact Filler.role_ne (by decide) (by decide) b.lead x hx
  · obtain ⟨k, -, hx⟩ := List.mem_flatMap.mp hx
    rcases List.mem_cons.mp hx with rfl | hx
    · rfl
    · exact Continuation.role_ne (Or.inr rfl) _ _ x hx

/-- **Lines with their roles have one layout at most.** -/
theorem Layout.marked_inj {d d' : Layout} (h : d.marked = d'.marked) : d = d' := by
  obtain ⟨front, sections⟩ := d
  obtain ⟨front', sections'⟩ := d'
  obtain ⟨rfl, rfl⟩ := Filler.append_inj (by decide) (by decide) SectionBlock.opens
    (fun _ _ => SectionBlock.marked_inj) h
  rfl

/-! ## The whole text -/

theorem unreadable_not_mem_stated (secs : List (Text × List (Text × Text))) (t : Text) :
    .unreadable 0 t ∉ Sections.stated secs := by
  intro hm
  obtain ⟨e, -, hm⟩ := List.mem_flatMap.mp hm
  rcases List.mem_cons.mp hm with hm | hm
  · exact absurd hm (by simp)
  · obtain ⟨d, -, hd⟩ := List.mem_map.mp hm
    exact absurd hd (by simp)

/-- **The sections of a text are those of the layout of its lines.** -/
theorem exists_layout {t : Text} {s : Sections} (h : Sections.parse t = .ok s) :
    ∃ d : Layout, d.marked = mark (lines t) ∧ d.Gives s.contents := by
  have hstated := Sections.ofStatements_eq_ok_iff.mp h
  have hread : ∀ m u, .unreadable m u ∉ statements (lines t) := by
    intro m u hm
    refine unreadable_not_mem_stated s.contents u ?_
    rw [← hstated]
    exact List.mem_map.mpr ⟨_, hm, rfl⟩
  obtain ⟨⟨cs, rest, keys, sections⟩, hmarked, hnone, kvs, secs, hkeys, hsections, hl⟩ :=
    exists_tail (lines t) 1 none [] rfl hread
  obtain rfl : cs = [] := hnone rfl
  have heq : Sections.settings kvs ++ Sections.stated secs = Sections.stated s.contents :=
    hl.symm.trans hstated
  -- a key before the first header would be the first statement, which is a header
  have hkvs : kvs = [] := by
    cases kvs with
    | nil => rfl
    | cons d kvs =>
      cases hcontents : s.contents with
      | nil =>
        rw [hcontents] at heq
        exact absurd heq (by simp [Sections.settings, Sections.stated])
      | cons e secs' =>
        rw [hcontents, Sections.stated_cons] at heq
        exact absurd heq (by simp [Sections.settings])
  subst hkvs
  obtain rfl : keys = [] := by
    cases hkeys
    rfl
  refine ⟨⟨rest, sections⟩, ?_, ?_⟩
  · rw [mark, ← hmarked]
    rfl
  · rw [Layout.Gives, ← stated_inj heq]
    exact hsections

/-- **The sections of a text follow the grammar of its lines.** The lines, with their roles, have a
layout, and its sections are the sections that are read: a section for each header, in it a value
for each key line behind the header, and in the value each continuation line behind the key line. -/
theorem parse_layout {t : Text} {s : Sections} (h : Sections.parse t = .ok s) :
    (∃ d : Layout, d.marked = mark (lines t)) ∧
      ∀ d : Layout, d.marked = mark (lines t) → d.Gives s.contents := by
  obtain ⟨d, hmarked, hgives⟩ := exists_layout h
  refine ⟨⟨d, hmarked⟩, fun d' hmarked' => ?_⟩
  rw [Layout.marked_inj (hmarked'.trans hmarked.symm)]
  exact hgives

/-- A bracketed line is a continuation behind a key and a header behind a header, however it is
indented; blank lines inside a value count and comments do not. -/
theorem parse_layout_brackets :
    ∃ s, Sections.parse "[a]\n  k = 1\n\n # c\n  [x]\n; d\nl:2=3\n[ b ]\n\n  [c]\n" = .ok s ∧
      s.contents = ([("a", [("k", "1\n\n[x]"), ("l", "2=3")]), ("b", []), ("c", [])] :
        List (Text × List (Text × Text))) ∧
      Layout.Gives
        ⟨[], [⟨"[a]", [], [⟨"  k = 1", [⟨[.blank "", .comment " # c"], "  [x]"⟩], [.comment "; d"]⟩,
          ⟨"l:2=3", [], []⟩]⟩, ⟨"[ b ]", [.blank ""], []⟩, ⟨"  [c]", [], []⟩]⟩ s.contents := by
  have h : Sections.parse "[a]\n  k = 1\n\n # c\n  [x]\n; d\nl:2=3\n[ b ]\n\n  [c]\n" = .ok _ := rfl
  exact ⟨_, h, by decide +kernel, (parse_layout h).2 _ (by decide +kernel)⟩

end BuildPlan.Description
