import BuildPlan.Description.Basic
import BuildPlan.Proofs.LayoutEdits
import BuildPlan.Proofs.SectionLayout

/-!
# One text behind another

A text that begins with a header line in the first column can be put behind any other text that ends
in a newline: the header closes whatever the other text has left open, so both are read as if they
stood alone, and only the line numbers of the second are higher (`statements_append`).

The sections of the one are then followed by the sections of the other, unless both have a section
of one name. In that case the first header of the second text that repeats a name is reported
(`ofLines_append_of_disjoint`, `ofLines_append_of_clash`). A build description looks its sections up
by name, so the order in which two such texts stand does not matter to it.
-/

namespace BuildPlan

/-! ## Line numbers -/

/-- The statement a number of lines further down. -/
def Statement.shift (d : Nat) : Statement → Statement
  | .header n name => .header (n + d) name
  | .setting n key value => .setting (n + d) key value
  | .unreadable n text => .unreadable (n + d) text

theorem Statement.unnumbered_shift (d : Nat) (st : Statement) :
    (st.shift d).unnumbered = st.unnumbered := by
  cases st <;> rfl

/-- The line number and the name of a header. -/
def Statement.header? : Statement → Option (Nat × Text)
  | .header n name => some (n, name)
  | _ => none

theorem Statement.header?_eq_some_iff {st : Statement} {n : Nat} {name : Text} :
    st.header? = some (n, name) ↔ st = .header n name := by
  cases st <;> simp [header?]

namespace Description

/-- The setting a number of lines further down. -/
def OpenSetting.shift (d : Nat) (o : OpenSetting) : OpenSetting := { o with line := o.line + d }

/-- The same lines further down are laid out anew: only their numbers are others. -/
theorem relaid_add (d n : Nat) (ls : List Text) : Relaid (· + d) n (n + d) ls ls := by
  induction ls generalizing n with
  | nil => exact .nil
  | cons line ls ih =>
    refine .line rfl rfl ?_
    rw [show n + d + 1 = n + 1 + d by omega]
    exact ih (n + 1)

/-- **The number of the first line only moves the numbers of the statements.** -/
theorem statementsFrom_add (d n : Nat) (s : Option OpenSetting) (ls : List Text) :
    statementsFrom (n + d) (s.map (OpenSetting.shift d)) ls
      = (statementsFrom n s ls).map (Statement.shift d) := by
  have hshift : Statement.shift d = Statement.renumber (· + d) := by
    funext st
    cases st <;> rfl
  rw [hshift]
  exact statementsFrom_relaid (relaid_add d n ls) s

/-- **Lines behind others are read as if they stood alone**, if the first of them is neither
indented nor a filler. -/
theorem statements_append {line : Text} (hsig : Significant line)
    (hindent : isIndented line = false) (ls rest : List Text) :
    statements (ls ++ line :: rest)
      = statements ls ++ (statements (line :: rest)).map (Statement.shift ls.length) := by
  obtain ⟨done, s, hls, hsplit⟩ := exists_statements_append ls
  have hclose : ¬(isIndented line = true ∧ s.isSome = true) := by simp [hindent]
  have hshift := statementsFrom_add ls.length 1 none (line :: rest)
  rw [hsplit, statementsFrom_close hsig hclose, hls, List.append_assoc, statements, ← hshift]
  rfl

/-! ## Headers -/

/-- The numbers of the header lines and the names in them, where the first line has the number `n`.
-/
def headersFrom (n : Nat) : List (Role × Text) → List (Nat × Text)
  | [] => []
  | (r, line) :: rest =>
    if r = .header then (n, innerText (trim line)) :: headersFrom (n + 1) rest
    else headersFrom (n + 1) rest

/-- The header lines of a text: their numbers and the names in them. -/
def headers (t : Text) : List (Nat × Text) := headersFrom 1 (mark (lines t))

theorem header?_closeSetting (s : Option OpenSetting) :
    (closeSetting s).filterMap Statement.header? = [] := by
  cases s <;> rfl

/-- **The header lines are the headers among the statements**, if every key line sets a key. -/
theorem header?_statementsFrom (ls : List Text) (n : Nat) (s : Option OpenSetting)
    (past : List Role)
    (hs : s.isSome = keySince past) (hread : ∀ m t, .unreadable m t ∉ statementsFrom n s ls) :
    (statementsFrom n s ls).filterMap Statement.header? = headersFrom n (markFrom past ls) := by
  induction ls generalizing n s past with
  | nil => exact header?_closeSetting s
  | cons line ls ih =>
    rw [markFrom, headersFrom]
    cases hrole : role (keySince past) line with
    | blank =>
      rw [← hs] at hrole
      rw [statementsFrom_blank hrole] at hread ⊢
      exact ih (n + 1) (s.map OpenSetting.addBlank) (.blank :: past)
        (by rw [Option.isSome_map, hs]; rfl) hread
    | comment =>
      rw [← hs] at hrole
      rw [statementsFrom_comment hrole] at hread ⊢
      exact ih (n + 1) s (.comment :: past) hs hread
    | continuation =>
      rw [← hs] at hrole
      have hopen : s.isSome = true := (role_eq_continuation_iff.mp hrole).2.2
      obtain ⟨o, rfl⟩ := Option.isSome_iff_exists.mp hopen
      rw [statementsFrom_continuation hrole] at hread ⊢
      exact ih (n + 1) (some (o.extend (trim line))) (.continuation :: past) hs hread
    | header =>
      rw [← hs] at hrole
      rw [statementsFrom_header hrole] at hread ⊢
      rw [List.filterMap_append, header?_closeSetting, if_pos rfl, List.nil_append,
        List.filterMap_cons_some (f := Statement.header?) rfl, ih (n + 1) none (.header :: past) rfl
          (fun m t hm => hread m t (List.mem_append_right _ (List.mem_cons_of_mem _ hm)))]
    | key =>
      rw [← hs] at hrole
      obtain ⟨key, value, hsets, hne⟩ := exists_setsKey hrole hread
      rw [statementsFrom_key hrole hsets hne] at hread ⊢
      rw [List.filterMap_append, header?_closeSetting, List.nil_append, if_neg (by decide)]
      exact ih (n + 1) (some ⟨n, key, [value], 0⟩) (.key :: past) rfl
        (fun m t hm => hread m t (List.mem_append_right _ hm))

end Description

/-! ## Sections behind others -/

namespace Sections

open Description

variable {base s s' : Sections} {l : List Statement}

/-- The second sections are the first ones with those of `base` in front of them. -/
def Behind (base s s' : Sections) : Prop := s'.entries = base.entries ++ s.entries

theorem Behind.mem_keys_iff (h : Behind base s s') {name : Text} :
    name ∈ s'.keys ↔ name ∈ base.keys ∨ name ∈ s.keys := by
  rw [Bindings.keys, h, List.map_append, List.mem_append]
  rfl

/-- **A statement has the same effect behind other sections**, unless it is a header that repeats
one of their names. -/
theorem Behind.add (hbehind : Behind base s s') {st : Statement} {r : Sections}
    (hnew : ∀ n name, st = .header n name → name ∉ base.keys) (h : s.add st = .ok r) :
    ∃ r', s'.add st = .ok r' ∧ Behind base r r' := by
  obtain ⟨n, name, rfl, hname, hr⟩ | ⟨n, key, value, front, name, keys, rfl, hs, hkey, hr⟩ :=
    entries_of_add h
  · have hname' : name ∉ s'.keys := by
      rw [hbehind.mem_keys_iff, not_or]
      exact ⟨hnew n name rfl, hname⟩
    obtain ⟨r', hr', hentries⟩ := add_header hname' n
    refine ⟨r', hr', ?_⟩
    rw [Behind, hentries, hbehind, hr, List.append_assoc]
  · have hs' : s'.entries = (base.entries ++ front) ++ [(name, keys)] := by
      rw [hbehind, hs, List.append_assoc]
    obtain ⟨r', hr', hentries⟩ := add_setting hs' hkey n value
    refine ⟨r', hr', ?_⟩
    rw [Behind, hentries, hr, List.append_assoc]

/-- **Statements without such a header make the same sections**, behind the others. -/
theorem exists_run_behind (hnew : ∀ n name, .header n name ∈ l → name ∉ base.keys)
    (h : l.foldlM add .empty = .ok s) :
    ∃ s', l.foldlM add base = .ok s' ∧ Behind base s s' := by
  have hstep : ∀ st ∈ l, ∀ s s' r, Behind base s s' → s.add st = .ok r →
      ∃ r', s'.add st = .ok r' ∧ Behind base r r' :=
    fun st hst _ _ _ hbehind hadd => hbehind.add (fun n name he => hnew n name (he ▸ hst)) hadd
  have hstart : Behind base .empty base := (List.append_nil _).symm
  exact Outcome.run_simulation hstep hstart h

/-- **The first header that repeats a name is reported**, at its line. -/
theorem run_behind_of_clash {n : Nat} {name : Text} {front back : List Statement}
    (hl : l = front ++ .header n name :: back)
    (hnew : ∀ m other, .header m other ∈ front → other ∉ base.keys) (hname : name ∈ base.keys)
    (h : l.foldlM add .empty = .ok s) :
    l.foldlM add base = .error (.duplicateSection n name) := by
  rw [hl, Outcome.foldlM_append_eq_ok_iff] at h
  obtain ⟨m, hm, -⟩ := h
  obtain ⟨m', hm', hbehind⟩ := exists_run_behind hnew hm
  have hadd : m'.add (.header n name) = .error (.duplicateSection n name) := by
    rw [add, if_pos ((m'.contains_iff name).mpr (hbehind.mem_keys_iff.mpr (Or.inl hname)))]
  rw [hl, Outcome.foldlM_append_eq_error_iff]
  exact Or.inr ⟨m', hm', Outcome.foldlM_cons_eq_error hadd back⟩

/-! ## Lines behind others -/

theorem header_mem_stated_iff {secs : List (Text × List (Text × Text))} {name : Text} :
    .header 0 name ∈ stated secs ↔ name ∈ secs.map Prod.fst := by
  rw [stated, List.mem_flatMap, List.mem_map]
  refine exists_congr fun e => and_congr_right fun _ => ?_
  rw [List.mem_cons, Statement.header.injEq]
  constructor
  · rintro (⟨-, he⟩ | hsetting)
    · exact he.symm
    · obtain ⟨d, -, hd⟩ := List.mem_map.mp hsetting
      exact absurd hd (by simp)
  · exact fun he => Or.inl ⟨rfl, he.symm⟩

/-- The sections are those of the headers. -/
theorem mem_keys_iff_header (h : ofStatements l = .ok s) {name : Text} :
    name ∈ s.keys ↔ ∃ n, .header n name ∈ l := by
  have hkeys : s.keys = s.contents.map Prod.fst := by
    rw [contents, List.map_map]
    rfl
  rw [hkeys, ← header_mem_stated_iff, ← ofStatements_eq_ok_iff.mp h, List.mem_map]
  constructor
  · rintro ⟨st, hst, heq⟩
    obtain ⟨n, rfl⟩ := exists_of_unnumbered_eq_header heq
    exact ⟨n, hst⟩
  · rintro ⟨n, hst⟩
    exact ⟨.header n name, hst, rfl⟩

theorem ofStatements_shift (d : Nat) (h : ofStatements l = .ok s) :
    ofStatements (l.map (Statement.shift d)) = .ok s := by
  rw [ofStatements_eq_ok_iff] at h ⊢
  rw [← h, List.map_map]
  exact List.map_congr_left fun st _ => st.unnumbered_shift d

section Lines

variable {s₁ s₂ : Sections} {ls rest : List Text} {line : Text}

/-- **Sections with other names follow those of the first lines.** -/
theorem ofLines_append_of_disjoint (hsig : Significant line) (hindent : isIndented line = false)
    (h₁ : ofLines ls = .ok s₁) (h₂ : ofLines (line :: rest) = .ok s₂)
    (hdisjoint : ∀ name ∈ s₁.keys, name ∉ s₂.keys) :
    ∃ s, ofLines (ls ++ line :: rest) = .ok s ∧ Behind s₁ s₂ s := by
  have hshifted := ofStatements_shift ls.length h₂
  have hnew : ∀ n name,
      .header n name ∈ (statements (line :: rest)).map (Statement.shift ls.length) →
      name ∉ s₁.keys := fun n name hmem hname =>
    hdisjoint name hname ((mem_keys_iff_header hshifted).mpr ⟨n, hmem⟩)
  obtain ⟨s, hs, hbehind⟩ := exists_run_behind hnew hshifted
  refine ⟨s, ?_, hbehind⟩
  rw [ofLines, statements_append hsig hindent, ofStatements, Outcome.foldlM_append_eq_ok_iff]
  exact ⟨s₁, h₁, hs⟩

/-- **The first header line that repeats a name of the first lines is reported.** -/
theorem ofLines_append_of_clash (hsig : Significant line) (hindent : isIndented line = false)
    (h₁ : ofLines ls = .ok s₁) (h₂ : ofLines (line :: rest) = .ok s₂) {n : Nat} {name : Text}
    (hfind : ((statements (line :: rest)).filterMap Statement.header?).find?
      (fun h => s₁.contains h.2) = some (n, name)) :
    ofLines (ls ++ line :: rest) = .error (.duplicateSection (ls.length + n) name) := by
  rw [List.find?_filterMap, Option.bind_eq_some_iff] at hfind
  obtain ⟨st, hst, hheader⟩ := hfind
  obtain rfl := Statement.header?_eq_some_iff.mp hheader
  obtain ⟨hname, front, back, hl, hfront⟩ := List.find?_eq_some_iff_append.mp hst
  have hsplit : (statements (line :: rest)).map (Statement.shift ls.length)
      = front.map (Statement.shift ls.length) ++
        .header (ls.length + n) name :: back.map (Statement.shift ls.length) := by
    rw [hl, List.map_append, List.map_cons, Statement.shift, Nat.add_comm n]
  have hnew : ∀ m other, .header m other ∈ front.map (Statement.shift ls.length) →
      other ∉ s₁.keys := by
    intro m other hmem hother
    obtain ⟨st, hst, heq⟩ := List.mem_map.mp hmem
    cases st with
    | header k first =>
      obtain ⟨-, rfl⟩ := Statement.header.inj heq
      have hfree := hfront _ hst
      simp [Statement.header?, (s₁.contains_iff first).mpr hother] at hfree
    | setting k key value => exact absurd heq (by simp [Statement.shift])
    | unreadable k text => exact absurd heq (by simp [Statement.shift])
  have hname' : name ∈ s₁.keys :=
    (s₁.contains_iff name).mp (by simpa [Statement.header?] using hname)
  rw [ofLines, statements_append hsig hindent, ofStatements, Outcome.foldlM_append_eq_error_iff]
  exact Or.inr ⟨s₁, h₁, run_behind_of_clash hsplit hnew hname' (ofStatements_shift ls.length h₂)⟩

end Lines

/-! ## Texts behind others -/

/-- The first line of the text is a header line in the first column. -/
def OpensWithHeader (t : Text) : Prop :=
  ∃ line ∈ (lines t).head?, role false line = .header ∧ isIndented line = false

theorem OpensWithHeader.exists_lines {t : Text} (h : OpensWithHeader t) :
    ∃ line rest, lines t = line :: rest ∧ Significant line ∧ isIndented line = false := by
  obtain ⟨line, hline, hrole, hindent⟩ := h
  obtain ⟨rest, hrest⟩ := List.head?_eq_some_iff.mp hline
  exact ⟨line, rest, hrest, (role_eq_header_iff.mp hrole).1, hindent⟩

/-- The header lines of a text without errors are the headers among its statements. -/
theorem header?_statements {t : Text} (h : parse t = .ok s) :
    (statements (lines t)).filterMap Statement.header? = headers t := by
  refine header?_statementsFrom (lines t) 1 none [] rfl fun m text hmem => ?_
  have hmem' : Statement.unnumbered (.unreadable m text) ∈ stated s.contents := by
    rw [← ofStatements_eq_ok_iff.mp h]
    exact List.mem_map_of_mem hmem
  exact unreadable_not_mem_stated s.contents text hmem'

theorem mem_keys_iff_headers {t : Text} (h : parse t = .ok s) {name : Text} :
    name ∈ s.keys ↔ ∃ n, (n, name) ∈ headers t := by
  rw [mem_keys_iff_header h, ← header?_statements h]
  refine exists_congr fun n => ?_
  rw [List.mem_filterMap]
  constructor
  · exact fun hmem => ⟨_, hmem, rfl⟩
  · rintro ⟨st, hmem, hst⟩
    exact Statement.header?_eq_some_iff.mp hst ▸ hmem

section Texts

variable {t₁ t₂ : Text} {s₁ s₂ : Sections}

/-- **Sections with other names follow those of the first text.** -/
theorem parse_append_of_disjoint (hend : t₁.getLast? = some '\n') (hopens : OpensWithHeader t₂)
    (h₁ : parse t₁ = .ok s₁) (h₂ : parse t₂ = .ok s₂)
    (hdisjoint : ∀ name ∈ s₁.keys, name ∉ s₂.keys) :
    ∃ s, parse (t₁ ++ t₂) = .ok s ∧ Behind s₁ s₂ s := by
  obtain ⟨line, rest, hlines, hsig, hindent⟩ := hopens.exists_lines
  rw [parse, hlines] at h₂
  rw [parse, lines_append hend, hlines]
  exact ofLines_append_of_disjoint hsig hindent h₁ h₂ hdisjoint

/-- **The first header of the second text that repeats a name of the first is reported**, at its
line in the text of both. -/
theorem parse_append_of_clash (hend : t₁.getLast? = some '\n') (hopens : OpensWithHeader t₂)
    (h₁ : parse t₁ = .ok s₁) (h₂ : parse t₂ = .ok s₂) {n : Nat} {name : Text}
    (hfind : (headers t₂).find? (fun h => s₁.contains h.2) = some (n, name)) :
    parse (t₁ ++ t₂) = .error (.duplicateSection ((lines t₁).length + n) name) := by
  obtain ⟨line, rest, hlines, hsig, hindent⟩ := hopens.exists_lines
  rw [← header?_statements h₂, hlines] at hfind
  rw [parse, hlines] at h₂
  rw [parse, lines_append hend, hlines]
  exact ofLines_append_of_clash hsig hindent h₁ h₂ hfind

theorem exists_find?_headers (h₂ : parse t₂ = .ok s₂) {name : Text} (hname₁ : name ∈ s₁.keys)
    (hname₂ : name ∈ s₂.keys) :
    ∃ h, (headers t₂).find? (fun h => s₁.contains h.2) = some h := by
  obtain ⟨n, hmem⟩ := (mem_keys_iff_headers h₂).mp hname₂
  refine Option.isSome_iff_exists.mp (List.find?_isSome.mpr ⟨(n, name), hmem, ?_⟩)
  exact (s₁.contains_iff name).mpr hname₁

/-- Behind or in front of others, a section is found by its name. -/
theorem get?_eq_of_behind {s s' : Sections} (h : Behind s₁ s₂ s) (h' : Behind s₂ s₁ s')
    (name : Text) : s.get? name = s'.get? name := by
  refine Option.ext fun sec => ?_
  rw [← Bindings.mem_entries_iff, ← Bindings.mem_entries_iff, h, h', List.mem_append,
    List.mem_append, or_comm]

end Texts

end Sections

/-! ## Build descriptions -/

namespace Description

/-- What a build description is made of: the sections `meta`, `globals` and `rules`. -/
def readSections (s : Sections) : Option Section × Option Section × Option Section :=
  (s.get? "meta", s.get? "globals", s.get? "rules")

theorem ofSections_eq_of_readSections {s s' : Sections} (h : readSections s = readSections s') :
    ofSections s = ofSections s' := by
  obtain ⟨hmeta, hrest⟩ := Prod.mk.inj h
  obtain ⟨hglobals, hrules⟩ := Prod.mk.inj hrest
  rw [ofSections, ofSections, hmeta, hglobals, hrules]

/-- **No other section matters**, as long as the text can be read. -/
theorem parse_eq_of_readSections {t t' : Text}
    (h : (Sections.parse t).map readSections = (Sections.parse t').map readSections) :
    parse t = parse t' := by
  rw [parse, parse]
  cases hs : Sections.parse t with
  | error e =>
    cases hs' : Sections.parse t' with
    | error e' =>
      rw [hs, hs'] at h
      rw [Except.error.inj h]
    | ok s' =>
      rw [hs, hs'] at h
      exact absurd h (by simp [Except.map])
  | ok s =>
    cases hs' : Sections.parse t' with
    | error e' =>
      rw [hs, hs'] at h
      exact absurd h (by simp [Except.map])
    | ok s' =>
      rw [hs, hs'] at h
      exact ofSections_eq_of_readSections (Except.ok.inj h)

/-- **Sections compose.** Two texts that begin with a header and end in a newline can be put one
behind the other. If no section name occurs in both, the sections follow each other, and the build
description does not depend on the order; otherwise the first header that repeats a name is
reported. Sections other than `meta`, `globals` and `rules` only have to be readable. -/
theorem parse_append :
    (∀ (t₁ t₂ : Text) (s₁ s₂ : Sections), t₁.getLast? = some '\n' → t₂.getLast? = some '\n' →
      Sections.OpensWithHeader t₁ → Sections.OpensWithHeader t₂ →
      Sections.parse t₁ = .ok s₁ → Sections.parse t₂ = .ok s₂ →
      ((∀ name ∈ s₁.keys, name ∉ s₂.keys) →
        (∃ s, Sections.parse (t₁ ++ t₂) = .ok s ∧ s.entries = s₁.entries ++ s₂.entries) ∧
        parse (t₁ ++ t₂) = parse (t₂ ++ t₁)) ∧
      ((∃ name ∈ s₁.keys, name ∈ s₂.keys) →
        ∃ n name, (headers t₂).find? (fun h => s₁.contains h.2) = some (n, name) ∧
          Sections.parse (t₁ ++ t₂) = .error (.duplicateSection ((lines t₁).length + n) name))) ∧
    ∀ t t' : Text, (Sections.parse t).map readSections = (Sections.parse t').map readSections →
      parse t = parse t' := by
  refine ⟨fun t₁ t₂ s₁ s₂ hend₁ hend₂ hopens₁ hopens₂ h₁ h₂ => ⟨fun hdisjoint => ?_, ?_⟩,
    fun t t' h => parse_eq_of_readSections h⟩
  · have hdisjoint' : ∀ name ∈ s₂.keys, name ∉ s₁.keys := fun name hname₂ hname₁ =>
      hdisjoint name hname₁ hname₂
    obtain ⟨s, hs, hbehind⟩ := Sections.parse_append_of_disjoint hend₁ hopens₂ h₁ h₂ hdisjoint
    obtain ⟨s', hs', hbehind'⟩ := Sections.parse_append_of_disjoint hend₂ hopens₁ h₂ h₁ hdisjoint'
    refine ⟨⟨s, hs, hbehind⟩, parse_eq_of_readSections ?_⟩
    have hget := Sections.get?_eq_of_behind hbehind hbehind'
    have hread : readSections s = readSections s' := by
      rw [readSections, readSections, hget, hget, hget]
    rw [hs, hs']
    exact congrArg Except.ok hread
  · rintro ⟨shared, hshared₁, hshared₂⟩
    obtain ⟨⟨n, name⟩, hfind⟩ := Sections.exists_find?_headers h₂ hshared₁ hshared₂
    exact ⟨n, name, hfind, Sections.parse_append_of_clash hend₁ hopens₂ h₁ h₂ hfind⟩

/-- A text that ends in a key whose value could still be continued, and a blank line. -/
def openEnded : Text := "[meta]\nincludes =\nrulenames = cc\n\n"

/-- Behind the open key stands a section of another name, then one that repeats the name in its
second header, then one that is of no account. -/
theorem parse_append_openEnded :
    (∃ s, Sections.parse (openEnded ++ "[rules]\n  cc.ins = a.c\n") = .ok s ∧
      s.keys = (["meta", "rules"] : List Text)) ∧
    parse (openEnded ++ "[rules]\n  cc.ins = a.c\n")
      = parse ("[rules]\n  cc.ins = a.c\n" ++ openEnded) ∧
    Sections.parse (openEnded ++ "[notes]\n[ meta ]\n") = .error (.duplicateSection 6 "meta") ∧
    parse (openEnded ++ "[notes]\na = b\n") = parse openEnded := by
  have h : Sections.parse openEnded = .ok _ := rfl
  have hrules : Sections.parse "[rules]\n  cc.ins = a.c\n" = .ok _ := rfl
  have hnotes : Sections.parse "[notes]\n[ meta ]\n" = .ok _ := rfl
  have hopens : Sections.OpensWithHeader openEnded := ⟨_, rfl, by decide +kernel, rfl⟩
  have hopens₁ : Sections.OpensWithHeader "[rules]\n  cc.ins = a.c\n" :=
    ⟨_, rfl, by decide +kernel, rfl⟩
  have hopens₂ : Sections.OpensWithHeader "[notes]\n[ meta ]\n" := ⟨_, rfl, by decide +kernel, rfl⟩
  obtain ⟨⟨s, hs, hentries⟩, hparse⟩ :=
    (parse_append.1 _ _ _ _ rfl rfl hopens hopens₁ h hrules).1 (by decide +kernel)
  obtain ⟨n, name, hfind, hclash⟩ :=
    (parse_append.1 _ _ _ _ rfl rfl hopens hopens₂ h hnotes).2 (by decide +kernel)
  refine ⟨⟨s, hs, ?_⟩, hparse, ?_, parse_append.2 _ _ rfl⟩
  · rw [Bindings.keys, hentries]
    rfl
  · cases hfind
    exact hclash

end Description

end BuildPlan
