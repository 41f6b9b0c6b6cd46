import BuildPlan.Command.Run
import BuildPlan.Proofs.EdgeLines
import BuildPlan.Proofs.FinalNames
import BuildPlan.Proofs.SectionsRoundTrip

/-!
# Reading a listing back

In a listing the further lines of a value are indented by four spaces, and every other line is a
label and the first line of a value. `read` goes by that, line after line. A value may hold
anything: empty lines, lines that begin with spaces, lines that look like entries. All of it stands
behind the first ` = ` of its entry or behind four spaces (`read_text`).

So all depends on the labels. A label is a name, in bold where the stream shows colours. It must
stand in one line, must not hold the separator and must not begin like a further line. The names of
an evaluation are keys of the globals, of which the layout makes sure, or names that rules are
published under (`listableName_of_evaluate`): the name of a rule is a word, and it is part of a key
as well, so that it holds no `=`.
-/

namespace BuildPlan

theorem trimmed_of_isWord {w : Text} (h : IsWord w) : Trimmed w :=
  trimmed_iff.mpr ⟨fun c hc => h.2 c (List.mem_of_head? hc),
    fun c hc => h.2 c (List.mem_of_getLast? hc)⟩

namespace Listing

open Description (firstLine furtherLines)

/-! ## Reading -/

/-- The spaces before a further line of a value. -/
def indent : Text := "    "

/-- Take one more line. It continues the value read last if it is indented by four spaces; otherwise
it is cut at its first ` = `. -/
def takeLine (entries : List (Text × Text)) (line : Text) : Option (List (Text × Text)) :=
  if indent.isPrefixOf line then
    entries.getLast?.map fun e =>
      entries.dropLast ++ [(e.1, e.2 ++ '\n' :: line.drop indent.length)]
  else (cutAtText " = " line).map fun e => entries ++ [e]

/-- Read the entries of a listing, each line of which ends in a newline. A carriage return before it
belongs to the line. -/
def read (t : Text) : Option (List (Text × Text)) := (t.splitOn '\n').dropLast.foldlM takeLine []

/-! ## The lines of an entry -/

/-- A label that can be told from the rest of a listing. -/
structure ListableName (name : Text) : Prop where
  ne_nil : name ≠ []
  trimmed : Trimmed name
  newline : '\n' ∉ name
  equals : '=' ∉ name

/-- A name in bold can be told from the rest as well. -/
theorem ListableName.bold {name : Text} (h : ListableName name) (style : Style) :
    ListableName (style.bold name) := by
  cases style with
  | plain => exact h
  | coloured =>
    have hbold : Style.coloured.bold name = '\x1b' :: ("[1m" ++ name ++ "\x1b[0m") := rfl
    have hlast : (Style.coloured.bold name).getLast? = some 'm' := List.getLast?_append
    have hends : Trimmed (Style.coloured.bold name) := by
      refine trimmed_iff.mpr ⟨fun c hc => ?_, fun c hc => ?_⟩
      · rw [hbold, List.head?_cons] at hc
        cases hc
        rfl
      · cases hlast.symm.trans hc
        rfl
    exact ⟨hbold ▸ List.cons_ne_nil _ _, hends, by simp [hbold, h.newline],
      by simp [hbold, h.equals]⟩

/-- The entries of a namespace as they are listed, the names being labels. -/
def labelled (style : Style) (ns : Namespace) : List (Text × Text) :=
  ns.entries.map fun (name, value) => (style.bold name, value)

theorem labelled_plain (ns : Namespace) : labelled .plain ns = ns.entries := List.map_id _

/-- The lines of an entry with that label. -/
def entryLines (e : Text × Text) : List Text :=
  (e.1 ++ " = " ++ firstLine e.2) :: (furtherLines e.2).map (indent ++ ·)

/-- Newlines between lines and one at the end are newlines behind all of them. -/
theorem flatMap_newline (line : Text) (ls : List Text) :
    line ++ ls.flatMap ('\n' :: ·) ++ ['\n'] = (line :: ls).flatMap (· ++ ['\n']) := by
  induction ls generalizing line with
  | nil => simp
  | cons next ls ih =>
    rw [List.flatMap_cons, List.flatMap_cons, ← ih next]
    simp

/-- **An entry is written as its lines.** -/
theorem entry_eq_flatMap (style : Style) (e : Text × Text) :
    entry style e.1 e.2 = (entryLines (style.bold e.1, e.2)).flatMap (· ++ ['\n']) := by
  have hindented : (furtherLines e.2).flatMap (("\n    " : Text) ++ ·)
      = ((furtherLines e.2).map (indent ++ ·)).flatMap ('\n' :: ·) := by
    rw [List.flatMap_map]
    rfl
  have hvalue : replaceNewlines "\n    " e.2
      = firstLine e.2 ++ ((furtherLines e.2).map (indent ++ ·)).flatMap ('\n' :: ·) := by
    conv => lhs; rw [Description.value_eq_append e.2]
    rw [replaceNewlines_flatMap _ (Description.newline_not_mem_firstLine e.2)
      fun line hline => Description.newline_not_mem_furtherLines hline, hindented]
  rw [entry, hvalue, ← List.append_assoc, flatMap_newline, entryLines]

theorem newline_not_mem_of_mem_entryLines {e : Text × Text} (h : ListableName e.1) {line : Text}
    (hline : line ∈ entryLines e) : '\n' ∉ line := by
  rcases List.mem_cons.mp hline with rfl | hline
  · rw [List.mem_append, List.mem_append, not_or, not_or]
    exact ⟨⟨h.newline, by decide⟩, Description.newline_not_mem_firstLine e.2⟩
  · obtain ⟨further, hfurther, rfl⟩ := List.mem_map.mp hline
    rw [List.mem_append, not_or]
    exact ⟨by decide, Description.newline_not_mem_furtherLines hfurther⟩

/-! ## Reading the lines of an entry -/

variable {entries : List (Text × Text)} {name value line : Text}

theorem takeLine_first (h : ListableName name) (first : Text) :
    takeLine entries (name ++ " = " ++ first) = some (entries ++ [(name, first)]) := by
  have hindented : ¬indent.isPrefixOf (name ++ " = " ++ first) = true := by
    intro hprefix
    obtain ⟨rest, hrest⟩ := List.isPrefixOf_iff_prefix.mp hprefix
    have hspace : isIndented (indent ++ rest) = true := rfl
    have hname := isIndented_append h.trimmed h.ne_nil (" = " ++ first)
    rw [← List.append_assoc, ← hrest, hspace] at hname
    exact absurd hname (by decide)
  have hcut : cutAtText " = " (name ++ " = " ++ first) = some (name, first) := by
    have hsep : (" = " : Text) = [' '] ++ '=' :: [' '] := rfl
    rw [hsep]
    exact cutAtText_append (by decide) h.equals first
  rw [takeLine, if_neg hindented, hcut]
  rfl

theorem takeLine_further (line : Text) :
    takeLine (entries ++ [(name, value)]) (indent ++ line)
      = some (entries ++ [(name, value ++ '\n' :: line)]) := by
  have hprefix : indent.isPrefixOf (indent ++ line) = true :=
    List.isPrefixOf_iff_prefix.mpr (List.prefix_append indent line)
  rw [takeLine, if_pos hprefix, List.getLast?_concat, List.dropLast_concat, List.drop_left]
  rfl

theorem foldlM_takeLine_further (further : List Text) :
    (further.map (indent ++ ·)).foldlM takeLine (entries ++ [(name, value)])
      = some (entries ++ [(name, value ++ further.flatMap ('\n' :: ·))]) := by
  induction further generalizing value with
  | nil => simp
  | cons line further ih =>
    rw [List.map_cons, List.foldlM_cons, takeLine_further]
    refine ih.trans ?_
    simp

/-- **The lines of an entry are read as that entry.** -/
theorem foldlM_takeLine_entry {e : Text × Text} (h : ListableName e.1) :
    (entryLines e).foldlM takeLine entries = some (entries ++ [e]) := by
  rw [entryLines, List.foldlM_cons, takeLine_first h]
  refine (foldlM_takeLine_further (furtherLines e.2)).trans ?_
  rw [← Description.value_eq_append e.2]

theorem foldlM_takeLine_entries {es : List (Text × Text)} (h : ∀ e ∈ es, ListableName e.1) :
    (es.flatMap entryLines).foldlM takeLine entries = some (entries ++ es) := by
  induction es generalizing entries with
  | nil => simp
  | cons e es ih =>
    rw [List.flatMap_cons, List.foldlM_append, foldlM_takeLine_entry (h e List.mem_cons_self)]
    refine (ih fun d hd => h d (List.mem_cons_of_mem _ hd)).trans ?_
    simp

/-- **A listing is read back**, whatever the values are, but for the style of the names. -/
theorem read_text (style : Style) {ns : Namespace} (h : ∀ name ∈ ns.keys, ListableName name) :
    read (text style ns) = some (labelled style ns) := by
  have hlabels : ∀ e ∈ labelled style ns, ListableName e.1 := by
    intro e he
    obtain ⟨⟨name, value⟩, hentry, rfl⟩ := List.mem_map.mp he
    exact (h name (List.mem_map.mpr ⟨_, hentry, rfl⟩)).bold style
  have htext : text style ns = ((labelled style ns).flatMap entryLines).flatMap (· ++ ['\n']) := by
    rw [text, labelled, List.flatMap_assoc, List.flatMap_map]
    exact List.flatMap_congr fun e _ => entry_eq_flatMap style e
  have hlines : (text style ns).splitOn '\n' = (labelled style ns).flatMap entryLines ++ [[]] := by
    rw [htext]
    refine splitOn_flatMap_newline fun line hline => ?_
    obtain ⟨e, he, hline⟩ := List.mem_flatMap.mp hline
    exact newline_not_mem_of_mem_entryLines (hlabels e he) hline
  rw [read, hlines, List.dropLast_concat, foldlM_takeLine_entries hlabels, List.nil_append]

end Listing

/-- The output stream shows no colours. -/
def Conditions.NoColour (cond : Conditions) : Prop := cond.stdout = .plain

/-! ## The names of an evaluation -/

namespace Description

open Listing (ListableName)

variable {ws : Workspace} {t : Text} {d : Description} {ev : Evaluation}

theorem WritableKey.listable {key : Text} (h : WritableKey key) : ListableName key :=
  ⟨h.ne_nil, h.trimmed, h.newline, h.equals⟩

theorem writableKey_of_section {s : Sections} (hs : Sections.parse t = .ok s) {name : Text}
    {e : Text × Text} (he : e ∈ ((s.get? name).getD .empty).entries) : WritableKey e.1 := by
  cases hget : s.get? name with
  | none =>
    rw [hget] at he
    exact absurd he List.not_mem_nil
  | some sec =>
    rw [hget] at he
    have hmem : (name, sec.entries) ∈ s.contents :=
      List.mem_map.mpr ⟨(name, sec), Bindings.mem_entries_iff.mpr hget, rfl⟩
    exact ((writable_of_parse hs).settings _ hmem e he).key

/-- The keys of the globals and of the assignments can be written. -/
theorem writableKey_of_parse (h : parse t = .ok d) :
    (∀ key ∈ d.globals.keys, WritableKey key) ∧ ∀ a ∈ d.assignments, WritableKey a.1 := by
  obtain ⟨s, hs, hd⟩ := Outcome.bind_eq_ok_iff.mp h
  rw [Outcome.mapError_eq_ok_iff] at hs
  unfold ofSections at hd
  split at hd
  · exact absurd hd nofun
  · obtain ⟨includes, -, hd⟩ := Outcome.bind_eq_ok_iff.mp hd
    obtain ⟨ruleNames, -, hd⟩ := Outcome.bind_eq_ok_iff.mp hd
    rw [Outcome.pure_eq_ok_iff] at hd
    subst hd
    constructor
    · intro key hkey
      obtain ⟨e, he, rfl⟩ := List.mem_map.mp hkey
      exact writableKey_of_section hs he
    · intro a ha
      have hentries : ((s.get? "rules").map Bindings.entries).getD []
          = ((s.get? "rules").getD .empty).entries := Option.getD_map Bindings.entries .empty _
      exact writableKey_of_section hs (hentries ▸ ha)

theorem listableName_publishedName {name : Text} (hword : IsWord name) (hequals : '=' ∉ name)
    (p : Property) : ListableName (Resolution.publishedName name p) := by
  have hproperty : Unspaced p.name ∧ '=' ∉ p.name := by cases p <;> decide
  have hpublished : IsWord (Resolution.publishedName name p) := by
    refine ⟨List.append_ne_nil_of_left_ne_nil hword.1 _, fun c hc => ?_⟩
    rcases List.mem_append.mp hc with hc | hc
    · exact hword.2 c hc
    · rcases List.mem_cons.mp hc with rfl | hc
      · rfl
      · exact hproperty.1 c hc
  refine ⟨hpublished.1, trimmed_of_isWord hpublished, hpublished.not_mem rfl, ?_⟩
  rw [Resolution.publishedName, List.mem_append, List.mem_cons, not_or, not_or]
  exact ⟨hequals, by decide, hproperty.2⟩

/-- **Every name of an evaluation can be listed.** -/
theorem listableName_of_evaluate (hparse : parse t = .ok d) (heval : d.evaluate ws = .ok ev) :
    ∀ name ∈ ev.names.keys, ListableName name := by
  obtain ⟨hglobals, hassignments⟩ := writableKey_of_parse hparse
  obtain ⟨defines, hdefines, s, hs, rfl⟩ := evaluate_eq_ok_iff.mp heval
  have hinv := Resolution.namesInvariant_resolveRules hs
  intro key hkey
  rcases hinv.binds.mem_of_mem_keys hkey with hglobal | hpublished
  · rw [Resolution.keys_resolveGlobals hdefines] at hglobal
    exact (hglobals key hglobal).listable
  · -- the rule is declared, so its name is a word, and it stands in the key of an assignment
    obtain ⟨name, p, q, hname, rfl, hq⟩ := hinv.named key hpublished
    rw [Resolution.keys_resolveRules hs, List.mem_eraseDups] at hname
    obtain ⟨a, ha, hkey⟩ := List.mem_map.mp hq
    have hequals := (hassignments a ha).equals
    rw [hkey, Resolution.publishedName, List.mem_append, not_or] at hequals
    exact listableName_publishedName (isWord_of_mem_ruleNames hparse hname) hequals.1 p

/-- **What `vars` prints can be read back.** Of every build description that can be evaluated, the
listing of the names is read as exactly these names with their values, in order, the names being in
bold if the stream shows that. The listing is what `vars` prints where the description is read from
a file; so without colours what is read there are the names themselves. -/
theorem read_listing (hparse : parse t = .ok d) (heval : d.evaluate ws = .ok ev) :
    (∀ style, Listing.read (Listing.text style ev.names) = some (Listing.labelled style ev.names)) ∧
    ∀ (cond : Conditions) (verbose : Bool) (config : Text), ws.readText config = .ok t →
      (Invocation.run cond ws ⟨verbose, config, .vars .text⟩).exit = 0 ∧
      Listing.read (Invocation.run cond ws ⟨verbose, config, .vars .text⟩).stdout
        = some (Listing.labelled cond.stdout ev.names) ∧
      (cond.NoColour →
        Listing.read (Invocation.run cond ws ⟨verbose, config, .vars .text⟩).stdout
          = some ev.names.entries) := by
  have hread := fun style => Listing.read_text style (listableName_of_evaluate hparse heval)
  refine ⟨hread, fun cond verbose config htext => ?_⟩
  have hload : load ws config = .ok d :=
    Outcome.bind_eq_ok_iff.mpr ⟨t, Outcome.mapError_eq_ok_iff.mpr htext, hparse⟩
  have hfile : evaluateFile ws config = .ok ev :=
    Outcome.bind_eq_ok_iff.mpr
      ⟨d, Outcome.mapError_eq_ok_iff.mpr hload, Outcome.mapError_eq_ok_iff.mpr heval⟩
  have hprinted : Command.execute cond ws config (.vars .text)
      = (ws, .ok (Listing.text cond.stdout ev.names)) := by
    rw [Command.execute, Command.listNames, hfile]
    rfl
  have hrun : Invocation.run cond ws ⟨verbose, config, .vars .text⟩
      = ⟨0, Listing.text cond.stdout ev.names,
        Invocation.log cond ws ⟨verbose, config, .vars .text⟩, ws⟩ := by
    unfold Invocation.run
    simp only [hprinted]
  rw [hrun]
  refine ⟨rfl, hread cond.stdout, fun noColour => ?_⟩
  rw [← Listing.labelled_plain, ← noColour]
  exact hread cond.stdout

/-- A global with a space in its name and with lines that look like entries, and a rule. -/
def disguised : Text :=
  "[meta]\nincludes=\nrulenames=cc\n[globals]\na b : 1\n\n  c = 2\n"
    ++ "[rules]\ncc.ins=${a b} = \n x = y\n"

/-- The build description at `b`. -/
def disguisedFile : Workspace :=
  ⟨FileTree.empty.addFile (Workspace.pathNames "b") (Utf8.encode disguised), [], "/", "t"⟩

/-- The lines that look like entries are read as parts of the values. -/
theorem read_listing_disguised :
    ∃ d ev, parse disguised = .ok d ∧ d.evaluate disguisedFile = .ok ev ∧
      Listing.text .plain ev.names = "a b = 1\n    \n    c = 2\ncc.ins = ${a b} = x = y\n" ∧
      Listing.read (Invocation.run .ordinary disguisedFile ⟨false, "b", .vars .text⟩).stdout
        = some ([("a b", "1\n\nc = 2"), ("cc.ins", "${a b} = x = y")] : List (Text × Text)) := by
  have h := read_listing (show parse disguised = .ok _ from rfl)
    (show evaluate disguisedFile _ = .ok _ from rfl)
  obtain ⟨-, -, hread⟩ := h.2 .ordinary false "b" rfl
  exact ⟨_, _, rfl, rfl, rfl, hread rfl⟩

end Description

end BuildPlan
