import BuildPlan.Proofs.Emission
import BuildPlan.Proofs.PatternOutput

/-!
# Edges and lines

An edge is written as `build`, its output, a colon, its rule and its inputs. The rule and the inputs
are words always, and so is an output that was listed. An output that a pattern made is whatever
text the pattern makes of one input, and that need not be a word.

What becomes of the build region is then a matter of the outputs alone. It has one physical line for
every edge, and one more for every newline in an output (`length_lines_region`); and the line of an
edge names its output, and nothing else, exactly if the output is a word (`namedOutputs_line_iff`).
-/

namespace BuildPlan

/-! ## The edges of a rule -/

namespace Rule

variable {ws : Workspace} {name : Text} {r : Rule} {ins outs : List Text} {es : List Edge}
  {e : Edge}

theorem edges_eq_ok_iff :
    r.edges ws name = .ok es ↔ ∃ os, r.outs ws = .ok (some os) ∧ pairUp name r.ins os = .ok es := by
  unfold edges
  split
  · rename_i cause h
    simp [h]
  · rename_i h
    simp [h]
  · rename_i os h
    simp [h]

theorem pairUp_of_length_eq (h : outs.length = ins.length) (name : Text) :
    pairUp name ins outs = .ok ((ins.zip outs).map fun p => ⟨p.2, name, [p.1]⟩) := by
  unfold pairUp
  split
  · rename_i output
    obtain ⟨input, rfl⟩ := List.length_eq_one_iff.mp h.symm
    rfl
  · rw [if_pos h]

/-- Inputs and outputs are paired if there is one output, or else as many of the one as of the
other. -/
theorem pairUp_eq_ok_iff :
    pairUp name ins outs = .ok es ↔
      (∃ output, outs = [output] ∧ es = [⟨output, name, ins⟩]) ∨
      (outs.length ≠ 1 ∧ outs.length = ins.length ∧
        es = (ins.zip outs).map fun p => ⟨p.2, name, [p.1]⟩) := by
  by_cases hone : outs.length = 1
  · obtain ⟨output, rfl⟩ := List.length_eq_one_iff.mp hone
    simp [pairUp, eq_comm]
  · by_cases hlen : outs.length = ins.length
    · rw [pairUp_of_length_eq hlen, Except.ok.injEq, eq_comm]
      constructor
      · exact fun h => Or.inr ⟨hone, hlen, h⟩
      · rintro (⟨output, rfl, -⟩ | ⟨-, -, h⟩)
        · exact absurd rfl hone
        · exact h
    · rw [pairUp_of_mismatch (not_or.mpr ⟨hone, hlen⟩)]
      constructor
      · intro h
        exact absurd h (by simp)
      · rintro (⟨output, rfl, -⟩ | ⟨-, h, -⟩)
        · exact absurd rfl hone
        · exact absurd h hlen

/-- An edge is made of the name, one of the outputs and some of the inputs. -/
theorem mem_of_mem_pairUp (h : pairUp name ins outs = .ok es) (he : e ∈ es) :
    e.rule = name ∧ e.output ∈ outs ∧ e.inputs ⊆ ins := by
  rcases pairUp_eq_ok_iff.mp h with ⟨output, rfl, rfl⟩ | ⟨-, -, rfl⟩
  · rw [List.mem_singleton] at he
    subst he
    exact ⟨rfl, List.mem_singleton_self _, List.Subset.refl _⟩
  · obtain ⟨p, hp, rfl⟩ := List.mem_map.mp he
    obtain ⟨hinput, houtput⟩ := List.of_mem_zip hp
    exact ⟨rfl, houtput, by simpa using hinput⟩

/-- **Without a pattern an output is one of those listed.** -/
theorem output_mem_of_pat_none (h : r.edges ws name = .ok es) (he : e ∈ es) (hpat : r.pat = none) :
    ∃ os, r.out = some os ∧ e.output ∈ os := by
  obtain ⟨os, houts, hpair⟩ := edges_eq_ok_iff.mp h
  rw [outs, hpat, Except.ok.injEq] at houts
  exact ⟨os, houts, (mem_of_mem_pairUp hpair he).2.1⟩

/-- **With a pattern an output is made of one input.** -/
theorem exists_input_of_pat {pat : Text} (h : r.edges ws name = .ok es) (he : e ∈ es)
    (hpat : r.pat = some pat) :
    ∃ input ∈ r.ins, e.inputs = [input] ∧ outputOf ws pat input = .ok e.output := by
  obtain ⟨os, houts, hpair⟩ := edges_eq_ok_iff.mp h
  rw [outs, hpat] at houts
  obtain ⟨made, hmap, hmade⟩ := Outcome.map_eq_ok_iff.mp houts
  obtain rfl : made = os := Option.some.inj hmade
  rw [pairUp_of_length_eq (Outcome.length_of_mapM_eq_ok hmap), Except.ok.injEq] at hpair
  rw [← hpair] at he
  obtain ⟨p, hp, rfl⟩ := List.mem_map.mp he
  exact ⟨p.1, (List.of_mem_zip hp).1, rfl, Outcome.of_mem_zip_of_mapM hmap hp⟩

/-- The inputs of the rule and the outputs that it lists are words. -/
structure HoldsWords (r : Rule) : Prop where
  ins : ∀ i ∈ r.ins, IsWord i
  out : ∀ os, r.out = some os → ∀ o ∈ os, IsWord o

end Rule

/-! ## The rules of a resolution -/

namespace Resolution

variable {ws : Workspace} {names : Namespace} {rule rule' : Rule}

theorem holdsWords_update {p : Property} {raw : Text} (hrule : rule.HoldsWords)
    (h : update ws names rule p raw = .ok rule') : rule'.HoldsWords := by
  cases p with
  | ins =>
    obtain ⟨t, -, rfl⟩ := Outcome.map_eq_ok_iff.mp h
    exact ⟨fun i hi => mem_words hi, hrule.out⟩
  | out =>
    obtain ⟨t, -, rfl⟩ := Outcome.map_eq_ok_iff.mp h
    refine ⟨hrule.ins, fun os hos o ho => ?_⟩
    rw [← Option.some.inj hos] at ho
    exact mem_words ho
  | pat =>
    cases h
    exact ⟨hrule.ins, hrule.out⟩

/-- An assignment keeps the lists of all rules lists of words. -/
theorem holdsWords_assign {s s' : Resolution} {a : Text × Text}
    (hs : ∀ name rule, s.rules.get? name = some rule → rule.HoldsWords)
    (h : assign ws s a = .ok s') :
    ∀ name rule, s'.rules.get? name = some rule → rule.HoldsWords := by
  obtain ⟨name, rule, p, rule', -, -, hget, hupdate, -, hrules⟩ := assign_eq_ok_iff.mp h
  intro other found hfound
  rw [hrules, Bindings.get?_insert] at hfound
  split at hfound
  · rw [← Option.some.inj hfound]
    exact holdsWords_update (hs name rule hget) hupdate
  · exact hs other found hfound

theorem holdsWords_resolveRules {ruleNames : List Text} {assignments : List (Text × Text)}
    {s : Resolution} (h : resolveRules ws ruleNames assignments names = .ok s) :
    ∀ name rule, s.rules.get? name = some rule → rule.HoldsWords := by
  refine Outcome.run_invariant
    (fun _ s => ∀ name rule, s.rules.get? name = some rule → rule.HoldsWords) ?_
    (fun _ _ _ _ hs hstep => holdsWords_assign hs hstep) h
  intro name rule hget
  rw [eq_empty_of_get?_start hget]
  exact ⟨by simp [Rule.empty], by simp [Rule.empty]⟩

end Resolution

/-! ## The lines of a region -/

namespace Manifest

theorem lines_region (ls : List Text) :
    lines (region ls) = (ls.flatMap (List.splitOn '\n')).map dropReturn ++ [[]] := by
  have hsplit := splitOn_region ls []
  rw [List.append_nil] at hsplit
  rw [lines, hsplit, closeLines_append _ (List.cons_ne_nil _ _)]
  rfl

/-- **A region has one physical line for each text, one more for each newline in it, and the empty
one.** -/
theorem length_lines_region (ls : List Text) :
    (lines (region ls)).length = ls.length + ls.flatten.count '\n' + 1 := by
  have hpieces : (ls.flatMap (List.splitOn '\n')).length = ls.length + ls.flatten.count '\n' := by
    induction ls with
    | nil => rfl
    | cons l ls ih =>
      rw [List.flatMap_cons, List.length_append, ih, length_splitOn, List.length_cons,
        List.flatten_cons, List.count_append]
      omega
  rw [lines_region, List.length_append, List.length_map, hpieces]
  rfl

/-! ## The line of an edge -/

/-- The words up to the first one that ends in a colon, without the colon. -/
def upToColon : List Text → List Text
  | [] => []
  | w :: ws =>
    match List.isSuffixOf? [':'] w with
    | some front => if front.isEmpty then [] else [front]
    | none => w :: upToColon ws

/-- The outputs that a line of the build region names: the words between `build` and the colon. -/
def namedOutputs (line : Text) : List Text := upToColon (words line).tail

theorem isWord_of_mem_upToColon {ws : List Text} (h : ∀ w ∈ ws, IsWord w) {w : Text}
    (hw : w ∈ upToColon ws) : IsWord w := by
  induction ws with
  | nil => exact absurd hw List.not_mem_nil
  | cons v ws ih =>
    unfold upToColon at hw
    split at hw
    · rename_i front hfront
      split at hw
      · exact absurd hw List.not_mem_nil
      · rename_i hne
        rw [List.mem_singleton.mp hw]
        rw [List.isSuffixOf?_eq_some_iff_append_eq] at hfront
        refine ⟨fun hnil => hne (List.isEmpty_iff.mpr hnil), fun c hc => ?_⟩
        exact (h v List.mem_cons_self).2 c (hfront ▸ List.mem_append_left _ hc)
    · rcases List.mem_cons.mp hw with rfl | hw
      · exact h w List.mem_cons_self
      · exact ih (fun u hu => h u (List.mem_cons_of_mem _ hu)) hw

theorem words_line {e : Edge} (h : IsWord e.output) :
    words e.line = ("build" : Text) :: (e.output ++ [':'])
      :: words (e.rule ++ e.inputs.flatMap (' ' :: ·)) := by
  have hspace : isBlank ' ' = true := by decide
  have hbuild : words ("build" : Text) = [("build" : Text)] := by decide
  have houtput : words (e.output ++ [':']) = [e.output ++ [':']] := by
    refine words_of_forall (by simp) fun c hc => ?_
    rcases List.mem_append.mp hc with hc | hc
    · exact h.2 c hc
    · rw [List.mem_singleton.mp hc]
      decide
  rw [line_eq_flatMap, List.flatMap_cons, List.cons_append, words_append_blank _ hspace,
    List.flatMap_cons, List.cons_append, words_append_blank _ hspace, hbuild, houtput]
  rfl

/-- **The line of an edge names its output and nothing else exactly if the output is a word.** -/
theorem namedOutputs_line_iff (e : Edge) : namedOutputs e.line = [e.output] ↔ IsWord e.output := by
  constructor
  · intro h
    have hmem : e.output ∈ namedOutputs e.line := by
      rw [h]
      exact List.mem_singleton_self _
    exact isWord_of_mem_upToColon (fun w hw => mem_words (List.mem_of_mem_tail hw)) hmem
  · intro h
    have hcolon : List.isSuffixOf? [':'] (e.output ++ [':']) = some e.output :=
      List.isSuffixOf?_eq_some_iff_append_eq.mpr rfl
    rw [namedOutputs, words_line h, List.tail_cons, upToColon, hcolon]
    exact if_neg fun hempty => h.1 (List.isEmpty_iff.mp hempty)

/-- The last of several words that stand behind spaces is how the text ends. -/
theorem exists_word_suffix {us : List Text} (hne : us ≠ []) (h : ∀ u ∈ us, IsWord u) :
    ∃ last, IsWord last ∧ last <:+ us.flatMap (' ' :: ·) := by
  rcases List.eq_nil_or_concat us with hnil | ⟨front, last, rfl⟩
  · exact absurd hnil hne
  · refine ⟨last, h last (by simp), front.flatMap (' ' :: ·) ++ [' '], ?_⟩
    simp

section Line

variable {e : Edge} (hrule : IsWord e.rule) (hinputs : ∀ i ∈ e.inputs, IsWord i)
include hrule hinputs

/-- The newlines of a line are those of the output. -/
theorem count_newline_line : e.line.count '\n' = e.output.count '\n' := by
  have hbuild : List.count '\n' ("build" : Text) = 0 := by decide
  have hrest : '\n' ∉ (e.rule :: e.inputs).flatMap (' ' :: ·) := by
    intro hm
    obtain ⟨u, hu, hm⟩ := List.mem_flatMap.mp hm
    have hword : IsWord u := by
      rcases List.mem_cons.mp hu with rfl | hu
      · exact hrule
      · exact hinputs u hu
    rcases List.mem_cons.mp hm with hm | hm
    · exact absurd hm (by decide)
    · exact hword.not_mem (by decide) hm
  rw [line_eq_flatMap, List.count_append, hbuild, List.flatMap_cons, List.count_append,
    List.count_eq_zero.mpr hrest]
  simp

theorem getLast?_line_ne_return : e.line.getLast? ≠ some '\r' := by
  have hwords : ∀ u ∈ e.rule :: e.inputs, IsWord u := List.forall_mem_cons.mpr ⟨hrule, hinputs⟩
  obtain ⟨last, hword, hlast⟩ := exists_word_suffix (List.cons_ne_nil _ _) hwords
  have hline : last <:+ e.line := by
    rw [line_eq_flatMap, List.flatMap_cons]
    exact (hlast.trans (List.suffix_append _ _)).trans (List.suffix_append _ _)
  obtain ⟨front, hfront⟩ := hline
  rw [← hfront, List.getLast?_append_of_ne_nil _ hword.1]
  intro hreturn
  exact hword.not_mem (by decide) (List.mem_of_getLast? hreturn)

end Line

theorem count_newline_lines {es : List Edge}
    (hwords : ∀ e ∈ es, IsWord e.rule ∧ ∀ i ∈ e.inputs, IsWord i) :
    (es.map Edge.line).flatten.count '\n' = (es.flatMap Edge.output).count '\n' := by
  induction es with
  | nil => rfl
  | cons e es ih =>
    obtain ⟨hrule, hinputs⟩ := hwords e List.mem_cons_self
    rw [List.map_cons, List.flatten_cons, List.count_append, count_newline_line hrule hinputs,
      ih fun x hx => hwords x (List.mem_cons_of_mem _ hx), List.flatMap_cons, List.count_append]

/-- **Where no output holds a newline, the physical lines are the lines of the edges.** -/
theorem lines_region_edges {es : List Edge}
    (hwords : ∀ e ∈ es, IsWord e.rule ∧ ∀ i ∈ e.inputs, IsWord i) (h : ∀ e ∈ es, '\n' ∉ e.output) :
    lines (region (es.map Edge.line)) = es.map Edge.line ++ [[]] := by
  have hfree : ∀ l ∈ es.map Edge.line, '\n' ∉ l := by
    intro l hl
    obtain ⟨e, he, rfl⟩ := List.mem_map.mp hl
    rw [← List.count_eq_zero, count_newline_line (hwords e he).1 (hwords e he).2]
    exact List.count_eq_zero.mpr (h e he)
  have hsame : (es.map Edge.line).map dropReturn = (es.map Edge.line).map id := by
    refine List.map_congr_left fun l hl => ?_
    obtain ⟨e, he, rfl⟩ := List.mem_map.mp hl
    exact dropReturn_of_getLast? (getLast?_line_ne_return (hwords e he).1 (hwords e he).2)
  rw [lines_region, flatMap_splitOn_of_not_mem hfree, hsame, List.map_id]

/-! ## The edges of a manifest -/

/-- Every edge belongs to a rule of the manifest. -/
theorem exists_rule_of_mem_edges {ws : Workspace} {m : Manifest} {es : List Edge} {e : Edge}
    (h : m.edges ws = .ok es) (he : e ∈ es) :
    ∃ rule group,
      m.rules.get? e.rule = some rule ∧ rule.edges ws e.rule = .ok group ∧ e ∈ group := by
  obtain ⟨groups, hgroups, rfl⟩ := Outcome.map_eq_ok_iff.mp h
  obtain ⟨group, hgroup, he⟩ := List.mem_flatten.mp he
  obtain ⟨x, hx, hedges⟩ := Outcome.exists_of_mem_mapM hgroups hgroup
  obtain ⟨os, -, hpair⟩ := Rule.edges_eq_ok_iff.mp hedges
  obtain ⟨hname, -, -⟩ := Rule.mem_of_mem_pairUp hpair he
  rw [hname]
  exact ⟨x.2, group, Bindings.mem_entries_iff.mp hx, hedges, he⟩

end Manifest

/-! ## After an evaluation -/

namespace Description

variable {ws : Workspace} {t : Text} {d : Description} {ev : Evaluation} {es : List Edge} {e : Edge}

theorem isWord_of_mem_ruleNames (h : parse t = .ok d) {name : Text} (hname : name ∈ d.ruleNames) :
    IsWord name := by
  obtain ⟨s, -, hs⟩ := Outcome.bind_eq_ok_iff.mp h
  unfold ofSections at hs
  split at hs
  · exact absurd hs (by simp)
  · obtain ⟨includes, -, hs⟩ := Outcome.bind_eq_ok_iff.mp hs
    obtain ⟨ruleNames, hruleNames, hs⟩ := Outcome.bind_eq_ok_iff.mp hs
    rw [Outcome.pure_eq_ok_iff] at hs
    subst hs
    unfold requiredWords at hruleNames
    split at hruleNames
    · rw [← Except.ok.inj hruleNames] at hname
      exact mem_words hname
    · exact absurd hruleNames (by simp)

theorem holdsWords_of_evaluate (h : d.evaluate ws = .ok ev) {name : Text} {rule : Rule}
    (hget : ev.manifest.rules.get? name = some rule) : rule.HoldsWords := by
  obtain ⟨defines, -, s, hs, rfl⟩ := evaluate_eq_ok_iff.mp h
  exact Resolution.holdsWords_resolveRules hs name rule hget

/-- The rule and the inputs of an edge are words. -/
theorem words_of_mem_edges (hparse : parse t = .ok d) (heval : d.evaluate ws = .ok ev)
    (hedges : ev.manifest.edges ws = .ok es) (he : e ∈ es) :
    IsWord e.rule ∧ ∀ i ∈ e.inputs, IsWord i := by
  obtain ⟨rule, group, hget, hgroup, he⟩ := Manifest.exists_rule_of_mem_edges hedges he
  have hname : e.rule ∈ d.ruleNames := by
    obtain ⟨defines, -, s, hs, rfl⟩ := evaluate_eq_ok_iff.mp heval
    exact (Resolution.mem_ruleNames_iff hs).mpr ⟨rule, hget⟩
  obtain ⟨os, -, hpair⟩ := Rule.edges_eq_ok_iff.mp hgroup
  obtain ⟨-, -, hinputs⟩ := Rule.mem_of_mem_pairUp hpair he
  exact ⟨isWord_of_mem_ruleNames hparse hname,
    fun i hi => (holdsWords_of_evaluate heval hget).ins i (hinputs hi)⟩

/-- **Edges and their lines.** An output that was listed is a word. An output that a pattern made is
what the pattern makes of the one input, as a whole: it has no white space if the pattern has none
and calls no search, and it is not empty if the pattern is not made of calls alone. The build region
has one physical line for each edge and one more for each newline in an output, and the line of an
edge names exactly its output if and only if that is a word. -/
theorem edge_lines_of_evaluate (hparse : parse t = .ok d) (heval : d.evaluate ws = .ok ev)
    (hedges : ev.manifest.edges ws = .ok es) :
    (∀ e ∈ es, ∃ rule, ev.manifest.rules.get? e.rule = some rule ∧
      (rule.pat = none → IsWord e.output) ∧
      ∀ pat, rule.pat = some pat →
        (∃ input ∈ rule.ins, e.inputs = [input] ∧ Rule.outputOf ws pat input = .ok e.output) ∧
        (Unspaced pat → Template.calls pat .glob = false → Unspaced e.output) ∧
        ((Template.parse pat).all Segment.isCall = false → e.output ≠ [])) ∧
    ev.manifest.render ws
      = .ok (Manifest.renderEdges ev.manifest.includes ev.manifest.defines es) ∧
    (lines (Manifest.region (es.map Edge.line))).length
      = es.length + (es.flatMap Edge.output).count '\n' + 1 ∧
    ((∀ e ∈ es, '\n' ∉ e.output) →
      lines (Manifest.region (es.map Edge.line)) = es.map Edge.line ++ [[]]) ∧
    ∀ e ∈ es, Manifest.namedOutputs e.line = [e.output] ↔ IsWord e.output := by
  have hwords : ∀ e ∈ es, IsWord e.rule ∧ ∀ i ∈ e.inputs, IsWord i := fun e he =>
    words_of_mem_edges hparse heval hedges he
  refine ⟨fun e he => ?_, by rw [Manifest.render, hedges]; rfl, ?_,
    Manifest.lines_region_edges hwords, fun e _ => Manifest.namedOutputs_line_iff e⟩
  · obtain ⟨rule, group, hget, hgroup, he⟩ := Manifest.exists_rule_of_mem_edges hedges he
    have hrule := holdsWords_of_evaluate heval hget
    refine ⟨rule, hget, fun hpat => ?_, fun pat hpat => ?_⟩
    · obtain ⟨os, hos, houtput⟩ := Rule.output_mem_of_pat_none hgroup he hpat
      exact hrule.out os hos e.output houtput
    · obtain ⟨input, hinput, hinputs, hmade⟩ := Rule.exists_input_of_pat hgroup he hpat
      have hword := hrule.ins input hinput
      exact ⟨⟨input, hinput, hinputs, hmade⟩,
        fun hunspaced hcalls => Rule.unspaced_of_outputOf hword hunspaced hcalls hmade,
        fun hcalls => Rule.ne_nil_of_outputOf hword hcalls hmade⟩
  · rw [Manifest.length_lines_region, List.length_map, Manifest.count_newline_lines hwords]

/-- Objects made by a pattern, and a program from a list. -/
def compiled : Text :=
  "[meta]\nincludes=\nrulenames=cc ld\n"
    ++ "[rules]\ncc.ins=a.c\ncc.pat=${in}.o\nld.ins=x y\nld.out=app\n"

/-- Every edge of this description has a line of its own. -/
theorem edge_lines_of_evaluate_compiled :
    ∃ d ev es, parse compiled = .ok d ∧ d.evaluate ⟨.empty, [], "/", "t"⟩ = .ok ev ∧
      ev.manifest.edges ⟨.empty, [], "/", "t"⟩ = .ok es ∧
      es = [⟨"a.c.o", "cc", ["a.c"]⟩, ⟨"app", "ld", ["x", "y"]⟩] ∧
      lines (Manifest.region (es.map Edge.line))
        = (["build a.c.o: cc a.c", "build app: ld x y", ""] : List Text) ∧
      ∀ e ∈ es, Manifest.namedOutputs e.line = [e.output] := by
  have h := edge_lines_of_evaluate (show parse compiled = .ok _ from rfl)
    (show evaluate ⟨.empty, [], "/", "t"⟩ _ = .ok _ from rfl)
    (show Manifest.edges _ _ = .ok [⟨"a.c.o", "cc", ["a.c"]⟩, ⟨"app", "ld", ["x", "y"]⟩] from rfl)
  obtain ⟨-, -, -, hlines, hnamed⟩ := h
  refine ⟨_, _, _, rfl, rfl, rfl, rfl, ?_, fun e he => (hnamed e he).mpr ?_⟩
  · exact (hlines (by decide +kernel)).trans (by decide +kernel)
  · revert e
    decide +kernel

/-- A pattern of two lines. -/
def spilled : Text :=
  "[meta]\nincludes =\nrulenames = cc\n[rules]\ncc.ins = x.c\ncc.pat = ${basename:in}.o\n  extra\n"

/-- **An output need not be a word, nor an edge one line.** The second line of the pattern is part
of the output, so that the one edge takes up two lines. -/
theorem edge_lines_spilled :
    ∃ d ev es, parse spilled = .ok d ∧ d.evaluate ⟨.empty, [], "/", "t"⟩ = .ok ev ∧
      ev.manifest.edges ⟨.empty, [], "/", "t"⟩ = .ok es ∧
      es = [⟨"x.o\nextra", "cc", ["x.c"]⟩] ∧
      (¬∀ e ∈ es, IsWord e.output) ∧
      (lines (Manifest.region (es.map Edge.line))).length ≠ es.length + 1 ∧
      ¬∀ e ∈ es, Manifest.namedOutputs e.line = [e.output] := by
  refine ⟨_, _, [⟨"x.o\nextra", "cc", ["x.c"]⟩], rfl, rfl, rfl, rfl, ?_, ?_, ?_⟩
  · decide +kernel
  · decide +kernel
  · decide +kernel

end Description

end BuildPlan
