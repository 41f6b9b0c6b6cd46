import Mathlib.Data.List.Forall2
import BuildPlan.Proofs.EdgeLines

/-!
# One group of edges for each rule

The edges of a manifest stand in groups, one for each rule and in the order of the rules. Nothing
gets lost and nothing is doubled on the way: read along a group, the outputs are the outputs of the
rule, and the inputs, list behind list, are its inputs.

There are two ways to make a group. One output takes all inputs; otherwise each output takes the
input at its position, which needs as many of the one as of the other. `IsGroup` does not say which
way was taken, and still no other list of edges satisfies it (`edges_eq_ok_iff_isGroup`).
-/

namespace BuildPlan

/-- **Steps for all elements succeed exactly if each of them does**, with its own result. -/
theorem Outcome.mapM_eq_ok_iff {ε α β : Type} {f : α → Except ε β} {xs : List α} {ys : List β} :
    xs.mapM f = .ok ys ↔ List.Forall₂ (fun x y => f x = .ok y) xs ys := by
  induction xs generalizing ys with
  | nil => rw [List.mapM_nil, pure_eq_ok_iff, List.forall₂_nil_left_iff, eq_comm]
  | cons x xs ih =>
    rw [mapM_cons_eq_ok_iff, List.forall₂_cons_left_iff]
    constructor
    · rintro ⟨y, rest, hy, hrest, rfl⟩
      exact ⟨y, rest, hy, ih.mp hrest, rfl⟩
    · rintro ⟨y, rest, hy, hrest, rfl⟩
      exact ⟨y, rest, hy, ih.mpr hrest, rfl⟩

namespace Rule

variable {ws : Workspace} {name : Text} {r : Rule} {ins outs : List Text} {group : List Edge}

/-! ## Edges with one input -/

/-- Edges with one input each are the pairs of their inputs and their outputs. -/
theorem zip_of_single_inputs (hrule : ∀ e ∈ group, e.rule = name)
    (hsingle : ∀ e ∈ group, ∃ input, e.inputs = [input]) :
    ((group.flatMap Edge.inputs).zip (group.map Edge.output)).map (fun p => ⟨p.2, name, [p.1]⟩)
      = group := by
  induction group with
  | nil => rfl
  | cons e group ih =>
    obtain ⟨input, hinput⟩ := hsingle e List.mem_cons_self
    have hrest := ih (fun x hx => hrule x (List.mem_cons_of_mem _ hx))
      (fun x hx => hsingle x (List.mem_cons_of_mem _ hx))
    rw [List.flatMap_cons, hinput, List.map_cons, List.singleton_append, List.zip_cons_cons,
      List.map_cons, hrest]
    show (⟨e.output, name, [input]⟩ : Edge) :: group = e :: group
    rw [← hinput, ← hrule e List.mem_cons_self]

theorem length_flatMap_of_single_inputs (hsingle : ∀ e ∈ group, ∃ input, e.inputs = [input]) :
    (group.flatMap Edge.inputs).length = group.length := by
  induction group with
  | nil => rfl
  | cons e group ih =>
    obtain ⟨input, hinput⟩ := hsingle e List.mem_cons_self
    have hrest := ih fun x hx => hsingle x (List.mem_cons_of_mem _ hx)
    rw [List.flatMap_cons, hinput, List.length_append, List.length_cons, List.length_cons, hrest,
      List.length_nil]
    omega

/-! ## Groups -/

/-- What the edges of a rule are, without saying how they are made. -/
structure IsGroup (ws : Workspace) (name : Text) (r : Rule) (group : List Edge) : Prop where
  rule : ∀ e ∈ group, e.rule = name
  /-- The rule has outputs, and those of the edges are these, in order. -/
  outputs : r.outs ws = .ok (some (group.map Edge.output))
  /-- The inputs of the edges, one list behind the other, are those of the rule. -/
  inputs : group.flatMap Edge.inputs = r.ins
  /-- Unless there is one output, each edge has one input: the one at the position of its output. -/
  paired : ∀ outs, r.outs ws = .ok (some outs) → outs.length ≠ 1 →
    ∀ (i : Nat) (e : Edge), group[i]? = some e →
      ∃ input, r.ins[i]? = some input ∧ outs[i]? = some e.output ∧ e.inputs = [input]

/-- One edge that takes all inputs is a group. -/
theorem isGroup_single {output : Text} (h : r.outs ws = .ok (some [output])) :
    IsGroup ws name r [⟨output, name, r.ins⟩] := by
  refine ⟨by simp, h, by simp, ?_⟩
  intro outs houts hlen
  rw [h, Except.ok.injEq, Option.some.injEq] at houts
  exact absurd (by rw [← houts]; rfl) hlen

/-- Pairs of inputs and outputs are a group. -/
theorem isGroup_zip (h : r.outs ws = .ok (some outs)) (hlen : outs.length = r.ins.length) :
    IsGroup ws name r ((r.ins.zip outs).map fun p => ⟨p.2, name, [p.1]⟩) := by
  refine ⟨?_, ?_, ?_, ?_⟩
  · intro e he
    obtain ⟨p, -, rfl⟩ := List.mem_map.mp he
    rfl
  · rw [List.map_map, h]
    show Except.ok (some outs) = Except.ok (some ((r.ins.zip outs).map Prod.snd))
    rw [List.map_snd_zip (Nat.le_of_eq hlen)]
  · rw [List.flatMap_map]
    show (r.ins.zip outs).flatMap (fun p => [p.1]) = r.ins
    rw [← List.map_eq_flatMap, List.map_fst_zip (Nat.le_of_eq hlen.symm)]
  · intro os hos _ i e he
    rw [h, Except.ok.injEq, Option.some.injEq] at hos
    subst hos
    rw [List.getElem?_map, Option.map_eq_some_iff] at he
    obtain ⟨p, hp, rfl⟩ := he
    obtain ⟨hinput, houtput⟩ := List.getElem?_zip_eq_some.mp hp
    exact ⟨p.1, hinput, houtput, rfl⟩

/-- **The edges of a rule are the one group it has.** -/
theorem edges_eq_ok_iff_isGroup : r.edges ws name = .ok group ↔ IsGroup ws name r group := by
  rw [edges_eq_ok_iff]
  constructor
  · rintro ⟨outs, houts, hpair⟩
    rcases pairUp_eq_ok_iff.mp hpair with ⟨output, rfl, rfl⟩ | ⟨-, hlen, rfl⟩
    · exact isGroup_single houts
    · exact isGroup_zip houts hlen
  · rintro ⟨hrule, houtputs, hinputs, hpaired⟩
    refine ⟨_, houtputs, pairUp_eq_ok_iff.mpr ?_⟩
    rw [List.length_map]
    by_cases hone : group.length = 1
    · obtain ⟨e, rfl⟩ := List.length_eq_one_iff.mp hone
      refine Or.inl ⟨e.output, rfl, ?_⟩
      rw [← hinputs, List.flatMap_singleton, ← hrule e List.mem_cons_self]
    · have hsingle : ∀ e ∈ group, ∃ input, e.inputs = [input] := by
        intro e he
        obtain ⟨i, hi⟩ := List.getElem?_of_mem he
        obtain ⟨input, -, -, hinput⟩ := hpaired _ houtputs (by rwa [List.length_map]) i e hi
        exact ⟨input, hinput⟩
      refine Or.inr ⟨hone, ?_, ?_⟩
      · rw [← hinputs, length_flatMap_of_single_inputs hsingle]
      · rw [← hinputs, zip_of_single_inputs hrule hsingle]

end Rule

/-! ## All rules -/

namespace Manifest

/-- **Edges lose nothing and double nothing.** There are edges exactly if every rule has a group,
and then they are the groups one behind the other, in the order of the rules: every edge has the
name of its rule, the outputs along a group are those of the rule, so are the inputs, and unless a
rule has one output each of its edges has one input, the one at the position of its output. -/
theorem edges_eq_ok_iff_groups (ws : Workspace) (m : Manifest) (es : List Edge) :
    m.edges ws = .ok es ↔
      ∃ groups, List.Forall₂ (fun x group => Rule.IsGroup ws x.1 x.2 group) m.rules.entries groups ∧
        groups.flatten = es := by
  rw [edges, Outcome.map_eq_ok_iff]
  simp only [Outcome.mapM_eq_ok_iff, Rule.edges_eq_ok_iff_isGroup]

end Manifest

end BuildPlan
