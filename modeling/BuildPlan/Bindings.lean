import BuildPlan.Text.Basic

/-!
# Bindings

A table from names to values that remembers the order in which the names were first bound.
Binding a name again replaces its value and keeps its place. No name occurs twice: the type says so.

The view of a table is its list of entries. `get?_insert` and `keys_insert` say what binding a name
does to look-ups and to the order of the names.
-/

namespace BuildPlan

/-! ## Lists of entries -/

namespace Entries

variable {α : Type}

/-- The value at the first entry for `name`. -/
def get? (name : Text) : List (Text × α) → Option α
  | [] => none
  | (n, v) :: rest => if n = name then some v else get? name rest

/-- Replace the value at the first entry for `name`, or add an entry at the end. -/
def insert (name : Text) (value : α) : List (Text × α) → List (Text × α)
  | [] => [(name, value)]
  | (n, v) :: rest => if n = name then (n, value) :: rest else (n, v) :: insert name value rest

/-- The names after an insertion: as before, or with the new name at the end. -/
theorem map_fst_insert (name : Text) (value : α) (l : List (Text × α)) :
    (insert name value l).map Prod.fst
      = if name ∈ l.map Prod.fst then l.map Prod.fst else l.map Prod.fst ++ [name] := by
  induction l with
  | nil => simp [insert]
  | cons e rest ih =>
    obtain ⟨n, v⟩ := e
    by_cases h : n = name
    · simp [insert, h]
    · have h' : ¬name = n := fun e => h e.symm
      simp only [insert, if_neg h, List.map_cons, ih, List.mem_cons, h', false_or]
      split <;> simp

theorem nodup_insert (name : Text) (value : α) {l : List (Text × α)}
    (h : (l.map Prod.fst).Nodup) : ((insert name value l).map Prod.fst).Nodup := by
  rw [map_fst_insert]
  split
  · exact h
  · rename_i hn
    refine List.nodup_append.mpr ⟨h, by simp, ?_⟩
    intro a ha b hb
    rw [List.mem_singleton] at hb
    subst hb
    exact fun e => hn (e ▸ ha)

theorem get?_insert (name other : Text) (value : α) (l : List (Text × α)) :
    get? other (insert name value l) = if other = name then some value else get? other l := by
  induction l with
  | nil => simp [insert, get?, eq_comm]
  | cons e rest ih =>
    obtain ⟨n, v⟩ := e
    by_cases h : n = name
    · subst h
      by_cases ho : other = n
      · simp [insert, get?, ho]
      · have ho' : ¬n = other := fun e => ho e.symm
        simp [insert, get?, ho, ho']
    · by_cases ho : n = other
      · subst ho
        simp [insert, get?, h]
      · simp [insert, get?, h, ho, ih]

theorem get?_eq_none_iff (name : Text) (l : List (Text × α)) :
    get? name l = none ↔ name ∉ l.map Prod.fst := by
  induction l with
  | nil => simp [get?]
  | cons e rest ih =>
    obtain ⟨n, v⟩ := e
    by_cases h : n = name
    · simp [get?, h]
    · have h' : ¬name = n := fun e => h e.symm
      simp [get?, h, h', ih]

end Entries

/-! ## The table -/

/-- A table from names to values, in the order in which the names were first bound. -/
structure Bindings (α : Type) where
  entries : List (Text × α)
  nodup : (entries.map Prod.fst).Nodup

namespace Bindings

variable {α : Type}

instance [DecidableEq α] : DecidableEq (Bindings α) := fun a b =>
  decidable_of_iff (a.entries = b.entries) (by cases a; cases b; simp)

/-- The table without names. -/
def empty : Bindings α := ⟨[], by simp⟩

instance : Inhabited (Bindings α) := ⟨empty⟩

/-- The names in order. -/
def keys (b : Bindings α) : List Text := b.entries.map Prod.fst

/-- The number of names. -/
def size (b : Bindings α) : Nat := b.entries.length

/-- The value bound to `name`. -/
def get? (b : Bindings α) (name : Text) : Option α := Entries.get? name b.entries

/-- Whether `name` is bound. -/
def contains (b : Bindings α) (name : Text) : Bool := (b.get? name).isSome

/-- Bind `name` to `value`: in its place if it is bound, otherwise at the end. -/
def insert (b : Bindings α) (name : Text) (value : α) : Bindings α :=
  ⟨Entries.insert name value b.entries, Entries.nodup_insert name value b.nodup⟩

/-- Bind the names of a list one after the other, so a repeated name keeps its first place and
its last value. -/
def ofList (l : List (Text × α)) : Bindings α := l.foldl (fun b (n, v) => b.insert n v) empty

/-- Two tables bind the same names to the same values, in whatever order. -/
def agrees [DecidableEq α] (a b : Bindings α) : Bool :=
  a.size == b.size && a.entries.all fun (n, v) => b.get? n == some v

@[simp] theorem get?_empty (name : Text) : (empty : Bindings α).get? name = none := rfl

@[simp] theorem keys_empty : (empty : Bindings α).keys = [] := rfl

/-- Binding a name changes exactly one look-up. -/
theorem get?_insert (b : Bindings α) (name other : Text) (value : α) :
    (b.insert name value).get? other = if other = name then some value else b.get? other :=
  Entries.get?_insert name other value b.entries

/-- Binding a name adds it at the end, if it was not bound. -/
theorem keys_insert (b : Bindings α) (name : Text) (value : α) :
    (b.insert name value).keys = if name ∈ b.keys then b.keys else b.keys ++ [name] :=
  Entries.map_fst_insert name value b.entries

theorem get?_eq_none_iff (b : Bindings α) (name : Text) : b.get? name = none ↔ name ∉ b.keys :=
  Entries.get?_eq_none_iff name b.entries

theorem contains_iff (b : Bindings α) (name : Text) : b.contains name = true ↔ name ∈ b.keys := by
  unfold contains
  rw [Option.isSome_iff_ne_none, ne_eq, get?_eq_none_iff, Classical.not_not]

end Bindings

/-- The names a template can refer to, with the texts they stand for. -/
abbrev Namespace := Bindings Text

end BuildPlan
