import BuildPlan.Bindings

/-!
# Look-ups, entries and their order

A table is known by its look-ups together with the order of its names: an entry is a look-up that
succeeds (`mem_entries_iff`), and names bound one after the other keep the places of their first
occurrences (`keys_ofList_const`).
-/

namespace BuildPlan.Bindings

variable {α : Type}

/-! ## Entries -/

theorem mem_iff_get? {l : List (Text × α)} (hnodup : (l.map Prod.fst).Nodup) {name : Text} {v : α} :
    (name, v) ∈ l ↔ Entries.get? name l = some v := by
  induction l with
  | nil => simp [Entries.get?]
  | cons e rest ih =>
    obtain ⟨n, w⟩ := e
    rw [List.map_cons, List.nodup_cons] at hnodup
    by_cases hn : n = name
    · subst hn
      have hnot : (n, v) ∉ rest := fun hm => hnodup.1 (List.mem_map.mpr ⟨(n, v), hm, rfl⟩)
      simp [Entries.get?, hnot, eq_comm]
    · have hn' : ¬name = n := fun e => hn e.symm
      simp [Entries.get?, hn, hn', ih hnodup.2]

/-- **The entries of a table are its look-ups.** -/
theorem mem_entries_iff {b : Bindings α} {name : Text} {v : α} :
    (name, v) ∈ b.entries ↔ b.get? name = some v :=
  mem_iff_get? b.nodup

theorem mem_keys_iff {b : Bindings α} {name : Text} :
    name ∈ b.keys ↔ ∃ v, b.get? name = some v := by
  constructor
  · intro h
    obtain ⟨⟨n, v⟩, hmem, rfl⟩ := List.mem_map.mp h
    exact ⟨v, mem_entries_iff.mp hmem⟩
  · rintro ⟨v, hv⟩
    exact List.mem_map.mpr ⟨(name, v), mem_entries_iff.mpr hv, rfl⟩

theorem keys_insert_of_get? {b : Bindings α} {name : Text} {v : α} (h : b.get? name = some v)
    (w : α) : (b.insert name w).keys = b.keys := by
  rw [keys_insert, if_pos (mem_keys_iff.mpr ⟨v, h⟩)]

theorem get?_insert_self (b : Bindings α) (name : Text) (v : α) :
    (b.insert name v).get? name = some v := by
  rw [get?_insert, if_pos rfl]

theorem get?_insert_of_ne {b : Bindings α} {name other : Text} (h : other ≠ name) (v : α) :
    (b.insert name v).get? other = b.get? other := by
  rw [get?_insert, if_neg h]

/-- **A table is its names in order and its look-ups.** -/
theorem eq_of_keys_of_get? {b c : Bindings α} (hkeys : b.keys = c.keys)
    (hget : ∀ name, b.get? name = c.get? name) : b = c := by
  obtain ⟨l, hl⟩ := b
  obtain ⟨l', hl'⟩ := c
  have hentries : l = l' := by
    refine List.ext_getElem (by simpa [keys] using congrArg List.length hkeys) ?_
    intro i hi hi'
    have hname : (l[i]).1 = (l'[i]).1 := by
      have := congrArg (fun names : List Text => names[i]?) hkeys
      simpa [keys, hi, hi'] using this
    have hfirst := mem_entries_iff.mp (show ((l[i]).1, (l[i]).2) ∈ (⟨l, hl⟩ : Bindings α).entries
      from List.getElem_mem hi)
    have hsecond :=
      mem_entries_iff.mp (show ((l'[i]).1, (l'[i]).2) ∈ (⟨l', hl'⟩ : Bindings α).entries
      from List.getElem_mem hi')
    rw [hget, hname, hsecond, Option.some.injEq] at hfirst
    exact Prod.ext hname hfirst.symm
  subst hentries
  rfl

theorem insert_insert (b : Bindings α) (name : Text) (v w : α) :
    (b.insert name v).insert name w = b.insert name w := by
  refine eq_of_keys_of_get? ?_ fun key => ?_
  · have hname : (b.insert name v).get? name = some v := get?_insert_self b name v
    rw [keys_insert_of_get? hname, keys_insert, keys_insert]
  · simp only [get?_insert]
    by_cases hk : key = name
    · rw [if_pos hk, if_pos hk]
    · rw [if_neg hk, if_neg hk, if_neg hk]

theorem insert_comm {b : Bindings α} {name other : Text} (hne : other ≠ name) {v w v' w' : α}
    (h : b.get? name = some v) (h' : b.get? other = some w) :
    (b.insert name v').insert other w' = (b.insert other w').insert name v' := by
  have hother : (b.insert name v').get? other = some w := by rw [get?_insert_of_ne hne, h']
  have hname : (b.insert other w').get? name = some v := by rw [get?_insert_of_ne hne.symm, h]
  refine eq_of_keys_of_get? ?_ fun key => ?_
  · rw [keys_insert_of_get? hother, keys_insert_of_get? h, keys_insert_of_get? hname,
      keys_insert_of_get? h']
  · simp only [get?_insert]
    by_cases hk : key = name
    · rw [if_neg fun he => hne (he.symm.trans hk), if_pos hk, if_pos hk]
    · rw [if_neg hk, if_neg hk]

/-! ## Binding at the end -/

theorem insert_of_forall_ne {name : Text} {v : α} {l : List (Text × α)} (h : ∀ e ∈ l, e.1 ≠ name)
    (rest : List (Text × α)) :
    Entries.insert name v (l ++ rest) = l ++ Entries.insert name v rest := by
  induction l with
  | nil => rfl
  | cons e l ih =>
    obtain ⟨n, w⟩ := e
    rw [List.cons_append, Entries.insert, if_neg (h (n, w) List.mem_cons_self),
      ih fun x hx => h x (List.mem_cons_of_mem _ hx)]
    rfl

/-- A new name is bound behind all others. -/
theorem entries_insert_of_not_mem {b : Bindings α} {name : Text} (h : name ∉ b.keys) (v : α) :
    (b.insert name v).entries = b.entries ++ [(name, v)] := by
  have hne : ∀ e ∈ b.entries, e.1 ≠ name := fun e he hn => h (List.mem_map.mpr ⟨e, he, hn⟩)
  have hinsert := insert_of_forall_ne hne (v := v) []
  rwa [List.append_nil] at hinsert

/-- Binding the last name again changes the last entry. -/
theorem entries_insert_last {b : Bindings α} {front : List (Text × α)} {name : Text} {v : α}
    (h : b.entries = front ++ [(name, v)]) (w : α) :
    (b.insert name w).entries = front ++ [(name, w)] := by
  have hnodup := b.nodup
  rw [h, List.map_append, List.nodup_append] at hnodup
  have hne : ∀ e ∈ front, e.1 ≠ name := fun e he =>
    hnodup.2.2 e.1 (List.mem_map.mpr ⟨e, he, rfl⟩) name (by simp)
  have hinsert := insert_of_forall_ne hne (v := w) [(name, v)]
  rw [Entries.insert, if_pos rfl] at hinsert
  rw [← hinsert, ← h]
  rfl

/-! ## Searching in order -/

/-- A search through the entries is a search through the names. -/
theorem findSome?_entries {β : Type} (b : Bindings α) (f : Text → α → Option β) :
    b.entries.findSome? (fun e => f e.1 e.2) = b.keys.findSome? fun n => (b.get? n).bind (f n) := by
  -- for every part of the entries: the induction takes entries off, the look-ups stay those of `b`
  have hsub : ∀ l : List (Text × α), (∀ e ∈ l, e ∈ b.entries) →
      l.findSome? (fun e => f e.1 e.2)
        = (l.map Prod.fst).findSome? fun n => (b.get? n).bind (f n) := by
    intro l
    induction l with
    | nil => intro _; rfl
    | cons e l ih =>
      intro h
      have he : b.get? e.1 = some e.2 := mem_entries_iff.mp (h e List.mem_cons_self)
      rw [List.map_cons, List.findSome?_cons, List.findSome?_cons, he, Option.bind_some,
        ih fun x hx => h x (List.mem_cons_of_mem _ hx)]
  exact hsub b.entries fun _ he => he

theorem findSome?_filter_ne {β : Type} {f : Text → Option β} {n : Text} (h : f n = none)
    (l : List Text) : (l.filter fun m => !m == n).findSome? f = l.findSome? f := by
  induction l with
  | nil => rfl
  | cons m l ih =>
    by_cases hm : m = n
    · rw [List.filter_cons_of_neg (by simp [hm]), ih, List.findSome?_cons, hm, h]
    · rw [List.filter_cons_of_pos (by simp [hm]), List.findSome?_cons, List.findSome?_cons, ih]

/-- **Repeated names do not change what is found first.** -/
theorem findSome?_eraseDups {β : Type} (f : Text → Option β) (l : List Text) :
    l.eraseDups.findSome? f = l.findSome? f := by
  match l with
  | [] => rfl
  | n :: l =>
    rw [List.eraseDups_cons, List.findSome?_cons, List.findSome?_cons, findSome?_eraseDups]
    cases hn : f n with
    -- `eraseDups` takes the later `n` out, where nothing would be found either
    | none => exact findSome?_filter_ne hn l
    | some v => rfl
termination_by l.length
decreasing_by exact Nat.lt_succ_of_le (List.length_filter_le _ _)

/-! ## The same value under many names -/

theorem foldl_insert_const_get? (v : α) (names : List Text) (b : Bindings α) (name : Text) :
    ((names.map fun n => (n, v)).foldl (fun b (n, w) => b.insert n w) b).get? name
      = if name ∈ names then some v else b.get? name := by
  induction names generalizing b with
  | nil => simp
  | cons n names ih =>
    rw [List.map_cons, List.foldl_cons, ih, get?_insert]
    by_cases hn : name = n
    · simp [hn]
    · simp [hn]

theorem foldl_insert_const_keys (v : α) (names : List Text) (b : Bindings α) :
    ((names.map fun n => (n, v)).foldl (fun b (n, w) => b.insert n w) b).keys
      = b.keys ++ (names.filter fun n => !b.keys.contains n).eraseDups := by
  induction names generalizing b with
  | nil => simp
  | cons n names ih =>
    rw [List.map_cons, List.foldl_cons, ih, keys_insert]
    by_cases hn : n ∈ b.keys
    · rw [if_pos hn, List.filter_cons_of_neg (by simp [hn])]
    · -- from here on `n` is one of the names that are there
      have hsame : (names.filter fun m => !(b.keys ++ [n]).contains m)
          = (names.filter fun m => !b.keys.contains m).filter fun m => !m == n := by
        rw [List.filter_filter]
        refine List.filter_congr fun m _ => ?_
        by_cases hm : m = n <;> simp [hm]
      rw [if_neg hn, List.filter_cons_of_pos (by simp [hn]), List.eraseDups_cons, hsame,
        List.append_assoc]
      rfl

theorem get?_ofList_const (v : α) (names : List Text) (name : Text) :
    (ofList (names.map fun n => (n, v))).get? name = if name ∈ names then some v else none :=
  foldl_insert_const_get? v names empty name

/-- **Names keep the places of their first occurrences.** -/
theorem keys_ofList_const (v : α) (names : List Text) :
    (ofList (names.map fun n => (n, v))).keys = names.eraseDups := by
  have hall : (names.filter fun n => !(empty : Bindings α).keys.contains n) = names :=
    List.filter_eq_self.mpr fun _ _ => rfl
  have h := foldl_insert_const_keys v names empty
  rwa [hall] at h

end BuildPlan.Bindings
