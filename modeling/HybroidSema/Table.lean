/-!
# Name tables

A `Table α` maps names to values and remembers the order in which the names were first inserted.
Looking a name up is the only way the analyzer reads a table by key, so the laws below state what
each operation does to `Table.get?`.
-/

namespace HybroidSema

/-- Values under names, in the order the names were first inserted. -/
structure Table (α : Type) where
  entries : List (String × α)
deriving Repr, Inhabited

namespace Table

variable {α : Type}

/-- The table without entries. -/
def empty : Table α := ⟨[]⟩

/-- The value stored under a name. -/
def get? (t : Table α) (name : String) : Option α := t.entries.lookup name

/-- Whether a value is stored under the name. -/
def contains (t : Table α) (name : String) : Bool := (t.get? name).isSome

/-- The entries with `f` applied to the value of the first entry under `name`. -/
def modifyEntries (name : String) (f : α → α) : List (String × α) → List (String × α)
  | [] => []
  | (k, v) :: rest =>
    if name == k then (k, f v) :: rest else (k, v) :: modifyEntries name f rest

/-- Apply `f` to the value under `name`, if there is one. -/
def modify (t : Table α) (name : String) (f : α → α) : Table α :=
  ⟨modifyEntries name f t.entries⟩

/-- Store a value under a name, replacing the one stored there before. -/
def insert (t : Table α) (name : String) (value : α) : Table α :=
  if t.contains name then t.modify name (fun _ => value) else ⟨t.entries ++ [(name, value)]⟩

/-- The stored values in insertion order of their names. -/
def values (t : Table α) : List α := t.entries.map Prod.snd

/-- The number of names. -/
def size (t : Table α) : Nat := t.entries.length

/-- The table of a list of entries, later entries replacing earlier ones. -/
def ofList (entries : List (String × α)) : Table α :=
  entries.foldl (fun t e => t.insert e.1 e.2) empty

/-! ## What the operations do to a look-up -/

@[simp] theorem get?_empty (name : String) : (empty : Table α).get? name = none := rfl

theorem get?_eq_none_iff {t : Table α} {name : String} :
    t.get? name = none ↔ name ∉ t.entries.map Prod.fst := by
  rw [get?, List.lookup_eq_none_iff]
  simp only [bne_iff_ne, List.mem_map, not_exists, not_and]
  exact forall_congr' fun e => forall_congr' fun _ => ne_comm

theorem lookup_modifyEntries (name other : String) (f : α → α) (l : List (String × α)) :
    (modifyEntries name f l).lookup other =
      if other = name then (l.lookup other).map f else l.lookup other := by
  induction l with
  | nil => simp [modifyEntries]
  | cons e rest ih =>
    obtain ⟨k, v⟩ := e
    by_cases hk : name = k
    · by_cases ho : other = k <;> grind [modifyEntries]
    · by_cases ho : other = k <;> grind [modifyEntries]

theorem get?_modify (t : Table α) (name other : String) (f : α → α) :
    (t.modify name f).get? other = if other = name then (t.get? other).map f else t.get? other :=
  lookup_modifyEntries name other f t.entries

theorem get?_insert (t : Table α) (name other : String) (value : α) :
    (t.insert name value).get? other = if other = name then some value else t.get? other := by
  unfold insert
  split
  · next h =>
    rw [get?_modify]
    by_cases ho : other = name
    · subst ho
      obtain ⟨v, hv⟩ := Option.isSome_iff_exists.1 h
      simp [hv]
    · simp [ho]
  · next h =>
    have hnone : t.entries.lookup name = none := Option.not_isSome_iff_eq_none.1 h
    simp only [get?, List.lookup_append]
    by_cases ho : other = name
    · subst ho
      simp [hnone]
    · have : (other == name) = false := by simpa using ho
      simp [ho, List.lookup_cons, this]

/-- A value under a name that is not taken comes last. -/
theorem entries_insert {t : Table α} {name : String} (h : name ∉ t.entries.map Prod.fst) (value : α) :
    (t.insert name value).entries = t.entries ++ [(name, value)] := by
  rw [insert, contains, get?_eq_none_iff.2 h]
  rfl

end Table

end HybroidSema
