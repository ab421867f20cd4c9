import HybroidSema.Proofs.RegisteredFields

/-!
# Members as tables

The members of a class or entity are looked up by name and by position, so they are kept in four
containers: the fields in declaration order, the position of each field by its name, and for the methods
their signatures and their positions in the source by name. Two operations add entries to these and one
changes the value of a field. Whatever is added under a name that is taken is refused.

* `MemberTables`: the four containers and their operations.
* `MemberOp`: an operation, with `Members.apply` and `MemberTables.apply`.
* `Represents`: the containers stand for members with names of their own.
* `Represents.apply`: one operation keeps the containers in step, and has the same answer.
* `MemberTables.run_represents`: by induction on the operations, so does a whole run.
* `InStep` and `Represents.inStep`: what that says about the containers themselves.
-/

namespace HybroidSema

/-! ## Operations -/

/-- An operation on members. -/
inductive MemberOp where
  | addField (field : Variable)
  | addMethod (name : String) (signature : Signature) (span : Span)
  | setField (name : String) (value : Value)

/-- The name and the position of the member that an operation is to add. -/
def MemberOp.added? : MemberOp → Option (String × Span)
  | addField field => some (field.name, field.span)
  | addMethod name _ span => some (name, span)
  | setField _ _ => none

/-- The answer of an addition: the members with the new one, or the same members and where the name is
taken. -/
def afterAdding {α : Type} (before : α) : Except Span α → α × Option Span
  | .ok after => (after, none)
  | .error taken => (before, some taken)

namespace Members

/-- An operation, and where the name is taken that it refuses. -/
def apply (m : Members) : MemberOp → Members × Option Span
  | .addField field => afterAdding m (m.addField field)
  | .addMethod name signature span => afterAdding m (m.addMethod name signature span)
  | .setField name value => (m.setField name value, none)

/-- The members after operations on none. -/
def run (ops : List MemberOp) : Members := ops.foldl (fun m op => (m.apply op).1) {}

/-- Fields and methods have names of their own. -/
def Distinct (m : Members) : Prop :=
  (m.fields.map (·.name) ++ m.methods.entries.map Prod.fst).Nodup

end Members

/-- The fields of a class or entity with their positions by name, and the signatures and positions in
the source of its methods by name. -/
structure MemberTables where
  fields : List Variable := []
  fieldIndex : Table Nat := .empty
  methods : Table Signature := .empty
  methodSpans : Table Span := .empty

namespace MemberTables

/-- A field by name, with its position in declaration order. -/
def field? (t : MemberTables) (name : String) : Option (Nat × Variable) := do
  let index ← t.fieldIndex.get? name
  let field ← t.fields[index]?
  pure (index, field)

/-- Where a field or method with the name was declared. -/
def memberSpan? (t : MemberTables) (name : String) : Option Span :=
  (t.field? name).map (·.2.span) <|> t.methodSpans.get? name

/-- Add a field, or answer where its name is taken. -/
def addField (t : MemberTables) (field : Variable) : Except Span MemberTables :=
  match t.memberSpan? field.name with
  | some taken => .error taken
  | none => .ok { t with
      fieldIndex := t.fieldIndex.insert field.name t.fields.length
      fields := t.fields ++ [field] }

/-- Add a method, or answer where its name is taken. -/
def addMethod (t : MemberTables) (name : String) (signature : Signature) (span : Span) :
    Except Span MemberTables :=
  match t.memberSpan? name with
  | some taken => .error taken
  | none => .ok { t with
      methods := t.methods.insert name signature
      methodSpans := t.methodSpans.insert name span }

/-- Give the field at the position of a name a new value. -/
def setField (t : MemberTables) (name : String) (value : Value) : MemberTables :=
  match t.fieldIndex.get? name with
  | some index => { t with fields := t.fields.modify index fun field => { field with value := value } }
  | none => t

/-- An operation, and where the name is taken that it refuses. -/
def apply (t : MemberTables) : MemberOp → MemberTables × Option Span
  | .addField field => afterAdding t (t.addField field)
  | .addMethod name signature span => afterAdding t (t.addMethod name signature span)
  | .setField name value => (t.setField name value, none)

/-- The containers after operations on empty ones. -/
def run (ops : List MemberOp) : MemberTables := ops.foldl (fun t op => (t.apply op).1) {}

end MemberTables

/-! ## One operation -/

/-- The containers stand for members: the fields are the same, the position of each field name is where
it is found, and the methods are split into their signatures and their positions in the source. -/
structure Represents (t : MemberTables) (m : Members) : Prop where
  fields : t.fields = m.fields
  index : ∀ name, t.fieldIndex.get? name = m.fields.findIdx? (·.name == name)
  methods : t.methods.entries = m.methods.entries.map fun e => (e.1, e.2.signature)
  spans : t.methodSpans.entries = m.methods.entries.map fun e => (e.1, e.2.span)
  distinct : m.Distinct

theorem lookup_map_snd {α β : Type} (f : α → β) (l : List (String × α)) (name : String) :
    (l.map fun e => (e.1, f e.2)).lookup name = (l.lookup name).map f := by
  induction l with
  | nil => rfl
  | cons e rest ih =>
    rw [List.map_cons, List.lookup_cons, List.lookup_cons, ih]
    cases name == e.1 <;> rfl

namespace Represents

variable {t : MemberTables} {m : Members} {name : String}

theorem empty : Represents {} {} := ⟨rfl, fun _ => rfl, rfl, rfl, List.nodup_nil⟩

theorem field? (h : Represents t m) (name : String) : t.field? name = m.field? name := by
  rw [MemberTables.field?, Members.field?, h.index, h.fields]

theorem method? (h : Represents t m) (name : String) :
    t.methods.get? name = (m.method? name).map (·.signature) := by
  rw [Table.get?, h.methods, lookup_map_snd, Members.method?, Table.get?]

theorem methodSpan? (h : Represents t m) (name : String) :
    t.methodSpans.get? name = (m.method? name).map (·.span) := by
  rw [Table.get?, h.spans, lookup_map_snd, Members.method?, Table.get?]

theorem memberSpan? (h : Represents t m) (name : String) : t.memberSpan? name = m.memberSpan? name := by
  rw [MemberTables.memberSpan?, Members.memberSpan?, h.field?, h.methodSpan?]

/-- A name that is free for the members is no key of the methods. -/
theorem not_mem_methods (h : Represents t m) (hfree : m.memberSpan? name = none) :
    name ∉ t.methods.entries.map Prod.fst ∧ name ∉ t.methodSpans.entries.map Prod.fst := by
  obtain ⟨-, hmethods⟩ := Members.memberSpan?_eq_none_iff.1 hfree
  rw [h.methods, h.spans, List.map_map, List.map_map]
  exact ⟨hmethods, hmethods⟩

/-- The position of a new field is the number of fields before it. -/
theorem pushField (h : Represents t m) {field : Variable} (hfree : m.memberSpan? field.name = none) :
    Represents { t with
        fieldIndex := t.fieldIndex.insert field.name t.fields.length, fields := t.fields ++ [field] }
      { m with fields := m.fields ++ [field] } where
  fields := by rw [h.fields]
  index name := by
    obtain ⟨hfields, -⟩ := Members.memberSpan?_eq_none_iff.1 hfree
    rw [Table.get?_insert, h.index, List.findIdx?_append, List.findIdx?_singleton, h.fields]
    by_cases hname : name = field.name
    · subst hname
      have hnone : m.fields.findIdx? (·.name == field.name) = none :=
        List.findIdx?_eq_none_iff.2 fun v hv => beq_eq_false_iff_ne.2 (hfields v hv)
      simp [hnone]
    · have hother : (field.name == name) = false := beq_eq_false_iff_ne.2 (Ne.symm hname)
      simp [hname, hother]
  methods := h.methods
  spans := h.spans
  distinct := by
    obtain ⟨hfields, hmethods⟩ := Members.memberSpan?_eq_none_iff.1 hfree
    have hnew : field.name ∉ m.fields.map (·.name) ++ m.methods.entries.map Prod.fst := by
      rw [List.mem_append, not_or]
      exact ⟨by simpa using hfields, hmethods⟩
    rw [Members.Distinct, List.map_append, List.append_assoc]
    exact List.nodup_middle.2 (List.nodup_cons.2 ⟨hnew, h.distinct⟩)

/-- A new method has an entry of the same name in both tables. -/
theorem pushMethod (h : Represents t m) {signature : Signature} {span : Span}
    (hfree : m.memberSpan? name = none) :
    Represents { t with
        methods := t.methods.insert name signature, methodSpans := t.methodSpans.insert name span }
      { m with methods := m.methods.insert name ⟨signature, span⟩ } where
  fields := h.fields
  index := h.index
  methods := by
    obtain ⟨-, hmethods⟩ := Members.memberSpan?_eq_none_iff.1 hfree
    rw [Table.entries_insert (h.not_mem_methods hfree).1, Table.entries_insert hmethods, List.map_append,
      h.methods]
    rfl
  spans := by
    obtain ⟨-, hmethods⟩ := Members.memberSpan?_eq_none_iff.1 hfree
    rw [Table.entries_insert (h.not_mem_methods hfree).2, Table.entries_insert hmethods, List.map_append,
      h.spans]
    rfl
  distinct := by
    obtain ⟨hfields, hmethods⟩ := Members.memberSpan?_eq_none_iff.1 hfree
    have hadded := h.distinct.concat (a := name) (by
      rw [List.mem_append, not_or]
      exact ⟨by simpa using hfields, hmethods⟩)
    rw [Members.Distinct, Table.entries_insert hmethods, List.map_append, ← List.append_assoc]
    simpa using hadded

theorem setFieldIn_eq (name : String) (value : Value) (l : List Variable) :
    Members.setFieldIn name value l = match l.findIdx? (·.name == name) with
      | some index => l.modify index fun field => { field with value := value }
      | none => l := by
  induction l with
  | nil => rfl
  | cons field rest ih =>
    rw [Members.setFieldIn, List.findIdx?_cons]
    cases hname : field.name == name with
    | true => rfl
    | false =>
      simp only [Bool.false_eq_true, if_false, ih]
      cases rest.findIdx? (·.name == name) <;> rfl

/-- What does not depend on the value of a field stays. -/
theorem map_setFieldIn {α : Type} {g : Variable → α} (value : Value)
    (hg : ∀ field : Variable, g { field with value := value } = g field) (name : String)
    (l : List Variable) : (Members.setFieldIn name value l).map g = l.map g := by
  induction l with
  | nil => rfl
  | cons field rest ih =>
    rw [Members.setFieldIn]
    split
    · rw [List.map_cons, List.map_cons, hg]
    · rw [List.map_cons, List.map_cons, ih]

/-- A new value changes no name and no position. -/
theorem setField (h : Represents t m) (name : String) (value : Value) :
    Represents (t.setField name value) (m.setField name value) := by
  have hfields : (t.setField name value).fields = (m.setField name value).fields := by
    rw [Members.setField, setFieldIn_eq, MemberTables.setField, h.index, ← h.fields]
    cases t.fields.findIdx? (·.name == name) <;> rfl
  have hothers : (t.setField name value).fieldIndex = t.fieldIndex ∧
      (t.setField name value).methods = t.methods ∧
      (t.setField name value).methodSpans = t.methodSpans := by
    unfold MemberTables.setField
    split <;> exact ⟨rfl, rfl, rfl⟩
  refine ⟨hfields, fun other => ?_, ?_, ?_, ?_⟩
  · have hfind (l : List Variable) : l.findIdx? (·.name == other) =
        (l.map (·.name)).findIdx? (· == other) := by
      rw [List.findIdx?_map]
      rfl
    rw [hothers.1, h.index, hfind, hfind, Members.setField, map_setFieldIn value fun _ => rfl]
  · rw [hothers.2.1, h.methods]
    rfl
  · rw [hothers.2.2, h.spans]
    rfl
  · rw [Members.Distinct, Members.setField, map_setFieldIn value fun _ => rfl]
    exact h.distinct

/-- An operation keeps the containers in step, and is refused for the same members. -/
theorem apply (h : Represents t m) (op : MemberOp) :
    Represents (t.apply op).1 (m.apply op).1 ∧ (t.apply op).2 = (m.apply op).2 := by
  cases op with
  | addField field =>
    rw [MemberTables.apply, Members.apply, MemberTables.addField, Members.addField, h.memberSpan?]
    cases hspan : m.memberSpan? field.name with
    | some taken => exact ⟨h, rfl⟩
    | none => exact ⟨h.pushField hspan, rfl⟩
  | addMethod name signature span =>
    rw [MemberTables.apply, Members.apply, MemberTables.addMethod, Members.addMethod, h.memberSpan?]
    cases hspan : m.memberSpan? name with
    | some taken => exact ⟨h, rfl⟩
    | none => exact ⟨h.pushMethod hspan, rfl⟩
  | setField name value => exact ⟨h.setField name value, rfl⟩

end Represents

/-! ## Runs -/

/-- Operations keep the containers in step. -/
theorem MemberTables.run_represents (ops : List MemberOp) :
    Represents (MemberTables.run ops) (Members.run ops) := by
  have hfrom (ops : List MemberOp) : ∀ {t m}, Represents t m →
      Represents (ops.foldl (fun t op => (t.apply op).1) t) (ops.foldl (fun m op => (m.apply op).1) m) := by
    induction ops with
    | nil => exact fun h => h
    | cons op rest ih => exact fun h => ih (h.apply op).1
  exact hfrom ops .empty

/-- The four containers are in step: fields and methods have names of their own, each field is found at
its position and no other name is, and every method has a signature and a position in the source. -/
structure InStep (t : MemberTables) : Prop where
  fieldNames : (t.fields.map (·.name)).Nodup
  methodNames : (t.methods.entries.map Prod.fst).Nodup
  disjoint : ∀ v ∈ t.fields, v.name ∉ t.methods.entries.map Prod.fst
  positions : ∀ name i, t.fieldIndex.get? name = some i ↔ ∃ v, t.fields[i]? = some v ∧ v.name = name
  sameKeys : t.methodSpans.entries.map Prod.fst = t.methods.entries.map Prod.fst

/-- A field or method of the name was declared at the position. -/
def MemberTables.Declares (t : MemberTables) (name : String) (span : Span) : Prop :=
  (∃ v ∈ t.fields, v.name = name ∧ v.span = span) ∨ t.methodSpans.get? name = some span

/-- What an operation does. An addition is refused if the name is taken, with the position of the member
that has it, and nothing changes. Otherwise the member is there afterwards, and what was declared before
still is. A new value changes nothing of this. -/
structure Answers (t : MemberTables) (op : MemberOp) : Prop where
  refuses : ∀ name span taken, op.added? = some (name, span) →
    ((t.apply op).2 = some taken ↔ t.Declares name taken)
  unchanged : ∀ taken, (t.apply op).2 = some taken → (t.apply op).1 = t
  adds : ∀ name span, op.added? = some (name, span) → (t.apply op).2 = none →
    ∀ other place, (t.apply op).1.Declares other place ↔
      t.Declares other place ∨ (other = name ∧ place = span)
  sets : op.added? = none → (t.apply op).2 = none ∧
    ∀ other place, (t.apply op).1.Declares other place ↔ t.Declares other place

namespace Represents

variable {t : MemberTables} {m : Members} {name : String}

theorem inStep (h : Represents t m) : InStep t where
  fieldNames := by
    rw [h.fields]
    exact h.distinct.of_append_left
  methodNames := by
    rw [h.methods, List.map_map]
    exact h.distinct.of_append_right
  disjoint v hv hmem := by
    rw [h.methods, List.map_map] at hmem
    rw [h.fields] at hv
    exact (List.nodup_append.1 h.distinct).2.2 _ (List.mem_map_of_mem hv) _ hmem rfl
  positions name i := by
    rw [h.index, h.fields, List.findIdx?_eq_some_iff_getElem]
    constructor
    · rintro ⟨hlt, hname, -⟩
      exact ⟨_, List.getElem?_eq_getElem hlt, by simpa using hname⟩
    · rintro ⟨v, hv, rfl⟩
      obtain ⟨hlt, rfl⟩ := List.getElem?_eq_some_iff.1 hv
      refine ⟨hlt, beq_self_eq_true _, fun j hj hsame => Nat.ne_of_lt hj ?_⟩
      have hnames : (m.fields.map (·.name))[j]? = (m.fields.map (·.name))[i]? := by
        rw [List.getElem?_map, List.getElem?_map, List.getElem?_eq_getElem (hj.trans hlt),
          List.getElem?_eq_getElem hlt]
        exact congrArg some (by simpa using hsame)
      have hlength : j < (m.fields.map (·.name)).length := by
        rw [List.length_map]
        exact hj.trans hlt
      exact (List.getElem?_inj hlength h.distinct.of_append_left).1 hnames
  sameKeys := by rw [h.methods, h.spans, List.map_map, List.map_map]; rfl

end Represents

section InStep

variable {t : MemberTables} {name : String}

/-- A name is taken where a member of the name was declared. -/
theorem InStep.declares_iff (h : InStep t) (name : String) (span : Span) :
    t.Declares name span ↔ t.memberSpan? name = some span := by
  cases hindex : t.fieldIndex.get? name with
  | none =>
    have hspan : t.memberSpan? name = t.methodSpans.get? name := by
      simp [MemberTables.memberSpan?, MemberTables.field?, hindex]
    rw [hspan]
    refine or_iff_right ?_
    rintro ⟨v, hv, rfl, -⟩
    obtain ⟨i, hi⟩ := List.mem_iff_getElem?.1 hv
    rw [(h.positions v.name i).2 ⟨v, hi, rfl⟩] at hindex
    cases hindex
  | some i =>
    obtain ⟨v, hv, rfl⟩ := (h.positions name i).1 hindex
    have hmem : v ∈ t.fields := List.mem_of_getElem? hv
    have hspan : t.memberSpan? v.name = some v.span := by
      simp [MemberTables.memberSpan?, MemberTables.field?, hindex, hv]
    rw [hspan, Option.some_inj]
    constructor
    · rintro (⟨w, hw, hname, rfl⟩ | hmethod)
      · rw [List.inj_on_of_nodup_map h.fieldNames hw hmem hname]
      · have hkey : v.name ∈ t.methodSpans.entries.map Prod.fst := by
          by_contra hnone
          rw [Table.get?_eq_none_iff.2 hnone] at hmethod
          cases hmethod
        exact absurd (h.sameKeys ▸ hkey) (h.disjoint v hmem)
    · rintro rfl
      exact .inl ⟨v, hmem, rfl, rfl⟩

/-- A new value changes no member's position in the source. -/
theorem MemberTables.declares_setField (t : MemberTables) (name : String) (value : Value)
    (other : String) (place : Span) :
    (t.setField name value).Declares other place ↔ t.Declares other place := by
  unfold setField
  cases t.fieldIndex.get? name with
  | none => rfl
  | some index =>
    have hfields : (t.fields.modify index fun field => { field with value := value }).map
        (fun v => (v.name, v.span)) = t.fields.map fun v => (v.name, v.span) := by
      refine List.ext_getElem? fun i => ?_
      rw [List.getElem?_map, List.getElem?_map, List.getElem?_modify]
      cases t.fields[i]? with
      | none => rfl
      | some v => by_cases h : index = i <;> simp [h]
    have hmem (fields : List Variable) : (∃ v ∈ fields, v.name = other ∧ v.span = place) ↔
        (other, place) ∈ fields.map fun v => (v.name, v.span) := by simp
    rw [Declares, Declares, hmem, hmem, hfields]

/-- An addition under a name that is taken. -/
theorem MemberTables.apply_of_taken {op : MemberOp} {span taken : Span}
    (hop : op.added? = some (name, span)) (hspan : t.memberSpan? name = some taken) :
    t.apply op = (t, some taken) := by
  cases op with
  | addField field =>
    cases hop
    rw [apply, addField, hspan]
    rfl
  | addMethod =>
    cases hop
    rw [apply, addMethod, hspan]
    rfl
  | setField => cases hop

/-- An addition under a name that is free. -/
theorem MemberTables.apply_of_free {op : MemberOp} {span : Span}
    (hop : op.added? = some (name, span)) (hspan : t.memberSpan? name = none) :
    (t.apply op).2 = none ∧ ∀ other place, (t.apply op).1.Declares other place ↔
      t.Declares other place ∨ (other = name ∧ place = span) := by
  cases op with
  | addField field =>
    cases hop
    rw [MemberTables.apply, MemberTables.addField, hspan]
    refine ⟨rfl, fun other place => ?_⟩
    have hfields : (∃ v ∈ t.fields ++ [field], v.name = other ∧ v.span = place) ↔
        (∃ v ∈ t.fields, v.name = other ∧ v.span = place) ∨
          (other = field.name ∧ place = field.span) := by
      simp only [List.mem_append, List.mem_singleton, or_and_right, exists_or, exists_eq_left,
        eq_comm (a := field.name), eq_comm (a := field.span)]
    exact (or_congr_left hfields).trans or_right_comm
  | addMethod name signature span =>
    cases hop
    rw [MemberTables.apply, MemberTables.addMethod, hspan]
    refine ⟨rfl, fun other place => ?_⟩
    have hnone : t.methodSpans.get? name = none := by
      rw [MemberTables.memberSpan?, Option.orElse_eq_orElse, Option.orElse_eq_or] at hspan
      exact (Option.or_eq_none_iff.1 hspan).2
    have hmethods : (t.methodSpans.insert name span).get? other = some place ↔
        t.methodSpans.get? other = some place ∨ (other = name ∧ place = span) := by
      rw [Table.get?_insert]
      by_cases hother : other = name
      · simp [hother, hnone, eq_comm]
      · simp [hother]
    exact (or_congr_right hmethods).trans or_assoc.symm
  | setField => cases hop

/-- Where the containers are in step, an addition is refused exactly where the name is taken. -/
theorem InStep.answers (h : InStep t) (op : MemberOp) : Answers t op where
  refuses name span taken hop := by
    rw [h.declares_iff]
    cases hspan : t.memberSpan? name with
    | some place => rw [MemberTables.apply_of_taken hop hspan]
    | none => rw [(MemberTables.apply_of_free hop hspan).1]
  unchanged taken htaken := by
    cases hop : op.added? with
    | none =>
      cases op with
      | setField => cases htaken
      | _ => cases hop
    | some added =>
      cases hspan : t.memberSpan? added.1 with
      | some place => rw [MemberTables.apply_of_taken hop hspan]
      | none =>
        rw [(MemberTables.apply_of_free hop hspan).1] at htaken
        cases htaken
  adds name span hop hnone := by
    cases hspan : t.memberSpan? name with
    | some place =>
      rw [MemberTables.apply_of_taken hop hspan] at hnone
      cases hnone
    | none => exact (MemberTables.apply_of_free hop hspan).2
  sets hop := by
    cases op with
    | setField name value => exact ⟨rfl, t.declares_setField name value⟩
    | _ => cases hop

end InStep

end HybroidSema
