import HybroidSema.Proofs.Cycles

/-!
# Which environment a name stands for

A registry grows by one user environment at a time. The first user environment of a name has the
name for good. A library is found by its name only as long as no user environment has that name:
the first one that is registered under it takes the name over.

* `SourceUnit`, `Registry.registerAll`: a sequence of registrations.
* `Registry.lookup?_registerAll`: which environment a name stands for after a sequence.
* `names_keep_user_environments`: the laws of names and handles over every sequence.
* `library_name_is_taken_over`: a library does not keep its name.
-/

namespace HybroidSema

/-- What a user environment is registered with. -/
structure SourceUnit where
  path : String
  name : String
  kind : EnvKind
deriving DecidableEq, Repr

/-- The environment that a source file is registered as, under a handle. -/
def SourceUnit.environment (unit : SourceUnit) (id : EnvId) : Environment :=
  { id := id, path := unit.path, name := unit.name, kind := unit.kind }

theorem EnvId.isLibrary_user (i : Nat) : (EnvId.user i).isLibrary = false :=
  (library?_eq_none_iff _).1 (library?_user i)

theorem EnvId.isLibrary_ofLibrary (l : Library) : (EnvId.ofLibrary l).isLibrary = true := by
  cases l <;> rfl

namespace Registry

variable {r : Registry} {units later : List SourceUnit} {name : String} {id : EnvId}

/-! ## Registering in sequence -/

/-- Register a source file. -/
def registerUnit (r : Registry) (unit : SourceUnit) : Registry :=
  r.register unit.path unit.name unit.kind

@[simp] theorem envs_registerUnit (r : Registry) (unit : SourceUnit) :
    (r.registerUnit unit).envs = r.envs ++ [unit.environment r.nextId] := rfl

/-- Register source files one after the other. -/
def registerAll (r : Registry) (units : List SourceUnit) : Registry :=
  units.foldl registerUnit r

@[simp] theorem registerAll_nil (r : Registry) : r.registerAll [] = r := rfl

@[simp] theorem registerAll_cons (r : Registry) (unit : SourceUnit) (units : List SourceUnit) :
    r.registerAll (unit :: units) = (r.registerUnit unit).registerAll units := rfl

theorem registerAll_append (r : Registry) (units later : List SourceUnit) :
    r.registerAll (units ++ later) = (r.registerAll units).registerAll later :=
  List.foldl_append

/-- Handles are given in order, and what is registered is stored under its handle. -/
theorem envs_registerAll (r : Registry) (units : List SourceUnit) :
    (r.registerAll units).envs =
      r.envs ++ units.mapIdx fun i unit => unit.environment (.user (r.envs.length + i)) := by
  induction units generalizing r with
  | nil => simp
  | cons unit units ih =>
    rw [registerAll_cons, ih, envs_registerUnit, List.mapIdx_cons, List.append_assoc,
      List.length_append, List.length_singleton, List.singleton_append]
    simp only [nextId, Nat.add_zero, Nat.add_assoc, Nat.add_comm 1]

/-- The environments that a sequence adds to the registry, found by name. -/
private theorem find?_mapIdx_environment (k : Nat) (units : List SourceUnit) (name : String) :
    ((units.mapIdx fun i unit => unit.environment (.user (k + i))).find?
        (·.name == name)).map (·.id) =
      (units.findIdx? (·.name == name)).map fun i => .user (k + i) := by
  induction units generalizing k with
  | nil => rfl
  | cons unit units ih =>
    rw [List.mapIdx_cons, List.find?_cons, List.findIdx?_cons]
    cases hname : unit.name == name with
    | true => simp [SourceUnit.environment, hname]
    | false =>
      have hnext := ih (k + 1)
      simp only [Nat.add_assoc, Nat.add_comm 1] at hnext
      simpa [SourceUnit.environment, hname, Function.comp_def] using hnext

/-- The first user environment of a name has it, and a library only if there is none. -/
theorem lookup?_registerAll (units : List SourceUnit) (name : String) :
    (registerAll {} units).lookup? name =
      ((units.findIdx? (·.name == name)).map .user <|>
        (Library.ofName? name).map .ofLibrary) := by
  have hfind := find?_mapIdx_environment 0 units name
  simp only [Nat.zero_add] at hfind
  simp only [lookup?, envs_registerAll, List.nil_append, List.length_nil, Nat.zero_add, hfind]

/-- The handles of the environments are their positions. -/
theorem ids_registerAll (units : List SourceUnit) (i : Nat) (env : Environment)
    (h : (registerAll {} units).envs[i]? = some env) : env.id = .user i := by
  simp only [envs_registerAll, List.nil_append, List.length_nil, Nat.zero_add,
    List.getElem?_mapIdx] at h
  obtain ⟨unit, -, rfl⟩ := Option.map_eq_some_iff.1 h
  rfl

/-- A name stands for the first user environment that has it, or for the library. -/
theorem lookup?_registerAll_cases (h : (registerAll {} units).lookup? name = some id) :
    (∃ i, units.findIdx? (·.name == name) = some i ∧ id = .user i) ∨
      (∀ unit ∈ units, unit.name ≠ name) ∧
        ∃ library, Library.ofName? name = some library ∧ id = .ofLibrary library := by
  rw [lookup?_registerAll] at h
  cases hfind : units.findIdx? (·.name == name) with
  | some i =>
    rw [hfind] at h
    exact .inl ⟨i, rfl, (Option.some.inj h).symm⟩
  | none =>
    rw [hfind] at h
    obtain ⟨library, hname, hid⟩ := Option.map_eq_some_iff.1 h
    refine .inr ⟨fun unit hunit => ?_, library, hname, hid.symm⟩
    simpa using List.findIdx?_eq_none_iff.1 hfind unit hunit

/-- What a name stands for has the name. -/
theorem nameOf_lookup? (h : (registerAll {} units).lookup? name = some id) :
    (registerAll {} units).nameOf id = name := by
  obtain ⟨i, hi, rfl⟩ | ⟨-, library, hname, rfl⟩ := lookup?_registerAll_cases h
  · obtain ⟨hlt, -⟩ := List.findIdx?_eq_some_iff_getElem.1 hi
    have hget : (registerAll {} units).get? (.user i) = some (units[i].environment (.user i)) := by
      simp [envs_registerAll, hlt]
    exact nameOf_of_lookup? (ids_registerAll units) h hget
  · have hlibrary : library.name = name := by simpa using List.find?_some hname
    simp [nameOf, hlibrary]

/-- A name that stands for a user environment stands for it for good, and one that stands for a
library until a user environment takes it over. -/
theorem lookup?_later (h : (registerAll {} units).lookup? name = some id)
    (later : List SourceUnit) :
    ((registerAll {} units).registerAll later).lookup? name =
      if id.isLibrary then
        ((later.findIdx? (·.name == name)).map fun i => .user (units.length + i)).or (some id)
      else some id := by
  rw [← registerAll_append, lookup?_registerAll, List.findIdx?_append]
  obtain ⟨i, hi, rfl⟩ | ⟨hnone, library, hname, rfl⟩ := lookup?_registerAll_cases h
  · simp [hi, EnvId.isLibrary_user]
  · have hunits : units.findIdx? (·.name == name) = none :=
      List.findIdx?_eq_none_iff.2 fun unit hunit => by simpa using hnone unit hunit
    cases later.findIdx? (·.name == name) <;>
      simp [hunits, hname, EnvId.isLibrary_ofLibrary, Nat.add_comm]

end Registry

/-! ## The laws of names -/

/-- For every sequence of registrations: the next handle is the next position, each environment is
stored under the handle that it was registered with, and what a name stands for has the name.
Whatever is registered later, the name of a user environment stands for it for good, and the name of
a library until a user environment takes it over, which then has it for good. -/
theorem names_keep_user_environments (units : List SourceUnit) :
    (Registry.registerAll {} units).nextId = .user units.length ∧
    (∀ i unit, units[i]? = some unit →
      (Registry.registerAll {} units).get? (.user i) = some (unit.environment (.user i))) ∧
    (∀ name id, (Registry.registerAll {} units).lookup? name = some id →
      (Registry.registerAll {} units).nameOf id = name) ∧
    (∀ name i, (Registry.registerAll {} units).lookup? name = some (.user i) → ∀ later,
      ((Registry.registerAll {} units).registerAll later).lookup? name = some (.user i)) ∧
    ∀ name library, (Registry.registerAll {} units).lookup? name = some (.ofLibrary library) →
      ∀ later, ((Registry.registerAll {} units).registerAll later).lookup? name =
        match later.findIdx? (·.name == name) with
        | none => some (.ofLibrary library)
        | some i => some (.user (units.length + i)) := by
  refine ⟨?_, fun i unit hunit => ?_, fun name id => Registry.nameOf_lookup?,
    fun name i h later => ?_, fun name library h later => ?_⟩
  · simp [Registry.nextId, Registry.envs_registerAll]
  · simp [Registry.envs_registerAll, hunit]
  · rw [Registry.lookup?_later h, EnvId.isLibrary_user]
    rfl
  · rw [Registry.lookup?_later h, EnvId.isLibrary_ofLibrary]
    cases later.findIdx? (·.name == name) <;> rfl

/-- Two files of one name: the first one keeps it, and a library keeps its name next to them. -/
theorem names_keep_user_environments_first :
    (Registry.registerAll {} [⟨"a.hyb", "A", .level⟩]).lookup? "A" = some (.user 0) ∧
    (Registry.registerAll {} [⟨"a.hyb", "A", .level⟩]).lookup? "Math" = some (.ofLibrary .math) ∧
    ((Registry.registerAll {} [⟨"a.hyb", "A", .level⟩]).registerAll
      [⟨"b.hyb", "A", .shared⟩]).lookup? "A" = some (.user 0) ∧
    ((Registry.registerAll {} [⟨"a.hyb", "A", .level⟩]).registerAll
      [⟨"b.hyb", "A", .shared⟩]).lookup? "Math" = some (.ofLibrary .math) := by
  obtain ⟨-, -, -, huser, hlibrary⟩ := names_keep_user_environments [⟨"a.hyb", "A", .level⟩]
  have hA : (Registry.registerAll {} [⟨"a.hyb", "A", .level⟩]).lookup? "A" = some (.user 0) := by
    decide +kernel
  have hMath : (Registry.registerAll {} [⟨"a.hyb", "A", .level⟩]).lookup? "Math" =
      some (.ofLibrary .math) := by
    decide +kernel
  exact ⟨hA, hMath, huser "A" 0 hA _, hlibrary "Math" .math hMath _⟩

/-- A library does not keep its name: a user environment that is registered under it is what the
name stands for from then on. -/
theorem library_name_is_taken_over :
    ¬ ∀ (units : List SourceUnit) (later : SourceUnit) (name : String) (id : EnvId),
      (Registry.registerAll {} units).lookup? name = some id →
      ((Registry.registerAll {} units).registerUnit later).lookup? name = some id := by
  intro h
  have hbefore : (Registry.registerAll {} []).lookup? "Math" = some (.ofLibrary .math) := by
    decide +kernel
  have hafter : ((Registry.registerAll {} []).registerUnit ⟨"math.hyb", "Math", .level⟩).lookup?
      "Math" = some (.user 0) := by
    decide +kernel
  have heq := h [] ⟨"math.hyb", "Math", .level⟩ "Math" _ hbefore
  rw [hafter] at heq
  cases heq

end HybroidSema
