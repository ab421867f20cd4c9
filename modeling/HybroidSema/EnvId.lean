/-!
# Environments by handle

An environment is a user source file or a built-in library. Both share one space of handles: the
first handles belong to the libraries, and user environments follow in registration order.

* `Library`: the built-in libraries and the names that reach them.
* `EnvId`: the handle, with its view as a library or as a position among user environments.
* `EnvKind`: what a source file produces, which decides what it may access.
-/

namespace HybroidSema

/-! ## Libraries -/

/-- The built-in library environments. -/
inductive Library where
  | builtin
  | pewpew
  | fmath
  | math
  | string
  | table
deriving DecidableEq, Repr

namespace Library

/-- The libraries in handle order. -/
def all : List Library := [builtin, pewpew, fmath, math, string, table]

/-- The position of the library among the handles. -/
def index : Library → Nat
  | builtin => 0
  | pewpew => 1
  | fmath => 2
  | math => 3
  | string => 4
  | table => 5

/-- The name of the library in source and in messages. -/
def name : Library → String
  | builtin => "Builtin"
  | pewpew => "Pewpew"
  | fmath => "Fmath"
  | math => "Math"
  | string => "String"
  | table => "Table"

/-- The library that source code reaches by a name. The implicitly visible one has none. -/
def ofName? (text : String) : Option Library :=
  [pewpew, fmath, math, string, table].find? (·.name == text)

/-- The library at a position among the handles. -/
def ofIndex? (i : Nat) : Option Library := all[i]?

end Library

/-! ## Handles -/

/-- The handle of an environment. -/
structure EnvId where
  raw : Nat
deriving DecidableEq, Repr

namespace EnvId

/-- The first handle of a user environment. -/
def firstUser : Nat := Library.all.length

/-- The handle of the `index`-th user environment. -/
def user (index : Nat) : EnvId := ⟨firstUser + index⟩

/-- The handle of a library. -/
def ofLibrary (library : Library) : EnvId := ⟨library.index⟩

/-- The position among user environments, `none` for a library. -/
def userIndex? (id : EnvId) : Option Nat :=
  if firstUser ≤ id.raw then some (id.raw - firstUser) else none

/-- The library behind the handle, if it is one. -/
def library? (id : EnvId) : Option Library := Library.ofIndex? id.raw

/-- Whether the handle names a library. -/
def isLibrary (id : EnvId) : Bool := id.raw < firstUser

/-- The text of a handle on its own. -/
def render (id : EnvId) : String :=
  match id.library? with
  | some library => library.name
  | none => "env#" ++ toString id.raw

@[simp] theorem userIndex?_user (i : Nat) : (user i).userIndex? = some i := by
  simp [user, userIndex?]

theorem userIndex?_eq_some_iff {id : EnvId} {i : Nat} : id.userIndex? = some i ↔ id = user i := by
  obtain ⟨raw⟩ := id
  simp only [userIndex?, user, mk.injEq]
  split <;> simp <;> omega

@[simp] theorem library?_ofLibrary (l : Library) : (ofLibrary l).library? = some l := by
  cases l <;> rfl

theorem library?_eq_none_iff (id : EnvId) : id.library? = none ↔ id.isLibrary = false := by
  rw [library?, Library.ofIndex?, List.getElem?_eq_none_iff, isLibrary, decide_eq_false_iff_not,
    Nat.not_lt, firstUser]

@[simp] theorem library?_user (i : Nat) : (user i).library? = none :=
  (library?_eq_none_iff _).2 (decide_eq_false (Nat.not_lt.2 (Nat.le_add_right _ _)))

end EnvId

/-! ## Kinds of environment -/

/-- What a compilation unit produces. -/
inductive EnvKind where
  | level
  | mesh
  | sound
  | shared
deriving DecidableEq, Repr

namespace EnvKind

/-- The kinds in the order in which access tables list them. -/
def all : List EnvKind := [level, mesh, sound, shared]

/-- The name of the kind in `env Name as Kind` and in messages. -/
def name : EnvKind → String
  | level => "Level"
  | mesh => "Mesh"
  | sound => "Sound"
  | shared => "Shared"

/-- The kind with a name. -/
def ofName? (text : String) : Option EnvKind := all.find? (·.name == text)

/-- Whether code of one kind may reach into an environment of another kind. -/
def canAccess (source target : EnvKind) : Bool :=
  match source with
  | mesh | sound => target == shared
  | level => !(target == mesh || target == sound)
  | shared => true

/-- Whether code of a kind may use a library: floating-point math is closed to levels. -/
def canUse (source : EnvKind) (library : Library) : Bool :=
  !(source == level && library == Library.math)

end EnvKind

end HybroidSema
