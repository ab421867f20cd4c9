import HybroidSema.Environment
import HybroidSema.CompileError
import HybroidSema.Alert.Kind

/-!
# The registry of environments

All user environments of a session in registration order, reachable by handle and by name. The
first environment registered under a name keeps it. Libraries are reachable by name too, and are
not stored here.

* `Registry.register`, `get?`, `lookup?` and `nameOf`.
* `Registry.accessError?`: why one environment may not link another.
* `Registry.findCycle?`: a path of requirements back to the requester, by depth-first search.
-/

namespace HybroidSema

/-- All user environments of a session, and the pairs of environments for which an import cycle
was reported. -/
structure Registry where
  envs : List Environment := []
  reportedCycles : List (EnvId × EnvId) := []
deriving Repr, Inhabited

namespace Registry

/-! ## Registering and finding -/

/-- The handle that the next registered environment gets. -/
def nextId (r : Registry) : EnvId := .user r.envs.length

/-- Register a user environment. -/
def register (r : Registry) (path name : String) (kind : EnvKind) : Registry :=
  { r with envs := r.envs ++ [{ id := r.nextId, path := path, name := name, kind := kind }] }

/-- A user environment by handle. -/
def get? (r : Registry) (id : EnvId) : Option Environment := do
  let index ← id.userIndex?
  r.envs[index]?

/-- A user environment by handle, which must be one. -/
def get (r : Registry) (id : EnvId) : Except CompileError Environment :=
  match r.get? id with
  | some env => .ok env
  | none => .error (.unregistered id)

/-- Change a user environment. -/
def modify (r : Registry) (id : EnvId) (f : Environment → Environment) : Registry :=
  match id.userIndex? with
  | some index => { r with envs := r.envs.modify index f }
  | none => r

@[simp] theorem get?_user (r : Registry) (i : Nat) : r.get? (.user i) = r.envs[i]? := by
  simp [get?]

/-- No library is stored in a registry. -/
theorem library?_of_get? {r : Registry} {id : EnvId} {env : Environment}
    (h : r.get? id = some env) : id.library? = none := by
  obtain ⟨i, hi, -⟩ := Option.bind_eq_some_iff.1 h
  rw [EnvId.userIndex?_eq_some_iff.1 hi, EnvId.library?_user]

theorem get?_modify_self (r : Registry) (id : EnvId) (f : Environment → Environment) :
    (r.modify id f).get? id = (r.get? id).map f := by
  unfold modify get?
  cases h : id.userIndex? with
  | none => rfl
  | some i => simp

theorem get?_modify_ne (r : Registry) {id other : EnvId} (f : Environment → Environment)
    (h : other ≠ id) : (r.modify id f).get? other = r.get? other := by
  unfold modify get?
  cases hi : id.userIndex? with
  | none => rfl
  | some i =>
    cases hj : other.userIndex? with
    | none => rfl
    | some j =>
      rw [EnvId.userIndex?_eq_some_iff] at hi hj
      have hij : i ≠ j := by
        rintro rfl
        exact h (hj.trans hi.symm)
      simp [hij]

/-- The user environment or library that source code reaches by a name. The first environment
registered under a name has it, even if it is the name of a library. -/
def lookup? (r : Registry) (name : String) : Option EnvId :=
  (r.envs.find? (·.name == name)).map (·.id) <|> (Library.ofName? name).map .ofLibrary

/-- The name of any environment in messages and in resolved trees. -/
def nameOf (r : Registry) (id : EnvId) : String :=
  match id.library? with
  | some library => library.name
  | none =>
    match r.get? id with
    | some env => env.name
    | none => id.render

/-! ## Access -/

/-- Why one environment may not link another, if it may not. -/
def accessError? (r : Registry) (source target : EnvId) : Option AlertKind :=
  match r.get? source with
  | none => none
  | some env =>
    match target.library? with
    | some library =>
      if env.kind.canUse library then none
      else some (.unallowedLibraryUse library.name env.kind)
    | none =>
      match r.get? target with
      | none => none
      | some other =>
        if env.kind.canAccess other.kind then none
        else some (.unallowedEnvironmentAccess env.kind other.kind other.name)

/-! ## Cycles -/

/-- What a search found: a path to the goal, if there is one, and the environments visited. -/
structure Search where
  path? : Option (List EnvId)
  visited : List EnvId

/-- Try several starts one after the other, until one has a path. -/
def searchEach (search : EnvId → List EnvId → Search) : List EnvId → List EnvId → Search
  | [], visited => ⟨none, visited⟩
  | start :: rest, visited =>
    match search start visited with
    | ⟨some path, visited⟩ => ⟨some path, visited⟩
    | ⟨none, visited⟩ => searchEach search rest visited

/-- Search depth first for a path of requirements from `start` to `goal`, both included, avoiding
the visited environments. The path has at most `depth` steps. -/
def search (r : Registry) (goal : EnvId) : (depth : Nat) → (start : EnvId) →
    (visited : List EnvId) → Search
  | depth, start, visited =>
    if start = goal then ⟨some [goal], visited⟩
    else if visited.contains start then ⟨none, visited⟩
    else
      match r.get? start, depth with
      | none, _ => ⟨none, start :: visited⟩
      | some _, 0 => ⟨none, start :: visited⟩
      | some env, depth + 1 =>
        let found := searchEach (r.search goal depth) env.requirements (start :: visited)
        { found with path? := found.path?.map (start :: ·) }

/-- A path of requirements from `target` back to `requester`, with `requester` in front:
`[requester, target, ..., requester]`. -/
def findCycle? (r : Registry) (requester target : EnvId) : Option (List EnvId) :=
  (r.search requester r.envs.length target []).path?.map (requester :: ·)

/-- The pair of two environments in either order. -/
def cycleKey (a b : EnvId) : EnvId × EnvId := if a.raw ≤ b.raw then (a, b) else (b, a)

/-- Whether no cycle between two environments was reported yet. -/
def lacksCycle (r : Registry) (a b : EnvId) : Bool := !r.reportedCycles.contains (cycleKey a b)

/-- Remember that a cycle between two environments was reported. -/
def markCycle (r : Registry) (a b : EnvId) : Registry :=
  if r.lacksCycle a b then { r with reportedCycles := r.reportedCycles ++ [cycleKey a b] } else r

end Registry

end HybroidSema
