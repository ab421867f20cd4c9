import HybroidSema.Proofs.BackEdges
import HybroidSema.Proofs.Completion

/-!
# A build as a machine

A build takes one environment after the other and walks it. While an environment is walked it may
ask for another one, which is then walked to its end before the first goes on. So at any moment a
build has a session and a stack of walks, of which only the innermost is at work.

* `Machine`: the session, the stack of walks, and what has happened: the walks that were begun and
  the import cycles that were reported, in order.
* `Machine.Move`: what can happen next. Walks are begun, work and end; a requirement is recorded,
  and stays pending until its environment is asked for.
* `Machine.Run`: a run of moves.

The machine forgets what a walk declares and which alerts it reports, apart from import cycles.
That each build is a run of the machine is shown in `HybroidSema.Proofs.MachineRuns`.
-/

namespace HybroidSema

/-- An environment without what it declares and imports. -/
def Environment.linkage (e : Environment) : Environment :=
  { id := e.id
    path := e.path
    name := e.name
    kind := e.kind
    requirements := e.requirements
    state := e.state }

/-- Nothing has to be done for an environment that is asked for: it is a library or the one that
asks, or a cycle with it was reported before, or it was started before. -/
inductive Registry.Settled (r : Registry) (requester target : EnvId) : Prop
  | exempt (h : target.isLibrary = true ∨ target = requester)
  | reported (cycle : List EnvId) (found : r.findCycle? requester target = some cycle)
      (known : r.lacksCycle requester target = false)
  | started (acyclic : r.findCycle? requester target = none)
      (h : ∀ env, r.get? target = some env → env.state ≠ .notWalked)

/-- A walk of an environment that is not at its end. -/
structure Frame where
  /-- The position of the environment. -/
  index : Nat
  /-- The program that is walked. -/
  program : Program
  /-- The session before the walk. -/
  before : Session
  /-- The requirements whose environments were not asked for yet. -/
  pending : List EnvId := []
  /-- The alerts so far. -/
  alerts : Diagnostics := {}

namespace Frame

/-- The handle of the environment. -/
def id (f : Frame) : EnvId := .user f.index

/-- The frame after an environment was asked for. -/
def settle (f : Frame) (target : EnvId) : Frame :=
  { f with pending := f.pending.filter (· ≠ target) }

@[simp] theorem id_settle (f : Frame) (target : EnvId) : (f.settle target).id = f.id := rfl

@[simp] theorem index_settle (f : Frame) (target : EnvId) : (f.settle target).index = f.index := rfl

end Frame

/-- A build that is under way. -/
structure Machine where
  session : Session
  /-- The walks that are not at their end, the innermost first. -/
  active : List Frame := []
  /-- The positions of the environments whose walks were begun, in order. -/
  started : List Nat := []
  /-- The cycles that were reported, in order. -/
  reports : List CycleReport := []

namespace Machine

/-- The walk of an environment is begun. -/
def begin (m : Machine) (index : Nat) (program : Program) : Machine :=
  { m with
    session := m.session.checkOut (.user index) index
    active := { index := index, program := program, before := m.session } :: m.active
    started := m.started ++ [index] }

/-- What can happen next in a build. -/
inductive Move : Machine → Machine → Prop
  /-- With no walk under way, the walk of an environment that waits is begun. -/
  | start {m : Machine} {index : Nat} {env : Environment} {program : Program}
      (idle : m.active = []) (registered : m.session.registry.envs[index]? = some env)
      (waits : env.state = .notWalked)
      (slot : m.session.programs[index]? = some (some program)) : Move m (m.begin index program)
  /-- A walk declares and checks something, and perhaps reports something. -/
  | work {m : Machine} {f : Frame} {rest : List Frame} (g : Environment → Environment)
      (synthetic : Nat) (more : List Alert) (active : m.active = f :: rest)
      (keeps : ∀ env, (g env).linkage = env.linkage)
      (nocycle : ∀ a ∈ more, a.kind.isImportCycle = false) :
    Move m { m with
      session := { m.session with
        registry := m.session.registry.modify f.id g
        synthetic := synthetic }
      active := { f with alerts := ⟨f.alerts.alerts ++ more⟩ } :: rest }
  /-- A walk records a requirement. -/
  | require {m : Machine} {f : Frame} {rest : List Frame} (target : EnvId)
      (active : m.active = f :: rest)
      (named : ∃ name, m.session.registry.lookup? name = some target) :
    Move m { m with
      session := { m.session with
        registry := m.session.registry.modify f.id (·.require target) }
      active := { f with pending := target :: f.pending } :: rest }
  /-- A walk asks for an environment for which there is nothing to do. -/
  | settle {m : Machine} {f : Frame} {rest : List Frame} (target : EnvId)
      (active : m.active = f :: rest) (settled : m.session.registry.Settled f.id target) :
    Move m { m with active := f.settle target :: rest }
  /-- A walk asks for an environment that requires its own, and reports that. -/
  | report {m : Machine} {f : Frame} {rest : List Frame} (target : EnvId) (cycle : List EnvId)
      (span : Span) (active : m.active = f :: rest)
      (required : m.session.registry.Requires f.id target) (hne : target ≠ f.id)
      (found : m.session.registry.findCycle? f.id target = some cycle)
      (fresh : m.session.registry.lacksCycle f.id target = true) :
    Move m { m with
      session := { m.session with registry := m.session.registry.markCycle f.id target }
      active :=
        { f.settle target with
          alerts := f.alerts.push
            ⟨.importCycle (cycle.map m.session.registry.nameOf), span, [], none⟩ } :: rest
      reports := m.reports ++ [⟨f.id, target, cycle⟩] }
  /-- A walk asks for an environment that waits, and its walk is begun. -/
  | enter {m : Machine} {f : Frame} {rest : List Frame} {index : Nat} {env : Environment}
      {program : Program} (active : m.active = f :: rest)
      (required : m.session.registry.Requires f.id (.user index))
      (acyclic : m.session.registry.findCycle? f.id (.user index) = none)
      (registered : m.session.registry.envs[index]? = some env) (waits : env.state = .notWalked)
      (slot : m.session.programs[index]? = some (some program)) :
    Move m (begin { m with active := f.settle (.user index) :: rest } index program)
  /-- The check of a program has come to its end, with nothing pending. -/
  | finish {m : Machine} {f : Frame} {rest : List Frame} {out : Program} {state : Check.State}
      (depth : Nat) (active : m.active = f :: rest) (nothing : f.pending = [])
      (check : (f.before.checkOut f.id f.index).runCheck f.id (Session.walk depth)
        (Session.walkProgram f.program) = .ok (out, state))
      (session : state.session = m.session) (alerts : state.alerts = f.alerts) :
    Move m { m with
      session := m.session.checkIn f.id f.index out f.alerts
      active := rest }

/-- A run of moves. -/
abbrev Run : Machine → Machine → Prop := Relation.ReflTransGen Move

/-! ## Names -/

end Machine

/-- What names stand for. -/
def Registry.names (r : Registry) : List (String × EnvId) := r.envs.map fun e => (e.name, e.id)

theorem Registry.lookup?_of_names_eq {r r' : Registry} (h : r'.names = r.names) (name : String) :
    r'.lookup? name = r.lookup? name := by
  have hfind (r : Registry) : (r.envs.find? (·.name == name)).map (·.id) =
      (r.names.find? (·.1 == name)).map (·.2) := by
    rw [names, List.find?_map, Option.map_map]
    rfl
  rw [lookup?, lookup?, hfind, hfind, h]

theorem Registry.names_modify (r : Registry) (target : EnvId) {f : Environment → Environment}
    (hf : ∀ env, (f env).name = env.name ∧ (f env).id = env.id) :
    (r.modify target f).names = r.names := by
  unfold modify names
  split
  · next index _ =>
    refine List.ext_getElem? fun i => ?_
    simp only [List.getElem?_map, List.getElem?_modify]
    cases r.envs[i]? with
    | none => rfl
    | some env =>
      by_cases hi : index = i
      · simp [hi, (hf env).1, (hf env).2]
      · simp [hi]
  · rfl

namespace Machine

variable {m m' : Machine}

theorem Move.names (h : Move m m') : m'.session.registry.names = m.session.registry.names := by
  cases h with
  | start | enter =>
    exact Registry.names_modify _ _ fun _ => ⟨rfl, rfl⟩
  | work g _ _ _ keeps =>
    refine Registry.names_modify _ _ fun env => ?_
    have hname := congrArg (fun e : Environment => (e.name, e.id)) (keeps env)
    exact Prod.mk.inj hname
  | require target =>
    refine Registry.names_modify _ _ fun env => ?_
    unfold Environment.require
    split <;> exact ⟨rfl, rfl⟩
  | settle => rfl
  | report target => simp only [Registry.names, Registry.envs_markCycle]
  | finish => exact Registry.names_modify _ _ fun _ => ⟨rfl, rfl⟩

theorem Run.names (h : Run m m') : m'.session.registry.names = m.session.registry.names := by
  induction h with
  | refl => rfl
  | tail _ hmove ih => exact hmove.names.trans ih

/-- Names stand for the same environments throughout. -/
theorem Run.lookup? (h : Run m m') (name : String) :
    m'.session.registry.lookup? name = m.session.registry.lookup? name :=
  Registry.lookup?_of_names_eq h.names name

end Machine

end HybroidSema
