import HybroidSema.Proofs.Cycles
import HybroidSema.Proofs.FinishedWalks
import HybroidSema.Proofs.Regions

/-!
# The walks that a build makes

A build begins the walk of an environment when nothing is under way, or when another walk asks for
it. `BuildWalk` is any such beginning, whether the build ends with an error or not. What environments
are called and of what kind they are is settled before the first walk and never changes, so what a
walk learned about a target when it required it stays true.

* `Registry.headings`: handles, names and kinds; `headings_walk`: no walk changes them.
* `Check.Linked`: every import is a requirement, and every requirement has a name and is allowed.
* `BuildWalk` and `BuildWalk.linked`: wherever a walk of a build comes to.
-/

namespace HybroidSema

/-! ## Headings -/

/-- What is settled when an environment is registered. -/
def Environment.heading (e : Environment) : EnvId × String × EnvKind := (e.id, e.name, e.kind)

namespace Registry

variable {r r' : Registry}

/-- What is settled when the environments are registered. -/
def headings (r : Registry) : List (EnvId × String × EnvKind) := r.envs.map Environment.heading

theorem headings_modify (r : Registry) (id : EnvId) {f : Environment → Environment}
    (hf : ∀ env, (f env).heading = env.heading) : (r.modify id f).headings = r.headings := by
  unfold modify headings
  split
  · next index _ =>
    refine List.ext_getElem? fun i => ?_
    simp only [List.getElem?_map, List.getElem?_modify]
    cases r.envs[i]? with
    | none => rfl
    | some env => by_cases hi : index = i <;> simp [hi, hf env]
  · rfl

theorem names_of_headings_eq (h : r'.headings = r.headings) : r'.names = r.names := by
  have hnames (r : Registry) : r.names = r.headings.map fun heading => (heading.2.1, heading.1) := by
    simp [names, headings, Environment.heading]
  rw [hnames, hnames, h]

theorem heading_of_headings_eq (h : r'.headings = r.headings) (id : EnvId) :
    (r'.get? id).map Environment.heading = (r.get? id).map Environment.heading := by
  unfold get?
  cases id.userIndex? with
  | none => rfl
  | some i => simpa [headings] using congrArg (·[i]?) h

/-- Whether one environment may link another is settled with their kinds. -/
theorem accessError?_of_headings_eq (h : r'.headings = r.headings) (source target : EnvId) :
    r'.accessError? source target = r.accessError? source target := by
  have hsource := heading_of_headings_eq h source
  have htarget := heading_of_headings_eq h target
  unfold accessError?
  cases hs : r.get? source with
  | none =>
    rw [hs] at hsource
    rw [Option.map_eq_none_iff.1 hsource]
  | some env =>
    rw [hs] at hsource
    obtain ⟨env', hs', heq⟩ := Option.map_eq_some_iff.1 hsource
    simp only [Environment.heading, Prod.mk.injEq] at heq
    simp only [hs', heq.2.2]
    cases target.library? with
    | some library => rfl
    | none =>
      cases ht : r.get? target with
      | none =>
        rw [ht] at htarget
        rw [Option.map_eq_none_iff.1 htarget]
      | some other =>
        rw [ht] at htarget
        obtain ⟨other', ht', heq'⟩ := Option.map_eq_some_iff.1 htarget
        simp only [Environment.heading, Prod.mk.injEq] at heq'
        simp only [ht', heq'.2.1, heq'.2.2]

theorem ids_of_headings_eq (h : r'.headings = r.headings)
    (hids : ∀ (i : Nat) env, r.envs[i]? = some env → env.id = .user i) :
    ∀ (i : Nat) env, r'.envs[i]? = some env → env.id = .user i := by
  intro i env he
  have hheading := heading_of_headings_eq h (.user i)
  rw [get?_user, get?_user, he] at hheading
  obtain ⟨old, hold, heq⟩ := Option.map_eq_some_iff.1 hheading.symm
  rw [← hids i old hold]
  exact (Prod.mk.inj heq).1.symm

/-- An environment that some name stands for is found by its own name. -/
theorem lookup?_nameOf (hids : ∀ (i : Nat) env, r.envs[i]? = some env → env.id = .user i)
    {name : String} {target : EnvId} (h : r.lookup? name = some target) :
    r.lookup? (r.nameOf target) = some target := by
  cases htarget : r.get? target with
  | some env => rw [nameOf_of_lookup? hids h htarget, h]
  | none =>
    unfold lookup? at h
    cases hfind : r.envs.find? (·.name == name) with
    | some found =>
      obtain ⟨i, hi⟩ := List.mem_iff_getElem?.1 (List.mem_of_find?_eq_some hfind)
      obtain rfl : found.id = target := by simpa [hfind] using h
      rw [hids i found hi, get?_user, hi] at htarget
      cases htarget
    | none =>
      obtain ⟨library, hname, rfl⟩ : ∃ library, Library.ofName? name = some library ∧
          EnvId.ofLibrary library = target := by simpa [hfind] using h
      have hlibrary : library.name = name := by
        simpa using List.find?_some hname
      simp [nameOf, lookup?, hlibrary, hfind, hname]

end Registry

namespace Check

variable {c : Context} {s s' : State} {o : ScopeStack} {phase : Phase}

theorem Edit.heading_eq {f : Environment → Environment} (h : Edit c phase s f)
    (env : Environment) : (f env).heading = env.heading := by
  have hlinkage := congrArg Environment.heading (h.linkage_eq env)
  exact hlinkage

/-- Walking another environment keeps what is settled about all of them. -/
def Naming (walk : EnvId → Session → Except CompileError (Option CompileError × Session)) : Prop :=
  ∀ target (s : Session) result s', s.WaitsNew → walk target s = .ok (result, s') →
    s'.registry.headings = s.registry.headings

theorem Ensures.headings {target : EnvId} (h : Live c s o) (hw : Naming c.walk)
    (hensures : Ensures c target s s') :
    s'.session.registry.headings = s.session.registry.headings := by
  cases hensures with
  | report cycle span =>
    exact congrArg (·.map Environment.heading) (s.session.registry.envs_markCycle c.env target)
  | walk result session _ _ _ hrun => exact hw target s.session result session h.waitsNew hrun
  | _ => rfl

theorem Step.headings (h : Live c s o) (hw : Naming c.walk) (hstep : Step c phase s s') :
    s'.session.registry.headings = s.session.registry.headings := by
  have hedited {f : Environment → Environment} (hedit : Edit c phase s f) :
      (s.modifyOwn c f).session.registry.headings = s.session.registry.headings :=
    s.session.registry.headings_modify c.env hedit.heading_eq
  cases hstep with
  | edit f hedit => exact hedited hedit
  | ensure target _ hensures => exact hensures.headings h hw
  | link target allowed named hensures =>
    have hedit : Edit c phase s (·.require target) := .require target allowed named
    obtain ⟨-, o', hl⟩ := hedit.frames h
    exact (hensures.headings hl hw).trans (hedited hedit)
  | _ => rfl

theorem Route.headings (h : Live c s o) (hw : Naming c.walk) (hroute : Route c s s') :
    s'.session.registry.headings = s.session.registry.headings :=
  hroute.keeps (I := fun t => t.session.registry.headings = s.session.registry.headings) h
    (fun _ _ _ _ hl hstep ih => (hstep.headings hl hw).trans ih) rfl

end Check

namespace Session

open Check

/-- No walk changes what is settled, however deep walks nest. -/
theorem headings_walk (depth : Nat) : Naming (Session.walk depth) := by
  induction depth with
  | zero =>
    intro id s result s' _ hrun
    rcases walk_cases 0 id s with ⟨r, hsame⟩ | ⟨_, _, _, _, _, _, _, _, hdepth, _⟩
    · rw [hsame] at hrun
      cases hrun
      rfl
    · cases hdepth
  | succ depth ih =>
    intro id s result s' hs hrun
    rcases walk_cases (depth + 1) id s with ⟨r, hsame⟩ |
      ⟨index, env, program, depth', henv, hwaits, rfl, hslot, hdepth, hwalk⟩
    · rw [hsame] at hrun
      cases hrun
      rfl
    · cases hdepth
      have hlive := live_checkOut (framing_walk depth) hs henv (hs _ env henv hwaits) index
      obtain ⟨out, t, hprogram, hroute, -⟩ := runs_walkProgram hlive program
      have hcheck : (s.checkOut (.user index) index).runCheck (.user index) (Session.walk depth)
          (walkProgram program) = .ok (out, t) := hprogram
      rw [hwalk, hcheck] at hrun
      cases hrun
      have hbefore : (s.checkOut (.user index) index).registry.headings = s.registry.headings :=
        Registry.headings_modify _ _ fun _ => rfl
      have hafter : (t.session.checkIn (.user index) index out t.alerts).registry.headings =
          t.session.registry.headings := Registry.headings_modify _ _ fun _ => rfl
      exact hafter.trans ((Route.headings hlive ih hroute).trans hbefore)

end Session

/-! ## Links -/

namespace Check

variable {c : Context} {s s' : State} {o : ScopeStack} {phase : Phase}

/-- What a check knows about the environments that its own one is linked to: handles are positions,
every import is a requirement, and every requirement is what some name stands for and may be
linked. -/
structure Linked (c : Context) (s : State) : Prop where
  ids : ∀ (i : Nat) env, s.session.registry.envs[i]? = some env → env.id = .user i
  imports : ∀ env, s.own? c = some env → ∀ target ∈ env.imports,
    target = c.env ∨ target ∈ env.requirements
  named : ∀ env, s.own? c = some env → ∀ target ∈ env.requirements,
    ∃ name, s.session.registry.lookup? name = some target
  allowed : ∀ env, s.own? c = some env → ∀ target ∈ env.requirements,
    s.session.registry.accessError? c.env target = none

/-- Links are a matter of the session. -/
theorem Linked.of_session_eq (h : Linked c s) (hs : s'.session = s.session) : Linked c s' := by
  obtain ⟨hids, himports, hnamed, hallowed⟩ := h
  constructor <;> simpa only [State.own?, hs]

/-- The handle of the own environment is that of the check. -/
theorem Linked.own_id (h : Linked c s) {env : Environment} (hown : s.own? c = some env) :
    env.id = c.env := by
  obtain ⟨i, hi, hget⟩ := Option.bind_eq_some_iff.1 hown
  rw [EnvId.userIndex?_eq_some_iff.1 hi]
  exact h.ids i env hget

/-- What is required after an edit was required before, or was found by a name and is allowed. -/
theorem Edit.mem_requirements {f : Environment → Environment} (h : Edit c phase s f)
    {env : Environment} {target : EnvId} (htarget : target ∈ (f env).requirements) :
    target ∈ env.requirements ∨ (∃ name, s.session.registry.lookup? name = some target) ∧
      s.session.registry.accessError? c.env target = none := by
  cases h with
  | require new allowed named =>
    simp only [Environment.require] at htarget
    split at htarget
    · rcases List.mem_append.1 htarget with hold | hnew
      · exact .inl hold
      · obtain rfl : target = new := by simpa using hnew
        exact .inr ⟨named, allowed⟩
    · exact .inl htarget
  | addImport =>
    simp only [Environment.addImport] at htarget
    split at htarget <;> exact .inl htarget
  | setField =>
    simp only [Environment.modifyMembers] at htarget
    split at htarget <;> exact .inl htarget
  | _ => exact .inl htarget

/-- One step keeps what is known about links. -/
theorem Step.linked (h : Live c s o) (hw : Naming c.walk) (hs : Linked c s)
    (hstep : Step c phase s s') : Linked c s' := by
  have hheadings := hstep.headings h hw
  have hlookup := Registry.lookup?_of_names_eq (Registry.names_of_headings_eq hheadings)
  have haccess := Registry.accessError?_of_headings_eq hheadings c.env
  obtain ⟨own, hown, -, -⟩ := h.own
  -- The own environment is as it was, or edited.
  have hcases (env : Environment) (he : s'.own? c = some env) :
      env = own ∨ ∃ f, Edit c phase s f ∧ env = f own := by
    rcases hstep.own_cases h hown with hsame | ⟨f, hedit, hchanged⟩
    · exact .inl (Option.some.inj (he.symm.trans hsame))
    · exact .inr ⟨f, hedit, Option.some.inj (he.symm.trans hchanged)⟩
  have hrequired (env : Environment) (he : s'.own? c = some env) (target : EnvId)
      (htarget : target ∈ env.requirements) :
      (∃ name, s.session.registry.lookup? name = some target) ∧
        s.session.registry.accessError? c.env target = none := by
    rcases hcases env he with rfl | ⟨f, hedit, rfl⟩
    · exact ⟨hs.named _ hown target htarget, hs.allowed _ hown target htarget⟩
    · rcases hedit.mem_requirements htarget with hold | hnew
      · exact ⟨hs.named _ hown target hold, hs.allowed _ hown target hold⟩
      · exact hnew
  refine ⟨Registry.ids_of_headings_eq hheadings hs.ids, fun env he => ?_,
    fun env he target htarget => ?_, fun env he target htarget => ?_⟩
  · rcases hcases env he with rfl | ⟨f, hedit, rfl⟩
    · exact hs.imports _ hown
    · exact hedit.required hown (hs.own_id hown) (hs.imports own hown)
  · obtain ⟨name, hname⟩ := (hrequired env he target htarget).1
    exact ⟨name, (hlookup name).trans hname⟩
  · exact (haccess target).trans (hrequired env he target htarget).2

theorem Route.linked (h : Live c s o) (hw : Naming c.walk) (hs : Linked c s)
    (hroute : Route c s s') : Linked c s' :=
  hroute.keeps h (fun _ _ _ _ hl hstep ht => hstep.linked hl hw ht) hs

end Check

/-! ## Walks of a build -/

open Check

/-- The walk of a program begins in a build: the build has come to a session in which the
environment of the program waits. -/
structure BuildWalk (config : Config) (files : List (String × Program)) (p : Program) (c : Context)
    (s : State) : Prop where
  begins : ∃ (m : Machine) (index depth : Nat) (env : Environment),
    Machine.Run (Machine.load config files) m ∧
    m.session.registry.envs[index]? = some env ∧ env.state = .notWalked ∧
    m.session.programs[index]? = some (some p) ∧ c = ⟨.user index, Session.walk depth⟩ ∧
    s = { session := m.session.checkOut (.user index) index }

/-- The statements of the program are checked from the state, after its declarations were
registered. -/
def BuildWalk.Checks (p : Program) (c : Context) (s s₀ : State) : Prop :=
  ∃ counts, Declare.program p c s = .ok (counts, s₀)

namespace BuildWalk

variable {config : Config} {files : List (String × Program)} {p : Program} {c : Context}
  {s s₀ t : State}

theorem naming (h : BuildWalk config files p c s) : Naming c.walk := by
  obtain ⟨_, _, depth, _, -, -, -, -, rfl, -⟩ := h.begins
  exact Session.headings_walk depth

/-- At the beginning the environment is the only one that changed, and it has no links. -/
theorem live_linked (h : BuildWalk config files p c s) : Live c s {} ∧ Linked c s := by
  obtain ⟨m, index, depth, env, hrun, hget, hwaits, -, rfl, rfl⟩ := h.begins
  have hsteady := hrun.steady (Session.loaded_ofFiles config files).steady
  have hget' : m.session.registry.get? (.user index) = some env := by simpa using hget
  have hnew := hsteady.waitsNew _ env hget' hwaits
  have hlive := Session.live_checkOut (Session.framing_walk depth) hsteady.waitsNew hget' hnew index
  have hself := m.session.registry.get?_modify_self (.user index) fun env =>
    { env with state := .walking }
  rw [hget'] at hself
  have hbare (own : Environment)
      (hown : (m.session.registry.modify (.user index) fun env =>
        { env with state := .walking }).get? (.user index) = some own) : own.imports = [] ∧ own.requirements = [] := by
    obtain rfl := Option.some.inj (hself.symm.trans hown)
    rw [hnew]
    exact ⟨rfl, rfl⟩
  refine ⟨hlive, ?_, fun own hown target htarget => ?_, fun own hown target htarget => ?_,
    fun own hown target htarget => ?_⟩
  · exact Registry.ids_of_headings_eq (r := m.session.registry)
      (Registry.headings_modify _ _ fun _ => rfl) hsteady.ids
  · rw [(hbare own hown).1] at htarget
    cases htarget
  · rw [(hbare own hown).2] at htarget
    cases htarget
  · rw [(hbare own hown).2] at htarget
    cases htarget

/-- Registering the declarations of a program is a route of steps. -/
theorem route_checks (h : BuildWalk config files p c s) (hchecks : Checks p c s s₀) :
    Route c s s₀ ∧ Live c s₀ {} := by
  obtain ⟨counts, hdeclare⟩ := hchecks
  obtain ⟨_, _, _, _, himport, hclaim, hresolve, hfill, hbind, hl⟩ :=
    (runs_declare h.live_linked.1 p).apply hdeclare
  exact ⟨(((himport.route.trans hclaim.route).trans hresolve.route).trans hfill.route).trans
    hbind.route, hl⟩

/-- Wherever a walk of a build comes to a part of its program, its environment is being walked, what
is known about its links holds, and names stand for what they stood for when all files were
registered. -/
theorem visits (h : BuildWalk config files p c s) (hchecks : Checks p c s s₀) {task : Task}
    {regions : List Region} (hvisits : Visits c (programTask p) s₀ regions task t) :
    (∃ o, Live c t o) ∧ Linked c t ∧
      ∀ name, t.session.registry.lookup? name =
        (Session.ofFiles config files).registry.lookup? name := by
  obtain ⟨hlive, hlinked⟩ := h.live_linked
  obtain ⟨hroute, hl⟩ := h.route_checks hchecks
  have hsteps := hvisits.steps hl .start (placed_programTask p)
  have hall := hroute.trans hsteps.route
  obtain ⟨o, hl', -, -⟩ := hvisits.follows hl .start (placed_programTask p)
  refine ⟨⟨o, hl'⟩, Route.linked hlive h.naming hlinked hall, fun name => ?_⟩
  have hheadings := Route.headings hlive h.naming hall
  obtain ⟨m, index, depth, env, hrun, -, -, -, rfl, rfl⟩ := h.begins
  have hstart : (m.session.checkOut (.user index) index).registry.headings =
      m.session.registry.headings := Registry.headings_modify _ _ fun _ => rfl
  rw [Registry.lookup?_of_names_eq (Registry.names_of_headings_eq (hheadings.trans hstart))]
  exact hrun.lookup? name

end BuildWalk

/-- A build that ends without an error has made a walk for every file, and gives the program that
this walk left. -/
theorem exists_buildWalk {config : Config} {files : List (String × Program)} {out : BuildOutput}
    (hout : analyze config files = .ok out) {i : Nat} {path : String} {p : Program}
    (hfile : files[i]? = some (path, p)) :
    ∃ c s s₀ walked t, BuildWalk config files p c s ∧ c.env = .user i ∧
      BuildWalk.Checks p c s s₀ ∧ Check.program p c s₀ = .ok (walked, t) ∧
      out.programs[i]? = some walked := by
  have hloaded := Session.loaded_ofFiles config files
  obtain ⟨m, hrun, hidle, hresult⟩ := Session.run_analyze config files
  rcases hresult with ⟨programs, hok, hcollect, hdone⟩ | ⟨e, herror, -⟩
  · rw [hok] at hout
    cases hout
    have hi := (List.getElem?_eq_some_iff.1 hfile).1
    obtain ⟨-, env, walked, alerts, -, -, hslot, -, m₁, depth, t, hrun₁, -, hfresh, hcheck, -⟩ :=
      Machine.load_idle_walked hrun hidle hfile (hdone i hi)
    obtain ⟨counts, s₀, hdeclare, hprogram⟩ := bind_eq_ok (m := Declare.program p)
      (f := fun _ => Check.program p) hcheck
    -- What was not begun waits as it was registered.
    obtain ⟨waiting, hwaiting⟩ : ∃ waiting, (Session.ofFiles config files).registry.envs[i]? =
        some waiting :=
      ⟨_, List.getElem?_eq_getElem (hloaded.length ▸ hi)⟩
    have hunit : m₁.session.unit i = (Session.ofFiles config files).unit i := by
      cases hrun₁.orderly.stage i with
      | before _ same => exact same
      | during active =>
        obtain ⟨f, hf, rfl⟩ := List.mem_map.1 active
        exact absurd (hrun₁.orderly.begun f hf).1 hfresh
      | after started => exact absurd started hfresh
    simp only [Session.unit, Prod.mk.injEq, hwaiting, hloaded.programs, List.getElem?_map, hfile,
      Option.map_some] at hunit
    refine ⟨_, _, s₀, walked, t, ⟨m₁, i, depth, waiting, hrun₁, hunit.1, ?_, hunit.2.1, rfl, rfl⟩,
      rfl, ⟨counts, hdeclare⟩, hprogram, ?_⟩
    · rw [(hloaded.envs i waiting hwaiting).1]
    · have hlength : m.session.programs.length = m.session.registry.envs.length := by
        have hnames := congrArg List.length hrun.names
        simp only [Registry.names, List.length_map] at hnames
        rw [hrun.orderly.length_programs, hnames]
        simp [hloaded.programs, hloaded.length]
      have hprograms := Session.collect_eq_ok hcollect hlength
      simpa [hprograms] using hslot
  · rw [herror] at hout
    cases hout

end HybroidSema
