import HybroidSema.Proofs.MachineRuns
import Mathlib.Data.List.Perm.Subperm
import Mathlib.Data.List.Induction
import Mathlib.Data.List.Nodup

/-!
# Every environment is walked once

Seen from one environment, a run of the machine has three parts: first nothing happens to it, then
it is walked, and after that nothing happens to it any more. The stack of walks holds exactly the
environments in their second part, so it is never deeper than there are environments.

* `Machine.Effect`: what a move does to the session and the stack of walks.
* `Machine.Stage` and `Machine.Orderly`: where each environment stands, an invariant of runs.
* `build_walks_once`: the protocol of a build.
* `walk_leaves_started`: what a walk that is made in a build leaves alone.
-/

namespace HybroidSema

/-- What a session has at a position: the environment, its program and its alerts. -/
def Session.unit (s : Session) (i : Nat) :
    Option Environment × Option (Option Program) × Option Diagnostics :=
  (s.registry.envs[i]?, s.programs[i]?, s.alerts[i]?)

/-- How the state of an environment may change at a time. -/
inductive WalkState.Next : WalkState → WalkState → Prop
  | stay (state : WalkState) : Next state state
  | start : Next .notWalked .walking
  | finish : Next .walking .walked

namespace Machine

variable {m m' m'' : Machine} {s : Session} {i : Nat}

/-! ## Moves -/

/-- What is known of a walk when it is begun. -/
def calls (m : Machine) : List Frame := m.active.map fun f => ⟨f.index, f.program, f.before, [], {}⟩

@[simp] theorem length_calls (m : Machine) : m.calls.length = m.active.length := by
  simp [calls]

/-- What a move does: a walk is begun, or the innermost one goes on, or it ends. -/
inductive Effect (m m' : Machine) : Prop
  | begun {index : Nat} {env : Environment} {program : Program}
      (registered : m.session.registry.envs[index]? = some env) (waits : env.state = .notWalked)
      (slot : m.session.programs[index]? = some (some program))
      (session : m'.session = m.session.checkOut (.user index) index)
      (calls : m'.calls = ⟨index, program, m.session, [], {}⟩ :: m.calls)
      (started : m'.started = m.started ++ [index])
  | worked {f : Frame} {rest : List Frame} (top : m.calls = f :: rest)
      (own : ∀ env, m.session.registry.envs[f.index]? = some env →
        ∃ env', m'.session.registry.envs[f.index]? = some env' ∧ env'.state = env.state)
      (others : ∀ i ≠ f.index, m'.session.registry.envs[i]? = m.session.registry.envs[i]?)
      (programs : m'.session.programs = m.session.programs)
      (alerts : m'.session.alerts = m.session.alerts) (calls : m'.calls = m.calls)
      (started : m'.started = m.started)
  | finished {f : Frame} {rest : List Frame} {out : Program} {state : Check.State} (depth : Nat)
      (top : m.calls = f :: rest)
      (check : (f.before.checkOut f.id f.index).runCheck f.id (Session.walk depth)
        (Session.walkProgram f.program) = .ok (out, state))
      (session : m'.session = m.session.checkIn f.id f.index out state.alerts)
      (calls : m'.calls = rest) (started : m'.started = m.started)

/-- A change of one environment that keeps its state. -/
theorem getElem?_modify_user (r : Registry) (index : Nat) (g : Environment → Environment)
    (hg : ∀ env, (g env).state = env.state) :
    (∀ env, r.envs[index]? = some env →
      ∃ env', (r.modify (.user index) g).envs[index]? = some env' ∧ env'.state = env.state) ∧
    ∀ i ≠ index, (r.modify (.user index) g).envs[i]? = r.envs[i]? := by
  simp only [Registry.modify, EnvId.userIndex?_user, List.getElem?_modify]
  refine ⟨fun env he => ⟨g env, by simp [he], hg env⟩, fun i hi => ?_⟩
  simp [Ne.symm hi]

theorem Move.effect (h : Move m m') : Effect m m' := by
  cases h with
  | start idle registered waits slot => exact .begun registered waits slot rfl rfl rfl
  | enter active required acyclic registered waits slot =>
    refine .begun registered waits slot rfl ?_ rfl
    simp [begin, calls, active, Frame.settle]
  | @work f rest g synthetic more active keeps =>
    have hstate (env : Environment) : (g env).state = env.state := by
      have hlinkage := congrArg (fun e : Environment => e.state) (keeps env)
      exact hlinkage
    have hmodify := getElem?_modify_user m.session.registry f.index g hstate
    exact .worked (f := ⟨f.index, f.program, f.before, [], {}⟩) (by rw [calls, active]; rfl)
      hmodify.1 hmodify.2 rfl rfl (by simp [calls, active]) rfl
  | @require f rest target active =>
    have hmodify := getElem?_modify_user m.session.registry f.index (·.require target) fun env => by
      unfold Environment.require
      split <;> rfl
    exact .worked (f := ⟨f.index, f.program, f.before, [], {}⟩) (by rw [calls, active]; rfl)
      hmodify.1 hmodify.2 rfl rfl (by simp [calls, active]) rfl
  | @settle f rest target active =>
    exact .worked (f := ⟨f.index, f.program, f.before, [], {}⟩) (by rw [calls, active]; rfl)
      (fun env he => ⟨env, he, rfl⟩) (fun _ _ => rfl) rfl rfl
      (by simp [calls, active, Frame.settle]) rfl
  | @report f rest target cycle span active =>
    exact .worked (f := ⟨f.index, f.program, f.before, [], {}⟩) (by rw [calls, active]; rfl)
      (fun env he => ⟨env, by rw [Registry.envs_markCycle]; exact he, rfl⟩)
      (fun _ _ => by rw [Registry.envs_markCycle]) rfl rfl
      (by simp [calls, active, Frame.settle]) rfl
  | @finish f rest out state depth active nothing check session alerts =>
    exact .finished (f := ⟨f.index, f.program, f.before, [], {}⟩) depth
      (by rw [calls, active]; rfl) check (by rw [alerts]; rfl) rfl rfl

/-! ## Stages -/

/-- On the way from one machine to another a program is walked, with the program and the alerts that
the walk gives. -/
def Walks (origin m : Machine) (i : Nat) (program out : Program) (alerts : Diagnostics) : Prop :=
  ∃ m₁ depth state, Run origin m₁ ∧ Run m₁ m ∧ i ∉ m₁.started ∧
    (m₁.session.checkOut (.user i) i).runCheck (.user i) (Session.walk depth)
      (Session.walkProgram program) = .ok (out, state) ∧ state.alerts = alerts

/-- Where an environment stands in a run that started from a session. -/
inductive Stage (s : Session) (m : Machine) (i : Nat) : Prop
  | before (fresh : i ∉ m.started) (same : m.session.unit i = s.unit i)
  | during {env : Environment} (active : i ∈ m.calls.map (·.index))
      (registered : m.session.registry.envs[i]? = some env) (walking : env.state = .walking)
      (slot : m.session.programs[i]? = some none) (alerts : m.session.alerts[i]? = s.alerts[i]?)
  | after {env : Environment} {program out : Program} {alerts : Diagnostics}
      (started : i ∈ m.started) (inactive : i ∉ m.calls.map (·.index))
      (registered : m.session.registry.envs[i]? = some env) (walked : env.state = .walked)
      (given : s.programs[i]? = some (some program))
      (walks : Walks ⟨s, [], [], []⟩ m i program out alerts)
      (slot : m.session.programs[i]? = some (some out))
      (added : m.session.alerts[i]? = s.alerts[i]?.map (·.append alerts))

/-- The order that a run keeps. -/
structure Orderly (s : Session) (m : Machine) : Prop where
  stage : ∀ i, Stage s m i
  once : m.started.Nodup
  waited : ∀ i ∈ m.started, s.WaitsAt i
  nested : (m.calls.map (·.index)).Nodup
  begun : ∀ f ∈ m.calls, f.index ∈ m.started ∧ s.programs[f.index]? = some (some f.program) ∧
    ∃ m₁, Run ⟨s, [], [], []⟩ m₁ ∧ Run m₁ m ∧ f.index ∉ m₁.started ∧ m₁.session = f.before

theorem Orderly.start (s : Session) : Orderly s ⟨s, [], [], []⟩ :=
  ⟨fun _ => .before (by simp) rfl, by simp, nofun, by simp [calls], nofun⟩

/-- An environment that waits has not been touched. -/
theorem Orderly.waiting (h : Orderly s m) {env : Environment}
    (registered : m.session.registry.envs[i]? = some env) (waits : env.state = .notWalked) :
    i ∉ m.started ∧ m.session.unit i = s.unit i := by
  cases h.stage i with
  | before fresh same => exact ⟨fresh, same⟩
  | during _ registered' walking =>
    obtain rfl := Option.some.inj (registered.symm.trans registered')
    rw [waits] at walking
    cases walking
  | after _ _ registered' walked =>
    obtain rfl := Option.some.inj (registered.symm.trans registered')
    rw [waits] at walked
    cases walked

/-- The environment of a walk that is under way. -/
theorem Orderly.walking (h : Orderly s m) {f : Frame} (hf : f ∈ m.calls) :
    ∃ env, m.session.registry.envs[f.index]? = some env ∧ env.state = .walking ∧
      m.session.programs[f.index]? = some none ∧
      m.session.alerts[f.index]? = s.alerts[f.index]? := by
  have hindex : f.index ∈ m.calls.map (·.index) := List.mem_map_of_mem hf
  cases h.stage f.index with
  | before fresh => exact absurd (h.begun f hf).1 fresh
  | during _ registered walking slot alerts => exact ⟨_, registered, walking, slot, alerts⟩
  | after _ inactive => exact absurd hindex inactive

/-- What one environment has after something was done to another one. -/
theorem Stage.other (h : Stage s m i) (hmove : Move m m')
    (hunit : m'.session.unit i = m.session.unit i)
    (hstarted : i ∈ m'.started ↔ i ∈ m.started)
    (hcalls : i ∈ m'.calls.map (·.index) ↔ i ∈ m.calls.map (·.index)) : Stage s m' i := by
  simp only [Session.unit, Prod.mk.injEq] at hunit
  obtain ⟨henv, hprogram, halerts⟩ := hunit
  cases h with
  | before fresh same =>
    refine .before (hstarted.not.2 fresh) (.trans ?_ same)
    simp only [Session.unit, henv, hprogram, halerts]
  | during active registered walking slot alerts =>
    exact .during (hcalls.2 active) (henv.trans registered) walking (hprogram.trans slot)
      (halerts.trans alerts)
  | after started inactive registered walked given walks slot added =>
    obtain ⟨m₁, depth, state, hrun, hrest, hwalk⟩ := walks
    exact .after (hstarted.2 started) (hcalls.not.2 inactive) (henv.trans registered) walked given
      ⟨m₁, depth, state, hrun, hrest.tail hmove, hwalk⟩ (hprogram.trans slot) (halerts.trans added)

theorem unit_checkOut_ne (s : Session) {index : Nat} (h : i ≠ index) :
    (s.checkOut (.user index) index).unit i = s.unit i := by
  simp [Session.unit, Session.checkOut, Registry.modify, Ne.symm h]

theorem unit_checkIn_ne (s : Session) {index : Nat} (out : Program) (alerts : Diagnostics)
    (h : i ≠ index) : (s.checkIn (.user index) index out alerts).unit i = s.unit i := by
  simp [Session.unit, Session.checkIn, Registry.modify, Ne.symm h]

/-- One move keeps the order. -/
theorem Orderly.move (h : Orderly s m) (hrun : Run ⟨s, [], [], []⟩ m) (hmove : Move m m') :
    Orderly s m' := by
  -- A walk that was begun before was begun on the way to the next machine too.
  have hbegun (f : Frame) (hf : f ∈ m.calls) : f.index ∈ m.started ∧
      s.programs[f.index]? = some (some f.program) ∧
      ∃ m₁, Run ⟨s, [], [], []⟩ m₁ ∧ Run m₁ m' ∧ f.index ∉ m₁.started ∧
        m₁.session = f.before := by
    obtain ⟨hstarted, hprogram, m₁, hrun₁, hrest, hfresh⟩ := h.begun f hf
    exact ⟨hstarted, hprogram, m₁, hrun₁, hrest.tail hmove, hfresh⟩
  cases hmove.effect with
  | @begun index env program registered waits slot session calls started =>
    obtain ⟨hfresh, hunit⟩ := h.waiting registered waits
    simp only [Session.unit, Prod.mk.injEq] at hunit
    obtain ⟨henv, hprogram, halerts⟩ := hunit
    have hinactive : index ∉ m.calls.map (·.index) := by
      intro hmem
      obtain ⟨f, hf, rfl⟩ := List.mem_map.1 hmem
      exact hfresh (h.begun f hf).1
    refine ⟨fun i => ?_, ?_, fun i hi => ?_, ?_, fun f hf => ?_⟩
    · by_cases hi : i = index
      · subst hi
        have hwalking : m'.session.registry.envs[i]? = some { env with state := .walking } := by
          simp [session, Session.checkOut, Registry.modify, registered]
        refine .during (by simp [calls]) hwalking rfl ?_ ?_
        · have hin := (List.getElem?_eq_some_iff.1 slot).1
          simp [session, Session.checkOut, hin]
        · rw [session]
          exact halerts
      · exact (h.stage i).other hmove (session ▸ unit_checkOut_ne m.session hi) (by simp [started, hi])
          (by simp [calls, hi])
    · rw [started]
      refine List.nodup_append.2 ⟨h.once, by simp, fun i hi j hj heq => hfresh ?_⟩
      obtain rfl : j = index := by simpa using hj
      exact heq ▸ hi
    · rw [started] at hi
      rcases List.mem_append.1 hi with hold | hnew
      · exact h.waited i hold
      · obtain rfl : i = index := by simpa using hnew
        exact ⟨env, by simpa using henv ▸ registered, waits⟩
    · rw [calls]
      exact List.nodup_cons.2 ⟨hinactive, h.nested⟩
    · rw [calls] at hf
      rw [started]
      rcases List.mem_cons.1 hf with rfl | hf
      · exact ⟨by simp, hprogram ▸ slot, m, hrun, .single hmove, hfresh, rfl⟩
      · obtain ⟨hmem, hrest⟩ := hbegun f hf
        exact ⟨List.mem_append_left _ hmem, hrest⟩
  | @worked f rest top own others programs alerts calls started =>
    refine ⟨fun i => ?_, started ▸ h.once, started ▸ h.waited, calls ▸ h.nested,
      calls ▸ started ▸ hbegun⟩
    by_cases hi : i = f.index
    · subst hi
      obtain ⟨env, registered, walking, slot, halerts⟩ := h.walking (f := f) (by simp [top])
      obtain ⟨env', registered', hstate⟩ := own env registered
      exact .during (by simp [calls, top]) registered' (hstate.trans walking) (programs ▸ slot)
        (alerts ▸ halerts)
    · refine (h.stage i).other hmove ?_ (by rw [started]) (by rw [calls])
      simp only [Session.unit, others i hi, programs, alerts]
  | @finished f rest out state depth top check session calls started =>
    have hf : f ∈ m.calls := by simp [top]
    obtain ⟨env, registered, walking, slot, halerts⟩ := h.walking hf
    obtain ⟨hstarted, hprogram, m₁, hrun₁, hrest₁, hfresh₁, hbefore⟩ := hbegun f hf
    have hnodup := h.nested
    rw [top, List.map_cons, List.nodup_cons] at hnodup
    refine ⟨fun i => ?_, started ▸ h.once, started ▸ h.waited, calls ▸ hnodup.2, fun g hg => ?_⟩
    · by_cases hi : i = f.index
      · subst hi
        have hwalked : m'.session.registry.envs[f.index]? = some { env with state := .walked } := by
          simp [session, Session.checkIn, Registry.modify, Frame.id, registered]
        have hwalks : Walks ⟨s, [], [], []⟩ m' f.index f.program out state.alerts :=
          ⟨m₁, depth, state, hrun₁, hrest₁, hfresh₁, hbefore ▸ check, rfl⟩
        refine .after (started ▸ hstarted) (calls ▸ hnodup.1) hwalked rfl hprogram hwalks ?_ ?_
        · have hin := (List.getElem?_eq_some_iff.1 slot).1
          simp [session, Session.checkIn, hin]
        · simp [session, Session.checkIn, halerts]
      · exact (h.stage i).other hmove (session ▸ unit_checkIn_ne m.session out state.alerts hi)
          (by rw [started]) (by simp [calls, top, hi])
    · rw [started]
      exact hbegun g (top ▸ List.mem_cons_of_mem _ (calls ▸ hg))

/-- Every run keeps the order. -/
theorem Run.orderly (h : Run ⟨s, [], [], []⟩ m) : Orderly s m := by
  induction h with
  | refl => exact .start s
  | tail hbefore hmove ih => exact ih.move hbefore hmove

/-! ## What the order gives -/

/-- Walks nest at most as deep as there are environments. -/
theorem Orderly.depth (h : Orderly s m) : m.active.length ≤ s.registry.envs.length := by
  have hsub : m.calls.map (·.index) ⊆ List.range s.registry.envs.length := by
    intro i hi
    obtain ⟨f, hf, rfl⟩ := List.mem_map.1 hi
    obtain ⟨env, he, -⟩ := h.waited _ (h.begun f hf).1
    exact List.mem_range.2 (List.getElem?_eq_some_iff.1 (by simpa using he)).1
  simpa using (List.subperm_of_subset h.nested hsub).length_le

/-- The state of an environment goes from waiting to being walked to walked. -/
theorem Orderly.next (h : Orderly s m) (hmove : Move m m') {env : Environment}
    (registered : m.session.registry.envs[i]? = some env) :
    ∃ env', m'.session.registry.envs[i]? = some env' ∧ env.state.Next env'.state := by
  cases hmove.effect with
  | @begun index old program registered' waits slot session =>
    by_cases hi : i = index
    · subst hi
      obtain rfl := Option.some.inj (registered.symm.trans registered')
      refine ⟨{ env with state := .walking }, ?_, by rw [waits]; exact .start⟩
      simp [session, Session.checkOut, Registry.modify, registered]
    · have hunit := congrArg Prod.fst (unit_checkOut_ne m.session hi)
      exact ⟨env, by rw [session]; exact hunit.trans registered, .stay _⟩
  | @worked f rest top own others =>
    by_cases hi : i = f.index
    · subst hi
      obtain ⟨env', registered', hstate⟩ := own env registered
      exact ⟨env', registered', by rw [hstate]; exact .stay _⟩
    · exact ⟨env, (others i hi).trans registered, .stay _⟩
  | @finished f rest out state depth top check session =>
    by_cases hi : i = f.index
    · subst hi
      obtain ⟨old, registered', walking, -⟩ := h.walking (f := f) (by simp [top])
      obtain rfl := Option.some.inj (registered.symm.trans registered')
      refine ⟨{ env with state := .walked }, ?_, by rw [walking]; exact .finish⟩
      simp [session, Session.checkIn, Registry.modify, Frame.id, registered]
    · have hunit := congrArg Prod.fst (unit_checkIn_ne m.session out state.alerts hi)
      exact ⟨env, by rw [session]; exact hunit.trans registered, .stay _⟩

/-- Nothing happens to an environment after its walk. -/
theorem Orderly.walked (h : Orderly s m) (hmove : Move m m') {env : Environment}
    (registered : m.session.registry.envs[i]? = some env) (walked : env.state = .walked) :
    m'.session.unit i = m.session.unit i := by
  -- The innermost walk is one of an environment that is being walked.
  have hother {f : Frame} {rest : List Frame} (top : m.calls = f :: rest) : i ≠ f.index := by
    rintro rfl
    obtain ⟨old, registered', walking, -⟩ := h.walking (f := f) (by simp [top])
    obtain rfl := Option.some.inj (registered.symm.trans registered')
    rw [walked] at walking
    cases walking
  cases hmove.effect with
  | @begun index old program registered' waits slot session =>
    have hi : i ≠ index := by
      rintro rfl
      obtain rfl := Option.some.inj (registered.symm.trans registered')
      rw [walked] at waits
      cases waits
    rw [session, unit_checkOut_ne m.session hi]
  | worked top own others programs alerts =>
    simp only [Session.unit, others i (hother top), programs, alerts]
  | @finished f rest out state depth top check session =>
    rw [session]
    exact unit_checkIn_ne m.session out state.alerts (hother top)

theorem Run.walked (hm : Run ⟨s, [], [], []⟩ m) (h : Run m m') {env : Environment}
    (registered : m.session.registry.envs[i]? = some env) (walked : env.state = .walked) :
    m'.session.unit i = m.session.unit i := by
  induction h with
  | refl => rfl
  | tail hbefore hmove ih =>
    have henv := (congrArg Prod.fst ih).trans registered
    exact ((Run.orderly (hm.trans hbefore)).walked hmove henv walked).trans ih

theorem length_eq_of_isSome {α β : Type} {l : List α} {l' : List β}
    (h : ∀ i : Nat, l[i]?.isSome = l'[i]?.isSome) : l.length = l'.length := by
  have hlt (i : Nat) : i < l.length ↔ i < l'.length := by
    have hi := congrArg (· = true) (h i)
    simpa [isSome_getElem?] using hi
  exact Nat.le_antisymm (Nat.le_of_not_lt fun hlt' => Nat.lt_irrefl _ ((hlt _).1 hlt'))
    (Nat.le_of_not_lt fun hlt' => Nat.lt_irrefl _ ((hlt _).2 hlt'))

/-- There are as many slots as before. -/
theorem Orderly.length_programs (h : Orderly s m) :
    m.session.programs.length = s.programs.length := by
  refine length_eq_of_isSome fun i => ?_
  cases h.stage i with
  | before fresh same =>
    simp only [Session.unit, Prod.mk.injEq] at same
    rw [same.2.1]
  | during active registered walking slot =>
    obtain ⟨f, hf, rfl⟩ := List.mem_map.1 active
    rw [slot, (h.begun f hf).2.1]
    rfl
  | after started inactive registered walked given walks slot =>
    rw [slot, given]
    rfl

/-- There are as many lists of alerts as before. -/
theorem Orderly.length_alerts (h : Orderly s m) : m.session.alerts.length = s.alerts.length := by
  refine length_eq_of_isSome fun i => ?_
  cases h.stage i with
  | before fresh same =>
    simp only [Session.unit, Prod.mk.injEq] at same
    rw [same.2.2]
  | during active registered walking slot alerts => rw [alerts]
  | after started inactive registered walked given walks slot added =>
    rw [added, Option.isSome_map]

/-- With no walk under way, an environment is untouched or was walked to its end. -/
theorem Orderly.idle (h : Orderly s m) (hidle : m.active = []) (i : Nat) :
    m.session.unit i = s.unit i ∨ ∃ env program out alerts,
      m.session.registry.envs[i]? = some env ∧ env.state = .walked ∧ i ∈ m.started ∧
      s.programs[i]? = some (some program) ∧ m.session.programs[i]? = some (some out) ∧
      m.session.alerts[i]? = s.alerts[i]?.map (·.append alerts) ∧
      Walks ⟨s, [], [], []⟩ m i program out alerts := by
  cases h.stage i with
  | before fresh same => exact .inl same
  | during active => simp [calls, hidle] at active
  | after started inactive registered walked given walks slot added =>
    exact .inr ⟨_, _, _, _, registered, walked, started, given, slot, added, walks⟩

/-- A session of a run is as steady as the one before it. -/
theorem Run.steady {n : Nat} (h : Run ⟨s, [], [], []⟩ m) (hs : s.Steady n) :
    m.session.Steady n := by
  have horderly := h.orderly
  have hsame (i : Nat) (env : Environment) (he : m.session.registry.envs[i]? = some env)
      (hw : env.state = .notWalked) :
      s.registry.envs[i]? = some env ∧ m.session.programs[i]? = s.programs[i]? := by
    obtain ⟨-, hunit⟩ := horderly.waiting he hw
    simp only [Session.unit, Prod.mk.injEq] at hunit
    exact ⟨hunit.1.symm.trans he, hunit.2.1⟩
  refine ⟨fun i env he => ?_, fun id env he hw => ?_, ?_, fun i env he hw => ?_⟩
  · have hname := congrArg (·[i]?) h.names
    simp only [Registry.names, List.getElem?_map, he, Option.map_some] at hname
    obtain ⟨old, hold, heq⟩ := Option.map_eq_some_iff.1 hname.symm
    rw [← (Prod.mk.inj heq).2, hs.ids i old hold]
  · obtain ⟨i, hi, hget⟩ := Option.bind_eq_some_iff.1 he
    exact hs.waitsNew id env (Option.bind_eq_some_iff.2 ⟨i, hi, (hsame i env hget hw).1⟩) hw
  · exact Nat.le_trans (Session.countP_waits_le fun i env he hw => (hsame i env he hw).1) hs.few
  · obtain ⟨hold, hslot⟩ := hsame i env he hw
    obtain ⟨program, hprogram⟩ := hs.slots i env hold hw
    exact ⟨program, hslot.trans hprogram⟩

end Machine

/-! ## Builds -/

namespace Session

open Machine

theorem ofFiles_append (config : Config) (files : List (String × Program)) (path : String)
    (program : Program) : ofFiles config (files ++ [(path, program)]) =
      ((ofFiles config files).addProgram path program).2 := by
  simp [ofFiles]

/-- The alerts of an environment before it is walked are those of its `env` declaration. -/
theorem alerts_ofFiles (config : Config) (files : List (String × Program)) (i : Nat) :
    (ofFiles config files).alerts[i]? =
      files[i]?.map fun file => ((ofFiles config (files.take i)).header file.1 file.2).2.2 := by
  induction files using List.reverseRecOn generalizing i with
  | nil => rfl
  | append_singleton files file ih =>
    have hlength : (ofFiles config files).alerts.length = files.length := by
      refine Nat.le_antisymm (Nat.le_of_not_lt fun h => ?_) (Nat.le_of_not_lt fun h => ?_)
      · have hat := ih files.length
        simp [h] at hat
      · have hat := ih (ofFiles config files).alerts.length
        simp [h] at hat
    have halerts : (ofFiles config (files ++ [file])).alerts = (ofFiles config files).alerts ++
        [((ofFiles config files).header file.1 file.2).2.2] := by
      rw [show file = (file.1, file.2) from rfl, ofFiles_append]
      rfl
    rw [halerts]
    rcases Nat.lt_trichotomy i files.length with hi | rfl | hi
    · rw [List.getElem?_append_left (hlength ▸ hi), ih, List.getElem?_append_left hi,
        List.take_append_of_le_length (Nat.le_of_lt hi)]
    · rw [List.getElem?_append_right (Nat.le_of_eq hlength)]
      simp [hlength]
    · rw [List.getElem?_eq_none (by simp [hlength]; omega), List.getElem?_eq_none (by simp; omega)]
      rfl

/-- The programs that were collected fill the slots. -/
theorem collect_eq_ok {slots : List (Option Program)} {envs : List Environment}
    {programs : List Program} (h : collect slots envs = .ok programs)
    (hlength : slots.length = envs.length) : slots = programs.map some := by
  induction slots generalizing envs programs with
  | nil =>
    cases h
    rfl
  | cons slot rest ih =>
    cases envs with
    | nil => cases hlength
    | cons env envs =>
      cases slot with
      | none => cases h
      | some program =>
        rw [collect] at h
        cases hrest : collect rest envs with
        | error e =>
          rw [hrest] at h
          cases h
        | ok others =>
          rw [hrest] at h
          cases h
          rw [ih hrest (by simpa using hlength)]
          rfl

end Session

/-- The positions before one are the smaller ones. -/
theorem lt_and_eq_range_of_split {n i : Nat} {before after : List Nat}
    (h : List.range n = before ++ i :: after) : i < n ∧ before = List.range i := by
  rw [List.range_eq_range', List.range'_eq_append_iff] at h
  obtain ⟨k, hk, rfl, hrest⟩ := h
  obtain ⟨rfl, hlt, -⟩ := List.range'_eq_cons_iff.1 hrest.symm
  refine ⟨by omega, ?_⟩
  rw [List.range_eq_range', Nat.mul_one, Nat.zero_add]

/-- A build before anything is walked. -/
def Machine.load (config : Config) (files : List (String × Program)) : Machine :=
  { session := Session.ofFiles config files }

namespace Machine

variable {config : Config} {files : List (String × Program)} {m : Machine}

theorem load_idle_filled (hrun : Run (load config files) m) (hidle : m.active = []) :
    ∀ slot ∈ m.session.programs, slot.isSome := by
  intro slot hslot
  obtain ⟨i, hi, rfl⟩ := List.getElem_of_mem hslot
  have hget := List.getElem?_eq_getElem hi
  rcases hrun.orderly.idle hidle i with hsame | ⟨_, _, out, _, -, -, -, -, hout, -⟩
  · have hprogram := congrArg (fun u => u.2.1) hsame
    simp only [Session.unit, (Session.loaded_ofFiles config files).programs, List.getElem?_map,
      hget] at hprogram
    obtain ⟨file, -, heq⟩ := Option.map_eq_some_iff.1 hprogram.symm
    rw [← heq]
    rfl
  · rw [Option.some.inj (hget.symm.trans hout)]
    rfl

/-- Every environment that does not wait when a build is at its end was walked. -/
theorem load_idle_walked (hrun : Run (load config files) m) (hidle : m.active = []) {i : Nat}
    {path : String} {program : Program} (hfile : files[i]? = some (path, program))
    (hdone : ¬m.session.WaitsAt i) :
    i ∈ m.started ∧ ∃ env out alerts, m.session.registry.envs[i]? = some env ∧
      env.state = .walked ∧ m.session.programs[i]? = some (some out) ∧
      m.session.alerts[i]? = some
        (((Session.ofFiles config (files.take i)).header path program).2.2.append alerts) ∧
      Walks (load config files) m i program out alerts := by
  have hloaded := Session.loaded_ofFiles config files
  rcases hrun.orderly.idle hidle i with
    hsame | ⟨env, given, out, alerts, hget, hwalked, hstarted, hgiven, hout, hadded, hwalks⟩
  · obtain ⟨hi, -⟩ := List.getElem?_eq_some_iff.1 hfile
    rw [← hloaded.length] at hi
    have hget := List.getElem?_eq_getElem hi
    have henv := congrArg Prod.fst hsame
    have hwaits : m.session.WaitsAt i := by
      refine ⟨_, (Registry.get?_user _ _).trans (henv.trans hget), ?_⟩
      rw [(hloaded.envs i _ hget).1]
    exact absurd hwaits hdone
  · have hprogram : some (some program) = some (some given) := by
      rw [← hgiven]
      simp [hloaded.programs, hfile]
    obtain rfl : program = given := by simpa using hprogram
    refine ⟨hstarted, env, out, alerts, hget, hwalked, hout, ?_, hwalks⟩
    rw [hadded]
    simp [Session.alerts_ofFiles, hfile]

end Machine

open Machine Session

/-- The protocol of a build. Along every run, an environment waits, is walked and is done with, in
this order; no walk is begun twice, and walks nest at most as deep as there are environments. The
build is such a run. It never asks for an environment that is not registered or for a program that
is not in its slot. If it ends without an error, every environment was walked, every program is
back in its slot, and the alerts of an environment are those of its `env` declaration and then those
of its walk. If it ends with an error, the walks made until then are that run: those of the
environments registered before some one, and the walk of that one, which ends with the error. There
too every environment still waits, or was walked to its end. -/
theorem build_walks_once (config : Config) (files : List (String × Program)) :
    (∀ m, Run (load config files) m →
      m.started.Nodup ∧ m.active.length ≤ files.length ∧
      ∀ m', Move m m' → ∀ (i : Nat) env, m.session.registry.envs[i]? = some env →
        ∃ env', m'.session.registry.envs[i]? = some env' ∧ env.state.Next env'.state) ∧
    (∀ e, analyze config files = .error e →
      (∀ id, e ≠ .unknownEnvironment id) ∧ ∀ path, e ≠ .programCheckedOut path) ∧
    ∃ m, Run (load config files) m ∧ m.active = [] ∧ (∀ out, analyze config files = .ok out →
      out.registry = m.session.registry ∧ out.alerts = m.session.alerts ∧
      m.session.programs = out.programs.map some ∧ out.registry.envs.length = files.length ∧
      out.programs.length = files.length ∧ out.alerts.length = files.length ∧
      ∀ (i : Nat) path program, files[i]? = some (path, program) →
        m.started.count i = 1 ∧ ∃ env walked alerts, out.registry.envs[i]? = some env ∧
          env.state = .walked ∧ out.programs[i]? = some walked ∧
          Walks (load config files) m i program walked alerts ∧
          out.alerts[i]? = some
            (((ofFiles config (files.take i)).header path program).2.2.append alerts)) ∧
      ∀ e, analyze config files = .error e →
        (∃ i < files.length, ∃ m', Run (load config files) m' ∧ m'.active = [] ∧
          (ofFiles config files).walkAll (List.range i) = .ok m'.session ∧
          Run m' m ∧ m'.session.walkEnvironment (.user i) = .ok (some e, m.session)) ∧
        ∀ (i : Nat) path program, files[i]? = some (path, program) → m.session.WaitsAt i ∨
          m.started.count i = 1 ∧ ∃ env walked alerts, m.session.registry.envs[i]? = some env ∧
            env.state = .walked ∧ m.session.programs[i]? = some (some walked) ∧
            Walks (load config files) m i program walked alerts ∧
            m.session.alerts[i]? = some
              (((ofFiles config (files.take i)).header path program).2.2.append alerts) := by
  have hloaded := loaded_ofFiles config files
  obtain ⟨m, hrun, hidle, hresult⟩ := run_analyze config files
  have hfilled := load_idle_filled hrun hidle
  obtain ⟨programs, hcollect⟩ := collect_of_filled hfilled m.session.registry.envs
  refine ⟨fun m hm => ⟨hm.orderly.once, ?_, fun m' hmove i env => hm.orderly.next hmove⟩,
    fun e he => ?_, m, hrun, hidle, fun out hout => ?_, fun e he => ⟨?_, ?_⟩⟩
  · rw [← hloaded.length]
    exact hm.orderly.depth
  · rcases hresult with ⟨_, hok, -⟩ | ⟨e', herror, hkind⟩
    · rw [hok] at he
      cases he
    · obtain rfl : e' = e := by simpa [herror] using he
      obtain ⟨hcontainer, -⟩ := hkind.resolve_right (by simp [hcollect])
      exact ⟨fun id heq => by simp [heq, CompileError.isContainer] at hcontainer,
        fun path heq => by simp [heq, CompileError.isContainer] at hcontainer⟩
  · rcases hresult with ⟨programs', hok, hcollect', hdone⟩ | ⟨e, herror, -⟩
    · rw [hok] at hout
      cases hout
      have hlength : m.session.registry.envs.length = files.length := by
        have hnames := congrArg List.length hrun.names
        simp only [Registry.names, List.length_map] at hnames
        exact hnames.trans hloaded.length
      have hslots : m.session.programs.length = files.length := by
        rw [hrun.orderly.length_programs]
        simp [hloaded.programs]
      have hprograms := collect_eq_ok hcollect' (hslots.trans hlength.symm)
      have halerts : m.session.alerts.length = files.length := by
        rw [hrun.orderly.length_alerts]
        exact length_eq_of_isSome fun i => by simp [alerts_ofFiles]
      refine ⟨rfl, rfl, hprograms, hlength, by simpa [hprograms] using hslots, halerts,
        fun i path program hfile => ?_⟩
      have hi := (List.getElem?_eq_some_iff.1 hfile).1
      obtain ⟨hstarted, env, walked, alerts, hget, hstate, hout, hadded, hwalks⟩ :=
        load_idle_walked hrun hidle hfile (hdone i hi)
      refine ⟨List.count_eq_one_of_mem hrun.orderly.once hstarted, env, walked, alerts, hget,
        hstate, ?_, hwalks, hadded⟩
      simpa [hprograms] using hout
    · rw [herror] at hout
      cases hout
  · rcases hresult with ⟨_, hok, -⟩ | ⟨e', herror, hkind⟩
    · rw [hok] at he
      cases he
    · obtain rfl : e' = e := by simpa [herror] using he
      obtain ⟨-, before, i, after, m', hindices, hbefore, hidle', hall, hlast, hends⟩ :=
        hkind.resolve_right (by simp [hcollect])
      obtain ⟨hi, rfl⟩ := lt_and_eq_range_of_split hindices
      exact ⟨i, hi, m', hbefore, hidle', hall, hlast, hends⟩
  · intro i path program hfile
    by_cases hwaits : m.session.WaitsAt i
    · exact .inl hwaits
    · obtain ⟨hstarted, env, walked, alerts, hget, hstate, hout, hadded, hwalks⟩ :=
        load_idle_walked hrun hidle hfile hwaits
      exact .inr ⟨List.count_eq_one_of_mem hrun.orderly.once hstarted, env, walked, alerts, hget,
        hstate, hout, hwalks, hadded⟩

/-- What a walk leaves alone that is made in a build. Every environment that is being walked or was
walked is the same after it, with its program and its alerts, and every one that waits still does,
or was walked to its end. A walk that is begun ends with the same walks under way as before. And
what was walked stays the same for the rest of the build. -/
theorem walk_leaves_started {config : Config} {files : List (String × Program)} {m : Machine}
    (hm : Run (load config files) m) :
    (∀ target depth, m.session.registry.envs.countP Environment.waits ≤ depth →
      ∃ result s', m.session.walk depth target = .ok (result, s') ∧
        (∀ (i : Nat) env, m.session.registry.envs[i]? = some env →
          (env.state ≠ .notWalked → s'.unit i = m.session.unit i) ∧
          (env.state = .notWalked → s'.unit i = m.session.unit i ∨
            ∃ env', s'.registry.envs[i]? = some env' ∧ env'.state = .walked)) ∧
        ∀ index, target = .user index → m.session.WaitsAt index → ∃ program started reports,
          m.session.programs[index]? = some (some program) ∧
          Run (m.begin index program) ⟨s', m.active, started, reports⟩) ∧
    ∀ m', Run m m' → ∀ (i : Nat) env, m.session.registry.envs[i]? = some env →
      env.state = .walked → m'.session.unit i = m.session.unit i := by
  refine ⟨fun target depth hdepth => ?_, fun m' hrun i env registered walked =>
    hm.walked hrun registered walked⟩
  have hsteady := hm.steady (loaded_ofFiles config files).steady
  obtain ⟨result, s', hwalk, -⟩ := framing_walk depth target m.session hsteady.waitsNew
  have htracked (index : Nat) (hindex : target = .user index) (hwaits : m.session.WaitsAt index) :
      ∃ program, m.session.programs[index]? = some (some program) ∧
        ∀ rest started reports, ∃ started' reports',
          Run (begin ⟨m.session, rest, started, reports⟩ index program)
            ⟨s', rest, started', reports'⟩ := by
    obtain ⟨env, hget, hwaits⟩ := hwaits
    obtain ⟨program, hslot, hresult⟩ := tracked_walk depth index env m.session
      ⟨hsteady.ids, hsteady.waitsNew, hdepth, hsteady.slots⟩ (by simpa using hget) hwaits
    exact ⟨program, hslot, (hresult result s' (hindex ▸ hwalk)).2.2⟩
  refine ⟨result, s', hwalk, fun i env registered => ?_, fun index hindex hwaits => ?_⟩
  · -- A walk that does anything is a run of a machine with nothing else under way.
    rcases walk_cases depth target m.session with
      ⟨_, hsame⟩ | ⟨index, old, _, _, hget, hwaits, hindex, -⟩
    · rw [hwalk] at hsame
      cases hsame
      exact ⟨fun _ => rfl, fun _ => .inl rfl⟩
    · obtain ⟨program, hslot, hmoves⟩ := htracked index hindex ⟨old, hindex ▸ hget, hwaits⟩
      obtain ⟨started, reports, hmoves⟩ := hmoves [] [] []
      have hrun : Run ⟨m.session, [], [], []⟩ ⟨s', [], started, reports⟩ :=
        .head (.start rfl (by simpa [hindex] using hget) hwaits hslot) hmoves
      rcases hrun.orderly.idle rfl i with hsame | ⟨env', _, _, _, hget', hwalked, hstarted, -⟩
      · exact ⟨fun _ => hsame, fun _ => .inl hsame⟩
      · refine ⟨fun hne => ?_, fun _ => .inr ⟨env', hget', hwalked⟩⟩
        obtain ⟨waiting, hold, hwaits⟩ := hrun.orderly.waited i hstarted
        obtain rfl := Option.some.inj (registered.symm.trans (by simpa using hold))
        exact absurd hwaits hne
  · obtain ⟨program, hslot, hmoves⟩ := htracked index hindex hwaits
    obtain ⟨started, reports, hmoves⟩ := hmoves m.active m.started m.reports
    exact ⟨program, started, reports, hslot, hmoves⟩

/-- A program that names its environment and uses another one. -/
def usingProgram (name other : String) : Program :=
  [.level name,
    .use ⟨⟨other, .synthetic⟩, .synthetic⟩]

/-- Two programs that use each other. -/
def mutualFiles : List (String × Program) :=
  [("a.hyb", usingProgram "A" "B"), ("b.hyb", usingProgram "B" "A")]

/-- The first of two programs that use each other is suspended while the second one is walked. -/
theorem walk_leaves_started_mutual :
    Run (load {} mutualFiles) ((load {} mutualFiles).begin 0 (usingProgram "A" "B")) ∧
    ∃ result s', ((load {} mutualFiles).begin 0 (usingProgram "A" "B")).session.walk 1 (.user 1) =
        .ok (result, s') ∧
      s'.unit 0 = ((load {} mutualFiles).begin 0 (usingProgram "A" "B")).session.unit 0 := by
  have hget : (load {} mutualFiles).session.registry.envs[0]? =
      some { id := .user 0, path := "a.hyb", name := "A", kind := .level } := rfl
  have hrun : Run (load {} mutualFiles)
      ((load {} mutualFiles).begin 0 (usingProgram "A" "B")) := .single (.start rfl hget rfl rfl)
  obtain ⟨result, s', hwalk, hunits, -⟩ := (walk_leaves_started hrun).1 (.user 1) 1 (by decide)
  exact ⟨hrun, result, s', hwalk, (hunits 0 _ rfl).1 nofun⟩

end HybroidSema
