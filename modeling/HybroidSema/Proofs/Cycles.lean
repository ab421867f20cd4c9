import HybroidSema.Proofs.WalkOnce
import Mathlib.Data.List.Sigma
import Mathlib.Data.Sym.Sym2

/-!
# Import cycles

The runs of the machine are searches for back edges, so what a build reports about import cycles
is right: each report is a path of requirements back to where it begins, no cycle goes unreported,
and no pair of environments is reported twice.

* `Machine.watched`: the machine keeps what `Watch` says.
* `Machine.tells`: the alerts of an environment are its reports, in order.
* `analyze_reports_cycles`: what a build says about import cycles.
-/

namespace HybroidSema

namespace Registry

variable {r r' : Registry}

/-- The state of an environment. -/
def state? (r : Registry) (id : EnvId) : Option WalkState := (r.get? id).map (·.state)

theorem get?_modify (r : Registry) (id : EnvId) (g : Environment → Environment) (other : EnvId) :
    (r.modify id g).get? other = if other = id then (r.get? other).map g else r.get? other := by
  split
  · next heq =>
    subst heq
    exact r.get?_modify_self other g
  · next hne => exact r.get?_modify_ne g hne

/-- Requirements depend on nothing else. -/
theorem requires_congr
    (h : ∀ id, (r'.get? id).map (·.requirements) = (r.get? id).map (·.requirements)) :
    r'.Requires = r.Requires := by
  funext a b
  have hiff (r : Registry) :
      r.Requires a b ↔ ∃ l, (r.get? a).map (·.requirements) = some l ∧ b ∈ l := by
    simp [Requires]
  rw [eq_iff_iff, hiff, hiff, h]

theorem requires_modify (id : EnvId) {g : Environment → Environment}
    (hg : ∀ env, (g env).requirements = env.requirements) :
    (r.modify id g).Requires = r.Requires := by
  refine requires_congr fun other => ?_
  rw [get?_modify]
  split
  · rw [Option.map_map]
    exact Option.map_congr fun env _ => hg env
  · rfl

theorem state?_modify (id : EnvId) {g : Environment → Environment}
    (hg : ∀ env, (g env).state = env.state) : (r.modify id g).state? = r.state? := by
  funext other
  rw [state?, get?_modify]
  split
  · rw [Option.map_map]
    exact Option.map_congr fun env _ => hg env
  · rfl

/-- A change of the state of one environment. -/
theorem state?_setState {id : EnvId} {env : Environment} (henv : r.get? id = some env)
    (s : WalkState) : (r.modify id fun env => { env with state := s }).state? =
      Watch.withState r.state? id s := by
  funext other
  rw [state?, get?_modify]
  unfold Watch.withState
  split
  · next heq =>
    subst heq
    simp [henv]
  · rfl

/-- A requirement that is recorded is new, if it was not there before, and never on itself. -/
theorem requires_require {id target : EnvId}
    (hid : ∀ env, r.get? id = some env → env.id = id) {a b : EnvId} :
    (r.modify id (·.require target)).Requires a b →
      r.Requires a b ∨ (a = id ∧ b = target ∧ b ≠ a) := by
  rintro ⟨env, he, hmem⟩
  rw [get?_modify] at he
  split at he
  · next heq =>
    subst heq
    obtain ⟨old, hold, rfl⟩ := Option.map_eq_some_iff.1 he
    unfold Environment.require at hmem
    split at hmem
    · next hlacks =>
      rcases List.mem_append.1 hmem with hmem | hnew
      · exact .inl ⟨old, hold, hmem⟩
      · obtain rfl : b = target := by simpa using hnew
        refine .inr ⟨rfl, rfl, fun heq => ?_⟩
        simp [Environment.lacksRequirement, hid old hold, heq] at hlacks
    · exact .inl ⟨old, hold, hmem⟩
  · exact .inl ⟨env, he, hmem⟩

theorem requires_require_of_requires {id target a b : EnvId} (h : r.Requires a b) :
    (r.modify id (·.require target)).Requires a b := by
  obtain ⟨env, he, hmem⟩ := h
  by_cases heq : a = id
  · refine ⟨env.require target, by simp [get?_modify, heq ▸ he, heq], ?_⟩
    unfold Environment.require
    split
    · exact List.mem_append_left _ hmem
    · exact hmem
  · exact ⟨env, by simp [get?_modify, heq, he], hmem⟩

end Registry

theorem Session.requires_checkOut (s : Session) (id : EnvId) (index : Nat) :
    (s.checkOut id index).registry.Requires = s.registry.Requires :=
  Registry.requires_modify id fun _ => rfl

theorem Session.requires_checkIn (s : Session) (id : EnvId) (index : Nat) (out : Program)
    (alerts : Diagnostics) : (s.checkIn id index out alerts).registry.Requires =
      s.registry.Requires :=
  Registry.requires_modify id fun _ => rfl

theorem Registry.requires_markCycle (r : Registry) (a b : EnvId) :
    (r.markCycle a b).Requires = r.Requires :=
  requires_congr fun id => by rw [get?_of_envs_eq (r.envs_markCycle a b)]

namespace Machine

variable {m m' : Machine} {s : Session}

/-! ## Reports -/

/-- The environments of the walks that are under way, and what each has pending. -/
def stack (m : Machine) : List (EnvId × List EnvId) := m.active.map fun f => (f.id, f.pending)

/-- What holds of requirements and reports throughout a run. -/
structure Watched (m : Machine) : Prop where
  watch : Watch m.session.registry.Requires m.session.registry.state? m.stack m.reports
  marked : m.session.registry.reportedCycles = m.reports.map CycleReport.key

/-- A cycle that was found is a valid report. -/
theorem valid_of_findCycle? {r : Registry} {requester target : EnvId} {cycle : List EnvId}
    (found : r.findCycle? requester target = some cycle) (required : r.Requires requester target) :
    CycleReport.Valid r.Requires ⟨requester, target, cycle⟩ := by
  obtain ⟨rest, rfl, hchain, hlast, hsimple⟩ := Registry.findCycle?_sound found
  exact ⟨⟨rest, rfl⟩, .cons_cons required hchain, by simpa using hlast, hsimple⟩

theorem known_iff {r : Registry} {reports : List CycleReport} {a b : EnvId}
    (h : r.reportedCycles = reports.map CycleReport.key) :
    r.lacksCycle a b = false ↔ ∃ p ∈ reports, p.key = Registry.cycleKey a b := by
  simp [Registry.lacksCycle, h]

/-- The innermost walk has asked for an environment for which there is nothing to do. -/
theorem Watched.settle {f : Frame} {rest : List Frame} {target : EnvId} (h : Watched m)
    (active : m.active = f :: rest) (settled : m.session.registry.Settled f.id target) :
    Watched { m with active := f.settle target :: rest } := by
  have hwatch := h.watch
  rw [stack, active, List.map_cons] at hwatch
  refine ⟨?_, h.marked⟩
  cases settled with
  | exempt hexempt =>
    refine hwatch.settle [] fun st hreq hstate => ?_
    rcases hexempt with hlibrary | rfl
    · have hnone : target.userIndex? = none := by
        simpa [EnvId.userIndex?, EnvId.isLibrary] using hlibrary
      simp [Registry.state?, Registry.get?, hnone] at hstate
    · exact absurd hreq (hwatch.irrefl _)
  | reported cycle found known =>
    refine hwatch.settle_reported (fun hne => ?_) ((known_iff h.marked).1 known)
    obtain ⟨path, rfl, hchain, hlast, -⟩ := Registry.findCycle?_sound found
    cases path with
    | nil => exact absurd (by simpa using hlast) hne
    | cons next path => exact ⟨next, hchain.rel⟩
  | started acyclic hstarted =>
    refine hwatch.settle_started (Registry.findCycle?_complete acyclic) fun st hst => ?_
    obtain ⟨env, henv, rfl⟩ := Option.map_eq_some_iff.1 hst
    exact hstarted env henv

/-- A walk is begun that the innermost one has asked for. -/
theorem Watched.begin {index : Nat} {env : Environment} (h : Watched m) (program : Program)
    (registered : m.session.registry.envs[index]? = some env) (waits : env.state = .notWalked)
    (asked : ∀ top ∈ (m.stack.map Prod.fst).head?,
      m.session.registry.Requires top (.user index)) : Watched (m.begin index program) := by
  have hget : m.session.registry.get? (.user index) = some env := by simpa using registered
  refine ⟨?_, ?_⟩
  · have hwaits : m.session.registry.state? (.user index) = some .notWalked := by
      simp [Registry.state?, registered, waits]
    have hpush := h.watch.push hwaits asked
    rw [← Registry.state?_setState hget, ← m.session.requires_checkOut (.user index) index] at hpush
    exact hpush
  · simp only [Machine.begin, Session.checkOut, Registry.modify, EnvId.userIndex?_user, h.marked]

/-- One move keeps what is watched. -/
theorem Watched.move {n : Nat} (h : Watched m) (hs : s.Steady n) (hrun : Run ⟨s, [], [], []⟩ m)
    (hmove : Move m m') : Watched m' := by
  have hsteady := hrun.steady hs
  have hmodify (f : Frame) (g : Environment → Environment) :
      (m.session.registry.modify f.id g).reportedCycles = m.session.registry.reportedCycles := by
    simp only [Frame.id, Registry.modify, EnvId.userIndex?_user]
  cases hmove with
  | start idle registered waits slot =>
    exact h.begin _ registered waits fun top htop => by simp [stack, idle] at htop
  | @enter f rest index env program active required acyclic registered waits slot =>
    have hbegin := h.begin program registered waits fun top htop => by
      obtain rfl : f.id = top := by simpa [stack, active] using htop
      exact required
    have hwatch := hbegin.watch
    rw [stack, Machine.begin, active] at hwatch
    refine ⟨?_, hbegin.marked⟩
    -- What was asked for is being walked, above the walk that has asked for it.
    refine hwatch.settle [_] fun st _ hst => ⟨?_, fun hbelow => ?_⟩
    · obtain ⟨-, hwalking⟩ := hwatch.top_notMem
      obtain rfl := Option.some.inj (hst.symm.trans hwalking)
      exact WalkState.noConfusion
    · exact absurd (List.mem_cons_of_mem _ hbelow) hwatch.top_notMem.1
  | @work f rest g synthetic more active keeps =>
    have hkeeps (env : Environment) :
        (g env).requirements = env.requirements ∧ (g env).state = env.state := by
      have hlinkage := congrArg (fun e : Environment => (e.requirements, e.state)) (keeps env)
      exact Prod.mk.inj hlinkage
    refine ⟨?_, (hmodify f g).trans h.marked⟩
    have hwatch := h.watch
    rw [← Registry.requires_modify f.id fun env => (hkeeps env).1,
      ← Registry.state?_modify f.id fun env => (hkeeps env).2, stack, active] at hwatch
    exact hwatch
  | @require f rest target active named =>
    have hwatch := h.watch
    rw [stack, active, List.map_cons] at hwatch
    refine ⟨?_, (hmodify f _).trans h.marked⟩
    have hid : ∀ env, m.session.registry.get? f.id = some env → env.id = f.id := fun env he =>
      hsteady.ids f.index env (by simpa [Frame.id] using he)
    have hrequire := hwatch.require target
      (fun a b => Registry.requires_require hid (a := a) (b := b))
      fun a b => Registry.requires_require_of_requires
    rw [← Registry.state?_modify (r := m.session.registry) f.id (g := (·.require target)) fun env => by
      unfold Environment.require
      split <;> rfl] at hrequire
    exact hrequire
  | @settle f rest target active settled => exact h.settle active settled
  | @report f rest target cycle span active required hne found fresh =>
    have hwatch := h.watch
    rw [stack, active, List.map_cons] at hwatch
    have henvs := m.session.registry.envs_markCycle f.id target
    have hget := Registry.get?_of_envs_eq henvs
    refine ⟨?_, ?_⟩
    · have hreport := hwatch.report (valid_of_findCycle? found required) fun p hp hkey => by
        have hknown := (known_iff h.marked).2 ⟨p, hp, hkey⟩
        rw [fresh] at hknown
        cases hknown
      have hstate : (m.session.registry.markCycle f.id target).state? =
          m.session.registry.state? := by
        funext id
        rw [Registry.state?, hget]
        rfl
      rw [← m.session.registry.requires_markCycle f.id target, ← hstate] at hreport
      exact hreport
    · simp [Registry.markCycle, fresh, h.marked, CycleReport.key]
  | @finish f rest out state depth active nothing check session alerts =>
    have hwatch := h.watch
    rw [stack, active, List.map_cons, nothing] at hwatch
    obtain ⟨-, hwalking⟩ := hwatch.top_notMem
    obtain ⟨env, henv, -⟩ := Option.map_eq_some_iff.1 hwalking
    refine ⟨?_, (hmodify f _).trans h.marked⟩
    have hpop := hwatch.pop
    rw [← Registry.state?_setState henv, ← m.session.requires_checkIn f.id f.index out f.alerts]
      at hpop
    exact hpop

theorem Run.watched {n : Nat} (h : Run ⟨s, [], [], []⟩ m) (hs : s.Steady n)
    (hwatched : Watched ⟨s, [], [], []⟩) : Watched m := by
  induction h with
  | refl => exact hwatched
  | tail hbefore hmove ih => exact ih.move hs hbefore hmove

end Machine

/-! ## Alerts -/

/-- The names that an alert about an import cycle lists. -/
def AlertKind.cycle? : AlertKind → Option (List String)
  | .importCycle names => some names
  | _ => none

theorem AlertKind.cycle?_eq_some_iff {kind : AlertKind} {names : List String} :
    kind.cycle? = some names ↔ kind = .importCycle names := by
  cases kind <;> simp [cycle?]

theorem AlertKind.cycle?_eq_none {kind : AlertKind} (h : kind.isImportCycle = false) :
    kind.cycle? = none := by
  cases kind <;> first | rfl | cases h

/-- The import cycles that were reported, in order. -/
def Diagnostics.cycles (d : Diagnostics) : List (List String) :=
  d.alerts.filterMap (·.kind.cycle?)

theorem Diagnostics.cycles_append (d e : Diagnostics) :
    (d.append e).cycles = d.cycles ++ e.cycles := by
  simp [cycles, append]

/-- Other alerts do not count. -/
theorem Diagnostics.cycles_more (d : Diagnostics) {more : List Alert}
    (h : ∀ a ∈ more, a.kind.isImportCycle = false) :
    Diagnostics.cycles ⟨d.alerts ++ more⟩ = d.cycles := by
  have hmore : more.filterMap (·.kind.cycle?) = [] :=
    List.filterMap_eq_nil_iff.2 fun a ha => AlertKind.cycle?_eq_none (h a ha)
  simp [cycles, hmore]

theorem Diagnostics.cycles_push (d : Diagnostics) (names : List String) (span : Span) :
    (d.push ⟨.importCycle names, span, [], none⟩).cycles = d.cycles ++ [names] := by
  simp [cycles, push, AlertKind.cycle?]

namespace Registry

theorem nameOf_of_names_eq {r r' : Registry} (h : r'.names = r.names) (id : EnvId) :
    r'.nameOf id = r.nameOf id := by
  have hname (r : Registry) : r.nameOf id = (id.library?.map (·.name)).getD
      (((id.userIndex?.bind fun i => r.names[i]?).map Prod.fst).getD id.render) := by
    unfold nameOf
    cases id.library? with
    | some library => rfl
    | none =>
      rw [get?]
      cases id.userIndex? with
      | none => rfl
      | some i => cases henv : r.envs[i]? <;> simp [names, henv]
  rw [hname, hname, h]

/-- An environment that a name stands for has the name. -/
theorem nameOf_of_lookup? {r : Registry}
    (hids : ∀ (i : Nat) env, r.envs[i]? = some env → env.id = .user i) {name : String}
    {id : EnvId} (hlookup : r.lookup? name = some id) {env : Environment}
    (henv : r.get? id = some env) : r.nameOf id = name := by
  obtain ⟨i, hi, hget⟩ := Option.bind_eq_some_iff.1 henv
  obtain rfl := EnvId.userIndex?_eq_some_iff.1 hi
  rw [lookup?] at hlookup
  cases hfind : r.envs.find? (·.name == name) with
  | some found =>
    obtain ⟨j, hj⟩ := List.mem_iff_getElem?.1 (List.mem_of_find?_eq_some hfind)
    have hfound : found.id = .user i := by simpa [hfind] using hlookup
    have hij : j = i := by simpa [EnvId.user] using (hids j found hj).symm.trans hfound
    obtain rfl := Option.some.inj ((hij ▸ hj).symm.trans hget)
    have hname : found.name = name := by simpa using List.find?_some hfind
    simp [nameOf, hget, hname]
  | none =>
    obtain ⟨library, -, heq⟩ : ∃ library, Library.ofName? name = some library ∧
        EnvId.ofLibrary library = .user i := by simpa [hfind] using hlookup
    have hlibrary := EnvId.library?_user i
    rw [← heq, EnvId.library?_ofLibrary] at hlibrary
    cases hlibrary

end Registry

namespace Machine

variable {m m' : Machine} {s : Session}

/-- The import cycles that the environment at a position has reported. -/
def cyclesAt (m : Machine) (i : Nat) : List (List String) :=
  (m.session.alerts[i]?.map Diagnostics.cycles).getD [] ++
    (m.active.filter (·.index = i)).flatMap (·.alerts.cycles)

/-- Reports become alerts, and what is required was found by its name. -/
structure Tells (m : Machine) : Prop where
  alerts : ∀ i, m.cyclesAt i = (m.reports.filter (·.requester = .user i)).map
    (·.path.map m.session.registry.nameOf)
  named : ∀ a b, m.session.registry.Requires a b → ∃ name, m.session.registry.lookup? name = some b

theorem cyclesAt_of_top {f f' : Frame} {rest : List Frame} (i : Nat)
    (halerts : m'.session.alerts = m.session.alerts) (hactive : m.active = f :: rest)
    (hactive' : m'.active = f' :: rest) (hindex : f'.index = f.index)
    (hcycles : f'.alerts.cycles = f.alerts.cycles) : m'.cyclesAt i = m.cyclesAt i := by
  simp only [cyclesAt, halerts, hactive, hactive', List.filter_cons, hindex]
  split <;> simp [hcycles]

/-- A walk that is begun has reported nothing. -/
theorem cyclesAt_begin (m : Machine) (index : Nat) (program : Program) (i : Nat) :
    (m.begin index program).cyclesAt i = m.cyclesAt i := by
  simp only [cyclesAt, begin, Session.checkOut, List.filter_cons]
  split <;> simp [Diagnostics.cycles]

/-- What is required was required before, or was found by its name. -/
theorem Move.requires (h : Move m m')
    (hids : ∀ (i : Nat) env, m.session.registry.envs[i]? = some env → env.id = .user i)
    {a b : EnvId} (hreq : m'.session.registry.Requires a b) :
    m.session.registry.Requires a b ∨ ∃ name, m.session.registry.lookup? name = some b := by
  cases h with
  | start | enter =>
    rw [begin, Session.requires_checkOut] at hreq
    exact .inl hreq
  | @work f rest g synthetic more active keeps =>
    refine .inl ((Registry.requires_modify f.id fun env => ?_) ▸ hreq)
    have hlinkage := congrArg (fun e : Environment => e.requirements) (keeps env)
    exact hlinkage
  | @require f rest target active named =>
    rcases Registry.requires_require (fun env he => hids f.index env (by simpa [Frame.id] using he))
      hreq with hreq | ⟨-, rfl, -⟩
    · exact .inl hreq
    · exact .inr named
  | settle => exact .inl hreq
  | @report f rest target =>
    rw [Registry.requires_markCycle] at hreq
    exact .inl hreq
  | @finish f =>
    rw [Session.requires_checkIn] at hreq
    exact .inl hreq

/-- One move reports what it tells. -/
theorem Tells.move {n : Nat} (h : Tells m) (hs : s.Steady n)
    (hlength : s.alerts.length = s.registry.envs.length) (hrun : Run ⟨s, [], [], []⟩ m)
    (hmove : Move m m') : Tells m' := by
  have hname : m'.session.registry.nameOf = m.session.registry.nameOf :=
    funext (Registry.nameOf_of_names_eq hmove.names)
  have hlookup : m'.session.registry.lookup? = m.session.registry.lookup? :=
    funext (Registry.lookup?_of_names_eq hmove.names)
  have horderly := hrun.orderly
  have hnested : (m.active.map (·.index)).Nodup := by
    have hcalls := horderly.nested
    rwa [calls, List.map_map] at hcalls
  refine ⟨fun i => ?_, fun a b hreq => ?_⟩
  · rw [hname]
    have halerts := h.alerts i
    cases hmove with
    | start idle => exact (cyclesAt_begin m _ _ i).trans halerts
    | enter active =>
      refine (cyclesAt_begin _ _ _ i).trans (Eq.trans (b := m.cyclesAt i) ?_ halerts)
      exact cyclesAt_of_top i rfl active rfl rfl rfl
    | work g synthetic more active keeps nocycle =>
      refine Eq.trans (b := m.cyclesAt i) ?_ halerts
      exact cyclesAt_of_top i rfl active rfl rfl (Diagnostics.cycles_more _ nocycle)
    | require target active =>
      refine Eq.trans (b := m.cyclesAt i) ?_ halerts
      exact cyclesAt_of_top i rfl active rfl rfl rfl
    | settle target active =>
      refine Eq.trans (b := m.cyclesAt i) ?_ halerts
      exact cyclesAt_of_top i rfl active rfl rfl rfl
    | @report f rest target cycle span active =>
      rw [active, List.map_cons, List.nodup_cons] at hnested
      simp only [cyclesAt, active, List.filter_cons, List.filter_append, List.map_append] at halerts ⊢
      by_cases hi : f.index = i
      · -- No other walk is one of the same environment, so the new report is the last.
        have hrest : rest.filter (·.index = i) = [] :=
          List.filter_eq_nil_iff.2 fun g hg hgi =>
            hnested.1 (hi ▸ (of_decide_eq_true hgi) ▸ List.mem_map_of_mem hg)
        simp [hi, hrest, Frame.settle, Frame.id, Diagnostics.cycles_push] at halerts ⊢
        rw [← halerts]
        simp
      · have hid : EnvId.user f.index ≠ .user i := fun heq => hi (by simpa [EnvId.user] using heq)
        simp only [Frame.settle, Frame.id, hi, hid, decide_false] at halerts ⊢
        simpa using halerts
    | @finish f rest out state depth active =>
      rw [← halerts]
      have hmem : (⟨f.index, f.program, f.before, [], {}⟩ : Frame) ∈ m.calls := by
        simp [calls, active]
      obtain ⟨env, registered, -⟩ := horderly.waited _ (horderly.begun _ hmem).1
      have hin : f.index < m.session.alerts.length := by
        rw [horderly.length_alerts, hlength]
        exact (List.getElem?_eq_some_iff.1 (by simpa using registered)).1
      simp only [cyclesAt, Session.checkIn, active, List.filter_cons, List.getElem?_modify]
      by_cases hi : f.index = i
      · subst hi
        simp [hin, Diagnostics.cycles_append]
      · simp [hi]
  · rw [hlookup]
    exact (hmove.requires (hrun.steady hs).ids hreq).elim (h.named a b) fun hnamed => hnamed

theorem Run.tells {n : Nat} (h : Run ⟨s, [], [], []⟩ m) (hs : s.Steady n)
    (hlength : s.alerts.length = s.registry.envs.length) (htells : Tells ⟨s, [], [], []⟩) :
    Tells m := by
  induction h with
  | refl => exact htells
  | tail hbefore hmove ih => exact ih.move hs hlength hbefore hmove

/-! ## Builds -/

/-- The alerts of an `env` declaration are about no cycle. -/
theorem cycles_header (s : Session) (path : String) (program : Program) :
    (s.header path program).2.2.cycles = [] := by
  unfold Session.header
  split
  · next decl _ =>
    dsimp only
    split <;> split <;> rfl
  · rfl

/-- Before a build nothing is required and no cycle was reported. -/
theorem load_quiet (config : Config) (files : List (String × Program)) :
    (∀ a b, ¬(load config files).session.registry.Requires a b) ∧
      (load config files).session.registry.reportedCycles = [] := by
  constructor
  · rintro a b ⟨env, he, hmem⟩
    obtain ⟨i, -, hget⟩ := Option.bind_eq_some_iff.1 he
    rw [((Session.loaded_ofFiles config files).envs i env hget).1] at hmem
    cases hmem
  · rw [load]
    induction files using List.reverseRecOn with
    | nil => rfl
    | append_singleton files file ih =>
      rw [show file = (file.1, file.2) from rfl, Session.ofFiles_append]
      exact ih

theorem load_watched (config : Config) (files : List (String × Program)) :
    Watched (load config files) := by
  obtain ⟨hquiet, hmarked⟩ := load_quiet config files
  refine ⟨⟨fun id => ?_, by simp [stack, load], by simp [stack, load], fun a => hquiet a a,
    fun a b hreq => absurd hreq (hquiet a b), nofun, by simp [load], fun id pending below hsuffix => ?_,
    fun id pending below hsuffix => ?_, fun a b st ha hreq => absurd hreq (hquiet a b), ?_⟩, hmarked⟩
  · refine ⟨nofun, fun hstate => ?_⟩
    obtain ⟨env, he, hwalking⟩ := Option.map_eq_some_iff.1 hstate
    obtain ⟨i, -, hget⟩ := Option.bind_eq_some_iff.1 he
    rw [((Session.loaded_ofFiles config files).envs i env hget).1] at hwalking
    cases hwalking
  · simp [stack, load] at hsuffix
  · simp [stack, load] at hsuffix
  · intro path hchain hclosed _
    obtain ⟨first, rest, rfl, hlast⟩ := hclosed
    have hfirst : first ∈ first :: rest := by simp
    obtain ⟨next, hconsecutive⟩ := IsClosed.after ⟨first, rest, rfl, hlast⟩ hfirst
    exact absurd (rel_of_consecutive hchain hconsecutive) (hquiet _ _)

theorem load_tells (config : Config) (files : List (String × Program)) :
    Tells (load config files) := by
  refine ⟨fun i => ?_, fun a b hreq => absurd hreq ((load_quiet config files).1 a b)⟩
  simp only [cyclesAt, load, Session.alerts_ofFiles]
  cases files[i]? with
  | none => rfl
  | some file => simp [cycles_header]

end Machine

/-- The two environments that an alert about an import cycle is about: the one that reports it and
the second one that it lists. -/
def Registry.cyclePair? (r : Registry) (entry : EnvId × Alert) : Option (Sym2 EnvId) := do
  let names ← entry.2.kind.cycle?
  let target ← names[1]?
  let id ← r.lookup? target
  return s(entry.1, id)

/-- A build that ended, with its reports. -/
structure BuildOutput.Reports (out : BuildOutput) (reports : List CycleReport) : Prop where
  alerts : ∀ (i : Nat) d, out.alerts[i]? = some d → d.cycles =
    (reports.filter (·.requester = .user i)).map (·.path.map out.registry.nameOf)
  complete : ∀ p ∈ reports, ∃ i d, p.requester = .user i ∧ out.alerts[i]? = some d
  valid : ∀ p ∈ reports, p.Valid out.registry.Requires
  named : ∀ p ∈ reports, out.registry.lookup? (out.registry.nameOf p.target) = some p.target
  once : (reports.map CycleReport.key).Nodup
  cycles : ∀ path : List EnvId, path.IsChain out.registry.Requires → IsClosed path →
    ∃ a b, [a, b] <:+: path ∧ ∃ p ∈ reports, p.requester = a ∧ p.target = b

open Machine Session

theorem reports_of_analyze {config : Config} {files : List (String × Program)} {out : BuildOutput}
    (h : analyze config files = .ok out) : ∃ reports, out.Reports reports := by
  have hloaded := loaded_ofFiles config files
  obtain ⟨m, hrun, hidle, hresult⟩ := run_analyze config files
  obtain ⟨programs, hok, -, hdone⟩ := hresult.resolve_right (by simp [h])
  obtain rfl : _ = out := Except.ok.inj (hok.symm.trans h)
  have hwatched := hrun.watched hloaded.steady (load_watched config files)
  have hlength : (ofFiles config files).alerts.length =
      (ofFiles config files).registry.envs.length := by
    rw [hloaded.length]
    exact length_eq_of_isSome fun i => by simp [alerts_ofFiles]
  have htells := hrun.tells hloaded.steady hlength (load_tells config files)
  have hsteady := hrun.steady hloaded.steady
  have hsizes : m.session.alerts.length = files.length ∧
      m.session.registry.envs.length = files.length := by
    refine ⟨hrun.orderly.length_alerts.trans (hlength.trans hloaded.length), ?_⟩
    have hnames := congrArg List.length hrun.names
    simp only [Registry.names, List.length_map] at hnames
    exact hnames.trans hloaded.length
  have hregistered {id : EnvId} {env : Environment} (he : m.session.registry.get? id = some env) :
      ∃ i, id = .user i ∧ i < files.length ∧ m.session.registry.state? id = some .walked := by
    obtain ⟨i, hi, hget⟩ := Option.bind_eq_some_iff.1 he
    obtain rfl := EnvId.userIndex?_eq_some_iff.1 hi
    have hlt : i < files.length := hsizes.2 ▸ (List.getElem?_eq_some_iff.1 hget).1
    obtain ⟨-, env', _, _, hget', hwalked, -⟩ :=
      load_idle_walked hrun hidle (List.getElem?_eq_getElem hlt) (hdone i hlt)
    exact ⟨i, rfl, hlt, by simp [Registry.state?, hget', hwalked]⟩
  refine ⟨m.reports, fun i d hd => ?_, fun p hp => ?_, hwatched.watch.valid, fun p hp => ?_,
    hwatched.watch.once, fun path hchain hclosed => ?_⟩
  · rw [← htells.alerts i]
    simp [cyclesAt, hidle, hd]
  · obtain ⟨⟨st, hst, -⟩, -⟩ := hwatched.watch.started_of_report hp
    obtain ⟨env, he, -⟩ := Option.map_eq_some_iff.1 hst
    obtain ⟨i, hi, hlt, -⟩ := hregistered he
    exact ⟨i, _, hi, List.getElem?_eq_getElem (hsizes.1 ▸ hlt)⟩
  · obtain ⟨-, st, hst, -⟩ := hwatched.watch.started_of_report hp
    obtain ⟨env, he, -⟩ := Option.map_eq_some_iff.1 hst
    obtain ⟨rest, hpath⟩ := (hwatched.watch.valid p hp).ends
    have hchain := (hwatched.watch.valid p hp).chain
    rw [hpath] at hchain
    obtain ⟨name, hlookup⟩ := htells.named _ _ hchain.rel
    rw [Registry.nameOf_of_lookup? hsteady.ids hlookup he]
    exact hlookup
  · refine hwatched.watch.cycles path hchain hclosed fun id hid => ?_
    obtain ⟨next, hconsecutive⟩ := hclosed.after hid
    obtain ⟨env, he, -⟩ := rel_of_consecutive hchain hconsecutive
    exact (hregistered he).choose_spec.2.2

theorem BuildOutput.mem_allAlerts {out : BuildOutput} {id : EnvId} {alert : Alert} :
    (id, alert) ∈ out.allAlerts ↔ ∃ i d, out.alerts[i]? = some d ∧ id = .user i ∧
      alert ∈ d.alerts := by
  simp only [allAlerts, List.mem_flatMap, Prod.exists, List.mem_map, Prod.mk.injEq,
    List.mem_zipIdx_iff_getElem?]
  constructor
  · rintro ⟨d, i, hd, a, ha, rfl, rfl⟩
    exact ⟨i, d, hd, rfl, ha⟩
  · rintro ⟨i, d, hd, rfl, ha⟩
    exact ⟨d, i, hd, alert, ha, rfl, rfl⟩

namespace BuildOutput.Reports

variable {out : BuildOutput} {reports : List CycleReport}

/-- The pairs that the alerts of one environment are about are those of its reports. -/
theorem pairs (h : out.Reports reports) {i : Nat} {d : Diagnostics}
    (hd : out.alerts[i]? = some d) :
    (d.alerts.map ((.user i : EnvId), ·)).filterMap out.registry.cyclePair? =
      (reports.filter (·.requester = .user i)).map fun p => s(p.requester, p.target) := by
  have hcycles : (d.alerts.map ((.user i : EnvId), ·)).filterMap out.registry.cyclePair? =
      d.cycles.filterMap fun names => do
        let target ← names[1]?
        let id ← out.registry.lookup? target
        return s(.user i, id) := by
    rw [Diagnostics.cycles, List.filterMap_filterMap, List.filterMap_map]
    rfl
  rw [hcycles, h.alerts i d hd, List.filterMap_map]
  refine (List.filterMap_congr fun p hp => ?_).trans
    (congrFun (List.filterMap_eq_map (f := fun p : CycleReport => s(p.requester, p.target))) _)
  obtain ⟨hp, hrequester⟩ := List.mem_filter.1 hp
  obtain ⟨rest, hpath⟩ := (h.valid p hp).ends
  have hnamed := h.named p hp
  have hid : p.requester = .user i := of_decide_eq_true hrequester
  simp [hpath, hnamed, hid]

/-- No pair is reported twice. -/
theorem nodup_pairs (h : out.Reports reports) :
    (out.allAlerts.filterMap out.registry.cyclePair?).Nodup := by
  have hkey (p q : CycleReport) (heq : s(p.requester, p.target) = s(q.requester, q.target)) :
      p.key = q.key :=
    Registry.cycleKey_eq_iff.2 (Sym2.eq_iff.1 heq)
  have hinj {p q : CycleReport} (hp : p ∈ reports) (hq : q ∈ reports)
      (heq : s(p.requester, p.target) = s(q.requester, q.target)) : p = q :=
    List.inj_on_of_nodup_map h.once hp hq (hkey p q heq)
  rw [BuildOutput.allAlerts, List.filterMap_flatMap, List.nodup_flatMap]
  constructor
  · rintro ⟨d, i⟩ hmem
    rw [h.pairs (List.mem_zipIdx_iff_getElem?.1 hmem)]
    refine List.Nodup.map_on (fun p hp q hq heq => ?_) ((List.Nodup.of_map _ h.once).filter _)
    exact hinj (List.mem_filter.1 hp).1 (List.mem_filter.1 hq).1 heq
  · have hindices := List.pairwise_map.1 (List.nodup_zipIdx_map_snd out.alerts)
    refine hindices.imp_of_mem fun {x y} hx hy hne pair hpair hpair' => hne ?_
    obtain ⟨d, i⟩ := x
    obtain ⟨e, j⟩ := y
    have hd : out.alerts[i]? = some d := List.mem_zipIdx_iff_getElem?.1 hx
    have he : out.alerts[j]? = some e := List.mem_zipIdx_iff_getElem?.1 hy
    dsimp only at hpair hpair'
    rw [h.pairs hd] at hpair
    rw [h.pairs he] at hpair'
    obtain ⟨p, hp, rfl⟩ := List.mem_map.1 hpair
    obtain ⟨q, hq, heq⟩ := List.mem_map.1 hpair'
    obtain ⟨hp, hi⟩ := List.mem_filter.1 hp
    obtain ⟨hq, hj⟩ := List.mem_filter.1 hq
    obtain rfl := hinj hp hq heq.symm
    have hij := (of_decide_eq_true hi).symm.trans (of_decide_eq_true hj)
    simpa [EnvId.user] using hij

end BuildOutput.Reports

/-- What a build says about import cycles. Each alert lists a path of requirements from the
environment that reports it back to the same one, without a repetition before the last. Every cycle
of requirements has an edge that was reported by the environment that has it. And no two alerts are
about the same two environments, in either order. -/
theorem analyze_reports_cycles {config : Config} {files : List (String × Program)}
    {out : BuildOutput} (h : analyze config files = .ok out) :
    (∀ id alert names, (id, alert) ∈ out.allAlerts → alert.kind = .importCycle names →
      ∃ target rest, names = (id :: target :: rest).map out.registry.nameOf ∧
        (id :: target :: rest).IsChain out.registry.Requires ∧
        (id :: target :: rest).getLast? = some id ∧ (id :: target :: rest).dropLast.Nodup) ∧
    (∀ path : List EnvId, path.IsChain out.registry.Requires → IsClosed path →
      ∃ a b, [a, b] <:+: path ∧ ∃ alert names, (a, alert) ∈ out.allAlerts ∧
        alert.kind = .importCycle (out.registry.nameOf a :: out.registry.nameOf b :: names) ∧
        out.registry.lookup? (out.registry.nameOf b) = some b) ∧
    (out.allAlerts.filterMap out.registry.cyclePair?).Nodup := by
  obtain ⟨reports, hreports⟩ := reports_of_analyze h
  refine ⟨fun id alert names hmem hkind => ?_, fun path hchain hclosed => ?_, hreports.nodup_pairs⟩
  · obtain ⟨i, d, hd, rfl, halert⟩ := BuildOutput.mem_allAlerts.1 hmem
    have hcycle : names ∈ d.cycles :=
      List.mem_filterMap.2 ⟨alert, halert, AlertKind.cycle?_eq_some_iff.2 hkind⟩
    rw [hreports.alerts i d hd] at hcycle
    obtain ⟨p, hp, rfl⟩ := List.mem_map.1 hcycle
    obtain ⟨hp, hrequester⟩ := List.mem_filter.1 hp
    have hid : p.requester = .user i := of_decide_eq_true hrequester
    have hvalid := hreports.valid p hp
    obtain ⟨rest, hpath⟩ := hvalid.ends
    rw [hid] at hpath
    exact ⟨p.target, rest, by rw [hpath], hpath ▸ hvalid.chain, by rw [← hpath, hvalid.closed, hid],
      hpath ▸ hvalid.simple⟩
  · obtain ⟨a, b, hconsecutive, p, hp, rfl, rfl⟩ := hreports.cycles path hchain hclosed
    obtain ⟨i, d, hi, hd⟩ := hreports.complete p hp
    obtain ⟨rest, hpath⟩ := (hreports.valid p hp).ends
    have hcycle : p.path.map out.registry.nameOf ∈ d.cycles := by
      rw [hreports.alerts i d hd]
      exact List.mem_map.2 ⟨p, List.mem_filter.2 ⟨hp, decide_eq_true hi⟩, rfl⟩
    obtain ⟨alert, halert, hkind⟩ := List.mem_filterMap.1 hcycle
    rw [hpath] at hkind
    exact ⟨p.requester, p.target, hconsecutive, alert, rest.map out.registry.nameOf,
      BuildOutput.mem_allAlerts.2 ⟨i, d, hd, hi, halert⟩, AlertKind.cycle?_eq_some_iff.1 hkind,
      hreports.named p hp⟩

/-- The requirements of the environments of a build. -/
def requirementsOf (result : Except CompileError BuildOutput) : List (List EnvId) :=
  match result with
  | .ok out => out.registry.envs.map (·.requirements)
  | .error _ => []

/-- Of two programs that use each other, one reports the other. -/
theorem analyze_reports_cycles_mutual : ∃ out, analyze {} mutualFiles = .ok out ∧
    ∃ a b, [a, b] <:+: [.user 0, .user 1, .user 0] ∧ ∃ alert names, (a, alert) ∈ out.allAlerts ∧
      alert.kind = .importCycle (out.registry.nameOf a :: out.registry.nameOf b :: names) := by
  have hrequirements : requirementsOf (analyze {} mutualFiles) = [[.user 1], [.user 0]] := by
    decide +kernel
  cases hout : analyze {} mutualFiles with
  | error e =>
    rw [hout] at hrequirements
    cases hrequirements
  | ok out =>
    rw [hout] at hrequirements
    have hedge {i : Nat} {id : EnvId}
        (h : (out.registry.envs.map (·.requirements))[i]? = some [id]) :
        out.registry.Requires (.user i) id := by
      rw [List.getElem?_map] at h
      obtain ⟨env, he, hreq⟩ := Option.map_eq_some_iff.1 h
      exact ⟨env, (Registry.get?_user _ _).trans he, by simp [hreq]⟩
    have hchain : [EnvId.user 0, .user 1, .user 0].IsChain out.registry.Requires :=
      .cons_cons (hedge (congrArg (·[0]?) hrequirements))
        (.cons_cons (hedge (congrArg (·[1]?) hrequirements)) (.singleton _))
    obtain ⟨a, b, hconsecutive, alert, names, hmem, hkind, -⟩ :=
      (analyze_reports_cycles hout).2.1 _ hchain ⟨.user 0, [.user 1, .user 0], rfl, rfl⟩
    exact ⟨out, rfl, a, b, hconsecutive, alert, names, hmem, hkind⟩

end HybroidSema
