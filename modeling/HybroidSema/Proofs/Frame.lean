import HybroidSema.Proofs.Declarations
import HybroidSema.Proofs.TreeScopes
import HybroidSema.Session.Build

/-!
# Walks leave other environments alone

An environment that is walked on demand is walked to its end while the one that asked for it is
suspended. The suspended environment, and every other one that was started before, is the same
afterwards, and so is every one that still waits.

* `runs_declare` and `runs_walkProgram`: a walk runs through its phases.
* `Session.framing_walk`: by induction on how deep walks may nest.
-/

namespace HybroidSema

namespace Check

variable {c : Context} {s : State} {o : ScopeStack}

/-- The declarations of a program are registered phase by phase. -/
theorem runs_declare (h : Live c s o) (program : Program) :
    Runs (Declare.program program) c s fun _ s' =>
      ∃ s₀ s₁ s₂ s₃, Steps c .importing s s₀ ∧ Steps c .claiming s₀ s₁ ∧
        Steps c .resolving s₁ s₂ ∧ Steps c .declaring s₂ s₃ ∧ Steps c .binding s₃ s' ∧
        Live c s' o := by
  refine (Declare.quiet_importAll program c s o h).bind fun _ t ⟨ht, hl⟩ => ?_
  refine (Declare.quiet_countEach Declare.quiet_claimType program c t o hl).bind
    fun types u ⟨hu, hl⟩ => ?_
  exact (Declare.runs_fillIn hl program types).mono fun _ _ ⟨s₂, s₃, hs₂, hs₃, hs', hl⟩ =>
    ⟨t, u, s₂, s₃, ht, hu, hs₂, hs₃, hs', hl⟩

/-- The statements of a program are checked in the root scope. -/
theorem runs_program (h : Live c s {}) (program : Program) :
    Runs (Check.program program) c s fun _ s' => Steps c .checking s s' ∧ ∃ o', Live c s' o' := by
  have hbody (stmts : List Stmt) : Runs (body stmts false) c s fun _ s' =>
      Steps c .checking s s' ∧ ∃ o', Live c s' o' :=
    (leaves_body stmts false c s _ h trivial (.inl rfl)).mono fun _ _ ⟨hs, _, _, hl⟩ =>
      ⟨hs, _, hl⟩
  unfold Check.program
  split
  · exact (hbody _).bind fun _ _ hs => .pure hs
  · exact hbody _

/-- A walk runs through its phases. -/
theorem runs_walkProgram (h : Live c s {}) (program : Program) :
    Runs (Session.walkProgram program) c s fun _ s' => Route c s s' ∧ ∃ o', Live c s' o' := by
  refine (runs_declare h program).bind
    fun _ t ⟨_, _, _, _, himport, hclaim, hresolve, hfill, hbind, hl⟩ => ?_
  refine (runs_program hl program).mono fun _ u ⟨hcheck, hl'⟩ => ⟨?_, hl'⟩
  exact ((((himport.route.trans hclaim.route).trans hresolve.route).trans hfill.route).trans
    hbind.route).trans hcheck.route

end Check

namespace Session

open Check

variable {s : Session} {id : EnvId} {env : Environment}

/-- At the start of a walk its environment is the only one that changed. -/
theorem live_checkOut {walk : EnvId → Session → Except CompileError (Option CompileError × Session)}
    (hwalk : Framing walk) (hs : s.WaitsNew) (henv : s.registry.get? id = some env)
    (hnew : env.IsNew) (index : Nat) :
    Live { env := id, walk := walk } { session := s.checkOut id index } {} := by
  have hself := s.registry.get?_modify_self id fun env => { env with state := .walking }
  rw [henv] at hself
  refine ⟨⟨_, hself, nofun, ?_⟩, fun other env' he hwaits => ?_, hwalk⟩
  · rw [hnew]
    rfl
  · by_cases hid : other = id
    · subst hid
      obtain rfl := Option.some.inj (hself.symm.trans he)
      cases hwaits
    · rw [checkOut, Registry.get?_modify_ne _ _ hid] at he
      exact hs other env' he hwaits

/-- What the steps of a walk leave alone, the walk as a whole leaves alone. -/
theorem keeps_checkIn {c : Context} {s' : State} (henv : s.registry.get? c.env = some env)
    (hwaits : env.state = .notWalked) {index : Nat} (program : Program)
    (hframes : State.Frames c { session := s.checkOut c.env index } s') :
    s.Keeps (s'.session.checkIn c.env index program s'.alerts) := by
  refine ⟨hframes.config, fun id other he hs => ?_, fun id other he hs => ?_⟩
  · have hid : id ≠ c.env := by
      rintro rfl
      obtain rfl := Option.some.inj (henv.symm.trans he)
      exact hs hwaits
    rw [checkIn, Registry.get?_modify_ne _ _ hid]
    exact hframes.started id other hid
      ((Registry.get?_modify_ne _ _ hid).trans he) hs
  · by_cases hid : id = c.env
    · subst hid
      rw [checkIn, Registry.get?_modify_self] at he
      obtain ⟨own, -, rfl⟩ := Option.map_eq_some_iff.1 he
      cases hs
    · rw [checkIn, Registry.get?_modify_ne _ _ hid] at he
      have hbefore := hframes.waiting id other he hs
      rwa [checkOut, Registry.get?_modify_ne _ _ hid] at hbefore

/-- What a walk does: nothing to the session, or it checks the program of an environment that
waits. -/
theorem walk_cases (depth : Nat) (id : EnvId) (s : Session) :
    (∃ result, s.walk depth id = .ok (result, s)) ∨
    ∃ index env program depth', s.registry.get? id = some env ∧ env.state = .notWalked ∧
      id = .user index ∧ s.programs[index]? = some (some program) ∧ depth = depth' + 1 ∧
      s.walk depth id = (do
        let (program, state) ←
          (s.checkOut id index).runCheck id (walk depth') (walkProgram program)
        return (state.fatal, state.session.checkIn id index program state.alerts)) := by
  unfold walk
  split
  · next index env hindex henv =>
    split
    · exact .inl ⟨_, rfl⟩
    · next hstate =>
      split
      · next program depth' hprogram =>
        exact .inr ⟨index, env, program, depth', henv, by simpa using hstate,
          EnvId.userIndex?_eq_some_iff.1 hindex, hprogram, rfl, rfl⟩
      · exact .inl ⟨_, rfl⟩
  · exact .inl ⟨_, rfl⟩

/-- Walking an environment succeeds, and leaves started environments alone. -/
theorem framing_walk (depth : Nat) : Framing (Session.walk depth) := by
  induction depth with
  | zero =>
    intro id s hs
    rcases walk_cases 0 id s with ⟨result, hrun⟩ | ⟨_, _, _, _, _, _, _, _, hdepth, _⟩
    · exact ⟨result, s, hrun, .refl s⟩
    · cases hdepth
  | succ depth ih =>
    intro id s hs
    rcases walk_cases (depth + 1) id s with ⟨result, hrun⟩ |
      ⟨index, env, program, depth', henv, hwaits, _, _, hdepth, hwalk⟩
    · exact ⟨result, s, hrun, .refl s⟩
    · cases hdepth
      have hlive := live_checkOut ih hs henv (hs id env henv hwaits) index
      obtain ⟨walked, state, hrun, hroute, -⟩ := runs_walkProgram hlive program
      obtain ⟨hframes, -⟩ := Route.frames hlive hroute
      have hcheck : (s.checkOut id index).runCheck id (Session.walk depth)
          (walkProgram program) = .ok (walked, state) := hrun
      refine ⟨state.fatal, _, ?_, keeps_checkIn henv hwaits walked hframes⟩
      rw [hwalk, hcheck]
      rfl

end Session

end HybroidSema
