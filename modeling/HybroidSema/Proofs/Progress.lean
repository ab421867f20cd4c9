import HybroidSema.Proofs.Claimed
import HybroidSema.Proofs.Unreachable

/-!
# What walks without an error have walked

Nothing is permitted at the root, so every statement of a program is walked. A class or entity
whose name another kind of declaration has is looked up in vain, which ends the build. So if a
walk ends without an error, every program that was walked on the way has its classes and entities.

* `Stmt.leaves_nothing`: no statement leaves where nothing is permitted.
* `fatal_of_not_owned`: a class or entity without its name.
* `Session.Progress`: what a walk does to the programs of a session, by induction on the steps
  and on how deep walks nest (`Session.progress_walk`).
-/

namespace HybroidSema

/-! ## The root -/

namespace Stmt

mutual
/-- Where nothing is permitted, no statement leaves. -/
theorem leaves_nothing (s : Stmt) : s.leaves {} = false :=
  match s with
  | .ifChain _ stmts _ _ _ => by
    have hbody := bodyLeaves_nothing stmts
    simp [leaves, hbody]
  | .matching _ arms _ => armsLeave_nothing arms
  | .returning _ _ | .yielding _ _ | .breaking _ | .continuing _ => rfl
  | .env _ | .variable _ | .function _ | .classDecl _ | .entityDecl _ | .enumDecl _
  | .aliasDecl _ | .assign _ _ _ _ | .repeatLoop _ _ _ _ _ _ | .whileLoop _ _ _
  | .forLoop _ _ _ _ _ | .tick _ _ _ | .destroy _ _ _ _ | .use _ | .expr _ | .error _ => rfl
  termination_by structural s

theorem bodyLeaves_nothing (stmts : List Stmt) : bodyLeaves {} stmts = false :=
  match stmts with
  | [] => rfl
  | first :: rest => by
    have hfirst := leaves_nothing first
    have hrest := bodyLeaves_nothing rest
    simp [bodyLeaves, hfirst, hrest]
  termination_by structural stmts

theorem armsLeave_nothing (arms : List MatchArm) :
    (arms.any (·.isDefault) && armsLeave {} arms) = false :=
  match arms with
  | [] => rfl
  | ⟨_, _, stmts, _⟩ :: _ => by
    have hbody := bodyLeaves_nothing stmts
    simp [armsLeave, hbody]
  termination_by structural arms
end

theorem reachable_nothing (stmts : List Stmt) : reachable {} stmts = stmts := by
  induction stmts with
  | nil => rfl
  | cons first rest ih => simp [reachable, leaves_nothing, ih]

theorem unreachable_nothing (stmts : List Stmt) : unreachable {} stmts = [] := by
  induction stmts with
  | nil => rfl
  | cons first rest ih => simp [unreachable, leaves_nothing, ih]

end Stmt

namespace Check

variable {c : Context} {s s' : State} {phase : Phase}

/-- At the root every statement is walked. -/
theorem body_root (h : Live c s {}) (stmts : List Stmt) :
    body stmts false c s = eachStmt stmts c s := by
  rw [body_eq_of_fresh h trivial rfl]
  have hpermits : (({} : ScopeStack).current.permits) = {} := rfl
  rw [hpermits, Stmt.reachable_nothing, Stmt.unreachable_nothing, bind_apply]
  cases eachStmt stmts c s <;> rfl

/-- Every statement of a program is walked from a state at the root, in steps from the first to
the last. -/
theorem eachStmt_visits (h : Live c s {}) {stmts out : List Stmt}
    (hrun : eachStmt stmts c s = .ok (out, s')) :
    ∀ st ∈ stmts, ∃ t t' st', Live c t {} ∧ Steps c .checking s t ∧
      stmt st c t = .ok (st', t') ∧ Steps c .checking t' s' := by
  induction stmts generalizing s out with
  | nil => simp
  | cons first rest ih =>
    have hstmt : Leaves .checking (stmt first) (first.leaves ·) := leaves_stmt first
    have hclear : Quiet .checking clearNarrowings := quiet_clearNarrowings
    have hbody (stmts : List Stmt) : Leaves .checking (body stmts false) (Stmt.bodyLeaves · stmts) :=
      leaves_body stmts false
    obtain ⟨first', t, hfirst, hrest⟩ := bind_eq_ok hrun
    obtain ⟨⟨⟩, u, hclear', hrest'⟩ := bind_eq_ok hrest
    obtain ⟨out', v, hothers, hpure⟩ := bind_eq_ok hrest'
    cases hpure
    obtain ⟨hsteps, x, hx, hl⟩ := (hstmt c s {} h trivial (.inl rfl)).apply hfirst
    obtain rfl := hx.silent (Stmt.leaves_nothing first)
    obtain ⟨hsteps', hl'⟩ := (hclear c t _ hl).apply hclear'
    rw [ScopeStack.addExits_empty] at hl'
    obtain ⟨hafter, -⟩ := (hbody rest c u {} hl' trivial (.inl rfl)).apply
      ((body_root hl' rest).trans hothers)
    intro st hst
    rcases List.mem_cons.1 hst with rfl | hst
    · exact ⟨s, t, first', h, .refl, hfirst, hsteps'.trans hafter⟩
    · obtain ⟨w, w', st', hlw, hto, hw, hfrom⟩ := ih hl' hothers st hst
      exact ⟨w, w', st', hlw, (hsteps.trans hsteps').trans hto, hw, hfrom⟩

/-! ## Classes and entities without their names -/

theorem atRoot_eq_ok (h : Live c s {}) {what : String} {span : Span} {isRoot : Bool}
    (hrun : atRoot what span c s = .ok (isRoot, s')) : isRoot = true ∧ s' = s := by
  obtain ⟨stack, t, hscopes, hrest⟩ := bind_eq_ok hrun
  obtain ⟨rfl, hroot, -⟩ := (runs_scopes h).apply hscopes
  have hisRoot : stack.isRoot = true := by
    rw [← ScopeStack.outline_isRoot, hroot]
    rfl
  simp only [hisRoot, if_true] at hrest
  cases hrest
  exact ⟨rfl, rfl⟩

/-- A class at the root that is not registered under its name. -/
theorem fatal_classDecl (h : Live c s {}) {env : Environment} (hown : s.own? c = some env)
    {decl : ClassDecl} (hnone : env.classes.get? decl.name.name = none) {out : Stmt}
    (hrun : stmt (.classDecl decl) c s = .ok (out, s')) : s'.fatal ≠ none := by
  obtain ⟨name, isPub, fields, methods, constructor, span⟩ := decl
  unfold stmt at hrun
  obtain ⟨isRoot, t, hroot, hrest⟩ := bind_eq_ok hrun
  obtain ⟨rfl, rfl⟩ := atRoot_eq_ok h hroot
  obtain ⟨found, u, hfound, hrest'⟩ := bind_eq_ok hrest
  obtain ⟨env', v, henv, hmatch⟩ := bind_eq_ok hfound
  obtain ⟨rfl, hown'⟩ := environment_eq_ok henv
  obtain rfl := Option.some.inj (hown.symm.trans hown')
  simp only [hnone] at hmatch
  cases hmatch
  cases hrest'
  cases hf : v.fatal <;> simp [hf]

/-- An entity at the root that is not registered under its name. -/
theorem fatal_entityDecl (h : Live c s {}) {env : Environment} (hown : s.own? c = some env)
    {decl : EntityDecl} (hnone : env.entities.get? decl.name.name = none) {out : Stmt}
    (hrun : stmt (.entityDecl decl) c s = .ok (out, s')) : s'.fatal ≠ none := by
  obtain ⟨name, isPub, fields, methods, functions, span⟩ := decl
  unfold stmt at hrun
  obtain ⟨isRoot, t, hroot, hrest⟩ := bind_eq_ok hrun
  obtain ⟨rfl, rfl⟩ := atRoot_eq_ok h hroot
  obtain ⟨found, u, hfound, hrest'⟩ := bind_eq_ok hrest
  obtain ⟨env', v, henv, hmatch⟩ := bind_eq_ok hfound
  obtain ⟨rfl, hown'⟩ := environment_eq_ok henv
  obtain rfl := Option.some.inj (hown.symm.trans hown')
  simp only [hnone] at hmatch
  cases hmatch
  cases hrest'
  cases hf : v.fatal <;> simp [hf]

/-- A statement that is walked at the root without an error has the name that it declares. -/
theorem ownsContainer_of_run (h : Live c s {}) {env : Environment} {p : Program}
    (hown : s.own? c = some env) (hp : env.Declares p) {st out : Stmt}
    (hrun : stmt st c s = .ok (out, s')) (hfatal : s'.fatal = none) :
    p.ownsContainer st = true := by
  cases st with
  | classDecl decl =>
    simp only [Program.ownsContainer, Stmt.typeName?, decide_eq_true_eq, ← hp .classDecl]
    by_contra hclass
    exact fatal_classDecl h hown (Option.not_isSome_iff_eq_none.1 hclass) hrun hfatal
  | entityDecl decl =>
    simp only [Program.ownsContainer, Stmt.typeName?, decide_eq_true_eq, ← hp .entityDecl]
    by_contra hentity
    exact fatal_entityDecl h hown (Option.not_isSome_iff_eq_none.1 hentity) hrun hfatal
  | _ => rfl

/-- The statements that a program is checked by: all but a leading `env` declaration. -/
theorem program_visits (h : Live c s {}) {p out : Program}
    (hrun : Check.program p c s = .ok (out, s')) :
    ∀ st ∈ p, (∃ decl, st = .env decl) ∨ ∃ t t' st', Live c t {} ∧ Steps c .checking s t ∧
      stmt st c t = .ok (st', t') ∧ Steps c .checking t' s' := by
  intro st hst
  unfold Check.program at hrun
  split at hrun
  · next decl rest =>
    obtain ⟨out', t, hbody, hpure⟩ := bind_eq_ok hrun
    cases hpure
    rcases List.mem_cons.1 hst with rfl | hst
    · exact .inl ⟨decl, rfl⟩
    · exact .inr (eachStmt_visits h ((body_root h rest).symm.trans hbody) st hst)
  · exact .inr (eachStmt_visits h ((body_root h p).symm.trans hrun) st hst)

/-- A program that is walked in a new environment without an error has its classes and
entities. -/
theorem ownsContainers_of_run (h : Live c s {}) {env : Environment} (hown : s.own? c = some env)
    (hnew : env.Declares []) {p out : Program}
    (hrun : Session.walkProgram p c s = .ok (out, s')) (hfatal : s'.fatal = none) :
    p.ownsContainers = true := by
  obtain ⟨counts, t, hdeclare, hcheck⟩ := bind_eq_ok hrun
  obtain ⟨_, _, _, _, -, -, -, -, -, hl⟩ := (runs_declare h p).apply hdeclare
  obtain ⟨t₁, t₂, types, himport, hclaim, hfill⟩ := declare_eq_ok hdeclare
  obtain ⟨-, env₁, hown₁, hp₁⟩ := declares_declare h hown hnew himport hclaim hfill
  refine List.all_eq_true.2 fun st hst => ?_
  rcases program_visits hl hcheck st hst with ⟨decl, rfl⟩ | ⟨u, u', st', hlu, hto, hst', hfrom⟩
  · rfl
  · obtain ⟨env₂, hown₂, hp₂⟩ := Steps.declares hl hto nofun hown₁ hp₁
    refine ownsContainer_of_run hlu hown₂ hp₂ hst' ?_
    by_contra hne
    exact Steps.fatal_ne hfrom hne hfatal

end Check

/-! ## Progress of a session -/

namespace Session

open Check

/-- The environment at a position waits to be walked. -/
def WaitsAt (s : Session) (i : Nat) : Prop :=
  ∃ env, s.registry.get? (.user i) = some env ∧ env.state = .notWalked

/-- The slot of a program is not empty. -/
def Filled (s : Session) (i : Nat) : Prop := ∃ p, s.programs[i]? = some (some p)

/-- What walks do to the programs of a session: no slot is emptied for good, the program of an
environment that waits is untouched, and if there was no error then every program that was
walked has its classes and entities. -/
structure Progress (clean : Prop) (s s' : Session) : Prop where
  length : s'.programs.length = s.programs.length
  filled : ∀ i, s.Filled i → s'.Filled i
  still : ∀ i, s'.WaitsAt i → s.WaitsAt i
  waiting : ∀ i, s'.WaitsAt i → s'.programs[i]? = s.programs[i]?
  owns : clean → ∀ i p, s.WaitsAt i → s.programs[i]? = some (some p) → ¬s'.WaitsAt i →
    Program.ownsContainers p = true

variable {s t u : Session} {clean clean' : Prop}

theorem Progress.of_same (hprograms : t.programs = s.programs)
    (hwaits : ∀ i, t.WaitsAt i ↔ s.WaitsAt i) : Progress clean s t :=
  ⟨by rw [hprograms], fun i ⟨p, hp⟩ => ⟨p, by rw [hprograms]; exact hp⟩, fun i => (hwaits i).1,
    fun i _ => by rw [hprograms], fun _ i _ hi _ hnot => absurd ((hwaits i).2 hi) hnot⟩

theorem Progress.trans (h : Progress clean s t) (h' : Progress clean' t u)
    (hclean : clean' → clean) : Progress clean' s u := by
  refine ⟨h'.length.trans h.length, fun i hi => h'.filled i (h.filled i hi),
    fun i hi => h.still i (h'.still i hi),
    fun i hi => (h'.waiting i hi).trans (h.waiting i (h'.still i hi)), ?_⟩
  intro hc i p hs hp hnot
  by_cases ht : t.WaitsAt i
  · exact h'.owns hc i p ht ((h.waiting i ht).trans hp) hnot
  · exact h.owns (hclean hc) i p hs hp ht

theorem Progress.weaken (h : Progress clean s t) (hclean : clean' → clean) :
    Progress clean' s t :=
  ⟨h.length, h.filled, h.still, h.waiting, fun hc => h.owns (hclean hc)⟩

/-- Walking another environment makes progress. -/
def Progressive (walk : EnvId → Session → Except CompileError (Option CompileError × Session)) :
    Prop :=
  ∀ target (s : Session) result s', s.WaitsNew → walk target s = .ok (result, s') →
    Progress (result = none) s s'

end Session

namespace Check

open Session

variable {c : Context} {s s' : State} {o : ScopeStack} {phase : Phase} {clean : Prop}

theorem Edit.progress {f : Environment → Environment} (hedit : Edit c phase s f) :
    Progress clean s.session (s.modifyOwn c f).session := by
  refine .of_same rfl fun i => ?_
  unfold WaitsAt
  by_cases hi : EnvId.user i = c.env
  · simp only [State.modifyOwn, hi, Registry.get?_modify_self, Option.map_eq_some_iff]
    constructor
    · rintro ⟨_, ⟨env, he, rfl⟩, hs⟩
      exact ⟨env, he, hedit.state_eq env ▸ hs⟩
    · rintro ⟨env, he, hs⟩
      exact ⟨f env, ⟨env, he, rfl⟩, (hedit.state_eq env).trans hs⟩
  · simp only [State.modifyOwn, Registry.get?_modify_ne _ f hi]

theorem Ensures.progress {target : EnvId} (h : Live c s o) (hw : Progressive c.walk)
    (hensures : Ensures c target s s') : Progress (s'.fatal = none) s.session s'.session := by
  cases hensures with
  | report cycle span =>
    have henvs := s.session.registry.envs_markCycle c.env target
    exact .of_same rfl fun i => by
      simp only [WaitsAt, State.reportCycle, Registry.get?_of_envs_eq henvs]
  | walk result session _ _ _ hrun =>
    refine (hw target s.session result session h.waitsNew hrun).weaken fun hclean => ?_
    cases result with
    | none => rfl
    | some error => cases hf : s.fatal <;> simp [hf] at hclean
  | _ => exact .of_same rfl fun _ => .rfl

theorem Step.progress (h : Live c s o) (hw : Progressive c.walk) (hstep : Step c phase s s') :
    Progress (s'.fatal = none) s.session s'.session := by
  cases hstep with
  | edit f hedit => exact hedit.progress
  | ensure target _ hensures => exact hensures.progress h hw
  | link target allowed named hensures =>
    have hedit : Edit c phase s (·.require target) := .require target allowed named
    obtain ⟨-, o', hl⟩ := hedit.frames h
    have hrequire : Progress True s.session (s.modifyOwn c (·.require target)).session :=
      hedit.progress
    exact hrequire.trans (hensures.progress hl hw) fun _ => trivial
  | _ => exact .of_same rfl fun _ => .rfl

/-- A walk makes progress step by step. -/
theorem Route.progress (h : Live c s o) (hw : Progressive c.walk) (hroute : Route c s s') :
    Progress (s'.fatal = none) s.session s'.session :=
  hroute.keeps (I := fun t => Progress (t.fatal = none) s.session t.session) h
    (fun _ _ _ _ hl hstep ih => ih.trans (hstep.progress hl hw) fun hclean => by
      by_contra hne
      exact hstep.fatal_ne hne hclean)
    (.of_same rfl fun _ => .rfl)

end Check

namespace Session

open Check

/-- Between the start and the end of a walk, its own slot is empty and its environment is being
walked. -/
theorem Progress.around {s : Session} {t : State} {index : Nat} {program out : Program}
    (hslot : s.programs[index]? = some (some program))
    (h : Progress (t.fatal = none) (s.checkOut (.user index) index) t.session)
    (hown : t.fatal = none → program.ownsContainers = true) :
    Progress (t.fatal = none) s
      (t.session.checkIn (.user index) index out t.alerts) := by
  have hbefore {i : Nat} (hi : i ≠ index) :
      ((s.checkOut (.user index) index).WaitsAt i ↔ s.WaitsAt i) ∧
        (s.checkOut (.user index) index).programs[i]? = s.programs[i]? := by
    have hid : EnvId.user i ≠ .user index := fun heq => hi (by simpa [EnvId.user] using heq)
    refine ⟨?_, List.getElem?_set_ne (Ne.symm hi)⟩
    simp only [WaitsAt, checkOut, Registry.get?_modify_ne _ _ hid]
  have hafter {i : Nat} (hi : i ≠ index) :
      ((t.session.checkIn (.user index) index out t.alerts).WaitsAt i ↔ t.session.WaitsAt i) ∧
        (t.session.checkIn (.user index) index out t.alerts).programs[i]? =
          t.session.programs[i]? := by
    have hid : EnvId.user i ≠ .user index := fun heq => hi (by simpa [EnvId.user] using heq)
    refine ⟨?_, List.getElem?_set_ne (Ne.symm hi)⟩
    simp only [WaitsAt, checkIn, Registry.get?_modify_ne _ _ hid]
  have hdone {i : Nat} (hw : (t.session.checkIn (.user index) index out t.alerts).WaitsAt i) :
      i ≠ index := by
    rintro rfl
    obtain ⟨env, he, hs⟩ := hw
    rw [checkIn, Registry.get?_modify_self] at he
    obtain ⟨own, -, rfl⟩ := Option.map_eq_some_iff.1 he
    cases hs
  have hlength : t.session.programs.length = s.programs.length := by
    rw [h.length, checkOut, List.length_set]
  have hin : index < t.session.programs.length := by
    rw [hlength]
    exact (List.getElem?_eq_some_iff.1 hslot).1
  refine ⟨by rw [checkIn, List.length_set, hlength], fun i hi => ?_, fun i hi => ?_,
    fun i hi => ?_, fun hc i p hi hp hnot => ?_⟩
  · by_cases heq : i = index
    · subst heq
      exact ⟨out, List.getElem?_set_self hin⟩
    · obtain ⟨p, hp⟩ := h.filled i (by
        obtain ⟨p, hp⟩ := hi
        exact ⟨p, (hbefore heq).2.trans hp⟩)
      exact ⟨p, (hafter heq).2.trans hp⟩
  · have hne := hdone hi
    exact (hbefore hne).1.1 (h.still i ((hafter hne).1.1 hi))
  · have hne := hdone hi
    rw [(hafter hne).2, h.waiting i ((hafter hne).1.1 hi), (hbefore hne).2]
  · by_cases heq : i = index
    · subst heq
      obtain rfl : program = p := by
        rw [hslot] at hp
        simpa using hp
      exact hown hc
    · exact h.owns hc i p ((hbefore heq).1.2 hi) ((hbefore heq).2.trans hp)
        fun hw => hnot ((hafter heq).1.2 hw)

/-- Every walk makes progress. -/
theorem progress_walk (depth : Nat) : Progressive (Session.walk depth) := by
  induction depth with
  | zero =>
    intro id s result s' _ hrun
    rcases walk_cases 0 id s with ⟨r, hsame⟩ | ⟨_, _, _, _, _, _, _, _, hdepth, _⟩
    · rw [hsame] at hrun
      cases hrun
      exact .of_same rfl fun _ => .rfl
    · cases hdepth
  | succ depth ih =>
    intro id s result s' hs hrun
    rcases walk_cases (depth + 1) id s with ⟨r, hsame⟩ |
      ⟨index, env, program, depth', henv, hwaits, rfl, hslot, hdepth, hwalk⟩
    · rw [hsame] at hrun
      cases hrun
      exact .of_same rfl fun _ => .rfl
    · cases hdepth
      have hnew := hs _ env henv hwaits
      have hlive := live_checkOut (framing_walk depth) hs henv hnew index
      obtain ⟨out, t, hprogram, hroute, -⟩ := runs_walkProgram hlive program
      have hcheck : (s.checkOut (.user index) index).runCheck (.user index) (Session.walk depth)
          (walkProgram program) = .ok (out, t) := hprogram
      rw [hwalk, hcheck] at hrun
      cases hrun
      refine .around hslot (Route.progress hlive ih hroute) fun hfatal => ?_
      obtain ⟨own, hown, -⟩ := hlive.own
      refine ownsContainers_of_run hlive hown ?_ hprogram hfatal
      have hself := s.registry.get?_modify_self (.user index) fun env =>
        { env with state := .walking }
      rw [henv] at hself
      obtain rfl := Option.some.inj (hown.symm.trans hself)
      exact hnew.declares_nil

end Session

end HybroidSema
