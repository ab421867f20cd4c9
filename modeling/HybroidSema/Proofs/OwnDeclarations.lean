import HybroidSema.Proofs.RootExits

/-!
# Names that are declared once

A walk fails if it reports an error or meets one that ends the build, and it cannot recover. A second
declaration of a type name is an error, so in a walk that has not failed every class and entity of the
program is found under its name, with what it registered.

* `Check.State.Failed`: the walk cannot succeed; `Route.failed`: nor can it later.
* `Program.ClaimsOnce`: no two declarations claim a type name; `claimsOnce_declare`: or the walk fails.
* `Check.Declared`: what is known of the own declarations while bodies are checked.
* `Declared.ownClass?` and `Declared.ownEntity?`: a declaration at the root is found.
-/

namespace HybroidSema

/-! ## Failures -/

namespace Diagnostics

theorem hasErrors_iff (d : Diagnostics) :
    d.hasErrors = true ↔ ∃ a ∈ d.alerts, a.isError = true := by
  simp [hasErrors, errorCount, errors, List.length_pos_iff_exists_mem]

theorem hasErrors_of_prefix {d d' : Diagnostics} (h : d.alerts <+: d'.alerts)
    (herrors : d.hasErrors = true) : d'.hasErrors = true := by
  obtain ⟨a, ha, herror⟩ := d.hasErrors_iff.1 herrors
  exact d'.hasErrors_iff.2 ⟨a, h.subset ha, herror⟩

end Diagnostics

namespace Check

variable {c : Context} {s s' : State} {o : ScopeStack} {phase : Phase} {p : Program}

/-- The walk has reported an error, or met one that ends the build. -/
def State.Failed (s : State) : Prop := s.alerts.hasErrors = true ∨ s.fatal ≠ none

theorem Step.failed (hstep : Step c phase s s') (hs : s.Failed) : s'.Failed :=
  hs.imp (Diagnostics.hasErrors_of_prefix (Steps.alerts_prefix (.single hstep))) hstep.fatal_ne

theorem Route.failed (hroute : Route c s s') (hs : s.Failed) : s'.Failed := by
  induction hroute with
  | refl => exact hs
  | tail _ hstep ih =>
    obtain ⟨phase, hstep⟩ := hstep
    exact hstep.failed ih

theorem alert_failed {a : Alert} {u : Unit} (herror : a.isError = true)
    (hrun : alert a c s = .ok (u, s')) : s'.Failed := by
  cases hrun
  exact .inl ((Diagnostics.hasErrors_iff _).2 ⟨a, by simp [Diagnostics.push], herror⟩)

theorem report_failed {kind : AlertKind} {span : Span} {u : Unit} (herror : kind.severity = .error)
    (hrun : report kind span c s = .ok (u, s')) : s'.Failed :=
  alert_failed (by simp [Alert.isError, Alert.severity, herror]) hrun

theorem fail_failed {error : CompileError} {u : Unit} (hrun : fail error c s = .ok (u, s')) :
    s'.Failed := by
  cases hrun
  exact .inr (by simp)

end Check

/-! ## Names that are claimed once -/

/-- No two declarations claim the same type name. -/
def Program.ClaimsOnce (p : Program) : Prop :=
  p.Pairwise fun a b => ∀ x ∈ a.typeIdent?, ∀ y ∈ b.typeIdent?, x.name ≠ y.name

namespace Program.ClaimsOnce

variable {p : Program}

/-- The statements of two declarations of a name are the same. -/
theorem eq (h : p.ClaimsOnce) {a b : Stmt} (ha : a ∈ p) (hb : b ∈ p) {x y : Ident}
    (hx : a.typeIdent? = some x) (hy : b.typeIdent? = some y) (hname : x.name = y.name) :
    a = b := by
  by_contra hne
  have hsymm : Std.Symm fun a b : Stmt =>
      ∀ x ∈ a.typeIdent?, ∀ y ∈ b.typeIdent?, x.name ≠ y.name :=
    ⟨fun _ _ h y hy x hx => (h x hx y hy).symm⟩
  exact List.Pairwise.forall h ha hb hne x hx y hy hname

theorem type? (h : p.ClaimsOnce) {stmt : Stmt} (hstmt : stmt ∈ p) {id : Ident}
    (hid : stmt.typeIdent? = some id) : p.type? id.name = some id := by
  cases hfound : p.type? id.name with
  | none =>
    have hnone := List.find?_eq_none.1 hfound id (List.mem_filterMap.2 ⟨stmt, hstmt, hid⟩)
    simp at hnone
  | some other =>
    obtain ⟨stmt', hstmt', hother⟩ := List.mem_filterMap.1 (List.mem_of_find?_eq_some hfound)
    have hname : other.name = id.name := by simpa using List.find?_some hfound
    obtain rfl := h.eq hstmt' hstmt hother hid hname
    exact hother.symm.trans hid

end Program.ClaimsOnce

/-! ## Registered once -/

namespace Declare

open Check

variable {c : Context} {s s' : State} {o : ScopeStack} {env : Environment} {p claimed : Program}

/-- A claim for a taken name is refused, and that is an error. -/
theorem claim_failed {name : Ident} {what : String} {free : Bool} (hown : s.own? c = some env)
    (htaken : (env.declaredSpan? name.name).isSome = true)
    (hrun : claim name what c s = .ok (free, s')) : free = false ∧ s'.Failed := by
  obtain ⟨found, t, hread, hrest⟩ := bind_eq_ok hrun
  obtain ⟨rfl, hfound⟩ := environment_eq_ok hread
  obtain rfl := Option.some.inj (hown.symm.trans hfound)
  obtain ⟨first, hfirst⟩ := Option.isSome_iff_exists.1 htaken
  simp only [hfirst] at hrest
  obtain ⟨_, u, halert, hpure⟩ := bind_eq_ok hrest
  cases hpure
  exact ⟨rfl, alert_failed rfl halert⟩

/-- A statement that declares a taken type name fails the walk. -/
theorem claimType_failed {stmt : Stmt} {id : Ident} {n : Nat} (hid : stmt.typeIdent? = some id)
    (hown : s.own? c = some env) (htaken : (env.declaredSpan? id.name).isSome = true)
    (hrun : claimType stmt c s = .ok (n, s')) : s'.Failed := by
  have hclaimed {what : String} {add : Check Nat}
      (hrun : (do if ← claim id what then add else return 0) c s = .ok (n, s')) : s'.Failed := by
    obtain ⟨free, t, hclaim, hrest⟩ := bind_eq_ok hrun
    obtain ⟨rfl, hfailed⟩ := claim_failed hown htaken hclaim
    cases hrest
    exact hfailed
  cases stmt <;> cases hid <;> exact hclaimed hrun

/-- One more statement claims a name that is free, or the walk fails. -/
theorem claimsOnce_claimType {stmt : Stmt} {n : Nat} (hl : Live c s o) (hown : s.own? c = some env)
    (henv : env.Registers p claimed [] []) (honce : s.Failed ∨ claimed.ClaimsOnce)
    (hrun : claimType stmt c s = .ok (n, s')) :
    s'.Failed ∨ Program.ClaimsOnce (claimed ++ [stmt]) := by
  have hsteps := ((quiet_claimType stmt c s o hl).apply hrun).1
  rcases honce with hfailed | honce
  · exact .inl (hsteps.route.failed hfailed)
  by_cases htaken : ∃ id, stmt.typeIdent? = some id ∧ (env.declaredSpan? id.name).isSome = true
  · obtain ⟨id, hid, htaken⟩ := htaken
    exact .inl (claimType_failed hid hown htaken hrun)
  · refine .inr (List.pairwise_append.2 ⟨honce, List.pairwise_singleton _ _, ?_⟩)
    intro before hbefore last hlast x hx y hy hname
    obtain rfl := List.mem_singleton.1 hlast
    refine htaken ⟨y, hy, ?_⟩
    rw [henv.types, ← hname, honce.type? hbefore hx]
    rfl

/-- Once a program is registered in a new environment, no type name is claimed twice, or the walk
has failed. -/
theorem claimsOnce_declare (hl : Live c s o) (hown : s.own? c = some env)
    (hnew : env.Registers p [] [] [] ∧ env.scopes.RootFrom p) {counts : Counts}
    (hrun : Declare.program p c s = .ok (counts, s')) : s'.Failed ∨ p.ClaimsOnce := by
  obtain ⟨s₁, s₂, types, himport, hclaim, hfill⟩ := declare_eq_ok hrun
  have himports : Quiet .importing (importAll p) := quiet_importAll p
  obtain ⟨hsteps, hl₁⟩ := (himports c s o hl).apply himport
  have hstart : Registering c o p [] [] [] s₁ :=
    ⟨hl₁, Steps.registers_rootFrom hl hsteps (.inl rfl) hown hnew⟩
  obtain ⟨hregistering, honce⟩ := countEach_induct
    (I := fun before t => Registering c o p before [] [] t ∧ (t.Failed ∨ before.ClaimsOnce))
    (fun before stmt t n t' hstmt ⟨h, honce⟩ hrun => by
      obtain ⟨hl, env, hown, henv, hroot⟩ := h
      exact ⟨registering_claimType hstmt ⟨hl, env, hown, henv, hroot⟩ hrun,
        claimsOnce_claimType hl hown henv honce hrun⟩)
    [] ⟨hstart, .inr .nil⟩ hclaim
  obtain ⟨_, _, hresolve, hmembers, hbind, -⟩ := (runs_fillIn hregistering.1 p types).apply hfill
  have hroute := (hresolve.route.trans hmembers.route).trans hbind.route
  exact honce.imp_left (Route.failed hroute)

end Declare

/-! ## Finding the own declarations -/

namespace Check

variable {c : Context} {s s' : State} {o : ScopeStack} {p : Program}

/-- What is known of the own declarations while the bodies of a program are checked. -/
structure Declared (c : Context) (p : Program) (s : State) : Prop where
  registers : HasDeclared c p s
  once : s.Failed ∨ p.ClaimsOnce

namespace Declared

theorem steps (h : Declared c p s) (hl : Live c s o) (hsteps : Steps c .checking s s') :
    Declared c p s' :=
  ⟨h.registers.steps hl hsteps, h.once.imp_left (Route.failed hsteps.route)⟩

/-- A declaration of the program is found under its name, or the walk has failed. -/
theorem own? (h : Declared c p s) {stmt : Stmt} (hstmt : stmt ∈ p) {name : Ident}
    (hid : stmt.typeIdent? = some name) {γ : Type} {find : Check (Option γ)}
    (entry : Environment → Option γ) (spanOf : γ → Span) {e : CompileError}
    (hfind : find = environment >>= fun env =>
      (entry env).elim (fail e >>= fun _ => pure none) fun info =>
        pure (if spanOf info = name.span then some info else none))
    (hspan : ∀ env, env.Registers p p p p → ∀ info ∈ entry env,
      env.declaredSpan? name.name = some (spanOf info))
    {found : Option γ} (hrun : find c s = .ok (found, s')) :
    s'.Failed ∨ p.ClaimsOnce ∧ ∃ env info, env.Registers p p p p ∧ found = some info ∧
      entry env = some info ∧ spanOf info = name.span := by
  obtain ⟨env, hown, henv⟩ := h.registers
  rw [hfind] at hrun
  obtain ⟨env', t, hread, hrest⟩ := bind_eq_ok hrun
  obtain ⟨rfl, hown'⟩ := environment_eq_ok hread
  obtain rfl := Option.some.inj (hown.symm.trans hown')
  cases hentry : entry env with
  | none =>
    rw [hentry] at hrest
    obtain ⟨_, u, hfail, hpure⟩ := bind_eq_ok hrest
    cases hpure
    exact .inl (fail_failed hfail)
  | some info =>
    rw [hentry] at hrest
    cases hrest
    refine h.once.imp_right fun honce => ?_
    have hsame : spanOf info = name.span := by
      have hdeclared := hspan env henv info hentry
      rw [henv.types, honce.type? hstmt hid] at hdeclared
      exact (Option.some.inj hdeclared).symm
    exact ⟨honce, env, info, henv, if_pos hsame, hentry, hsame⟩

/-- A class of the program is found, with a constructor if it declares one, or the walk has
failed. -/
theorem ownClass? (h : Declared c p s) {decl : ClassDecl} (hdecl : Stmt.classDecl decl ∈ p)
    {found : Option ClassInfo} (hrun : Check.ownClass? decl.name c s = .ok (found, s')) :
    s'.Failed ∨ ∃ info, found = some info ∧
      info.constructor.isSome = decl.constructor.isSome := by
  refine (h.own? hdecl rfl (·.classes.get? decl.name.name) (·.span) (ownClass?_eq _)
    (fun _ _ _ hinfo => Environment.declaredSpan?_of_class hinfo) hrun).imp_right ?_
  rintro ⟨honce, env, info, henv, rfl, hinfo, hspan⟩
  obtain ⟨other, hother, hname, hsome⟩ := henv.constructors decl hdecl info hinfo hspan
  cases honce.eq hother hdecl rfl rfl (congrArg Ident.name hname)
  exact ⟨info, rfl, hsome⟩

/-- An entity of the program is found, or the walk has failed. -/
theorem ownEntity? (h : Declared c p s) {decl : EntityDecl} (hdecl : Stmt.entityDecl decl ∈ p)
    {found : Option EntityInfo} (hrun : Check.ownEntity? decl.name c s = .ok (found, s')) :
    s'.Failed ∨ ∃ info, found = some info := by
  refine (h.own? hdecl rfl (·.entities.get? decl.name.name) (·.span) (ownEntity?_eq _)
    (fun _ henv _ hinfo => Environment.declaredSpan?_of_entity henv.toFrom hinfo) hrun).imp_right ?_
  rintro ⟨-, env, info, -, rfl, -, -⟩
  exact ⟨info, rfl⟩

end Declared

end Check

end HybroidSema
