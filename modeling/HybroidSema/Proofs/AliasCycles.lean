import HybroidSema.Proofs.AliasOrder
import HybroidSema.Proofs.FirstClaims
import HybroidSema.Proofs.ExitTargets

/-!
# Cycles of aliases

An alias that has its name is settled in the order of the file, each after the aliases that its target
mentions. Aliases that mention each other in a circle cannot all be resolved: one of them is reported
where it is declared and stands for the error sentinel from then on, and an alias that lies on no
circle is never reported.

* `Program.ownAliases`, `Program.aliasTable` and `Program.aliasOrder`: what is settled.
* `settles_resolveAliases`: the whole resolution, as the aliases that it settles.
* `runs_performAll`: what settling them does to the own environment.
* `alias_cycles_are_reported`.
-/

namespace HybroidSema

namespace Table

variable {α : Type} {name : String} {value : α}

theorem mem_of_get? {t : Table α} (h : t.get? name = some value) : value ∈ t.values := by
  obtain ⟨before, after, hentries, -⟩ := List.lookup_eq_some_iff.1 h
  simp [values, hentries]

end Table

/-! ## The aliases of a program -/

namespace Program

/-- The alias declarations that have their names. -/
def ownAliases (p : Program) : List AliasDecl :=
  (p.filterMap Declare.alias?).filter (p.owns ·.name)

/-- Those declarations by name. -/
def aliasTable (p : Program) : Table AliasDecl :=
  .ofList (p.ownAliases.map fun decl => (decl.name.name, decl))

/-- Their names in the order of the file. -/
def aliasOrder (p : Program) : List String :=
  (Span.sortBy AliasDecl.span p.aliasTable.values).map (·.name.name)

variable {p : Program} {name : String} {decl : AliasDecl}

theorem mem_ownAliases_of_get? (h : p.aliasTable.get? name = some decl) :
    decl ∈ p.ownAliases ∧ decl.name.name = name := by
  obtain ⟨found, hfound, heq⟩ := List.mem_map.1 (Table.mem_of_get?_ofList h)
  cases heq
  exact ⟨hfound, rfl⟩

/-- An alias that has its name is declared. -/
theorem mem_of_aliasTable (h : p.aliasTable.get? name = some decl) :
    .aliasDecl decl ∈ p := by
  have hmem := (mem_ownAliases_of_get? h).1
  obtain ⟨stmt, hstmt, halias⟩ := List.mem_filterMap.1 (List.mem_filter.1 hmem).1
  cases stmt <;> cases halias
  exact hstmt

theorem keyed_aliasTable (p : Program) : Declare.Keyed p.aliasTable :=
  fun _ _ h => (mem_ownAliases_of_get? h).2

theorem mem_aliasOrder (h : (p.aliasTable.get? name).isSome) : name ∈ p.aliasOrder := by
  obtain ⟨decl, hdecl⟩ := Option.isSome_iff_exists.1 h
  have hsorted := (Span.perm_sortBy AliasDecl.span _).mem_iff.2 (Table.mem_of_get? hdecl)
  exact List.mem_map.2 ⟨decl, hsorted, (mem_ownAliases_of_get? hdecl).2⟩

/-- A declaration has its name if the name is declared at its position. -/
theorem owns_eq (p : Program) (name : Ident) :
    p.owns name = ((p.type? name.name).map (·.span) == some name.span) := by
  rw [Bool.eq_iff_iff, owns, beq_iff_eq, beq_iff_eq]
  cases htype : p.type? name.name with
  | none => simp
  | some first =>
    have hname : first.name = name.name := by
      unfold type? at htype
      simpa using List.find?_some htype
    obtain ⟨firstName, firstSpan⟩ := first
    obtain ⟨ownName, ownSpan⟩ := name
    obtain rfl : firstName = ownName := hname
    simp

end Program

namespace Check

variable {c : Context} {s s' : State} {o : ScopeStack} {env : Environment}

/-- Only the resolution of aliases changes what they stand for once they are claimed. -/
theorem Edit.aliases_eq {phase : Phase} {f : Environment → Environment} (h : Edit c phase s f)
    (hclaiming : phase ≠ .claiming) (hresolving : phase ≠ .resolving) (env : Environment) :
    (f env).aliases = env.aliases := by
  cases h with
  | require =>
    simp only [Environment.require]
    split <;> rfl
  | addImport =>
    simp only [Environment.addImport]
    split <;> rfl
  | setField kind => cases kind <;> rfl
  | claimClass _ _ hphase | claimEntity _ _ hphase | claimEnum _ _ hphase
  | claimAlias _ _ hphase => exact absurd hphase hclaiming
  | fillAlias _ _ hphase => exact absurd hphase hresolving
  | _ => rfl

theorem Steps.aliases_eq {phase : Phase} (h : Live c s o) (hsteps : Steps c phase s s')
    (hclaiming : phase ≠ .claiming) (hresolving : phase ≠ .resolving)
    (hown : s.own? c = some env) :
    ∃ env', s'.own? c = some env' ∧ env'.aliases = env.aliases :=
  Steps.own_keeps h hsteps
    (fun _ _ env' hf _ henv => (hf.aliases_eq hclaiming hresolving env').trans henv) hown rfl

end Check

namespace Declare

open Check

variable {c : Context} {s s' : State} {o : ScopeStack} {p : Program} {env : Environment}
  {id : EnvId}

/-! ## The resolution as a whole -/

theorem ownsName_eq (hown : s.own? c = some env) (name : Ident) :
    ownsName name c s = .ok (env.declaredSpan? name.name == some name.span, s) := by
  unfold ownsName
  rw [bind_apply_ok (environment_eq hown)]
  rfl

theorem ownAliases_eq (hown : s.own? c = some env)
    (hspan : ∀ name, env.declaredSpan? name = (p.type? name).map (·.span)) :
    ownAliases (p.filterMap alias?) c s = .ok (p.ownAliases, s) := by
  have hfilter (decls : List AliasDecl) :
      ownAliases decls c s = .ok (decls.filter (p.owns ·.name), s) := by
    induction decls with
    | nil => rfl
    | cons decl rest ih =>
      unfold ownAliases
      rw [bind_apply_ok (ownsName_eq hown decl.name), bind_apply_ok ih, hspan, ← p.owns_eq]
      cases howns : p.owns decl.name <;> simp [howns] <;> rfl
  exact hfilter _

/-- The resolution of the aliases of a program is done by settling them. No bound on the depth is
reached, and what is settled does not depend on it, nor on anything but the aliases. -/
theorem settles_resolveAliases (p : Program) :
    ∃ done, Settles p.aliasTable [] p.aliasOrder [] done ∧
      ∀ {q : Program} {c : Context} {s : State} {env : Environment}, q.ownAliases = p.ownAliases →
        s.own? c = some env →
        (∀ name, env.declaredSpan? name = (q.type? name).map (·.span)) →
        resolveAliases q c s = performAll done c s := by
  obtain ⟨done, hsettles, hrun⟩ := follows_foldlM
    (fun settled name => resolveAlias p.aliasTable p.aliasTable.size [] name settled)
    (fun name done => follows_resolveAlias p.keyed_aliasTable p.aliasTable.size List.nodup_nil
      (by simp) (by simp) name done) p.aliasOrder []
  rw [List.append_nil] at hsettles hrun
  refine ⟨done, hsettles, fun {q c s env} hq hown hspan => ?_⟩
  have htable : q.aliasTable = p.aliasTable := by rw [Program.aliasTable, hq, Program.aliasTable]
  rw [Program.aliasOrder, List.foldlM_map] at hrun
  unfold resolveAliases
  rw [bind_apply_ok (ownAliases_eq hown hspan)]
  have hfold : (do
      let _ ← (Span.sortBy AliasDecl.span q.aliasTable.values).foldlM
        (fun settled decl => resolveAlias q.aliasTable q.aliasTable.size [] decl.name.name settled)
        []
      return) = performAll done := by
    have hnames : settledNames [] = [] := rfl
    rw [htable]
    rw [hnames] at hrun
    rw [hrun]
    simp
  exact congrFun (congrFun hfold c) s

/-- What is settled in a plan is declared. -/
theorem Plan.mem_program {done : List AliasStep} (h : Plan p.aliasTable done) {step : AliasStep}
    (hstep : step ∈ done) : .aliasDecl step.decl ∈ p :=
  Program.mem_of_aliasTable (h.declared hstep)

/-! ## Settling aliases -/

/-- The environment with a type for an alias. -/
def withAlias (name : String) (ty : Ty) (env : Environment) : Environment :=
  { env with aliases := env.aliases.modify name fun info => { info with ty := ty } }

theorem setAlias_eq (hown : s.own? c = some env) (name : String) (ty : Ty) :
    setAlias name ty c s = .ok ((), s.modifyOwn c (withAlias name ty)) :=
  modifyEnvironment_eq hown _

theorem get?_withAlias (name other : String) (ty : Ty) (env : Environment) :
    (withAlias name ty env).aliases.get? other =
      if other = name then (env.aliases.get? other).map fun info => { info with ty := ty }
      else env.aliases.get? other :=
  Table.get?_modify _ _ _ _

/-- The alert about an alias that leads back to itself. -/
def cycleAlert (decl : AliasDecl) : Alert :=
  { kind := .invalidType decl.name.name, span := decl.name.span }

/-- Settling aliases changes the entries of the resolved ones only, and reports the others. -/
theorem runs_performAll (h : Live c s o) (hown : s.own? c = some env) (done : List AliasStep) :
    Runs (performAll done) c s fun _ s' => Steps c .resolving s s' ∧ Live c s' o ∧
      (∃ env', s'.own? c = some env' ∧
        ∀ name ∉ resolvedNames done, env'.aliases.get? name = env.aliases.get? name) ∧
      ∀ decl, .cycle decl ∈ done → cycleAlert decl ∈ s'.alerts.alerts := by
  induction done with
  | nil => exact .pure ⟨.refl, h, ⟨env, hown, fun _ _ => rfl⟩, by simp⟩
  | cons step earlier ih =>
    refine ih.bind fun _ t ⟨hsteps, hl, ⟨env₁, hown₁, hkept⟩, hreported⟩ => ?_
    cases step with
    | cycle decl =>
      have hstep : Steps c .resolving t (t.addAlerts [cycleAlert decl]) := .single (.alert t _ rfl)
      refine ⟨(), _, report_eq _ _, hsteps.trans hstep, hl.of_envs_eq rfl, ⟨env₁, hown₁, hkept⟩,
        fun other hother => ?_⟩
      rcases List.mem_cons.1 hother with heq | hother
      · cases heq
        simp [cycleAlert]
      · simpa using .inl (hreported other hother)
    | resolve decl =>
      have hquiet : Quiet .resolving (resolveType decl.ty) := quiet_resolveType decl.ty
      have hlooks : Quiet .looking (resolveType decl.ty) := quiet_resolveType decl.ty
      refine ((hquiet c t o hl).and (hlooks c t o hl)).bind fun ty u ⟨⟨hu, hlu⟩, hlook, _⟩ => ?_
      obtain ⟨env₂, hown₂, haliases⟩ := Steps.aliases_eq hl hlook nofun nofun hown₁
      have hset := setAlias_eq hown₂ decl.name.name ty
      obtain ⟨hv, hlv⟩ := (quiet_setAlias decl.name.name ty c u o hlu).apply hset
      refine ⟨(), _, hset, (hsteps.trans hu).trans hv, hlv,
        ⟨_, (own?_modifyOwn c _ u).trans (congrArg _ hown₂), fun name hname => ?_⟩,
        fun other hother => ?_⟩
      · obtain ⟨hne, hearlier⟩ : name ≠ decl.name.name ∧ name ∉ resolvedNames earlier := by
          simpa using hname
        rw [get?_withAlias, if_neg hne, haliases]
        exact hkept name hearlier
      · exact (Steps.alerts_prefix (hu.trans hv)).subset (hreported other (by simpa using hother))

/-! ## Cycles -/

/-- In a fresh environment the aliases of a program are settled, each of them once, and however deep
targets must be followed for it. On every cycle of aliases that have their names and mention each
other, one is reported where it is declared, and its entry stays as it was claimed, without a type.
Every alias that is reported lies on such a cycle. -/
theorem alias_cycles_are_reported (depth : Nat) (p : Program) (h : Walks id s env)
    (hfresh : env.IsFresh) :
    let c : Context := ⟨id, Session.walk depth⟩
    ∃ (run : Registration p c s) (done : List AliasStep),
      Settles p.aliasTable [] p.aliasOrder [] done ∧
      performAll done c run.claimed = .ok ((), run.resolved) ∧
      (settledNames done).Nodup ∧
      (∀ cycle : Cycle String, cycle ≠ .nil → cycle.Chain (Mentions p.aliasTable) →
        ∃ decl, .cycle decl ∈ done ∧ decl ∈ p.ownAliases ∧ decl.name.name ∈ cycle ∧
          cycleAlert decl ∈ run.resolved.alerts.alerts ∧
          ∀ t ∈ [run.resolved, run.final], ∃ env', t.own? c = some env' ∧
            env'.aliases.get? decl.name.name =
              (p.first? decl.name.name).bind Stmt.aliasInfo?) ∧
      ∀ decl, .cycle decl ∈ done →
        ∃ cycle : Cycle String, cycle.Chain (Mentions p.aliasTable) ∧ decl.name.name ∈ cycle := by
  intro c
  have hlive : Live c s env.scopes.outline := h.live depth
  obtain ⟨run, -⟩ := Registration.exists_of_live hlive p
  obtain ⟨-, env₁, env₂, -, -, hown₂, hclaimed, -⟩ := run.own_claimed hlive h.registered hfresh
  obtain ⟨-, hl₂⟩ := run.steps_claimed hlive
  obtain ⟨done, hsettles, hresolves⟩ := settles_resolveAliases p
  have hrun := hresolves rfl hown₂ hclaimed.declaredSpan?
  rw [run.resolves] at hrun
  obtain ⟨hplan, -, hall⟩ := hsettles.plan p.keyed_aliasTable .nil (by simp)
  obtain ⟨-, hl₃, ⟨env₃, hown₃, hkept⟩, hreported⟩ :=
    (runs_performAll hl₂ hown₂ done).apply hrun.symm
  -- No step after the resolution touches the aliases.
  obtain ⟨hfill, hl₄⟩ := run.steps_filled hlive
  obtain ⟨env₄, hown₄, haliases₄⟩ := Steps.aliases_eq hl₃ hfill nofun nofun hown₃
  obtain ⟨env₅, hown₅, haliases₅⟩ :=
    Steps.aliases_eq hl₄ ((run.steps_bound hlive).1.trans (run.steps_final hlive).1) nofun nofun hown₄
  refine ⟨run, done, hsettles, hrun.symm, hplan.nodup, fun cycle hne hchain => ?_,
    fun decl hdecl => exists_cycle_of_transGen (hplan.leads hdecl)⟩
  obtain ⟨decl, hdecl, hmem⟩ := hplan.exists_reported hne hchain
    fun a ha => hall a (Program.mem_aliasOrder ha) ha
  have hentry := (hkept _ (hplan.not_resolved hdecl)).trans (hclaimed.aliases _)
  refine ⟨decl, hdecl, (Program.mem_ownAliases_of_get? (hplan.declared hdecl)).1, hmem,
    hreported decl hdecl, List.forall_mem_cons.2 ⟨⟨env₃, hown₃, hentry⟩,
    List.forall_mem_singleton.2 ⟨env₅, hown₅, ?_⟩⟩⟩
  rw [haliases₅, haliases₄, hentry]

/-- A type written as one name. -/
def writtenName (name : String) (span : Span) : TypeExpr := ⟨none, ⟨name, span⟩, [], [], [], false, span⟩

/-- Two aliases that stand for each other. -/
def mutualAliases : Program :=
  [.aliasDecl ⟨⟨"A", ⟨1, 7, 1⟩⟩, writtenName "B" ⟨1, 11, 1⟩, false, ⟨1, 1, 11⟩⟩,
    .aliasDecl ⟨⟨"B", ⟨2, 7, 1⟩⟩, writtenName "A" ⟨2, 11, 1⟩, false, ⟨2, 1, 11⟩⟩]

/-- One of the two is reported and has no type. -/
theorem alias_cycles_are_reported_mutual :
    ∃ run : Registration mutualAliases ⟨.user 0, Session.walk 0⟩ rootState,
      ∃ decl ∈ mutualAliases.ownAliases, cycleAlert decl ∈ run.resolved.alerts.alerts ∧
        ∃ env', run.final.own? ⟨.user 0, Session.walk 0⟩ = some env' ∧
          env'.aliases.get? decl.name.name =
            (mutualAliases.first? decl.name.name).bind Stmt.aliasInfo? := by
  obtain ⟨run, done, -, -, -, hcycles, -⟩ :=
    alias_cycles_are_reported 0 mutualAliases walks_rootState rfl
  have hAB : Mentions mutualAliases.aliasTable "A" "B" := ⟨_, rfl, by decide, rfl⟩
  have hBA : Mentions mutualAliases.aliasTable "B" "A" := ⟨_, rfl, by decide, rfl⟩
  obtain ⟨decl, -, howned, -, halert, hentry⟩ := hcycles (["A", "B"] : List String)
    (by decide) (by simp [Cycle.chain_coe_cons, hAB, hBA])
  exact ⟨run, decl, howned, halert, hentry run.final (by simp)⟩

end Declare

end HybroidSema
