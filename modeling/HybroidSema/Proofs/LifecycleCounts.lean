import HybroidSema.Proofs.OneNamespace
import Mathlib.Algebra.GroupWithZero.Nat

/-!
# Which lifecycle functions are registered

An entity registers the first lifecycle function of each kind, in source order. Every further one is
reported with the position of the first, and so is a missing spawn or destroy function. Nothing else in
the registration of a program reports either.

* `LifecycleDecl.firsts` and `LifecycleDecl.duplicates`: what is registered and what is reported.
* `length_duplicates`: how many functions are reported, kind by kind.
* `runs_registerLifecycles` and `runs_entityMembers`: one entity.
* `Registration.counts_final`: a program.
* `EntityInfo.RegistersFirsts` and `Registration.registers_firsts`: where the registered signatures come
  from.
-/

namespace HybroidSema

/-! ## First and further functions -/

namespace LifecycleDecl

/-- The functions that are the first of their kind, after the ones that are given. -/
def firsts (earlier : List LifecycleDecl) : List LifecycleDecl → List LifecycleDecl
  | [] => []
  | decl :: rest =>
    match first? earlier decl.kind with
    | some _ => firsts earlier rest
    | none => decl :: firsts (earlier ++ [decl]) rest

/-- The alerts about the functions of an entity whose kind came before. -/
def duplicates (entity : Ident) (earlier : List LifecycleDecl) : List LifecycleDecl → List Alert
  | [] => []
  | decl :: rest =>
    match first? earlier decl.kind with
    | some first =>
      { kind := .multipleEntityFunctions entity.name decl.kind.name
        span := decl.span
        more := [first.span] } :: duplicates entity earlier rest
    | none => duplicates entity (earlier ++ [decl]) rest

variable {earlier decls : List LifecycleDecl} {entity : Ident}

theorem first?_append_singleton (decls : List LifecycleDecl) (decl : LifecycleDecl)
    (kind : LifecycleKind) : first? (decls ++ [decl]) kind =
      (first? decls kind).or (if decl.kind = kind then some decl else none) := by
  simp only [first?, List.find?_append, List.find?_singleton, beq_iff_eq]

/-- Among the first functions, each kind has the function that is its first one. -/
theorem first?_firsts (earlier decls : List LifecycleDecl) {kind : LifecycleKind}
    (hnone : first? earlier kind = none) :
    first? (firsts earlier decls) kind = first? decls kind := by
  induction decls generalizing earlier with
  | nil => rfl
  | cons decl rest ih =>
    unfold firsts
    split
    · next first hfirst =>
      have hkind : decl.kind ≠ kind := fun heq => by rw [heq, hnone] at hfirst; cases hfirst
      rw [ih earlier hnone, Check.first?_cons, if_neg hkind]
    · rw [Check.first?_cons, Check.first?_cons]
      split
      · rfl
      · next hkind =>
        exact ih _ (by rw [first?_append_singleton, hnone, Option.none_or, if_neg hkind])

/-- The number of functions that are reported: of each kind all of them, but for one if no earlier one has
the kind. -/
theorem length_duplicates (entity : Ident) (earlier decls : List LifecycleDecl) :
    (duplicates entity earlier decls).length = (LifecycleKind.all.map fun kind =>
      decls.countP (·.kind == kind) - if (first? earlier kind).isSome then 0 else 1).sum := by
  induction decls generalizing earlier with
  | nil => simp [duplicates]
  | cons decl rest ih =>
    have hone : (LifecycleKind.all.map fun kind => if decl.kind = kind then 1 else 0).sum = 1 := by
      cases decl.kind <;> rfl
    unfold duplicates
    split
    · next first hfirst =>
      rw [List.length_cons, ih, ← hone, ← List.sum_map_add]
      congr 1
      refine List.map_congr_left fun kind _ => ?_
      by_cases hkind : decl.kind = kind
      · subst hkind
        simp [hfirst]
      · simp [hkind]
    · next hnone =>
      rw [ih]
      congr 1
      refine List.map_congr_left fun kind _ => ?_
      rw [first?_append_singleton]
      by_cases hkind : decl.kind = kind
      · subst hkind
        simp [hnone]
      · simp [hkind]

end LifecycleDecl

/-! ## Alerts about lifecycle functions -/

/-- The alerts about how often lifecycle functions are declared. -/
def Diagnostics.counts (d : Diagnostics) : List Alert := d.alerts.filter (·.kind.isLifecycleCount)

@[simp] theorem Diagnostics.counts_append (d e : Diagnostics) :
    (d.append e).counts = d.counts ++ e.counts := by
  simp [counts, append]

theorem Diagnostics.counts_push (d : Diagnostics) (a : Alert) :
    (d.push a).counts = d.counts ++ if a.kind.isLifecycleCount then [a] else [] :=
  d.filter_push a _

/-- The alert about a lifecycle function that the entity lacks. -/
def LifecycleDecl.missing (entity : Ident) (kind : LifecycleKind) (decls : List LifecycleDecl) :
    List Alert :=
  match first? decls kind with
  | some _ => []
  | none => [{ kind := .missingEntityFunction entity.name kind.name, span := entity.span }]

/-- What is reported about how often an entity that has its name declares lifecycle functions. -/
def EntityDecl.countAlerts (decl : EntityDecl) : List Alert :=
  LifecycleDecl.duplicates decl.name [] decl.functions ++
    LifecycleDecl.missing decl.name .spawn decl.functions ++
    LifecycleDecl.missing decl.name .destroy decl.functions

namespace Program

variable {p : Program} {stmt : Stmt} {id : Ident}

/-- Where no two declarations have the same name and position, one that has its name is the first
one. -/
theorem first?_of_owns (hidents : p.typeIdents.Nodup)
    (hstmt : stmt ∈ p) (hid : stmt.typeIdent? = some id) (howns : p.owns id = true) :
    p.first? id.name = some stmt := by
  obtain ⟨before, rest, hp⟩ := List.append_of_mem hstmt
  rw [(owns_split hidents hp hid).1, Option.isNone_iff_eq_none] at howns
  rw [first?_split hp hid, howns, Option.none_or]

/-- What is reported about a statement of the program. -/
def countAlerts (p : Program) : Stmt → List Alert
  | .entityDecl decl => if p.owns decl.name then decl.countAlerts else []
  | _ => []

end Program

namespace Check

variable {α : Type} {c : Context} {s t : State} {o : ScopeStack} {phase : Phase}

/-- Lifecycle functions are counted only where they are registered. -/
theorem Steps.counts_eq (hphase : phase.registers = false) (h : Steps c phase s t) :
    t.alerts.counts = s.alerts.counts :=
  h.filter_eq (fun _ => rfl) fun _ => Phase.isLifecycleCount_of_reports hphase

/-- So nothing about them is reported elsewhere. -/
theorem Quiet.runs_counts {m : Check α} (h : Quiet phase m) (hphase : phase.registers = false)
    (hl : Live c s o) :
    Runs m c s fun _ t => Live c t o ∧ t.alerts.counts = s.alerts.counts :=
  (h c s o hl).mono fun _ _ ⟨hsteps, hl'⟩ => ⟨hl', hsteps.counts_eq hphase⟩

/-- What was reported before has no part in what a check that does not read alerts results in. -/
theorem Oblivious.of_withAlerts {m : Check α} (h : Oblivious m) {alerts : List Alert} {a : α}
    (hrun : m c (s.withAlerts alerts) = .ok (a, t)) : ∃ t', m c s = .ok (a, t') := by
  obtain ⟨_, -, hall⟩ := h c _ a t hrun
  exact ⟨_, hall s.alerts.alerts⟩

theorem Oblivious.mapM {β : Type} {f : β → Check α} (h : ∀ b, Oblivious (f b)) (l : List β) :
    Oblivious (l.mapM f) := by
  induction l with
  | nil => exact .pure _
  | cons b rest ih =>
    rw [List.mapM_cons]
    exact (h b).bind fun _ => ih.bind fun _ => .pure _

end Check

namespace Declare

open Check

variable {c : Context} {s t : State} {o : ScopeStack}

theorem gives_mapM {α β : Type} (f : β → Check α) (l : List β) :
    Gives (l.mapM f) (·.length = l.length) := by
  induction l with
  | nil => exact .pure rfl
  | cons b rest ih =>
    rw [List.mapM_cons]
    exact .bind fun a => .bind_of ih fun others h => .pure (by simp [h])

/-! ## One entity -/

/-- The registered functions that come from declarations with their signatures. -/
def lifecycles (decls : List LifecycleDecl) (signatures : List Signature) : List Lifecycle :=
  List.zipWith (fun decl signature => ⟨decl.kind, decl.span, signature⟩) decls signatures

/-- The first registered function of a kind, if the registered ones have the kinds and positions of
declarations. -/
theorem find?_registered {first : List Lifecycle} {earlier : List LifecycleDecl}
    (h : first.map (fun l => (l.kind, l.span)) = earlier.map fun d => (d.kind, d.span))
    (kind : LifecycleKind) : (first.find? (·.kind == kind)).map (·.span) =
      (LifecycleDecl.first? earlier kind).map (·.span) := by
  induction first generalizing earlier with
  | nil =>
    cases earlier with
    | nil => rfl
    | cons => cases h
  | cons l rest ih =>
    cases earlier with
    | nil => cases h
    | cons decl others =>
      simp only [List.map_cons, List.cons.injEq, Prod.mk.injEq] at h
      obtain ⟨⟨hkind, hspan⟩, hrest⟩ := h
      rw [first?_cons, List.find?_cons, hkind]
      by_cases heq : decl.kind = kind
      · simp [heq, hspan]
      · have hne : (decl.kind == kind) = false := by simpa using heq
        simpa [heq, hne] using ih hrest

/-- The first function of each kind is registered, after the ones before, with the signature that it
resolves to, and every further one is reported. -/
theorem runs_registerLifecycles (hl : Live c s o) (entity : Ident) {first : List Lifecycle}
    {earlier : List LifecycleDecl} (decls : List LifecycleDecl)
    (h : first.map (fun l => (l.kind, l.span)) = earlier.map fun d => (d.kind, d.span)) :
    Runs (registerLifecycles entity decls first) c s fun registered t => Live c t o ∧
      t.alerts.counts = s.alerts.counts ++ LifecycleDecl.duplicates entity earlier decls ∧
      ∃ signatures v, (LifecycleDecl.firsts earlier decls).mapM lifecycleSignature c s =
          .ok (signatures, v) ∧
        registered = first ++ lifecycles (LifecycleDecl.firsts earlier decls) signatures := by
  induction decls generalizing s first earlier with
  | nil => exact .pure ⟨hl, (List.append_nil _).symm, [], s, rfl, (List.append_nil _).symm⟩
  | cons decl rest ih =>
    have hfind := find?_registered h decl.kind
    unfold registerLifecycles LifecycleDecl.firsts LifecycleDecl.duplicates
    cases hearlier : LifecycleDecl.first? earlier decl.kind with
    | some other =>
      rw [hearlier] at hfind
      obtain ⟨l, hfirst, hspan : l.span = other.span⟩ := Option.map_eq_some_iff.1 hfind
      rw [hfirst]
      dsimp only
      let repeated : Alert :=
        { kind := .multipleEntityFunctions entity.name decl.kind.name
          span := decl.span
          more := [l.span] }
      have hlive : Live c (s.addAlerts [repeated]) o := hl.of_envs_eq rfl
      obtain ⟨registered, t, hrun, hlt, hcounts, signatures, v, hmapM, hregistered⟩ := ih hlive h
      have hnow : (s.addAlerts [repeated]).alerts.counts = s.alerts.counts ++ [repeated] :=
        Diagnostics.counts_push s.alerts repeated
      obtain ⟨v', hmapM'⟩ :=
        (Oblivious.mapM oblivious_lifecycleSignature _).of_withAlerts hmapM
      refine ⟨registered, t, (bind_apply_ok (alert_eq repeated)).trans hrun, hlt, ?_, signatures, v',
        hmapM', hregistered⟩
      rw [hcounts, hnow, List.append_assoc, List.singleton_append]
      simp only [repeated, hspan]
    | none =>
      rw [hearlier] at hfind
      rw [Option.map_eq_none_iff.1 hfind]
      dsimp only
      have hquiet : Quiet .claiming (lifecycleSignature decl) := quiet_lifecycleSignature decl
      obtain ⟨signature, u, hsignature, hlu, hsame⟩ := hquiet.runs_counts rfl hl
      let registered : Lifecycle := ⟨decl.kind, decl.span, signature⟩
      have h' : (first ++ [registered]).map (fun l => (l.kind, l.span)) =
          (earlier ++ [decl]).map fun d => (d.kind, d.span) := by
        rw [List.map_append, List.map_append, h]
        rfl
      obtain ⟨all, t, hrun, hlt, hcounts, signatures, v, hmapM, hall⟩ := ih hlu h'
      refine ⟨all, t, (bind_apply_ok hsignature).trans hrun, hlt, by rw [hcounts, hsame],
        signature :: signatures, v, ?_, ?_⟩
      · rw [List.mapM_cons, bind_apply_ok hsignature, bind_apply_ok hmapM]
        rfl
      · rw [hall, List.append_assoc]
        rfl

/-! ## Members -/

/-- A lifecycle function is registered if it is declared. -/
theorem lifecycleOf?_lifecycles (kind : LifecycleKind) {decls : List LifecycleDecl}
    {signatures : List Signature} (h : decls.length = signatures.length) :
    Option.Rel (fun decl signature => (decl, signature) ∈ decls.zip signatures)
      (LifecycleDecl.first? decls kind) (lifecycleOf? kind (lifecycles decls signatures)) := by
  induction decls generalizing signatures with
  | nil => exact .none
  | cons decl rest ih =>
    cases signatures with
    | nil => cases h
    | cons signature others =>
      have hrest := ih (Nat.succ.inj h)
      simp only [lifecycleOf?, lifecycles, List.zipWith_cons_cons, List.zip_cons_cons,
        List.find?_cons] at hrest ⊢
      by_cases hkind : decl.kind = kind
      · have htrue : (decl.kind == kind) = true := by simpa using hkind
        rw [first?_cons, if_pos hkind, htrue]
        exact .some (List.mem_cons_self ..)
      · have hfalse : (decl.kind == kind) = false := by simpa using hkind
        rw [first?_cons, if_neg hkind, hfalse]
        generalize LifecycleDecl.first? rest kind = first at hrest ⊢
        generalize ((List.zipWith _ rest others).find? _).map Lifecycle.signature = found at hrest ⊢
        cases hrest with
        | some hmem => exact .some (List.mem_cons_of_mem _ hmem)
        | none => exact .none

/-- A lifecycle function that is missing is reported. -/
theorem requireLifecycle_eq (entity : Ident) {kind : LifecycleKind} {registered : List Lifecycle}
    {decls : List LifecycleDecl}
    (h : (lifecycleOf? kind registered).isNone = (LifecycleDecl.first? decls kind).isNone) :
    requireLifecycle entity kind registered c s =
      .ok ((), s.addAlerts (LifecycleDecl.missing entity kind decls)) := by
  unfold requireLifecycle LifecycleDecl.missing
  rw [h]
  cases LifecycleDecl.first? decls kind with
  | some first => rw [State.addAlerts_nil]; rfl
  | none => rfl

/-- What an entity that has its name registers and reports. -/
theorem runs_entityMembers (hl : Live c s o) (decl : EntityDecl) :
    Runs (entityMembers decl) c s fun (members, _, registered) t => Live c t o ∧
      t.alerts.counts = s.alerts.counts ++ decl.countAlerts ∧
      ∃ fields s' methods u signatures v, registerFields decl.fields {} c s = .ok (fields, s') ∧
        registerMethods decl.methods fields c s' = .ok ((members, methods), u) ∧
        (LifecycleDecl.firsts [] decl.functions).mapM lifecycleSignature c u = .ok (signatures, v) ∧
        registered = lifecycles (LifecycleDecl.firsts [] decl.functions) signatures := by
  have hfields : Quiet .claiming (registerFields decl.fields {}) := quiet_registerFields _ _
  have hmethods (fields : Members) : Quiet .claiming (registerMethods decl.methods fields) :=
    quiet_registerMethods _ _
  obtain ⟨fields, s₁, hrun₁, hl₁, hcounts₁⟩ := hfields.runs_counts rfl hl
  obtain ⟨⟨members, methods⟩, s₂, hrun₂, hl₂, hcounts₂⟩ := (hmethods fields).runs_counts rfl hl₁
  have hnone : ([] : List Lifecycle).map (fun l => (l.kind, l.span)) =
      ([] : List LifecycleDecl).map fun d => (d.kind, d.span) := rfl
  obtain ⟨registered, s₃, hrun₃, hl₃, hcounts₃, signatures, v, hsignatures, hregistered⟩ :=
    runs_registerLifecycles hl₂ decl.name decl.functions hnone
  have hlength := gives_mapM lifecycleSignature _ _ _ _ _ hsignatures
  have hfound (kind : LifecycleKind) : (lifecycleOf? kind registered).isNone =
      (LifecycleDecl.first? decl.functions kind).isNone := by
    have hrel := lifecycleOf?_lifecycles kind hlength.symm
    rw [LifecycleDecl.first?_firsts [] _ rfl] at hrel
    rw [hregistered, List.nil_append]
    generalize LifecycleDecl.first? decl.functions kind = declared at hrel ⊢
    generalize lifecycleOf? kind _ = found at hrel ⊢
    cases hrel <;> rfl
  have hmissing (t : State) (kind : LifecycleKind) :
      (t.addAlerts (LifecycleDecl.missing decl.name kind decl.functions)).alerts.counts =
        t.alerts.counts ++ LifecycleDecl.missing decl.name kind decl.functions := by
    rw [Diagnostics.counts, State.alerts_addAlerts, List.filter_append, ← Diagnostics.counts]
    unfold LifecycleDecl.missing
    split <;> rfl
  let spawned := s₃.addAlerts (LifecycleDecl.missing decl.name .spawn decl.functions)
  have hspawn : requireLifecycle decl.name .spawn registered c s₃ = .ok ((), spawned) :=
    requireLifecycle_eq decl.name (hfound .spawn)
  have hdestroy := requireLifecycle_eq (c := c) (s := spawned) decl.name (hfound .destroy)
  refine ⟨(members, methods, registered), _, (bind_apply_ok hrun₁).trans <|
    (bind_apply_ok hrun₂).trans <| (bind_apply_ok hrun₃).trans <| (bind_apply_ok hspawn).trans <|
      (bind_apply_ok hdestroy).trans rfl, hl₃.of_envs_eq rfl, ?_, fields, s₁, methods, s₂, signatures,
    v, hrun₁, hrun₂, hsignatures, hregistered⟩
  rw [hmissing, hmissing, hcounts₃, hcounts₂, hcounts₁, EntityDecl.countAlerts]
  simp only [List.append_assoc]

/-! ## A program -/

/-- Settling aliases has nothing to do with lifecycle functions. -/
theorem runs_performAll_counts (hl : Live c s o) (done : List AliasStep) :
    Runs (performAll done) c s fun _ t => Live c t o ∧ t.alerts.counts = s.alerts.counts := by
  induction done with
  | nil => exact .pure ⟨hl, rfl⟩
  | cons step earlier ih =>
    refine ih.bind fun _ t ⟨hlt, hcounts⟩ => ?_
    rw [← hcounts]
    cases step with
    | cycle decl =>
      have hquiet : Quiet .claiming (AliasStep.perform (.cycle decl)) := quiet_report _ _ rfl
      exact hquiet.runs_counts rfl hlt
    | resolve decl =>
      have hquiet : Quiet .claiming (resolveType decl.ty) := quiet_resolveType decl.ty
      refine (hquiet.runs_counts rfl hlt).bind fun ty u ⟨hlu, hsame⟩ => ?_
      obtain ⟨env, hown, -, -⟩ := hlu.own
      have hset := setAlias_eq hown decl.name.name ty
      exact ⟨(), _, hset, ((quiet_setAlias _ _ c u o hlu).apply hset).2, hsame⟩

section Program

variable {p before rest : Program} {stmt : Stmt} {k n : Nat} {u : State}

/-- What is reported when the members of one statement are registered. -/
theorem Reached.counts (h : Reached p c s o before k t)
    (hrun : registerMembers stmt c t = .ok (n, u)) :
    u.alerts.counts = t.alerts.counts ++ p.countAlerts stmt := by
  cases stmt with
  | classDecl decl =>
    rw [registerMembers, registerClass_eq, bind_apply_ok (h.ownsName_eq decl.name)] at hrun
    have hnothing : p.countAlerts (.classDecl decl) = [] := rfl
    rw [hnothing, List.append_nil]
    split at hrun
    · have hfields : Quiet .claiming (registerFields decl.fields {}) := quiet_registerFields _ _
      have hmembers : Quiet .claiming (classMembers decl) :=
        hfields.bind fun _ => (quiet_registerMethods _ _).bind fun _ =>
          (quiet_registerConstructor _).bind fun _ => .pure _
      obtain ⟨members, u₁, hrun₁, hrest⟩ := bind_eq_ok hrun
      obtain ⟨-, hcounts⟩ := (hmembers.runs_counts rfl h.live).apply hrun₁
      obtain ⟨⟨⟩, u₂, hfill, hpure⟩ := bind_eq_ok hrest
      cases hpure
      obtain rfl := modifyEnvironment_eq_ok hfill
      exact hcounts
    · cases hrun
      rfl
  | entityDecl decl =>
    rw [registerMembers, registerEntity_eq, bind_apply_ok (h.ownsName_eq decl.name)] at hrun
    have hcount : p.countAlerts (.entityDecl decl) =
        if p.owns decl.name then decl.countAlerts else [] := rfl
    rw [hcount]
    split at hrun
    · next howns =>
      obtain ⟨members, u₁, hrun₁, hrest⟩ := bind_eq_ok hrun
      obtain ⟨-, hcounts, -⟩ := (runs_entityMembers h.live decl).apply hrun₁
      obtain ⟨⟨⟩, u₂, hfill, hpure⟩ := bind_eq_ok hrest
      cases hpure
      obtain rfl := modifyEnvironment_eq_ok hfill
      rw [if_pos howns]
      exact hcounts
    · next hnot =>
      cases hrun
      rw [if_neg hnot, List.append_nil]
  | _ =>
    cases hrun
    exact (List.append_nil _).symm

/-- What is reported when the members of a program are registered. -/
theorem counts_countEach {e : Environment} (hl : Live c s o) (hown : s.own? c = some e)
    (hholds : HoldsFirsts c.env p e) (hidents : p.typeIdents.Nodup) :
    Runs (countEach registerMembers p) c s fun _ t =>
      t.alerts.counts = s.alerts.counts ++ p.flatMap p.countAlerts := by
  refine (runs_countEach (I := fun before k t => Reached p c s o before k t ∧
    t.alerts.counts = s.alerts.counts ++ before.flatMap p.countAlerts)
    (fun before stmt rest k t hp ⟨h, hcounts⟩ => ?_)
    ⟨⟨hl, rfl, rfl, e, hown, hholds, nofun, nofun⟩, (List.append_nil _).symm⟩).mono
    fun _ _ ⟨_, hcounts⟩ => hcounts
  obtain ⟨n, u, hrun, hnext⟩ := h.step hp hidents
  refine ⟨n, u, hrun, hnext, ?_⟩
  rw [h.counts hrun, hcounts, List.flatMap_append, List.append_assoc, List.flatMap_singleton]

end Program

namespace Registration

variable {p : Program} (run : Registration p c s) {env : Environment}

/-- When the aliases are resolved, the tables hold the first declarations. -/
theorem own_resolved (hl : Live c s o) (hown : s.own? c = some env) (hfresh : env.IsFresh) :
    ∃ e, run.resolved.own? c = some e ∧ HoldsFirsts c.env p e := by
  obtain ⟨-, _, claimed, -, -, hown₂, hclaimed, -⟩ := run.own_claimed hl hown hfresh
  obtain ⟨-, hl₂⟩ := run.steps_claimed hl
  obtain ⟨hsteps₃, -⟩ := run.steps_resolved hl
  exact Steps.own_keeps (I := HoldsFirsts c.env p) hl₂ hsteps₃
    (fun _ _ _ hf _ hholds => hholds.edit hf nofun nofun) hown₂ hclaimed.holdsFirsts

/-- The alerts of a registration about how often lifecycle functions are declared are those of its
entities, in source order. -/
theorem counts_final (hl : Live c s o) (hown : s.own? c = some env) (hfresh : env.IsFresh)
    (hidents : p.typeIdents.Nodup) :
    run.final.alerts.counts = s.alerts.counts ++ p.flatMap p.countAlerts := by
  obtain ⟨hsteps₁, -⟩ := run.steps_imported hl
  obtain ⟨hsteps₂, hl₂⟩ := run.steps_claimed hl
  obtain ⟨-, hl₃⟩ := run.steps_resolved hl
  obtain ⟨hsteps₅, -⟩ := run.steps_bound hl
  obtain ⟨hsteps₆, -⟩ := run.steps_final hl
  obtain ⟨e, hown₃, hholds⟩ := run.own_resolved hl hown hfresh
  have hresolved : run.resolved.alerts.counts = run.claimed.alerts.counts := by
    obtain ⟨-, _, claimed, -, -, hown₂, hclaimed, -⟩ := run.own_claimed hl hown hfresh
    obtain ⟨done, -, hresolves⟩ := settles_resolveAliases p
    have hrun := (hresolves rfl hown₂ hclaimed.declaredSpan?).symm.trans run.resolves
    exact ((runs_performAll_counts hl₂ done).apply hrun).2
  have hfilled := (counts_countEach hl₃ hown₃ hholds hidents).apply run.fills
  rw [hsteps₆.counts_eq rfl, hsteps₅.counts_eq rfl, hfilled, hresolved, hsteps₂.counts_eq rfl,
    hsteps₁.counts_eq rfl]

end Registration

/-! ## Where the registered signatures come from -/

/-- The callback of a kind is the registered function of the kind. -/
theorem lookup_callbacks {kind : LifecycleKind} (h : kind.isCallback = true)
    (registered : List Lifecycle) :
    ((registered.filter (·.kind.isCallback)).map fun l => (l.kind, l.signature)).lookup kind =
      lifecycleOf? kind registered := by
  unfold lifecycleOf?
  induction registered with
  | nil => rfl
  | cons l rest ih =>
    by_cases heq : l.kind = kind
    · subst heq
      simp [h]
    · have hne : (kind == l.kind) = false := by simpa using fun heq' => heq heq'.symm
      have hne' : (l.kind == kind) = false := by simpa using heq
      cases hcallback : l.kind.isCallback <;> simp [hcallback, hne', List.lookup_cons, hne, ih]

/-- The lifecycle functions of the entity are the first ones of their kinds. Their signatures are what
their declarations resolve to, one after the other, where the members before them are registered. -/
def RegistersFirsts (p : Program) (c : Context) (s : State) (decl : EntityDecl)
    (registered : LifecycleKind → Option Signature) : Prop :=
  ∃ before k t fields t' members u signatures v, before ++ [.entityDecl decl] <+: p ∧
    countEach registerMembers before c s = .ok (k, t) ∧
    registerFields decl.fields {} c t = .ok (fields, t') ∧
    registerMethods decl.methods fields c t' = .ok (members, u) ∧
    (LifecycleDecl.firsts [] decl.functions).mapM lifecycleSignature c u = .ok (signatures, v) ∧
    ∀ kind, Option.Rel
      (fun function signature =>
        (function, signature) ∈ (LifecycleDecl.firsts [] decl.functions).zip signatures)
      (LifecycleDecl.first? decl.functions kind) (registered kind)

/-- A kind is registered if it is declared. -/
theorem RegistersFirsts.isSome {p : Program} {decl : EntityDecl}
    {registered : LifecycleKind → Option Signature} (h : RegistersFirsts p c s decl registered)
    (kind : LifecycleKind) :
    (registered kind).isSome = (LifecycleDecl.first? decl.functions kind).isSome := by
  obtain ⟨_, _, _, _, _, _, _, _, _, -, -, -, -, -, hrel⟩ := h
  have hkind := hrel kind
  generalize LifecycleDecl.first? decl.functions kind = first at hkind ⊢
  generalize registered kind = signature at hkind ⊢
  cases hkind <;> rfl

/-- What a declaration registers, wherever it is found. -/
theorem EntityBuilt.registersFirsts {p : Program} {name : String} {decl : EntityDecl}
    {e : Environment} (h : EntityBuilt p c s name decl e) (hl : Live c s o) :
    ∃ info, e.entities.get? name = some info ∧ RegistersFirsts p c s decl info.lifecycle? := by
  obtain ⟨before, k, t, t', info, methods, registered, hprefix, hbefore, hmembers, hinfo, hspawner,
    hdestroyer, hcallbacks⟩ := h
  have hlt := ((quiet_countEach quiet_registerMembers before c s o hl).apply hbefore).2
  obtain ⟨-, -, fields, t₁, _, u, signatures, v, hfields, hmethods, hsignatures, hregistered⟩ :=
    (runs_entityMembers hlt decl).apply hmembers
  refine ⟨info, hinfo, before, k, t, fields, t₁, _, u, signatures, v, hprefix, hbefore, hfields,
    hmethods, hsignatures, fun kind => ?_⟩
  have hlifecycle : info.lifecycle? kind = lifecycleOf? kind registered := by
    cases kind with
    | spawn => exact hspawner
    | destroy => exact hdestroyer
    | _ => exact (congrArg (List.lookup _) hcallbacks).trans (lookup_callbacks rfl registered)
  have hlength := gives_mapM lifecycleSignature _ _ _ _ _ hsignatures
  rw [hlifecycle, hregistered, ← LifecycleDecl.first?_firsts [] _ rfl]
  exact lifecycleOf?_lifecycles kind hlength.symm

/-- An entity that has its name is registered, and its lifecycle functions with it. -/
theorem Registration.registers_firsts {p : Program} (run : Registration p c s) {env : Environment}
    (hl : Live c s o) (hown : s.own? c = some env) (hfresh : env.IsFresh)
    (hidents : p.typeIdents.Nodup) {decl : EntityDecl} (hdecl : .entityDecl decl ∈ p)
    (howns : p.owns decl.name = true) :
    ∃ e info, run.final.own? c = some e ∧ e.entities.get? decl.name.name = some info ∧
      info.span = decl.name.span ∧ RegistersFirsts p c run.resolved decl info.lifecycle? := by
  obtain ⟨-, hl₃⟩ := run.steps_resolved hl
  obtain ⟨e₃, hown₃, hholds₃⟩ := run.own_resolved hl hown hfresh
  have hreached := (runs_builds hl₃ hown₃ hholds₃ hidents).apply run.fills
  obtain ⟨e₄, hown₄, hholds₄, hbuilt₄⟩ := hreached.own
  obtain ⟨e, hown', htables⟩ := run.tables_final hreached.live hown₄
  have hfirst := Program.first?_of_owns hidents hdecl rfl howns
  obtain ⟨info, hinfo, hregisters⟩ :=
    ((hbuilt₄.of_tables_eq htables).entities _ _ hfirst).registersFirsts hl₃
  have hentry := (hholds₄.of_tables_eq htables).entities decl.name.name
  rw [hinfo, hfirst] at hentry
  exact ⟨e, info, hown', hinfo, congrArg EntityInfo.span (Option.some.inj hentry), hregisters⟩

end Declare

end HybroidSema
