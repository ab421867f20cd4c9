import HybroidSema.Proofs.RootExits

/-!
# The order in which lifecycle functions are walked

The walk of an entity takes the first spawn function before all others, and decides as it goes which
function is the first of its kind. Where every kind that is declared is registered, this is an order
that can be read off the declaration: the first spawn function, the check that fields are assigned, and
then the rest in source order.

* `LifecycleDecl.turns` and `EntityDecl.turns`: the order, and which functions have the registered
  signature of their kind.
* `walkTurn`, `walkTurns` and `walkEntity`: the walk in this order.
* `firstSpawn_eq` and `otherLifecycles_eq`: the two parts of the walk.
* `stmt_entityDecl_eq`: the whole entity.
-/

namespace HybroidSema

namespace LifecycleDecl

/-- Functions in source order, each with whether it is the first one of a kind that is not given. -/
def turns (seen : List LifecycleKind) : List LifecycleDecl → List (LifecycleDecl × Bool)
  | [] => []
  | decl :: rest =>
    if seen.contains decl.kind then (decl, false) :: turns seen rest
    else (decl, true) :: turns (decl.kind :: seen) rest

variable {seen : List LifecycleKind} {decls : List LifecycleDecl}

theorem map_fst_turns (seen : List LifecycleKind) (decls : List LifecycleDecl) :
    (turns seen decls).map Prod.fst = decls := by
  induction decls generalizing seen with
  | nil => rfl
  | cons decl rest ih =>
    unfold turns
    split <;> simp [ih]

/-- What counts as the first of its kind is that. -/
theorem first?_of_mem_turns {decl : LifecycleDecl} (h : (decl, true) ∈ turns seen decls) :
    decl.kind ∉ seen ∧ first? decls decl.kind = some decl := by
  induction decls generalizing seen with
  | nil => cases h
  | cons head rest ih =>
    unfold turns at h
    rw [Check.first?_cons]
    split at h
    · next hseen =>
      obtain ⟨hunseen, hfirst⟩ := ih (by simpa using h)
      have hne : head.kind ≠ decl.kind := fun heq => hunseen (heq ▸ by simpa using hseen)
      exact ⟨hunseen, by rw [if_neg hne, hfirst]⟩
    · next hunseen =>
      rcases List.mem_cons.1 h with heq | hrest
      · cases heq
        exact ⟨by simpa using hunseen, if_pos rfl⟩
      · obtain ⟨hother, hfirst⟩ := ih hrest
        rw [List.mem_cons, not_or] at hother
        exact ⟨hother.2, by rw [if_neg (Ne.symm hother.1), hfirst]⟩

/-- The functions without the first spawn function. -/
def withoutSpawner (decls : List LifecycleDecl) : List LifecycleDecl :=
  decls.eraseP (·.kind == .spawn)

theorem withoutSpawner_cons (decl : LifecycleDecl) (rest : List LifecycleDecl) :
    withoutSpawner (decl :: rest) =
      if decl.kind = .spawn then rest else decl :: withoutSpawner rest := by
  rw [withoutSpawner, List.eraseP_cons, cond_eq_ite]
  simp only [beq_iff_eq]
  rfl

/-- The first function of another kind is still the first one. -/
theorem first?_withoutSpawner {kind : LifecycleKind} (h : kind ≠ .spawn) :
    first? (withoutSpawner decls) kind = first? decls kind := by
  induction decls with
  | nil => rfl
  | cons decl rest ih =>
    rw [withoutSpawner_cons, Check.first?_cons]
    split
    · next hspawn => rw [if_neg fun heq => h (heq.symm.trans hspawn)]
    · rw [Check.first?_cons, ih]

theorem perm_withoutSpawner {first : LifecycleDecl} (h : first? decls .spawn = some first) :
    (first :: (withoutSpawner decls)).Perm decls := by
  induction decls with
  | nil => cases h
  | cons decl rest ih =>
    rw [Check.first?_cons] at h
    rw [withoutSpawner_cons]
    split at h
    · next hspawn =>
      cases h
      rw [if_pos hspawn]
    · next hother =>
      rw [if_neg hother]
      exact (List.Perm.swap ..).trans ((ih h).cons decl)

end LifecycleDecl

/-- The lifecycle functions of an entity in the order in which they are walked, each with whether it
has the registered signature of its kind. -/
def EntityDecl.turns (decl : EntityDecl) : List (LifecycleDecl × Bool) :=
  match LifecycleDecl.first? decl.functions .spawn with
  | some first => (first, true) :: LifecycleDecl.turns [.spawn] (LifecycleDecl.withoutSpawner decl.functions)
  | none => LifecycleDecl.turns [] decl.functions

namespace EntityDecl

/-- Every lifecycle function has one turn. -/
theorem perm_turns (decl : EntityDecl) : (decl.turns.map Prod.fst).Perm decl.functions := by
  unfold turns
  split
  · next first hfirst =>
    rw [List.map_cons, LifecycleDecl.map_fst_turns]
    exact LifecycleDecl.perm_withoutSpawner hfirst
  · rw [LifecycleDecl.map_fst_turns]

/-- The registered signature goes to the first function of the kind. -/
theorem first?_of_mem_turns {decl : EntityDecl} {function : LifecycleDecl}
    (h : (function, true) ∈ decl.turns) :
    LifecycleDecl.first? decl.functions function.kind = some function := by
  unfold turns at h
  split at h
  · next first hfirst =>
    rcases List.mem_cons.1 h with heq | hrest
    · cases heq
      have hkind : function.kind = .spawn := by
        simpa [LifecycleDecl.first?] using List.find?_some hfirst
      rwa [hkind]
    · obtain ⟨hother, hfirst⟩ := LifecycleDecl.first?_of_mem_turns hrest
      rwa [LifecycleDecl.first?_withoutSpawner (by simpa using hother)] at hfirst
  · exact (LifecycleDecl.first?_of_mem_turns h).2

end EntityDecl

namespace Check

/-! ## The walk in this order -/

/-- The signature of a lifecycle function: the registered one of its kind, or one of its own. -/
def turnSignature (entity : EntityInfo) (turn : LifecycleDecl × Bool) : Check Signature :=
  match turn.2, entity.lifecycle? turn.1.kind with
  | true, some signature => pure signature
  | _, _ => resolveSignature turn.1.generics turn.1.params turn.1.returns

/-- Walk a lifecycle function. -/
def walkTurn (entity : EntityInfo) (turn : LifecycleDecl × Bool) : Check LifecycleDecl := do
  let signature ← turnSignature entity turn
  let stmts ← inFunction signature turn.1.params turn.1.span (body turn.1.body false)
  return { turn.1 with body := stmts }

/-- Walk the lifecycle functions of an entity. If there is a spawn function, the first one comes first,
and after its body every field must have been assigned. -/
def walkTurns (entity : EntityInfo) (decl : EntityDecl) : Check (List LifecycleDecl) :=
  match LifecycleDecl.first? decl.functions .spawn with
  | none => decl.turns.mapM (walkTurn entity)
  | some first => do
    let spawner ← walkTurn entity (first, true)
    checkFieldsInitialized first.span
    let others ← decl.turns.tail.mapM (walkTurn entity)
    return others.insertIdx (decl.functions.findIdx (·.kind == .spawn)) spawner

/-- Walk an entity. -/
def walkEntity (entity : EntityInfo) (decl : EntityDecl) : Check EntityDecl := do
  let ((fields, functions, methods), _) ←
    inScope (·.push (.entityBody entity.ty) { selfRef := true }) do
      bindMembers entity.members
      let fields ← initializers decl.fields entity.ty .entityDecl entity.members
      let functions ← walkTurns entity decl
      let methods ← methodBodies decl.methods entity.members
      pure (fields, functions, methods)
  return { decl with fields := fields, functions := functions, methods := methods }

/-! ## The two parts of the walk -/

section Parts

variable {entity : EntityInfo} {seen : List LifecycleKind} {decls : List LifecycleDecl}

theorem turnSignature_registered {decl : LifecycleDecl} {signature : Signature}
    (h : entity.lifecycle? decl.kind = some signature) :
    turnSignature entity (decl, true) = pure signature := by
  simp only [turnSignature, h]

/-- The first spawn function is walked with the registered signature. -/
theorem firstSpawn_eq (h : (LifecycleDecl.first? decls .spawn).isSome = true →
    (entity.lifecycle? .spawn).isSome = true) :
    firstSpawn decls entity =
      (match LifecycleDecl.first? decls .spawn with
      | none => pure (none, [])
      | some first => do
        let spawner ← walkTurn entity (first, true)
        checkFieldsInitialized first.span
        return (some spawner, [.spawn])) := by
  induction decls with
  | nil => rfl
  | cons decl rest ih =>
    obtain ⟨kind, generics, params, returns, stmts, span⟩ := decl
    rw [first?_cons] at h ⊢
    unfold firstSpawn
    by_cases hkind : kind = .spawn
    · subst hkind
      obtain ⟨signature, hsignature⟩ := Option.isSome_iff_exists.1 (h rfl)
      simp [walkTurn, turnSignature, walkedSignature, hsignature]
    · rw [if_neg hkind] at h
      simp only [if_neg hkind]
      exact ih h

/-- A lifecycle function whose kind is registered has the registered signature, or one of its own. -/
theorem walkedSignature_eq {decl : LifecycleDecl}
    (h : (entity.lifecycle? decl.kind).isSome = true) :
    walkedSignature entity seen decl.kind decl.generics decl.params decl.returns = do
      let signature ← turnSignature entity (decl, !seen.contains decl.kind)
      return (signature, !seen.contains decl.kind) := by
  obtain ⟨signature, hsignature⟩ := Option.isSome_iff_exists.1 h
  unfold walkedSignature
  rw [hsignature]
  cases hseen : seen.contains decl.kind with
  | true => rfl
  | false => 
    rw [Bool.not_false, turnSignature_registered hsignature]
    rfl

/-- One more function, which is not the spawn function that was walked before. -/
theorem otherLifecycles_cons {decl : LifecycleDecl} {spawned : Option LifecycleDecl}
    (h : (entity.lifecycle? decl.kind).isSome = true)
    (hspawned : spawned = none ∨ decl.kind ≠ .spawn)
    (hseen : decl.kind = .spawn → .spawn ∈ seen) :
    otherLifecycles (decl :: decls) entity spawned seen = do
      let walked ← walkTurn entity (decl, !seen.contains decl.kind)
      let others ← otherLifecycles decls entity spawned
        (if seen.contains decl.kind then seen else decl.kind :: seen)
      return walked :: others := by
  have hsignature : walkedSignature entity seen decl.kind decl.generics decl.params decl.returns = do
      let signature ← turnSignature entity (decl, !seen.contains decl.kind)
      return (signature, !seen.contains decl.kind) := walkedSignature_eq h
  have hcheck : (!seen.contains decl.kind && decl.kind == .spawn) = false := by
    by_cases hkind : decl.kind = .spawn
    · simp [hkind, hseen hkind]
    · simp [hkind]
  obtain ⟨kind, generics, params, returns, stmts, span⟩ := decl
  dsimp only at hsignature hcheck hspawned
  have hdefault : otherLifecycles (⟨kind, generics, params, returns, stmts, span⟩ :: decls) entity
      spawned seen = (do
        let walked ← walkedSignature entity seen kind generics params returns
        let stmts ← inFunction walked.1 params span (body stmts false)
        if walked.2 && kind == .spawn then checkFieldsInitialized span
        let seen := if walked.2 then kind :: seen else seen
        let rest ← otherLifecycles decls entity spawned seen
        return ⟨kind, generics, params, returns, stmts, span⟩ :: rest) := by
    rcases hspawned with rfl | hkind
    · rfl
    · conv => lhs; unfold otherLifecycles
      split
      · exact absurd rfl hkind
      · rfl
  rw [hdefault, hsignature]
  cases hcontains : seen.contains kind with
  | true => simp [walkTurn]
  | false =>
    have hkind : kind ≠ .spawn := by
      rw [hcontains] at hcheck
      simpa using hcheck
    simp [walkTurn, hkind]

/-- Where no spawn function is set aside, the functions are walked in source order. -/
theorem otherLifecycles_eq (hkinds : ∀ decl ∈ decls, (entity.lifecycle? decl.kind).isSome = true)
    (hspawn : LifecycleDecl.first? decls .spawn = none ∨ .spawn ∈ seen) :
    otherLifecycles decls entity none seen =
      (LifecycleDecl.turns seen decls).mapM (walkTurn entity) := by
  induction decls generalizing seen with
  | nil => rfl
  | cons decl rest ih =>
    rw [List.forall_mem_cons] at hkinds
    rw [otherLifecycles_cons hkinds.1 (.inl rfl) fun hkind => hspawn.resolve_left (by
      rw [first?_cons, if_pos hkind]; exact Option.some_ne_none _)]
    have hrest (seen' : List LifecycleKind) (hsub : seen ⊆ seen') :
        LifecycleDecl.first? rest .spawn = none ∨ .spawn ∈ seen' := by
      refine hspawn.imp (fun hnone => ?_) fun hseen => hsub hseen
      rw [first?_cons] at hnone
      split at hnone
      · cases hnone
      · exact hnone
    unfold LifecycleDecl.turns
    cases hseen : seen.contains decl.kind with
    | true => simp [ih hkinds.2 (hrest _ (List.Subset.refl _))]
    | false => simp [ih hkinds.2 (hrest (decl.kind :: seen) (List.subset_cons_self ..))]

/-- The spawn function that was walked before is put back in its place. -/
theorem otherLifecycles_spawned {spawner : LifecycleDecl}
    (hkinds : ∀ decl ∈ decls, (entity.lifecycle? decl.kind).isSome = true)
    (hspawn : (LifecycleDecl.first? decls .spawn).isSome = true) (hseen : .spawn ∈ seen) :
    otherLifecycles decls entity (some spawner) seen = do
      let others ← (LifecycleDecl.turns seen (LifecycleDecl.withoutSpawner decls)).mapM
        (walkTurn entity)
      return others.insertIdx (decls.findIdx (·.kind == .spawn)) spawner := by
  induction decls generalizing seen with
  | nil => cases hspawn
  | cons decl rest ih =>
    rw [List.forall_mem_cons] at hkinds
    rw [LifecycleDecl.withoutSpawner_cons, List.findIdx_cons]
    rw [first?_cons] at hspawn
    by_cases hkind : decl.kind = .spawn
    · have hrest : otherLifecycles rest entity none seen =
          (LifecycleDecl.turns seen rest).mapM (walkTurn entity) :=
        otherLifecycles_eq hkinds.2 (.inr hseen)
      obtain ⟨kind, generics, params, returns, stmts, span⟩ := decl
      subst hkind
      simp [otherLifecycles, hrest]
    · have hnot : (decl.kind == .spawn) = false := by simpa using hkind
      rw [if_neg hkind] at hspawn ⊢
      rw [hnot, cond_false, otherLifecycles_cons hkinds.1 (.inr hkind) fun h => absurd h hkind]
      unfold LifecycleDecl.turns
      cases hcontains : seen.contains decl.kind with
      | true => simp [ih hkinds.2 hspawn hseen]
      | false => simp [ih hkinds.2 hspawn (List.mem_cons_of_mem decl.kind hseen)]

end Parts

/-! ## The whole entity -/

section Entity

variable {entity : EntityInfo} {decl : EntityDecl}

/-- Both parts together walk the functions in the order of their turns. -/
theorem walkTurns_eq (h : ∀ kind, (LifecycleDecl.first? decl.functions kind).isSome = true →
      (entity.lifecycle? kind).isSome = true) : (do
      let (spawned, seen) ← firstSpawn decl.functions entity
      otherLifecycles decl.functions entity spawned seen) = walkTurns entity decl := by
  have hkinds : ∀ function ∈ decl.functions, (entity.lifecycle? function.kind).isSome = true :=
    fun function hfunction => h _ (List.find?_isSome.2 ⟨function, hfunction, beq_self_eq_true _⟩)
  rw [firstSpawn_eq (h .spawn)]
  unfold walkTurns EntityDecl.turns
  cases hfirst : LifecycleDecl.first? decl.functions .spawn with
  | none => simp [otherLifecycles_eq hkinds (.inl hfirst)]
  | some first =>
    simp [otherLifecycles_spawned hkinds (by rw [hfirst]; rfl) (List.mem_cons_self ..)]

/-- Where every kind that is declared is registered, an entity at the root that has its name is walked in
the order of its turns. -/
theorem stmt_entityDecl_eq {c : Context} {s : State} {env : Environment} (hl : Live c s {})
    (hown : s.own? c = some env) (hentity : env.entities.get? decl.name.name = some entity)
    (hspan : entity.span = decl.name.span)
    (h : ∀ kind, (LifecycleDecl.first? decl.functions kind).isSome = true →
      (entity.lifecycle? kind).isSome = true) :
    stmt (.entityDecl decl) c s = (Stmt.entityDecl <$> walkEntity entity decl) c s := by
  have hroot : env.scopes.isRoot = true := by
    obtain ⟨_, hown', -, ho⟩ := hl.own
    obtain rfl := Option.some.inj (hown.symm.trans hown')
    rw [← ScopeStack.outline_isRoot, ho]
    rfl
  have hatRoot : atRoot "entity" decl.span c s = .ok (true, s) := by
    rw [atRoot, bind_apply_ok (scopes_eq hown), hroot]
    rfl
  have hfound : ownEntity? decl.name c s = .ok (some entity, s) := by
    rw [ownEntity?_eq, bind_apply_ok (environment_eq hown), hentity, Option.elim_some, if_pos hspan]
    rfl
  have hturns := walkTurns_eq h
  obtain ⟨name, isPub, fields, methods, functions, span⟩ := decl
  unfold stmt
  rw [bind_apply_ok hatRoot]
  simp only [if_true]
  rw [bind_apply_ok hfound]
  simp only [walkEntity, ← hturns, bind_assoc, map_bind, map_pure]

end Entity

end Check

end HybroidSema
