import HybroidSema.Proofs.FieldMarks
import HybroidSema.Proofs.Replacements

/-!
# The targets of assignments

A target is a field of the innermost class or entity if it is written as a field of `self`, or as a name
that is resolved to the scope of the class or entity. A name is marked in the scope it is resolved to
before it is read, and once it has been read and replaced by a field of `self` that field is marked. The
two agree, since a name with another meaning is marked in a scope of its own and is not replaced.

* `runs_assignLocal_fills`: what is marked before a target is read.
* `selfField?_iff_target`: what a target is replaced by.
* `runs_finishPlace_fills`: what is marked after it was read.
* `assigning_place`: both together.
-/

namespace HybroidSema

theorem MarksAll.congr {names others : String → Prop} {l l' : List (String × Variable)}
    (h : MarksAll names l l') (heq : ∀ name ∈ l.map Prod.fst, names name ↔ others name) :
    MarksAll others l l' := by
  induction h with
  | nil => exact .nil
  | cons hab _ ih =>
    rw [List.map_cons, List.forall_mem_cons] at heq
    exact .cons ⟨hab.name, hab.slot, hab.init.trans (or_congr .rfl heq.1)⟩ (ih heq.2)

namespace ScopeStack

variable {s : ScopeStack} {p : Nat} {name : String}

/-- The variables of the innermost class or entity are bound there. -/
theorem binding?_nearestContainer (h : s.nearestContainer? = some p) (name : String) :
    s.binding? p name = s.members.lookup name := by
  obtain ⟨⟨scope, hscope, -⟩, -⟩ := (innermost?_eq_some_iff ..).1 h
  rw [members, h, binding?, Option.bind_some, hscope]
  rfl

theorem exists_nearestContainer? (h : name ∈ s.members.map Prod.fst) :
    ∃ p v, s.nearestContainer? = some p ∧ s.binding? p name = some v := by
  cases hnearest : s.nearestContainer? with
  | none =>
    rw [members, hnearest] at h
    exact absurd h List.not_mem_nil
  | some p =>
    cases hlookup : s.members.lookup name with
    | some v => exact ⟨p, v, rfl, (binding?_nearestContainer hnearest name).trans hlookup⟩
    | none =>
      obtain ⟨e, he, rfl⟩ := List.mem_map.1 h
      simpa using List.lookup_eq_none_iff.1 hlookup e he

/-- A name of a field that is resolved to a class or entity is resolved to the innermost one. -/
theorem nearestContainer?_of_resolve? (hname : name ∈ s.members.map Prod.fst)
    (hresolve : s.resolve? name = some p) {scope : Scope} (hscope : s.get? p = some scope)
    (hcontainer : scope.tag.container?.isSome) : s.nearestContainer? = some p := by
  obtain ⟨q, v, hnearest, hv⟩ := exists_nearestContainer? hname
  have hle : q ≤ p := by
    by_contra hlt
    have hnone := ((resolve?_eq_some_iff ..).1 hresolve).2 q (Nat.lt_of_not_le hlt)
    rw [hv] at hnone
    cases hnone
  have hge : p ≤ q := by
    by_contra hlt
    have hnone := ((innermost?_eq_some_iff ..).1 hnearest).2 p scope (Nat.lt_of_not_le hlt) hscope
    rw [hnone] at hcontainer
    cases hcontainer
  rwa [Nat.le_antisymm hge hle]

end ScopeStack

namespace Check

variable {α : Type} {c : Context} {s s' t : State} {o : ScopeStack} {below : Bool}
  {env : Environment}

/-! ## One target -/

/-- The field of `self` that an expression is. -/
def selfField? : Expr → Option Ident
  | .field (.self _ _) id _ _ => some id
  | _ => none

section Variable

variable {g : Environment → Environment} {position : Nat} {name : String} {f : Variable → Variable}

/-- A variable is assigned in its scope. -/
theorem fills_modifyVariable (hl : Live c s o) (hown : s.own? c = some env)
    (htidy : MembersTidy (s.members c))
    (hg : g env = { env with scopes := env.scopes.modifyVariable position name f })
    (hf : ∀ v, (f v).slot = v.slot ∧ (f v).isInit = true) :
    Fills c s o (fun other => other = name ∧ env.scopes.nearestContainer? = some position)
      (s.modifyOwn c g) := by
  obtain ⟨env', hown', -, ho⟩ := hl.own
  obtain rfl := Option.some.inj (hown.symm.trans hown')
  rw [State.members_eq hown] at htidy
  refine .of_modifyOwn hl hown (by rw [hg]) ?_ ?_
  · rw [hg, env.scopes.outline_modifyVariable position name f, ho]
    exact .refl o
  · rw [hg, ScopeStack.members_modifyVariable]
    split
    · next hnearest =>
      exact (marksAll_modifyEntries htidy name hf).congr fun _ _ => by simp [hnearest]
    · next hnearest => exact (MarksAll.refl _).congr fun _ _ => by simp [hnearest]

theorem target_modifyVariable (hown : s.own? c = some env)
    (hg : g env = { env with scopes := env.scopes.modifyVariable position name f }) (e : Expr) :
    Target e c (s.modifyOwn c g) = Target e c s := by
  funext other
  have hown' : (s.modifyOwn c g).own? c = some (g env) := by
    rw [own?_modifyOwn, hown]
    rfl
  have hnearest : (env.scopes.modifyVariable position name f).nearestContainer? =
      env.scopes.nearestContainer? := env.scopes.innermost?_modifyAt position fun _ => rfl
  unfold Target
  split
  · rfl
  · simp only [hown, hown', hg, Option.some.injEq, exists_and_left, exists_eq_left',
      ScopeStack.resolve?_modifyVariable, hnearest]
  · rfl

end Variable

/-- A field of the innermost class or entity is marked. -/
theorem runs_markFieldInitialized (hl : Live c s o) (htidy : MembersTidy (s.members c))
    (name : String) :
    Runs (markFieldInitialized name) c s fun _ s' => Fills c s o (· = name) s' := by
  refine (runs_scopes hl).bind fun stack u hu => ?_
  obtain ⟨rfl, ho, env, hown, rfl⟩ := hu
  cases hnearest : env.scopes.nearestContainer? with
  | none =>
    refine .pure ⟨⟨o, .refl o, hl⟩, ?_, rfl⟩
    rw [State.members_eq hown, ScopeStack.members, hnearest]
    exact .nil
  | some position =>
    refine ⟨⟨⟩, _, modifyScopes_eq hown _, ?_⟩
    have hfills : Fills c u o (fun other => other = name ∧ env.scopes.nearestContainer? = some position)
        (u.modifyOwn c fun env => { env with
          scopes := env.scopes.modifyVariable position name fun v => { v with isInit := true } }) :=
      fills_modifyVariable hl hown htidy rfl fun _ => ⟨rfl, rfl⟩
    exact ⟨hfills.live, hfills.members.congr fun _ _ => by simp [hnearest], rfl⟩

/-- Before a target is read, a name is marked where it is resolved. If that is the class or entity, it
is the target. -/
theorem runs_assignLocal_fills (hl : Live c s o) (hin : o.Inside below)
    (htidy : MembersTidy (s.members c)) (e : Expr) :
    Runs (assignLocal e) c s fun _ s' => ∃ names, (∀ name, names name → Target e c s name) ∧
      Fills c s o names s' ∧ Target e c s' = Target e c s := by
  have hnone : ∃ names : String → Prop, (∀ name, names name → Target e c s name) ∧
      Fills c s o names s ∧ Target e c s = Target e c s := ⟨⊥, fun _ h => h.elim, .refl hl, rfl⟩
  by_cases hident : ∃ id, e = .ident id
  · obtain ⟨id, rfl⟩ := hident
    simp only [assignLocal]
    refine (runs_scopes hl).bind fun stack u hu => ?_
    obtain ⟨rfl, ho, env, hown, rfl⟩ := hu
    cases hresolve : env.scopes.resolve? id.name with
    | none => exact .pure hnone
    | some position =>
      obtain ⟨v, hv⟩ := ScopeStack.exists_binding?_of_resolve? hresolve
      dsimp only
      refine (runs_scopes hl).bind fun stack u hu => ?_
      obtain ⟨rfl, -, env', hown', rfl⟩ := hu
      obtain rfl := Option.some.inj (hown.symm.trans hown')
      cases hconst : v.isConst with
      | true =>
        simp only [ScopeStack.assign, hv, hconst, if_true]
        have hreport : Assignless below (reportScopeError (.constAssignment id.name) id.span "variable") :=
          Quiet.assigning (quiet_reportScopeError _ _ _)
        exact ⟨_, _, rfl, ⊥, fun _ h => h.elim, (hreport c u o hl hin htidy).apply rfl, rfl⟩
      | false =>
        simp only [ScopeStack.assign, hv, hconst, Bool.false_eq_true, if_false]
        refine ⟨_, _, bind_apply_ok (modifyScopes_eq hown _), _, ?_,
          fills_modifyVariable hl hown htidy rfl fun _ => ⟨rfl, rfl⟩,
          target_modifyVariable hown rfl _⟩
        rintro _ ⟨rfl, hnearest⟩
        exact ⟨rfl, env, position, hown, hresolve, hnearest⟩
  · refine ⟨_, _, assignLocal_eq_of_other fun id heq => hident ⟨id, heq⟩, hnone⟩

/-- What `self` stands for is no type of an enum. -/
theorem gives_self (owner : Option NamedKind) (span : Span) (hint : Option Ty) :
    Gives (expr (.self owner span) hint) fun r =>
      r.1.isSelf = true ∧ ∀ ref, r.2.single ≠ .enumType ref := by
  have hvalue : Gives (selfValue span) fun r => ∀ ref, r.2.single ≠ .enumType ref := by
    unfold selfValue
    refine .bind fun stack => ?_
    split
    · exact .bind fun _ => .pure nofun
    · refine .bind fun stack => ?_
      split
      · exact .pure nofun
      · exact .pure nofun
      · exact .bind fun _ => .pure nofun
  exact .bind_of hvalue fun _ h => .pure ⟨rfl, h⟩

/-- The name of a field that is resolved to the class or entity becomes a field of `self`. -/
theorem selfField?_identifier (hl : Live c s o) (hself : o.PermitsSelf)
    (htidy : MembersTidy (s.members c)) (hown : s.own? c = some env) {id : Ident} {position : Nat}
    (hresolve : env.scopes.resolve? id.name = some position)
    (hnearest : env.scopes.nearestContainer? = some position) {r : Expr × Value}
    (hrun : identifier id c s = .ok (r, t)) : selfField? r.1 = some id := by
  obtain ⟨v, hv⟩ := ScopeStack.exists_binding?_of_resolve? hresolve
  have hconstant : v.constant = none := by
    rw [ScopeStack.binding?_nearestContainer hnearest, ← State.members_eq hown] at hv
    obtain ⟨l₁, l₂, hmembers, -⟩ := List.lookup_eq_some_iff.1 hv
    exact htidy.constant (id.name, v) (hmembers ▸ List.mem_append_right _ List.mem_cons_self)
  obtain ⟨⟨scope, hscope, hcontainer⟩, -⟩ := (ScopeStack.innermost?_eq_some_iff ..).1 hnearest
  obtain ⟨owner, howner⟩ := Option.isSome_iff_exists.1 hcontainer
  -- The name is read, and counts as used.
  unfold identifier scopedName at hrun
  rw [bind_apply_ok (scopes_eq hown)] at hrun
  simp only [hresolve] at hrun
  rw [bind_apply_ok (scopes_eq hown)] at hrun
  simp only [hv] at hrun
  rw [bind_apply_ok (modifyScopes_eq hown _)] at hrun
  simp only [hconstant, hscope, Option.bind_some, howner] at hrun
  -- There `self` is permitted.
  obtain ⟨stack, u, hread, hrun⟩ := bind_eq_ok hrun
  obtain ⟨rfl, e, hown', rfl⟩ := scopes_eq_ok hread
  have hpermits : e.scopes.allows { selfRef := true } = true := by
    rw [own?_modifyOwn, hown] at hown'
    obtain rfl := Option.some.inj hown'
    obtain ⟨env', henv, -, ho⟩ := hl.own
    obtain rfl := Option.some.inj (hown.symm.trans henv)
    have hinside : o.nearestContainer?.isSome := by
      rw [← ho, ScopeStack.nearestContainer?_outline, hnearest]
      rfl
    rw [ScopeStack.allows, ← Scope.outline_permits, ← ScopeStack.outline_current,
      ScopeStack.outline_modifyVariable, ho]
    simp [Permissions.contains, Permissions.inter, hself hinside]
  simp only [hpermits, Bool.not_true, Bool.false_eq_true, if_false] at hrun
  obtain ⟨members, _, -, hrun⟩ := bind_eq_ok hrun
  cases hrun
  rfl

/-- The node that takes the place of a target is a field of `self` exactly for the fields that the
target stands for. -/
theorem selfField?_iff_target (hl : Live c s o) (hself : o.PermitsSelf)
    (htidy : MembersTidy (s.members c)) {e : Expr} {r : Expr × Value}
    (hrun : single (expr e none) c s = .ok (r, t)) {name : String}
    (hname : name ∈ (s.members c).map Prod.fst) :
    (∃ id, selfField? r.1 = some id ∧ id.name = name) ↔ Target e c s name := by
  obtain ⟨value, u, hexpr, -⟩ := single_value_eq_ok hrun
  have hkinds := gives_expr_field e none _ _ _ _ hexpr
  cases e with
  | ident id =>
    constructor
    · rintro ⟨id', hfield, rfl⟩
      rcases identifier_cases hexpr with hleaf | ⟨env, position, v, ref, kind, hown, hresolve, hv, -,
        hcontainer, hread⟩
      · exact absurd hleaf (by unfold selfField? at hfield; split at hfield <;> simp_all [isLeaf])
      · rcases gives_selfField id ref kind v.value _ _ _ _ hread with hr | ⟨index, hr⟩ <;>
          rw [hr] at hfield <;> cases hfield
        obtain ⟨scope, hscope, htag⟩ := Option.bind_eq_some_iff.1 hcontainer
        rw [State.members_eq hown] at hname
        exact ⟨rfl, env, position, hown, hresolve,
          ScopeStack.nearestContainer?_of_resolve? hname hresolve hscope (by rw [htag]; rfl)⟩
    · rintro ⟨rfl, env, position, hown, hresolve, hnearest⟩
      exact ⟨id, selfField?_identifier (r := (r.1, value)) hl hself htidy hown hresolve hnearest hexpr, rfl⟩
  | field target id index span =>
    obtain ⟨⟨target', v⟩, w, htarget, hfield⟩ := bind_eq_ok hexpr
    obtain ⟨value', _, htarget', hsingle⟩ := single_value_eq_ok htarget
    cases target with
    | self owner selfSpan =>
      obtain ⟨hself', hvalue⟩ := gives_self owner selfSpan none _ _ _ _ htarget'
      rcases fieldAccess_cases htarget hfield with ⟨_, -, hr⟩ | ⟨_, ⟨_, ref, _, _, _, henum, -⟩, -⟩
      · have hid : selfField? r.1 = some id := by
          rw [show r.1 = _ from hr]
          cases target' <;> first | rfl | cases hself'
        simp only [hid, Option.some.injEq, exists_eq_left']
        rfl
      · rw [htarget] at henum
        cases henum
        exact absurd hsingle (hvalue ref)
    | _ =>
      refine ⟨?_, False.elim⟩
      rintro ⟨id', hid, -⟩
      have hother := (gives_expr_field _ none _ _ _ _ htarget').2
      rcases gives_fieldAccess target' v id index span _ _ _ _ hfield with ⟨_, hr⟩ | ⟨_, hr⟩ <;>
        rw [show r.1 = _ from hr] at hid
      · cases target' <;> first | exact absurd (hother rfl) Bool.false_ne_true | cases hid
      · cases hid
  | _ =>
    refine ⟨?_, False.elim⟩
    rintro ⟨id, hid, -⟩
    have hfield : r.1.isField = true := by
      unfold selfField? at hid
      split at hid <;> simp_all [Expr.isField]
    rcases hkinds.1 hfield with h | ⟨_, h⟩ <;> cases h

/-! ## The end of a target -/

theorem Fills.congr {names others : String → Prop} (h : Fills c s o names s')
    (heq : ∀ name ∈ (s.members c).map Prod.fst, names name ↔ others name) : Fills c s o others s' :=
  ⟨h.live, h.members.congr heq, h.unassigned⟩

/-- After a target was read, the field of `self` that it became is marked. -/
theorem runs_finishPlace_fills (hl : Live c s o) (hin : o.Inside below)
    (htidy : MembersTidy (s.members c)) (written resolved : Expr) (isLocal : Bool) :
    Runs (finishPlace written resolved isLocal) c s fun _ s' =>
      Fills c s o (fun name => ∃ id, selfField? resolved = some id ∧ id.name = name) s' := by
  cases hfield : selfField? resolved with
  | some id =>
    obtain ⟨owner, selfSpan, index, span, rfl⟩ : ∃ owner selfSpan index span,
        resolved = .field (.self owner selfSpan) id index span := by
      unfold selfField? at hfield
      split at hfield <;> simp_all
    refine (runs_markFieldInitialized hl htidy id.name).mono fun _ s' hfills => hfills.congr ?_
    simp [eq_comm]
  | none =>
    have hquiet : Quiet .looking (finishPlace written resolved isLocal) := by
      unfold finishPlace
      split
      · cases hfield
      · exact quiet_checkForeignConst _ _
      · refine quiet_registry.bind fun r => ?_
        split
        · exact (quiet_foreignVariable? _ _).bind fun _ => quiet_checkForeignConst _ _
        · exact .pure _
      · split
        · split
          · exact quiet_report _ _ rfl
          · exact .pure _
        · exact .pure _
      · exact .pure _
    refine (hquiet.assigning c s o hl hin htidy).mono fun _ s' hfills => hfills.congr ?_
    exact fun _ _ => ⟨False.elim, nofun⟩

/-- A target assigns the field that it stands for, after what is assigned in it. -/
theorem assigning_place {e : Expr} (hexpr : Assigning below (expr e none) (Assigned (.expr e none))) :
    Assigning below (place e)
      (Target e ⊔ markings [assignLocal e >>= fun _ => Part.here (.expr e none)]) := by
  intro c s o hl hin htidy
  obtain ⟨isLocal, s₁, hlocal, names, hnames, hfills, htarget⟩ :=
    runs_assignLocal_fills hl hin htidy e
  obtain ⟨o₁, halike₁, hl₁⟩ := hfills.live
  have htidy₁ := htidy.marked hfills.members
  obtain ⟨r, s₂, hread, hfills₁⟩ := hexpr.single c s₁ o₁ hl₁ (hin.alike halike₁) htidy₁
  obtain ⟨o₂, halike₂, hl₂⟩ := hfills₁.live
  obtain ⟨⟨⟩, s₃, hfinish, hfills₂⟩ := runs_finishPlace_fills hl₂ ((hin.alike halike₁).alike halike₂)
    (htidy₁.marked hfills₁.members) e r.1 isLocal
  obtain ⟨resolved, value⟩ := r
  refine ⟨(resolved, value), s₃, ?_,
    (hfills.trans (hfills₁.trans hfills₂ halike₂) halike₁).congr fun name hname => ?_⟩
  · rw [place, bind_apply_ok hlocal, bind_apply_ok hread]
    exact bind_apply_ok hfinish
  · have hself : (∃ id, selfField? resolved = some id ∧ id.name = name) ↔ Target e c s₁ name :=
      selfField?_iff_target hl₁ (hin.alike halike₁).permitsSelf htidy₁ hread
        (by rwa [hfills.members.names_eq])
    have hparts : markings [assignLocal e >>= fun _ => Part.here (.expr e none)] c s =
        Assigned (.expr e none) c s₁ := by
      rw [← List.map_singleton (f := fun part => assignLocal e >>= part)
        (a := fun _ => Part.here (.expr e none)), markings_map_bind, after_eq hlocal]
      exact congrFun (congrFun (markings_inside [] _) c) s₁
    rw [htarget] at hself
    change names name ∨ Assigned _ c s₁ name ∨ (∃ id, _) ↔ Target e c s name ∨ markings _ c s name
    rw [hself, hparts]
    constructor
    · rintro (h | h | h)
      exacts [.inl (hnames name h), .inr h, .inl h]
    · rintro (h | h)
      exacts [.inr (.inr h), .inr (.inl h)]

end Check

end HybroidSema
