import HybroidSema.Proofs.MethodOwners

/-!
# What takes the place of a name or a field

A walk replaces three kinds of node on its own: a name by what it stands for, a qualified name by the literal of
its constant, and a field of an enum by the number of its position. Each replacement is described
by what the session holds where the walk comes to the node.

* `StandsFor`: what an unqualified name stands for, with the node that takes its place.
* `InlinedFrom`: the literal that takes the place of a qualified name.
* `NumberOf`: the number that takes the place of a field of an enum.
* `identifier_standsFor`, `qualifiedName_cases` and `fieldAccess_cases`: a walk replaces by these.
-/

namespace HybroidSema

/-- The first import that has a variable of the name. -/
def Registry.variableImport? (r : Registry) (imports : List EnvId) (name : String) : Option EnvId :=
  imports.find? fun target => (r.variableOf? target name).isSome

/-- The first import that has a public enum of the name. -/
def Registry.enumImport? (r : Registry) (imports : List EnvId) (name : String) : Option EnvId :=
  imports.find? fun target => (r.enum? ⟨target, name⟩).any (·.isPub)

namespace Check

variable {c : Context} {s s' : State}

/-! ## Unqualified names -/

/-- What an unqualified name stands for in a state: the node that takes its place, and its value.
A name that is neither a constant, nor of a library or an import, nor a member of the class or
entity around it is kept. -/
inductive StandsFor (c : Context) (s : State) (id : Ident) : Expr → Value → Prop
  | constant {env : Environment} {v : Variable} {lit : Literal} (hown : s.own? c = some env)
      (hv : env.variableOf? s.session.registry id.name = some v) (hlit : v.constant = some lit) :
    StandsFor c s id (.literal { lit with span := id.span }) v.value
  | builtin {env : Environment} {v : Variable} (hown : s.own? c = some env)
      (free : env.scopes.resolve? id.name = none)
      (hv : Library.builtin.binding? id.name = some v) :
    StandsFor c s id (.builtin id) v.value
  | foreignVariable {env : Environment} {target : EnvId} {v : Variable} (hown : s.own? c = some env)
      (free : env.scopes.resolve? id.name = none)
      (imported : s.session.registry.variableImport? env.imports id.name = some target)
      (first : env.variableOf? s.session.registry id.name = some v)
      (hv : s.session.registry.variableOf? target id.name = some v) (hlit : v.constant = none) :
    StandsFor c s id
      (.envAccess ⟨s.session.registry.nameOf target, id.span⟩ id id.span) v.value
  | foreignEnum {env : Environment} {target : EnvId} {info : EnumInfo} (hown : s.own? c = some env)
      (unbound : env.variableOf? s.session.registry id.name = none)
      (imported : s.session.registry.enumImport? env.imports id.name = some target)
      (foreign : s.session.registry.variableOf? target id.name = none) (hne : target ≠ c.env)
      (hinfo : s.session.registry.enum? ⟨target, id.name⟩ = some info) (isPub : info.isPub = true) :
    StandsFor c s id
      (.envAccess ⟨s.session.registry.nameOf target, id.span⟩ id id.span) (.enumType info.ty)
  | member {env : Environment} {position : Nat} {v : Variable} {ref : DeclRef} {kind : NamedKind}
      {value : Value} (hown : s.own? c = some env)
      (hposition : env.scopes.resolve? id.name = some position)
      (hv : env.scopes.binding? position id.name = some v) (hlit : v.constant = none)
      (hcontainer : (env.scopes.get? position).bind (·.tag.container?) = some (ref, kind)) :
    StandsFor c s id
      (.field (.self (some kind) id.span) id
        (((s.session.registry.members? ref kind).bind (·.field? id.name)).map Prod.fst) id.span)
      value
  | kept (value : Value) : StandsFor c s id (.ident id) value

/-- The node stands where the name stood. -/
theorem StandsFor.span_eq {id : Ident} {e : Expr} {value : Value} (h : StandsFor c s id e value) :
    e.span = id.span := by
  cases h <;> rfl

variable {t : Session} {env : Environment}

theorem reads_scopes (h : t.registry.get? c.env = some env) : Reads c t scopes (· = env.scopes) :=
  (reads_environment h).bind fun _ he => .pure (by rw [he])

theorem reads_qualify (target : EnvId) (id : Ident) : Reads c t (qualify target id)
    (· = .envAccess ⟨t.registry.nameOf target, id.span⟩ id id.span) :=
  reads_registry.bind fun _ hr => .pure (by rw [hr])

theorem enum?_eq (ref : DeclRef) : enum? ref c s = .ok (s.session.registry.enum? ref, s) := by
  unfold enum? Registry.enum?
  cases ref.env.library? <;> rfl

theorem reads_enum?_eq (ref : DeclRef) : Reads c t (enum? ref) (· = t.registry.enum? ref) := by
  intro s found s' hs hrun
  rw [enum?_eq] at hrun
  cases hrun
  exact ⟨hs, by rw [hs]⟩

/-- The import in which a variable was found. -/
theorem reads_importedVariable?_import (id : Ident) (imports : List EnvId) :
    Reads c t (importedVariable? id imports) fun found =>
      t.registry.variableImport? imports id.name = found.map Prod.fst := by
  unfold Registry.variableImport?
  induction imports with
  | nil => exact .pure rfl
  | cons target rest ih =>
    refine (reads_foreignVariable? target id.name).bind fun found hfound => ?_
    cases found with
    | none => simpa [← hfound] using ih
    | some v =>
      have hdone : Reads c t (pure (some (target, v)) : Check (Option (EnvId × Variable)))
          fun found => ((target :: rest).find? fun target =>
            (t.registry.variableOf? target id.name).isSome) = found.map Prod.fst :=
        .pure (by simp [← hfound])
      dsimp only
      split
      · exact reads_registry.bind fun _ _ => (reads_report _ _).bind fun _ _ => hdone
      · exact hdone

/-- The import in which an enum was found, and the enum. -/
theorem reads_importedEnum?_eq (name : String) (imports : List EnvId) :
    Reads c t (importedEnum? name imports) fun found =>
      t.registry.enumImport? imports name = found.map Prod.fst ∧
        ∀ p ∈ found, t.registry.enum? ⟨p.1, name⟩ = some p.2 ∧ p.2.isPub = true := by
  unfold Registry.enumImport?
  induction imports with
  | nil => exact .pure ⟨rfl, nofun⟩
  | cons target rest ih =>
    refine (reads_enum?_eq ⟨target, name⟩).bind fun found hfound => ?_
    split
    · next hprivate =>
      have hskip : (t.registry.enum? ⟨target, name⟩).any (·.isPub) = false := by
        rw [← hfound]
        cases found with
        | none => rfl
        | some info => simpa using hprivate
      simpa [hskip] using ih
    · next info hinfo =>
      obtain ⟨rfl, hpub⟩ := Option.filter_eq_some_iff.1 hinfo
      refine .pure ⟨by simp [← hfound, hpub], fun p hp => ?_⟩
      cases hp
      exact ⟨hfound.symm, hpub⟩

theorem mem_of_enumImport? {r : Registry} {imports : List EnvId} {name : String} {target : EnvId}
    (h : r.enumImport? imports name = some target) : target ∈ imports :=
  List.mem_of_find?_eq_some h

theorem mem_of_variableImport? {r : Registry} {imports : List EnvId} {name : String}
    {target : EnvId} (h : r.variableImport? imports name = some target) : target ∈ imports :=
  List.mem_of_find?_eq_some h

/-- A name that no scope binds. Looking it up changes nothing but the alerts. -/
theorem reads_identifier_standsFor (hown : t.registry.get? c.env = some env) {id : Ident}
    (free : env.scopes.resolve? id.name = none) :
    Reads c t (identifier id) fun r => ∀ s, s.session = t → StandsFor c s id r.1 r.2 := by
  refine (reads_scopes hown).bind fun _ hstack => ?_
  subst hstack
  simp only [free]
  cases hbuiltin : Library.builtin.binding? id.name with
  | some v =>
    refine .pure fun s hs => ?_
    subst hs
    exact .builtin hown free hbuiltin
  | none =>
    dsimp only
    refine (reads_environment hown).bind fun own henv => ?_
    subst henv
    refine ((reads_importedVariable? id _).and (reads_importedVariable?_import id _)).bind
      fun found hfound => ?_
    obtain ⟨⟨hfind, hmem⟩, himport⟩ := hfound
    have hvariable : own.variableOf? t.registry id.name = found.map Prod.snd := by
      rw [Environment.variableOf?, free, hbuiltin, ← hfind]
      rfl
    cases found with
    | some p =>
      obtain ⟨target, v⟩ := p
      obtain ⟨-, hv⟩ := hmem _ rfl
      dsimp only
      cases hconstant : v.constant with
      | some lit =>
        refine .pure fun s hs => ?_
        subst hs
        exact .constant hown hvariable hconstant
      | none =>
        refine (reads_qualify target id).bind fun e he => .pure fun s hs => ?_
        subst hs he
        exact .foreignVariable hown free himport hvariable hv hconstant
    | none =>
      unfold enumName
      refine (reads_environment hown).bind fun env' henv => ?_
      subst henv
      split
      · exact .pure fun s _ => .kept _
      · refine (reads_importedEnum?_eq _ _).bind fun found hfound => ?_
        split
        · next target info =>
          obtain ⟨himport, hinfo⟩ := hfound
          obtain ⟨hinfo, hpub⟩ := hinfo _ rfl
          intro u r u' hu hrun
          obtain ⟨own, w, hid, hrun⟩ := bind_eq_ok hrun
          cases hid
          split at hrun
          · cases hrun
            exact ⟨hu, fun s _ => .kept _⟩
          · next hne =>
            obtain ⟨e, w, hqualify, hrun⟩ := bind_eq_ok hrun
            cases hrun
            obtain ⟨hw, rfl⟩ := reads_qualify target id _ _ _ hu hqualify
            refine ⟨hw, fun s hs => ?_⟩
            subst hs
            exact .foreignEnum hown hvariable himport
              (List.findSome?_eq_none_iff.1 hfind target (mem_of_enumImport? himport))
              (by simpa using hne) hinfo hpub
        · exact (reads_report _ _).bind fun _ _ => .pure fun s _ => .kept _

/-- The name of a member becomes a field of `self`, or is kept where `self` is refused. -/
theorem selfField_standsFor {id : Ident} {position : Nat} {v : Variable} {ref : DeclRef}
    {kind : NamedKind} {r : Expr × Value} (hown : s.own? c = some env)
    (hposition : env.scopes.resolve? id.name = some position)
    (hv : env.scopes.binding? position id.name = some v) (hlit : v.constant = none)
    (hcontainer : (env.scopes.get? position).bind (·.tag.container?) = some (ref, kind))
    (hrun : selfField id ref kind v.value c (s.modifyOwn c fun env => { env with
      scopes := env.scopes.modifyVariable position id.name fun v =>
        { v with isUsed := true } }) = .ok (r, s')) :
    StandsFor c s id r.1 r.2 := by
  obtain ⟨stack, u, hscopes, hrun⟩ := bind_eq_ok hrun
  obtain ⟨rfl, -⟩ := scopes_eq_ok hscopes
  split at hrun
  · obtain ⟨_, _, -, hrun⟩ := bind_eq_ok hrun
    cases hrun
    exact .kept _
  · obtain ⟨members, _, hread, hrun⟩ := bind_eq_ok hrun
    obtain ⟨hmembers, rfl⟩ := Prod.mk.inj (Except.ok.inj hread)
    obtain rfl : s.session.registry.members? ref kind = members :=
      (members?_modifyOwn_scopes c s (·.modifyVariable position id.name fun v =>
        { v with isUsed := true }) ref kind).symm.trans hmembers
    cases hrun
    exact .member hown hposition hv hlit hcontainer

/-- What takes the place of an unqualified name. -/
theorem identifier_standsFor {id : Ident} {r : Expr × Value}
    (hrun : identifier id c s = .ok (r, s')) : StandsFor c s id r.1 r.2 := by
  obtain ⟨stack, t, hscopes, hrest⟩ := bind_eq_ok hrun
  obtain ⟨rfl, env, hown, rfl⟩ := scopes_eq_ok hscopes
  cases hresolve : env.scopes.resolve? id.name with
  | none => exact (reads_identifier_standsFor hown hresolve t r s' rfl hrun).2 t rfl
  | some position =>
    obtain ⟨v, hv⟩ := ScopeStack.exists_binding?_of_resolve? hresolve
    simp only [hresolve] at hrest
    unfold scopedName at hrest
    rw [bind_apply_ok (scopes_eq hown)] at hrest
    simp only [hv] at hrest
    rw [bind_apply_ok (modifyScopes_eq hown _)] at hrest
    cases hconstant : v.constant with
    | some lit =>
      simp only [hconstant] at hrest
      cases hrest
      refine .constant hown ?_ hconstant
      rw [Environment.variableOf?, hresolve]
      exact hv
    | none =>
      cases hcontainer : (env.scopes.get? position).bind (·.tag.container?) with
      | none =>
        simp only [hconstant, hcontainer] at hrest
        cases hrest
        exact .kept _
      | some owner =>
        simp only [hconstant, hcontainer] at hrest
        exact selfField_standsFor hown hresolve hv hconstant hcontainer hrest

/-! ## Qualified names -/

/-- A qualified name stands for a constant with a literal, once its environment is linked. -/
def InlinedFrom (c : Context) (s : State) (env name : Ident) (span : Span) (lit : Literal) : Prop :=
  ∃ target t v, s.session.registry.lookup? env.name = some target ∧
    link target span c s = .ok (true, t) ∧
    t.session.registry.variableOf? target name.name = some v ∧ v.constant = some lit

/-- A qualified name is kept, or the literal of its constant takes its place. -/
theorem qualifiedName_cases {q name : Ident} {span : Span} {r : Expr × Value}
    (hrun : qualifiedName q name span c s = .ok (r, s')) :
    r.1 = .envAccess q name span ∨
      ∃ lit, InlinedFrom c s q name span lit ∧ r.1 = .literal { lit with span := span } := by
  obtain ⟨registry, _, hregistry, hrun⟩ := bind_eq_ok hrun
  cases hregistry
  cases htarget : s.session.registry.lookup? q.name with
  | none =>
    simp only [htarget] at hrun
    obtain ⟨_, _, -, hrun⟩ := bind_eq_ok hrun
    cases hrun
    exact .inl rfl
  | some target =>
    simp only [htarget] at hrun
    obtain ⟨linked, t, hlink, hrun⟩ := bind_eq_ok hrun
    cases linked with
    | false =>
      cases hrun
      exact .inl rfl
    | true =>
      obtain ⟨found, u, hfound, hrun⟩ := bind_eq_ok (m := qualified? target name.name) hrun
      obtain ⟨-, hliteral⟩ := reads_qualified? target name.name t found u rfl hfound
      cases found with
      | none =>
        obtain ⟨_, _, -, hrun⟩ := bind_eq_ok hrun
        cases hrun
        exact .inl rfl
      | some found =>
        obtain ⟨own, _, -, hrun⟩ := bind_eq_ok hrun
        obtain ⟨_, -, hrun⟩ := guard_eq_ok hrun
        cases hconstant : found.constant with
        | none =>
          simp only [hconstant] at hrun
          cases hrun
          exact .inl rfl
        | some lit =>
          simp only [hconstant] at hrun
          cases hrun
          obtain ⟨v, hv, hvlit⟩ := hliteral found rfl lit hconstant
          exact .inr ⟨lit, ⟨target, t, v, htarget, hlink, hv, hvlit⟩, rfl⟩

/-! ## Fields -/

/-- A field stands for a member of an enum of user code, at a position counted from 1. -/
def NumberOf (c : Context) (s : State) (target : Expr) (field : Ident) (number : Nat) : Prop :=
  ∃ target' ref t info position, single (expr target none) c s = .ok ((target', .enumType ref), t) ∧
    ref.env.isLibrary = false ∧ t.session.registry.enum? ref = some info ∧
    info.fieldIndex? field.name = some position ∧ number = position + 1

/-- A field keeps its target and may learn its position, or it is a member of an enum and becomes
the number of its position. -/
theorem fieldAccess_cases {target target' : Expr} {value : Value} {field : Ident}
    {index : Option Nat} {span : Span} {r : Expr × Value} {t : State}
    (htarget : single (expr target none) c s = .ok ((target', value), t))
    (hrun : fieldAccess target' value field index span c t = .ok (r, s')) :
    (∃ index', (index' = index ∨ index'.isSome) ∧ r.1 = .field target' field index' span) ∨
      ∃ number, NumberOf c s target field number ∧
        r.1 = .literal ⟨.number, toString number, span⟩ := by
  have hfound (found : Option Nat) : (found <|> index) = index ∨ (found <|> index).isSome := by
    cases found
    · exact .inl rfl
    · exact .inr rfl
  unfold fieldAccess at hrun
  dsimp only at hrun
  split at hrun
  · obtain ⟨_, _, -, hrun⟩ := bind_eq_ok hrun
    cases hrun
    exact .inl ⟨_, hfound _, rfl⟩
  · obtain ⟨_, _, -, hrun⟩ := bind_eq_ok hrun
    cases hrun
    exact .inl ⟨_, hfound _, rfl⟩
  · next ref =>
    rw [bind_apply_ok (enum?_eq ref)] at hrun
    cases hposition : (t.session.registry.enum? ref).bind (·.fieldIndex? field.name) with
    | none =>
      simp only [hposition] at hrun
      obtain ⟨_, _, -, hrun⟩ := bind_eq_ok hrun
      cases hrun
      exact .inl ⟨_, .inl rfl, rfl⟩
    | some position =>
      simp only [hposition] at hrun
      obtain ⟨info, hinfo, hindex⟩ := Option.bind_eq_some_iff.1 hposition
      split at hrun
      · cases hrun
        exact .inl ⟨_, .inl rfl, rfl⟩
      · next huser =>
        cases hrun
        exact .inr ⟨position + 1, ⟨target', ref, _, info, position, htarget, by simpa using huser,
          hinfo, hindex, rfl⟩, rfl⟩
  · obtain ⟨_, _, -, hrun⟩ := bind_eq_ok hrun
    cases hrun
    exact .inl ⟨_, .inl rfl, rfl⟩
  · obtain ⟨_, _, -, hrun⟩ := bind_eq_ok hrun
    cases hrun
    exact .inl ⟨_, .inl rfl, rfl⟩
  · cases hrun
    exact .inl ⟨_, .inl rfl, rfl⟩
  · obtain ⟨_, _, -, hrun⟩ := bind_eq_ok hrun
    cases hrun
    exact .inl ⟨_, .inl rfl, rfl⟩

end Check

end HybroidSema
