import HybroidSema.Declare.Pass
import HybroidSema.Proofs.TypeReadings

/-!
# What declarations are read as

In an environment that imports nothing, an unqualified name stands for what the environment declares,
and for nothing that depends on where it is written. So what is registered for a declaration is a
function of the declaration and of the declared types; the rest of the state has no part in it, and
but for alerts it stays as it is.

* `standsFor`: what an unqualified name stands for.
* `readSignature`, `readFields`, `readMethods` and `readLifecycles`: what is registered.
* `ClassDecl.read`, `EntityDecl.read` and `FunctionDecl.read`: whole declarations.
* `KnowsTypes` and `typesOutlook`: the states in which the declared types are known.
* `reads_resolveSignature`, `reads_registerFields` and their siblings: the checks register this.
-/

namespace HybroidSema

/-! ## Written types of declarations -/

/-- No name in the written types is qualified. -/
def Unqualified (types : List TypeExpr) : Prop :=
  ∀ written ∈ types, ∀ mention ∈ written.mentions, mention.1 = none

/-- The written types in the signature of a function. -/
def FunctionDecl.writtenTypes (decl : FunctionDecl) : List TypeExpr :=
  decl.params.map (·.ty) ++ decl.returns

/-- The written types in the signature of a lifecycle function. -/
def LifecycleDecl.writtenTypes (decl : LifecycleDecl) : List TypeExpr :=
  decl.params.map (·.ty) ++ decl.returns

/-- The written types of the members of a class. -/
def ClassDecl.writtenTypes (decl : ClassDecl) : List TypeExpr :=
  decl.fields.flatMap (·.ty.toList) ++ decl.methods.flatMap (·.writtenTypes) ++
    decl.constructor.toList.flatMap (·.params.map (·.ty))

/-- The written types of the members of an entity. -/
def EntityDecl.writtenTypes (decl : EntityDecl) : List TypeExpr :=
  decl.fields.flatMap (·.ty.toList) ++ decl.methods.flatMap (·.writtenTypes) ++
    decl.functions.flatMap (·.writtenTypes)

/-- The written types of a declaration, bodies apart. -/
def Stmt.writtenTypes : Stmt → List TypeExpr
  | .classDecl decl => decl.writtenTypes
  | .entityDecl decl => decl.writtenTypes
  | .aliasDecl decl => [decl.ty]
  | .function decl => decl.writtenTypes
  | _ => []

namespace Unqualified

variable {types others : List TypeExpr}

theorem append_iff : Unqualified (types ++ others) ↔ Unqualified types ∧ Unqualified others :=
  List.forall_mem_append

theorem flatMap_iff {α : Type} {f : α → List TypeExpr} {l : List α} :
    Unqualified (l.flatMap f) ↔ ∀ a ∈ l, Unqualified (f a) := by
  simp only [Unqualified, List.mem_flatMap]
  exact ⟨fun h a ha w hw => h w ⟨a, ha, hw⟩, fun h w ⟨a, ha, hw⟩ => h a ha w hw⟩

end Unqualified

namespace Declare

open Check

/-! ## Readings of members -/

section Readings

variable (types : String → Option DeclaredType)

/-- What an unqualified name stands for: a generic parameter in scope, a declared type, or a built-in
alias. -/
def standsFor (generics : List String) : Option String → String → Ty
  | some _, _ => .invalid
  | none, name =>
    if generics.contains name then .generic name
    else
      match types name with
      | some declared => declared.ty
      | none =>
        match Library.builtin.alias? name with
        | some info => info.ty
        | none => .invalid

/-- What a signature is read as. -/
def readSignature (generics : List Ident) (params : List Param) (returns : List TypeExpr) :
    Signature :=
  let names := distinctNames generics []
  { generics := names
    params := TypeExpr.readings (standsFor types names) (params.map (·.ty))
    returns := TypeExpr.readings (standsFor types names) returns }

/-- The members with the fields of one declaration, from a position on. -/
def readNames (decl : VariableDecl) (declared : Option Ty) : (index : Nat) → List Ident →
    Members → Members
  | _, [], members => members
  | index, name :: rest, members =>
    let field : Variable :=
      { name := name.name
        value := fieldValue decl declared index
        span := name.span
        isPub := decl.isPub
        isConst := decl.isConst
        isInit := !decl.values.isEmpty }
    readNames decl declared (index + 1) rest ((members.addField field).toOption.getD members)

/-- The members with fields. -/
def readFields : List VariableDecl → Members → Members
  | [], members => members
  | decl :: rest, members =>
    let declared := decl.ty.map (·.reading (standsFor types []))
    readFields rest (readNames decl declared 0 decl.names members)

/-- The members with methods. -/
def readMethods : List FunctionDecl → Members → Members
  | [], members => members
  | decl :: rest, members =>
    let signature := readSignature types decl.generics decl.params decl.returns
    readMethods rest
      ((members.addMethod decl.name.name signature decl.name.span).toOption.getD members)

/-- The first lifecycle function of each kind, after the ones that are given. -/
def readLifecycles : List LifecycleDecl → (first : List Lifecycle) → List Lifecycle
  | [], first => first
  | decl :: rest, first =>
    if first.any (·.kind == decl.kind) then readLifecycles rest first
    else
      let signature := readSignature types decl.generics decl.params decl.returns
      readLifecycles rest (first ++ [⟨decl.kind, decl.span, signature⟩])

end Readings

end Declare

open Declare

/-- What a class is registered as. -/
def ClassDecl.read (types : String → Option DeclaredType) (id : EnvId) (decl : ClassDecl) :
    ClassInfo :=
  { ty := ⟨id, decl.name.name⟩
    span := decl.name.span
    isPub := decl.isPub
    members := readMethods types decl.methods (readFields types decl.fields {})
    constructor := decl.constructor.map fun constructor =>
      readSignature types constructor.generics constructor.params [] }

/-- What an entity is registered as. -/
def EntityDecl.read (types : String → Option DeclaredType) (id : EnvId) (decl : EntityDecl) :
    EntityInfo :=
  let registered := readLifecycles types decl.functions []
  { ty := ⟨id, decl.name.name⟩
    span := decl.name.span
    isPub := decl.isPub
    members := readMethods types decl.methods (readFields types decl.fields {})
    spawner := lifecycleOf? .spawn registered
    destroyer := lifecycleOf? .destroy registered
    callbacks := (registered.filter (·.kind.isCallback)).map fun l => (l.kind, l.signature) }

/-- What a top-level function is bound as. -/
def FunctionDecl.read (types : String → Option DeclaredType) (decl : FunctionDecl) : Variable :=
  { name := decl.name.name
    value := .function (readSignature types decl.generics decl.params decl.returns)
    span := decl.name.span
    isPub := decl.isPub
    isConst := true }

namespace Declare

open Check

variable {α β : Type} {c : Context} {s : State} {types : String → Option DeclaredType}
  {generics : List String} {m : Check α} {a : α}

/-! ## States in which the declared types are known -/

/-- The own environment imports nothing and declares the types, and the generic parameters are in
scope. -/
def KnowsTypes (c : Context) (types : String → Option DeclaredType) (generics : List String)
    (s : State) : Prop :=
  ∃ env, s.own? c = some env ∧ (∀ name, env.declaredType? name = types name) ∧ env.imports = [] ∧
    ∀ name, env.scopes.hasGeneric name = generics.contains name

/-- As long as only alerts are added, names stand for the same. -/
def typesOutlook (c : Context) (types : String → Option DeclaredType) (generics : List String) :
    Outlook c where
  inv := KnowsTypes c types generics
  later s t := ∃ added, t = s.addAlerts added
  look _ := standsFor types generics
  refl s := ⟨[], by simp⟩
  trans := by
    rintro s _ _ ⟨first, rfl⟩ ⟨second, rfl⟩
    exact ⟨first ++ second, by simp⟩
  alerts s added hs := ⟨hs, added, rfl⟩

/-- The check has the result wherever the types are known, and adds nothing but alerts. -/
abbrev Reads (c : Context) (types : String → Option DeclaredType) (generics : List String)
    (m : Check α) (a : α) : Prop :=
  (typesOutlook c types generics).Finds m fun _ => a

theorem Reads.apply (h : Reads c types generics m a) (hs : KnowsTypes c types generics s) :
    ∃ added, m c s = .ok (a, s.addAlerts added) := by
  obtain ⟨b, t, hrun, -, ⟨added, rfl⟩, hb⟩ := h s hs
  obtain rfl : b = a := hb _ ⟨[], (State.addAlerts_nil _).symm⟩
  exact ⟨added, hrun⟩

theorem reads_of_eq
    (h : ∀ s, KnowsTypes c types generics s → ∃ added, m c s = .ok (a, s.addAlerts added)) :
    Reads c types generics m a := by
  intro s hs
  obtain ⟨added, hrun⟩ := h s hs
  exact ⟨a, _, hrun, hs, ⟨added, rfl⟩, fun _ _ => rfl⟩

theorem Reads.bind {k : α → Check β} {b : β} (hm : Reads c types generics m a)
    (hk : Reads c types generics (k a) b) : Reads c types generics (m >>= k) b :=
  reads_of_eq fun s hs => by
    obtain ⟨first, hfirst⟩ := hm.apply hs
    obtain ⟨second, hsecond⟩ := hk.apply (s := s.addAlerts first) hs
    rw [bind_apply_ok hfirst, hsecond]
    exact ⟨first ++ second, by simp⟩

/-- What an unqualified name stands for is found. -/
theorem findsName_none (name : String) :
    (typesOutlook c types generics).FindsName (none, name) := by
  intro span
  change Reads c types generics (namedType ⟨name, span⟩) (standsFor types generics none name)
  refine reads_of_eq fun s ⟨env, hown, htypes, himports, hgenerics⟩ => ?_
  unfold namedType standsFor
  rw [bind_apply_ok (scopes_eq hown)]
  dsimp only
  rw [hgenerics]
  cases generics.contains name with
  | true => exact ⟨[], by simp; rfl⟩
  | false =>
    simp only [Bool.false_eq_true, if_false]
    rw [bind_apply_ok (environment_eq hown), htypes]
    cases types name with
    | some declared => exact ⟨[], by simp; rfl⟩
    | none =>
      cases Library.builtin.alias? name with
      | some info => exact ⟨[], by simp; rfl⟩
      | none =>
        have himported : importedType? ⟨name, span⟩ env.imports none c s = .ok (none, s) := by
          rw [himports]
          rfl
        exact ⟨_, (bind_apply_ok himported).trans (bind_apply_ok (report_eq _ _))⟩

theorem findsName_of_unqualified {written : List TypeExpr} (h : Unqualified written) :
    ∀ leaf ∈ TypeExpr.leavesAll written, (typesOutlook c types generics).FindsName leaf := by
  rintro ⟨env, name⟩ hleaf
  obtain ⟨w, hw, hin⟩ := TypeExpr.mem_leavesAll.1 hleaf
  obtain rfl : env = none := h w hw _ (w.leaves_subset hin)
  exact findsName_none name

theorem reads_resolveType {written : TypeExpr} (h : Unqualified [written]) :
    Reads c types generics (resolveType written) (written.reading (standsFor types generics)) :=
  Outlook.finds_resolveType written fun leaf hleaf =>
    findsName_of_unqualified h leaf (TypeExpr.mem_leavesAll.2 ⟨written, by simp, hleaf⟩)

theorem reads_resolveTypes {written : List TypeExpr} (h : Unqualified written) :
    Reads c types generics (resolveTypes written)
      (TypeExpr.readings (standsFor types generics) written) :=
  Outlook.finds_resolveTypes written (findsName_of_unqualified h)

/-! ## Signatures -/

theorem finds_distinctGenerics (w : Outlook c) (generics : List Ident) (seen : List String) :
    w.Finds (distinctGenerics generics seen) fun _ => distinctNames generics seen := by
  induction generics generalizing seen with
  | nil => exact .pure _
  | cons generic rest ih =>
    unfold distinctGenerics distinctNames
    split
    · exact (Outlook.Finds.report _ _).bind fun _ => ih seen
    · exact ih _

/-- A function body is closed again, so what is in scope is the same before and after it. -/
theorem inFunction_eq {names : List String} (hs : KnowsTypes c types [] s)
    (hm : Reads c types names m a) : ∃ closed added,
      inScope (·.pushFunction { generics := names }) m c s =
        .ok ((a, closed), s.addAlerts added) := by
  obtain ⟨env, hown, htypes, himports, hgenerics⟩ := hs
  let stack := env.scopes.pushFunction { generics := names }
  let opened := s.modifyOwn c fun env =>
    { env with scopes := env.scopes.pushFunction { generics := names } }
  have hopened : opened.own? c = some { env with scopes := stack } :=
    (own?_modifyOwn c _ s).trans (congrArg _ hown)
  have hknows : KnowsTypes c types names opened := by
    refine ⟨_, hopened, htypes, himports, fun name => ?_⟩
    have hnone : env.scopes.hasGeneric name = false := by simpa using hgenerics name
    change (names.contains name || env.scopes.hasGeneric name) = names.contains name
    rw [hnone, Bool.or_false]
  obtain ⟨added, hbody⟩ := hm.apply hknows
  have hown' : (opened.addAlerts added).own? c = some { env with scopes := stack } := hopened
  have hback : (opened.addAlerts added).modifyOwn c (fun env' => { env' with scopes := env.scopes }) =
      s.addAlerts added := by
    rw [State.modifyOwn_addAlerts, modifyOwn_modifyOwn, modifyOwn_eq_self hown rfl]
  refine ⟨stack.inner.head?, added, ?_⟩
  unfold inScope
  rw [bind_apply_ok (modifyScopes_eq hown _), bind_apply_ok hbody, closeScope]
  refine (bind_apply_ok ((bind_apply_ok (scopes_eq hown')).trans
    ((bind_apply_ok (modifyScopes_eq hown' _)).trans rfl))).trans ?_
  exact congrArg (fun s => Except.ok ((a, stack.inner.head?), s)) hback

/-- A signature is registered as it reads. -/
theorem reads_resolveSignature {generics : List Ident} {params : List Param}
    {returns : List TypeExpr} (h : Unqualified (params.map (·.ty) ++ returns)) :
    Reads c types [] (resolveSignature generics params returns)
      (readSignature types generics params returns) := by
  obtain ⟨hparams, hreturns⟩ := Unqualified.append_iff.1 h
  have hbody : Reads c types (distinctNames generics []) (do
      let params ← resolveTypes (params.map (·.ty))
      let returns ← resolveTypes returns
      return (params, returns)) (_, _) :=
    (reads_resolveTypes hparams).bind ((reads_resolveTypes hreturns).bind (.pure (_, _)))
  refine Reads.bind (finds_distinctGenerics _ generics []) (reads_of_eq fun s hs => ?_)
  obtain ⟨closed, added, hrun⟩ := inFunction_eq hs hbody
  exact ⟨added, (bind_apply_ok hrun).trans rfl⟩

/-! ## Members -/

theorem finds_registerNames (w : Outlook c) (decl : VariableDecl) (declared : Option Ty)
    (index : Nat) (names : List Ident) (members : Members) :
    w.Finds (registerNames decl declared index names members) fun _ =>
      readNames decl declared index names members := by
  induction names generalizing index members with
  | nil => exact .pure _
  | cons name rest ih =>
    unfold registerNames readNames
    dsimp only
    cases members.addField _ with
    | ok members => exact ih (index + 1) members
    | error first => exact (Outlook.Finds.alert _).bind fun _ => ih (index + 1) members

/-- Fields are registered with the types that they are written with. -/
theorem reads_registerFields {decls : List VariableDecl} {members : Members}
    (h : ∀ decl ∈ decls, Unqualified decl.ty.toList) :
    Reads c types [] (registerFields decls members) (readFields types decls members) := by
  induction decls generalizing members with
  | nil => exact .pure _
  | cons decl rest ih =>
    obtain ⟨hdecl, hrest⟩ := List.forall_mem_cons.1 h
    have htype : Reads c types [] (resolveType? decl.ty)
        (decl.ty.map (·.reading (standsFor types []))) := by
      cases hty : decl.ty with
      | none => exact .pure _
      | some written =>
        rw [hty] at hdecl
        exact (reads_resolveType hdecl).bind (.pure (some _))
    exact htype.bind (Reads.bind (finds_registerNames _ decl _ 0 decl.names members) (ih hrest))

/-- Methods are registered with their signatures. -/
theorem reads_registerMethods {decls : List FunctionDecl} (members : Members)
    (h : ∀ decl ∈ decls, Unqualified decl.writtenTypes) :
    ∃ count, Reads c types [] (registerMethods decls members)
      (readMethods types decls members, count) := by
  induction decls generalizing members with
  | nil => exact ⟨0, .pure _⟩
  | cons decl rest ih =>
    obtain ⟨hdecl, hrest⟩ := List.forall_mem_cons.1 h
    have hsignature : Reads c types [] (resolveSignature decl.generics decl.params decl.returns)
        (readSignature types decl.generics decl.params decl.returns) := reads_resolveSignature hdecl
    simp only [readMethods]
    cases hadd : members.addMethod decl.name.name
        (readSignature types decl.generics decl.params decl.returns) decl.name.span with
    | ok members' =>
      obtain ⟨count, hothers⟩ := ih members' hrest
      refine ⟨count + 1, hsignature.bind ?_⟩
      rw [hadd]
      exact hothers.bind (.pure (_, _))
    | error first =>
      obtain ⟨count, hothers⟩ := ih members hrest
      refine ⟨count, hsignature.bind ?_⟩
      rw [hadd]
      exact Reads.bind (Outlook.Finds.alert _) hothers

theorem reads_registerConstructor {decl : ClassDecl}
    (h : ∀ constructor ∈ decl.constructor, Unqualified (constructor.params.map (·.ty))) :
    Reads c types [] (registerConstructor decl) (decl.read types c.env).constructor := by
  unfold registerConstructor ClassDecl.read
  cases hconstructor : decl.constructor with
  | none => exact Reads.bind (Outlook.Finds.report _ _) (.pure none)
  | some constructor =>
    have hparams := h constructor hconstructor
    exact (reads_resolveSignature (by simpa using hparams)).bind (.pure (some _))

/-- The signature of a lifecycle function is only compared with what is expected. -/
theorem reads_lifecycleSignature {decl : LifecycleDecl} (h : Unqualified decl.writtenTypes) :
    Reads c types [] (lifecycleSignature decl)
      (readSignature types decl.generics decl.params decl.returns) := by
  refine (reads_resolveSignature h).bind ?_
  cases engineSignature? decl.kind with
  | none => exact .guard (.guard (.pure _))
  | some expected => exact .guard (.pure _)

/-- The first lifecycle function of each kind is registered with its signature. -/
theorem reads_registerLifecycles {entity : Ident} {decls : List LifecycleDecl}
    {first : List Lifecycle} (h : ∀ decl ∈ decls, Unqualified decl.writtenTypes) :
    Reads c types [] (registerLifecycles entity decls first) (readLifecycles types decls first) := by
  induction decls generalizing first with
  | nil => exact .pure _
  | cons decl rest ih =>
    obtain ⟨hdecl, hrest⟩ := List.forall_mem_cons.1 h
    unfold registerLifecycles readLifecycles
    cases hfirst : first.find? (·.kind == decl.kind) with
    | none =>
      have hnone : first.any (·.kind == decl.kind) = false := by
        simpa using hfirst
      rw [hnone]
      exact (reads_lifecycleSignature hdecl).bind (ih hrest)
    | some registered =>
      have hsome : first.any (·.kind == decl.kind) = true :=
        List.any_eq_true.2 ⟨registered, List.mem_of_find?_eq_some hfirst, by
          simpa using List.find?_some hfirst⟩
      rw [hsome]
      exact Reads.bind (Outlook.Finds.alert _) (ih hrest)

theorem reads_requireLifecycle (entity : Ident) (kind : LifecycleKind)
    (registered : List Lifecycle) :
    Reads c types [] (requireLifecycle entity kind registered) () :=
  .guard (.pure ())

end Declare

end HybroidSema
