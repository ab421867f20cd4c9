import HybroidSema.Declare.Members
import HybroidSema.Proofs.Run

/-!
# Where registered signatures come from

Methods, constructors, lifecycle functions and top-level functions are registered with a resolved
signature. It has as many return types as the declaration at its position.

* `Members.From`, `ClassInfo.From`, `EntityInfo.From` and `Variable.From`: what is registered comes
  from declarations.
* `gives_resolveSignature` and the lemmas after it: what the functions that register members hand
  back.
-/

namespace HybroidSema

/-! ## What comes from declarations -/

/-- Every method comes from a declaration with its name and position, and has as many return types
as that. -/
def Members.From (m : Members) (decls : List FunctionDecl) : Prop :=
  ∀ name method, m.method? name = some method → ∃ decl ∈ decls,
    decl.name = ⟨name, method.span⟩ ∧ method.signature.returns.length = decl.returns.length

/-- The methods of a class come from its declaration, and its constructor returns nothing. -/
structure ClassInfo.From (info : ClassInfo) (decl : ClassDecl) : Prop where
  methods : info.members.From decl.methods
  constructor : ∀ signature ∈ info.constructor, signature.returns = []

/-- The first of the functions that has the kind. -/
def LifecycleDecl.first? (decls : List LifecycleDecl) (kind : LifecycleKind) :
    Option LifecycleDecl :=
  decls.find? (·.kind == kind)

/-- The methods of an entity come from its declaration, and the lifecycle function of a kind comes
from the first one that is declared. -/
structure EntityInfo.From (info : EntityInfo) (decl : EntityDecl) : Prop where
  methods : info.members.From decl.methods
  lifecycles : ∀ kind signature, info.lifecycle? kind = some signature →
    ∃ first, LifecycleDecl.first? decl.functions kind = some first ∧
      signature.returns.length = first.returns.length

/-- The variable is a function that the program declares under the name, at its position. -/
def Variable.From (v : Variable) (name : String) (p : Program) : Prop :=
  ∃ decl signature, Stmt.function decl ∈ p ∧ decl.name = ⟨name, v.span⟩ ∧
    v.value = .function signature ∧ signature.returns.length = decl.returns.length

theorem Members.from_empty (decls : List FunctionDecl) : ({} : Members).From decls :=
  fun _ _ h => nomatch h

/-- A value that a field gets has nothing to do with methods. -/
theorem Members.From.setField {m : Members} {decls : List FunctionDecl} (h : m.From decls)
    (name : String) (value : Value) : (m.setField name value).From decls := h

theorem Members.From.addMethod {m m' : Members} {decls : List FunctionDecl} (h : m.From decls)
    {decl : FunctionDecl} (hdecl : decl ∈ decls) {signature : Signature}
    (hreturns : signature.returns.length = decl.returns.length)
    (ha : m.addMethod decl.name.name signature decl.name.span = .ok m') : m'.From decls := by
  unfold Members.addMethod at ha
  split at ha
  · cases ha
  · cases ha
    intro name method hm
    simp only [Members.method?, Table.get?_insert] at hm
    split at hm
    · next heq =>
      cases hm
      exact ⟨decl, hdecl, by rw [heq], hreturns⟩
    · exact h name method hm

namespace Check

/-! ## Resolved signatures -/

theorem gives_resolveTypes (written : List TypeExpr) :
    Gives (resolveTypes written) fun tys => tys.length = written.length := by
  induction written with
  | nil => exact .pure rfl
  | cons first rest ih =>
    exact .bind fun _ => .bind_of ih fun tys htys => .pure (by simp [htys])

theorem Gives.inScope {α : Type} {m : Check α} {Q : α → Prop} (enter : ScopeStack → ScopeStack)
    (h : Gives m Q) : Gives (inScope enter m) fun r => Q r.1 :=
  .bind fun _ => .bind_of h fun _ ha => .bind fun _ => .pure ha

/-- A resolved signature has as many return types as were written. -/
theorem gives_resolveSignature (generics : List Ident) (params : List Param)
    (returns : List TypeExpr) :
    Gives (resolveSignature generics params returns) fun signature =>
      signature.returns.length = returns.length := by
  refine .bind fun names => .bind_of (Q := fun r => r.1.2.length = returns.length)
    (Gives.inScope (Q := fun r : List Ty × List Ty => r.2.length = returns.length) _ ?_)
    fun r hr => .pure hr
  exact .bind fun _ => .bind_of (gives_resolveTypes returns) fun _ h => .pure h

end Check

namespace Declare

open Check

/-! ## Registered members -/

theorem gives_registerNames (decl : VariableDecl) (declared : Option Ty) (index : Nat)
    (names : List Ident) (members : Members) :
    Gives (registerNames decl declared index names members) (·.methods = members.methods) := by
  induction names generalizing index members with
  | nil => exact .pure rfl
  | cons name rest ih =>
    unfold registerNames
    dsimp only
    split
    · next members' ha =>
      have hmethods : members'.methods = members.methods := by
        unfold Members.addField at ha
        split at ha
        · cases ha
        · cases ha
          rfl
      exact fun c s m s' hrun => (ih _ _ c s m s' hrun).trans hmethods
    · exact .bind fun _ => ih _ _

/-- Registering fields leaves the methods alone. -/
theorem gives_registerFields (decls : List VariableDecl) (members : Members) :
    Gives (registerFields decls members) (·.methods = members.methods) := by
  induction decls generalizing members with
  | nil => exact .pure rfl
  | cons decl rest ih =>
    refine .bind fun declared => .bind_of (gives_registerNames _ _ _ _ _) fun members' hm => ?_
    exact fun c s m s' hrun => (ih members' c s m s' hrun).trans hm

theorem gives_registerMethods {decls all : List FunctionDecl} (hsub : ∀ d ∈ decls, d ∈ all)
    {members : Members} (h : members.From all) :
    Gives (registerMethods decls members) (·.1.From all) := by
  induction decls generalizing members with
  | nil => exact .pure h
  | cons decl rest ih =>
    rw [List.forall_mem_cons] at hsub
    unfold registerMethods
    refine .bind_of (gives_resolveSignature _ _ _) fun signature hreturns => ?_
    split
    · next members' ha =>
      exact .bind_of (ih hsub.2 (h.addMethod hsub.1 hreturns ha)) fun _ hm => .pure hm
    · exact .bind fun _ => ih hsub.2 h

theorem gives_registerConstructor (decl : ClassDecl) :
    Gives (registerConstructor decl) fun constructor =>
      (∀ signature ∈ constructor, signature.returns = []) ∧
        constructor.isSome = decl.constructor.isSome := by
  unfold registerConstructor
  split
  · next constructor hsome =>
    refine .bind_of (gives_resolveSignature _ _ _) fun signature hreturns => .pure ⟨?_, ?_⟩
    · rintro _ ⟨⟩
      exact List.length_eq_zero_iff.1 hreturns
    · rw [hsome]
      rfl
  · next hnone => exact .bind fun _ => .pure ⟨nofun, by rw [hnone]; rfl⟩

theorem gives_lifecycleSignature (decl : LifecycleDecl) :
    Gives (lifecycleSignature decl) fun signature =>
      signature.returns.length = decl.returns.length := by
  unfold lifecycleSignature
  refine .bind_of (gives_resolveSignature _ _ _) fun signature hreturns => ?_
  dsimp only
  split
  · split
    · refine .bind fun _ => ?_
      split
      · exact .bind fun _ => .pure hreturns
      · exact .pure hreturns
    · split
      · exact .bind fun _ => .pure hreturns
      · exact .pure hreturns
  · split
    · exact .bind fun _ => .pure hreturns
    · exact .pure hreturns

/-- The registered lifecycle functions are, kind by kind, the first ones that are declared. -/
def FirstOf (registered : List Lifecycle) (decls : List LifecycleDecl) : Prop :=
  ∀ kind, Option.Rel (fun (l : Lifecycle) (d : LifecycleDecl) =>
    l.signature.returns.length = d.returns.length)
    (registered.find? (·.kind == kind)) (LifecycleDecl.first? decls kind)

/-- A further function of a kind changes nothing, and the first one is added. -/
theorem FirstOf.snoc {registered : List Lifecycle} {decls : List LifecycleDecl}
    (h : FirstOf registered decls) (decl : LifecycleDecl) :
    (∀ l, registered.find? (·.kind == decl.kind) = some l → FirstOf registered (decls ++ [decl])) ∧
      ∀ signature : Signature, registered.find? (·.kind == decl.kind) = none →
        signature.returns.length = decl.returns.length →
        FirstOf (registered ++ [⟨decl.kind, decl.span, signature⟩]) (decls ++ [decl]) := by
  have hfirst (kind : LifecycleKind) : LifecycleDecl.first? (decls ++ [decl]) kind =
      (LifecycleDecl.first? decls kind).or (if decl.kind = kind then some decl else none) := by
    simp only [LifecycleDecl.first?, List.find?_append, List.find?_singleton, beq_iff_eq]
  refine ⟨fun l hl kind => ?_, fun signature hnone hreturns kind => ?_⟩
  · have hkind := h kind
    rw [hfirst]
    by_cases heq : decl.kind = kind
    · subst heq
      rw [hl] at hkind ⊢
      cases hd : LifecycleDecl.first? decls decl.kind with
      | none => rw [hd] at hkind; cases hkind
      | some d => rwa [hd] at hkind
    · simpa [heq] using hkind
  · have hkind := h kind
    rw [hfirst, List.find?_append, List.find?_singleton]
    by_cases heq : decl.kind = kind
    · subst heq
      rw [hnone] at hkind ⊢
      cases hd : LifecycleDecl.first? decls decl.kind with
      | none => simpa using Option.Rel.some hreturns
      | some d => rw [hd] at hkind; cases hkind
    · simpa [heq] using hkind

theorem gives_registerLifecycles (entity : Ident) {decls before : List LifecycleDecl}
    {first : List Lifecycle} (h : FirstOf first before) :
    Gives (registerLifecycles entity decls first) (FirstOf · (before ++ decls)) := by
  induction decls generalizing first before with
  | nil => exact .pure (by simpa using h)
  | cons decl rest ih =>
    have happend : before ++ decl :: rest = before ++ [decl] ++ rest := by simp
    rw [happend]
    unfold registerLifecycles
    split
    · next l hl => exact .bind fun _ => ih ((h.snoc decl).1 l hl)
    · next hnone =>
      exact .bind_of (gives_lifecycleSignature decl) fun signature hreturns =>
        ih ((h.snoc decl).2 signature hnone hreturns)

/-- The callback of a kind is the registered lifecycle function. -/
theorem find?_of_lookup_callbacks {registered : List Lifecycle} {kind : LifecycleKind}
    {signature : Signature}
    (h : ((registered.filter (·.kind.isCallback)).map fun l => (l.kind, l.signature)).lookup kind =
      some signature) :
    (registered.find? (·.kind == kind)).map (·.signature) = some signature := by
  induction registered with
  | nil => cases h
  | cons l rest ih =>
    by_cases heq : l.kind = kind
    · subst heq
      cases hcallback : l.kind.isCallback with
      | true => simpa [hcallback] using h
      | false =>
        exfalso
        have hmem := (List.lookup_eq_some_iff.1 h)
        obtain ⟨l₁, l₂, hlist, -⟩ := hmem
        have hin : (l.kind, signature) ∈ (((l :: rest).filter (·.kind.isCallback)).map
            fun l => (l.kind, l.signature)) := by rw [hlist]; simp
        obtain ⟨other, hother, hpair⟩ := List.mem_map.1 hin
        simp only [Prod.mk.injEq] at hpair
        have hc := (List.mem_filter.1 hother).2
        rw [hpair.1, hcallback] at hc
        cases hc
    · have hne : (kind == l.kind) = false := by simpa using fun h => heq h.symm
      have hrest : ((rest.filter (·.kind.isCallback)).map
          fun l => (l.kind, l.signature)).lookup kind = some signature := by
        cases hcallback : l.kind.isCallback with
        | true => simpa [hcallback, List.lookup_cons, hne] using h
        | false => simpa [hcallback] using h
      simpa [List.find?_cons, heq] using ih hrest

/-- An entity with the registered lifecycle functions comes from the declaration. -/
theorem from_registered {decl : EntityDecl} {info : EntityInfo} {members : Members}
    {registered : List Lifecycle} (hmembers : members.From decl.methods)
    (h : FirstOf registered decl.functions) :
    EntityInfo.From { info with
      members := members
      spawner := lifecycleOf? .spawn registered
      destroyer := lifecycleOf? .destroy registered
      callbacks := (registered.filter (·.kind.isCallback)).map fun l => (l.kind, l.signature) }
      decl := by
  refine ⟨hmembers, fun kind signature hs => ?_⟩
  have hfound : (registered.find? (·.kind == kind)).map (·.signature) = some signature := by
    cases kind with
    | spawn => exact hs
    | destroy => exact hs
    | wallCollision => exact find?_of_lookup_callbacks hs
    | weaponCollision => exact find?_of_lookup_callbacks hs
    | playerCollision => exact find?_of_lookup_callbacks hs
    | update => exact find?_of_lookup_callbacks hs
  obtain ⟨l, hl, rfl⟩ := Option.map_eq_some_iff.1 hfound
  have hkind := h kind
  rw [hl] at hkind
  cases hd : LifecycleDecl.first? decl.functions kind with
  | none => rw [hd] at hkind; cases hkind
  | some d =>
    rw [hd] at hkind
    cases hkind with
    | some hreturns => exact ⟨d, rfl, hreturns⟩

end Declare

end HybroidSema
