import HybroidSema.Proofs.Constants
import HybroidSema.Proofs.ExitTargets
import HybroidSema.Proofs.PartRuns

/-!
# The owners of method calls

A call becomes a method call if its caller is a field with a function that was reached as a method.
The mark that says so is set where a method is found, and it stays with the function. So the caller
is a method of the owner, and then the receiver is an instance of the owner; or it is a field that
was given such a function, and then neither is sure.

* `MethodCall` and `Rewrites`: a call becomes a method call.
* `CallsMethod` and `CallsMarkedField`: the two cases.
* `Rewrites.cases`: by what takes the place of the caller.

Where the method calls of a resolved program come from is shown in `HybroidSema.Proofs.MethodCalls`.
-/

namespace HybroidSema

/-- A method call, without its arguments. -/
structure MethodCall where
  receiver : Expr
  owner : DeclRef
  kind : NamedKind
  method : Ident
  span : Span

namespace Check

variable {c : Context} {s s' t : State} {signature : Signature}

/-- The caller of a call is resolved to a field with a function that was reached as a method, and so
the call becomes the method call. -/
def Rewrites (c : Context) (s : State) (caller : Expr) (m : MethodCall) : Prop :=
  ∃ index span signature s', single (expr caller none) c s =
    .ok ((.field m.receiver m.method index span, .function signature), s') ∧
    signature.owner = some ⟨m.owner, m.kind⟩

/-! ## What is found -/

theorem expectSingle_eq_ok {value first : Value} {span : Span}
    (h : expectSingle value span c s = .ok (first, s')) : value.single = first := by
  unfold expectSingle at h
  split at h
  · obtain ⟨_, _, -, h⟩ := bind_eq_ok h
    cases h
    rfl
  · exact (Prod.mk.inj (Except.ok.inj h)).1

/-- The first value of an expression. -/
theorem single_value_eq_ok {m : Check (Expr × Value)} {e : Expr} {first : Value}
    (h : single m c s = .ok ((e, first), s')) :
    ∃ value t, m c s = .ok ((e, value), t) ∧ value.single = first := by
  obtain ⟨⟨e', value⟩, t, hm, h⟩ := bind_eq_ok h
  obtain ⟨_, _, hsingle, h⟩ := bind_eq_ok h
  cases h
  exact ⟨value, t, hm, expectSingle_eq_ok hsingle⟩

/-- A member of an instance is the value of a field, or a method with its owner. -/
theorem memberValue_eq_ok {field : Ident} {owner : DeclRef} {kind : NamedKind} {index : Option Nat}
    {value : Value} (h : memberValue field owner kind c s = .ok ((index, value), s'))
    (hvalue : value ≠ .invalid) :
    ∃ members, s.session.registry.members? owner kind = some members ∧
      ((∃ position v, members.field? field.name = some (position, v) ∧ v.value = value) ∨
        ∃ method, members.method? field.name = some method ∧
          value = .function (method.signature.withOwner owner kind)) := by
  obtain ⟨found, t, hfound, h⟩ := bind_eq_ok h
  obtain ⟨hmembers, rfl⟩ := Prod.mk.inj (Except.ok.inj hfound)
  cases found with
  | none =>
    obtain ⟨_, _, -, h⟩ := bind_eq_ok h
    cases h
    exact absurd rfl hvalue
  | some members =>
    refine ⟨members, hmembers, ?_⟩
    cases hfield : members.field? field.name with
    | some found =>
      simp only [hfield] at h
      cases h
      exact .inl ⟨_, _, rfl, rfl⟩
    | none =>
      cases hmethod : members.method? field.name with
      | some method =>
        simp only [hfield, hmethod] at h
        cases h
        exact .inr ⟨method, rfl, rfl⟩
      | none =>
        simp only [hfield, hmethod] at h
        obtain ⟨_, _, -, h⟩ := bind_eq_ok h
        cases h
        exact absurd rfl hvalue

/-- What is reached through a field is a member of an instance, apart from the fields of enums. -/
theorem fieldAccess_eq_ok {target e : Expr} {value found : Value} {field : Ident}
    {index : Option Nat} {span : Span}
    (h : fieldAccess target value field index span c s = .ok ((e, found), s'))
    (hfound : found ≠ .invalid) (hother : ∀ ref, found ≠ .enumField ref) :
    ∃ ref kind index' position, value = instanceOf ref kind ∧ e = .field target field index' span ∧
      memberValue field ref kind c s = .ok ((position, found), s') := by
  unfold fieldAccess at h
  dsimp only at h
  split at h
  · next ref =>
    obtain ⟨⟨position, found'⟩, _, hmember, h⟩ := bind_eq_ok h
    cases h
    exact ⟨ref, .classDecl, _, position, rfl, rfl, hmember⟩
  · next ref =>
    obtain ⟨⟨position, found'⟩, _, hmember, h⟩ := bind_eq_ok h
    cases h
    exact ⟨ref, .entityDecl, _, position, rfl, rfl, hmember⟩
  · obtain ⟨info, _, -, h⟩ := bind_eq_ok h
    cases hposition : info.bind (·.fieldIndex? field.name) with
    | some position =>
      simp only [hposition] at h
      split at h <;> cases h <;> exact absurd rfl (hother _)
    | none =>
      simp only [hposition] at h
      obtain ⟨_, _, -, h⟩ := bind_eq_ok h
      cases h
      exact absurd rfl hfound
  · obtain ⟨_, _, -, h⟩ := bind_eq_ok h
    cases h
    exact absurd rfl hfound
  · obtain ⟨_, _, -, h⟩ := bind_eq_ok h
    cases h
    exact absurd rfl hfound
  · cases h
    exact absurd rfl hfound
  · obtain ⟨_, _, -, h⟩ := bind_eq_ok h
    cases h
    exact absurd rfl hfound

theorem Gives.pure_other {r : Expr × Value} {P Q : Prop} (h : r.1.isField = false)
    (h' : r.1.isSelf = false) :
    Gives (Pure.pure r) fun r => (r.1.isField = true → P) ∧ (r.1.isSelf = true → Q) :=
  .pure ⟨fun hfield => absurd (h.symm.trans hfield) Bool.false_ne_true,
    fun hself => absurd (h'.symm.trans hself) Bool.false_ne_true⟩

/-- A field takes the place of a field, or of the name of a member, and `self` only of `self`. -/
theorem gives_expr_field (e : Expr) (hint : Option Ty) : Gives (expr e hint) fun r =>
    (r.1.isField = true → e.isField = true ∨ ∃ id, e = .ident id) ∧
      (r.1.isSelf = true → e.isSelf = true) := by
  cases e with
  | literal lit => exact .pure_other rfl rfl
  | ident id =>
    intro c s r s' hrun
    refine ⟨fun _ => .inr ⟨id, rfl⟩, fun hself => ?_⟩
    rcases identifier_cases hrun with hleaf | ⟨_, _, v, ref, kind, -, -, -, -, -, hfield⟩
    · cases hr : r.1 <;> simp_all [isLeaf, Expr.isSelf]
    · rcases gives_selfField id ref kind v.value _ _ _ _ hfield with hr | ⟨_, hr⟩ <;> rw [hr] at hself <;>
        cases hself
  | builtin id => exact .bind fun _ => .pure_other rfl rfl
  | envAccess env name span =>
    intro c s r s' hrun
    have hleaf := gives_qualifiedName env name span c s r s' hrun
    cases hr : r.1 <;> simp_all [isLeaf, Expr.isField, Expr.isSelf]
  | unary op operand span => exact .bind fun _ => .bind fun _ => .pure_other rfl rfl
  | binary left op right span =>
    exact .bind fun _ => .bind fun _ => .bind fun _ => .guard fun _ => .bind fun _ =>
      .pure_other rfl rfl
  | group inner span => exact .bind fun _ => .pure_other rfl rfl
  | list elems span => exact .bind fun _ => .bind fun _ => .pure_other rfl rfl
  | map entries span => exact .bind fun _ => .bind fun _ => .pure_other rfl rfl
  | call caller generics args returnAmount span =>
    refine .bind fun p => ?_
    obtain ⟨caller', callee⟩ := p
    dsimp only
    split
    · refine .bind fun _ => ?_
      unfold callNode
      split <;> exact .pure_other rfl rfl
    · exact .guard fun _ => .bind fun _ => .pure_other rfl rfl
  | methodCall receiver owner kind method generics args returnAmount span =>
    refine .bind fun _ => .bind fun called => ?_
    cases called with
    | found signature => exact .bind fun _ => .pure_other rfl rfl
    | missing => exact .bind fun _ => .pure_other rfl rfl
    | ownerless => exact .pure_other rfl rfl
  | field target field index span =>
    refine .bind fun r => fun c s r' s' hrun => ⟨fun _ => .inl rfl, fun hself => ?_⟩
    rcases gives_fieldAccess r.1 r.2 field index span c s r' s' hrun with ⟨_, hr⟩ | ⟨_, hr⟩ <;>
      rw [hr] at hself <;> cases hself
  | member target index span => exact .bind fun _ => .bind fun _ => .bind fun _ => .pure_other rfl rfl
  | self owner span =>
    exact .bind fun _ => .pure ⟨fun hfield => absurd hfield Bool.false_ne_true, fun _ => rfl⟩
  | new ty generics args span =>
    refine .bind fun found => ?_
    obtain ⟨ref, signature⟩ := found
    cases signature <;> exact .bind fun _ => .pure_other rfl rfl
  | spawn ty generics args span =>
    refine .bind fun found => ?_
    obtain ⟨ref, signature⟩ := found
    cases signature <;> exact .bind fun _ => .pure_other rfl rfl
  | function params returns stmts span => exact .bind fun _ => .bind fun _ => .pure_other rfl rfl
  | matching subject arms returnAmount span =>
    exact .bind fun _ => .bind fun _ => .bind fun _ => .pure_other rfl rfl
  | entityTest value ty binding negated official span =>
    exact .bind fun _ => .bind fun _ => .bind fun _ => .pure_other rfl rfl
  | error span => exact .pure_other rfl rfl

/-! ## The two cases -/

/-- The caller is a method of the owner, and the receiver an instance of the owner. Where `self` is
left out, it is the receiver. -/
def CallsMethod (c : Context) (s : State) (caller : Expr) (m : MethodCall) : Prop :=
  ∃ target t members,
    ((∃ index span, caller = .field target m.method index span) ∨
      (caller = .ident m.method ∧ target = .self (some m.kind) m.method.span)) ∧
    single (expr target none) c s = .ok ((m.receiver, instanceOf m.owner m.kind), t) ∧
    t.session.registry.members? m.owner m.kind = some members ∧
    members.hasMethod m.method.name = true

/-- The caller is a field of some class or entity, and its function was reached as a method of the
owner before. -/
def CallsMarkedField (c : Context) (s : State) (caller : Expr) (m : MethodCall) : Prop :=
  ∃ v signature ref kind, v.value.single = .function signature ∧
    signature.owner = some ⟨m.owner, m.kind⟩ ∧
    ((∃ target index span t members position, caller = .field target m.method index span ∧
      single (expr target none) c s = .ok ((m.receiver, instanceOf ref kind), t) ∧
      t.session.registry.members? ref kind = some members ∧
      members.field? m.method.name = some (position, v)) ∨
    ∃ env position, caller = .ident m.method ∧ s.own? c = some env ∧
      env.scopes.resolve? m.method.name = some position ∧
      env.scopes.binding? position m.method.name = some v ∧
      (env.scopes.get? position).bind (·.tag.container?) = some (ref, kind))

/-- The caller is written as a field. -/
theorem Rewrites.of_field {target : Expr} {field : Ident} {index : Option Nat} {span : Span}
    {m : MethodCall} (h : Rewrites c s (.field target field index span) m) :
    CallsMethod c s (.field target field index span) m ∨
      CallsMarkedField c s (.field target field index span) m := by
  obtain ⟨_, _, signature, _, hrun, howner⟩ := h
  obtain ⟨found, t, hrun, hfunction⟩ := single_value_eq_ok hrun
  obtain ⟨⟨target', value⟩, u, htarget, hrun⟩ := bind_eq_ok hrun
  have hfound : found ≠ .invalid := by
    rintro rfl
    cases hfunction
  have hother (ref : DeclRef) : found ≠ .enumField ref := by
    rintro rfl
    cases hfunction
  obtain ⟨ref, kind, _, _, rfl, hnode, hmember⟩ := fieldAccess_eq_ok hrun hfound hother
  obtain ⟨members, hmembers, hcase⟩ := memberValue_eq_ok hmember hfound
  obtain ⟨receiver, owner, ownerKind, method, _⟩ := m
  obtain ⟨rfl, rfl, -, -⟩ := Expr.field.inj hnode
  rcases hcase with ⟨position, v, hfield, rfl⟩ | ⟨method, hmethod, rfl⟩
  · exact .inr ⟨v, signature, ref, kind, hfunction, howner,
      .inl ⟨target, index, span, u, members, position, rfl, htarget, hmembers, hfield⟩⟩
  · cases hfunction
    cases howner
    exact .inl ⟨target, u, members, .inl ⟨index, span, rfl⟩, htarget, hmembers,
      Option.isSome_of_eq_some hmethod⟩

/-- A change of the scopes leaves the declared members alone. -/
theorem members?_modifyOwn_scopes (c : Context) (s : State) (f : ScopeStack → ScopeStack)
    (ref : DeclRef) (kind : NamedKind) :
    (s.modifyOwn c fun env => { env with scopes := f env.scopes }).session.registry.members? ref
      kind = s.session.registry.members? ref kind := by
  unfold Registry.members?
  by_cases hid : ref.env = c.env
  · have hself := s.session.registry.get?_modify_self c.env fun env =>
      { env with scopes := f env.scopes }
    rw [hid]
    simp only [State.modifyOwn, hself]
    cases s.session.registry.get? c.env with
    | none => rfl
    | some env => cases kind <;> rfl
  · simp only [State.modifyOwn, Registry.get?_modify_ne _ _ hid]

/-- A member that becomes a field of `self` keeps its value, but a method gets its owner. -/
theorem selfField_eq_ok {id method : Ident} {ref : DeclRef} {kind : NamedKind} {value found : Value}
    {target : Expr} {index : Option Nat} {span : Span}
    (h : selfField id ref kind value c s = .ok ((.field target method index span, found), s')) :
    target = .self (some kind) id.span ∧ method = id ∧ (found = value ∨
      ∃ (signature : Signature) (members : Members),
        found = .function (signature.withOwner ref kind) ∧
        s.session.registry.members? ref kind = some members ∧
        members.hasMethod id.name = true) := by
  obtain ⟨stack, t, hscopes, hrun⟩ := bind_eq_ok h
  obtain ⟨rfl, -⟩ := scopes_eq_ok hscopes
  split at hrun
  · obtain ⟨_, _, -, hrun⟩ := bind_eq_ok hrun
    cases hrun
  · obtain ⟨members, _, hread, hrun⟩ := bind_eq_ok hrun
    obtain ⟨hmembers, rfl⟩ := Prod.mk.inj (Except.ok.inj hread)
    obtain ⟨hnode, hvalue⟩ := Prod.mk.inj (Prod.mk.inj (Except.ok.inj hrun)).1
    obtain ⟨rfl, rfl, -, -⟩ := Expr.field.inj hnode
    refine ⟨rfl, rfl, ?_⟩
    cases value with
    | function signature =>
      dsimp only at hvalue
      split at hvalue
      · next hmethod =>
        cases members with
        | none => cases hmethod
        | some members => exact .inr ⟨signature, members, hvalue.symm, hmembers, hmethod⟩
      · exact .inl hvalue.symm
    | _ => exact .inl hvalue.symm

/-- The caller is a name, and `self` is left out. -/
theorem Rewrites.of_ident {id : Ident} {m : MethodCall} {env : Environment} {o : ScopeStack}
    {regions : List Region} (h : Rewrites c s (.ident id) m) (hown : s.own? c = some env)
    (ho : env.scopes.outline = o) (hfollows : Follows regions o) (helsewhere : Elsewhere regions) :
    CallsMethod c s (.ident id) m ∨ CallsMarkedField c s (.ident id) m := by
  obtain ⟨receiver, owner, ownerKind, method, callSpan⟩ := m
  obtain ⟨_, _, signature, _, hsingle, howner⟩ := h
  dsimp only at hsingle howner
  obtain ⟨value, t, hrun, hfunction⟩ := single_value_eq_ok hsingle
  rcases identifier_cases hrun with hleaf | ⟨env', position, v, ref, kind, hown', hresolve, hv,
    hconstant, hcontainer, hself⟩
  · cases hleaf
  obtain rfl := Option.some.inj (hown.symm.trans hown')
  -- The name is accepted, so it is inside a member and `self` is the instance.
  have hjudged := hfollows.judges_name hown ho helsewhere
    ⟨position, v, hresolve, hv, hconstant, hcontainer⟩ none
  have hin : InMember ref kind regions := by
    by_contra hno
    obtain ⟨_, hrefused, -⟩ := hjudged.refuses hno
    rw [hrefused] at hrun
    cases hrun
  obtain ⟨hinstance, -⟩ := (hfollows.judges_self hown ho helsewhere (some kind) id.span
    none).accepts ref kind hin
  have hreceiver : single (expr (.self (some kind) id.span) none) c s =
      .ok ((.self (some kind) id.span, instanceOf ref kind), s) := by
    rw [single, bind_apply_ok hinstance]
    cases kind <;> rfl
  obtain ⟨rfl, rfl, rfl | ⟨found, members, rfl, hmembers, hmethod⟩⟩ := selfField_eq_ok hself
  · exact .inr ⟨v, signature, ref, kind, hfunction, howner,
      .inr ⟨env, position, rfl, hown, hresolve, hv, hcontainer⟩⟩
  · cases hfunction
    cases howner
    have hregistered := (members?_modifyOwn_scopes c s (·.modifyVariable position method.name
      fun v => { v with isUsed := true }) owner ownerKind).symm.trans hmembers
    exact .inl ⟨_, s, members, .inr ⟨rfl, rfl⟩, hreceiver, hregistered, hmethod⟩

/-- A call that becomes a method call calls a method, or a field with a function that was one. -/
theorem Rewrites.cases {caller : Expr} {m : MethodCall} {env : Environment} {o : ScopeStack}
    {regions : List Region} (h : Rewrites c s caller m) (hown : s.own? c = some env)
    (ho : env.scopes.outline = o) (hfollows : Follows regions o) (helsewhere : Elsewhere regions) :
    CallsMethod c s caller m ∨ CallsMarkedField c s caller m := by
  obtain ⟨index, span, signature, s', hrun, howner⟩ := h
  obtain ⟨value, t, hexpr, -⟩ := single_value_eq_ok hrun
  rcases (gives_expr_field caller none _ _ _ _ hexpr).1 rfl with hfield | ⟨id, rfl⟩
  · cases caller with
    | field target field index' span' => exact Rewrites.of_field ⟨_, _, _, _, hrun, howner⟩
    | _ => cases hfield
  · exact Rewrites.of_ident ⟨_, _, _, _, hrun, howner⟩ hown ho hfollows helsewhere

end Check

end HybroidSema
