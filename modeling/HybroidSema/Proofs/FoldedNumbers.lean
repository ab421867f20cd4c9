import HybroidSema.Proofs.MethodOwners
import HybroidSema.Proofs.Reached

/-!
# Numbers that are known

The number of a literal is known while an expression is checked, and a constant keeps it. What can
change forgets it when it is stored, but a field that has no type takes the value of its initializer
as it is. So an index is refused for a number that is fixed, or for one that a field had once.

* `Check.NumberFrom`: where the known number of an expression comes from.
* `Check.numberFrom_of_expr`: by recursion on the expression, in any tidy state.
* `known_numbers_of_constants_or_fields`: in every build.
* `analyze_folds_field`: an index is refused for the number that a field had once.
-/

namespace HybroidSema

open Check

/-! ## Values without a known number -/

theorem Value.literal?_callValue (returns : List Ty) :
    (callValue returns).single.literal? = none := by
  match returns with
  | [] => rfl
  | [ty] =>
    rw [callValue, List.map_singleton, ofList, single_of_isPlain ty.isPlain_toValue]
    exact ty.literal?_toValue
  | ty :: _ :: _ => exact ty.literal?_toValue

theorem Library.literal?_of_binding? {l : Library} {name : String} {v : Variable}
    (h : l.binding? name = some v) : v.value.literal? = none := by
  rcases binding_cases h with ⟨_, rfl⟩ | ⟨_, -, rfl⟩ <;> rfl

/-- Whether the alert refuses an index for its number. -/
def AlertKind.refusesNumber : AlertKind → Bool
  | .listIndexOutOfBounds _ | .invalidListIndex _ => true
  | _ => false

namespace Check

variable {c : Context} {d : List Bool} {s s' : State} {k : Demands}

/-! ## What an expression without a known number is -/

/-- A known number of a unary operation is that of the operand of a negation. -/
theorem gives_unaryValue_number (op : UnaryOp) {operand : Value} (hplain : operand.isPlain = true)
    (span : Span) : Gives (unaryValue op operand span) fun v =>
      v.single.literal?.isSome → op = .neg ∧ operand.literal?.isSome := by
  cases op with
  | not => exact .guard fun _ => .pure nofun
  | neg =>
    dsimp only [unaryValue]
    split
    · exact .pure nofun
    · split
      · exact .bind fun _ => .pure nofun
      · refine .pure fun hnumber => ⟨rfl, ?_⟩
        cases operand with
        | number literal => simpa [negatedValue, Value.single, Value.literal?] using hnumber
        | tuple values => cases hplain
        | _ => cases hnumber
  | len => exact .guard fun _ => .pure nofun

/-- The number of a binary operation is not known. -/
theorem gives_binaryValue_number (op : BinaryOp) {left : Value} (hplain : left.isPlain = true)
    (right : Value) (span : Span) :
    Gives (binaryValue op left right span) fun v => v.single.literal? = none := by
  have harithmetic : (arithmeticValue left).single.literal? = none := by
    cases left with
    | tuple values => cases hplain
    | _ => rfl
  unfold binaryValue
  dsimp only
  split
  · split <;> exact .pure rfl
  · split
    · split
      · exact .bind fun _ => .pure rfl
      · exact .pure harithmetic
    · split
      · exact .bind fun _ => .pure rfl
      · exact .pure rfl
    · exact .guard fun _ => .pure rfl
    · exact .bind fun _ => .bind fun _ => .pure rfl
    · exact .bind fun _ => .bind fun _ => .pure rfl

/-- The number of an element is not known. -/
theorem gives_elementValue_number (target : Expr) (value : Value) (index : Expr)
    (indexValue : Value) :
    Gives (elementValue target value index indexValue) fun v => v.single.literal? = none := by
  have helement (ty : Ty) : ty.toValue.single.literal? = none := by
    rw [Value.single_of_isPlain ty.isPlain_toValue, ty.literal?_toValue]
  unfold elementValue
  split
  · exact .bind fun _ => .pure (helement _)
  · exact .guard fun _ => .pure (helement _)
  · exact .pure rfl
  · exact .bind fun _ => .pure rfl

theorem gives_matchValue_number (arms : ArmCount) (closed : Option Scope) (span : Span) :
    Gives (matchValue arms closed span) fun p => p.2.single.literal? = none := by
  refine .guard fun _ => .guard fun _ => .guard fun _ => ?_
  split
  · exact .pure rfl
  · exact .pure (Value.literal?_callValue _)

theorem gives_selfValue_number (span : Span) :
    Gives (selfValue span) fun p => p.2.single.literal? = none := by
  refine .bind fun _ => ?_
  split
  · exact .bind fun _ => .pure rfl
  · refine .bind fun _ => ?_
    split
    · exact .pure rfl
    · exact .pure rfl
    · exact .bind fun _ => .pure rfl

theorem gives_enumName_number (id : Ident) :
    Gives (enumName id) fun r => r.2.literal? = none := by
  refine .bind fun env => ?_
  split
  · exact .pure rfl
  · refine .bind fun found => ?_
    split
    · refine .bind fun _ => ?_
      split
      · exact .pure rfl
      · exact .bind fun _ => .pure rfl
    · exact .bind fun _ => .pure rfl

theorem gives_selfField_number (id : Ident) (owner : DeclRef) (kind : NamedKind) (value : Value) :
    Gives (selfField id owner kind value) fun r => r.2.literal?.isSome → r.2 = value := by
  refine .bind fun stack => ?_
  dsimp only
  split
  · exact .bind fun _ => .pure nofun
  · refine .bind fun members => .pure fun hnumber => ?_
    cases value with
    | function signature => dsimp only at hnumber ⊢; split at hnumber <;> cases hnumber
    | _ => rfl

theorem gives_builtinValue_number (id : Ident) :
    Gives (builtinValue id) fun v => v.single.literal? = none := by
  unfold builtinValue
  split
  · next v hv =>
    refine .pure ?_
    have hplain : v.value.isPlain = true := by
      rcases Library.binding_cases hv with ⟨_, rfl⟩ | ⟨_, -, rfl⟩ <;> rfl
    rw [Value.single_of_isPlain hplain, Library.literal?_of_binding? hv]
  · exact .bind fun _ => .pure rfl

/-- Whether the value of an expression depends on the number of a part, or may have one itself. -/
def mayFold : Expr → Bool
  | .literal _ | .ident _ | .envAccess _ _ _ | .unary _ _ _ | .binary _ _ _ _ | .group _ _
  | .field _ _ _ _ => true
  | _ => false

/-- The number of any other expression is not known. -/
theorem gives_expr_number (e : Expr) (hint : Option Ty) (h : mayFold e = false) :
    Gives (expr e hint) fun r => r.2.single.literal? = none := by
  have hinstance {α : Type} (ref : Option α) {f : α → Value}
      (hf : ∀ a, (f a).single.literal? = none) :
      ((ref.map f).getD .invalid).single.literal? = none := by
    cases ref with
    | none => rfl
    | some a => exact hf a
  cases e with
  | literal | ident | envAccess | unary | binary | group | field => cases h
  | builtin id => exact .bind_of (gives_builtinValue_number id) fun _ hv => .pure hv
  | list elems span => exact .bind fun _ => .bind fun _ => .pure rfl
  | map entries span => exact .bind fun _ => .bind fun _ => .pure rfl
  | call caller generics args returnAmount span =>
    refine .bind fun p => ?_
    obtain ⟨caller', callee⟩ := p
    dsimp only
    split
    · exact .bind fun _ => .pure (Value.literal?_callValue _)
    · exact .guard fun _ => .bind fun _ => .pure rfl
  | methodCall receiver owner kind method generics args returnAmount span =>
    refine .bind fun _ => .bind fun called => ?_
    cases called with
    | found signature => exact .bind fun _ => .pure (Value.literal?_callValue _)
    | missing => exact .bind fun _ => .pure rfl
    | ownerless => exact .pure rfl
  | member target index span =>
    exact .bind fun _ => .bind fun _ => .bind_of (gives_elementValue_number _ _ _ _) fun _ hv =>
      .pure hv
  | self owner span => exact .bind_of (gives_selfValue_number span) fun _ hv => .pure hv
  | new ty generics args span =>
    refine .bind fun found => ?_
    obtain ⟨ref, _ | signature⟩ := found
    · exact .bind fun _ => .pure (hinstance ref fun _ => rfl)
    · exact .bind fun _ => .pure (hinstance ref fun _ => rfl)
  | spawn ty generics args span =>
    refine .bind fun found => ?_
    obtain ⟨ref, _ | signature⟩ := found
    · exact .bind fun _ => .pure (hinstance ref fun _ => rfl)
    · exact .bind fun _ => .pure (hinstance ref fun _ => rfl)
  | function params returns stmts span => exact .bind fun _ => .bind fun _ => .pure rfl
  | matching subject arms returnAmount span =>
    exact .bind fun _ => .bind fun _ => .bind_of (gives_matchValue_number _ _ _) fun _ hv => .pure hv
  | entityTest value ty binding negated official span =>
    exact .bind fun _ => .bind fun _ => .bind fun _ => .pure rfl
  | error span => exact .pure rfl

/-! ## Names -/

/-- The known number of a name is that of the variable that it stands for. -/
theorem identifier_number {id : Ident} {r : Expr × Value}
    (hrun : identifier id c s = .ok (r, s')) (hnumber : r.2.literal?.isSome) :
    ∃ env v, s.own? c = some env ∧ env.variableOf? s.session.registry id.name = some v ∧
      v.value = r.2 := by
  obtain ⟨stack, t, hscopes, hrest⟩ := bind_eq_ok hrun
  obtain ⟨rfl, env, hown, rfl⟩ := scopes_eq_ok hscopes
  cases hresolve : env.scopes.resolve? id.name with
  | none =>
    simp only [hresolve] at hrest
    cases hbuiltin : Library.builtin.binding? id.name with
    | some v =>
      simp only [hbuiltin] at hrest
      cases hrest
      exact ⟨env, v, hown, by rw [Environment.variableOf?, hresolve, hbuiltin]; rfl, rfl⟩
    | none =>
      simp only [hbuiltin] at hrest
      obtain ⟨own, w, henv, hrest⟩ := bind_eq_ok hrest
      obtain ⟨hw, hown'⟩ := environment_eq_ok henv
      subst w
      obtain rfl := Option.some.inj (hown.symm.trans hown')
      obtain ⟨found, u, hfound, hrest⟩ := bind_eq_ok (m := importedVariable? id env.imports) hrest
      obtain ⟨-, hfind, -⟩ := reads_importedVariable? id env.imports _ _ _ rfl hfound
      have hvariable : env.variableOf? t.session.registry id.name = found.map Prod.snd := by
        rw [Environment.variableOf?, hresolve, hbuiltin, ← hfind]
        rfl
      cases found with
      | none => simp [gives_enumName_number id _ _ _ _ hrest] at hnumber
      | some p =>
        obtain ⟨target, v⟩ := p
        refine ⟨env, v, hown, hvariable, ?_⟩
        cases hconstant : v.constant with
        | some lit =>
          simp only [hconstant] at hrest
          cases hrest
          rfl
        | none =>
          simp only [hconstant] at hrest
          obtain ⟨_, _, -, hrest⟩ := bind_eq_ok hrest
          cases hrest
          rfl
  | some position =>
    obtain ⟨v, hv⟩ := ScopeStack.exists_binding?_of_resolve? hresolve
    refine ⟨env, v, hown, by rw [Environment.variableOf?, hresolve]; exact hv, ?_⟩
    simp only [hresolve] at hrest
    unfold scopedName at hrest
    rw [bind_apply_ok (scopes_eq hown)] at hrest
    simp only [hv] at hrest
    rw [bind_apply_ok (modifyScopes_eq hown _)] at hrest
    cases hconstant : v.constant with
    | some lit =>
      simp only [hconstant] at hrest
      cases hrest
      rfl
    | none =>
      cases hcontainer : (env.scopes.get? position).bind (·.tag.container?) with
      | none =>
        simp only [hconstant, hcontainer] at hrest
        cases hrest
        rfl
      | some owner =>
        simp only [hconstant, hcontainer] at hrest
        exact (gives_selfField_number id owner.1 owner.2 v.value _ _ _ _ hrest hnumber).symm

/-- The known number of a qualified name is that of the variable that it stands for. -/
theorem qualifiedName_number {q name : Ident} {span : Span} {r : Expr × Value}
    (hrun : qualifiedName q name span c s = .ok (r, s')) (hnumber : r.2.literal?.isSome) :
    ∃ target t v, s.session.registry.lookup? q.name = some target ∧
      link target span c s = .ok (true, t) ∧
      t.session.registry.variableOf? target name.name = some v ∧ v.value = r.2 := by
  obtain ⟨registry, _, hregistry, hrun⟩ := bind_eq_ok hrun
  cases hregistry
  cases htarget : s.session.registry.lookup? q.name with
  | none =>
    simp only [htarget] at hrun
    obtain ⟨_, _, -, hrun⟩ := bind_eq_ok hrun
    cases hrun
    cases hnumber
  | some target =>
    simp only [htarget] at hrun
    obtain ⟨linked, t, hlink, hrun⟩ := bind_eq_ok hrun
    cases linked with
    | false =>
      cases hrun
      cases hnumber
    | true =>
      refine ⟨target, t, ?_⟩
      obtain ⟨found, u, hfound, hrun⟩ := bind_eq_ok (m := qualified? target name.name) hrun
      unfold qualified? at hfound
      rw [bind_apply_ok (foreignVariable?_eq target name.name)] at hfound
      cases hv : t.session.registry.variableOf? target name.name with
      | none =>
        simp only [hv] at hfound
        obtain ⟨info, _, -, hfound⟩ := bind_eq_ok hfound
        cases info with
        | none =>
          cases hfound
          obtain ⟨_, _, -, hrun⟩ := bind_eq_ok hrun
          cases hrun
          cases hnumber
        | some info =>
          cases hfound
          obtain ⟨own, _, -, hrun⟩ := bind_eq_ok hrun
          obtain ⟨_, -, hrun⟩ := guard_eq_ok hrun
          cases hrun
          cases hnumber
      | some v =>
        refine ⟨v, rfl, hlink, rfl, ?_⟩
        simp only [hv] at hfound
        cases hfound
        obtain ⟨own, _, -, hrun⟩ := bind_eq_ok hrun
        obtain ⟨_, -, hrun⟩ := guard_eq_ok hrun
        cases hconstant : v.constant <;> simp only [hconstant] at hrun <;> cases hrun <;> rfl

/-! ## Where a known number comes from -/

/-- Where the known number of an expression in a state comes from: it is a literal, the name of a
constant, or a field of a class or entity whose value has a known number. -/
inductive NumberFrom (c : Context) (s : State) : Expr → Prop
  | literal (lit : Literal) (hkind : lit.kind = .number) : NumberFrom c s (.literal lit)
  | constant {id : Ident} {env : Environment} {v : Variable} (hown : s.own? c = some env)
      (hv : env.variableOf? s.session.registry id.name = some v) (hconst : v.isConst = true) :
    NumberFrom c s (.ident id)
  | qualified {q name : Ident} {span : Span} {target : EnvId} {t : State} {v : Variable}
      (htarget : s.session.registry.lookup? q.name = some target)
      (hlink : link target span c s = .ok (true, t))
      (hv : t.session.registry.variableOf? target name.name = some v) (hconst : v.isConst = true) :
    NumberFrom c s (.envAccess q name span)
  | member {id : Ident} {env : Environment} {ref : DeclRef} {kind : NamedKind}
      (hown : s.own? c = some env) (hnames : NamesMember env.scopes id ref kind) :
    NumberFrom c s (.ident id)
  | field {target target' : Expr} {name : Ident} {index : Option Nat} {span : Span} {t : State}
      {ref : DeclRef} {kind : NamedKind} {members : Members} {position : Nat} {v : Variable}
      (htarget : single (expr target none) c s = .ok ((target', instanceOf ref kind), t))
      (hmembers : t.session.registry.members? ref kind = some members)
      (hfield : members.field? name.name = some (position, v))
      (hnumber : v.value.literal?.isSome) :
    NumberFrom c s (.field target name index span)
  | negated {operand : Expr} {span : Span} (h : NumberFrom c s operand) :
    NumberFrom c s (.unary .neg operand span)
  | group {inner : Expr} {span : Span} (h : NumberFrom c s inner) :
    NumberFrom c s (.group inner span)

/-- What one environment offers to others forgets its number if it can change. -/
theorem forgets_foreign {r : Registry} (h : r.Fine True) {target : EnvId} {name : String}
    {v : Variable} (hv : r.variableOf? target name = some v) : v.Forgets := by
  unfold Registry.variableOf? at hv
  split at hv
  · exact fun _ => Library.literal?_of_binding? hv
  · obtain ⟨env, henv, hv⟩ := Option.bind_eq_some_iff.1 hv
    obtain ⟨⟨hroot, hcontainer⟩, -⟩ := ScopeStack.fine_iff.1 (h.envs _ env henv).scopes
    exact (hroot.numbers trivial (hcontainer trivial)).get? hv

/-- What a name stands for forgets its number if it can change, unless it is the name of a member of
the class or entity around it. -/
theorem forgets_variableOf? {env : Environment} {id : Ident} {v : Variable}
    (hfine : s.session.registry.Fine True) (hown : s.own? c = some env)
    (hv : env.variableOf? s.session.registry id.name = some v) :
    v.Forgets ∨ ∃ ref kind, NamesMember env.scopes id ref kind := by
  have hscopes := (hfine.envs _ env hown).scopes
  unfold Environment.variableOf? at hv
  split at hv
  · next position hposition =>
    obtain ⟨scope, hscope, hget⟩ := Option.bind_eq_some_iff.1 hv
    have hbody := hscopes.get? hscope
    cases hcontainer : scope.tag.container? with
    | none =>
      refine .inl ((hbody.numbers trivial ?_).get? hget)
      rw [Scope.isContainer, hcontainer]
      rfl
    | some owner =>
      cases hconstant : v.constant with
      | some lit =>
        have hconst := (hbody.bindings.get? hget).constant (Option.isSome_of_eq_some hconstant)
        exact .inl fun hno => Bool.noConfusion (hconst.symm.trans hno)
      | none =>
        refine .inr ⟨owner.1, owner.2, position, v, hposition, hv, hconstant, ?_⟩
        rw [hscope]
        exact hcontainer
  · rw [Option.orElse_eq_orElse, Option.orElse_eq_or, Option.or_eq_some_iff] at hv
    rcases hv with hv | ⟨-, hv⟩
    · exact .inl fun _ => Library.literal?_of_binding? hv
    · obtain ⟨target, -, hv⟩ := List.exists_of_findSome?_eq_some hv
      exact .inl (forgets_foreign hfine hv)

/-- What knows its number and forgets it if it can change is a constant. -/
theorem isConst_of_forgets {v : Variable} (h : v.Forgets) (hnumber : v.value.literal?.isSome) :
    v.isConst = true := by
  by_contra hno
  rw [h (by simpa using hno)] at hnumber
  cases hnumber

/-- The known number of an expression comes from a literal, a constant or a field. -/
theorem numberFrom_of_expr {n : Nat} (hs : Tidy (.plainness n) c d s) (e : Expr)
    {hint : Option Ty} {r : Expr × Value} {s' : State}
    (hhint : ∀ ty ∈ hint, ty.Declared s.session.registry) (hrun : expr e hint c s = .ok (r, s'))
    (hnumber : r.2.single.literal?.isSome) : NumberFrom c s e := by
  have hno {P : Prop} : (Demands.plainness n).fits → P := False.elim
  cases e with
  | literal lit =>
    cases hrun
    rw [Value.single_of_isPlain lit.isPlain_toValue] at hnumber
    refine .literal lit ?_
    unfold Literal.toValue at hnumber
    split at hnumber
    · assumption
    all_goals cases hnumber
  | ident id =>
    have hplain := ((sound_identifier id).apply hs (.refl _) hrun).2.2.isPlain trivial
    rw [Value.single_of_isPlain hplain] at hnumber
    obtain ⟨env, v, hown, hv, hvalue⟩ := identifier_number hrun hnumber
    rcases forgets_variableOf? hs.fine hown hv with hforgets | ⟨ref, kind, hnames⟩
    · exact .constant hown hv (isConst_of_forgets hforgets (hvalue ▸ hnumber))
    · exact .member hown hnames
  | envAccess q name span =>
    have hplain := ((sound_qualifiedName q name span).apply hs (.refl _) hrun).2.2.isPlain trivial
    rw [Value.single_of_isPlain hplain] at hnumber
    obtain ⟨target, t, v, htarget, hlink, hv, hvalue⟩ := qualifiedName_number hrun hnumber
    obtain ⟨ht, -, -⟩ := (sound_link target span).apply hs (.refl _) hlink
    exact .qualified htarget hlink hv
      (isConst_of_forgets (forgets_foreign ht.fine hv) (hvalue ▸ hnumber))
  | unary op operand span =>
    obtain ⟨⟨operand', value⟩, t, hoperand, hrun⟩ := bind_eq_ok hrun
    obtain ⟨v, u, hvalue, hrun⟩ := bind_eq_ok (m := unaryValue op value span) hrun
    cases hrun
    obtain ⟨-, -, hone⟩ := (sound_expr operand hno _ d declared_none).single.apply hs (.refl _)
      hoperand
    obtain ⟨rfl, hknown⟩ := gives_unaryValue_number op (hone.isPlain trivial) span _ _ _ _ hvalue
      hnumber
    obtain ⟨several, w, hoperand, hfirst⟩ := single_value_eq_ok hoperand
    exact .negated (numberFrom_of_expr hs operand declared_none hoperand (hfirst ▸ hknown))
  | binary left op right span =>
    obtain ⟨before, t₀, hbefore, hrun⟩ := bind_eq_ok hrun
    cases hbefore
    obtain ⟨⟨left', leftValue⟩, t, hleft, hrun⟩ := bind_eq_ok hrun
    obtain ⟨⟨right', rightValue⟩, u, -, hrun⟩ := bind_eq_ok hrun
    obtain ⟨w, -, hrun⟩ := guard_eq_ok hrun
    obtain ⟨v, x, hvalue, hrun⟩ := bind_eq_ok (m := binaryValue op leftValue rightValue span) hrun
    cases hrun
    obtain ⟨-, -, hone⟩ := (sound_expr left hno _ d declared_none).single.apply hs (.refl _) hleft
    rw [gives_binaryValue_number op (hone.isPlain trivial) rightValue span _ _ _ _ hvalue] at hnumber
    cases hnumber
  | group inner span =>
    obtain ⟨⟨inner', value⟩, t, hinner, hrun⟩ := bind_eq_ok hrun
    cases hrun
    exact .group (numberFrom_of_expr hs inner hhint hinner hnumber)
  | field target name index span =>
    obtain ⟨⟨target', value⟩, t, htarget, hrun⟩ := bind_eq_ok hrun
    obtain ⟨ht, -, hone⟩ := (sound_expr target hno _ d declared_none).single.apply hs (.refl _)
      htarget
    have hplain := ((sound_fieldAccess target' hone name index span).apply ht (.refl _)
      hrun).2.2.isPlain trivial
    rw [Value.single_of_isPlain hplain] at hnumber
    have hknown {v : Value} (hv : v.literal? = none) : r.2 ≠ v := by
      rintro rfl
      rw [hv] at hnumber
      cases hnumber
    obtain ⟨ref, kind, _, position, rfl, -, hmember⟩ :=
      fieldAccess_eq_ok hrun (hknown rfl) fun _ => hknown rfl
    obtain ⟨members, hmembers, hcase⟩ := memberValue_eq_ok hmember (hknown rfl)
    rcases hcase with ⟨position, v, hfield, hvalue⟩ | ⟨method, -, hvalue⟩
    · exact .field htarget hmembers hfield (hvalue ▸ hnumber)
    · exact absurd hvalue (hknown rfl)
  | _ =>
    have hnone := gives_expr_number _ hint rfl _ _ _ _ hrun
    rw [hnone] at hnumber
    cases hnumber

/-! ## Indices -/

/-- Alerts were added, and an index was refused for its number only under the condition. -/
def RefusesIf (s s' : State) (b : Prop) : Prop :=
  ∃ more, s'.alerts.alerts = s.alerts.alerts ++ more ∧
    ∀ a ∈ more, a.kind.refusesNumber = true → b

theorem RefusesIf.refl (s : State) (b : Prop) : RefusesIf s s b :=
  ⟨[], (List.append_nil _).symm, nofun⟩

theorem RefusesIf.of_report {kind : AlertKind} {span : Span} {b : Prop}
    (hrun : report kind span c s = .ok ((), s')) (h : kind.refusesNumber = true → b) :
    RefusesIf s s' b := by
  cases hrun
  refine ⟨[⟨kind, span, [], none⟩], rfl, fun a ha => ?_⟩
  rw [List.mem_singleton.1 ha]
  exact h

theorem checkListIndex_refuses {known : Value} {span : Span}
    (hrun : checkListIndex known span c s = .ok ((), s')) :
    RefusesIf s s' known.literal?.isSome := by
  unfold checkListIndex at hrun
  split at hrun
  · exact .of_report hrun nofun
  · cases hknown : known.literal? with
    | none =>
      simp only [hknown] at hrun
      cases hrun
      exact .refl _ _
    | some number =>
      simp only [hknown] at hrun
      split at hrun
      · exact .of_report hrun fun _ => rfl
      · split at hrun
        · exact .of_report hrun fun _ => rfl
        · cases hrun
          exact .refl _ _

/-- An index is refused for its number only if the number is known. -/
theorem elementValue_refuses {target index : Expr} {value known element : Value}
    (hrun : elementValue target value index known c s = .ok (element, s')) :
    RefusesIf s s' known.literal?.isSome := by
  unfold elementValue at hrun
  split at hrun
  · obtain ⟨_, t, hcheck, hrun⟩ := bind_eq_ok hrun
    cases hrun
    exact checkListIndex_refuses hcheck
  · split at hrun
    · obtain ⟨_, t, hcheck, hrun⟩ := bind_eq_ok hrun
      cases hrun
      exact .of_report hcheck nofun
    · cases hrun
      exact .refl _ _
  · cases hrun
    exact .refl _ _
  · obtain ⟨_, t, hcheck, hrun⟩ := bind_eq_ok hrun
    cases hrun
    exact .of_report hcheck nofun

end Check

/-! ## In every build -/

/-- Outside the bodies of classes and entities, no variable that can change knows its number. -/
def Registry.Forgets (r : Registry) : Prop :=
  ∀ id env, r.get? id = some env → ∀ scope ∈ env.scopes.chain, scope.isContainer = false →
    scope.bindings.Forall Variable.Forgets

theorem Registry.Fine.forgets {r : Registry} (h : r.Fine True) : r.Forgets :=
  fun id env henv scope hscope hother =>
    ((h.envs id env henv).scopes.scopes scope hscope).numbers trivial hother

/-- A known number is that of a literal, of a constant or of a field. Whatever a build comes to, no
variable outside the bodies of classes and entities knows its number if it can change: neither in the
sessions between walks nor in the states of a walk. A known number of an expression is that of a
literal, of a constant, or of a field of a class or entity, negated or not. So an element is refused
for the number of its index only if the index is one of these. -/
theorem known_numbers_of_constants_or_fields (config : Config) (files : List (String × Program)) :
    (∀ session, Arises config files session → session.registry.Forgets) ∧
    (∀ c s, Reached config files c s → s.session.registry.Forgets) ∧
    (∀ c e hint s, Visited config files c (.expr e hint) s → ∀ r t,
      expr e hint c s = .ok (r, t) → r.2.single.literal?.isSome → NumberFrom c s e) ∧
    ∀ c target index span hint s,
      Visited config files c (.expr (.member target index span) hint) s → ∀ target' value t index'
        known u, single (expr target none) c s = .ok ((target', value), t) →
      single (expr index none) c t = .ok ((index', known), u) → ∀ element w,
      elementValue target' value index' known c u = .ok (element, w) →
      RefusesIf u w (NumberFrom c t index) := by
  refine ⟨fun session h => ?_, fun c s h => ?_, fun c e hint s h r t hrun hnumber => ?_,
    fun c target index span hint s h target' value t index' known u htarget hindex element w
      hrun => ?_⟩
  · obtain ⟨n, hready⟩ := h.readyFor (k := .plainness 0) not_false
    exact hready.fine.forgets
  · obtain ⟨n, d, hs⟩ := h.tidy (k := .plainness 0) not_false not_false
    exact hs.fine.forgets
  · obtain ⟨n, d, hs, hhint⟩ := h.tidy (k := .plainness 0) not_false
    exact numberFrom_of_expr hs e hhint hrun hnumber
  · obtain ⟨n, d, hs, -⟩ := h.tidy (k := .plainness 0) not_false
    obtain ⟨ht, -, -⟩ := (sound_expr target (k := .plainness n) False.elim _ d
      declared_none).single.apply hs (.refl _) htarget
    obtain ⟨more, hmore, hrefuses⟩ := elementValue_refuses hrun
    refine ⟨more, hmore, fun a ha hkind => ?_⟩
    obtain ⟨several, v, hindex, hfirst⟩ := single_value_eq_ok hindex
    exact numberFrom_of_expr ht index declared_none hindex (hfirst ▸ hrefuses a ha hkind)

/-- `[1][k]` -/
def elementByConstant : Expr :=
  .member (.list [.literal ⟨.number, "1", .synthetic⟩] .synthetic) (.ident ⟨"k", .synthetic⟩)
    .synthetic

/-- A list that is indexed with a constant of -1. -/
def indexByConstant : Program :=
  [.level "Main",
    .variable ⟨[⟨"k", .synthetic⟩], none,
      [.unary .neg (.literal ⟨.number, "1", .synthetic⟩) .synthetic], false, true, .synthetic⟩,
    .expr elementByConstant]

/-- The index is refused for the number of the constant, and that is where the number comes from. -/
theorem known_numbers_of_constants_or_fields_constant :
    ∃ c s t target index u element w,
      Visited {} [("main.hyb", indexByConstant)] c (.expr elementByConstant none) s ∧
      single (expr (.ident ⟨"k", .synthetic⟩) none) c t = .ok (index, u) ∧
      elementValue target (.list .number) index.1 index.2 c u = .ok (element, w) ∧
      w.alerts.alerts.any (·.kind.refusesNumber) = true ∧
      NumberFrom c t (.ident ⟨"k", .synthetic⟩) := by
  obtain ⟨-, -, -, hrefuses⟩ :=
    known_numbers_of_constants_or_fields {} [("main.hyb", indexByConstant)]
  have hbegins : Begins {} [("main.hyb", indexByConstant)] 0 indexByConstant (.user 0)
      { session := (Session.ofFiles {} [("main.hyb", indexByConstant)]).checkOut (.user 0) 0 } :=
    .first (i := 0) rfl rfl rfl rfl rfl
  obtain ⟨s, hvisited, target, t, index, u, htarget, hindex, hempty, hrefused⟩ :
      ∃ s, Visited {} [("main.hyb", indexByConstant)] ⟨.user 0, Session.walk 0⟩
        (.expr elementByConstant none) s ∧
      ∃ target t index u,
        single (expr (.list [.literal ⟨.number, "1", .synthetic⟩] .synthetic) none)
          ⟨.user 0, Session.walk 0⟩ s = .ok ((target, .list .number), t) ∧
        single (expr (.ident ⟨"k", .synthetic⟩) none) ⟨.user 0, Session.walk 0⟩ t =
          .ok (index, u) ∧ u.alerts.alerts = [] ∧
        (elementValue target (.list .number) index.1 index.2 ⟨.user 0, Session.walk 0⟩
          u).toOption.any (fun r => r.2.alerts.alerts.any (·.kind.refusesNumber)) = true :=
    ⟨_, ⟨0, _, _, _, _, _, hbegins, rfl, ⟨_, rfl⟩,
      .into (List.mem_cons_of_mem _ (List.mem_cons_self ..)) rfl <|
        .into (List.mem_cons_self ..) rfl <| .into (List.mem_cons_self ..) rfl (.here _ _)⟩,
      _, _, _, _, rfl, rfl, rfl, by decide +kernel⟩
  cases hrun : elementValue target (.list .number) index.1 index.2 ⟨.user 0, Session.walk 0⟩ u with
  | error e =>
    rw [hrun] at hrefused
    cases hrefused
  | ok r =>
    rw [hrun] at hrefused
    refine ⟨_, s, t, target, index, u, r.1, r.2, hvisited, hindex, hrun, hrefused, ?_⟩
    obtain ⟨more, hmore, h⟩ :=
      hrefuses _ _ _ _ _ _ hvisited _ _ _ _ _ _ htarget hindex _ _ hrun
    rw [hempty, List.nil_append] at hmore
    obtain ⟨a, ha, hkind⟩ := List.any_eq_true.1 hrefused
    exact h a (hmore ▸ ha) hkind

/-! ## A field that changes -/

/-- A class with a field `f` of `-5` that the constructor sets to 1, and a list that is indexed with
the field of an instance. -/
def indexByField : Program :=
  let f : Ident := ⟨"f", .synthetic⟩
  let one : Expr := .literal ⟨.number, "1", .synthetic⟩
  [.level "Main",
    .classDecl ⟨⟨"C", .synthetic⟩, false,
      [⟨[f], none, [.unary .neg (.literal ⟨.number, "5", .synthetic⟩) .synthetic], false, false,
        .synthetic⟩], [],
      some ⟨[], [], [.assign [.field (.self none .synthetic) f none .synthetic] .plain [one]
        .synthetic], .synthetic⟩, .synthetic⟩,
    .variable ⟨[⟨"c", .synthetic⟩], none,
      [.new ⟨none, ⟨"C", .synthetic⟩, [], [], [], false, .synthetic⟩ [] [] .synthetic], false, false,
      .synthetic⟩,
    .variable ⟨[⟨"l", .synthetic⟩], none, [.list [one] .synthetic], false, false, .synthetic⟩,
    .expr (.member (.ident ⟨"l", .synthetic⟩)
      (.field (.ident ⟨"c", .synthetic⟩) f none .synthetic) .synthetic)]

/-- Whether a class of an environment has a field that is no constant and whose number is known. -/
def Environment.foldsField (env : Environment) : Bool :=
  env.classes.entries.any fun (_, info) =>
    info.members.fields.any fun v => !v.isConst && v.value.literal?.isSome

/-- A field that the constructor changes is registered with the number of its initializer, and an
index that reads the field is refused for it. -/
theorem analyze_folds_field :
    ∃ out, analyze {} [("main.hyb", indexByField)] = .ok out ∧
      out.registry.envs.any (·.foldsField) = true ∧
      out.codes = [[.listIndexOutOfBounds]] := by
  have hbuild : (analyze {} [("main.hyb", indexByField)]).toOption.any (fun out =>
      out.registry.envs.any (·.foldsField) && out.codes == [[.listIndexOutOfBounds]]) = true := by
    decide +kernel
  obtain ⟨out, hout, hfolds⟩ := Check.exists_eq_ok_of_any hbuild
  rw [Bool.and_eq_true, beq_iff_eq] at hfolds
  exact ⟨out, hout, hfolds⟩

end HybroidSema
