import HybroidSema.Proofs.ExitTargets
import HybroidSema.Proofs.Inference
import HybroidSema.Proofs.KeptNarrowings

/-!
# The hints of arguments

An argument is walked with the parameter at its position as a hint, and then compared with the parameter
that `paramAt?` gives for its position. The two are the same in front of a trailing variadic parameter.
From the variadic on every argument is compared with the element type, but the argument at its position
is walked with the variadic type and the later ones without a hint. An empty literal takes its element
type from the hint, so it is accepted in front of the variadic and never from it on.

* `InTail`: the positions from a trailing variadic on, and `getElem?_eq_paramAt?_iff`: where hints and
  parameters agree.
* `mem_argumentMismatches`: what is reported about single arguments, by induction on them.
* `Ty.substitute_empty` and `call_of_isPlain`: without generics, both come from the parameters as declared.
* `WalkedAt`: the argument at a position is walked with a hint, with `exists_walkedAt` and
  `WalkedAt.value`.
* `expr_emptyLiteral`: what an empty literal gives.
* `arguments_hinted_before_the_tail`: the arguments of every call without generics.
-/

namespace HybroidSema

variable {params : List Ty} {index : Nat}

/-! ## Positions -/

/-- The position belongs to the arguments that a trailing variadic parameter takes. -/
def InTail (params : List Ty) (index : Nat) : Prop :=
  params.getLast?.any Ty.isVariadic = true ∧ params.length - 1 ≤ index

instance (params : List Ty) (index : Nat) : Decidable (InTail params index) :=
  inferInstanceAs (Decidable (_ ∧ _))

/-- In front of a trailing variadic every position has its own parameter. -/
theorem paramAt?_of_not_inTail (h : ¬InTail params index) : paramAt? params index = params[index]? := by
  cases hvariadic : params.getLast?.any Ty.isVariadic with
  | false => exact paramAt?_eq_getElem? hvariadic index
  | true =>
    obtain ⟨elem, hlast⟩ := getLast?_of_variadic hvariadic
    rw [paramAt?_of_variadic hlast, if_neg fun hle => h ⟨hvariadic, hle⟩]

/-- No type is the variadic type of itself. -/
theorem Ty.variadic_ne (ty : Ty) : Ty.variadic ty ≠ ty := by
  intro h
  have hsize := congrArg sizeOf h
  simp at hsize

/-- From a trailing variadic on, the position has no parameter of its own, or the variadic type. -/
theorem InTail.getElem? (h : InTail params index) : ∃ elem, paramAt? params index = some elem ∧
    (params[index]? = none ∨ params[index]? = some (.variadic elem)) := by
  obtain ⟨hvariadic, hle⟩ := h
  obtain ⟨elem, hlast⟩ := getLast?_of_variadic hvariadic
  refine ⟨elem, by rw [paramAt?_of_variadic hlast, if_pos hle], ?_⟩
  rw [List.getLast?_eq_getElem?] at hlast
  obtain rfl | hlt := hle.eq_or_lt
  · exact .inr hlast
  · exact .inl (List.getElem?_eq_none (by omega))

/-- The parameter of a position is the one at the position exactly in front of a trailing variadic. -/
theorem getElem?_eq_paramAt?_iff : params[index]? = paramAt? params index ↔ ¬InTail params index := by
  refine ⟨fun heq htail => ?_, fun h => (paramAt?_of_not_inTail h).symm⟩
  obtain ⟨elem, hparam, hnone | hsome⟩ := htail.getElem?
  · rw [hparam, hnone] at heq
    cases heq
  · rw [hparam, hsome] at heq
    exact elem.variadic_ne (Option.some.inj heq)

/-! ## Comparison -/

/-- The alert about an argument that does not agree with its parameter. -/
def mismatch (index : Nat) (param arg : Ty) (span : Span) : Alert :=
  { kind := .invalidArgumentType (index + 1) param arg, span := span }

/-- Where a position has a parameter, so do the ones before it. -/
theorem isSome_paramAt?_of_le {i : Nat} (h : (paramAt? params index).isSome) (hle : i ≤ index) :
    (paramAt? params i).isSome := by
  cases hvariadic : params.getLast?.any Ty.isVariadic with
  | false =>
    rw [paramAt?_eq_getElem? hvariadic, isSome_getElem?] at h ⊢
    omega
  | true =>
    obtain ⟨elem, hlast⟩ := getLast?_of_variadic hvariadic
    rw [paramAt?_of_variadic hlast] at h ⊢
    split
    · rfl
    · rw [isSome_getElem?]
      omega

/-- What is reported about single arguments: every one that does not agree with the parameter of its
position. -/
theorem mem_argumentMismatches {a : Alert} {args : List (Ty × Span)} :
    a ∈ argumentMismatches params index args ↔ ∃ offset arg param, args[offset]? = some arg ∧
      paramAt? params (index + offset) = some param ∧ param.agrees arg.1 = false ∧
      a = mismatch (index + offset) param arg.1 arg.2 := by
  induction args generalizing index with
  | nil => simp [argumentMismatches]
  | cons arg rest ih =>
    obtain ⟨ty, span⟩ := arg
    rw [argumentMismatches]
    cases hparam : paramAt? params index with
    | none =>
      refine iff_of_false List.not_mem_nil ?_
      rintro ⟨offset, arg, param, -, hlater, -⟩
      have hsome := isSome_paramAt?_of_le (i := index) (by rw [hlater]; rfl) (Nat.le_add_right ..)
      rw [hparam] at hsome
      cases hsome
    | some param =>
      have hlater : a ∈ argumentMismatches params (index + 1) rest ↔ ∃ offset arg param,
          ((ty, span) :: rest)[offset + 1]? = some arg ∧
          paramAt? params (index + (offset + 1)) = some param ∧ param.agrees arg.1 = false ∧
          a = mismatch (index + (offset + 1)) param arg.1 arg.2 := by
        rw [ih]
        simp only [List.getElem?_cons_succ, Nat.add_right_comm index 1, Nat.add_assoc]
      have hhere : (param.agrees ty = false ∧ a = mismatch index param ty span) ↔ ∃ arg param,
          ((ty, span) :: rest)[0]? = some arg ∧ paramAt? params (index + 0) = some param ∧
          param.agrees arg.1 = false ∧ a = mismatch (index + 0) param arg.1 arg.2 := by
        simp [hparam]
      have hsplit : a ∈ (if param.agrees ty then argumentMismatches params (index + 1) rest
          else mismatch index param ty span :: argumentMismatches params (index + 1) rest) ↔
          (param.agrees ty = false ∧ a = mismatch index param ty span) ∨
            a ∈ argumentMismatches params (index + 1) rest := by
        cases param.agrees ty <;> simp
      refine hsplit.trans ((or_congr hhere hlater).trans ?_)
      constructor
      · rintro (h | ⟨offset, h⟩)
        exacts [⟨0, h⟩, ⟨offset + 1, h⟩]
      · rintro ⟨_ | offset, h⟩
        exacts [.inl h, .inr ⟨offset, h⟩]

/-! ## Calls without generics -/

mutual
/-- Where nothing is bound, nothing is replaced. -/
theorem Ty.substitute_empty : ∀ ty : Ty, ty.substitute .empty = ty
  | .container kind elem => by rw [substitute, substitute_empty elem]
  | .variadic elem => by rw [substitute, substitute_empty elem]
  | .function params returns generics => by
    rw [substitute, substituteAll_empty params, substituteAll_empty returns]
    simp [Table.contains]
  | .generic name => by simp [substitute]
  | .basic _ | .fixed _ | .named _ _ _ | .enum _ _ | .rawEntity | .object
  | .invalid => rfl

theorem Ty.substituteAll_empty : ∀ tys : List Ty, substituteAll .empty tys = tys
  | [] => rfl
  | ty :: rest => by rw [substituteAll, substitute_empty ty, substituteAll_empty rest]
end

/-- The signature declares no generics, and none occurs in its parameters. -/
structure Signature.IsPlain (signature : Signature) : Prop where
  generics : signature.generics = []
  params : ∀ param ∈ signature.params, param.hasGenerics = false

namespace Check

variable {c : Context} {s t u : State} {o : ScopeStack}

theorem hintsOf_of_isPlain {signature : Signature} (h : signature.IsPlain) :
    hintsOf signature.params = signature.params := by
  refine (List.map_congr_left fun param hparam => ?_).trans (List.map_id _)
  simp [h.params param hparam]

/-- A plain signature binds nothing, and refuses generic arguments. -/
theorem bindGenerics_of_isPlain {signature : Signature} (h : signature.IsPlain)
    (explicit args : List Ty) (span : Span) : bindGenerics signature explicit args span = (do
      if explicit ≠ [] then
        report (.tooManyValuesGiven 0 explicit.length "generic arguments") span
      return .empty) := by
  unfold bindGenerics
  rw [h.generics]
  cases explicit with
  | nil =>
    have hresolve : resolveGenerics [] [] signature.params args = .ok .empty := rfl
    simp only [hresolve, fillUnbound, pure_bind]
    split <;> rfl
  | cons ty rest =>
    have hresolve : resolveGenerics (ty :: rest) [] signature.params args =
        .error (.tooMany 0 (rest.length + 1)) := rfl
    simp only [hresolve, fillUnbound, pure_bind]
    split <;> rfl

/-- The call of a plain signature. The arguments are walked with the parameters as hints, and compared
with the same parameters. -/
theorem call_of_isPlain {signature : Signature} (h : signature.IsPlain) (explicit : List TypeExpr)
    (walkArgs : List Ty → Check (List Expr × List (Value × Span))) (span : Span) :
    call signature explicit walkArgs span = (do
      let explicit ← resolveTypes explicit
      let (args, values) ← walkArgs signature.params
      if explicit ≠ [] then
        report (.tooManyValuesGiven 0 explicit.length "generic arguments") span
      (validateArguments signature.params (values.map fun v => (v.1.ty, v.2)) span).forM alert
      return (args, signature.returns)) := by
  have hparams : signature.params.map (Ty.substitute .empty) = signature.params :=
    (List.map_congr_left fun ty _ => ty.substitute_empty).trans (List.map_id _)
  have hreturns : signature.returns.map (Ty.substitute .empty) = signature.returns :=
    (List.map_congr_left fun ty _ => ty.substitute_empty).trans (List.map_id _)
  unfold call
  simp only [hintsOf_of_isPlain h, bindGenerics_of_isPlain h]
  refine bind_congr fun types => bind_congr fun walked => ?_
  split <;> simp only [bind_assoc, pure_bind, hparams, hreturns]

/-! ## The walk of the arguments -/

/-- Where expressions are walked from a state, the one at a position is walked with a hint, from a
state. -/
inductive WalkedAt (c : Context) : List Expr → List Ty → State → Nat → Expr → Option Ty → State → Prop
  | here (e : Expr) (rest : List Expr) (hints : List Ty) (s : State) :
    WalkedAt c (e :: rest) hints s 0 e hints.head? s
  | later {e e' : Expr} {rest : List Expr} {hints : List Ty} {s t u w : State} {r : Expr × Value}
      {v : Value} {i : Nat} {hint : Option Ty} (hrun : expr e hints.head? c s = .ok (r, t))
      (hsingle : expectSingle r.2 r.1.span c t = .ok (v, u))
      (h : WalkedAt c rest hints.tail u i e' hint w) :
      WalkedAt c (e :: rest) hints s (i + 1) e' hint w

section WalkedAt

variable {es : List Expr} {hints : List Ty} {i : Nat} {e : Expr} {hint : Option Ty}

/-- Each expression is walked with the hint at its position. -/
theorem WalkedAt.eq (h : WalkedAt c es hints s i e hint u) : es[i]? = some e ∧ hint = hints[i]? := by
  induction h with
  | here => exact ⟨rfl, List.head?_eq_getElem?⟩
  | later _ _ _ ih => exact ⟨ih.1, ih.2.trans (List.getElem?_tail)⟩

/-- Every expression is walked. -/
theorem exists_walkedAt (hints : List Ty) (hl : Live c s o) (he : es[i]? = some e) :
    ∃ u, WalkedAt c es hints s i e hints[i]? u ∧ Live c u o := by
  induction i generalizing es hints s with
  | zero =>
    cases es with
    | nil => cases he
    | cons first rest =>
      cases he
      exact ⟨s, List.head?_eq_getElem? ▸ .here .., hl⟩
  | succ i ih =>
    cases es with
    | nil => cases he
    | cons first rest =>
      obtain ⟨r, t, hrun, -, hlt⟩ := quiet_expr first hints.head? c s o hl
      obtain ⟨v, u, hsingle, -, hlu⟩ :=
        (quiet_expectSingle r.2 r.1.span : Quiet .checking _) c t o hlt
      obtain ⟨w, hwalked, hlw⟩ := ih hints.tail hlu he
      rw [List.getElem?_tail] at hwalked
      exact ⟨w, .later hrun hsingle hwalked, hlw⟩

theorem single_of_expectSingle {value v : Value} {span : Span}
    (h : expectSingle value span c s = .ok (v, t)) : v = value.single := by
  unfold expectSingle at h
  split at h <;> cases h <;> rfl

theorem eq_single_of_mem_head? {value v : Value} (h : v ∈ value.toList.head?) :
    v = value.single := by
  cases value with
  | tuple values =>
    cases values with
    | nil => cases h
    | cons first rest => exact (Option.some.inj h).symm
  | _ => exact (Option.some.inj h).symm

/-- The last expression may spread. -/
theorem values_singleton (e : Expr) (hints : List Ty) : values [e] hints = (do
    let r ← expr e hints.head?
    return ([r.1], r.2.toList.map (·, r.1.span))) := by
  simp [values]

/-- The others have one value each. -/
theorem values_cons_cons (e next : Expr) (others : List Expr) (hints : List Ty) :
    values (e :: next :: others) hints = (do
      let r ← expr e hints.head?
      let v ← expectSingle r.2 r.1.span
      let rest ← values (next :: others) hints.tail
      return (r.1 :: rest.1, (v, r.1.span) :: rest.2)) := by
  rw [values]
  simp

/-- The value at the position is that of the expression. -/
theorem WalkedAt.value {es' : List Expr} {vs : List (Value × Span)}
    (h : WalkedAt c es hints s i e hint u) (hrun : values es hints c s = .ok ((es', vs), t)) :
    ∃ r w, expr e hint c u = .ok (r, w) ∧ es'[i]? = some r.1 ∧
      ∀ v ∈ vs[i]?, v = (r.2.single, r.1.span) := by
  induction h generalizing es' vs t with
  | here e rest hints s =>
    cases rest with
    | nil =>
      rw [values_singleton] at hrun
      obtain ⟨r, w, hexpr, hpure⟩ := bind_eq_ok hrun
      cases hpure
      refine ⟨r, _, hexpr, rfl, fun v hv => ?_⟩
      rw [← List.head?_eq_getElem?, List.head?_map] at hv
      obtain ⟨first, hfirst, rfl⟩ := Option.map_eq_some_iff.1 hv
      rw [eq_single_of_mem_head? hfirst]
    | cons next others =>
      rw [values_cons_cons] at hrun
      obtain ⟨r, w, hexpr, hrun⟩ := bind_eq_ok hrun
      obtain ⟨single, x, hsingle, hrun⟩ := bind_eq_ok hrun
      obtain ⟨_, y, -, hpure⟩ := bind_eq_ok hrun
      cases hpure
      refine ⟨r, w, hexpr, rfl, fun v hv => ?_⟩
      rw [← Option.some.inj hv, single_of_expectSingle hsingle]
  | @later e e' rest hints s t' u' w' r v i hint hexpr hsingle h ih =>
    cases rest with
    | nil => cases h
    | cons next others =>
      rw [values_cons_cons, bind_apply_ok hexpr, bind_apply_ok hsingle] at hrun
      obtain ⟨walked, x, hrest, hpure⟩ := bind_eq_ok hrun
      cases hpure
      exact ih hrest

end WalkedAt

/-! ## Empty literals -/

/-- A literal without elements. -/
def emptyLiteral (kind : ContainerKind) (span : Span) : Expr :=
  match kind with
  | .list => .list [] span
  | .map => .map [] span

/-- An empty literal takes its element type from the hint, and is reported if that tells none. -/
theorem expr_emptyLiteral (kind : ContainerKind) (span : Span) (hint : Option Ty) :
    expr (emptyLiteral kind span) hint c s = .ok ((emptyLiteral kind span,
      (Ty.container kind ((hint.bind (Ty.elemOf? kind)).getD .invalid)).toValue),
        if (hint.bind (Ty.elemOf? kind)).isSome then s
        else s.reported .unknownListOrMapContents span) := by
  cases kind <;>
  · rw [emptyLiteral, expr]
    cases hint.bind (Ty.elemOf? _) <;> rfl

/-! ## Calls -/

theorem forM_alert (alerts : List Alert) : alerts.forM alert c s =
    .ok (⟨⟩, { s with alerts := s.alerts.append ⟨alerts⟩ }) := by
  induction alerts generalizing s with
  | nil => simp [Diagnostics.append]; rfl
  | cons a rest ih =>
    have halert : alert a c s = .ok (⟨⟩, { s with alerts := s.alerts.push a }) := rfl
    rw [List.forM_eq_forM, List.forM_cons, bind_apply_ok halert]
    refine ih.trans ?_
    simp [Diagnostics.append, Diagnostics.push]

/-- A single argument is reported exactly if it does not agree with the parameter of its position. -/
theorem mismatch_mem_validateArguments {args : List (Ty × Span)} {call : Span} {arg param : Ty}
    {span : Span} (harg : args[index]? = some (arg, span)) (hparam : paramAt? params index = some param) :
    mismatch index param arg span ∈ validateArguments params args call ↔ param.agrees arg = false := by
  have hmem : mismatch index param arg span ∈ validateArguments params args call ↔
      mismatch index param arg span ∈ argumentMismatches params 0 args := by
    unfold validateArguments mismatch
    refine List.mem_append.trans (or_iff_right fun hcounts => ?_)
    rcases List.mem_append.1 hcounts with hmissing | hsurplus
    · cases List.mem_singleton.1 (List.mem_ite_nil_right.1 hmissing).2
    · split at hsurplus
      · cases List.mem_singleton.1 hsurplus
      · cases hsurplus
  rw [hmem, mem_argumentMismatches]
  constructor
  · rintro ⟨offset, arg', param', harg', hparam', hagrees, heq⟩
    rw [mismatch, mismatch, Alert.mk.injEq, AlertKind.invalidArgumentType.injEq] at heq
    obtain ⟨⟨-, rfl, rfl⟩, -⟩ := heq
    exact hagrees
  · exact fun hagrees => ⟨index, _, param, harg, by rwa [Nat.zero_add], hagrees, by rw [Nat.zero_add]⟩

/-- What happens to an argument at a position. It is walked with the parameter at the position as a hint,
which is the one that its value is compared with exactly in front of a trailing variadic. An empty literal
whose parameter is a type of its kind is accepted there, and from the variadic on it is reported. -/
structure ArgumentHinted (params : List Ty) (alerts : List Alert) (index : Nat) (e : Expr)
    (given : Option (Value × Span)) (c : Context) (u : State) : Prop where
  hinted : params[index]? = paramAt? params index ↔ ¬InTail params index
  compared : ∀ v ∈ given, ∀ param ∈ paramAt? params index,
    (mismatch index param v.1.ty v.2 ∈ alerts ↔ param.agrees v.1.ty = false)
  accepts : ¬InTail params index → ∀ kind span elem, e = emptyLiteral kind span →
    paramAt? params index = some (.container kind elem) →
      expr e params[index]? c u = .ok ((e, (Ty.container kind elem).toValue), u)
  refuses : InTail params index → ∀ kind span, e = emptyLiteral kind span →
    expr e params[index]? c u = .ok ((e, (Ty.container kind .invalid).toValue),
      u.reported .unknownListOrMapContents span)

/-- The argument at a position. -/
theorem argumentHinted (params : List Ty) (values : List (Value × Span)) (call : Span) (index : Nat)
    (e : Expr) (c : Context) (u : State) : ArgumentHinted params
      (validateArguments params (values.map fun v => (v.1.ty, v.2)) call) index e values[index]? c u where
  hinted := getElem?_eq_paramAt?_iff
  compared v hv param hparam := by
    refine mismatch_mem_validateArguments ?_ hparam
    rw [List.getElem?_map, hv]
    rfl
  accepts hnot kind span elem he hparam := by
    rw [paramAt?_of_not_inTail hnot] at hparam
    rw [he, expr_emptyLiteral, hparam]
    simp [Ty.elemOf?]
  refuses htail kind span he := by
    obtain ⟨elem, -, hhint⟩ := htail.getElem?
    have hnone : params[index]?.bind (Ty.elemOf? kind) = none := by
      obtain h | h := hhint <;> rw [h] <;> rfl
    rw [he, expr_emptyLiteral, hnone]
    rfl

/-- The arguments of a call without generics. Whatever the arguments are, the call walks them with the
parameters as hints and compares them with the parameters, so each argument in front of a trailing
variadic is walked with the type that it is compared with. From the variadic on it is not: there every
argument is compared with the element type, and none is walked with it, so that an empty literal is
reported. -/
theorem arguments_hinted_before_the_tail {signature : Signature} (h : signature.IsPlain)
    (hl : Live c s o) (explicit : List TypeExpr) (args : List Expr) (span : Span) :
    ∃ types s₁ args' vs s₂ t, resolveTypes explicit c s = .ok (types, s₁) ∧
      values args signature.params c s₁ = .ok ((args', vs), s₂) ∧
      call signature explicit (fun hints => values args hints) span c s =
        .ok ((args', signature.returns), t) ∧
      let reported := validateArguments signature.params (vs.map fun v => (v.1.ty, v.2)) span
      t.alerts.alerts = s₂.alerts.alerts ++ (if types = [] then [] else
        [{ kind := .tooManyValuesGiven 0 types.length "generic arguments", span := span }]) ++ reported ∧
      (∀ i e hint u, WalkedAt c args signature.params s₁ i e hint u →
        args[i]? = some e ∧ hint = signature.params[i]?) ∧
      ∀ i e, args[i]? = some e → ∃ u r w, WalkedAt c args signature.params s₁ i e signature.params[i]? u ∧
        expr e signature.params[i]? c u = .ok (r, w) ∧ args'[i]? = some r.1 ∧
        (∀ v ∈ vs[i]?, v = (r.2.single, r.1.span)) ∧
        ArgumentHinted signature.params reported i e vs[i]? c u := by
  obtain ⟨types, s₁, hresolve, -, hl₁⟩ :=
    (quiet_resolveTypes explicit : Quiet .checking _) c s o hl
  obtain ⟨⟨args', vs⟩, s₂, hvalues, -, -⟩ := quiet_values args signature.params c s₁ o hl₁
  refine ⟨types, s₁, args', vs, s₂, ?_⟩
  obtain ⟨t, hcall, halerts⟩ : ∃ t, call signature explicit (fun hints => values args hints) span c s =
      .ok ((args', signature.returns), t) ∧
      t.alerts.alerts = s₂.alerts.alerts ++ (if types = [] then [] else
        [{ kind := .tooManyValuesGiven 0 types.length "generic arguments", span := span }]) ++
          validateArguments signature.params (vs.map fun v => (v.1.ty, v.2)) span := by
    rw [call_of_isPlain h, bind_apply_ok hresolve, bind_apply_ok hvalues]
    cases types with
    | nil => exact ⟨_, bind_apply_ok (forM_alert _), by simp [Diagnostics.append]⟩
    | cons ty rest =>
      exact ⟨_, (bind_apply_ok (m := report _ _) rfl).trans (bind_apply_ok (forM_alert _)),
        by simp [Diagnostics.append, Diagnostics.push]⟩
  refine ⟨t, hresolve, hvalues, hcall, halerts, fun i e hint u hwalked => hwalked.eq, fun i e he => ?_⟩
  obtain ⟨u, hwalked, -⟩ := exists_walkedAt signature.params hl₁ he
  obtain ⟨r, w, hexpr, hargs, hgiven⟩ := hwalked.value hvalues
  exact ⟨u, r, w, hwalked, hexpr, hargs, hgiven, argumentHinted ..⟩

end Check

open Check

/-- The signature of a function that takes lists of numbers, as many as are given. -/
def takingLists : Signature where
  params := [.variadic (.container .list .number)]

theorem isPlain_takingLists : takingLists.IsPlain :=
  ⟨rfl, by simp [takingLists, Ty.hasGenerics]⟩

/-- The first argument of the function is in the tail, so that an empty list is reported there. -/
theorem arguments_hinted_before_the_tail_list : takingLists.IsPlain ∧
    Live ⟨.user 0, Session.walk 0⟩ rootState {} ∧ ∃ u,
      WalkedAt ⟨.user 0, Session.walk 0⟩ [emptyLiteral .list .synthetic] takingLists.params rootState 0
        (emptyLiteral .list .synthetic) (some (.variadic (.container .list .number))) u ∧
      expr (emptyLiteral .list .synthetic) (some (.variadic (.container .list .number)))
        ⟨.user 0, Session.walk 0⟩ u =
          .ok ((emptyLiteral .list .synthetic, .list .invalid), u.reported .unknownListOrMapContents .synthetic) := by
  have hlive : Live ⟨.user 0, Session.walk 0⟩ rootState {} := walks_rootState.live 0
  refine ⟨isPlain_takingLists, hlive, ?_⟩
  obtain ⟨types, s₁, _, _, _, _, hresolve, -, -, -, -, hargs⟩ :=
    arguments_hinted_before_the_tail isPlain_takingLists hlive [] [emptyLiteral .list .synthetic] .synthetic
  cases hresolve
  obtain ⟨u, _, _, hwalked, -, -, -, hhinted⟩ := hargs 0 _ rfl
  exact ⟨u, hwalked, hhinted.refuses (by decide) .list .synthetic rfl⟩

/-- A call of the function with an empty list. -/
def emptyListCall : Program :=
  let listType : TypeExpr := ⟨none, ⟨"list", .synthetic⟩,
    [⟨none, ⟨"number", .synthetic⟩, [], [], [], false, .synthetic⟩], [], [], true, .synthetic⟩
  [.level "Main",
    .function ⟨⟨"f", .synthetic⟩, [], [⟨⟨"xs", .synthetic⟩, listType⟩], [], [], false, .synthetic⟩,
    .expr (.call (.ident ⟨"f", .synthetic⟩) [] [.list [] .synthetic] 0 .synthetic)]

/-- The argument is compared with the type of a list and is walked with another hint, and a build of the
call reports it. -/
theorem empty_list_refused_in_tail : takingLists.IsPlain ∧
    paramAt? takingLists.params 0 = some (.container .list .number) ∧
    takingLists.params[0]? ≠ paramAt? takingLists.params 0 ∧
    analyzedCodes [("main.hyb", emptyListCall)] = some [[.unknownListOrMapContents]] := by
  refine ⟨isPlain_takingLists, rfl, nofun, ?_⟩
  decide +kernel

end HybroidSema
