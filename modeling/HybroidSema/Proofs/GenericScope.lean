import HybroidSema.Check.Call
import HybroidSema.Proofs.Declared
import HybroidSema.Proofs.Run
import HybroidSema.Session.Build

/-!
# Generics and their scopes

A generic parameter belongs to its function. A type is closed in a scope if every generic in it is one
of an enclosing function, or is listed by a function type around it. A call replaces the generics of
its signature and brings in no others, except where it is told what a generic stands for by a function
that has generics of its own: what is found below that function type leaves the scope of its generics.

* `Ty.hasFree`: a generic that no function type around it lists.
* `Ty.PartBelow` and `Ty.partBelow_infer?`: what is inferred is a part of the argument.
* `Ty.hasFree_substitute` and `Ty.hasFree_substitute_of_partBelow`: the generics of a type in which
  generics were replaced.
* `Signature.bound?` and `Check.runs_bindGenerics`: what the generics of a call are bound to.
* `Check.Escapes`: how a generic of an argument gets out of its scope.
* `Check.call_returns_in_scope`: the generics in the return types of a call.
* `analyze_leaks_generic`: a variable whose type is the generic of a function.
-/

namespace HybroidSema

namespace Ty

/-! ## Free generics -/

mutual
/-- Whether a generic occurs in the type with no function type around it that lists the generic. -/
def hasFree (generic : String) : Ty → Bool
  | .generic name => name == generic
  | .container _ elem => elem.hasFree generic
  | .variadic elem => elem.hasFree generic
  | .function params returns generics =>
    !generics.contains generic && (anyFree generic params || anyFree generic returns)
  | _ => false

/-- Whether it occurs so in one of the types. -/
def anyFree (generic : String) : List Ty → Bool
  | [] => false
  | ty :: rest => ty.hasFree generic || anyFree generic rest
end

theorem anyFree_iff {generic : String} {tys : List Ty} :
    anyFree generic tys = true ↔ ∃ ty ∈ tys, ty.hasFree generic = true := by
  induction tys with
  | nil => simp [anyFree]
  | cons ty rest ih => simp [anyFree, ih]

theorem hasFree_function {generic : String} {params returns : List Ty} {generics : List String} :
    (Ty.function params returns generics).hasFree generic = true ↔
      generic ∉ generics ∧ ∃ ty ∈ params ++ returns, ty.hasFree generic = true := by
  simp [hasFree, anyFree_iff, or_and_right, exists_or]

/-! ## Parts -/

/-- A part of a type, and the generics that the function types around the part list. -/
inductive PartBelow : List String → Ty → Ty → Prop
  | whole (ty : Ty) : PartBelow [] ty ty
  | container (kind : ContainerKind) {names : List String} {part elem : Ty}
    (h : PartBelow names part elem) : PartBelow names part (.container kind elem)
  | variadic {names : List String} {part elem : Ty} (h : PartBelow names part elem) :
    PartBelow names part (.variadic elem)
  | function {names : List String} {part ty : Ty} {params returns : List Ty}
    (generics : List String) (hmem : ty ∈ params ++ returns) (h : PartBelow names part ty) :
    PartBelow (generics ++ names) part (.function params returns generics)

/-- A free generic of a part is free in the whole, unless a function type around the part lists it. -/
theorem PartBelow.hasFree {names : List String} {part ty : Ty} (h : PartBelow names part ty)
    {generic : String} (hfree : part.hasFree generic = true) :
    ty.hasFree generic = true ∨ generic ∈ names := by
  induction h with
  | whole => exact .inl hfree
  | container _ _ ih => exact ih hfree
  | variadic _ ih => exact ih hfree
  | @function names _ inner _ _ generics hmem _ ih =>
    by_cases hlisted : generic ∈ generics
    · exact .inr (List.mem_append_left _ hlisted)
    · exact (ih hfree).imp (fun h => hasFree_function.2 ⟨hlisted, inner, hmem, h⟩)
        (List.mem_append_right _)

variable {bindings : Bindings} {generic : String}

mutual
/-- What a generic is found to stand for is a part of the argument. -/
theorem partBelow_infer? {found : Ty} (param arg : Ty) (h : param.infer? generic arg = some found) :
    ∃ names, PartBelow names found arg :=
  match param with
  | .basic _ | .fixed _ | .named _ _ _ | .enum _ _ | .rawEntity | .object | .invalid => by
    cases arg <;> cases h
  | .generic name => by
    have harg : arg = found := by cases arg <;> simp_all [infer?]
    exact ⟨[], harg ▸ .whole arg⟩
  | .container kind elem => by
    have helem (inner : Ty) (h : elem.infer? generic inner = some found) :=
      partBelow_infer? elem inner h
    cases arg with
    | container other inner =>
      simp only [infer?, Option.ite_none_right_eq_some] at h
      obtain ⟨names, hpart⟩ := helem inner h.2
      exact ⟨names, .container other hpart⟩
    | _ => cases h
  | .variadic elem => by
    have helem (inner : Ty) (h : elem.infer? generic inner = some found) :=
      partBelow_infer? elem inner h
    cases arg with
    | variadic inner =>
      obtain ⟨names, hpart⟩ := helem inner h
      exact ⟨names, .variadic hpart⟩
    | invalid => cases h
    | _ => exact helem _ h
  | .function params returns _ => by
    have hparams (args : List Ty) (h : inferAny? generic params args = some found) :=
      partBelow_inferAny? params args h
    have hreturns (args : List Ty) (h : inferAny? generic returns args = some found) :=
      partBelow_inferAny? returns args h
    cases arg with
    | function params' returns' generics =>
      rw [infer?, Option.orElse_eq_orElse, Option.orElse_eq_or, Option.or_eq_some_iff] at h
      obtain ⟨ty, hmem, names, hpart⟩ : ∃ ty ∈ params' ++ returns', ∃ names,
          PartBelow names found ty := by
        rcases h with h | ⟨-, h⟩
        · obtain ⟨ty, hmem, hpart⟩ := hparams params' h
          exact ⟨ty, List.mem_append_left _ hmem, hpart⟩
        · obtain ⟨ty, hmem, hpart⟩ := hreturns returns' h
          exact ⟨ty, List.mem_append_right _ hmem, hpart⟩
      exact ⟨generics ++ names, .function generics hmem hpart⟩
    | _ => cases h
  termination_by structural param

theorem partBelow_inferAny? {found : Ty} (params args : List Ty)
    (h : inferAny? generic params args = some found) :
    ∃ arg ∈ args, ∃ names, PartBelow names found arg :=
  match params with
  | [] => by cases h
  | param :: rest => by
    have hparam (arg : Ty) (h : param.infer? generic arg = some found) :=
      partBelow_infer? param arg h
    have hrest (args : List Ty) (h : inferAny? generic rest args = some found) :=
      partBelow_inferAny? rest args h
    cases args with
    | nil => cases h
    | cons arg args =>
      rw [inferAny?, Option.orElse_eq_orElse, Option.orElse_eq_or, Option.or_eq_some_iff] at h
      rcases h with h | ⟨-, h⟩
      · exact ⟨arg, by simp, hparam arg h⟩
      · obtain ⟨other, hmem, hpart⟩ := hrest args h
        exact ⟨other, List.mem_cons_of_mem _ hmem, hpart⟩
  termination_by structural params
end

/-! ## Replaced generics -/

/-- A generic comes into a type with what takes the place of one of its generics. The function types
around that place go on listing the generic only if it is not replaced itself. -/
def Brings (bindings : Bindings) (generic : String) (ty : Ty) : Prop :=
  ∃ own bound around, PartBelow around (.generic own) ty ∧
    (generic ∈ around → bindings.contains generic = true) ∧ bindings.get? own = some bound ∧
      bound.hasFree generic = true

theorem Brings.function {ty : Ty} {params returns : List Ty} {generics : List String}
    (hmem : ty ∈ params ++ returns)
    (hlisted : generic ∈ generics → bindings.contains generic = true)
    (h : Brings bindings generic ty) : Brings bindings generic (.function params returns generics) := by
  obtain ⟨own, bound, around, hplace, haround, hget, hfree⟩ := h
  exact ⟨own, bound, generics ++ around, .function generics hmem hplace,
    fun hin => (List.mem_append.1 hin).elim hlisted haround, hget, hfree⟩

mutual
/-- A generic that is free after generics were replaced was free before and not replaced, or it comes
with what took the place of one. -/
theorem hasFree_substitute (ty : Ty) (h : (ty.substitute bindings).hasFree generic = true) :
    (ty.hasFree generic = true ∧ bindings.get? generic = none) ∨ Brings bindings generic ty :=
  match ty with
  | .basic _ | .fixed _ | .named _ _ _ | .enum _ _ | .rawEntity | .object | .invalid => by cases h
  | .generic name => by
    rw [substitute] at h
    cases hget : bindings.get? name with
    | none =>
      rw [hget] at h
      obtain rfl : name = generic := eq_of_beq h
      exact .inl ⟨h, hget⟩
    | some bound =>
      rw [hget] at h
      exact .inr ⟨name, bound, [], .whole _, nofun, hget, h⟩
  | .container kind elem => by
    refine (hasFree_substitute elem h).imp_right ?_
    rintro ⟨own, bound, around, hplace, hrest⟩
    exact ⟨own, bound, around, .container kind hplace, hrest⟩
  | .variadic elem => by
    refine (hasFree_substitute elem h).imp_right ?_
    rintro ⟨own, bound, around, hplace, hrest⟩
    exact ⟨own, bound, around, .variadic hplace, hrest⟩
  | .function params returns generics => by
    have hparams := anyFree_substitute params
    have hreturns := anyFree_substitute returns
    rw [substitute, hasFree, Bool.and_eq_true, Bool.or_eq_true] at h
    -- A listed generic that is replaced is not listed any more.
    have hlisted (hin : generic ∈ generics) : bindings.contains generic = true := by
      simpa [hin] using h.1
    obtain ⟨ty, hmem, hty⟩ : ∃ ty ∈ params ++ returns,
        (ty.hasFree generic = true ∧ bindings.get? generic = none) ∨ Brings bindings generic ty := by
      rcases h.2 with h | h
      · obtain ⟨ty, hmem, hty⟩ := hparams h
        exact ⟨ty, List.mem_append_left _ hmem, hty⟩
      · obtain ⟨ty, hmem, hty⟩ := hreturns h
        exact ⟨ty, List.mem_append_right _ hmem, hty⟩
    rcases hty with ⟨hfree, hnone⟩ | hbrings
    · refine .inl ⟨hasFree_function.2 ⟨fun hin => ?_, ty, hmem, hfree⟩, hnone⟩
      have hcontains := hlisted hin
      rw [Table.contains, hnone] at hcontains
      cases hcontains
    · exact .inr (hbrings.function hmem hlisted)
  termination_by structural ty

theorem anyFree_substitute (tys : List Ty)
    (h : anyFree generic (substituteAll bindings tys) = true) :
    ∃ ty ∈ tys, (ty.hasFree generic = true ∧ bindings.get? generic = none) ∨
      Brings bindings generic ty :=
  match tys with
  | [] => by cases h
  | ty :: rest => by
    rw [substituteAll, anyFree, Bool.or_eq_true] at h
    rcases h with h | h
    · exact ⟨ty, by simp, hasFree_substitute ty h⟩
    · obtain ⟨other, hmem, hother⟩ := anyFree_substitute rest h
      exact ⟨other, List.mem_cons_of_mem _ hmem, hother⟩
  termination_by structural tys
end

/-- What comes into a type is free in it, unless a function type around the place lists it. -/
theorem hasFree_substitute_of_partBelow {around : List String} {own : String} {ty bound : Ty}
    (hplace : PartBelow around (.generic own) ty)
    (haround : generic ∈ around → bindings.contains generic = true)
    (hget : bindings.get? own = some bound) (hfree : bound.hasFree generic = true) :
    (ty.substitute bindings).hasFree generic = true := by
  generalize hpart : Ty.generic own = part at hplace
  induction hplace with
  | whole =>
    subst hpart
    rwa [substitute, hget]
  | container _ _ ih => exact ih haround hpart
  | variadic _ ih => exact ih haround hpart
  | @function names _ ty params returns generics hmem _ ih =>
    have hinner := ih (fun hin => haround (List.mem_append_right _ hin)) hpart
    rw [substitute, substituteAll_eq_map, substituteAll_eq_map]
    refine hasFree_function.2 ⟨fun hin => ?_, ty.substitute bindings, ?_, hinner⟩
    · obtain ⟨hin, hkept⟩ := List.mem_filter.1 hin
      simp [haround (List.mem_append_left _ hin)] at hkept
    · rw [← List.map_append]
      exact List.mem_map_of_mem hmem

/-! ## Scopes -/

/-- Every generic of the type is one of a function of the scope, or is listed around it. -/
def ClosedIn (stack : ScopeStack) (ty : Ty) : Prop :=
  ∀ generic, ty.hasFree generic = true → stack.hasGeneric generic = true

end Ty

/-- Every generic of the signature is one of its own, or one of a function of the scope. -/
def Signature.ClosedIn (stack : ScopeStack) (signature : Signature) : Prop :=
  ∀ ty ∈ signature.params ++ signature.returns, ∀ generic, ty.hasFree generic = true →
    generic ∈ signature.generics ∨ stack.hasGeneric generic = true

/-! ## What a call binds -/

/-- What the arguments tell about a generic: the first one whose parameter mentions it counts. -/
def inferred? (params args : List Ty) (generic : String) : Option Ty :=
  (mentioning? params generic args).bind fun (param, arg) => param.infer? generic arg

/-- What a call binds a name to. A generic with no explicit type is bound by the arguments if they
tell what it is, and what is not bound otherwise is bound to the sentinel. -/
def Signature.bound? (signature : Signature) (explicit args : List Ty) (name : String) : Option Ty :=
  ((if name ∈ signature.generics.drop explicit.length then inferred? signature.params args name
    else none).or
  (if explicit.length ≤ signature.generics.length then
    (Table.ofList (signature.generics.zip explicit)).get? name
  else none)).or
  (if name ∈ signature.generics then some .invalid else none)

theorem get?_bindFrom (params args : List Ty) (bindings : Bindings) (generic name : String) :
    (bindFrom params args bindings generic).get? name =
      (if name = generic then inferred? params args name else none).or (bindings.get? name) := by
  unfold bindFrom inferred?
  by_cases hname : name = generic
  · subst hname
    cases mentioning? params name args with
    | none => simp
    | some found =>
      obtain ⟨param, arg⟩ := found
      cases hinfer : param.infer? name arg with
      | none => simp [hinfer]
      | some ty => simp [hinfer, Table.get?_insert]
  · split
    · split
      · simp [Table.get?_insert, hname]
      · simp [hname]
    · simp [hname]

theorem get?_foldl_bindFrom (params args : List Ty) (generics : List String) (bindings : Bindings)
    (name : String) :
    (generics.foldl (bindFrom params args) bindings).get? name =
      (if name ∈ generics then inferred? params args name else none).or (bindings.get? name) := by
  induction generics generalizing bindings with
  | nil => simp
  | cons generic rest ih =>
    rw [List.foldl_cons, ih, get?_bindFrom, ← Option.or_assoc]
    congr 1
    by_cases hname : name = generic
    · subst hname
      by_cases hrest : name ∈ rest <;> simp [hrest]
    · simp [hname]

theorem get?_fillUnbound (declared : List String) (bindings : Bindings) (name : String) :
    (fillUnbound declared bindings).2.get? name =
      (bindings.get? name).or (if name ∈ declared then some .invalid else none) := by
  induction declared generalizing bindings with
  | nil => simp [fillUnbound]
  | cons generic rest ih =>
    unfold fillUnbound
    by_cases hname : name = generic
    · subst hname
      split
      · next hbound =>
        obtain ⟨ty, hty⟩ := Option.isSome_iff_exists.1 hbound
        simp [ih, hty]
      · next hbound =>
        have hnone : bindings.get? name = none := Option.not_isSome_iff_eq_none.1 hbound
        simp [ih, Table.get?_insert, hnone]
    · split <;> simp [ih, Table.get?_insert, hname]

/-- What the arguments tell about a generic is a part of one of them. -/
theorem partBelow_inferred? {params args : List Ty} {own : String} {found : Ty}
    (h : inferred? params args own = some found) :
    ∃ arg ∈ args, ∃ names, Ty.PartBelow names found arg := by
  obtain ⟨⟨param, arg⟩, hmentions, hinfer⟩ := Option.bind_eq_some_iff.1 h
  exact ⟨arg, mem_of_mentioning? hmentions, Ty.partBelow_infer? param arg hinfer⟩

section

variable {signature : Signature} {explicit args : List Ty} {own : String} {bound : Ty}

theorem bound?_of_inferred (hown : own ∈ signature.generics.drop explicit.length)
    (h : inferred? signature.params args own = some bound) :
    signature.bound? explicit args own = some bound := by
  simp [Signature.bound?, hown, h]

/-- What is bound is inferred, explicit or the sentinel. -/
theorem bound?_cases (h : signature.bound? explicit args own = some bound) :
    (own ∈ signature.generics.drop explicit.length ∧
      inferred? signature.params args own = some bound) ∨ bound ∈ explicit ∨ bound = .invalid := by
  rw [Signature.bound?, Option.or_assoc, Option.or_eq_some_iff, Option.or_eq_some_iff] at h
  rcases h with h | ⟨-, h | ⟨-, h⟩⟩
  · exact .inl (Option.ite_none_right_eq_some.1 h)
  · exact .inr (.inl (List.of_mem_zip
      (Table.mem_of_get?_ofList (Option.ite_none_right_eq_some.1 h).2)).2)
  · exact .inr (.inr (Option.some.inj (Option.ite_none_right_eq_some.1 h).2).symm)

/-- The generics of a signature are bound, and nothing else. -/
theorem isSome_bound?_iff :
    (signature.bound? explicit args own).isSome = true ↔ own ∈ signature.generics := by
  constructor
  · intro hsome
    obtain ⟨bound, h⟩ := Option.isSome_iff_exists.1 hsome
    rw [Signature.bound?, Option.or_assoc, Option.or_eq_some_iff, Option.or_eq_some_iff] at h
    rcases h with h | ⟨-, h | ⟨-, h⟩⟩
    · exact List.mem_of_mem_drop (Option.ite_none_right_eq_some.1 h).1
    · exact (List.of_mem_zip (Table.mem_of_get?_ofList (Option.ite_none_right_eq_some.1 h).2)).1
    · exact (Option.ite_none_right_eq_some.1 h).1
  · intro hmem
    simp [Signature.bound?, hmem]

end

namespace Check

variable {c : Context} {s s₁ s₂ : State}

/-- The generics of a signature are bound as `Signature.bound?` tells. -/
theorem runs_bindGenerics (signature : Signature) (explicit args : List Ty) (span : Span) :
    Runs (bindGenerics signature explicit args span) c s fun bindings _ =>
      ∀ name, bindings.get? name = signature.bound? explicit args name := by
  have hreport (kind : AlertKind) (t : State) : Runs (report kind span) c t fun _ _ => True :=
    (runs_modify _).mono fun _ _ _ => trivial
  unfold bindGenerics
  extract_lets fill
  have hfill (bound : Bindings) (t : State) : Runs (fill bound) c t fun bindings _ =>
      ∀ name, bindings.get? name =
        (bound.get? name).or (if name ∈ signature.generics then some .invalid else none) := by
    dsimp only [fill]
    split
    · exact (Runs.forM (I := fun _ => True) _ trivial fun _ _ _ _ => hreport _ _).bind
        fun _ _ _ => .pure (get?_fillUnbound signature.generics bound)
    · exact .pure (get?_fillUnbound signature.generics bound)
  unfold resolveGenerics Signature.bound?
  by_cases hmany : signature.generics.length < explicit.length
  · rw [if_pos hmany]
    refine (hreport _ s).bind fun _ t _ => (hfill .empty t).mono fun bindings _ hget name => ?_
    simp [hget, List.drop_eq_nil_of_le (Nat.le_of_lt hmany), Nat.not_le.2 hmany]
  · rw [if_neg hmany]
    refine (hfill _ s).mono fun bindings _ hget name => ?_
    rw [hget, get?_foldl_bindFrom, if_pos (Nat.not_lt.1 hmany)]

/-- A generic of an argument gets out of its scope. A generic of the signature that occurs in a return
type is inferred, and what it is found to stand for has the generic, below a function type of the
argument that lists it. -/
def Escapes (signature : Signature) (explicit args : List Ty) (generic : String) : Prop :=
  ∃ own ∈ signature.generics.drop explicit.length,
    (∃ declared ∈ signature.returns, ∃ around, Ty.PartBelow around (.generic own) declared ∧
      (generic ∈ around → generic ∈ signature.generics)) ∧
    ∃ found, inferred? signature.params args own = some found ∧ found.hasFree generic = true ∧
      ∃ arg ∈ args, ∃ names, Ty.PartBelow names found arg ∧ generic ∈ names

/-- The return types of a call have no generics that are unknown where the call stands, except those
that get out of their scope. Let the signature have no generics but its own and those of the scope,
and let the explicit generic arguments and the arguments be closed in the scope. Then the call gives
return types, and a generic that is not one of the scope is free in them exactly if it escapes. -/
theorem call_returns_in_scope (stack : ScopeStack) {signature : Signature}
    (hsignature : signature.ClosedIn stack) {explicit : List TypeExpr} {tys : List Ty}
    (hexplicit : resolveTypes explicit c s = .ok (tys, s₁)) (htys : ∀ ty ∈ tys, ty.ClosedIn stack)
    {walkArgs : List Ty → Check (List Expr × List (Value × Span))} {es : List Expr}
    {values : List (Value × Span)}
    (hwalk : walkArgs (hintsOf signature.params) c s₁ = .ok ((es, values), s₂))
    (hvalues : ∀ ty ∈ typesOf values, ty.ClosedIn stack) (span : Span) :
    ∃ returns t, call signature explicit walkArgs span c s = .ok ((es, returns), t) ∧
      ∀ generic, stack.hasGeneric generic = false →
        ((∃ ty ∈ returns, ty.hasFree generic = true) ↔
          Escapes signature tys (typesOf values) generic) := by
  obtain ⟨bindings, t, hbind, hget⟩ := runs_bindGenerics (c := c) (s := s₂) signature tys
    (typesOf values) span
  let alerts := validateArguments (signature.params.map (·.substitute bindings))
    (values.map fun value => (value.1.ty, value.2)) span
  obtain ⟨⟨⟩, t', halerts, -⟩ : Runs (alerts.forM alert) c t fun _ _ => True :=
    .forM (I := fun _ => True) _ trivial fun _ _ _ _ => (runs_modify _).mono fun _ _ _ => trivial
  refine ⟨signature.returns.map (·.substitute bindings), t', ?_, fun generic hunknown => ?_⟩
  · rw [call, bind_apply_ok hexplicit, bind_apply_ok hwalk]
    dsimp only
    rw [bind_apply_ok hbind, bind_apply_ok halerts]
    rfl
  have hclosed {ty : Ty} (h : ty.ClosedIn stack) : ty.hasFree generic = false :=
    Bool.eq_false_iff.2 fun hfree => by simp [h generic hfree] at hunknown
  have hcontains : bindings.contains generic = true ↔ generic ∈ signature.generics := by
    rw [Table.contains, hget]
    exact isSome_bound?_iff
  constructor
  · rintro ⟨ty, hty, hfree⟩
    obtain ⟨declared, hdeclared, rfl⟩ := List.mem_map.1 hty
    rcases Ty.hasFree_substitute declared hfree with ⟨hfree', hnone⟩ | hbrings
    · -- The generic would be one of the signature, and these are all bound.
      have hown := (hsignature declared (List.mem_append_right _ hdeclared) generic hfree').resolve_right
        (by simp [hunknown])
      have hbound := hcontains.2 hown
      rw [Table.contains, hnone] at hbound
      cases hbound
    · obtain ⟨own, bound, around, hplace, haround, hown, hfree'⟩ := hbrings
      rw [hget] at hown
      rcases bound?_cases hown with ⟨hmem, hinferred⟩ | hmem | rfl
      · obtain ⟨arg, harg, names, hpart⟩ := partBelow_inferred? hinferred
        have hnames : generic ∈ names := (hpart.hasFree hfree').resolve_left
          (by simp [hclosed (hvalues arg harg)])
        exact ⟨own, hmem, ⟨declared, hdeclared, around, hplace, fun h => hcontains.1 (haround h)⟩,
          bound, hinferred, hfree', arg, harg, names, hpart, hnames⟩
      · rw [hclosed (htys bound hmem)] at hfree'
        cases hfree'
      · cases hfree'
  · rintro ⟨own, hmem, ⟨declared, hdeclared, around, hplace, haround⟩, found, hinferred, hfree, -⟩
    exact ⟨_, List.mem_map_of_mem hdeclared,
      Ty.hasFree_substitute_of_partBelow hplace (fun h => hcontains.2 (haround h))
        ((hget own).trans (bound?_of_inferred hmem hinferred)) hfree⟩

/-- The signature `fn<T>(fn(T) -> T) -> T`. -/
def repeated : Signature :=
  { generics := ["T"], params := [.fn [.generic "T"] [.generic "T"]], returns := [.generic "T"] }

/-- A call of `fn<T>(fn(T) -> T) -> T` at the root with `fn<U>(U) -> U`: the result has the type `U`. -/
theorem call_returns_in_scope_same :
    Escapes repeated [] [.function [.generic "U"] [.generic "U"] ["U"]] "U" := by
  let c : Context := ⟨.user 0, Session.walk 0⟩
  let s : State := { session := Session.new {} }
  let same : Value := .function ⟨["U"], [.generic "U"], [.generic "U"], none⟩
  let walkArgs : List Ty → Check (List Expr × List (Value × Span)) :=
    fun _ => pure ([], [(same, .synthetic)])
  have hcall : call repeated [] walkArgs .synthetic c s = .ok (([], [.generic "U"]), s) := rfl
  have hsignature : repeated.ClosedIn .new := by
    simp [Signature.ClosedIn, repeated, Ty.hasFree, Ty.anyFree]
  have hsame : ∀ ty ∈ typesOf [(same, .synthetic)], ty.ClosedIn .new := by
    simp +contextual [typesOf, same, Value.ty, Signature.ty, Ty.ClosedIn, Ty.hasFree, Ty.anyFree,
      @eq_comm _ "U"]
  have hexplicit : resolveTypes [] c s = .ok ([], s) := rfl
  have hwalk : walkArgs (hintsOf repeated.params) c s = .ok (([], [(same, .synthetic)]), s) := rfl
  obtain ⟨returns, t, hrun, hescapes⟩ :=
    call_returns_in_scope .new hsignature hexplicit (by simp) hwalk hsame .synthetic
  rw [hcall] at hrun
  cases hrun
  exact (hescapes "U" rfl).1 ⟨.generic "U", by simp, by simp [Ty.hasFree]⟩

end Check

/-! ## A variable of a type that only another function has -/

/-- A function `fn<T>(fn(T) -> T) -> T`, a function `fn<U>(U) -> U`, and a variable that is
initialized with the first one called with the second. -/
def leakingProgram : Program :=
  let named (name : String) : TypeExpr := ⟨none, ⟨name, .synthetic⟩, [], [], [], false, .synthetic⟩
  let ident (name : String) : Expr := .ident ⟨name, .synthetic⟩
  let called (name arg : String) : Expr := .call (ident name) [] [ident arg] 0 .synthetic
  [.level "Main",
    .function ⟨⟨"twice", .synthetic⟩, [⟨"T", .synthetic⟩],
      [⟨⟨"f", .synthetic⟩, ⟨none, ⟨"fn", .synthetic⟩, [], [named "T"], [named "T"], false,
        .synthetic⟩⟩], [named "T"], [.returning [called "twice" "f"] .synthetic], false, .synthetic⟩,
    .function ⟨⟨"same", .synthetic⟩, [⟨"U", .synthetic⟩], [⟨⟨"x", .synthetic⟩, named "U"⟩],
      [named "U"], [.returning [ident "x"] .synthetic], false, .synthetic⟩,
    .variable ⟨[⟨"v", .synthetic⟩], none, [called "twice" "same"], false, false, .synthetic⟩]

/-- Whether a variable of the root scope has a generic in its type that no open function has. -/
def Environment.leaksGeneric (generic : String) (env : Environment) : Bool :=
  !env.scopes.hasGeneric generic &&
    env.scopes.root.bindings.values.any (·.value.ty.hasFree generic)

/-- A variable at the root gets the generic `U` of a function as its type, without an alert. -/
theorem analyze_leaks_generic :
    ∃ out, analyze {} [("main.hyb", leakingProgram)] = .ok out ∧
      out.codes = [[]] ∧
      out.registry.envs.any (·.leaksGeneric "U") = true := by
  have hbuild : (analyze {} [("main.hyb", leakingProgram)]).toOption.any (fun out =>
      out.codes == [[]] && out.registry.envs.any (·.leaksGeneric "U")) = true := by
    decide +kernel
  obtain ⟨out, hout, hleaks⟩ := Check.exists_eq_ok_of_any hbuild
  rw [Bool.and_eq_true, beq_iff_eq] at hleaks
  exact ⟨out, hout, hleaks⟩

end HybroidSema
