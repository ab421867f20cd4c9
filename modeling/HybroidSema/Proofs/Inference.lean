import HybroidSema.Check.Call
import HybroidSema.Proofs.Run
import Mathlib.Data.List.Basic

/-!
# Inference of generic arguments

A call without explicit generic arguments binds each generic of the signature by comparing a
parameter with an argument. If every argument has the type of its parameter under one assignment of
types to the generics, the call is bound to that assignment, however the generics are nested.

* `Ty.infer?_substitute`: comparing a type with itself under an assignment gives what a generic is
  assigned.
* `Ty.agrees_self`: every type agrees with itself.
* `assignment`, `Admits` and `argumentTypes`: a call whose arguments are what an assignment makes of
  the parameters.
* `bindFrom_argumentTypes` and `foldl_bindFrom`: one generic, and all of them.
* `validateArguments_argumentTypes`: such arguments are accepted.
* `call_infers_assignment`: what such a call gives.
-/

namespace HybroidSema

/-! ## One parameter -/

namespace Ty

mutual
/-- A type tells nothing about a generic that does not occur in it. -/
theorem infer?_eq_none {generic : String} (param arg : Ty) (h : param.mentions generic = false) :
    param.infer? generic arg = none :=
  match param with
  | .basic _ | .fixed _ | .named _ _ _ | .enum _ _ | .rawEntity | .object | .invalid => by
    cases arg <;> rfl
  | .generic name => by
    have hname : (name == generic) = false := h
    cases arg <;> simp [infer?, hname]
  | .container kind elem => by
    have helem := fun arg => infer?_eq_none elem arg h
    cases arg <;> simp [infer?, helem]
  | .variadic elem => by
    have helem := fun arg => infer?_eq_none elem arg h
    cases arg <;> simp [infer?, helem]
  | .function params returns _ => by
    obtain ⟨hparams, hreturns⟩ : anyMentions generic params = false ∧
        anyMentions generic returns = false := Bool.or_eq_false_iff.1 h
    have hparams' := fun args => inferAny?_eq_none params args hparams
    have hreturns' := fun args => inferAny?_eq_none returns args hreturns
    cases arg <;> simp [infer?, hparams', hreturns']
  termination_by structural param

theorem inferAny?_eq_none {generic : String} (params args : List Ty)
    (h : anyMentions generic params = false) : inferAny? generic params args = none :=
  match params with
  | [] => rfl
  | param :: rest => by
    obtain ⟨hparam, hrest⟩ : param.mentions generic = false ∧
        anyMentions generic rest = false := Bool.or_eq_false_iff.1 h
    cases args with
    | nil => rfl
    | cons arg args =>
      rw [inferAny?, infer?_eq_none param arg hparam, inferAny?_eq_none rest args hrest]
      rfl
  termination_by structural params
end

variable {bindings : Bindings} {generic : String} {ty : Ty}

mutual
/-- A generic that occurs in a type is found again when the type is compared with itself after the
generics were replaced, whatever else was replaced with it. -/
theorem infer?_substitute (hbound : bindings.get? generic = some ty) (hty : ty ≠ .invalid)
    (param : Ty) (h : param.mentions generic = true) :
    param.infer? generic (param.substitute bindings) = some ty :=
  match param with
  | .basic _ | .fixed _ | .named _ _ _ | .enum _ _ | .rawEntity | .object | .invalid => by
    cases h
  | .generic name => by
    obtain rfl : name = generic := eq_of_beq h
    simp [substitute, hbound, infer?]
  | .container kind elem => by
    have helem := infer?_substitute hbound hty elem h
    simpa [substitute, infer?] using helem
  | .variadic elem => by
    have helem := infer?_substitute hbound hty elem h
    simpa [substitute, infer?] using helem
  | .function params returns generics => by
    have hparams := inferAny?_substitute hbound hty params
    have hreturns := inferAny?_substitute hbound hty returns
    rw [substitute, infer?]
    -- The parameters are looked through first, and the returns only if nothing is found there.
    cases hmentions : anyMentions generic params with
    | true => simp [hparams hmentions]
    | false =>
      rw [mentions, hmentions, Bool.false_or] at h
      simp [inferAny?_eq_none params _ hmentions, hreturns h]
  termination_by structural param

theorem inferAny?_substitute (hbound : bindings.get? generic = some ty) (hty : ty ≠ .invalid)
    (params : List Ty) (h : anyMentions generic params = true) :
    inferAny? generic params (substituteAll bindings params) = some ty :=
  match params with
  | [] => by cases h
  | param :: rest => by
    have hparam := infer?_substitute hbound hty param
    have hrest := inferAny?_substitute hbound hty rest
    rw [substituteAll, inferAny?]
    cases hmentions : param.mentions generic with
    | true => simp [hparam hmentions]
    | false =>
      rw [anyMentions, hmentions, Bool.false_or] at h
      simp [infer?_eq_none param _ hmentions, hrest h]
  termination_by structural params
end

mutual
/-- Every type is accepted where it is expected itself. -/
theorem agrees_self (ty : Ty) : ty.agrees ty = true :=
  match ty with
  | .basic _ | .fixed _ | .named _ _ _ | .enum _ _ | .generic _ | .rawEntity | .object
  | .invalid => by simp [agrees]
  | .container kind elem => by simp [agrees, agrees_self elem]
  | .variadic elem => by simp [agrees, agrees_self elem]
  | .function params returns _ => by simp [agrees, allAgree_self params, allAgree_self returns]
  termination_by structural ty

theorem allAgree_self (tys : List Ty) : allAgree tys tys = true :=
  match tys with
  | [] => rfl
  | ty :: rest => by simp [allAgree, agrees_self ty, allAgree_self rest]
  termination_by structural tys
end

/-- Whether the type stands for any number of arguments. -/
def isVariadic : Ty → Bool
  | .variadic _ => true
  | _ => false

end Ty

/-! ## Calls under an assignment -/

/-- Each generic bound to the type that it is assigned. -/
def assignment (generics : List String) (types : String → Ty) : Bindings :=
  .ofList (generics.map fun generic => (generic, types generic))

/-- Whether a call may have that many arguments: one for each parameter, where a trailing variadic
stands for any number. -/
def Admits (params : List Ty) (count : Nat) : Prop :=
  if params.getLast?.any Ty.isVariadic then params.length - 1 ≤ count else count = params.length

instance (params : List Ty) (count : Nat) : Decidable (Admits params count) :=
  inferInstanceAs (Decidable (if params.getLast?.any Ty.isVariadic then params.length - 1 ≤ count
    else count = params.length))

/-- The types of that many arguments, each that of its parameter with the generics replaced. -/
def argumentTypes (params : List Ty) (bindings : Bindings) (count : Nat) : List Ty :=
  (List.range count).filterMap fun index =>
    (paramAt? params index).map (Ty.substitute bindings)

section

variable {generics : List String} {types : String → Ty} {params : List Ty} {bindings : Bindings}
  {count : Nat}

theorem get?_foldl_insert (t : Bindings) (generic : String) :
    (generics.foldl (fun t g => t.insert g (types g)) t).get? generic =
      if generic ∈ generics then some (types generic) else t.get? generic := by
  induction generics generalizing t with
  | nil => simp
  | cons g rest ih =>
    rw [List.foldl_cons, ih, Table.get?_insert]
    by_cases hrest : generic ∈ rest
    · simp [hrest]
    · by_cases hg : generic = g
      · simp [hg]
      · simp [hrest, hg]

theorem assignment_eq_foldl (generics : List String) (types : String → Ty) :
    assignment generics types = generics.foldl (fun t g => t.insert g (types g)) .empty := by
  rw [assignment, Table.ofList, List.foldl_map]

theorem get?_assignment (generic : String) :
    (assignment generics types).get? generic =
      if generic ∈ generics then some (types generic) else none := by
  rw [assignment_eq_foldl, get?_foldl_insert, Table.get?_empty]

/-! ### Positions -/

/-- Without a trailing variadic, each position has its own parameter. -/
theorem paramAt?_eq_getElem? (h : params.getLast?.any Ty.isVariadic = false) (index : Nat) :
    paramAt? params index = params[index]? := by
  unfold paramAt?
  split
  · next hlast => simp [hlast, Ty.isVariadic] at h
  · rfl

/-- With a trailing variadic, its element type stands for every position from its own on. -/
theorem paramAt?_of_variadic {elem : Ty} (h : params.getLast? = some (.variadic elem))
    (index : Nat) :
    paramAt? params index = if params.length - 1 ≤ index then some elem else params[index]? := by
  unfold paramAt?
  rw [h]

theorem getLast?_of_variadic (h : params.getLast?.any Ty.isVariadic = true) :
    ∃ elem, params.getLast? = some (.variadic elem) := by
  cases hlast : params.getLast? with
  | none => simp [hlast] at h
  | some last =>
    cases last with
    | variadic elem => exact ⟨elem, rfl⟩
    | _ => simp [hlast, Ty.isVariadic] at h

/-- Every argument that a call may have has a parameter. -/
theorem exists_paramAt? (h : Admits params count) {index : Nat} (hindex : index < count) :
    ∃ param, paramAt? params index = some param := by
  unfold Admits at h
  split at h
  · next hvariadic =>
    obtain ⟨elem, hlast⟩ := getLast?_of_variadic hvariadic
    rw [paramAt?_of_variadic hlast]
    by_cases hlater : params.length - 1 ≤ index
    · exact ⟨elem, if_pos hlater⟩
    · rw [if_neg hlater]
      exact ⟨_, List.getElem?_eq_getElem (by omega)⟩
  · next hfixed =>
    rw [paramAt?_eq_getElem? (Bool.eq_false_iff.2 hfixed)]
    exact ⟨_, List.getElem?_eq_getElem (by omega)⟩

theorem argumentTypes_eq_map (h : Admits params count) :
    argumentTypes params bindings count = (List.range count).map fun index =>
      ((paramAt? params index).getD .invalid).substitute bindings := by
  refine List.filterMap_eq_map_iff_forall_eq_some.2 fun index hindex => ?_
  obtain ⟨param, hparam⟩ := exists_paramAt? h (List.mem_range.1 hindex)
  simp [hparam]

theorem length_argumentTypes (h : Admits params count) :
    (argumentTypes params bindings count).length = count := by
  simp [argumentTypes_eq_map h]

/-- The type of the argument at a position. -/
theorem getElem?_argumentTypes (h : Admits params count) {index : Nat} (hindex : index < count)
    {param : Ty} (hparam : paramAt? params index = some param) :
    (argumentTypes params bindings count)[index]? = some (param.substitute bindings) := by
  simp [argumentTypes_eq_map h, hindex, hparam]

/-! ### Binding -/

/-- The first argument whose parameter mentions a generic that occurs in one. -/
theorem mentioning?_argumentTypes (h : Admits params count) {generic : String}
    (hoccurs : ∃ index < count, ∃ param ∈ paramAt? params index, param.mentions generic = true) :
    ∃ param, param.mentions generic = true ∧
      mentioning? params generic (argumentTypes params bindings count) =
        some (param, param.substitute bindings) := by
  unfold mentioning?
  generalize hfound : List.findSome? _ (argumentTypes params bindings count).zipIdx = result
  cases result with
  | none =>
    obtain ⟨index, hindex, param, hparam, hmentions⟩ := hoccurs
    have hmem : (param.substitute bindings, index) ∈
        (argumentTypes params bindings count).zipIdx := by
      rw [List.mk_mem_zipIdx_iff_getElem?]
      exact getElem?_argumentTypes h hindex hparam
    have hnone := List.findSome?_eq_none_iff.1 hfound _ hmem
    simp [Option.mem_def.1 hparam, hmentions] at hnone
  | some found =>
    obtain ⟨⟨arg, index⟩, hmem, hsome⟩ := List.exists_of_findSome?_eq_some hfound
    rw [List.mk_mem_zipIdx_iff_getElem?] at hmem
    have hindex : index < count := by
      have hlength : (argumentTypes params bindings count).length = count := length_argumentTypes h
      rw [← hlength]
      exact (List.getElem?_eq_some_iff.1 hmem).1
    obtain ⟨param, hparam⟩ := exists_paramAt? h hindex
    rw [getElem?_argumentTypes h hindex hparam, Option.some_inj] at hmem
    simp only [hparam, Option.bind_eq_bind, Option.bind_some, Option.ite_none_right_eq_some,
      Option.some_inj] at hsome
    obtain ⟨hmentions, rfl⟩ := hsome
    exact ⟨param, hmentions, by rw [hmem]⟩

/-- A generic that occurs in a parameter of some argument is bound to what it is assigned. -/
theorem bindFrom_argumentTypes (h : Admits params count) {generic : String} {ty : Ty}
    (hbound : bindings.get? generic = some ty) (hty : ty ≠ .invalid)
    (hoccurs : ∃ index < count, ∃ param ∈ paramAt? params index, param.mentions generic = true)
    (before : Bindings) :
    bindFrom params (argumentTypes params bindings count) before generic =
      before.insert generic ty := by
  obtain ⟨param, hmentions, hfound⟩ := mentioning?_argumentTypes h hoccurs
  rw [bindFrom, hfound]
  simp only [Ty.infer?_substitute hbound hty param hmentions]

/-- Generics that occur in parameters are bound one after the other. -/
theorem foldl_bindFrom (h : Admits params count)
    (hbound : ∀ generic ∈ generics, bindings.get? generic = some (types generic) ∧
      types generic ≠ .invalid ∧
      ∃ index < count, ∃ param ∈ paramAt? params index, param.mentions generic = true)
    (before : Bindings) :
    generics.foldl (bindFrom params (argumentTypes params bindings count)) before =
      generics.foldl (fun t g => t.insert g (types g)) before := by
  induction generics generalizing before with
  | nil => rfl
  | cons generic rest ih =>
    obtain ⟨⟨hget, hty, hoccurs⟩, hrest⟩ := List.forall_mem_cons.1 hbound
    rw [List.foldl_cons, List.foldl_cons, bindFrom_argumentTypes h hget hty hoccurs, ih hrest]

/-- Without explicit generic arguments a call is bound to the assignment of its arguments. -/
theorem resolveGenerics_argumentTypes (h : Admits params count)
    (hproper : ∀ generic ∈ generics, types generic ≠ .invalid)
    (hoccurs : ∀ generic ∈ generics, ∃ index < count, ∃ param ∈ paramAt? params index,
      param.mentions generic = true) :
    resolveGenerics [] generics params
      (argumentTypes params (assignment generics types) count) = .ok (assignment generics types) := by
  have hbound : ∀ generic ∈ generics,
      (assignment generics types).get? generic = some (types generic) ∧
        types generic ≠ .invalid ∧
        ∃ index < count, ∃ param ∈ paramAt? params index, param.mentions generic = true :=
    fun generic hmem => ⟨by rw [get?_assignment, if_pos hmem], hproper generic hmem,
      hoccurs generic hmem⟩
  have hgiven : Table.ofList (generics.zip ([] : List Ty)) = .empty := by
    rw [List.zip_nil_right]
    rfl
  unfold resolveGenerics
  simp only [List.length_nil, Nat.not_lt_zero, if_false, List.drop_zero, hgiven,
    foldl_bindFrom h hbound]
  rw [← assignment_eq_foldl]

/-- Nothing is left to be filled if every generic is bound. -/
theorem fillUnbound_of_bound (h : ∀ generic ∈ generics, bindings.contains generic = true) :
    fillUnbound generics bindings = ([], bindings) := by
  induction generics with
  | nil => rfl
  | cons generic rest ih =>
    obtain ⟨hgeneric, hrest⟩ := List.forall_mem_cons.1 h
    rw [fillUnbound, if_pos hgeneric, ih hrest]

theorem contains_assignment {generic : String} (h : generic ∈ generics) :
    (assignment generics types).contains generic = true := by
  simp [Table.contains, get?_assignment, h]

/-! ### Checking -/

/-- Replacing generics neither makes nor removes a trailing variadic. -/
def KeepsVariadic (params : List Ty) (bindings : Bindings) : Prop :=
  (params.getLast?.map (Ty.substitute bindings)).any Ty.isVariadic =
    params.getLast?.any Ty.isVariadic

/-- Only a generic that is assigned a variadic type becomes one. -/
theorem keepsVariadic_of_generic
    (h : ∀ generic ty, params.getLast? = some (.generic generic) →
      bindings.get? generic = some ty → ty.isVariadic = false) :
    KeepsVariadic params bindings := by
  unfold KeepsVariadic
  cases hlast : params.getLast? with
  | none => rfl
  | some last =>
    cases last with
    | generic name =>
      cases hget : bindings.get? name with
      | none => simp [Ty.substitute, hget]
      | some ty => simpa [Ty.substitute, hget, Ty.isVariadic] using h name ty hlast hget
    | _ => rfl

/-- The parameter at a position after the generics were replaced. -/
theorem paramAt?_map_substitute (h : KeepsVariadic params bindings) (index : Nat) :
    paramAt? (params.map (Ty.substitute bindings)) index =
      (paramAt? params index).map (Ty.substitute bindings) := by
  unfold KeepsVariadic at h
  rw [← List.getLast?_map] at h
  cases hvariadic : params.getLast?.any Ty.isVariadic with
  | false =>
    rw [paramAt?_eq_getElem? (h.trans hvariadic), paramAt?_eq_getElem? hvariadic, List.getElem?_map]
  | true =>
    obtain ⟨elem, hlast⟩ := getLast?_of_variadic hvariadic
    have hlast' : (params.map (Ty.substitute bindings)).getLast? =
        some (.variadic (elem.substitute bindings)) := by
      rw [List.getLast?_map, hlast]
      rfl
    rw [paramAt?_of_variadic hlast', paramAt?_of_variadic hlast, List.length_map,
      List.getElem?_map]
    split <;> rfl

/-- Arguments that have the types of their parameters agree with them. -/
theorem argumentMismatches_eq_nil {index : Nat} {args : List (Ty × Span)}
    (h : ∀ offset arg, args[offset]? = some arg → ∀ param ∈ paramAt? params (index + offset),
      param = arg.1) : argumentMismatches params index args = [] := by
  induction args generalizing index with
  | nil => rfl
  | cons arg rest ih =>
    have hlater : argumentMismatches params (index + 1) rest = [] := by
      refine ih fun offset other hother param hparam => ?_
      refine h (offset + 1) other hother param ?_
      rwa [Nat.add_right_comm] at hparam
    obtain ⟨ty, span⟩ := arg
    rw [argumentMismatches]
    split
    · rfl
    · next param hparam =>
      obtain rfl := h 0 (ty, span) rfl param hparam
      simp only [Ty.agrees_self, if_true, hlater]

theorem surplusSpan?_eq_none {spans : List Span} (h : spans.length ≤ count) :
    surplusSpan? count spans = none := by
  rw [surplusSpan?, List.drop_eq_nil_of_le h]
  rfl

/-- A call may have as many arguments after the generics were replaced as before. -/
theorem Admits.map_substitute (h : Admits params count) (hkeeps : KeepsVariadic params bindings) :
    Admits (params.map (Ty.substitute bindings)) count := by
  unfold KeepsVariadic at hkeeps
  rw [← List.getLast?_map] at hkeeps
  unfold Admits at h ⊢
  rwa [hkeeps, List.length_map]

/-- No alert is given for as many arguments as a call may have, each of the type of its parameter. -/
theorem validateArguments_eq_nil {args : List (Ty × Span)} (h : Admits params args.length)
    (hargs : ∀ index arg, args[index]? = some arg → ∀ param ∈ paramAt? params index,
      param = arg.1) (span : Span) : validateArguments params args span = [] := by
  have hmismatches : argumentMismatches params 0 args = [] :=
    argumentMismatches_eq_nil fun offset arg harg param hparam =>
      hargs offset arg harg param (by rwa [Nat.zero_add] at hparam)
  unfold Admits at h
  unfold validateArguments
  cases hvariadic : params.getLast?.any Ty.isVariadic with
  | true =>
    obtain ⟨elem, hlast⟩ := getLast?_of_variadic hvariadic
    rw [if_pos hvariadic] at h
    simp only [hlast, if_true, if_neg (Nat.not_lt.2 h), hmismatches, List.append_nil]
  | false =>
    rw [if_neg (Bool.eq_false_iff.1 hvariadic)] at h
    have hsurplus : surplusSpan? params.length (args.map Prod.snd) = none :=
      surplusSpan?_eq_none (by simp [h])
    split
    · next elem hlast => simp [hlast, Ty.isVariadic] at hvariadic
    · simp [h, hsurplus, hmismatches]

/-- Arguments that have the types of their parameters under an assignment are accepted once the
generics are replaced. -/
theorem validateArguments_argumentTypes {args : List (Ty × Span)} (h : Admits params args.length)
    (hkeeps : KeepsVariadic params bindings)
    (hargs : args.map Prod.fst = argumentTypes params bindings args.length) (span : Span) :
    validateArguments (params.map (Ty.substitute bindings)) args span = [] := by
  refine validateArguments_eq_nil (h.map_substitute hkeeps) (fun index arg harg param hparam => ?_)
    span
  have hindex : index < args.length := (List.getElem?_eq_some_iff.1 harg).1
  obtain ⟨declared, hdeclared⟩ := exists_paramAt? h hindex
  rw [paramAt?_map_substitute hkeeps, hdeclared] at hparam
  have hty : (args.map Prod.fst)[index]? = some arg.1 := by rw [List.getElem?_map, harg]; rfl
  rw [hargs, getElem?_argumentTypes h hindex hdeclared, Option.some_inj] at hty
  rw [← hty]
  exact (Option.some_inj.1 hparam).symm

end

/-! ## The whole call -/

/-- A call whose generics are all bound and whose arguments are accepted reports nothing of its
own: it leaves the state that its arguments leave. -/
theorem Check.call_of_bound {signature : Signature} {bindings : Bindings}
    {values : List (Value × Span)} {span : Span} (hresolve : resolveGenerics [] signature.generics signature.params (Check.typesOf values) =
      .ok bindings)
    (hfilled : fillUnbound signature.generics bindings = ([], bindings))
    (hvalid : validateArguments (signature.params.map (Ty.substitute bindings))
      (values.map fun (value, span) => (value.ty, span)) span = [])
    {walkArgs : List Ty → Check (List Expr × List (Value × Span))} {es : List Expr}
    {c : Check.Context} {s t : Check.State}
    (hwalk : walkArgs (Check.hintsOf signature.params) c s = .ok ((es, values), t)) :
    Check.call signature [] walkArgs span c s =
      .ok ((es, signature.returns.map (Ty.substitute bindings)), t) := by
  have hbind : Check.bindGenerics signature [] (Check.typesOf values) span c t =
      .ok (bindings, t) := by
    unfold Check.bindGenerics
    rw [hresolve]
    simp only [pure_bind, hfilled]
    split <;> rfl
  have hexplicit : Check.resolveTypes [] c s = .ok ([], s) := rfl
  unfold Check.call
  rw [Check.bind_apply_ok hexplicit, Check.bind_apply_ok hwalk]
  dsimp only
  rw [Check.bind_apply_ok hbind]
  simp only [hvalid]
  rfl

/-- A generic call infers what it was instantiated with. Let the arguments have the types of their
parameters under an assignment of types to the generics, and let each generic occur in the
parameter of some argument. Then the call is bound to exactly that assignment, no generic is
missing, the arguments are accepted, and the call gives its return types under the assignment and
reports nothing. A last parameter that is a generic itself must not be assigned a variadic type:
it would then stand for a run of arguments. -/
theorem call_infers_assignment (signature : Signature) (types : String → Ty)
    (args : List (Ty × Span)) (hproper : ∀ generic ∈ signature.generics, types generic ≠ .invalid)
    (hadmits : Admits signature.params args.length)
    (hoccurs : ∀ generic ∈ signature.generics, ∃ index < args.length,
      ∃ param ∈ paramAt? signature.params index, param.mentions generic = true)
    (hlast : ∀ generic ∈ signature.generics,
      signature.params.getLast? = some (.generic generic) → (types generic).isVariadic = false)
    (hargs : args.map Prod.fst =
      argumentTypes signature.params (assignment signature.generics types) args.length) :
    resolveGenerics [] signature.generics signature.params (args.map Prod.fst) =
        .ok (assignment signature.generics types) ∧
      fillUnbound signature.generics (assignment signature.generics types) =
        ([], assignment signature.generics types) ∧
      (∀ span, validateArguments
        (signature.params.map (Ty.substitute (assignment signature.generics types))) args span =
          []) ∧
      ∀ (values : List (Value × Span)) (es : List Expr) (span : Span)
        (walkArgs : List Ty → Check (List Expr × List (Value × Span))) (c : Check.Context)
        (s t : Check.State), values.map (fun (value, span) => (value.ty, span)) = args →
        walkArgs (Check.hintsOf signature.params) c s = .ok ((es, values), t) →
        Check.call signature [] walkArgs span c s = .ok
          ((es, signature.returns.map (Ty.substitute (assignment signature.generics types))),
            t) := by
  have hresolve := hargs ▸ resolveGenerics_argumentTypes hadmits hproper hoccurs
  have hfilled : fillUnbound signature.generics (assignment signature.generics types) =
      ([], assignment signature.generics types) :=
    fillUnbound_of_bound fun _ => contains_assignment
  have hkeeps : KeepsVariadic signature.params (assignment signature.generics types) := by
    refine keepsVariadic_of_generic fun generic ty hgeneric hbound => ?_
    rw [get?_assignment] at hbound
    split at hbound
    · next hmem =>
      obtain rfl := Option.some_inj.1 hbound
      exact hlast generic hmem hgeneric
    · cases hbound
  have hvalid := validateArguments_argumentTypes hadmits hkeeps hargs
  refine ⟨hresolve, hfilled, hvalid, ?_⟩
  intro values es span walkArgs c s t hvalues hwalk
  subst hvalues
  refine Check.call_of_bound ?_ hfilled (hvalid span) hwalk
  rw [List.map_map] at hresolve
  exact hresolve

/-- A call of `fn<T, U>(list<T>, fn(U) -> map<T>, ...U)` with two arguments for the variadic. -/
theorem call_infers_nested :
    resolveGenerics [] ["T", "U"]
        [.list (.generic "T"), .function [.generic "U"] [.map (.generic "T")] [],
          .variadic (.generic "U")]
        [.list .number, .function [.list .text] [.map .number] [], .list .text, .list .text] =
      .ok (assignment ["T", "U"] fun generic => if generic = "T" then .number else .list .text) :=
  (call_infers_assignment
    { generics := ["T", "U"]
      params := [.list (.generic "T"), .function [.generic "U"] [.map (.generic "T")] [],
        .variadic (.generic "U")] }
    (fun generic => if generic = "T" then .number else .list .text)
    [(.list .number, .synthetic), (.function [.list .text] [.map .number] [], .synthetic),
      (.list .text, .synthetic), (.list .text, .synthetic)]
    (by simp)
    (by decide)
    (by
      intro generic hgeneric
      obtain rfl | rfl : generic = "T" ∨ generic = "U" := by simpa using hgeneric
      · exact ⟨0, by decide, .list (.generic "T"), rfl, rfl⟩
      · exact ⟨3, by decide, .generic "U", rfl, rfl⟩)
    (by simp)
    rfl).1

/-- A generic that is the last parameter and is assigned a variadic type stands for a run of
arguments, and the argument of that type is refused as one of them. -/
theorem variadic_assignment_refused :
    Admits [.generic "T"] 1 ∧ Ty.variadic .number ≠ .invalid ∧
      (∃ index < 1, ∃ param ∈ paramAt? [.generic "T"] index, param.mentions "T" = true) ∧
      ∀ span, validateArguments
        ([.generic "T"].map (Ty.substitute (assignment ["T"] fun _ => .variadic .number)))
        ((argumentTypes [.generic "T"] (assignment ["T"] fun _ => .variadic .number) 1).map
          fun ty => (ty, span)) span =
        [{ kind := .invalidArgumentType 1 .number (.variadic .number), span := span }] :=
  ⟨by decide, by simp, ⟨0, by decide, .generic "T", rfl, rfl⟩, fun _ => rfl⟩

end HybroidSema
