import HybroidSema.Alert.Basic
import HybroidSema.Proofs.Agreement
import HybroidSema.Proofs.Declared

/-!
# Plain values and proper alerts

Only the value of a call or of a match can be several values at once. What is bound to a name, stored
in a field or asked for as one value is plain. A plain value has the type of the error sentinel only
if it is the sentinel itself, and that is what the guards of the alerts rely on.

* `Value.isPlain`, and the values that are plain.
* `Value.Fine` and `Value.Loose`: declared values, with plainness as an option. A loose value may be
  several plain ones.
* `AlertKind.types` and `AlertKind.isProper`: the types that an alert names, none of which is the
  error sentinel.
-/

namespace HybroidSema

/-! ## Plain values -/

namespace Value

/-- Whether the value is not a list of values. -/
def isPlain : Value → Bool
  | .tuple _ => false
  | _ => true

/-- A plain value has the type of the error sentinel only if it is the sentinel. -/
theorem eq_invalid_of_ty {v : Value} (h : v.isPlain = true) (hty : v.ty = .invalid) :
    v = .invalid := by
  cases v with
  | tuple values => cases h
  | invalid => rfl
  | _ => cases hty

theorem isInvalid_ty {v : Value} (h : v.isPlain = true) (hv : v ≠ .invalid) :
    v.ty.isInvalid = false := by
  cases v with
  | tuple values => cases h
  | invalid => exact absurd rfl hv
  | _ => rfl

/-- A plain value is its own first one. -/
theorem single_of_isPlain {v : Value} (h : v.isPlain = true) : v.single = v := by
  cases v with
  | tuple values => cases h
  | _ => rfl

/-- A plain value is the only one that it stands for. -/
theorem toList_of_isPlain {v : Value} (h : v.isPlain = true) : v.toList = [v] := by
  cases v with
  | tuple values => cases h
  | _ => rfl

theorem isPlain_forgetLiteral (v : Value) : v.forgetLiteral.isPlain = v.isPlain := by
  cases v <;> rfl

end Value

theorem Ty.isPlain_toValue (ty : Ty) : ty.toValue.isPlain = true := by
  unfold Ty.toValue
  split <;> rfl

theorem Literal.isPlain_toValue (lit : Literal) : lit.toValue.isPlain = true := by
  unfold Literal.toValue
  split <;> rfl

/-! ## Fine and loose values -/

namespace Value

variable {plain : Prop} {r r' : Registry} {v : Value}

/-- The value is declared, and plain where that is asked. -/
structure Fine (plain : Prop) (r : Registry) (v : Value) : Prop where
  declared : v.Declared r
  isPlain : plain → v.isPlain = true

/-- The value is declared, and its parts are plain where that is asked. -/
structure Loose (plain : Prop) (r : Registry) (v : Value) : Prop where
  declared : v.Declared r
  parts : plain → ∀ w ∈ v.toList, w.isPlain = true

theorem Fine.mono (h : r.Extends r') (hv : v.Fine plain r) : v.Fine plain r' :=
  ⟨hv.declared.mono h, hv.isPlain⟩

theorem Loose.mono (h : r.Extends r') (hv : v.Loose plain r) : v.Loose plain r' :=
  ⟨hv.declared.mono h, hv.parts⟩

theorem Fine.ty (h : v.Fine plain r) : v.ty.Declared r := h.declared.ty

theorem fine_invalid : Value.invalid.Fine plain r := ⟨trivial, fun _ => rfl⟩

theorem fine_forgetLiteral (h : v.Fine plain r) : v.forgetLiteral.Fine plain r :=
  ⟨declared_forgetLiteral h.declared, fun hk => (isPlain_forgetLiteral v).trans (h.isPlain hk)⟩

/-- A plain value is its own only part. -/
theorem Fine.loose (h : v.Fine plain r) : v.Loose plain r := by
  refine ⟨h.declared, fun hk w hw => ?_⟩
  have hplain := h.isPlain hk
  unfold toList at hw
  split at hw
  · cases hplain
  · rw [List.mem_singleton.1 hw]
    exact hplain

theorem Loose.of_mem_toList {w : Value} (h : v.Loose plain r) (hw : w ∈ v.toList) :
    w.Fine plain r :=
  ⟨declared_of_mem_toList h.declared hw, fun hk => h.parts hk w hw⟩

/-- The first of several values. -/
theorem Loose.single (h : v.Loose plain r) : v.single.Fine plain r := by
  refine ⟨declared_single h.declared, fun hk => ?_⟩
  have hparts := h.parts hk
  cases v with
  | tuple values =>
    cases values with
    | nil => rfl
    | cons first rest => exact hparts first (by simp [toList])
  | _ => rfl

/-- Several values as one. -/
theorem loose_ofList {values : List Value} (h : ∀ v ∈ values, v.Fine plain r) :
    (ofList values).Loose plain r := by
  refine ⟨declared_ofList fun v hv => (h v hv).declared, fun hk w hw => ?_⟩
  unfold ofList at hw
  split at hw
  · next value =>
    have hvalue := h value (by simp)
    exact hvalue.loose.parts hk w hw
  · exact (h w hw).isPlain hk

end Value

section

variable {plain : Prop} {r : Registry}

theorem Ty.fine_toValue {ty : Ty} (h : ty.Declared r) : ty.toValue.Fine plain r :=
  ⟨declared_toValue h, fun _ => ty.isPlain_toValue⟩

theorem Literal.fine_toValue (lit : Literal) : lit.toValue.Fine plain r :=
  ⟨lit.declared_toValue, fun _ => lit.isPlain_toValue⟩

/-- Everything that a library offers as a name is a plain value. -/
theorem Library.fine_of_binding? {l : Library} {name : String} {v : Variable}
    (h : l.binding? name = some v) : v.value.Fine plain r := by
  refine ⟨(Library.declared_of_binding? h).1, fun _ => ?_⟩
  rcases Library.binding_cases h with ⟨_, rfl⟩ | ⟨_, -, rfl⟩ <;> rfl

end

/-! ## Proper alerts -/

namespace Ty

theorem isInvalid_eq_false {ty : Ty} (h : ty ≠ .invalid) : ty.isInvalid = false := by
  cases ty with
  | invalid => exact absurd rfl h
  | _ => rfl

/-- The error sentinel disagrees with nothing. -/
theorem isInvalid_of_not_agrees {a b : Ty} (h : a.agrees b = false) :
    a.isInvalid = false ∧ b.isInvalid = false := by
  constructor
  · cases a with
    | invalid => cases b <;> cases h
    | _ => rfl
  · cases b with
    | invalid =>
      rw [agrees_invalid] at h
      cases h
    | _ => rfl

end Ty

namespace AlertKind

/-- The types that an alert names: what was expected, what was found, or what it is about. -/
def types : AlertKind → List Ty
  | .entityFunctionSignatureMismatch _ expected got | .typeMismatch expected got _
  | .explicitTypeMismatch _ expected got | .invalidArgumentType _ expected got
  | .invalidMemberIndex _ expected got | .mixedMapOrListContents expected got
  | .invalidCaseType expected got => [expected, got]
  | .typesMismatch _ left right => [left, right]
  | .invalidOperand _ _ got => [got]
  | .explicitTypeNotAllowed _ ty | .invalidCallerType ty | .invalidAccessValue ty
  | .memberAccessOnNonListOrMap ty => [ty]
  | _ => []

/-- Whether the alert does not name the error sentinel. -/
def isProper (kind : AlertKind) : Bool := kind.types.all (!·.isInvalid)

end AlertKind

/-- Two types that are not the error sentinel. -/
theorem all_isInvalid_of_not_agrees {a b : Ty} (h : a.agrees b = false) :
    [a, b].all (!·.isInvalid) = true ∧ [b, a].all (!·.isInvalid) = true := by
  obtain ⟨ha, hb⟩ := Ty.isInvalid_of_not_agrees h
  simp [ha, hb]

/-- Why one environment may not link another names no type. -/
theorem Registry.isProper_accessError? {r : Registry} {source target : EnvId} {kind : AlertKind}
    (h : r.accessError? source target = some kind) : kind.isProper = true := by
  unfold Registry.accessError? at h
  split at h
  · cases h
  · split at h
    · split at h <;> cases h
      rfl
    · split at h
      · cases h
      · split at h <;> cases h
        rfl

/-- The alerts of a call name the parameters and arguments that disagree. -/
theorem isProper_validateArguments (params : List Ty) (args : List (Ty × Span)) (call : Span) :
    ∀ a ∈ validateArguments params args call, a.kind.isProper = true := by
  have hmismatches (index : Nat) (args : List (Ty × Span)) :
      ∀ a ∈ argumentMismatches params index args, a.kind.isProper = true := by
    induction args generalizing index with
    | nil => exact nofun
    | cons arg rest ih =>
      unfold argumentMismatches
      split
      · exact nofun
      · dsimp only
        split
        · exact ih _
        · next hagrees =>
          refine List.forall_mem_cons.2 ⟨?_, ih _⟩
          exact (all_isInvalid_of_not_agrees (Bool.eq_false_iff.2 hagrees)).1
  intro a ha
  unfold validateArguments at ha
  extract_lets isVariadic required spans missing surplus at ha
  rcases List.mem_append.1 ha with ha | ha
  · rcases List.mem_append.1 ha with ha | ha
    · by_cases hfew : args.length < required
      · simp only [missing, if_pos hfew] at ha
        rw [List.mem_singleton.1 ha]
        rfl
      · simp only [missing, if_neg hfew] at ha
        cases ha
    · simp only [surplus] at ha
      split at ha
      · rw [List.mem_singleton.1 ha]
        rfl
      · cases ha
  · exact hmismatches 0 args a ha

end HybroidSema
