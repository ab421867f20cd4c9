import HybroidSema.Proofs.Inference
import Mathlib.Data.List.Forall2

/-!
# The laws of agreement

Agreement of types is reflexive and symmetric, goes through every constructor, and survives the
replacement of generics. It is not transitive: the error sentinel and the library wildcard agree with
every type, and so do types that have them as parts.

* `Ty.Masks`: one type is another with parts hidden behind the sentinel or the wildcard.
* `Ty.LawfulAgreement`: the laws.
* `Ty.agrees_substitute`: agreement survives the replacement of generics.
* `agrees_lawful`: agreement has the laws.
-/

namespace HybroidSema

namespace Ty

/-! ## The laws -/

mutual
/-- One type is another with some of its parts, however deep, replaced by the error sentinel or by
the library wildcard. -/
inductive Masks : Ty → Ty → Prop
  | sentinel (ty : Ty) : Masks .invalid ty
  | wildcard (ty : Ty) : Masks .object ty
  | same (ty : Ty) : Masks ty ty
  | container (kind : ContainerKind) {masked elem : Ty} (h : Masks masked elem) :
    Masks (.container kind masked) (.container kind elem)
  | variadic {masked elem : Ty} (h : Masks masked elem) : Masks (.variadic masked) (.variadic elem)
  | function (generics : List String) {params params' returns returns' : List Ty}
    (hparams : MasksAll params' params) (hreturns : MasksAll returns' returns) :
    Masks (.function params' returns' generics) (.function params returns generics)

/-- The same for two lists, position by position. -/
inductive MasksAll : List Ty → List Ty → Prop
  | nil : MasksAll [] []
  | cons {masked ty : Ty} {rest rest' : List Ty} (h : Masks masked ty) (hrest : MasksAll rest' rest) :
    MasksAll (masked :: rest') (ty :: rest)
end

/-- The laws of a relation that tells when a value of one type is accepted where another type is
expected. -/
structure LawfulAgreement (accepts : Ty → Ty → Prop) : Prop where
  refl (a : Ty) : accepts a a
  symm (a b : Ty) : accepts a b ↔ accepts b a
  /-- Containers are compared by kind and element type. -/
  container (kind kind' : ContainerKind) (a b : Ty) :
    accepts (.container kind a) (.container kind' b) ↔ kind = kind' ∧ accepts a b
  variadic (a b : Ty) : accepts (.variadic a) (.variadic b) ↔ accepts a b
  /-- Functions are compared by parameters and returns, whatever their generics. -/
  function (params params' returns returns' : List Ty) (generics generics' : List String) :
    accepts (.function params returns generics) (.function params' returns' generics') ↔
      List.Forall₂ accepts params params' ∧ List.Forall₂ accepts returns returns'
  /-- The sentinel and the wildcard are accepted in the place of any part. -/
  masked (ty a b : Ty) : Masks a ty → Masks b ty → accepts a b
  /-- A class or entity is accepted as itself, and an entity also as one of unknown kind. -/
  named (env : EnvId) (name : String) (kind : NamedKind) (ty : Ty) :
    accepts (.named env name kind) ty ↔ ty = .named env name kind ∨ ty = .invalid ∨ ty = .object ∨
      (kind = .entityDecl ∧ ty = .rawEntity)
  /-- An enum is accepted as itself and as a number. -/
  enum (env : EnvId) (name : String) (ty : Ty) :
    accepts (.enum env name) ty ↔ ty = .enum env name ∨ ty = .invalid ∨ ty = .object ∨
      ty = .number
  /-- Different positions in the registry are different environments. -/
  environments (i j : Nat) (name name' : String) (kind kind' : NamedKind) :
    accepts (.named (.user i) name kind) (.named (.user j) name' kind') ↔
      i = j ∧ name = name' ∧ kind = kind'
  substitute (bindings : Bindings) (a b : Ty) :
    accepts a b → accepts (a.substitute bindings) (b.substitute bindings)

/-! ## The sentinel and the wildcard -/

@[simp] theorem invalid_agrees (ty : Ty) : Ty.invalid.agrees ty = true := by simp [agrees]

@[simp] theorem object_agrees (ty : Ty) : Ty.object.agrees ty = true := by
  cases ty <;> rfl

@[simp] theorem agrees_invalid (ty : Ty) : ty.agrees .invalid = true := by
  cases ty <;> rfl

@[simp] theorem agrees_object (ty : Ty) : ty.agrees .object = true := by
  cases ty <;> rfl

/-! ## Constructors -/

theorem allAgree_iff_forall₂ (as bs : List Ty) :
    allAgree as bs = true ↔ List.Forall₂ (fun a b => a.agrees b = true) as bs := by
  induction as generalizing bs with
  | nil => cases bs <;> simp [allAgree, List.forall₂_nil_left_iff]
  | cons a as ih => cases bs <;> simp [allAgree, List.forall₂_nil_right_iff, ih]

theorem named_agrees_iff (env : EnvId) (name : String) (kind : NamedKind) (ty : Ty) :
    (Ty.named env name kind).agrees ty = true ↔ ty = .named env name kind ∨ ty = .invalid ∨
      ty = .object ∨ (kind = .entityDecl ∧ ty = .rawEntity) := by
  cases ty with
  | named env' name' kind' =>
    cases kind <;> simp [agrees, and_assoc, @eq_comm _ env, @eq_comm _ name, @eq_comm _ kind']
  | rawEntity => cases kind <;> simp [agrees]
  | _ => simp [agrees]

theorem enum_agrees_iff (env : EnvId) (name : String) (ty : Ty) :
    (Ty.enum env name).agrees ty = true ↔ ty = .enum env name ∨ ty = .invalid ∨ ty = .object ∨
      ty = .number := by
  cases ty with
  | enum env' name' => simp [agrees, @eq_comm _ env, @eq_comm _ name]
  | basic primitive => cases primitive <;> simp [agrees]
  | _ => simp [agrees]

/-! ## Symmetry -/

mutual
theorem agrees_comm (a b : Ty) : a.agrees b = b.agrees a :=
  match a with
  | .basic primitive => by cases primitive <;> cases b <;> simp [agrees, Bool.beq_comm]
  | .named _ _ kind => by cases kind <;> cases b <;> simp [agrees, Bool.beq_comm]
  | .enum _ _ => by
    cases b with
    | basic primitive => cases primitive <;> simp [agrees]
    | _ => simp [agrees, Bool.beq_comm]
  | .fixed _ | .object | .invalid => by cases b <;> simp [agrees]
  | .rawEntity => by
    cases b with
    | named _ _ kind => cases kind <;> simp [agrees]
    | _ => simp [agrees]
  | .generic _ => by cases b <;> simp [agrees, Bool.beq_comm]
  | .container kind elem => by cases b <;> simp [agrees, agrees_comm elem, Bool.beq_comm]
  | .variadic elem => by cases b <;> simp [agrees, agrees_comm elem]
  | .function params returns _ => by
    cases b <;> simp [agrees, allAgree_comm params, allAgree_comm returns]
  termination_by structural a

theorem allAgree_comm (as bs : List Ty) : allAgree as bs = allAgree bs as :=
  match as with
  | [] => by cases bs <;> rfl
  | a :: rest => by cases bs <;> simp [allAgree, agrees_comm a, allAgree_comm rest]
  termination_by structural as
end

/-! ## Parts behind the sentinel or the wildcard -/

theorem MasksAll.refl (tys : List Ty) : MasksAll tys tys := by
  induction tys with
  | nil => exact .nil
  | cons ty rest ih => exact .cons (.same ty) ih

theorem masks_function {params returns : List Ty} {generics : List String} {masked : Ty}
    (h : Masks masked (.function params returns generics)) :
    masked = .invalid ∨ masked = .object ∨ ∃ params' returns',
      masked = .function params' returns' generics ∧ MasksAll params' params ∧
        MasksAll returns' returns := by
  cases h with
  | sentinel => exact .inl rfl
  | wildcard => exact .inr (.inl rfl)
  | same => exact .inr (.inr ⟨params, returns, rfl, .refl params, .refl returns⟩)
  | function _ hparams hreturns => exact .inr (.inr ⟨_, _, rfl, hparams, hreturns⟩)

mutual
/-- What hides parts of one type agrees, even if different parts are hidden. -/
theorem agrees_of_masks (ty a b : Ty) (ha : Masks a ty) (hb : Masks b ty) : a.agrees b = true :=
  match ty with
  | .container kind elem => by
    have helem := agrees_of_masks elem
    cases ha <;> cases hb <;> simp_all [agrees, agrees_self, Masks.same]
  | .variadic elem => by
    have helem := agrees_of_masks elem
    cases ha <;> cases hb <;> simp_all [agrees, agrees_self, Masks.same]
  | .function params returns generics => by
    have hparams := allAgree_of_masks params
    have hreturns := allAgree_of_masks returns
    rcases masks_function ha with rfl | rfl | ⟨_, _, rfl, ha, ha'⟩
    · simp
    · simp
    rcases masks_function hb with rfl | rfl | ⟨_, _, rfl, hb, hb'⟩
    · simp
    · simp
    simp [agrees, hparams _ _ ha hb, hreturns _ _ ha' hb']
  | .basic _ | .fixed _ | .named _ _ _ | .enum _ _ | .generic _ | .rawEntity | .object
  | .invalid => by
    cases ha <;> cases hb <;> simp [agrees_self]
  termination_by structural ty

theorem allAgree_of_masks (tys as bs : List Ty) (has : MasksAll as tys) (hbs : MasksAll bs tys) :
    allAgree as bs = true :=
  match tys with
  | [] => by cases has; cases hbs; rfl
  | ty :: rest => by
    obtain _ | ⟨ha, has⟩ := has
    obtain _ | ⟨hb, hbs⟩ := hbs
    rw [allAgree, agrees_of_masks ty _ _ ha hb, allAgree_of_masks rest _ _ has hbs]
    rfl
  termination_by structural tys
end

/-! ## Replaced generics -/

mutual
/-- Types that agree still agree after generics are replaced. -/
theorem agrees_substitute (bindings : Bindings) (a b : Ty) (h : a.agrees b = true) :
    (a.substitute bindings).agrees (b.substitute bindings) = true :=
  match a with
  | .invalid | .object => by simp [substitute]
  | .generic name => by
    cases b with
    | generic other =>
      obtain rfl : name = other := by simpa [agrees] using h
      exact agrees_self _
    | invalid | object => simp [substitute]
    | _ => simp [agrees] at h
  | .basic _ | .fixed _ | .named _ _ _ | .enum _ _ | .rawEntity => by
    -- Neither side has a generic in it, or they do not agree.
    cases b with
    | generic _ | container _ _ | variadic _ | function _ _ _ => simp [agrees] at h
    | _ => exact h
  | .container kind elem => by
    have helem := agrees_substitute bindings elem
    cases b <;> simp_all [agrees, substitute]
  | .variadic elem => by
    have helem := agrees_substitute bindings elem
    cases b <;> simp_all [agrees, substitute]
  | .function params returns _ => by
    have hparams := allAgree_substituteAll bindings params
    have hreturns := allAgree_substituteAll bindings returns
    cases b <;> simp_all [agrees, substitute]
  termination_by structural a

theorem allAgree_substituteAll (bindings : Bindings) (as bs : List Ty) (h : allAgree as bs = true) :
    allAgree (substituteAll bindings as) (substituteAll bindings bs) = true :=
  match as with
  | [] => by cases bs <;> simp_all [allAgree, substituteAll]
  | a :: rest => by
    have ha := agrees_substitute bindings a
    have hrest := allAgree_substituteAll bindings rest
    cases bs <;> simp_all [allAgree, substituteAll]
  termination_by structural as
end

end Ty

/-- Agreement has the laws: it is reflexive and symmetric, it goes through every constructor and
behind the sentinel and the wildcard at any depth, it is nominal on declared types, and types that
agree still agree after any generics are replaced. -/
theorem agrees_lawful : Ty.LawfulAgreement fun a b => a.agrees b = true where
  refl := Ty.agrees_self
  symm a b := by rw [Ty.agrees_comm]
  container kind kind' a b := by simp [Ty.agrees]
  variadic a b := by simp [Ty.agrees]
  function params params' returns returns' _ _ := by
    simp [Ty.agrees, Ty.allAgree_iff_forall₂]
  masked := Ty.agrees_of_masks
  named := Ty.named_agrees_iff
  enum := Ty.enum_agrees_iff
  environments i j name name' kind kind' := by
    simp [Ty.agrees, and_assoc, EnvId.user]
  substitute := Ty.agrees_substitute

end HybroidSema
