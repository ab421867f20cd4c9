import HybroidSema.Table
import HybroidSema.Ty.Basic

/-!
# Binding generic parameters

A generic parameter is bound by walking a declared type and an actual type side by side
(`Ty.infer?`), and bound parameters are replaced throughout a type (`Ty.substitute`). Both go
through containers, variadics and function types.
-/

namespace HybroidSema

/-- The types bound to generic names. -/
abbrev Bindings := Table Ty

namespace Ty

mutual
/-- The type that a generic name must stand for, so that `param` becomes `arg`: the first
occurrence decides. Nothing is learned from the error sentinel. -/
def infer? (generic : String) : (param arg : Ty) → Option Ty
  | _, .invalid => none
  | .generic name, arg => if name == generic then some arg else none
  | .container kind elem, .container other inner =>
    if kind = other then elem.infer? generic inner else none
  | .variadic elem, .variadic inner => elem.infer? generic inner
  | .variadic elem, arg => elem.infer? generic arg
  | .function params returns _, .function params' returns' _ =>
    inferAny? generic params params' <|> inferAny? generic returns returns'
  | _, _ => none

/-- The same for two lists, position by position; the first answer counts. -/
def inferAny? (generic : String) : (params args : List Ty) → Option Ty
  | param :: params, arg :: args => param.infer? generic arg <|> inferAny? generic params args
  | _, _ => none
end

mutual
/-- The type with every bound generic replaced. A function type no longer lists the generics that
are bound. -/
def substitute (bindings : Bindings) : Ty → Ty
  | .generic name => (bindings.get? name).getD (.generic name)
  | .container kind elem => .container kind (elem.substitute bindings)
  | .variadic elem => .variadic (elem.substitute bindings)
  | .function params returns generics =>
    .function (substituteAll bindings params) (substituteAll bindings returns)
      (generics.filter (!bindings.contains ·))
  | ty => ty

/-- Every type with every bound generic replaced. -/
def substituteAll (bindings : Bindings) : List Ty → List Ty
  | [] => []
  | ty :: rest => ty.substitute bindings :: substituteAll bindings rest
end

theorem substituteAll_eq_map (bindings : Bindings) (tys : List Ty) :
    substituteAll bindings tys = tys.map (substitute bindings) := by
  induction tys with
  | nil => rfl
  | cons ty rest ih => simp [substituteAll, ih]

end Ty

end HybroidSema
