import HybroidSema.Check.Name
import HybroidSema.Check.Operation

/-!
# Assignment

A target of an assignment is checked like an expression, with two looks around it. Before it, a
local name is marked as assigned, which a constant refuses. After it, the node that took the place
of the target shows what else was assigned: a field of `self`, or a constant of another
environment.
-/

namespace HybroidSema.Check

/-- Mark a local name as assigned, and tell whether the target is one. -/
def assignLocal (target : Expr) : Check Bool := do
  match target with
  | .ident id =>
    match (← scopes).resolve? id.name with
    | some position =>
      match (← scopes).assign position id.name none with
      | .ok scopes => modifyScopes fun _ => scopes
      | .error error => reportScopeError error id.span "variable"
      return true
    | none => return false
  | _ => return false

/-- Note that a field of the innermost class or entity has a value now. -/
def markFieldInitialized (name : String) : Check Unit := do
  match (← scopes).nearestContainer? with
  | some position =>
    modifyScopes (·.modifyVariable position name fun v => { v with isInit := true })
  | none => pure ()

/-- Report the assignment to a constant of another environment. -/
def checkForeignConst (binding : Option Variable) (id : Ident) : Check Unit := do
  if binding.any (·.isConst) then report (.constAssignment id.name) id.span

/-- Look at the node that took the place of a target. -/
def finishPlace (written resolved : Expr) (isLocal : Bool) : Check Unit := do
  match resolved with
  | .field (.self _ _) field _ _ => markFieldInitialized field.name
  | .builtin id => checkForeignConst (Library.builtin.binding? id.name) id
  | .envAccess env name _ =>
    match (← registry).lookup? env.name with
    | some target => checkForeignConst (← foreignVariable? target name.name) name
    | none => pure ()
  | .literal lit =>
    match written with
    | .ident id => if !isLocal then report (.constAssignment id.name) lit.span
    | _ => pure ()
  | _ => pure ()

/-- Compare the values of an assignment with its targets. -/
def checkAssigned (op : AssignOp) (targets : List Value) (values : List (Value × Span)) :
    Check Unit :=
  match op with
  | .plain => checkValueTypes (targets.map Value.ty) values "assignment"
  | .compound op =>
    (targets.zip values).forM fun (target, value, span) => do
      let result ← binaryValue op target value span
      checkType target.ty result.ty "assignment" span

end HybroidSema.Check
