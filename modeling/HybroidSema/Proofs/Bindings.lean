import HybroidSema.Proofs.Quiet
import HybroidSema.Proofs.ScopePositions
import Mathlib.Data.List.Nodup

/-!
# Binding variables, and what names stand for

A variable is bound in the innermost scope, where its name must be free. A name stands for the variable of
the innermost scope that binds it.

* `declare_eq_of_free` and `runs_declareAll`: variables whose names are free are bound without a report.
* `ScopeStack.resolve?_cons_of_free` and `ScopeStack.resolve?_cons_of_bound`: names in a scope on top of
  others.
* `State.referent?`: what a name stands for.
-/

namespace HybroidSema

theorem Table.get?_of_mem {α : Type} {table : Table α} {key : String} {a : α}
    (hnodup : (table.entries.map Prod.fst).Nodup) (h : (key, a) ∈ table.entries) :
    table.get? key = some a := by
  obtain ⟨entries⟩ := table
  change entries.lookup key = some a
  induction entries with
  | nil => cases h
  | cons e rest ih =>
    rw [List.map_cons, List.nodup_cons] at hnodup
    rw [List.lookup_cons]
    rcases List.mem_cons.1 h with rfl | hrest
    · rw [beq_self_eq_true]
    · have hother : (key == e.1) = false := beq_eq_false_iff_ne.2 fun heq =>
        hnodup.1 (heq ▸ List.mem_map_of_mem hrest)
      rw [hother]
      exact ih hnodup.2 hrest

/-- The scope with one more variable. -/
def Scope.binding (scope : Scope) (v : Variable) : Scope :=
  { scope with bindings := scope.bindings.insert v.name v }

namespace ScopeStack

variable {below : ScopeStack} {scope : Scope} {name : String}

theorem binding?_cons_of_free (h : scope.bindings.get? name = none) (position : Nat) :
    (below.cons scope).binding? position name = below.binding? position name := by
  rw [binding?, binding?, get?_cons]
  split
  · next heq =>
    have hnone : below.get? position = none := by
      rw [← Option.not_isSome_iff_eq_none, isSome_get?_iff, heq]
      exact Nat.lt_irrefl _
    rw [hnone]
    exact h
  · rfl

/-- A name that is not bound on top is resolved below. -/
theorem resolve?_cons_of_free (h : scope.bindings.get? name = none) :
    (below.cons scope).resolve? name = below.resolve? name := by
  refine Option.ext fun position => ?_
  simp only [resolve?_eq_some_iff, binding?_cons_of_free h]

theorem binding?_cons_self (below : ScopeStack) (scope : Scope) (name : String) :
    (below.cons scope).binding? below.depth name = scope.bindings.get? name := by
  rw [binding?, get?_cons, if_pos rfl]
  rfl

/-- A name that is bound on top is resolved there. -/
theorem resolve?_cons_of_bound {v : Variable} (h : scope.bindings.get? name = some v) :
    (below.cons scope).resolve? name = some below.depth := by
  refine (resolve?_eq_some_iff ..).2 ⟨⟨v, (binding?_cons_self ..).trans h⟩, fun q hq => ?_⟩
  have hnone : (below.cons scope).get? q = none := by
    rw [← Option.not_isSome_iff_eq_none, isSome_get?_iff, depth_cons]
    exact Nat.not_lt.2 hq
  rw [binding?, hnone]
  rfl

end ScopeStack

namespace Check

variable {c : Context} {s : State} {env : Environment} {l : List (String × Variable)}

/-- What a name stands for in the open scopes: the position of the scope that binds it, and the
variable. -/
def State.referent? (s : State) (c : Context) (name : String) : Option (Nat × Variable) := do
  let env ← s.own? c
  let position ← env.scopes.resolve? name
  let v ← env.scopes.binding? position name
  pure (position, v)

/-- A variable whose name is free in the innermost scope is bound there. -/
theorem declare_eq_of_free (hown : s.own? c = some env) {v : Variable}
    (hfree : v.name ∉ env.scopes.current.bindings.entries.map Prod.fst) (what : String) :
    declare v what c s = .ok (⟨⟩, s.modifyOwn c fun env' =>
      { env' with scopes := env.scopes.modifyCurrent fun _ => env.scopes.current.binding v }) := by
  have hdeclare : env.scopes.declare v =
      .ok (env.scopes.modifyCurrent fun _ => env.scopes.current.binding v) := by
    rw [ScopeStack.declare, Scope.declare, Table.get?_eq_none_iff.2 hfree]
    rfl
  rw [declare, bind_apply_ok (scopes_eq hown)]
  simp only [hdeclare]
  exact modifyScopes_eq hown _

/-- Variables with names of their own are bound one after the other, given what binding one of them
leaves. -/
theorem runs_declareAll {ι : Type} {I : State → List (String × Variable) → Prop}
    (hbind : ∀ s l v what, I s l → v.name ∉ l.map Prod.fst →
      Runs (declare v what) c s fun _ t => I t (l ++ [(v.name, v)]))
    (bound : ι → Variable) {step : ι → Check PUnit}
    (hstep : ∀ i, ∃ what, step i = declare (bound i) what) (h : I s l) (items : List ι)
    (hnodup : (l.map Prod.fst ++ items.map fun i => (bound i).name).Nodup) :
    Runs (items.forM step) c s fun _ t => I t (l ++ items.map fun i => ((bound i).name, bound i)) := by
  induction items generalizing s l with
  | nil => exact .pure (by simpa using h)
  | cons i rest ih =>
    obtain ⟨what, heq⟩ := hstep i
    rw [List.map_cons, List.append_cons] at hnodup
    have hfree : (bound i).name ∉ l.map Prod.fst := by
      have hfirst := hnodup.of_append_left
      rw [List.nodup_append] at hfirst
      exact fun hmem => hfirst.2.2 _ hmem _ (List.mem_singleton_self _) rfl
    change Runs (step i >>= fun _ => rest.forM step) c s _
    rw [heq, List.map_cons, List.append_cons]
    exact (hbind s l (bound i) what h hfree).bind fun _ u hu => ih hu (by simpa using hnodup)

end Check

end HybroidSema
