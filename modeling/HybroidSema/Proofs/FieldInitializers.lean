import HybroidSema.Proofs.FieldMarks
import HybroidSema.Proofs.Subexpressions

/-!
# Initializers of fields

An expression without functions and matches has no statements in it, and so its check only looks at
variables. Where all initializers of a class or entity are such expressions, checking them gives fields
other types and assigns none.

* `Check.looking_values`: the values of a declaration, by what follows from the expressions inside.
* `Check.fixes_initializers`: by induction on the declarations.
-/

namespace HybroidSema.Check

variable {α β : Type} {m : Check α} {f : α → Check β} {c : Context} {s s' t : State}
  {o : ScopeStack}

/-! ## Expressions without statements inside -/

/-- What is in the expressions only looks at variables. -/
theorem looking_values (es : List Expr) (hints : List Ty) (h : Expr.allPlain es = true) :
    Quiet .looking (values es hints) := by
  have hes : ∀ e ∈ es, ∀ hint, Quiet .looking (expr e hint) := fun e he hint =>
    (weighs_quiet .looking).of_isPlain e (Expr.isPlain_of_mem h he) hint
  exact (weighs_quiet .looking).of_values hes hints

/-! ## Declarations of fields -/

/-- Initializers without statements inside, in their scope. -/
theorem fixes_restrictedValues {exprs : List Expr} (hplain : Expr.allPlain exprs = true)
    (hints : List Ty) :
    Fixes (inScope (·.pushRestricted .plain { selfRef := true }) (values exprs hints)) := by
  intro c s o hl
  obtain ⟨env, hown, -, -⟩ := hl.own
  exact Runs.fills_inScope hl hown rfl rfl fun s₁ _ hl₁ _ =>
    (looking_values exprs hints hplain).fixes c s₁ _ hl₁

/-- A field takes another type. -/
theorem fixes_refineField (owner : DeclRef) (kind : NamedKind) (name : String) (value : Value) :
    Fixes (refineField owner kind name value) := by
  refine Fixes.bind (fun c s o hl => ?_) fun _ c s o hl => ?_
  · obtain ⟨env, hown, -, ho⟩ := hl.own
    refine ⟨⟨⟩, _, modifyScopes_eq hown _, .of_modifyOwn hl hown rfl ?_ ?_⟩
    · rw [env.scopes.outline_modifyVariable, ho]
      exact .refl o
    · rw [ScopeStack.members_modifyVariable]
      split
      · exact marksAll_modifyEntries_bot _ name fun _ => ⟨rfl, rfl⟩
      · exact .refl _
  · obtain ⟨env, hown, -, ho⟩ := hl.own
    have hscopes : (env.modifyMembers kind owner.name (·.setField name value)).scopes =
        env.scopes := by
      cases kind <;> rfl
    refine (runs_modifyEnvironment hl _).mono fun _ t ht => ?_
    subst ht
    refine .of_members_eq hl hown (by cases kind <;> rfl) ?_ (by rw [hscopes])
    rw [hscopes, ho]
    exact .refl o

theorem fixes_checkInitializer (owner : DeclRef) (kind : NamedKind) (name : Ident)
    (registered : Option Value) (value : Value) (span : Span) :
    Fixes (checkInitializer owner kind name registered value span) := by
  unfold checkInitializer
  split
  · exact fixes_refineField _ _ _ _
  · exact Quiet.fixes (quiet_checkType _ _ _ _)
  · exact Quiet.fixes (.pure _)

/-- Initializers without functions and matches assign no field. -/
theorem fixes_initializers {decls : List VariableDecl}
    (hplain : ∀ decl ∈ decls, Expr.allPlain decl.values = true) (owner : DeclRef) (kind : NamedKind)
    (members : Members) : Fixes (initializers decls owner kind members) := by
  induction decls with
  | nil => exact Quiet.fixes (.pure _)
  | cons decl rest ih =>
    obtain ⟨names, ty, exprs, isPub, isConst, span⟩ := decl
    rw [List.forall_mem_cons] at hplain
    unfold initializers
    dsimp only
    split
    · exact (Quiet.pure _).fixes.bind fun _ => (ih hplain.2).bind fun _ => Quiet.fixes (.pure _)
    · exact (fixes_restrictedValues hplain.1 _).bind fun _ =>
        (Quiet.fixes (quiet_checkValueCount _ _ _ _)).bind fun _ =>
          (Fixes.forM _ fun _ => fixes_checkInitializer _ _ _ _ _ _).bind fun _ =>
            (Quiet.pure _).fixes.bind fun _ =>
            (ih hplain.2).bind fun _ => Quiet.fixes (.pure _)

end HybroidSema.Check
