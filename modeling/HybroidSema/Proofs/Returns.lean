import HybroidSema.Proofs.Forms
import HybroidSema.Proofs.Frame

/-!
# Missing returns and yields

A function with return types reports a missing `return` exactly if its body does not return on
every path, as the tree tells. Nothing but `return` is permitted in a function body outside loops
and match expressions, and those keep their exits, so no other exit can stand in for a `return`.
A match expression with an `else` arm reports a missing `yield` exactly if some arm does not leave
on every path.

* `walkFunction` and `missingReturn`: the walk of a function without the report, and the report.
* `inFunction_eq`: a function body is that walk, followed by that report.
* `matchExpr_eq`: the same for the arms of a match expression.
-/

namespace HybroidSema

namespace Stmt

mutual
/-- Whether a statement leaves does not depend on `self`. -/
theorem leaves_self (p : Permissions) (b : Bool) (s : Stmt) :
    s.leaves { p with selfRef := b } = s.leaves p :=
  match s with
  | .ifChain _ stmts elseifs otherwise _ => by
    simp only [leaves, bodyLeaves_self p b stmts, elseIfsLeave_self p b elseifs,
      elseLeaves_self p b otherwise]
  | .matching _ arms _ => by simp only [leaves, armsLeave_self p b arms]
  | .returning _ _ | .yielding _ _ | .breaking _ | .continuing _ | .env _ | .variable _
  | .function _ | .classDecl _ | .entityDecl _ | .enumDecl _ | .aliasDecl _ | .assign _ _ _ _
  | .repeatLoop _ _ _ _ _ _ | .whileLoop _ _ _ | .forLoop _ _ _ _ _ | .tick _ _ _
  | .destroy _ _ _ _ | .use _ | .expr _ | .error _ => rfl
  termination_by structural s

theorem bodyLeaves_self (p : Permissions) (b : Bool) (stmts : List Stmt) :
    bodyLeaves { p with selfRef := b } stmts = bodyLeaves p stmts :=
  match stmts with
  | [] => rfl
  | first :: rest => by simp only [bodyLeaves, leaves_self p b first, bodyLeaves_self p b rest]
  termination_by structural stmts

theorem armsLeave_self (p : Permissions) (b : Bool) (arms : List MatchArm) :
    armsLeave { p with selfRef := b } arms = armsLeave p arms :=
  match arms with
  | [] => rfl
  | ⟨_, _, stmts, _⟩ :: rest => by
    simp only [armsLeave, bodyLeaves_self p b stmts, armsLeave_self p b rest]
  termination_by structural arms

theorem elseIfsLeave_self (p : Permissions) (b : Bool) (branches : List ElseIf) :
    elseIfsLeave { p with selfRef := b } branches = elseIfsLeave p branches :=
  match branches with
  | [] => rfl
  | ⟨_, stmts, _⟩ :: rest => by
    simp only [elseIfsLeave, bodyLeaves_self p b stmts, elseIfsLeave_self p b rest]
  termination_by structural branches

theorem elseLeaves_self (p : Permissions) (b : Bool) (otherwise : Option (List Stmt)) :
    elseLeaves { p with selfRef := b } otherwise = elseLeaves p otherwise :=
  match otherwise with
  | none => rfl
  | some stmts => bodyLeaves_self p b stmts
  termination_by structural otherwise
end

end Stmt

namespace Check

variable {α : Type} {c : Context} {s s' : State} {o : ScopeStack} {env : Environment}

/-! ## Functions -/

/-- Walk the parameters and the body of a function in its scope. -/
def walkFunction (signature : Signature) (params : List Param) (stmts : List Stmt) :
    Check (List Stmt) := do
  let (stmts, _) ←
    inScope (·.pushFunction { generics := signature.generics, returns := signature.returns }) do
      bindParams params signature.params
      body stmts false
  return stmts

/-- The report of a function with return types, if its body does not return on every path. -/
def missingReturn (hasReturns : Bool) (stmts : List Stmt) (span : Span) : Check Unit := do
  if hasReturns && !Stmt.bodyReturns stmts then report (.notAllCodePathsExit "return") span

/-- Closing the innermost scope. -/
theorem closeScope_eq (h : s.own? c = some env) {scope : Scope} {below : ScopeStack}
    (hclose : env.scopes.close? = some (scope, below)) :
    closeScope c s = .ok (some scope, s.modifyOwn c fun env => { env with scopes := below }) := by
  rw [closeScope, bind_apply_ok (scopes_eq h)]
  simp only [hclose]
  rw [bind_apply_ok (modifyScopes_eq h _)]
  rfl

/-- A function body is its walk, and then the report of a missing `return`, if it has return types
and does not return on every path. -/
theorem inFunction_eq (hl : Live c s o) (signature : Signature) (params : List Param)
    (span : Span) (stmts : List Stmt) :
    inFunction signature params span (body stmts false) c s = (do
      let out ← walkFunction signature params stmts
      missingReturn (!signature.returns.isEmpty) stmts span
      return out) c s := by
  have hparams : Quiet .checking (bindParams params signature.params) := quiet_bindParams _ _
  have hbody : Leaves .checking (body stmts false) (Stmt.bodyLeaves · stmts) :=
    leaves_body stmts false
  obtain ⟨own, hown, -, ho⟩ := hl.own
  let tag : FuncTag := { generics := signature.generics, returns := signature.returns }
  -- The scope is opened, the parameters are bound, and the body is walked.
  have hfunction : ∀ env, s.own? c = some env → env.scopes.outline = o →
      (env.scopes.pushFunction tag).outline = o.cons (o.funcScope tag) ∧
        Phase.checking.KeepsRoot env.scopes (env.scopes.pushFunction tag) := fun env _ ho =>
    ⟨ho ▸ env.scopes.outline_pushFunction tag, .of_bindings_eq .checking rfl⟩
  obtain ⟨⟨⟩, s₁, hopen, -, hl₁, -⟩ :=
    runs_modifyScopes (f := (·.pushFunction tag)) .checking hl hfunction
  obtain ⟨⟨⟩, s₂, hbind, -, hl₂⟩ := hparams c s₁ _ hl₁
  obtain ⟨out, s₃, hwalk, -, x, hx, hl₃⟩ := hbody c s₂ _ hl₂ trivial (.inl rfl)
  -- Its exits tell whether it returns on every path.
  obtain ⟨env₃, hown₃, -, ho₃⟩ := hl₃.own
  have hexits : env₃.scopes.current.exits = x := by
    rw [← Scope.outline_exits, ← ScopeStack.outline_current, ho₃]
    simp [ScopeStack.funcScope]
  have hreturns : env₃.scopes.current.exits.byReturn = Stmt.bodyReturns stmts := by
    rw [hexits, hx.byReturn rfl rfl rfl]
    exact Stmt.bodyLeaves_self { returns := true } _ stmts
  obtain ⟨scope, below, hclose, -, -⟩ := ScopeStack.close?_of_outline_eq_cons
    (show env₃.scopes.outline = o.cons { o.funcScope tag with exits := _ } from ho₃)
  have hlast (t : State) (ht : t.own? c = some env₃) :
      closeScope c t = .ok (some scope, t.modifyOwn c fun env => { env with scopes := below }) :=
    closeScope_eq ht hclose
  have hscope {m : Check (List Stmt)} {t : State} (hm : m c s₁ = .ok (out, t))
      (ht : t.own? c = some env₃) : inScope (·.pushFunction tag) m c s =
        .ok ((out, some scope), t.modifyOwn c fun env => { env with scopes := below }) := by
    rw [inScope, bind_apply_ok hopen, bind_apply_ok hm, bind_apply_ok (hlast t ht)]
    rfl
  have hwalked : walkFunction signature params stmts c s =
      .ok (out, s₃.modifyOwn c fun env => { env with scopes := below }) := by
    rw [walkFunction, bind_apply_ok (hscope ((bind_apply_ok hbind).trans hwalk) hown₃)]
    rfl
  rw [bind_apply_ok hwalked, inFunction, missingReturn, ← hreturns]
  cases hmissing : !signature.returns.isEmpty && !env₃.scopes.current.exits.byReturn with
  | true =>
    let alert : Alert := { kind := .notAllCodePathsExit "return", span := span }
    refine bind_apply_ok (hscope (t := { s₃ with alerts := s₃.alerts.push alert }) ?_ hown₃)
    rw [bind_apply_ok hbind, bind_apply_ok hwalk, bind_apply_ok (scopes_eq hown₃)]
    simp only [hmissing, if_true]
    rfl
  | false =>
    refine bind_apply_ok (hscope (t := s₃) ?_ hown₃)
    rw [bind_apply_ok hbind, bind_apply_ok hwalk, bind_apply_ok (scopes_eq hown₃)]
    simp only [hmissing, Bool.false_eq_true, if_false]
    rfl

/-! ## Match expressions -/

/-- The report of a match expression with an `else` arm, if some arm does not leave on every path
where the exits in `p` are permitted. -/
def missingYield (p : Permissions) (arms : List MatchArm) (span : Span) : Check Unit := do
  if arms.any (·.isDefault) && !Stmt.armsLeave p arms then
    report (.notAllCodePathsExit "yield") span

/-- The arms of a match expression, with the exits that its scope has collected. -/
theorem runs_matchArms (hl : Live c s o) (arms : List MatchArm) (subject : Ty) :
    Runs (inScope (·.push (.matchExpr {}) { yields := true }) (matchArms arms subject)) c s
      fun r _ => r.1.2.hasDefault = arms.any (·.isDefault) ∧
        ∃ closed tag, r.2 = some closed ∧ closed.tag = .matchExpr tag ∧ tag.paths.finish.byYield =
          (!arms.isEmpty && Stmt.armsLeave (o.current.permits.union { yields := true }) arms) := by
  have hopen (stack : ScopeStack) (ho : stack.outline = o) :=
    ho ▸ stack.push_opens (.matchExpr {}) { yields := true }
  have harms : Branches .checking (matchArms arms subject)
      (fun p => arms.map (Stmt.bodyLeaves p ·.body))
      fun r => r.2.hasDefault = arms.any (·.isDefault) := branches_matchArms arms subject
  refine (runs_inScope .checking (Q := fun r top _ => r.2.hasDefault = arms.any (·.isDefault) ∧
    ∃ xs, top.tag = .matchExpr { paths := MultiPath.reportAll {} xs } ∧
      List.Forall₂ (Exits.Reflects (o.current.permits.union { yields := true }))
        (arms.map (Stmt.bodyLeaves (o.current.permits.union { yields := true }) ·.body)) xs) hl
    hopen fun s₁ _ hl₁ => ?_).mono fun r s' ⟨_, closed, _, _, hr, _, ⟨hdefault, xs, htag, hxs⟩, _⟩ =>
      ⟨hdefault, ?_⟩
  · refine (harms c s₁ _ hl₁).mono fun a s₂ ⟨ha, hsteps, xs, hxs, hl₂⟩ => ?_
    rw [ScopeStack.pushedScope] at hl₂
    exact ⟨hsteps, _, ScopeStack.cons_matchExpr_reportAll _ _ _ _ _ ▸ hl₂, ha, xs, rfl, hxs⟩
  · obtain ⟨tag, htag', hpaths⟩ : ∃ tag, closed.tag = .matchExpr tag ∧
        tag.paths = MultiPath.reportAll {} xs := by
      rw [Scope.outline_tag] at htag
      cases htag' : closed.tag with
      | matchExpr tag =>
        rw [htag'] at htag
        simp only [ScopeTag.outline, ScopeTag.matchExpr.injEq] at htag
        exact ⟨tag, rfl, congrArg MatchTag.paths htag⟩
      | _ =>
        rw [htag'] at htag
        cases htag
    refine ⟨closed, tag, hr, htag', ?_⟩
    rw [hpaths, MultiPath.finish_reportAll_eq hxs, Stmt.armsLeave_eq_all]
    simp only [List.isEmpty_map, List.all_map, Function.comp_def, id_eq]
    split <;> simp_all [Exits.every]

/-- The value of a match expression, and the number of its values, by the types of its first
`yield`. -/
def yielded (closed : Option Scope) : Nat × Value :=
  match (closed.bind (·.tag.matchExpr?)).bind (·.yields) with
  | none => (0, .invalid)
  | some types => (types.length, callValue types)

/-- A match expression walks its subject and its arms, and then reports a missing `yield`, if it has
an `else` arm and some arm does not leave on every path. -/
theorem matchExpr_eq (hl : Live c s o) (subject : Expr) (arms : List MatchArm)
    (returnAmount : Nat) (span : Span) (hint : Option Ty) :
    expr (.matching subject arms returnAmount span) hint c s = (do
      let (subject, value) ← single (expr subject none)
      let ((arms', count), closed) ← inScope (·.push (.matchExpr {}) { yields := true })
        (matchArms arms value.ty)
      if !count.hasDefault then report .defaultCaseMissing span
      if count.cases == 0 then report .insufficientCases span
      missingYield (o.current.permits.union { yields := true }) arms span
      return (Expr.matching subject arms' (yielded closed).1 span, (yielded closed).2)) c s := by
  have hsubject : Quiet .checking (single (expr subject none)) := (quiet_expr subject none).single
  obtain ⟨⟨subject', value⟩, s₁, hrun₁, -, hl₁⟩ := hsubject c s o hl
  obtain ⟨⟨⟨arms', count⟩, closed⟩, s₂, hrun₂, hdefault, closed', tag, hclosed, htag, hyields⟩ :=
    runs_matchArms hl₁ arms value.ty
  obtain rfl : closed = some closed' := hclosed
  have hmissing : (count.hasDefault && !tag.paths.finish.byYield) = (arms.any (·.isDefault) &&
      !Stmt.armsLeave (o.current.permits.union { yields := true }) arms) := by
    rw [hdefault, hyields]
    cases arms with
    | nil => rfl
    | cons arm rest => simp
  rw [expr, bind_apply_ok hrun₁, bind_apply_ok hrun₁]
  dsimp only
  rw [bind_apply_ok hrun₂, bind_apply_ok hrun₂]
  simp only [matchValue, missingYield, ← hmissing, yielded, Option.bind_some, htag,
    ScopeTag.matchExpr?, Option.getD_some]
  cases !count.hasDefault <;> cases count.cases == 0 <;>
    cases count.hasDefault && !tag.paths.finish.byYield <;> cases tag.yields <;> rfl

end Check

end HybroidSema
