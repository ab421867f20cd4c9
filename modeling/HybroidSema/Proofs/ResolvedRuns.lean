import HybroidSema.Proofs.ResolvedTree

/-!
# Walks resolve trees node by node

Every function of the recursion gives what `HybroidSema.Proofs.ResolvedTree` allows, in the states
in which the walk comes to the parts of the tree. The walk of a build comes to every part of its
program, so every program of a build is related node by node to the one that was given.

* `Tour.IsComplete`: the walk comes to every part of what it comes to.
* `becomes_expr_of`, `becomes_stmt_of`: what a node becomes, where what is right inside it becomes what
  it should. `becomes_tree` is the induction.
* `analyze_resolves_node_by_node`: every program of a build.
-/

namespace HybroidSema

open Check

variable {w : Tour}

/-! ## Complete walks -/

/-- The walk comes to every part of what it comes to, and its settings do not change. -/
structure Tour.IsComplete (w : Tour) : Prop where
  part : ∀ {task : Task} {s : State} {part : Part} {around : List Region} {task' : Task} {t : State},
    w.reached task s → part ∈ taskParts task →
      part w.context s = .ok (some (around, task'), t) → w.reached task' t
  settings : ∀ {st st' : Stmt} {s t : State}, w.reached (.stmt st) s →
    stmt st w.context s = .ok (st', t) → t.session.config.prune = w.prune

/-- A part by its position. -/
theorem Tour.IsComplete.at {task task' : Task} {s t : State} {part : Part} {around : List Region}
    (hw : w.IsComplete) (h : w.reached task s) (i : Nat) (hpart : (taskParts task)[i]? = some part)
    (hrun : part w.context s = .ok (some (around, task'), t)) : w.reached task' t :=
  hw.part h (List.mem_of_getElem? hpart) hrun

namespace Check

variable {s s' t : State}

theorem gives_typedDefaults (ty : Ty) (names : List Ident) :
    Gives (typedDefaults ty names) fun r =>
      r.1 = names.filterMap (ty.defaultLiteral? ·.span) := by
  induction names with
  | nil => exact .pure rfl
  | cons name rest ih =>
    have hrest {literal : List Expr} (hliteral : literal = (ty.defaultLiteral? name.span).toList) :
        Gives (do
          let others ← typedDefaults ty rest
          return (literal ++ others.1, ty.toValue :: others.2)) fun r =>
        r.1 = (name :: rest).filterMap (ty.defaultLiteral? ·.span) := by
      refine .bind_of ih fun others hothers => .pure ?_
      rw [hliteral, hothers]
      cases hdefault : ty.defaultLiteral? name.span <;> simp [hdefault]
    unfold typedDefaults
    split
    · next e he => exact hrest (by rw [he]; rfl)
    · next he => exact .guard fun _ => hrest (by rw [he]; rfl)

/-- What initializes a declaration without values. -/
theorem gives_defaultValues (d : Declaration) : Gives (defaultValues d) fun r =>
    (∃ ty, d.declared = some ty ∧ r.1 = d.names.filterMap (ty.defaultLiteral? ·.span)) ∨
      d.declared = none ∧ r.1 = [] := by
  unfold defaultValues
  refine .guard fun _ => ?_
  split
  · next ty hty =>
    intro c s r s' hrun
    exact .inl ⟨ty, hty, gives_typedDefaults _ _ c s r s' hrun⟩
  · next hnone => exact .guard fun _ => .pure (.inr ⟨hnone, rfl⟩)

theorem gives_forKey (key : Option Ident) (span : Span) :
    Gives (forKey key span) (KeyBecomes span key) := by
  unfold forKey
  split
  · exact .pure (.kept _)
  · intro c s r s' hrun
    obtain ⟨state, _, hget, hrun⟩ := bind_eq_ok hrun
    obtain ⟨_, _, -, hrun⟩ := bind_eq_ok hrun
    cases hget
    cases hrun
    exact .invented _

/-- A report that is made under a condition leaves the session as it is. -/
theorem guard_report_session {c : Context} {kind : AlertKind} {span : Span} {b : Prop} [Decidable b]
    (h : (if b then report kind span else pure ⟨⟩) c s = .ok (⟨⟩, t)) : t.session = s.session := by
  split at h <;> cases h <;> rfl

/-- A call becomes a method call if its caller is a field and its function has an owner. -/
theorem becomes_callNode {caller caller' : Expr} {signature : Signature}
    {generics : List TypeExpr} {args args' : List Expr} {amount amount' : Nat} {span : Span}
    {hint : Option Ty} (h : w.reached (.expr (.call caller generics args amount span) hint) s)
    (hcaller : single (expr caller none) w.context s = .ok ((caller', .function signature), t))
    (hbefore : caller.Becomes w caller') (hargs : List.Forall₂ (Expr.Becomes w) args args') :
    (Expr.call caller generics args amount span).Becomes w
      (callNode caller' signature.owner generics args' amount' span) := by
  unfold callNode
  split
  · next owner receiver method index span' howner =>
    exact .called hbefore hargs h ⟨index, span', signature, t, hcaller, howner⟩
  · exact .call hbefore hargs

/-! ## Lists of nodes -/

/-- An expression that the walk comes to becomes what it should. -/
def BecomesExpr (w : Tour) (e : Expr) : Prop :=
  ∀ (hint : Option Ty) {s s' : State} {r : Expr × Value}, w.reached (.expr e hint) s →
    expr e hint w.context s = .ok (r, s') → e.Becomes w r.1

/-- A statement that the walk comes to becomes what it should. -/
def BecomesStmt (w : Tour) (st : Stmt) : Prop :=
  ∀ {s s' : State} {st' : Stmt}, w.reached (.stmt st) s →
    stmt st w.context s = .ok (st', s') → st.Becomes w st'

section Nodes

variable {es : List Expr} {stmts : List Stmt}

theorem becomes_values_of (hw : w.IsComplete) (hes : ∀ e ∈ es, BecomesExpr w e) (hints : List Ty)
    {r : List Expr × List (Value × Span)} (h : w.reached (.values es hints) s)
    (hrun : values es hints w.context s = .ok (r, s')) : List.Forall₂ (Expr.Becomes w) es r.1 := by
  induction es generalizing hints s s' r with
  | nil =>
    cases hrun
    exact .nil
  | cons e rest ih =>
    rw [List.forall_mem_cons] at hes
    obtain ⟨⟨e', v⟩, t, hfirst, hrun⟩ := bind_eq_ok hrun
    have hbefore := hes.1 hints.head? (hw.at h 0 rfl rfl) hfirst
    dsimp only at hrun
    split at hrun
    · next hempty =>
      obtain ⟨_, _, hpure, hrun⟩ := bind_eq_ok hrun
      cases hpure
      obtain ⟨⟨rest', _⟩, _, hrest, hrun⟩ := bind_eq_ok hrun
      cases hrun
      refine .cons hbefore (ih hes.2 hints.tail (hw.at h 1 rfl
        (?_ : _ = Except.ok (some ([], Task.values rest hints.tail), t))) hrest)
      refine (bind_apply_ok hfirst).trans ?_
      simp only [hempty]
      rfl
    · next hnonempty =>
      obtain ⟨_, u, hsingle, hrun⟩ := bind_eq_ok hrun
      obtain ⟨_, _, hpure, hrun⟩ := bind_eq_ok hrun
      cases hpure
      obtain ⟨⟨rest', _⟩, _, hrest, hrun⟩ := bind_eq_ok hrun
      cases hrun
      refine .cons hbefore (ih hes.2 hints.tail (hw.at h 1 rfl
        (?_ : _ = Except.ok (some ([], Task.values rest hints.tail), u))) hrest)
      refine (bind_apply_ok hfirst).trans ?_
      simp only [hnonempty]
      exact bind_apply_ok hsingle

theorem becomes_elements_of (hw : w.IsComplete) (hes : ∀ e ∈ es, BecomesExpr w e)
    (reference : Option Ty) {r : List Expr × Option Ty} (h : w.reached (.elements es reference) s)
    (hrun : elements es reference w.context s = .ok (r, s')) :
    List.Forall₂ (Expr.Becomes w) es r.1 := by
  induction es generalizing reference s s' r with
  | nil =>
    cases hrun
    exact .nil
  | cons e rest ih =>
    rw [List.forall_mem_cons] at hes
    obtain ⟨⟨e', v⟩, t, hfirst, hrun⟩ := bind_eq_ok hrun
    obtain ⟨ty, u, htype, hrun⟩ := bind_eq_ok hrun
    obtain ⟨⟨rest', _⟩, _, hrest, hrun⟩ := bind_eq_ok hrun
    cases hrun
    obtain ⟨_, _, hfirst'⟩ := single_eq_ok hfirst
    exact .cons (hes.1 reference (hw.at h 0 rfl rfl) hfirst')
      (ih hes.2 (some ty)
        (hw.at h 1 rfl ((bind_apply_ok hfirst).trans (bind_apply_ok htype))) hrest)

theorem becomes_mapEntries_of {entries : List MapEntry} (hw : w.IsComplete)
    (hes : ∀ e ∈ entries.map (·.value), BecomesExpr w e) (keys : List String)
    (reference : Option Ty) {r : List MapEntry × Option Ty}
    (h : w.reached (.mapEntries entries keys reference) s)
    (hrun : mapEntries entries keys reference w.context s = .ok (r, s')) :
    List.Forall₂ (MapEntry.Becomes w) entries r.1 := by
  induction entries generalizing keys reference s s' r with
  | nil =>
    cases hrun
    exact .nil
  | cons entry rest ih =>
    obtain ⟨key, e⟩ := entry
    rw [List.map_cons, List.forall_mem_cons] at hes
    rw [mapEntries] at hrun
    obtain ⟨t, hguard, hrun⟩ := guard_eq_ok hrun
    obtain ⟨⟨e', v⟩, u, hfirst, hrun⟩ := bind_eq_ok hrun
    obtain ⟨ty, _, htype, hrun⟩ := bind_eq_ok hrun
    obtain ⟨⟨rest', _⟩, _, hrest, hrun⟩ := bind_eq_ok hrun
    cases hrun
    obtain ⟨_, _, hfirst'⟩ := single_eq_ok hfirst
    exact .cons (.entry (hes.1 reference (hw.at h 0 rfl (guard_apply_ok hguard))
        hfirst'))
      (ih hes.2 _ (some ty) (hw.at h 1 rfl
        ((guard_apply_ok hguard).trans <| (bind_apply_ok hfirst).trans (bind_apply_ok htype)))
        hrest)

theorem becomes_unchecked_of (hw : w.IsComplete) (hes : ∀ e ∈ es, BecomesExpr w e) {r : List Expr}
    (h : w.reached (.unchecked es) s) (hrun : unchecked es w.context s = .ok (r, s')) :
    List.Forall₂ (Expr.Becomes w) es r := by
  induction es generalizing s s' r with
  | nil =>
    cases hrun
    exact .nil
  | cons e rest ih =>
    rw [List.forall_mem_cons] at hes
    obtain ⟨⟨e', v⟩, t, hfirst, hrun⟩ := bind_eq_ok hrun
    obtain ⟨rest', _, hrest, hrun⟩ := bind_eq_ok hrun
    cases hrun
    exact .cons (hes.1 none (hw.at h 0 rfl rfl) hfirst)
      (ih hes.2 (hw.at h 1 rfl (bind_apply_ok hfirst)) hrest)

theorem becomes_patterns_of (hw : w.IsComplete) (hes : ∀ e ∈ es, BecomesExpr w e) (subject : Ty)
    {r : List Expr} (h : w.reached (.patterns es subject) s)
    (hrun : patterns es subject w.context s = .ok (r, s')) :
    List.Forall₂ (Expr.Becomes w) es r := by
  induction es generalizing s s' r with
  | nil =>
    cases hrun
    exact .nil
  | cons e rest ih =>
    rw [List.forall_mem_cons] at hes
    obtain ⟨⟨e', v⟩, t, hfirst, hrun⟩ := bind_eq_ok hrun
    obtain ⟨u, hguard, hrun⟩ := guard_eq_ok hrun
    obtain ⟨rest', _, hrest, hrun⟩ := bind_eq_ok hrun
    cases hrun
    obtain ⟨_, _, hfirst'⟩ := single_eq_ok hfirst
    exact .cons (hes.1 (some subject) (hw.at h 0 rfl rfl) hfirst')
      (ih hes.2
        (hw.at h 1 rfl ((bind_apply_ok hfirst).trans (guard_apply_ok hguard))) hrest)

theorem becomes_places_of (hw : w.IsComplete) (hes : ∀ e ∈ es, BecomesExpr w e)
    {r : List Expr × List Value} (h : w.reached (.places es) s)
    (hrun : places es w.context s = .ok (r, s')) : List.Forall₂ (Expr.Becomes w) es r.1 := by
  induction es generalizing s s' r with
  | nil =>
    cases hrun
    exact .nil
  | cons e rest ih =>
    rw [List.forall_mem_cons] at hes
    obtain ⟨isLocal, t, hlocal, hrun⟩ := bind_eq_ok hrun
    obtain ⟨⟨e', v⟩, u, hfirst, hrun⟩ := bind_eq_ok hrun
    obtain ⟨_, _, hfinish, hrun⟩ := bind_eq_ok hrun
    obtain ⟨⟨rest', _⟩, _, hrest, hrun⟩ := bind_eq_ok hrun
    cases hrun
    obtain ⟨_, _, hfirst'⟩ := single_eq_ok hfirst
    exact .cons (hes.1 none (hw.at h 0 rfl (bind_apply_ok hlocal)) hfirst')
      (ih hes.2 (hw.at h 1 rfl ((bind_apply_ok hlocal).trans <|
        (bind_apply_ok hfirst).trans (bind_apply_ok hfinish))) hrest)

theorem becomes_repeatPart_of {part : Option Expr} (hw : w.IsComplete)
    (hes : ∀ e ∈ part.toList, BecomesExpr w e) (ty : Ty) (span : Span) {e' : Expr}
    (h : w.reached (.repeatPart part ty span) s)
    (hrun : repeatPart part ty span w.context s = .ok (e', s')) :
    Expr.PartBecomes w span part e' := by
  cases part with
  | none =>
    cases hrun
    exact .filled ty span
  | some e =>
    obtain ⟨⟨e', v⟩, t, he, hrun⟩ := bind_eq_ok hrun
    obtain ⟨_, _, -, hrun⟩ := bind_eq_ok hrun
    cases hrun
    obtain ⟨_, _, he'⟩ := single_eq_ok he
    exact .written (hes e (List.mem_singleton_self e) (some ty) (hw.at h 0 rfl rfl) he')

theorem becomes_body_of (hw : w.IsComplete) (hstmts : ∀ st ∈ stmts, BecomesStmt w st)
    (reported : Bool) {out : List Stmt} (h : w.reached (.body stmts reported) s)
    (hrun : body stmts reported w.context s = .ok (out, s')) : Stmt.BodyBecomes w stmts out := by
  induction stmts generalizing reported s s' out with
  | nil =>
    cases hrun
    exact .nil
  | cons first rest ih =>
    rw [List.forall_mem_cons] at hstmts
    cases rest with
    | nil =>
      obtain ⟨first', t, hfirst, hrun⟩ := bind_eq_ok hrun
      obtain ⟨_, u, hclear, hrun⟩ := bind_eq_ok hrun
      cases hrun
      exact .cons (hstmts.1 (hw.at h 0 rfl rfl) hfirst) .nil
    | cons next others =>
      obtain ⟨first', t, hfirst, hrun⟩ := bind_eq_ok hrun
      obtain ⟨_, u, hclear, hrun⟩ := bind_eq_ok hrun
      have hreached := hw.at h 0 rfl rfl
      have hbefore := hstmts.1 hreached hfirst
      obtain ⟨leaves, v, hleaves, hrun⟩ := bind_eq_ok hrun
      have hpart (rest : Bool → Part) := (bind_apply_ok (f := fun _ => clearNarrowings >>= fun _ =>
        alwaysLeaves >>= rest) hfirst).trans <| (bind_apply_ok hclear).trans (bind_apply_ok hleaves)
      cases leaves with
      | true =>
        dsimp only at hrun
        rw [if_pos rfl] at hrun
        obtain ⟨v', hguard, hrun⟩ := guard_eq_ok hrun
        obtain ⟨_, _, hget, hrun⟩ := bind_eq_ok hrun
        cases hget
        split at hrun
        · next hprune =>
          cases hrun
          -- Clearing the narrowings and reporting leave the session as the statement left it.
          obtain ⟨stack, _, hscopes, hreturn⟩ := bind_eq_ok (m := scopes) hleaves
          obtain ⟨rfl, env, hown, rfl⟩ := scopes_eq_ok hscopes
          cases hclear
          have hsession := guard_report_session hguard
          obtain ⟨halways, rfl⟩ := Prod.mk.inj (Except.ok.inj hreturn)
          refine .cut hbefore ⟨s, t, env, hreached, hfirst, hown, halways⟩ ?_
          rw [hsession] at hprune
          exact (hw.settings hreached hfirst).symm.trans hprune
        · next hkeeps =>
          obtain ⟨rest', _, hrest, hrun⟩ := bind_eq_ok hrun
          cases hrun
          refine .cons hbefore (ih hstmts.2 _ (hw.at h 1 rfl
            (?_ : _ = Except.ok (some ([], Task.body (next :: others) true), v'))) hrest)
          refine (hpart _).trans ?_
          rw [if_pos rfl]
          refine (guard_apply_ok hguard).trans ?_
          exact congrFun (congrFun (if_neg hkeeps : _ = Part.here _) w.context) v'
      | false =>
        obtain ⟨rest', _, hrest, hrun⟩ := bind_eq_ok hrun
        cases hrun
        exact .cons hbefore (ih hstmts.2 _ (hw.at h 1 rfl (hpart _)) hrest)

theorem becomes_matchArms_of {arms : List MatchArm} (hw : w.IsComplete)
    (hes : ∀ e ∈ arms.flatMap (·.patterns), BecomesExpr w e)
    (hstmts : ∀ st ∈ arms.flatMap (·.body), BecomesStmt w st) (subject : Ty)
    {r : List MatchArm × ArmCount} (h : w.reached (.matchArms arms subject) s)
    (hrun : matchArms arms subject w.context s = .ok (r, s')) :
    List.Forall₂ (MatchArm.Becomes w) arms r.1 := by
  induction arms generalizing s s' r with
  | nil =>
    cases hrun
    exact .nil
  | cons arm rest ih =>
    obtain ⟨pats, isDefault, stmts, span⟩ := arm
    rw [List.flatMap_cons, List.forall_mem_append] at hes hstmts
    cases isDefault with
    | true =>
      rw [matchArms, if_pos rfl] at hrun
      obtain ⟨t, hbefore, hrun⟩ := guard_eq_ok hrun
      obtain ⟨_, _, hpure, hrun⟩ := bind_eq_ok hrun
      cases hpure
      obtain ⟨⟨stmts', _⟩, u, hbranch, hrun⟩ := bind_eq_ok hrun
      obtain ⟨⟨rest', count⟩, _, hrest, hrun⟩ := bind_eq_ok hrun
      cases hrun
      obtain ⟨_, _, hpart, hbody⟩ := branch_of_inBranch [] false [] hbranch
      exact .cons (.default (becomes_body_of hw hstmts.1 false
        (hw.at h 1 rfl ((bind_apply_ok hbefore).trans hpart)) hbody))
        (ih hes.2 hstmts.2
          (hw.at h 2 rfl ((bind_apply_ok hbefore).trans (bind_apply_ok hbranch))) hrest)
    | false =>
      obtain ⟨pats', t, hpats, hrun⟩ := bind_eq_ok hrun
      obtain ⟨_, u, hclear, hrun⟩ := bind_eq_ok hrun
      obtain ⟨_, _, hpure, hrun⟩ := bind_eq_ok hrun
      cases hpure
      obtain ⟨⟨stmts', _⟩, v, hbranch, hrun⟩ := bind_eq_ok hrun
      obtain ⟨⟨rest', count⟩, _, hrest, hrun⟩ := bind_eq_ok hrun
      cases hrun
      have hpatterns := becomes_patterns_of hw hes.1 subject (hw.at h 0 rfl rfl) hpats
      obtain ⟨_, _, hpart, hbody⟩ := branch_of_inBranch [] false [] hbranch
      have hbefore := (bind_apply_ok (f := fun _ => clearNarrowings) hpats).trans hclear
      exact .cons (.case hpatterns (becomes_body_of hw hstmts.1 false
        (hw.at h 1 rfl ((bind_apply_ok hbefore).trans hpart)) hbody))
        (ih hes.2 hstmts.2
          (hw.at h 2 rfl ((bind_apply_ok hbefore).trans (bind_apply_ok hbranch))) hrest)

theorem becomes_elseIfs_of {branches : List ElseIf} (hw : w.IsComplete)
    (hes : ∀ e ∈ branches.map (·.condition), BecomesExpr w e)
    (hstmts : ∀ st ∈ branches.flatMap (·.body), BecomesStmt w st) {r : List ElseIf}
    (h : w.reached (.elseIfs branches) s)
    (hrun : elseIfs branches w.context s = .ok (r, s')) :
    List.Forall₂ (ElseIf.Becomes w) branches r := by
  induction branches generalizing s s' r with
  | nil =>
    cases hrun
    exact .nil
  | cons branch rest ih =>
    obtain ⟨condition, stmts, span⟩ := branch
    rw [List.map_cons, List.forall_mem_cons] at hes
    rw [List.flatMap_cons, List.forall_mem_append] at hstmts
    obtain ⟨⟨condition', v⟩, t, hcondition, hrun⟩ := bind_eq_ok hrun
    obtain ⟨_, _, hcondition'⟩ := single_eq_ok hcondition
    have htest := hes.1 none (hw.at h 0 rfl rfl) hcondition'
    obtain ⟨narrowings, u, hnarrowings, hrun⟩ := bind_eq_ok hrun
    obtain ⟨⟨stmts', exits⟩, _, hbranch, hrun⟩ := bind_eq_ok hrun
    obtain ⟨rest', _, hrest, hrun⟩ := bind_eq_ok hrun
    cases hrun
    obtain ⟨_, _, hbody, hstmts'⟩ := branch_of_inBranch narrowings false [] hbranch
    have hbefore : Part.condition condition w.context s = .ok (narrowings, u) :=
      (bind_apply_ok hcondition).trans hnarrowings
    exact .cons
      (.branch htest (becomes_body_of hw hstmts.1 false
        (hw.at h 1 rfl ((bind_apply_ok hbefore).trans hbody)) hstmts'))
      (ih hes.2 hstmts.2
        (hw.at h 2 rfl ((bind_apply_ok hbefore).trans (bind_apply_ok hbranch))) hrest)

theorem becomes_elseBody_of {otherwise : Option (List Stmt)} (hw : w.IsComplete)
    (hstmts : ∀ st ∈ otherwise.getD [], BecomesStmt w st) (narrowings : List Narrowing)
    {r : Option (List Stmt)} (h : w.reached (.elseBody otherwise narrowings) s)
    (hrun : elseBody otherwise narrowings w.context s = .ok (r, s')) :
    Option.Rel (Stmt.BodyBecomes w) otherwise r := by
  cases otherwise with
  | none =>
    obtain ⟨_, _, -, hrun⟩ := bind_eq_ok hrun
    cases hrun
    exact .none
  | some stmts =>
    obtain ⟨⟨stmts', exits⟩, _, hbranch, hrun⟩ := bind_eq_ok hrun
    cases hrun
    obtain ⟨_, _, hbody, hstmts'⟩ := branch_of_inBranch narrowings true [] hbranch
    exact .some (becomes_body_of hw hstmts false (hw.at h 0 rfl hbody) hstmts')

theorem becomes_initializers_of {decls : List VariableDecl} (hw : w.IsComplete)
    (hes : ∀ e ∈ decls.flatMap (·.values), BecomesExpr w e) (owner : DeclRef) (kind : NamedKind)
    (members : Members) {r : List VariableDecl}
    (h : w.reached (.initializers decls owner kind members) s)
    (hrun : initializers decls owner kind members w.context s = .ok (r, s')) :
    List.Forall₂ (VariableDecl.Becomes w) decls r := by
  induction decls generalizing s s' r with
  | nil =>
    cases hrun
    exact .nil
  | cons decl rest ih =>
    obtain ⟨names, ty, exprs, isPub, isConst, span⟩ := decl
    rw [List.flatMap_cons, List.forall_mem_append] at hes
    rw [initializers] at hrun
    split at hrun
    · next hempty =>
      obtain ⟨_, _, hpure, hrun⟩ := bind_eq_ok hrun
      cases hpure
      obtain ⟨rest', _, hrest, hrun⟩ := bind_eq_ok hrun
      cases hrun
      obtain rfl := List.isEmpty_iff.1 hempty
      exact .cons (.values .nil) (ih hes.2 (hw.at h 1 rfl rfl) hrest)
    · next hgiven =>
      obtain ⟨⟨⟨exprs', given⟩, _⟩, t, hscope, hrun⟩ := bind_eq_ok hrun
      obtain ⟨_, u, hcount, hrun⟩ := bind_eq_ok hrun
      obtain ⟨_, v, hcheck, hrun⟩ := bind_eq_ok hrun
      obtain ⟨_, _, hpure, hrun⟩ := bind_eq_ok hrun
      cases hpure
      obtain ⟨rest', _, hrest, hrun⟩ := bind_eq_ok hrun
      cases hrun
      obtain ⟨opened, _, hpush, hexprs⟩ := inScope_opened hscope
      refine .cons (.values (becomes_values_of hw hes.1 _ (hw.at h 0 rfl
        (?_ : _ = Except.ok (some ([.initializer], Task.values exprs _), opened))) hexprs))
        (ih hes.2 (hw.at h 1 rfl
          (?_ : _ = Except.ok (some ([], Task.initializers rest owner kind members), v))) hrest)
      · simp only [hgiven]
        exact bind_apply_ok hpush
      · simp only [hgiven]
        exact (bind_apply_ok hscope).trans <| (bind_apply_ok hcount).trans (bind_apply_ok hcheck)

theorem becomes_constructorBody_of {decl : Option ConstructorDecl} (hw : w.IsComplete)
    (hstmts : ∀ st ∈ decl.toList.flatMap (·.body), BecomesStmt w st) (signature : Option Signature)
    {r : Option ConstructorDecl} (h : w.reached (.constructorBody decl signature) s)
    (hrun : constructorBody decl signature w.context s = .ok (r, s')) :
    Option.Rel (ConstructorDecl.Becomes w) decl r := by
  cases decl with
  | none =>
    cases hrun
    exact .none
  | some decl =>
    obtain ⟨generics, params, stmts, span⟩ := decl
    rw [Option.toList_some, List.flatMap_singleton] at hstmts
    cases signature with
    | none =>
      cases hrun
      exact .some (.kept _)
    | some signature =>
      obtain ⟨stmts', _, hfunction, hrun⟩ := bind_eq_ok hrun
      obtain ⟨_, _, -, hrun⟩ := bind_eq_ok hrun
      cases hrun
      obtain ⟨_, _, hpart, hbody⟩ := functionBody_of_inFunction hfunction
      exact .some (.body (becomes_body_of hw hstmts false (hw.at h 0 rfl hpart) hbody))

theorem becomes_methodBodies_of {decls : List FunctionDecl} (hw : w.IsComplete)
    (hstmts : ∀ st ∈ decls.flatMap (·.body), BecomesStmt w st) (members : Members)
    {r : List FunctionDecl} (h : w.reached (.methodBodies decls members) s)
    (hrun : methodBodies decls members w.context s = .ok (r, s')) :
    List.Forall₂ (FunctionDecl.Becomes w) decls r := by
  induction decls generalizing s s' r with
  | nil =>
    cases hrun
    exact .nil
  | cons decl rest ih =>
    obtain ⟨name, generics, params, returns, stmts, isPub, span⟩ := decl
    rw [List.flatMap_cons, List.forall_mem_append] at hstmts
    obtain ⟨signature, t, hsignature, hrun⟩ := bind_eq_ok hrun
    obtain ⟨stmts', _, hfunction, hrun⟩ := bind_eq_ok hrun
    obtain ⟨rest', _, hrest, hrun⟩ := bind_eq_ok hrun
    cases hrun
    obtain ⟨_, _, hpart, hbody⟩ := functionBody_of_inFunction hfunction
    exact .cons (.body (becomes_body_of hw hstmts.1 false
      (hw.at h 0 rfl ((bind_apply_ok hsignature).trans hpart)) hbody))
      (ih hstmts.2
        (hw.at h 1 rfl ((bind_apply_ok hsignature).trans (bind_apply_ok hfunction))) hrest)

/-- The function that is walked first is the first spawn function. -/
theorem becomes_firstSpawn_of {decls : List LifecycleDecl} (hw : w.IsComplete)
    (hstmts : ∀ st ∈ decls.flatMap (·.body), BecomesStmt w st) (entity : EntityInfo)
    {r : Option LifecycleDecl × List LifecycleKind} (h : w.reached (.firstSpawn decls entity) s)
    (hrun : firstSpawn decls entity w.context s = .ok (r, s')) :
    Option.Rel (LifecycleDecl.Becomes w) (decls.find? (·.kind == .spawn)) r.1 := by
  induction decls generalizing s s' r with
  | nil =>
    cases hrun
    exact .none
  | cons decl rest ih =>
    obtain ⟨kind, generics, params, returns, stmts, span⟩ := decl
    rw [List.flatMap_cons, List.forall_mem_append] at hstmts
    rw [firstSpawn] at hrun
    split at hrun
    · next hspawn =>
      obtain ⟨⟨signature, isFirst⟩, t, hsignature, hrun⟩ := bind_eq_ok hrun
      obtain ⟨stmts', _, hfunction, hrun⟩ := bind_eq_ok hrun
      obtain ⟨_, -, hrun⟩ := guard_eq_ok hrun
      cases hrun
      obtain ⟨u, _, hpart, hbody⟩ := functionBody_of_inFunction hfunction
      rw [List.find?_cons_of_pos (by simp [hspawn])]
      refine .some (.body (becomes_body_of hw hstmts.1 false (hw.at h 0 rfl
        (?_ : _ = Except.ok (some ([.function], Task.body stmts false), u))) hbody))
      rw [if_pos hspawn]
      exact (bind_apply_ok hsignature).trans hpart
    · next hother =>
      rw [List.find?_cons_of_neg (by simp [hother])]
      refine ih hstmts.2
        (hw.at h 0 rfl (?_ : _ = Except.ok (some ([], Task.firstSpawn rest entity), s)))
        hrun
      rw [if_neg hother]
      rfl

/-- The spawn function that was walked before takes its place among the others. -/
theorem becomes_otherLifecycles_of {decls : List LifecycleDecl} (hw : w.IsComplete)
    (hstmts : ∀ st ∈ decls.flatMap (·.body), BecomesStmt w st) (entity : EntityInfo)
    (spawned : Option LifecycleDecl) (seen : List LifecycleKind) {r : List LifecycleDecl}
    (hspawned : spawned = none ∨
      Option.Rel (LifecycleDecl.Becomes w) (decls.find? (·.kind == .spawn)) spawned)
    (h : w.reached (.otherLifecycles decls entity spawned seen) s)
    (hrun : otherLifecycles decls entity spawned seen w.context s = .ok (r, s')) :
    List.Forall₂ (LifecycleDecl.Becomes w) decls r := by
  induction decls generalizing spawned seen s s' r with
  | nil =>
    cases hrun
    exact .nil
  | cons decl rest ih =>
    obtain ⟨kind, generics, params, returns, stmts, span⟩ := decl
    rw [List.flatMap_cons, List.forall_mem_append] at hstmts
    by_cases hwalked : spawned.isSome = true ∧ kind = .spawn
    · obtain ⟨hsome, rfl⟩ := hwalked
      obtain ⟨walked, rfl⟩ := Option.isSome_iff_exists.1 hsome
      obtain ⟨rest', t, hrest, hrun⟩ := bind_eq_ok (m := otherLifecycles rest entity none seen) hrun
      cases hrun
      rcases hspawned with hnone | hspawned
      · cases hnone
      · rw [List.find?_cons_of_pos (by rfl)] at hspawned
        cases hspawned with
        | some hfirst => exact .cons hfirst (ih hstmts.2 _ _ (.inl rfl) (hw.at h 0 rfl rfl) hrest)
    · have hparts : taskParts (.otherLifecycles (⟨kind, generics, params, returns, stmts, span⟩ ::
          rest) entity spawned seen) = _ := if_neg (by simpa using hwalked)
      have hlater : spawned = none ∨
          Option.Rel (LifecycleDecl.Becomes w) (rest.find? (·.kind == .spawn)) spawned := by
        by_cases hkind : kind = .spawn
        · cases spawned with
          | none => exact .inl rfl
          | some walked => exact absurd ⟨rfl, hkind⟩ hwalked
        · rwa [List.find?_cons_of_neg (by simp [hkind])] at hspawned
      rw [otherLifecycles] at hrun
      · obtain ⟨⟨signature, isFirst⟩, t, hsignature, hrun⟩ := bind_eq_ok hrun
        obtain ⟨stmts', u, hfunction, hrun⟩ := bind_eq_ok hrun
        obtain ⟨v, hguard, hrun⟩ := guard_eq_ok hrun
        obtain ⟨rest', _, hrest, hrun⟩ := bind_eq_ok hrun
        cases hrun
        obtain ⟨_, _, hpart, hbody⟩ := functionBody_of_inFunction hfunction
        exact .cons (.body (becomes_body_of hw hstmts.1 false (hw.at h 0 (congrArg (·[0]?) hparts)
            ((bind_apply_ok hsignature).trans hpart)) hbody))
          (ih hstmts.2 _ _ hlater
            (hw.at h 1 (congrArg (·[1]?) hparts) ((bind_apply_ok hsignature).trans
            <| (bind_apply_ok hfunction).trans (guard_apply_ok hguard))) hrest)
      · rintro walked rfl rfl
        exact hwalked ⟨rfl, rfl⟩

end Nodes

/-! ## Nodes -/

theorem becomes_expr_of {e : Expr} (hw : w.IsComplete)
    (hes : ∀ child ∈ e.children, BecomesExpr w child)
    (hpatterns : ∀ pattern ∈ e.patterns, BecomesExpr w pattern)
    (hstmts : ∀ st ∈ e.statements, BecomesStmt w st) : BecomesExpr w e := by
  intro hint s s' r h hrun
  cases e with
  | literal lit =>
    cases hrun
    exact .literal lit
  | ident id => exact .ident h (identifier_standsFor hrun)
  | builtin id =>
    obtain ⟨_, _, -, hrun⟩ := bind_eq_ok hrun
    cases hrun
    exact .builtin id
  | envAccess env name span =>
    rcases qualifiedName_cases hrun with hkept | ⟨lit, hlit, hliteral⟩
    · rw [hkept]
      exact .envAccess env name span
    · rw [hliteral]
      exact .inlined h hlit
  | unary op operand span =>
    obtain ⟨⟨operand', v⟩, t, hoperand, hrun⟩ := bind_eq_ok hrun
    obtain ⟨_, _, -, hrun⟩ := bind_eq_ok hrun
    cases hrun
    obtain ⟨_, _, hoperand'⟩ := single_eq_ok hoperand
    exact .unary (hes operand (List.mem_singleton_self _) none (hw.at h 0 rfl rfl) hoperand')
  | binary left op right span =>
    obtain ⟨ihleft, ihright⟩ := List.forall_mem_cons.1 hes
    obtain ⟨_, _, hget, hrun⟩ := bind_eq_ok hrun
    cases hget
    obtain ⟨⟨left', v⟩, t, hleft, hrun⟩ := bind_eq_ok hrun
    obtain ⟨⟨right', _⟩, _, hright, hrun⟩ := bind_eq_ok hrun
    obtain ⟨_, -, hrun⟩ := guard_eq_ok hrun
    obtain ⟨_, _, -, hrun⟩ := bind_eq_ok hrun
    cases hrun
    obtain ⟨_, _, hleft'⟩ := single_eq_ok hleft
    obtain ⟨_, _, hright'⟩ := single_eq_ok hright
    exact .binary (ihleft none (hw.at h 0 rfl rfl) hleft')
      (ihright right (List.mem_singleton_self _) _ (hw.at h 1 rfl (bind_apply_ok hleft)) hright')
  | group inner span =>
    obtain ⟨⟨inner', v⟩, t, hinner, hrun⟩ := bind_eq_ok hrun
    cases hrun
    exact .group (hes inner (List.mem_singleton_self _) hint (hw.at h 0 rfl rfl) hinner)
  | list elems span =>
    obtain ⟨_, t, hknown, hrun⟩ := bind_eq_ok hrun
    obtain ⟨⟨elems', _⟩, _, helems, hrun⟩ := bind_eq_ok hrun
    cases hrun
    exact .list (becomes_elements_of hw hes _ (hw.at h 0 rfl (bind_apply_ok hknown)) helems)
  | map entries span =>
    obtain ⟨_, t, hknown, hrun⟩ := bind_eq_ok hrun
    obtain ⟨⟨entries', _⟩, _, hentries, hrun⟩ := bind_eq_ok hrun
    cases hrun
    exact .map (becomes_mapEntries_of hw hes _ _ (hw.at h 0 rfl (bind_apply_ok hknown)) hentries)
  | call caller generics args amount span =>
    obtain ⟨ihcaller, ihargs⟩ := List.forall_mem_cons.1 hes
    obtain ⟨⟨caller', callee⟩, t, hcaller, hrun⟩ := bind_eq_ok hrun
    obtain ⟨_, _, hcaller'⟩ := single_eq_ok hcaller
    have hbefore := ihcaller none (hw.at h 0 rfl rfl) hcaller'
    dsimp only at hrun
    split at hrun
    · next signature =>
      obtain ⟨⟨args', returns⟩, _, hcall, hrun⟩ := bind_eq_ok hrun
      cases hrun
      obtain ⟨u, given, _, harguments, hargs⟩ := arguments_of_call hcall
      have hargs' := becomes_values_of hw ihargs _
        (hw.at h 1 rfl ((bind_apply_ok hcaller).trans harguments)) hargs
      exact becomes_callNode h hcaller hbefore hargs'
    · next hother =>
      obtain ⟨u, hguard, hrun⟩ := guard_eq_ok hrun
      obtain ⟨args', _, hargs, hrun⟩ := bind_eq_ok hrun
      cases hrun
      refine .call hbefore (becomes_unchecked_of hw ihargs (hw.at h 1 rfl
        (?_ : _ = Except.ok (some ([], Task.unchecked args), u))) hargs)
      refine (bind_apply_ok hcaller).trans ?_
      dsimp only
      split
      · next signature => exact absurd rfl (hother signature)
      · exact guard_apply_ok hguard
  | methodCall receiver owner kind method generics args amount span =>
    obtain ⟨ihreceiver, ihargs⟩ := List.forall_mem_cons.1 hes
    obtain ⟨⟨receiver', v⟩, t, hreceiver, hrun⟩ := bind_eq_ok hrun
    obtain ⟨_, _, hreceiver'⟩ := single_eq_ok hreceiver
    have hbefore := ihreceiver none (hw.at h 0 rfl rfl) hreceiver'
    obtain ⟨found, u, hfound, hrun⟩ := bind_eq_ok hrun
    cases found with
    | found signature =>
      obtain ⟨⟨args', returns⟩, _, hcall, hrun⟩ := bind_eq_ok hrun
      cases hrun
      obtain ⟨_, given, _, harguments, hargs⟩ := arguments_of_call hcall
      exact .methodCall hbefore (becomes_values_of hw ihargs _ (hw.at h 1 rfl
        ((bind_apply_ok hreceiver).trans <| (bind_apply_ok hfound).trans harguments)) hargs)
    | missing =>
      obtain ⟨args', _, hargs, hrun⟩ := bind_eq_ok hrun
      cases hrun
      exact .methodCall hbefore (becomes_unchecked_of hw ihargs (hw.at h 1 rfl
        ((bind_apply_ok hreceiver).trans (bind_apply_ok hfound))) hargs)
    | ownerless =>
      cases hrun
      exact .ownerless hbefore
  | field target field index span =>
    obtain ⟨⟨target', v⟩, t, htarget, hrun⟩ := bind_eq_ok hrun
    obtain ⟨_, _, htarget'⟩ := single_eq_ok htarget
    rcases fieldAccess_cases htarget hrun with ⟨index', hindex, hfield⟩ | ⟨number, hnumber, hlit⟩
    · rw [hfield]
      exact .field (hes target (List.mem_singleton_self _) none (hw.at h 0 rfl rfl) htarget') hindex
    · rw [hlit]
      exact .number h hnumber
  | member target index span =>
    obtain ⟨ihtarget, ihindex⟩ := List.forall_mem_cons.1 hes
    obtain ⟨⟨target', v⟩, t, htarget, hrun⟩ := bind_eq_ok hrun
    obtain ⟨⟨index', _⟩, _, hindex, hrun⟩ := bind_eq_ok hrun
    obtain ⟨_, _, -, hrun⟩ := bind_eq_ok hrun
    cases hrun
    obtain ⟨_, _, htarget'⟩ := single_eq_ok htarget
    obtain ⟨_, _, hindex'⟩ := single_eq_ok hindex
    exact .member (ihtarget none (hw.at h 0 rfl rfl) htarget')
      (ihindex index (List.mem_singleton_self _) none
        (hw.at h 1 rfl (bind_apply_ok htarget)) hindex')
  | self owner span =>
    obtain ⟨⟨found, _⟩, _, -, hrun⟩ := bind_eq_ok hrun
    cases hrun
    refine .self ?_
    cases found
    · exact .inl rfl
    · exact .inr rfl
  | new ty generics args span =>
    obtain ⟨⟨ref, signature⟩, t, hfound, hrun⟩ := bind_eq_ok hrun
    cases signature with
    | some signature =>
      obtain ⟨⟨args', returns⟩, _, hcall, hrun⟩ := bind_eq_ok hrun
      cases hrun
      obtain ⟨_, given, _, harguments, hargs⟩ := arguments_of_call hcall
      exact .new (becomes_values_of hw hes _
        (hw.at h 0 rfl ((bind_apply_ok hfound).trans harguments)) hargs)
    | none =>
      obtain ⟨args', _, hargs, hrun⟩ := bind_eq_ok hrun
      cases hrun
      exact .new (becomes_unchecked_of hw hes (hw.at h 0 rfl (bind_apply_ok hfound)) hargs)
  | spawn ty generics args span =>
    obtain ⟨⟨ref, signature⟩, t, hfound, hrun⟩ := bind_eq_ok hrun
    cases signature with
    | some signature =>
      obtain ⟨⟨args', returns⟩, _, hcall, hrun⟩ := bind_eq_ok hrun
      cases hrun
      obtain ⟨_, given, _, harguments, hargs⟩ := arguments_of_call hcall
      exact .spawn (becomes_values_of hw hes _
        (hw.at h 0 rfl ((bind_apply_ok hfound).trans harguments)) hargs)
    | none =>
      obtain ⟨args', _, hargs, hrun⟩ := bind_eq_ok hrun
      cases hrun
      exact .spawn (becomes_unchecked_of hw hes (hw.at h 0 rfl (bind_apply_ok hfound)) hargs)
  | function params returns stmts span =>
    obtain ⟨signature, t, hsignature, hrun⟩ := bind_eq_ok hrun
    obtain ⟨stmts', _, hfunction, hrun⟩ := bind_eq_ok hrun
    cases hrun
    obtain ⟨u, _, hpart, hbody⟩ := functionBody_of_inFunction hfunction
    exact .function (becomes_body_of hw hstmts false
      (hw.at h 0 rfl ((bind_apply_ok hsignature).trans hpart)) hbody)
  | matching subject arms amount span =>
    obtain ⟨⟨subject', v⟩, t, hsubject, hrun⟩ := bind_eq_ok hrun
    obtain ⟨⟨⟨arms', count⟩, closed⟩, _, hscope, hrun⟩ := bind_eq_ok hrun
    obtain ⟨_, _, -, hrun⟩ := bind_eq_ok hrun
    cases hrun
    obtain ⟨_, _, hsubject'⟩ := single_eq_ok hsubject
    obtain ⟨u, _, hpush, hrun⟩ := inScope_opened hscope
    exact .matching (hes subject (List.mem_singleton_self _) none (hw.at h 0 rfl rfl) hsubject')
      (becomes_matchArms_of hw hpatterns hstmts _
        (hw.at h 1 rfl ((bind_apply_ok hsubject).trans (bind_apply_ok hpush))) hrun)
  | entityTest value ty binding negated official span =>
    obtain ⟨⟨value', v⟩, t, hvalue, hrun⟩ := bind_eq_ok hrun
    obtain ⟨_, _, -, hrun⟩ := bind_eq_ok hrun
    obtain ⟨_, _, -, hrun⟩ := bind_eq_ok hrun
    cases hrun
    obtain ⟨_, _, hvalue'⟩ := single_eq_ok hvalue
    refine .entityTest (hes value (List.mem_singleton_self _) none (hw.at h 0 rfl rfl) hvalue') ?_
    rintro rfl
    rfl
  | error span =>
    cases hrun
    exact .error span

theorem becomes_variable {decl : VariableDecl} (hw : w.IsComplete)
    (hes : ∀ e ∈ decl.values, BecomesExpr w e) {st' : Stmt}
    (h : w.reached (.stmt (.variable decl)) s)
    (hrun : stmt (.variable decl) w.context s = .ok (st', s')) :
    (Stmt.variable decl).Becomes w st' := by
  obtain ⟨names, ty, exprs, isPub, isConst, span⟩ := decl
  rw [stmt] at hrun
  obtain ⟨t, hrun, hpublic, hreport⟩ := guard_scopes_eq_ok hrun
  obtain ⟨u, hconst, hrun⟩ := guard_eq_ok hrun
  obtain ⟨declared, v, hdeclared, hrun⟩ := bind_eq_ok hrun
  dsimp only at hrun
  split at hrun
  · next hempty =>
    obtain ⟨⟨exprs', given⟩, _, hdefaults, hrun⟩ := bind_eq_ok hrun
    obtain ⟨_, _, -, hrun⟩ := bind_eq_ok hrun
    cases hrun
    obtain rfl := List.isEmpty_iff.1 hempty
    cases ty with
    | none =>
      cases hdeclared
      rcases gives_defaultValues _ _ _ _ _ hdefaults with ⟨_, hsome, -⟩ | ⟨-, rfl⟩
      · cases hsome
      · exact .declared (.values .nil)
    | some written =>
      obtain ⟨resolved, _, hresolved, hpure⟩ := bind_eq_ok hdeclared
      cases hpure
      rcases gives_defaultValues _ _ _ _ _ hdefaults with ⟨_, hsome, rfl⟩ | ⟨hnone, -⟩
      · cases hsome
        have hsession : u.session = s.session := by
          refine (guard_report_session hconst).trans ?_
          rcases hreport with rfl | hreport
          · rfl
          · cases hreport
            rfl
        exact .defaults h hsession hresolved
      · cases hnone
  · next hgiven =>
    obtain ⟨⟨exprs', given⟩, _, hexprs, hrun⟩ := bind_eq_ok hrun
    obtain ⟨_, _, -, hrun⟩ := bind_eq_ok hrun
    obtain ⟨_, _, hpure, hrun⟩ := bind_eq_ok hrun
    cases hpure
    obtain ⟨_, _, -, hrun⟩ := bind_eq_ok hrun
    cases hrun
    refine .declared (.values (becomes_values_of hw hes _ (hw.at h 0 rfl
      (?_ : _ = Except.ok (some ([], Task.values exprs _), v))) hexprs))
    refine (hpublic _).trans <| (guard_apply_ok hconst).trans <|
      (bind_apply_ok hdeclared).trans ?_
    exact congrFun (congrFun (if_neg hgiven : _ = Part.here _) w.context) v

theorem becomes_classDecl {decl : ClassDecl} (hw : w.IsComplete)
    (hes : ∀ e ∈ decl.fields.flatMap (·.values), BecomesExpr w e)
    (hmethods : ∀ st ∈ decl.methods.flatMap (·.body), BecomesStmt w st)
    (hconstructor : ∀ st ∈ decl.constructor.toList.flatMap (·.body), BecomesStmt w st) {st' : Stmt}
    (h : w.reached (.stmt (.classDecl decl)) s)
    (hrun : stmt (.classDecl decl) w.context s = .ok (st', s')) :
    (Stmt.classDecl decl).Becomes w st' := by
  obtain ⟨name, isPub, fields, methods, constructor, span⟩ := decl
  obtain ⟨found, t, hrun, hfound⟩ := lookup_eq_ok hrun
  cases found with
  | none =>
    cases hrun
    exact .classKept _
  | some info =>
    obtain ⟨⟨⟨fields', constructor', methods'⟩, _⟩, _, hscope, hrun⟩ := bind_eq_ok hrun
    cases hrun
    obtain ⟨u, _, hpush, hrun⟩ := inScope_opened hscope
    obtain ⟨_, v, hbind, hrun⟩ := bind_eq_ok hrun
    obtain ⟨_, _, hf, hrun⟩ := bind_eq_ok hrun
    obtain ⟨_, _, hc, hrun⟩ := bind_eq_ok hrun
    obtain ⟨_, _, hm, hrun⟩ := bind_eq_ok hrun
    cases hrun
    have hpart (part : ClassInfo → List Region → Part) : Part.classPart name span part w.context
        s = part info [.container info.ty .classDecl] w.context v :=
      (hfound _).trans <| (bind_apply_ok hpush).trans (bind_apply_ok hbind)
    exact .classDecl (becomes_initializers_of hw hes _ _ _ (hw.at h 0 rfl (hpart _)) hf)
      (becomes_methodBodies_of hw hmethods _
        (hw.at h 2 rfl ((hpart _).trans <| (bind_apply_ok hf).trans
        (bind_apply_ok hc))) hm)
      (becomes_constructorBody_of hw hconstructor _
        (hw.at h 1 rfl ((hpart _).trans (bind_apply_ok hf))) hc)

theorem becomes_entityDecl {decl : EntityDecl} (hw : w.IsComplete)
    (hes : ∀ e ∈ decl.fields.flatMap (·.values), BecomesExpr w e)
    (hmethods : ∀ st ∈ decl.methods.flatMap (·.body), BecomesStmt w st)
    (hfunctions : ∀ st ∈ decl.functions.flatMap (·.body), BecomesStmt w st) {st' : Stmt}
    (h : w.reached (.stmt (.entityDecl decl)) s)
    (hrun : stmt (.entityDecl decl) w.context s = .ok (st', s')) :
    (Stmt.entityDecl decl).Becomes w st' := by
  obtain ⟨name, isPub, fields, methods, functions, span⟩ := decl
  obtain ⟨found, t, hrun, hfound⟩ := lookup_eq_ok hrun
  cases found with
  | none =>
    cases hrun
    exact .entityKept _
  | some info =>
    obtain ⟨⟨⟨fields', functions', methods'⟩, _⟩, _, hscope, hrun⟩ := bind_eq_ok hrun
    cases hrun
    obtain ⟨u, _, hpush, hrun⟩ := inScope_opened hscope
    obtain ⟨_, v, hbind, hrun⟩ := bind_eq_ok hrun
    obtain ⟨_, _, hf, hrun⟩ := bind_eq_ok hrun
    obtain ⟨⟨spawned, seen⟩, _, hspawn, hrun⟩ := bind_eq_ok hrun
    obtain ⟨_, _, hlifecycles, hrun⟩ := bind_eq_ok hrun
    obtain ⟨_, _, hm, hrun⟩ := bind_eq_ok hrun
    cases hrun
    have hpart (part : EntityInfo → List Region → Part) : Part.entityPart name span part w.context
        s = part info [.container info.ty .entityDecl] w.context v :=
      (hfound _).trans <| (bind_apply_ok hpush).trans (bind_apply_ok hbind)
    have hspawned := becomes_firstSpawn_of hw hfunctions _
      (hw.at h 1 rfl ((hpart _).trans (bind_apply_ok hf))) hspawn
    exact .entityDecl (becomes_initializers_of hw hes _ _ _ (hw.at h 0 rfl (hpart _)) hf)
      (becomes_methodBodies_of hw hmethods _
        (hw.at h 3 rfl ((hpart _).trans <| (bind_apply_ok hf).trans <|
        (bind_apply_ok hspawn).trans (bind_apply_ok hlifecycles))) hm)
      (becomes_otherLifecycles_of hw hfunctions _ _ _ (.inr hspawned)
        (hw.at h 2 rfl ((hpart _).trans <| (bind_apply_ok hf).trans
        (bind_apply_ok hspawn))) hlifecycles)

theorem becomes_stmt_of {st : Stmt} (hw : w.IsComplete)
    (hes : ∀ e ∈ st.expressions, BecomesExpr w e)
    (hstmts : ∀ inner ∈ st.statements, BecomesStmt w inner) : BecomesStmt w st := by
  intro s s' st' h hrun
  cases st with
  | env decl =>
    obtain ⟨_, _, -, hrun⟩ := bind_eq_ok hrun
    cases hrun
    exact .env decl
  | «variable» decl => exact becomes_variable hw hes h hrun
  | function decl =>
    obtain ⟨name, generics, params, returns, stmts, isPub, span⟩ := decl
    obtain ⟨signature, t, hsignature, hrun⟩ := bind_eq_ok hrun
    obtain ⟨stmts', _, hfunction, hrun⟩ := bind_eq_ok hrun
    cases hrun
    obtain ⟨_, _, hpart, hbody⟩ := functionBody_of_inFunction hfunction
    exact .function (.body (becomes_body_of hw hstmts false
      (hw.at h 0 rfl ((bind_apply_ok hsignature).trans hpart)) hbody))
  | classDecl decl =>
    obtain ⟨hmethods, hconstructor⟩ := List.forall_mem_append.1 hstmts
    exact becomes_classDecl hw hes hmethods hconstructor h hrun
  | entityDecl decl =>
    obtain ⟨hmethods, hfunctions⟩ := List.forall_mem_append.1 hstmts
    exact becomes_entityDecl hw hes hmethods hfunctions h hrun
  | enumDecl decl =>
    obtain ⟨_, _, -, hrun⟩ := bind_eq_ok hrun
    cases hrun
    exact .enumDecl decl
  | aliasDecl decl =>
    obtain ⟨_, _, -, hrun⟩ := bind_eq_ok hrun
    cases hrun
    exact .aliasDecl decl
  | assign targets op exprs span =>
    obtain ⟨ihtargets, ihvalues⟩ := List.forall_mem_append.1 hes
    obtain ⟨⟨targets', places⟩, t, htargets, hrun⟩ := bind_eq_ok hrun
    obtain ⟨⟨exprs', given⟩, _, hexprs, hrun⟩ := bind_eq_ok hrun
    obtain ⟨_, _, -, hrun⟩ := bind_eq_ok hrun
    obtain ⟨_, _, -, hrun⟩ := bind_eq_ok hrun
    cases hrun
    exact .assign (becomes_places_of hw ihtargets (hw.at h 0 rfl rfl) htargets)
      (becomes_values_of hw ihvalues _ (hw.at h 1 rfl (bind_apply_ok htargets)) hexprs)
  | ifChain condition stmts elseifs otherwise span =>
    obtain ⟨ihcondition, ihconditions⟩ := List.forall_mem_cons.1 hes
    obtain ⟨ihthen, hstmts⟩ := List.forall_mem_append.1 hstmts
    obtain ⟨ihbodies, ihelse⟩ := List.forall_mem_append.1 hstmts
    obtain ⟨⟨condition', v⟩, t, hcondition, hrun⟩ := bind_eq_ok hrun
    obtain ⟨_, _, hcondition'⟩ := single_eq_ok hcondition
    have htest := ihcondition none (hw.at h 0 rfl rfl) hcondition'
    obtain ⟨narrowings, u, hnarrowings, hrun⟩ := bind_eq_ok hrun
    obtain ⟨⟨⟨stmts', exits, elseifs', otherwise'⟩, _⟩, _, hscope, hrun⟩ := bind_eq_ok hrun
    obtain ⟨_, -, hrun⟩ := guard_eq_ok hrun
    cases hrun
    obtain ⟨_, _, hpush, hrun⟩ := inScope_opened hscope
    obtain ⟨⟨_, _⟩, _, hbranch, hrun⟩ := bind_eq_ok hrun
    obtain ⟨_, _, he, hrun⟩ := bind_eq_ok hrun
    obtain ⟨_, _, ho, hrun⟩ := bind_eq_ok hrun
    cases hrun
    obtain ⟨_, _, hbody, hstmts'⟩ := branch_of_inBranch narrowings false [.block] hbranch
    have hbefore : Part.condition condition w.context s = .ok (narrowings, u) :=
      (bind_apply_ok hcondition).trans hnarrowings
    exact .ifChain htest
      (becomes_body_of hw ihthen false
        (hw.at h 1 rfl ((bind_apply_ok hbefore).trans <| (bind_apply_ok hpush).trans hbody))
        hstmts')
      (becomes_elseIfs_of hw ihconditions ihbodies
        (hw.at h 2 rfl ((bind_apply_ok hbefore).trans <| (bind_apply_ok hpush).trans
        (bind_apply_ok hbranch))) he)
      (becomes_elseBody_of hw ihelse _
        (hw.at h 3 rfl ((bind_apply_ok hbefore).trans <| (bind_apply_ok hpush).trans <|
        (bind_apply_ok hbranch).trans (bind_apply_ok he))) ho)
  | repeatLoop iterator start skip counter stmts span =>
    obtain ⟨ihiterator, ihparts⟩ := List.forall_mem_cons.1 hes
    obtain ⟨ihstart, ihskip⟩ := List.forall_mem_append.1 ihparts
    obtain ⟨⟨iterator', v⟩, t, hiterator, hrun⟩ := bind_eq_ok hrun
    obtain ⟨_, _, hiterator'⟩ := single_eq_ok hiterator
    have hbefore := ihiterator none (hw.at h 0 rfl rfl) hiterator'
    obtain ⟨ty, _, htype, hrun⟩ := bind_eq_ok hrun
    obtain ⟨start', _, hs, hrun⟩ := bind_eq_ok hrun
    obtain ⟨skip', _, hk, hrun⟩ := bind_eq_ok hrun
    obtain ⟨stmts', _, hloop, hrun⟩ := bind_eq_ok hrun
    cases hrun
    obtain ⟨_, _, hbody, hstmts'⟩ := loopBody_of_inLoop [] .loop hloop
    exact .repeatLoop hbefore
      (becomes_repeatPart_of hw ihstart _ _
        (hw.at h 1 rfl ((bind_apply_ok hiterator).trans (bind_apply_ok htype))) hs)
      (becomes_repeatPart_of hw ihskip _ _
        (hw.at h 2 rfl ((bind_apply_ok hiterator).trans <| (bind_apply_ok htype).trans
        (bind_apply_ok hs))) hk)
      (becomes_body_of hw hstmts false
        (hw.at h 3 rfl ((bind_apply_ok hiterator).trans <| (bind_apply_ok htype).trans <|
        (bind_apply_ok hs).trans <| (bind_apply_ok hk).trans hbody)) hstmts')
  | whileLoop condition stmts span =>
    obtain ⟨⟨condition', v⟩, t, hcondition, hrun⟩ := bind_eq_ok hrun
    obtain ⟨_, _, hcondition'⟩ := single_eq_ok hcondition
    have htest := hes condition (List.mem_singleton_self _) none (hw.at h 0 rfl rfl) hcondition'
    obtain ⟨narrowings, u, hnarrowings, hrun⟩ := bind_eq_ok hrun
    obtain ⟨stmts', _, hloop, hrun⟩ := bind_eq_ok hrun
    cases hrun
    obtain ⟨_, _, hbody, hstmts'⟩ := loopBody_of_inLoop narrowings .loop hloop
    have hbefore : Part.condition condition w.context s = .ok (narrowings, u) :=
      (bind_apply_ok hcondition).trans hnarrowings
    exact .whileLoop htest (becomes_body_of hw hstmts false
      (hw.at h 1 rfl ((bind_apply_ok hbefore).trans hbody)) hstmts')
  | forLoop key value iterator stmts span =>
    obtain ⟨⟨iterator', v⟩, t, hiterator, hrun⟩ := bind_eq_ok hrun
    obtain ⟨_, _, hiterator'⟩ := single_eq_ok hiterator
    have hbefore := hes iterator (List.mem_singleton_self _) none (hw.at h 0 rfl rfl) hiterator'
    obtain ⟨⟨keyValue, elemValue⟩, _, hiterated, hrun⟩ := bind_eq_ok hrun
    obtain ⟨key', _, hkey, hrun⟩ := bind_eq_ok hrun
    obtain ⟨stmts', _, hloop, hrun⟩ := bind_eq_ok hrun
    cases hrun
    obtain ⟨_, _, hbody, hstmts'⟩ := loopBody_of_inLoop [] .loop hloop
    exact .forLoop (gives_forKey key span _ _ _ _ hkey) hbefore
      (becomes_body_of hw hstmts false
        (hw.at h 1 rfl ((bind_apply_ok hiterator).trans <| (bind_apply_ok hiterated).trans <|
        (bind_apply_ok hkey).trans hbody)) hstmts')
  | tick counter stmts span =>
    obtain ⟨stmts', _, hloop, hrun⟩ := bind_eq_ok hrun
    cases hrun
    obtain ⟨_, _, hbody, hstmts'⟩ := loopBody_of_inLoop [] .tick hloop
    exact .tick (becomes_body_of hw hstmts false (hw.at h 0 rfl hbody) hstmts')
  | matching subject arms span =>
    obtain ⟨ihsubject, ihpatterns⟩ := List.forall_mem_cons.1 hes
    obtain ⟨⟨subject', v⟩, t, hsubject, hrun⟩ := bind_eq_ok hrun
    obtain ⟨_, _, hsubject'⟩ := single_eq_ok hsubject
    have hbefore := ihsubject none (hw.at h 0 rfl rfl) hsubject'
    obtain ⟨⟨⟨arms', count⟩, _⟩, _, hscope, hrun⟩ := bind_eq_ok hrun
    obtain ⟨_, -, hrun⟩ := guard_eq_ok hrun
    cases hrun
    obtain ⟨u, _, hpush, hrun⟩ := inScope_opened hscope
    obtain ⟨⟨_, _⟩, _, ha, hrun⟩ := bind_eq_ok hrun
    obtain ⟨_, -, hrun⟩ := guard_eq_ok hrun
    cases hrun
    exact .matching hbefore (becomes_matchArms_of hw ihpatterns hstmts _ (hw.at h 1 rfl
      ((bind_apply_ok hsubject).trans (bind_apply_ok hpush))) ha)
  | returning exprs span =>
    obtain ⟨allowed, t, hallowed, hrun⟩ := bind_eq_ok hrun
    cases allowed with
    | true =>
      obtain ⟨expected, _, hexpected, hrun⟩ := bind_eq_ok (m := returnTypes) hrun
      obtain ⟨⟨exprs', given⟩, _, hexprs, hrun⟩ := bind_eq_ok hrun
      obtain ⟨_, _, -, hrun⟩ := bind_eq_ok hrun
      cases hrun
      exact .returning (becomes_values_of hw hes _ (hw.at h 0 rfl ((bind_apply_ok hallowed).trans
        (bind_apply_ok hexpected))) hexprs)
    | false =>
      obtain ⟨⟨exprs', given⟩, _, hexprs, hrun⟩ := bind_eq_ok (m := values exprs []) hrun
      cases hrun
      exact .returning (becomes_values_of hw hes _ (hw.at h 0 rfl (bind_apply_ok hallowed)) hexprs)
  | yielding exprs span =>
    obtain ⟨allowed, t, hallowed, hrun⟩ := bind_eq_ok hrun
    cases allowed with
    | true =>
      obtain ⟨⟨position, known⟩, _, htarget, hrun⟩ := bind_eq_ok (m := yieldTarget) hrun
      obtain ⟨⟨exprs', given⟩, _, hexprs, hrun⟩ := bind_eq_ok hrun
      obtain ⟨_, _, -, hrun⟩ := bind_eq_ok hrun
      cases hrun
      exact .yielding (becomes_values_of hw hes _ (hw.at h 0 rfl ((bind_apply_ok hallowed).trans
        (bind_apply_ok htarget))) hexprs)
    | false =>
      obtain ⟨⟨exprs', given⟩, _, hexprs, hrun⟩ := bind_eq_ok (m := values exprs []) hrun
      cases hrun
      exact .yielding (becomes_values_of hw hes _ (hw.at h 0 rfl (bind_apply_ok hallowed)) hexprs)
  | breaking span =>
    obtain ⟨_, _, -, hrun⟩ := bind_eq_ok hrun
    obtain ⟨_, -, hrun⟩ := guard_eq_ok hrun
    cases hrun
    exact .breaking span
  | continuing span =>
    obtain ⟨_, _, -, hrun⟩ := bind_eq_ok hrun
    obtain ⟨_, -, hrun⟩ := guard_eq_ok hrun
    cases hrun
    exact .continuing span
  | destroy target generics args span =>
    obtain ⟨ihtarget, ihargs⟩ := List.forall_mem_cons.1 hes
    obtain ⟨⟨target', v⟩, t, htarget, hrun⟩ := bind_eq_ok hrun
    obtain ⟨_, _, htarget'⟩ := single_eq_ok htarget
    have hbefore := ihtarget none (hw.at h 0 rfl rfl) htarget'
    obtain ⟨signature, _, hfound, hrun⟩ := bind_eq_ok hrun
    cases signature with
    | some signature =>
      obtain ⟨⟨args', returns⟩, _, hcall, hrun⟩ := bind_eq_ok hrun
      cases hrun
      obtain ⟨_, given, _, harguments, hargs⟩ := arguments_of_call hcall
      exact .destroy hbefore (becomes_values_of hw ihargs _
        (hw.at h 1 rfl ((bind_apply_ok htarget).trans <|
        (bind_apply_ok hfound).trans harguments)) hargs)
    | none =>
      obtain ⟨args', _, hargs, hrun⟩ := bind_eq_ok hrun
      cases hrun
      exact .destroy hbefore (becomes_unchecked_of hw ihargs (hw.at h 1 rfl
        ((bind_apply_ok htarget).trans (bind_apply_ok hfound))) hargs)
  | use decl =>
    obtain ⟨_, _, -, hrun⟩ := bind_eq_ok hrun
    obtain ⟨_, -, hrun⟩ := guard_eq_ok hrun
    cases hrun
    exact .use decl
  | expr e =>
    obtain ⟨⟨e', v⟩, t, he, hrun⟩ := bind_eq_ok hrun
    cases hrun
    exact .expr (hes e (List.mem_singleton_self _) none (hw.at h 0 rfl rfl) he)
  | error span =>
    cases hrun
    exact .error span

/-! ## Trees -/

theorem becomes_tree (hw : w.IsComplete) : (∀ e, BecomesExpr w e) ∧ ∀ st, BecomesStmt w st :=
  Tree.induction (fun _ hes hpatterns hstmts => becomes_expr_of hw hes hpatterns hstmts)
    fun _ hes hstmts => becomes_stmt_of hw hes hstmts

theorem becomes_body (hw : w.IsComplete) (stmts : List Stmt) (reported : Bool) {out : List Stmt}
    (h : w.reached (.body stmts reported) s)
    (hrun : body stmts reported w.context s = .ok (out, s')) : Stmt.BodyBecomes w stmts out :=
  becomes_body_of hw (fun st _ => (becomes_tree hw).2 st) reported h hrun

/-- What a program becomes. The leading `env` declaration is kept. -/
theorem becomes_program (hw : w.IsComplete) {p out : Program} (h : w.reached (programTask p) s)
    (hrun : Check.program p w.context s = .ok (out, s')) : Stmt.BodyBecomes w p out := by
  cases p with
  | nil => exact becomes_body hw _ _ h hrun
  | cons first rest =>
    cases first with
    | env decl =>
      obtain ⟨rest', _, hrest, hrun⟩ := bind_eq_ok hrun
      cases hrun
      exact .cons (.env decl) (becomes_body hw _ _ h hrest)
    | _ => exact becomes_body hw _ _ h hrun

end Check

/-! ## Builds -/

/-- The walk of a program, from the state in which its declarations are registered. -/
def tourOf (c : Context) (p : Program) (prune : Bool) (s₀ : State) : Tour where
  context := c
  prune := prune
  reached task s := ∃ regions, Visits c (programTask p) s₀ regions task s

theorem isComplete_tourOf {c : Context} {p : Program} {s₀ : State} (hl : Live c s₀ {}) :
    (tourOf c p s₀.session.config.prune s₀).IsComplete where
  part := by
    rintro task s part around task' t ⟨regions, hvisits⟩ hpart hrun
    exact ⟨_, hvisits.trans (.into hpart hrun (.here _ _))⟩
  settings := by
    rintro st st' s t ⟨regions, hvisits⟩ hrun
    obtain ⟨o, hl', -, -⟩ := hvisits.follows hl .start (placed_programTask p)
    have hbefore := hvisits.steps hl .start (placed_programTask p)
    obtain ⟨hafter, -⟩ := (keeps_stmt st c s o hl').apply hrun
    exact congrArg (·.prune) (Steps.frames hl (hbefore.trans hafter)).1.config

/-- In every build without an error, every resolved program is related node by node to the program
that was given: where the walk comes to a node, the node becomes what `Expr.Becomes` or
`Stmt.Becomes` says. Related nodes have one position, and one is an error exactly if the other is.
What is filled in is no error. -/
theorem analyze_resolves_node_by_node {config : Config} {files : List (String × Program)}
    {out : BuildOutput} (hout : analyze config files = .ok out) :
    out.programs.length = files.length ∧
    (∀ (i : Nat) path p, files[i]? = some (path, p) → ∃ walked c s t counts s₀,
      out.programs[i]? = some walked ∧ FinishedWalk config (.user i) p walked c s t ∧
      Declare.program p c s = .ok (counts, s₀) ∧
      Stmt.BodyBecomes (tourOf c p config.prune s₀) p walked) ∧
    (∀ w e e', Expr.Becomes w e e' → e'.span = e.span ∧ e'.isError = e.isError) ∧
    (∀ w st st', Stmt.Becomes w st st' → st'.span = st.span ∧ st'.isError = st.isError) ∧
    ∀ (ty : Ty) span, (ty.unitLiteral span).isError = false ∧
      ∀ e ∈ ty.defaultLiteral? span, e.isError = false := by
  obtain ⟨-, hlength, -, hwalked⟩ := finished_of_analyze hout
  refine ⟨hlength, fun i path p hfile => ?_, fun w e e' h => ⟨h.span_eq, h.isError_eq⟩,
    fun w st st' h => ⟨h.span_eq, h.isError_eq⟩, fun ty span =>
      ⟨ty.isError_unitLiteral span, fun e he => Ty.isError_defaultLiteral? he⟩⟩
  obtain ⟨walked, c, s, t, env, hwalk, -, -, hprogram, -⟩ := hwalked i path p hfile
  obtain ⟨counts, s₀, hdeclare, hroute, hl, hcheck⟩ := hwalk.registers
  have hconfig : s₀.session.config = config :=
    (Route.frames hwalk.live hroute).1.config.trans hwalk.settings
  refine ⟨walked, c, s, t, counts, s₀, hprogram, hwalk, hdeclare, ?_⟩
  rw [← hconfig]
  exact becomes_program (isComplete_tourOf hl) ⟨[], .here _ _⟩ hcheck

/-- A constant with a literal, and a statement that names it. -/
def constantUse : Program :=
  [.level "Main",
    .variable ⟨[⟨"K", .synthetic⟩], none, [.literal ⟨.number, "1", .synthetic⟩], false, true,
      .synthetic⟩,
    .expr (.ident ⟨"K", .synthetic⟩)]

/-- The number of a statement that is one. -/
def Stmt.number? : Stmt → Option String
  | .expr (.literal lit) => some lit.value
  | _ => none

/-- The name of the constant becomes its literal, in a tree that is related to the program. -/
theorem analyze_resolves_node_by_node_constant :
    ∃ out walked w, analyze {} [("main.hyb", constantUse)] = .ok out ∧
      out.programs[0]? = some walked ∧ Stmt.BodyBecomes w constantUse walked ∧
      walked.getLast?.bind Stmt.number? = some "1" := by
  have hbuild : ((analyze {} [("main.hyb", constantUse)]).toOption.bind (·.programs[0]?)).any
      (fun walked => walked.getLast?.bind Stmt.number? == some "1") = true := by decide +kernel
  cases hout : analyze {} [("main.hyb", constantUse)] with
  | error e =>
    rw [hout] at hbuild
    cases hbuild
  | ok out =>
    obtain ⟨-, hfiles, -, -, -⟩ := analyze_resolves_node_by_node hout
    obtain ⟨walked, c, s, t, counts, s₀, hprogram, -, -, hbecomes⟩ := hfiles 0 _ _ rfl
    rw [hout] at hbuild
    simp only [Except.toOption, Option.bind_some, hprogram, Option.any_some, beq_iff_eq] at hbuild
    exact ⟨out, walked, _, rfl, hprogram, hbecomes, hbuild⟩

end HybroidSema
