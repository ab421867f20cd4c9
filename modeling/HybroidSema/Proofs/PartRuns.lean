import HybroidSema.Proofs.Constants
import HybroidSema.Proofs.Narrowing
import HybroidSema.Proofs.Visits

/-!
# What a check ran

A check that gives a result ran its steps one after another, and what it ran is read off its run. A
walk of a part is read off in the form in which `Part` describes it, so that what is known where the
walk comes to a part is known of the run.

* `single_eq_ok`, `inScope_opened` and `guard_eq_ok`: the steps around a check.
* `arguments_of_call`, `functionBody_of_inFunction`, `branch_of_inBranch` and `loopBody_of_inLoop`:
  the parts of nodes.
* `identifier_cases`: the cases of a name.
-/

namespace HybroidSema

namespace Check

variable {α : Type} {m : Check α} {c : Context} {s s' t : State}

/-! ## Runs of parts -/

/-- A check that is made under a condition, before the rest. -/
theorem Gives.guard {m : Check PUnit} {g : PUnit → Check α} {R : α → Prop} {b : Prop} [Decidable b]
    (hg : ∀ u, Gives (g u) R) : Gives (if b then m >>= g else g ⟨⟩) R := by
  split
  · exact .bind hg
  · exact hg _

theorem single_eq_ok {m : Check (Expr × Value)} {r : Expr × Value}
    (h : single m c s = .ok (r, s')) : ∃ value t, m c s = .ok ((r.1, value), t) := by
  obtain ⟨a, t, hm, hrun⟩ := bind_eq_ok h
  obtain ⟨_, _, -, hrun⟩ := bind_eq_ok hrun
  cases hrun
  exact ⟨a.2, t, hm⟩

theorem inScope_opened {enter : ScopeStack → ScopeStack} {r : α × Option Scope}
    (h : inScope enter m c s = .ok (r, s')) :
    ∃ t t', modifyScopes enter c s = .ok ((), t) ∧ m c t = .ok (r.1, t') := by
  obtain ⟨_, t, henter, hrun⟩ := bind_eq_ok h
  obtain ⟨a, t', hm, hrun⟩ := bind_eq_ok hrun
  obtain ⟨_, _, -, hrun⟩ := bind_eq_ok hrun
  cases hrun
  exact ⟨t, t', henter, hm⟩

/-- A check that is made under a condition before the rest. -/
theorem guard_eq_ok {m : Check PUnit} {g : PUnit → Check α} {b : Prop} [Decidable b]
    {r : α × State} (h : (if b then m >>= g else g ⟨⟩) c s = .ok r) :
    ∃ t, (if b then m else pure ⟨⟩) c s = .ok (⟨⟩, t) ∧ g ⟨⟩ c t = .ok r := by
  split at h
  · next hb =>
    obtain ⟨_, t, hm, hg⟩ := bind_eq_ok h
    exact ⟨t, by rw [if_pos hb]; exact hm, hg⟩
  · next hb => exact ⟨s, by rw [if_neg hb]; rfl, h⟩

theorem guard_apply_ok {m : Check PUnit} {g : PUnit → Check α} {b : Prop} [Decidable b]
    (h : (if b then m else pure ⟨⟩) c s = .ok (⟨⟩, t)) :
    (if b then m >>= g else g ⟨⟩) c s = g ⟨⟩ c t := by
  split
  · next hb =>
    rw [if_pos hb] at h
    exact bind_apply_ok h
  · next hb =>
    rw [if_neg hb] at h
    cases h
    rfl

/-- The same for a condition that reads the scopes. -/
theorem guard_scopes_eq_ok {m : Check PUnit} {rest : Check α} {b : Prop} [Decidable b]
    {b' : ScopeStack → Prop} [∀ stack, Decidable (b' stack)] {r : α × State}
    (h : (if b then scopes >>= fun stack => if b' stack then m >>= fun _ => rest else rest
      else rest) c s = .ok r) :
    ∃ t, rest c t = .ok r ∧ (∀ rest' : Part, (if b then scopes >>= fun stack =>
      if b' stack then m >>= fun _ => rest' else rest' else rest') c s = rest' c t) ∧
      (t = s ∨ m c s = .ok (⟨⟩, t)) := by
  split at h
  · next hb =>
    obtain ⟨stack, u, hscopes, hrun⟩ := bind_eq_ok h
    obtain ⟨rfl, -⟩ := scopes_eq_ok hscopes
    obtain ⟨t, hguard, hrest⟩ := guard_eq_ok (g := fun _ => rest) hrun
    refine ⟨t, hrest, fun rest' => ?_, ?_⟩
    · rw [if_pos hb, bind_apply_ok hscopes]
      exact guard_apply_ok (g := fun _ => rest') hguard
    · split at hguard
      · exact .inr hguard
      · cases hguard
        exact .inl rfl
  · next hb => exact ⟨s, h, fun rest' => by rw [if_neg hb], .inl rfl⟩

/-- The body of a class or entity is looked up at the root. -/
theorem lookup_eq_ok {γ : Type} {what : String} {span : Span} {find : Check (Option γ)}
    {f : Option γ → Check α} {r : α × State}
    (h : (atRoot what span >>= fun isRoot => if isRoot = true then find >>= f
      else pure none >>= f) c s = .ok r) :
    ∃ found t, f found c t = .ok r ∧ ∀ g : Option γ → Part, (atRoot what span >>= fun isRoot =>
      if isRoot = true then find >>= g else pure none >>= g) c s = g found c t := by
  obtain ⟨isRoot, t, hroot, h⟩ := bind_eq_ok h
  cases isRoot with
  | false => exact ⟨none, t, h, fun g => bind_apply_ok hroot⟩
  | true =>
    obtain ⟨found, u, hfind, h⟩ := bind_eq_ok (m := find) h
    exact ⟨found, u, h, fun g => (bind_apply_ok hroot).trans (bind_apply_ok hfind)⟩

/-- The arguments of a call are walked as a part. -/
theorem arguments_of_call {signature : Signature} {generics : List TypeExpr} {args : List Expr}
    {span : Span} {r : List Expr × List Ty}
    (h : call signature generics (fun hints => values args hints) span c s = .ok (r, s')) :
    ∃ t given t', Part.arguments signature generics args c s =
        .ok (some ([], .values args (hintsOf signature.params)), t) ∧
      values args (hintsOf signature.params) c t = .ok ((r.1, given), t') := by
  obtain ⟨_, t, hgenerics, hrun⟩ := bind_eq_ok h
  obtain ⟨⟨args', given⟩, t', hvalues, hrun⟩ := bind_eq_ok hrun
  obtain ⟨_, _, -, hrun⟩ := bind_eq_ok hrun
  obtain ⟨_, _, -, hrun⟩ := bind_eq_ok hrun
  cases hrun
  exact ⟨t, given, t', bind_apply_ok hgenerics, hvalues⟩

/-- The body of a function is walked as a part. -/
theorem functionBody_of_inFunction {signature : Signature} {params : List Param} {span : Span}
    {stmts out : List Stmt}
    (h : inFunction signature params span (body stmts false) c s = .ok (out, s')) :
    ∃ t t', Part.functionBody signature params stmts c s =
        .ok (some ([.function], .body stmts false), t) ∧ body stmts false c t = .ok (out, t') := by
  obtain ⟨⟨_, _⟩, _, hscope, hrun⟩ := bind_eq_ok h
  cases hrun
  obtain ⟨t, _, hpush, hrun⟩ := inScope_opened hscope
  obtain ⟨_, u, hbind, hrun⟩ := bind_eq_ok hrun
  obtain ⟨out', u', hbody, hrun⟩ := bind_eq_ok hrun
  obtain rfl : out = out' :=
    (Gives.bind (R := (· = out')) fun _ => .guard fun _ => .pure rfl) c u' _ _ hrun
  exact ⟨u, u', (bind_apply_ok hpush).trans (bind_apply_ok hbind), hbody⟩

/-- A branch is walked as a part. -/
theorem branch_of_inBranch {stmts : List Stmt} {r : List Stmt × Exits} (narrowings : List Narrowing)
    (negated : Bool) (around : List Region)
    (h : inBranch (do
      declareNarrowings narrowings negated
      body stmts false) c s = .ok (r, s')) :
    ∃ t t', Part.branch narrowings negated stmts around c s =
        .ok (some (.block :: around, .body stmts false), t) ∧
      body stmts false c t = .ok (r.1, t') := by
  obtain ⟨⟨_, _⟩, _, hscope, hrun⟩ := bind_eq_ok h
  cases hrun
  obtain ⟨t, _, hpush, hrun⟩ := inScope_opened hscope
  obtain ⟨_, u, hdeclare, hbody⟩ := bind_eq_ok hrun
  exact ⟨u, _, (bind_apply_ok hpush).trans (bind_apply_ok hdeclare), hbody⟩

/-- The body of a loop is walked as a part. -/
theorem loopBody_of_inLoop {permits : Permissions} {bindings : List (Ident × Value)}
    {stmts out : List Stmt} (narrowings : List Narrowing) (region : Region)
    (h : inLoop permits bindings (do
      declareNarrowings narrowings false
      body stmts false) c s = .ok (out, s')) :
    ∃ t t', Part.loopBody region permits bindings narrowings stmts c s =
        .ok (some ([region], .body stmts false), t) ∧ body stmts false c t = .ok (out, t') := by
  obtain ⟨⟨_, _⟩, _, hscope, hrun⟩ := bind_eq_ok h
  cases hrun
  obtain ⟨t, _, hpush, hrun⟩ := inScope_opened hscope
  obtain ⟨_, u, hbindings, hrun⟩ := bind_eq_ok hrun
  obtain ⟨_, v, hdeclare, hbody⟩ := bind_eq_ok hrun
  exact ⟨v, _, (bind_apply_ok hpush).trans <| (bind_apply_ok hbindings).trans
    (bind_apply_ok hdeclare), hbody⟩

/-! ## Names -/

/-- Whether an expression is a literal or a name. -/
def isLeaf : Expr → Bool
  | .literal _ | .ident _ | .builtin _ | .envAccess _ _ _ => true
  | _ => false

theorem gives_qualify (target : EnvId) (id : Ident) : Gives (qualify target id) (isLeaf · = true) :=
  .bind fun _ => .pure rfl

theorem gives_enumName (id : Ident) : Gives (enumName id) (isLeaf ·.1 = true) := by
  refine .bind fun env => ?_
  split
  · exact .pure rfl
  · refine .bind fun found => ?_
    split
    · refine .bind fun own => ?_
      split
      · exact .pure rfl
      · exact .bind_of (gives_qualify _ _) fun _ he => .pure he
    · exact .bind fun _ => .pure rfl

/-- What takes the place of a name is a literal or a name, or the name is one of a class or entity
around it. -/
theorem identifier_cases {id : Ident} {r : Expr × Value}
    (h : identifier id c s = .ok (r, s')) : isLeaf r.1 = true ∨
      ∃ env position v ref kind, s.own? c = some env ∧
        env.scopes.resolve? id.name = some position ∧
        env.scopes.binding? position id.name = some v ∧ v.constant = none ∧
        (env.scopes.get? position).bind (·.tag.container?) = some (ref, kind) ∧
        selfField id ref kind v.value c (s.modifyOwn c fun env => { env with
          scopes := env.scopes.modifyVariable position id.name fun v =>
            { v with isUsed := true } }) = .ok (r, s') := by
  obtain ⟨stack, t, hscopes, h⟩ := bind_eq_ok h
  obtain ⟨rfl, env, hown, rfl⟩ := scopes_eq_ok hscopes
  cases hresolve : env.scopes.resolve? id.name with
  | none =>
    simp only [hresolve] at h
    cases hbuiltin : Library.builtin.binding? id.name with
    | some binding =>
      simp only [hbuiltin] at h
      cases h
      exact .inl rfl
    | none =>
      simp only [hbuiltin] at h
      obtain ⟨_, _, -, h⟩ := bind_eq_ok h
      obtain ⟨found, _, -, h⟩ := bind_eq_ok h
      cases found with
      | none => exact .inl (gives_enumName id _ _ _ _ h)
      | some found =>
        obtain ⟨target, binding⟩ := found
        cases hliteral : binding.constant with
        | some lit =>
          simp only [hliteral] at h
          cases h
          exact .inl rfl
        | none =>
          simp only [hliteral] at h
          obtain ⟨e, _, hqualify, h⟩ := bind_eq_ok h
          cases h
          exact .inl (gives_qualify _ _ _ _ _ _ hqualify)
  | some position =>
    simp only [hresolve] at h
    obtain ⟨stack, _, hscopes', h⟩ := bind_eq_ok (m := scopes) h
    obtain ⟨rfl, _, hown', rfl⟩ := scopes_eq_ok hscopes'
    obtain rfl := Option.some.inj (hown.symm.trans hown')
    cases hv : env.scopes.binding? position id.name with
    | none =>
      simp only [hv] at h
      cases h
      exact .inl rfl
    | some v =>
      simp only [hv] at h
      rw [bind_apply_ok (modifyScopes_eq hown _)] at h
      cases hconstant : v.constant with
      | some lit =>
        simp only [hconstant] at h
        cases h
        exact .inl rfl
      | none =>
        cases hcontainer : (env.scopes.get? position).bind (·.tag.container?) with
        | none =>
          simp only [hconstant, hcontainer] at h
          cases h
          exact .inl rfl
        | some owner =>
          simp only [hconstant, hcontainer] at h
          exact .inr
            ⟨env, position, v, owner.1, owner.2, hown, hresolve, hv, hconstant, hcontainer, h⟩

theorem gives_qualifiedName (env name : Ident) (span : Span) :
    Gives (qualifiedName env name span) (isLeaf ·.1 = true) := by
  refine .bind fun registry => ?_
  dsimp only
  split
  · exact .bind fun _ => .pure rfl
  · refine .bind fun linked => ?_
    split
    · exact .pure rfl
    · refine .bind fun found => ?_
      split
      · exact .bind fun _ => .pure rfl
      · refine .bind fun own => .guard fun _ => ?_
        split
        · exact .pure rfl
        · exact .pure rfl

end Check

end HybroidSema
