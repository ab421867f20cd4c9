import HybroidSema.Proofs.Narrowing
import HybroidSema.Proofs.Visits

/-!
# Which narrowed names reach their branch

The names that the tests of a condition bind are pending in one list until the condition is taken
over, and every statement of a body and every pattern of a match clears that list. An operand of a
conjunction that has such a part forgets the names of the operands before it.

* `Expr.operands`: the operands of a conjunction, through groups.
* `Expr.forgets`: the expressions that clear the list, by recursion on the tree.
* `Check.Carries` and `carries_expr`: what an expression does to the names that are pending. It
  keeps them, or there is a state on the way in which nothing is pending.
* `operand_eq_ok`: the walk of a condition comes to each operand, and what is pending after it is
  still pending at the end if no later operand forgets.
* `bound?_declareNarrowings`: the scope of a branch has the first narrowing of each name.
* `kept_narrowings`: a name is declared in the branch if no later operand forgets it.
* `analyze_forgets_narrowing`: before a match it is not.
-/

namespace HybroidSema

open Check

/-! ## Operands that forget -/

/-- The operands of a conjunction, through groups. -/
def Expr.operands : Expr → List Expr
  | .binary left .and right _ => left.operands ++ right.operands
  | .group inner _ => inner.operands
  | e => [e]

/-- The patterns of an arm, and the statements of its body, clear what is pending. An `else` arm
has no patterns. -/
def MatchArm.forgets (arm : MatchArm) : Bool := !arm.isDefault || !arm.body.isEmpty

mutual
/-- A function with a statement, or a match with an arm that forgets, is in the expression. -/
def Expr.forgets (e : Expr) : Bool :=
  match e with
  | .literal _ | .ident _ | .builtin _ | .envAccess _ _ _ | .self _ _ | .error _ => false
  | .function _ _ stmts _ => !stmts.isEmpty
  | .matching subject arms _ _ => subject.forgets || arms.any (·.forgets)
  | .unary _ operand _ => operand.forgets
  | .binary left _ right _ => left.forgets || right.forgets
  | .group inner _ => inner.forgets
  | .list elems _ => Expr.anyForgets elems
  | .map entries _ => MapEntry.anyForgets entries
  | .call caller _ args _ _ => caller.forgets || Expr.anyForgets args
  | .methodCall receiver _ _ _ _ args _ _ => receiver.forgets || Expr.anyForgets args
  | .field target _ _ _ => target.forgets
  | .member target index _ => target.forgets || index.forgets
  | .new _ _ args _ | .spawn _ _ args _ => Expr.anyForgets args
  | .entityTest value _ _ _ _ _ => value.forgets
  termination_by structural e

/-- One of the expressions forgets. -/
def Expr.anyForgets (es : List Expr) : Bool :=
  match es with
  | [] => false
  | e :: rest => e.forgets || Expr.anyForgets rest
  termination_by structural es

/-- The value of one of the entries forgets. -/
def MapEntry.anyForgets (es : List MapEntry) : Bool :=
  match es with
  | [] => false
  | ⟨_, e⟩ :: rest => e.forgets || MapEntry.anyForgets rest
  termination_by structural es
end

/-- A conjunction forgets if one of its operands does. -/
theorem Expr.forgets_eq_any_operands (e : Expr) : e.forgets = e.operands.any (·.forgets) := by
  fun_induction Expr.operands e with
  | case1 left right span ihleft ihright =>
    rw [Expr.forgets, ihleft, ihright, List.any_append]
  | case2 inner span ih => rw [Expr.forgets, ih]
  | case3 e => simp

namespace Check

variable {α β : Type} {m : Check α} {f : α → Check β} {c : Context} {s s' t u : State}
  {o : ScopeStack} {b b' : Bool}

/-! ## What happens to pending names -/

theorem Route.fatal_ne (h : Route c s s') (hs : s.fatal ≠ none) : s'.fatal ≠ none := by
  induction h with
  | refl => exact hs
  | tail _ hstep ih =>
    obtain ⟨phase, hstep⟩ := hstep
    exact hstep.fatal_ne ih

/-- A run keeps what is pending, or it comes to a state in which nothing is, unless the build has
failed. -/
structure Carried (c : Context) (forgets : Bool) (s s' : State) : Prop where
  route : Route c s s'
  kept : forgets = false → s.narrowings <+: s'.narrowings
  lost : forgets = true → s'.fatal = none →
    ∃ t, Route c s t ∧ t.narrowings = [] ∧ Route c t s'

theorem Carried.of_eq (hroute : Route c s s') (h : s'.narrowings = s.narrowings) :
    Carried c false s s' :=
  ⟨hroute, fun _ => h ▸ List.prefix_rfl, nofun⟩

theorem Carried.of_nil (hroute : Route c s s') (h : s'.narrowings = []) : Carried c true s s' :=
  ⟨hroute, nofun, fun _ _ => ⟨s', hroute, h, .refl⟩⟩

theorem Carried.trans (h : Carried c b s t) (h' : Carried c b' t u) :
    Carried c (b || b') s u := by
  refine ⟨h.route.trans h'.route, fun hkept => ?_, fun hlost hfatal => ?_⟩
  · rw [Bool.or_eq_false_iff] at hkept
    exact (h.kept hkept.1).trans (h'.kept hkept.2)
  · have hbefore : t.fatal = none := by_contra fun hne => h'.route.fatal_ne hne hfatal
    rcases Bool.or_eq_true_iff.1 hlost with hb | hb
    · obtain ⟨v, hv, hnone, hrest⟩ := h.lost hb hbefore
      exact ⟨v, hv, hnone, hrest.trans h'.route⟩
    · obtain ⟨v, hv, hnone, hrest⟩ := h'.lost hb hfatal
      exact ⟨v, h.route.trans hv, hnone, hrest⟩

/-- A check that forgets what is pending or not. -/
def Carries (m : Check α) (forgets : Bool) : Prop :=
  ∀ c s o a s', Live c s o → m c s = .ok (a, s') → Carried c forgets s s'

theorem Quiet.carries (h : Quiet .binding m) : Carries m false := by
  intro c s o a s' hl hrun
  obtain ⟨hsteps, -⟩ := (h c s o hl).apply hrun
  exact .of_eq hsteps.route (hsteps.narrowings_eq rfl)

namespace Carries

theorem bind (hm : Carries m b) (hf : ∀ a, Carries (f a) b') : Carries (m >>= f) (b || b') := by
  intro c s o r s' hl hrun
  obtain ⟨a, t, hfirst, hrest⟩ := bind_eq_ok hrun
  have hpending := hm c s o a t hl hfirst
  obtain ⟨-, o', hl'⟩ := Route.frames hl hpending.route
  exact hpending.trans (hf a c t o' r s' hl' hrest)

theorem bind_carries (hm : Carries m b) (hf : ∀ a, Carries (f a) false) : Carries (m >>= f) b :=
  Bool.or_false b ▸ hm.bind hf

theorem bind_quiet (hm : Carries m b) (hf : ∀ a, Quiet .binding (f a)) : Carries (m >>= f) b :=
  hm.bind_carries fun a => (hf a).carries

theorem single {m : Check (Expr × Value)} (h : Carries m b) : Carries (single m) b :=
  h.bind_quiet fun _ => (quiet_expectSingle _ _).bind fun _ => .pure _

end Carries

theorem Quiet.bind_carries (hm : Quiet .binding m) (hf : ∀ a, Carries (f a) b) :
    Carries (m >>= f) b :=
  Bool.false_or b ▸ hm.carries.bind hf

theorem Quiet.guard_carries {f : PUnit → Check β} {m : Check PUnit} {p : Prop} [Decidable p]
    (hm : Quiet .binding m) (hf : ∀ u, Carries (f u) b) :
    Carries (if p then m >>= f else f ⟨⟩) b := by
  split
  · exact hm.bind_carries hf
  · exact hf _

theorem carries_clearNarrowings : Carries clearNarrowings true := by
  intro c s o a s' hl hrun
  cases hrun
  exact .of_nil (.single ⟨.checking, .narrow s [] rfl⟩) rfl

/-- Whatever a check does to the list, it is cleared afterwards. -/
theorem Quiet.bind_clear (h : Quiet .checking m) (hf : ∀ a, Carries (f a) b) : Carries (do
    let a ← m
    clearNarrowings
    f a) true := by
  intro c s o r s' hl hrun
  obtain ⟨a, t, hfirst, hrun⟩ := bind_eq_ok hrun
  obtain ⟨hsteps, hl'⟩ := (h c s o hl).apply hfirst
  have hrest := carries_clearNarrowings.bind (fun _ => hf a) c t o r s' hl' hrun
  refine ⟨hsteps.route.trans hrest.route, nofun, fun _ hfatal => ?_⟩
  obtain ⟨u, hu, hnone, hlast⟩ := hrest.lost rfl hfatal
  exact ⟨u, hsteps.route.trans hu, hnone, hlast⟩

/-- Below an `or` the list is cut back to what was pending before. -/
theorem dropUnderOr_eq_ok {before : Nat} {span : Span} {r : Unit} (h : Live c s o)
    (hrun : dropUnderOr before span c s = .ok (r, s')) :
    Route c s s' ∧ ∀ pending : List Narrowing, pending.length = before →
      pending <+: s.narrowings → pending <+: s'.narrowings := by
  have hquiet : Quiet .checking (dropUnderOr before span) := quiet_dropUnderOr _ _
  refine ⟨((hquiet c s o h).apply hrun).1.route, fun pending hlength hsame => ?_⟩
  subst hlength
  obtain ⟨_, t, hget, hrun⟩ := bind_eq_ok (m := get) hrun
  cases hget
  dsimp only at hrun
  split at hrun
  · obtain ⟨_, v, hreport, hcut⟩ := bind_eq_ok (m := report _ _) hrun
    cases hreport
    cases hcut
    exact List.prefix_take_iff.2 ⟨hsame, Nat.le_refl _⟩
  · cases hrun
    exact hsame

/-! ## Bodies -/

/-- After a body with a statement nothing is pending. -/
theorem narrowings_body_cons {first : Stmt} {rest out : List Stmt} {reported : Bool}
    (h : body (first :: rest) reported c s = .ok (out, s')) : s'.narrowings = [] := by
  obtain ⟨first', t, -, hend | hrest⟩ := body_cons_eq_ok h
  · exact hend.2
  · obtain ⟨u, rest', reported', hu, hrun, -⟩ := hrest
    exact narrowings_body hu hrun

/-- A body inside a scope that is opened and closed around it. -/
theorem Carried.of_body (hroute : Route c s s') {stmts out : List Stmt}
    (hbefore : t.narrowings = s.narrowings) (hrun : body stmts false c t = .ok (out, u))
    (hafter : s'.narrowings = u.narrowings) : Carried c (!stmts.isEmpty) s s' := by
  cases stmts with
  | nil =>
    cases hrun
    exact .of_eq hroute (hafter.trans hbefore)
  | cons first rest => exact .of_nil hroute (hafter.trans (narrowings_body_cons hrun))

theorem carries_inBranch (stmts : List Stmt) :
    Carries (inBranch (body stmts false)) (!stmts.isEmpty) := by
  intro c s o r s' hl hrun
  obtain ⟨hsteps, -⟩ := (runs_inBranch (leaves_body stmts false) hl).apply hrun
  obtain ⟨closed, hscope⟩ := inBranch_eq_ok hrun
  obtain ⟨t, hbody, hclosed⟩ := inScope_eq_ok hscope
  have hopened : (s.modifyOwn c fun env =>
    { env with scopes := env.scopes.push .plain .empty }).narrowings = s.narrowings := rfl
  exact .of_body hsteps.route hopened hbody hclosed

theorem carries_inFunction (signature : Signature) (params : List Param) (stmts : List Stmt)
    (span : Span) :
    Carries (inFunction signature params span (body stmts false)) (!stmts.isEmpty) := by
  intro c s o r s' hl hrun
  obtain ⟨hsteps, -⟩ :=
    (quiet_inFunction signature params span (leaves_body stmts false) c s o hl).apply hrun
  obtain ⟨p, t, hscope, hdone⟩ := bind_eq_ok (m := inScope _ _) hrun
  cases hdone
  obtain ⟨u, hinside, hclosed⟩ := inScope_eq_ok hscope
  obtain ⟨_, v, hparams, hinside⟩ := bind_eq_ok (m := bindParams _ _) hinside
  obtain ⟨out, w, hbody, hinside⟩ := bind_eq_ok (m := body _ _) hinside
  have hopened : Live c (s.modifyOwn c fun env =>
      { env with scopes := env.scopes.pushFunction ⟨signature.generics, signature.returns⟩ })
      (o.cons (o.funcScope _)) :=
    hl.modifyOwn fun env _ ho => ⟨rfl, ho ▸ (env.scopes.pushFunction_opens _).1⟩
  have hquiet : Quiet .binding (bindParams params signature.params) := quiet_bindParams _ _
  have hbound : v.narrowings = s.narrowings :=
    (Steps.narrowings_eq rfl ((hquiet c _ _ hopened).apply hparams).1 :)
  have hend : u.narrowings = w.narrowings := by
    obtain ⟨stack, x, hscopes, hreturns⟩ := bind_eq_ok (m := scopes) hinside
    obtain ⟨rfl, -⟩ := scopes_eq_ok hscopes
    dsimp only at hreturns
    split at hreturns
    · obtain ⟨_, y, hreport, hdone⟩ := bind_eq_ok (m := report _ _) hreturns
      cases hreport
      cases hdone
      rfl
    · cases hreturns
      rfl
  exact .of_body hsteps.route hbound hbody (hclosed.trans hend)

/-- Opening a scope around a check and closing it leaves what is pending alone. -/
theorem Carries.pushed (hm : Carries m b) (tag : ScopeTag) (added : Permissions) :
    Carries (inScope (·.push tag added) m) b := by
  have hclose : Carries closeScope false := by
    intro c s o r s' hl hrun
    obtain ⟨stack, t, hscopes, hrun⟩ := bind_eq_ok (m := scopes) hrun
    obtain ⟨rfl, env, hown, rfl⟩ := scopes_eq_ok hscopes
    cases hclosed : env.scopes.close? with
    | none =>
      simp only [hclosed] at hrun
      cases hrun
      exact .of_eq .refl rfl
    | some r =>
      simp only [hclosed] at hrun
      obtain ⟨_, u, hset, hdone⟩ := bind_eq_ok hrun
      obtain rfl := modifyEnvironment_eq_ok hset
      cases hdone
      have hedit : Edit c .checking t fun env => { env with scopes := r.2 } :=
        .scopes (fun _ => r.2) fun env' hown' => by
          obtain rfl : env = env' := Option.some.inj (hown.symm.trans hown')
          exact .of_bindings_eq _ (ScopeStack.rootBindings_close? hclosed)
      exact .of_eq (.single ⟨.checking, .edit t _ hedit (.inr fun _ => rfl)⟩) rfl
  intro c s o r s' hl hrun
  obtain ⟨_, t, hopen, hrun⟩ := bind_eq_ok (m := modifyScopes _) hrun
  obtain rfl := modifyEnvironment_eq_ok hopen
  have hroute := route_push c s tag added
  obtain ⟨-, o', hl'⟩ := Route.frames hl hroute
  have hrest : Carries (do
      let result ← m
      let closed ← closeScope
      pure (result, closed)) b :=
    hm.bind_carries fun _ => hclose.bind_quiet fun _ => .pure _
  have hfirst : Carried c false s _ := .of_eq hroute rfl
  exact Bool.false_or b ▸ hfirst.trans (hrest c _ o' r s' hl' hrun)

/-! ## Expressions -/

/-- The value of a match is made of what its scope collected. -/
theorem carries_matchValue (arms : ArmCount) (closed : Option Scope) (span : Span) :
    Carries (matchValue arms closed span) false := by
  intro c s o r s' hl hrun
  have hroute := ((quiet_matchValue arms closed span c s o hl).apply hrun).1.route
  have hreport (kind : AlertKind) {p : Prop} [Decidable p] {f : PUnit → Check (Nat × Value)}
      {s : State} {r : Nat × Value} (hrest : ∀ u v, f u c v = .ok (r, s') →
        s'.narrowings = v.narrowings)
      (hrun : (if p then report kind span >>= f else f ⟨⟩) c s = .ok (r, s')) :
      s'.narrowings = s.narrowings := by
    split at hrun
    · obtain ⟨_, v, hfirst, hrun⟩ := bind_eq_ok hrun
      have hsame : v.narrowings = s.narrowings := by
        cases hfirst
        rfl
      exact (hrest _ v hrun).trans hsame
    · exact hrest _ _ hrun
  have hsame : s'.narrowings = s.narrowings := by
    refine hreport _ (fun _ _ hrun => hreport _ (fun _ _ hrun => hreport _ (fun _ _ hrun => ?_)
      hrun) hrun) hrun
    split at hrun <;> cases hrun <;> rfl
  exact .of_eq hroute hsame

theorem carries_entityTest (ty : TypeExpr) (binding : Option Ident) (negated : Bool)
    (span : Span) : Carries (entityTest ty binding negated span) false := by
  intro c s o r s' hl hrun
  have hcollects := collects_entityTest (.error span) ty binding negated span
  obtain ⟨hroute, -, new, hnew, -⟩ := (hcollects c s o hl).apply hrun
  exact ⟨hroute, fun _ => ⟨new, hnew.symm⟩, nofun⟩

/-- After the method was looked up the build has failed, or there are arguments to walk. -/
theorem carries_calledMethod {owner : DeclRef} {kind : NamedKind} {method : Ident}
    {f : CalledMethod → Check β} (hf : ∀ found, found ≠ .ownerless → Carries (f found) b)
    (hnone : Quiet .binding (f .ownerless)) : Carries (calledMethod owner kind method >>= f) b := by
  intro c s o r s' hl hrun
  obtain ⟨found, t, hfound, hrun⟩ := bind_eq_ok hrun
  have hquiet : Quiet .binding (calledMethod owner kind method) := quiet_calledMethod _ _ _
  have hbefore := hquiet.carries c s o found t hl hfound
  obtain ⟨-, o', hl'⟩ := Route.frames hl hbefore.route
  by_cases hownerless : found = .ownerless
  · subst hownerless
    have hfailed : t.fatal ≠ none := by
      obtain ⟨members, u, -, hlooked⟩ := bind_eq_ok (m := members? owner kind) hfound
      cases members with
      | none =>
        cases hlooked
        simp
      | some members =>
        cases hmethod : members.method? method.name <;> simp only [hmethod] at hlooked <;>
          cases hlooked
    have hafter := hnone.carries c t o' r s' hl' hrun
    have hall := hbefore.trans hafter
    exact ⟨hall.route, fun _ => hall.kept rfl, fun _ hfatal =>
      absurd hfatal (hafter.route.fatal_ne hfailed)⟩
  · exact Bool.false_or b ▸ hbefore.trans (hf found hownerless c t o' r s' hl' hrun)

/-- An `or`: what is pending before it is kept, unless one of its operands forgets it. -/
theorem carries_or {left right : Expr} {span : Span} (hint : Option Ty)
    (hleft : ∀ hint, Carries (expr left hint) b) (hright : ∀ hint, Carries (expr right hint) b') :
    Carries (expr (.binary left .or right span) hint) (b || b') := by
  intro c s o r s' hl hrun
  obtain ⟨_, t, hget, hrun⟩ := bind_eq_ok (m := get) hrun
  cases hget
  obtain ⟨l, t, hleftRun, hrun⟩ := bind_eq_ok (m := single (expr left none)) hrun
  obtain ⟨x, u, hrightRun, hrun⟩ := bind_eq_ok (m := single (expr right _)) hrun
  obtain ⟨_, v, hdrop, hrun⟩ := bind_eq_ok (m := dropUnderOr _ _) hrun
  have hfirst := (hleft none).single c s o l t hl hleftRun
  obtain ⟨-, o₁, hl₁⟩ := Route.frames hl hfirst.route
  have hboth := hfirst.trans ((hright _).single c t o₁ x u hl₁ hrightRun)
  obtain ⟨-, o₂, hl₂⟩ := Route.frames hl hboth.route
  obtain ⟨hroute, hcut⟩ := dropUnderOr_eq_ok hl₂ hdrop
  obtain ⟨-, o₃, hl₃⟩ := Route.frames hl₂ hroute
  have hvalue : Quiet .binding (do
      let value ← binaryValue .or l.2 x.2 span
      return (Expr.binary l.1 .or x.1 span, value)) :=
    (quiet_binaryValue _ _ _ _).bind fun _ => .pure _
  have hlast := hvalue.carries c v o₃ r s' hl₃ hrun
  have hdropped : Carried c (b || b') s v := by
    refine ⟨hboth.route.trans hroute, fun hkept => hcut _ rfl (hboth.kept hkept),
      fun hlost hfatal => ?_⟩
    have hbefore : u.fatal = none := by_contra fun hne => hroute.fatal_ne hne hfatal
    obtain ⟨w, hw, hnone, hrest⟩ := hboth.lost hlost hbefore
    exact ⟨w, hw, hnone, hrest.trans hroute⟩
  exact Bool.or_false (b || b') ▸ hdropped.trans hlast

/-- Whether one of several expressions forgets. -/
def forgetWeights : Weighing Bool where
  expr := Expr.forgets
  join := (· || ·)
  nothing := false

theorem forgets_of_children (e : Expr) (h : e.isOrdinary = true) :
    e.forgets = forgetWeights.all e.children := by
  have hlist := forgetWeights.eq_all Expr.anyForgets rfl fun _ _ => rfl
  have hentries := forgetWeights.eq_all_values MapEntry.anyForgets rfl fun _ _ _ => rfl
  cases e with
  | function | matching | entityTest => cases h
  | list | new | spawn => exact hlist _
  | map => exact hentries _
  | call caller _ args | methodCall caller _ _ _ _ args =>
    exact congrArg (caller.forgets || ·) (hlist args)
  | binary left _ right | member left right =>
    exact congrArg (left.forgets || ·) (Bool.or_false _).symm
  | unary | group | field => exact (Bool.or_false _).symm
  | _ => rfl

theorem weighs_carries : Weighs forgetWeights fun m forgets => Carries m forgets where
  own h := (h .binding).carries
  bind h hf := h.bind hf
  method owner kind method hfound hmissing hownerless := by
    refine carries_calledMethod (fun found hne => ?_) (hownerless .binding)
    cases found with
    | found signature => exact hfound signature
    | missing => exact hmissing
    | ownerless => exact absurd rfl hne
  join_nothing := Bool.or_false
  nothing_join := Bool.false_or
  ordinary := forgets_of_children
  or hint hleft hright := carries_or hint hleft hright
  test hint hvalue :=
    (hvalue none).single.bind_carries fun _ => (quiet_checkType _ _ _ _).bind_carries fun _ =>
      (carries_entityTest _ _ _ _).bind_quiet fun _ => .pure _

/-- The arms forget what is pending if one of them does. The patterns of an arm need no recursion:
what they do to the list does not matter, since it is cleared after them. -/
theorem carries_matchArms (arms : List MatchArm) (subject : Ty) :
    Carries (matchArms arms subject) (arms.any (·.forgets)) := by
  induction arms with
  | nil => exact (Quiet.pure _).carries
  | cons arm rest hrest =>
    obtain ⟨pats, isDefault, stmts, span⟩ := arm
    rw [List.any_cons]
    unfold matchArms
    dsimp only
    cases isDefault with
    | true =>
      refine Quiet.guard_carries (quiet_report _ _ rfl) fun _ => (Quiet.pure _).bind_carries fun _ => ?_
      exact (carries_inBranch stmts).bind fun _ => hrest.bind_quiet fun _ => .pure _
    | false =>
      have hpatterns : Quiet .checking (patterns pats subject) := quiet_patterns pats subject
      exact hpatterns.bind_clear fun _ => (Quiet.pure _).bind_carries fun _ =>
        (carries_inBranch stmts).bind fun _ => hrest.bind_quiet fun _ => .pure _

theorem carries_expr (e : Expr) (hint : Option Ty) : Carries (expr e hint) e.forgets := by
  induction e using Expr.induction generalizing hint with
  | expr e ih =>
    refine weighs_carries.of_children ih hint fun hbody => ?_
    cases e with
    | function params returns stmts span =>
      exact (quiet_resolveSignature _ _ _).bind_carries fun _ =>
        (carries_inFunction _ _ _ _).bind_quiet fun _ => .pure _
    | matching subject arms returnAmount span =>
      have hsubject := (ih subject (List.mem_singleton_self _) none).single
      have harms (ty : Ty) := (carries_matchArms arms ty).pushed (.matchExpr {}) { yields := true }
      exact hsubject.bind fun _ => (harms _).bind_carries fun _ =>
        (carries_matchValue _ _ _).bind_quiet fun _ => .pure _
    | _ => cases hbody

/-! ## Conditions -/

/-- The entity of the program that a test asks for, after its value is walked. There is none if the
type is an entity of the engine or no entity. -/
def testedEntity (value : Expr) (ty : TypeExpr) : Check (Option DeclRef) := do
  let (value, tested) ← single (expr value none)
  checkType .rawEntity tested.ty "entity evaluation" value.span
  let isEngine ←
    if ty.env.isNone && isOfficialEntity ty.name.name then
      pure (!(← environment).declaresType ty.name.name)
    else pure false
  if isEngine then return none
  match ← resolveType ty with
  | .named env name .entityDecl => return some ⟨env, name⟩
  | _ => return none

/-- A part of a call is visited by it. -/
theorem Visits.of_part {task task' : Task} {part : Part} {regions : List Region}
    (hpart : part ∈ taskParts task) (hrun : part c s = .ok (some (regions, task'), s')) :
    Visits c task s regions task' s' :=
  .into hpart hrun (.here _ _)

/-- A test that binds a name leaves it pending, if it asks for an entity of the program. -/
theorem entityTest_eq_ok {value : Expr} {ty : TypeExpr} {id : Ident} {negated official : Bool}
    {span : Span} {hint : Option Ty} {r : Expr × Value}
    (hrun : expr (.entityTest value ty (some id) negated official span) hint c s = .ok (r, s')) :
    ∃ entity t, testedEntity value ty c s = .ok (entity, t) ∧
      ∀ ref, entity = some ref → ⟨id, ref, negated⟩ ∈ s'.narrowings := by
  obtain ⟨tested, t, hvalue, hrun⟩ := bind_eq_ok (m := single (expr value none)) hrun
  obtain ⟨_, u, hcheck, hrun⟩ := bind_eq_ok (m := checkType _ _ _ _) hrun
  obtain ⟨isEngine, v, htest, hrun⟩ := bind_eq_ok (m := entityTest _ _ _ _) hrun
  cases hrun
  unfold testedEntity
  rw [bind_apply_ok hvalue]
  dsimp only
  rw [bind_apply_ok hcheck]
  unfold entityTest at htest
  -- Whether the type may be one of the engine or not, what follows is the same.
  split at htest
  case' isTrue hofficial =>
    obtain ⟨env, w, henv, htest⟩ := bind_eq_ok (m := environment) htest
    rw [if_pos hofficial, bind_apply_ok henv]
    revert htest
    generalize (!env.declaresType ty.name.name) = engine
  case' isFalse hofficial =>
    rw [if_neg hofficial]
    revert htest
    generalize false = engine, u = w
  all_goals
    intro htest
    cases engine with
    | true => exact ⟨none, w, rfl, by simp⟩
    | false =>
      simp only [pure_bind, Bool.false_eq_true, if_false] at htest ⊢
      obtain ⟨resolved, y, hresolve, htest⟩ := bind_eq_ok (m := resolveType ty) htest
      rw [bind_apply_ok hresolve]
      split
      · next env name =>
        cases htest
        refine ⟨_, y, rfl, fun ref href => ?_⟩
        cases href
        exact List.mem_append_right _ (List.mem_singleton_self _)
      · exact ⟨none, y, rfl, by simp⟩

/-- A single value is what the expression gives, and asking for it keeps what is pending. -/
theorem single_run_quiet {m : Check (Expr × Value)} (hm : Quiet .checking m) (h : Live c s o)
    {r : Expr × Value} (hrun : single m c s = .ok (r, s')) :
    ∃ a t, m c s = .ok (a, t) ∧ Live c t o ∧ Carried c false t s' := by
  obtain ⟨a, t, hfirst, hrest⟩ := bind_eq_ok (m := m) hrun
  obtain ⟨-, hl⟩ := (hm c s o h).apply hfirst
  have hquiet : Quiet .binding (do
      let value ← expectSingle a.2 a.1.span
      return (a.1, value)) := (quiet_expectSingle _ _).bind fun _ => .pure _
  exact ⟨a, t, hfirst, hl, hquiet.carries c t o r s' hl hrest⟩

/-- The walk of a conjunction comes to each of its operands. What is pending after an operand is
pending at the end, if no later operand forgets it. -/
theorem operand_eq_ok {condition e : Expr} {before after : List Expr} {hint : Option Ty}
    {r : Expr × Value} (h : Live c s o) (hrun : expr condition hint c s = .ok (r, s'))
    (hoperands : condition.operands = before ++ e :: after) :
    ∃ hint' t r' u, Visits c (.expr condition hint) s [] (.expr e hint') t ∧ Route c t u ∧
      expr e hint' c t = .ok (r', u) ∧ Carried c (after.any (·.forgets)) u s' := by
  fun_induction Expr.operands condition generalizing before after hint r s s' o with
  | case1 left right span ihleft ihright =>
    obtain ⟨_, t, hget, hrun⟩ := bind_eq_ok (m := get) hrun
    cases hget
    obtain ⟨l, t, hleft, hrun⟩ := bind_eq_ok (m := single (expr left none)) hrun
    obtain ⟨x, u, hright, hrun⟩ := bind_eq_ok (m := single (expr right _)) hrun
    obtain ⟨l', t', hleft', hl', hsingle⟩ := single_run_quiet (quiet_expr left none) h hleft
    obtain ⟨-, o₁, hl₁⟩ := Route.frames hl' hsingle.route
    obtain ⟨x', u', hright', hl₂, hsingle'⟩ := single_run_quiet (quiet_expr right _) hl₁ hright
    obtain ⟨-, o₂, hl₃⟩ := Route.frames hl₂ hsingle'.route
    have hvalue : Quiet .binding (do
        let value ← binaryValue .and l.2 x.2 span
        return (Expr.binary l.1 .and x.1 span, value)) :=
      (quiet_binaryValue _ _ _ _).bind fun _ => .pure _
    have hend := hsingle'.trans (hvalue.carries c u o₂ r s' hl₃ hrun)
    obtain ⟨mid, hmid⟩ | ⟨mid, hmid, rfl⟩ : (∃ mid, right.operands = mid ++ e :: after) ∨
        ∃ mid, left.operands = before ++ e :: mid ∧ after = mid ++ right.operands := by
      rcases List.append_eq_append_iff.1 hoperands with ⟨mid, -, hmid⟩ | ⟨mid, hmid, hafter⟩
      · exact .inl ⟨mid, hmid⟩
      · cases mid with
        | nil => exact .inl ⟨[], hafter.symm⟩
        | cons first mid =>
          cases hafter
          exact .inr ⟨mid, hmid, rfl⟩
    · obtain ⟨hint', v, r', w, hvisits, hroute, hwalk, hpending⟩ := ihright hl₁ hright' hmid
      have hpart : (do
          let (_, value) ← single (expr left none)
          Part.here (.expr right (some value.ty)) : Part) c s =
            .ok (some ([], .expr right (some l.2.ty)), t) := bind_apply_ok hleft
      refine ⟨hint', v, r', w, ?_, hroute, hwalk, by simpa using hpending.trans hend⟩
      exact .into (.tail _ (.head _)) hpart hvisits
    · -- The right side is walked after the operand.
      obtain ⟨hint', v, r', w, hvisits, hroute, hwalk, hpending⟩ := ihleft h hleft' hmid
      have hlater := carries_expr right _ c t o₁ x' u' hl₁ hright'
      rw [Expr.forgets_eq_any_operands] at hlater
      refine ⟨hint', v, r', w, .into (.head _) rfl hvisits,
        hroute, hwalk, ?_⟩
      simpa using ((hpending.trans hsingle).trans hlater).trans hend
  | case2 inner span ih =>
    obtain ⟨x, t, hinner, hrun⟩ := bind_eq_ok (m := expr inner hint) hrun
    cases hrun
    obtain ⟨hint', v, r', w, hvisits, hroute, hwalk, hpending⟩ := ih h hinner hoperands
    exact ⟨hint', v, r', w, .into (.head _) rfl hvisits,
      hroute, hwalk, hpending⟩
  | case3 other =>
    obtain ⟨rfl, rfl, rfl⟩ : before = [] ∧ e = other ∧ after = [] := by
      simpa [List.singleton_eq_append_iff] using hoperands
    obtain ⟨hsteps, -⟩ := (quiet_expr e hint c s o h).apply hrun
    exact ⟨hint, s, r, s', .here _ _, hsteps.route, hrun, .of_eq .refl rfl⟩

/-! ## Branches -/

/-- What the innermost scope of the own environment binds a name to. -/
def State.bound? (c : Context) (s : State) (name : String) : Option Value := do
  let env ← s.own? c
  let v ← env.scopes.current.bindings.get? name
  return v.value

theorem binds_iff {name : String} {value : Value} :
    s.Binds c name value ↔ s.bound? c name = some value := by
  simp [State.Binds, State.bound?, Option.bind_eq_some_iff]

/-- A declaration binds its name, if the name is not bound yet. -/
theorem bound?_declare {binding : Variable} {what : String} {r : Unit}
    (hrun : declare binding what c s = .ok (r, s')) (name : String) :
    s'.bound? c name =
      (s.bound? c name).or (if name = binding.name then some binding.value else none) := by
  obtain ⟨stack, t, hscopes, hrun⟩ := bind_eq_ok (m := scopes) hrun
  obtain ⟨rfl, env, hown, rfl⟩ := scopes_eq_ok hscopes
  unfold State.bound?
  cases hdeclared : env.scopes.current.bindings.get? binding.name with
  | some existing =>
    simp only [ScopeStack.declare, Scope.declare, hdeclared, Except.map] at hrun
    have hsame : s'.own? c = some env := by
      cases hrun
      exact hown
    by_cases hname : name = binding.name
    · subst hname
      simp [hsame, hown, hdeclared]
    · simp [hsame, hown, hname]
  | none =>
    simp only [ScopeStack.declare, Scope.declare, hdeclared, Except.map] at hrun
    obtain rfl := modifyEnvironment_eq_ok hrun
    rw [own?_modifyOwn]
    by_cases hname : name = binding.name
    · subst hname
      simp [hown, hdeclared, Table.get?_insert]
    · simp [hown, hname, Table.get?_insert]

/-- The narrowing that gives a name its entity: the first one of the polarity. -/
def firstNarrowing? (narrowings : List Narrowing) (negated : Bool) (name : String) :
    Option Narrowing :=
  narrowings.find? fun n => n.negated == negated && n.name.name == name

theorem bound?_declareNarrowings {narrowings : List Narrowing} {negated : Bool} {r : Unit}
    (hrun : declareNarrowings narrowings negated c s = .ok (r, s')) (name : String) :
    s'.bound? c name = (s.bound? c name).or
      ((firstNarrowing? narrowings negated name).map (.entityObject ·.entity)) := by
  unfold declareNarrowings at hrun
  induction narrowings generalizing s with
  | nil =>
    cases hrun
    simp [firstNarrowing?]
  | cons n rest ih =>
    by_cases hpolarity : n.negated = negated
    · rw [List.filter_cons_of_pos (by simpa using hpolarity)] at hrun
      obtain ⟨_, t, hfirst, hrest⟩ := bind_eq_ok (m := declareNarrowing n) hrun
      rw [ih hrest, bound?_declare hfirst, Option.or_assoc]
      by_cases hname : n.name.name = name
      · simp [firstNarrowing?, hpolarity, hname]
      · simp [firstNarrowing?, hname, Ne.symm hname]
    · rw [List.filter_cons_of_neg (by simpa using hpolarity)] at hrun
      rw [ih hrun]
      simp [firstNarrowing?, hpolarity]

/-- The names in a new scope after narrowings were declared in it. -/
theorem runs_narrowedScope (h : Live c s o) (tag : ScopeTag) (added : Permissions)
    (narrowings : List Narrowing) {f : Part} {found : List Region × Task}
    (hf : ∀ v, f c v = .ok (some found, v)) :
    ∃ v, (do
      modifyScopes (·.push tag added)
      declareNarrowings narrowings false
      f) c s = .ok (some found, v) ∧ ∀ name, v.bound? c name =
        (firstNarrowing? narrowings false name).map (.entityObject ·.entity) := by
  obtain ⟨env, hown, -⟩ := h.own
  have hquiet : Quiet .binding (declareNarrowings narrowings false) := quiet_declareNarrowings _ _
  obtain ⟨_, v, hdeclare, -⟩ := hquiet c _ _ (h.push tag added)
  refine ⟨v, ?_, fun name => ?_⟩
  · rw [bind_apply_ok (modifyScopes_eq hown _), bind_apply_ok hdeclare, hf]
  · rw [bound?_declareNarrowings hdeclare, State.bound?, own?_modifyOwn, hown]
    rfl

/-- The innermost scope has a name for the entity, unless another of the narrowings that are
declared there has the name. -/
def NamedIn (c : Context) (narrowings : List Narrowing) (id : Ident) (ref : DeclRef)
    (s : State) : Prop :=
  s.Binds c id.name (.entityObject ref) ∨ ∃ n ∈ narrowings, n.negated = false ∧
    n.name.name = id.name ∧ n.entity ≠ ref ∧ s.Binds c id.name (.entityObject n.entity)

theorem namedIn_of_mem {narrowings : List Narrowing} {id : Ident} {ref : DeclRef}
    (hmem : ⟨id, ref, false⟩ ∈ narrowings)
    (h : ∀ name, s.bound? c name =
      (firstNarrowing? narrowings false name).map (.entityObject ·.entity)) :
    NamedIn c narrowings id ref s := by
  have hsome : (firstNarrowing? narrowings false id.name).isSome := by
    rw [firstNarrowing?, List.find?_isSome]
    exact ⟨_, hmem, by simp⟩
  obtain ⟨n, hn⟩ := Option.isSome_iff_exists.1 hsome
  have hbinds : s.Binds c id.name (.entityObject n.entity) := by
    rw [binds_iff, h, hn]
    rfl
  obtain ⟨hnegated, hname⟩ : n.negated = false ∧ n.name.name = id.name := by
    simpa using List.find?_some hn
  by_cases hentity : n.entity = ref
  · exact .inl (hentity ▸ hbinds)
  · exact .inr ⟨n, List.mem_of_find?_eq_some hn, hnegated, hname, hentity, hbinds⟩

/-- The walk of a condition, and what is taken over after it. -/
theorem runs_condition (h : Live c s o) (condition : Expr) :
    ∃ r t narrowings s', expr condition none c s = .ok (r, t) ∧
      Part.condition condition c s = .ok (narrowings, s') ∧ Live c s' o ∧
      Route c t s' ∧ t.narrowings <+: narrowings := by
  have hexpr : Quiet .checking (single (expr condition none)) := (quiet_expr condition none).single
  obtain ⟨p, u, hsingle, -, hl⟩ := hexpr c s o h
  obtain ⟨r, t, hwalk, -, hpending⟩ := single_run_quiet (quiet_expr condition none) h hsingle
  have hcheck : Quiet .binding (checkType .bool p.2.ty "condition" p.1.span) :=
    quiet_checkType _ _ _ _
  obtain ⟨_, v, hchecked, hsteps, hl'⟩ := hcheck c u o hl
  have hclear : Route c v { v with narrowings := [] } := .single ⟨.checking, .narrow v [] rfl⟩
  refine ⟨r, t, v.narrowings, { v with narrowings := [] }, hwalk, ?_, hl'.of_envs_eq rfl,
    (hpending.route.trans hsteps.route).trans hclear, ?_⟩
  · exact (bind_apply_ok hsingle).trans (bind_apply_ok hchecked)
  · rw [hsteps.narrowings_eq rfl]
    exact hpending.kept rfl

/-- A name that an operand of a conjunction binds is declared in the branch or loop of the
condition, if no later operand forgets what is pending. Otherwise nothing is pending somewhere
after the test. The bodies are those of a chain, of an `elseif` and of a loop; in each of them the
first narrowing of a name counts. -/
theorem kept_narrowings (h : Live c s o) {condition value : Expr} {ty : TypeExpr} {id : Ident}
    {official : Bool} {span : Span} {before after : List Expr}
    (hoperands : condition.operands =
      before ++ .entityTest value ty (some id) false official span :: after) :
    ∃ hint t entity u narrowings s',
      Visits c (.expr condition none) s []
        (.expr (.entityTest value ty (some id) false official span) hint) t ∧
      testedEntity value ty c t = .ok (entity, u) ∧
      Part.condition condition c s = .ok (narrowings, s') ∧
      ((∀ e ∈ after, e.forgets = false) → ∀ ref, entity = some ref → ∀ stmts,
        (∃ v, (∀ elseifs otherwise span,
          Visits c (.stmt (.ifChain condition stmts elseifs otherwise span)) s [.block, .block]
            (.body stmts false) v) ∧ NamedIn c narrowings id ref v) ∧
        (∃ v, (∀ rest span, Visits c (.elseIfs (⟨condition, stmts, span⟩ :: rest)) s [.block]
          (.body stmts false) v) ∧ NamedIn c narrowings id ref v) ∧
        ∃ v, (∀ span, Visits c (.stmt (.whileLoop condition stmts span)) s [.loop]
          (.body stmts false) v) ∧ NamedIn c narrowings id ref v) ∧
      ((∃ e ∈ after, e.forgets = true) → s'.fatal = none →
        ∃ v, Route c t v ∧ v.narrowings = [] ∧ Route c v s') := by
  obtain ⟨r, w, narrowings, s', hwalk, hcondition, hl, hroute, htaken⟩ :=
    runs_condition h condition
  obtain ⟨hint, t, r', u, hvisits, hafter, htest, hpending⟩ := operand_eq_ok h hwalk hoperands
  obtain ⟨entity, v, htested, hentity⟩ := entityTest_eq_ok htest
  refine ⟨hint, t, entity, v, narrowings, s', hvisits, htested, hcondition,
    fun hkept ref href stmts => ?_, fun hlost hfatal => ?_⟩
  · have hmem : ⟨id, ref, false⟩ ∈ narrowings := by
      have hforgets : after.any (·.forgets) = false := by simpa using hkept
      exact htaken.subset ((hpending.kept hforgets).subset (hentity ref href))
    obtain ⟨env, hown, -⟩ := hl.own
    refine ⟨?_, ?_, ?_⟩
    · obtain ⟨x, hrun, hbound⟩ := runs_narrowedScope (hl.push (.multiPath {}) .empty) .plain .empty
        narrowings (f := Part.inside [.block, .block] (.body stmts false)) fun _ => rfl
      refine ⟨x, fun elseifs otherwise span => ?_, namedIn_of_mem hmem hbound⟩
      refine .of_part (.tail _ (.head _)) ?_
      exact (bind_apply_ok hcondition).trans ((bind_apply_ok (modifyScopes_eq hown _)).trans hrun)
    · obtain ⟨x, hrun, hbound⟩ := runs_narrowedScope hl .plain .empty narrowings
        (f := Part.inside [.block] (.body stmts false)) fun _ => rfl
      refine ⟨x, fun rest span => ?_, namedIn_of_mem hmem hbound⟩
      refine .of_part (.tail _ (.head _)) ?_
      exact (bind_apply_ok hcondition).trans hrun
    · obtain ⟨x, hrun, hbound⟩ := runs_narrowedScope hl .loop .ofLoop narrowings
        (f := Part.inside [.loop] (.body stmts false)) fun _ => rfl
      refine ⟨x, fun span => ?_, namedIn_of_mem hmem hbound⟩
      refine .of_part (.tail _ (.head _)) ?_
      exact (bind_apply_ok hcondition).trans hrun
  · have hforgets : after.any (·.forgets) = true := List.any_eq_true.2 hlost
    have hbefore : w.fatal = none := by_contra fun hne => hroute.fatal_ne hne hfatal
    obtain ⟨x, hx, hnone, hrest⟩ := hpending.lost hforgets hbefore
    exact ⟨x, hafter.trans hx, hnone, hrest.trans hroute⟩

/-- The walk of an expression without parts comes to nothing else. -/
theorem Visits.eq_of_leaf {e : Expr} {hint : Option Ty} {regions : List Region} {task : Task}
    (h : Visits c (.expr e hint) s regions task t) (hleaf : exprParts hint e = []) :
    task = .expr e hint ∧ t = s := by
  cases h with
  | here => exact ⟨rfl, rfl⟩
  | into hpart =>
    rw [taskParts, hleaf] at hpart
    cases hpart

/-- The condition `e is Ship as s and true`. -/
def isShipAndTrue : Expr :=
  .binary (isShip (some ⟨"s", .synthetic⟩)) .and (.literal ⟨.bool, "true", .synthetic⟩) .synthetic

/-- The walk of the condition comes to the test first. -/
theorem visits_isShipAndTrue {hint : Option Ty} {regions : List Region} (h : Visits c
    (.expr isShipAndTrue none) s regions (.expr (isShip (some ⟨"s", .synthetic⟩)) hint) t) :
    t = s := by
  cases h with
  | into hpart hrun hrest =>
    rcases List.mem_pair.1 hpart with rfl | rfl
    · cases hrun
      cases hrest with
      | here => rfl
      | into hpart hrun hrest =>
        obtain rfl := List.mem_singleton.1 hpart
        cases hrun
        obtain ⟨htask, -⟩ := Visits.eq_of_leaf hrest rfl
        cases htask
    · obtain ⟨r, u, -, hrun⟩ := bind_eq_ok hrun
      cases hrun
      obtain ⟨htask, -⟩ := Visits.eq_of_leaf hrest rfl
      cases htask

/-- The loop body of `while e is Ship as s and true` has `s` for the entity. -/
theorem kept_narrowings_ship :
    ∃ v, (∀ span, Visits ⟨.user 0, Session.walk 0⟩ (.stmt (.whileLoop isShipAndTrue
      [.error .synthetic] span)) shipState [.loop] (.body [.error .synthetic] false) v) ∧
      v.Binds ⟨.user 0, Session.walk 0⟩ "s" (.entityObject ⟨.user 0, "Ship"⟩) := by
  have hlive := walks_shipState.live 0
  have hoperands : isShipAndTrue.operands = [] ++ isShip (some ⟨"s", .synthetic⟩) ::
    [.literal ⟨.bool, "true", .synthetic⟩] := rfl
  obtain ⟨hint, t, entity, u, narrowings, s', hvisits, htested, hcondition, hkept, -⟩ :=
    kept_narrowings hlive hoperands
  obtain rfl := visits_isShipAndTrue hvisits
  have hentity : entity = some ⟨.user 0, "Ship"⟩ := by
    have hfound : (testedEntity (.ident ⟨"e", .synthetic⟩) (namedTypeExpr "Ship")
        ⟨.user 0, Session.walk 0⟩ shipState).toOption.map (·.1) =
          some (some ⟨.user 0, "Ship"⟩) := by decide +kernel
    rw [htested] at hfound
    exact Option.some.inj hfound
  have htaken : narrowings.map (·.entity) = [⟨.user 0, "Ship"⟩] := by
    have hfound : (Part.condition isShipAndTrue ⟨.user 0, Session.walk 0⟩
        shipState).toOption.map (·.1.map (·.entity)) = some [⟨.user 0, "Ship"⟩] := by decide +kernel
    rw [hcondition] at hfound
    exact Option.some.inj hfound
  obtain ⟨-, -, v, hbody, hnamed⟩ := hkept (by simp [Expr.forgets]) _ hentity [.error .synthetic]
  refine ⟨v, hbody, hnamed.resolve_right ?_⟩
  rintro ⟨n, hn, -, -, hother, -⟩
  have hship : n.entity ∈ narrowings.map (·.entity) := List.mem_map_of_mem hn
  rw [htaken, List.mem_singleton] at hship
  exact hother hship

end Check

/-- A match that gives a Boolean. -/
def matchedBool : Expr :=
  let bool (value : String) : Expr := .literal ⟨.bool, value, .synthetic⟩
  .matching (bool "true")
    [⟨[bool "true"], false, [.yielding [bool "true"] .synthetic], .synthetic⟩,
      ⟨[], true, [.yielding [bool "false"] .synthetic], .synthetic⟩] 0 .synthetic

/-- In the first branch of `if e is Ship as s and match ..` the name `s` is not declared. With the
operands the other way round it is. -/
theorem analyze_forgets_narrowing :
    analyzedCodes [("main.hyb", destroyingProgram
      (.binary matchedBool .and (isShip (some ⟨"s", .synthetic⟩)) .synthetic))] = some [[]] ∧
    analyzedCodes [("main.hyb", destroyingProgram
      (.binary (isShip (some ⟨"s", .synthetic⟩)) .and matchedBool .synthetic))] =
        some [[.undeclaredVariableAccess]] := by
  decide +kernel

end HybroidSema
