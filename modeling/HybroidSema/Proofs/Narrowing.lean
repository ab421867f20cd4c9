import HybroidSema.Proofs.Subexpressions
import HybroidSema.Proofs.Unreachable
import HybroidSema.Proofs.Sound

/-!
# Where narrowed names are declared

The names that the tests of a condition bind are collected while the condition is walked, and the
statement that the condition belongs to declares all that is pending then.

* `Narrowing.BoundBy`: a collected name comes from a test and stands for the entity that the type
  of the test names.
* `Check.Collects` and `collects_expr`: walking an expression adds the names of its own tests, for
  the expressions inside it add theirs. Below an `or` they are dropped again.
* `narrowed_eq_ok` and `body_cons_eq_ok`: the scope of a branch has the declared names and no
  others, and nothing is pending in it, nor after the first statement of a body.
* `condition_eq_ok`: where the condition decides its tests, what it declares holds.
* `narrows_where_decided`: chains and loops, and how far a pending name reaches.
* `analyze_narrows_below_negation`: below a negation the name is declared where the test fails.
-/

namespace HybroidSema

open Check

/-- The narrowing comes from a test, and its entity is what the written type stands for on the way
from a state. -/
structure Narrowing.BoundBy (c : Context) (s : State) (n : Narrowing) (t : EntityTest) : Prop where
  name : n.name = t.name
  negated : n.negated = t.negated
  entity : ∃ u u', Route c s u ∧
    resolveType t.ty c u = .ok (.named n.entity.env n.entity.name .entityDecl, u')

theorem Narrowing.BoundBy.of_route {c : Context} {s s' : State} {n : Narrowing} {t : EntityTest}
    (h : n.BoundBy c s' t) (hroute : Route c s s') : n.BoundBy c s t := by
  obtain ⟨u, u', hu, hresolved⟩ := h.entity
  exact ⟨h.name, h.negated, u, u', hroute.trans hu, hresolved⟩

namespace Check

variable {α β : Type} {m : Check α} {f : α → Check β} {c : Context} {s s' : State}
  {o : ScopeStack} {phase : Phase} {tests tests' : List EntityTest}

/-! ## What an expression collects -/

/-- The narrowings of the first state are kept, and what is added comes from the tests. -/
def Adds (c : Context) (tests : List EntityTest) (s s' : State) : Prop :=
  ∃ new, s'.narrowings = s.narrowings ++ new ∧ ∀ n ∈ new, ∃ t ∈ tests, n.BoundBy c s t

/-- A check that collects narrowings from the tests only. -/
def Collects (m : Check α) (tests : List EntityTest) : Prop :=
  ∀ c s o, Live c s o → Runs m c s fun _ s' =>
    Route c s s' ∧ Live c s' o ∧ Adds c tests s s'

theorem Adds.of_eq (h : s'.narrowings = s.narrowings) : Adds c tests s s' :=
  ⟨[], by simpa using h, by simp⟩

theorem Adds.trans {u : State} (h : Adds c tests s s') (hroute : Route c s s')
    (h' : Adds c tests s' u) : Adds c tests s u := by
  obtain ⟨new, heq, hnew⟩ := h
  obtain ⟨more, heq', hmore⟩ := h'
  refine ⟨new ++ more, by rw [heq', heq, List.append_assoc], fun n hn => ?_⟩
  rcases List.mem_append.1 hn with hn | hn
  · exact hnew n hn
  · obtain ⟨t, ht, hbound⟩ := hmore n hn
    exact ⟨t, ht, hbound.of_route hroute⟩

theorem Quiet.collects (h : Quiet .binding m) : Collects m tests := by
  intro c s o hl
  refine (h c s o hl).mono fun _ s' hs' => ?_
  exact ⟨hs'.1.route, hs'.2, .of_eq (hs'.1.narrowings_eq rfl)⟩

namespace Collects

theorem bind (hm : Collects m tests) (hf : ∀ a, Collects (f a) tests) :
    Collects (m >>= f) tests := by
  intro c s o hl
  refine (hm c s o hl).bind fun a t ht => ?_
  obtain ⟨hroute, hl', hadds⟩ := ht
  refine (hf a c t o hl').mono fun b u hu => ?_
  obtain ⟨hroute', hl'', hadds'⟩ := hu
  exact ⟨hroute.trans hroute', hl'', hadds.trans hroute hadds'⟩

theorem mono (h : Collects m tests) (hsub : tests ⊆ tests') : Collects m tests' := by
  intro c s o hl
  refine (h c s o hl).mono fun _ s' hs' => ?_
  obtain ⟨hroute, hl', new, heq, hnew⟩ := hs'
  refine ⟨hroute, hl', new, heq, fun n hn => ?_⟩
  obtain ⟨t, ht, hbound⟩ := hnew n hn
  exact ⟨t, hsub ht, hbound⟩

theorem guard {f : PUnit → Check β} {m : Check PUnit} {b : Prop} [Decidable b]
    (hm : Collects m tests) (hf : ∀ u, Collects (f u) tests) :
    Collects (if b then m >>= f else f ⟨⟩) tests := by
  split
  · exact hm.bind hf
  · exact hf _

theorem single {m : Check (Expr × Value)} (h : Collects m tests) : Collects (single m) tests :=
  h.bind fun _ => Quiet.collects ((quiet_expectSingle _ _).bind fun _ => .pure _)

end Collects

/-- A test that binds a name adds it if its type is an entity of the program. -/
theorem collects_entityTest (value : Expr) (ty : TypeExpr) (binding : Option Ident)
    (negated : Bool) (span : Span) : Collects (entityTest ty binding negated span)
      (binding.toList.map (⟨value, ty, ·, negated⟩)) := by
  unfold entityTest
  extract_lets engine done test
  have htest (isEngine : Bool) :
      Collects (test isEngine) (binding.toList.map (⟨value, ty, ·, negated⟩)) := by
    simp only [test, engine, done]
    split
    · exact .guard (quiet_report _ _ rfl).collects fun _ => (Quiet.pure _).collects
    · have hresolve : Quiet .binding (resolveType ty) := quiet_resolveType ty
      intro c s o hl
      obtain ⟨resolved, t, hrun, hsteps, hl'⟩ := hresolve c s o hl
      have hkept : t.narrowings = s.narrowings := hsteps.narrowings_eq rfl
      have hknown : Runs (resolveType ty) c s fun a u => a = resolved ∧ u = t :=
        ⟨resolved, t, hrun, rfl, rfl⟩
      refine hknown.bind ?_
      rintro found u ⟨hfound, hu⟩
      subst hfound hu
      split
      · next env name =>
        split
        · next id =>
          refine (runs_modify _).bind fun _ v hv => .pure ?_
          subst hv
          refine ⟨hsteps.route.tail ⟨.checking, .narrow _ _ rfl⟩, hl'.of_envs_eq rfl,
            [⟨id, ⟨env, name⟩, negated⟩], by rw [hkept], fun n hn => ?_⟩
          obtain rfl := List.mem_singleton.1 hn
          exact ⟨⟨value, ty, id, negated⟩, by simp, rfl, rfl, s, _, .refl, hrun⟩
        · exact .pure ⟨hsteps.route, hl', .of_eq hkept⟩
      · exact .pure ⟨hsteps.route, hl', .of_eq hkept⟩
      · have hreport : Quiet .binding (report (.typeMismatch .rawEntity found "entity evaluation")
            ty.span) := quiet_report _ _ rfl
        refine (hreport c u o hl').bind fun _ v hv => .pure ?_
        exact ⟨hsteps.route.trans hv.1.route, hv.2,
          .of_eq ((hv.1.narrowings_eq rfl).trans hkept)⟩
  split
  · exact (quiet_environment.collects).bind fun _ => htest _
  · exact htest false

/-- Below an `or` what was collected is forgotten. -/
theorem runs_dropUnderOr {before new : List Narrowing} (h : Live c s o)
    (hnarrowings : s.narrowings = before ++ new) (span : Span) :
    Runs (dropUnderOr before.length span) c s fun _ s' =>
      Route c s s' ∧ Live c s' o ∧ s'.narrowings = before := by
  refine runs_get.bind fun _ t ht => ?_
  obtain ⟨rfl, rfl⟩ := ht
  simp only [hnarrowings]
  split
  · have hreport : Quiet .checking (report .entityConversionWithOrCondition span) :=
      quiet_report _ _ rfl
    refine (hreport c _ o h).bind fun _ u hu => (runs_modify _).mono fun _ v hv => ?_
    subst hv
    exact ⟨hu.1.route.tail ⟨.checking, .narrow _ _ rfl⟩, hu.2.of_envs_eq rfl, by simp⟩
  · next hshort =>
    have hnil : new = [] := by
      rw [← List.length_eq_zero_iff]
      simp only [List.length_append] at hshort
      omega
    exact .pure ⟨.refl, h, by rw [hnarrowings, hnil, List.append_nil]⟩

/-- An `or`: what its operands collect is dropped. -/
theorem collects_or {left right : Expr} {span : Span} (hint : Option Ty)
    (hleft : ∀ hint, Collects (expr left hint) tests)
    (hright : ∀ hint, Collects (expr right hint) tests') :
    Collects (expr (.binary left .or right span) hint) [] := by
  intro c s o hl
  refine runs_get.bind fun _ t ht => ?_
  obtain ⟨rfl, rfl⟩ := ht
  refine ((hleft none).single c _ o hl).bind fun a t ht => ?_
  obtain ⟨hroute, hl₁, new, hnew, -⟩ := ht
  refine ((hright _).single c t o hl₁).bind fun b u hu => ?_
  obtain ⟨hroute₁, hl₂, more, hmore, -⟩ := hu
  rw [hnew, List.append_assoc] at hmore
  refine (runs_dropUnderOr hl₂ hmore span).bind fun _ v hv => ?_
  obtain ⟨hroute₂, hl₃, hdropped⟩ := hv
  have hvalue : Quiet .binding (do
      let value ← binaryValue .or a.2 b.2 span
      return (Expr.binary a.1 .or b.1 span, value)) :=
    (quiet_binaryValue _ _ _ _).bind fun _ => .pure _
  refine (hvalue c v o hl₃).mono fun _ w hw => ?_
  exact ⟨((hroute.trans hroute₁).trans hroute₂).trans hw.1.route, hw.2,
    .of_eq ((hw.1.narrowings_eq rfl).trans hdropped)⟩

/-- The tests of expressions in the order in which they are walked. -/
def testWeights : Weighing (List EntityTest) where
  expr := Expr.tests
  join := (· ++ ·)
  nothing := []

theorem tests_of_children (e : Expr) (h : e.isOrdinary = true) :
    e.tests = testWeights.all e.children := by
  have hlist := testWeights.eq_all Expr.allTests rfl fun _ _ => rfl
  have hentries := testWeights.eq_all_values MapEntry.allTests rfl fun _ _ _ => rfl
  cases e with
  | function | matching | entityTest => cases h
  | binary left op right span =>
    have hor : op ≠ .or := by
      rintro rfl
      cases h
    rw [Expr.tests, if_neg hor]
    exact congrArg (left.tests ++ ·) (List.append_nil _).symm
  | list | new | spawn => exact hlist _
  | map => exact hentries _
  | call caller _ args | methodCall caller _ _ _ _ args =>
    exact congrArg (caller.tests ++ ·) (hlist args)
  | member target index => exact congrArg (target.tests ++ ·) (List.append_nil _).symm
  | unary | group | field => exact (List.append_nil _).symm
  | _ => rfl

theorem weighs_collects : Weighs testWeights fun m tests => Collects m tests where
  own h := (h .binding).collects
  bind h hf := (h.mono (List.subset_append_left _ _)).bind fun a =>
    (hf a).mono (List.subset_append_right _ _)
  method owner kind method hfound hmissing hownerless := by
    refine (quiet_calledMethod owner kind method).collects.bind fun found => ?_
    cases found with
    | found signature => exact hfound signature
    | missing => exact hmissing
    | ownerless => exact (hownerless .binding).collects
  join_nothing := List.append_nil
  nothing_join := List.nil_append
  ordinary := tests_of_children
  or hint hleft hright := collects_or hint hleft hright
  test {value ty binding negated official span} hint hvalue := by
    have hbefore := (hvalue none).single.mono
      (List.subset_append_left _ (binding.toList.map (⟨value, ty, ·, negated⟩)))
    have htest := (collects_entityTest value ty binding negated span).mono
      (List.subset_append_right value.tests _)
    exact hbefore.bind fun _ => (quiet_checkType _ _ _ _).collects.bind fun _ =>
      htest.bind fun _ => (Quiet.pure _).collects

/-- An expression without bodies collects its own tests. -/
theorem collects_expr (e : Expr) (hint : Option Ty) (h : e.isPlain = true) :
    Collects (expr e hint) e.tests :=
  weighs_collects.of_isPlain e h hint

/-! ## Declaring names -/

/-- The innermost scope of the own environment binds a name to a value. -/
def State.Binds (c : Context) (s : State) (name : String) (value : Value) : Prop :=
  ∃ env v, s.own? c = some env ∧ env.scopes.current.bindings.get? name = some v ∧ v.value = value

theorem scopes_eq_ok {stack : ScopeStack} (h : scopes c s = .ok (stack, s')) :
    s' = s ∧ ∃ env, s.own? c = some env ∧ env.scopes = stack := by
  obtain ⟨env, t, henv, hrun⟩ := bind_eq_ok (m := environment) h
  obtain ⟨rfl, hown⟩ := environment_eq_ok henv
  cases hrun
  exact ⟨rfl, env, hown, rfl⟩

/-- A declaration binds its own name and no other. -/
theorem binds_of_declare {binding : Variable} {what : String} {u : Unit}
    (hrun : declare binding what c s = .ok (u, s')) {name : String} {value : Value}
    (h : s'.Binds c name value) :
    s.Binds c name value ∨ name = binding.name ∧ value = binding.value := by
  obtain ⟨stack, t, hscopes, hrun⟩ := bind_eq_ok (m := scopes) hrun
  obtain ⟨rfl, env, hown, rfl⟩ := scopes_eq_ok hscopes
  obtain ⟨env', v, hown', hv, rfl⟩ := h
  cases hscope : env.scopes.current.declare binding with
  | error e =>
    simp only [ScopeStack.declare, hscope, Except.map] at hrun
    have hsame : s'.own? c = t.own? c := by
      cases e <;> cases hrun <;> rfl
    exact .inl ⟨env', v, hsame ▸ hown', hv, rfl⟩
  | ok scope =>
    simp only [ScopeStack.declare, hscope, Except.map] at hrun
    obtain rfl := modifyEnvironment_eq_ok hrun
    rw [own?_modifyOwn, hown] at hown'
    obtain rfl := Option.some.inj hown'
    simp only [ScopeStack.current_modifyCurrent] at hv
    unfold Scope.declare at hscope
    split at hscope
    · cases hscope
    · cases hscope
      rw [Table.get?_insert] at hv
      split at hv
      · next hname =>
        cases hv
        exact .inr ⟨hname, rfl⟩
      · exact .inl ⟨env, v, hown, hv, rfl⟩

/-- The name stands for the entity of a narrowing of the polarity. -/
def Names (narrowings : List Narrowing) (negated : Bool) (name : String) (value : Value) : Prop :=
  ∃ n ∈ narrowings, n.negated = negated ∧ n.name.name = name ∧ value = .entityObject n.entity

theorem binds_of_declareNarrowings {narrowings : List Narrowing} {negated : Bool} {u : Unit}
    (hrun : declareNarrowings narrowings negated c s = .ok (u, s')) {name : String} {value : Value}
    (h : s'.Binds c name value) : s.Binds c name value ∨ Names narrowings negated name value := by
  have hnames (items : List Narrowing) (hitems : ∀ n ∈ items, n ∈ narrowings ∧ n.negated = negated)
      (hrun : items.forM declareNarrowing c s = .ok (u, s')) :
      s.Binds c name value ∨ Names narrowings negated name value := by
    clear * - items hitems hrun h
    induction items generalizing s with
    | nil =>
      cases hrun
      exact .inl h
    | cons n rest ih =>
      obtain ⟨_, t, hfirst, hrest⟩ := bind_eq_ok (m := declareNarrowing n) hrun
      rcases ih (fun n hn => hitems n (by simp [hn])) hrest with hbinds | hnamed
      · refine (binds_of_declare hfirst hbinds).imp_right fun hnew => ?_
        obtain ⟨hmem, hpolarity⟩ := hitems n (by simp)
        exact ⟨n, hmem, hpolarity, hnew.1.symm, hnew.2⟩
      · exact .inr hnamed
  exact hnames _ (fun n hn => by simpa using hn) hrun

/-! ## Bodies -/

/-- Running a check inside a scope opens it, runs the check and closes it. -/
theorem inScope_eq_ok {enter : ScopeStack → ScopeStack} {r : α × Option Scope}
    (h : inScope enter m c s = .ok (r, s')) :
    ∃ t, m c (s.modifyOwn c fun env => { env with scopes := enter env.scopes }) = .ok (r.1, t) ∧
      s'.narrowings = t.narrowings := by
  obtain ⟨_, s₁, henter, h⟩ := bind_eq_ok (m := modifyScopes enter) h
  obtain rfl := modifyEnvironment_eq_ok henter
  obtain ⟨a, t, hbody, h⟩ := bind_eq_ok (m := m) h
  obtain ⟨closed, u, hclose, h⟩ := bind_eq_ok (m := closeScope) h
  cases h
  refine ⟨t, hbody, ?_⟩
  obtain ⟨stack, v, hscopes, hmatch⟩ := bind_eq_ok (m := scopes) hclose
  obtain ⟨rfl, -⟩ := scopes_eq_ok hscopes
  cases hclosed : stack.close? with
  | some below =>
    simp only [hclosed] at hmatch
    obtain ⟨_, w, hset, hdone⟩ := bind_eq_ok hmatch
    obtain rfl := modifyEnvironment_eq_ok hset
    cases hdone
    rfl
  | none =>
    simp only [hclosed] at hmatch
    cases hmatch
    rfl

/-- After the first statement of a body nothing is pending, and the rest starts so. -/
theorem body_cons_eq_ok {first : Stmt} {rest out : List Stmt} {reported : Bool}
    (h : body (first :: rest) reported c s = .ok (out, s')) :
    ∃ first' t, stmt first c s = .ok (first', t) ∧
      (out = [first'] ∧ s'.narrowings = [] ∨ ∃ u rest' reported', u.narrowings = [] ∧
        body rest reported' c u = .ok (rest', s') ∧ out = first' :: rest') := by
  unfold body at h
  obtain ⟨first', t, hfirst, h⟩ := bind_eq_ok (m := stmt first) h
  obtain ⟨_, u, hclear, h⟩ := bind_eq_ok (m := clearNarrowings) h
  have hnone : u.narrowings = [] := by
    cases hclear
    rfl
  refine ⟨first', t, hfirst, ?_⟩
  cases rest with
  | nil =>
    cases h
    exact .inl ⟨rfl, hnone⟩
  | cons next others =>
    obtain ⟨certain, v, hleaves, h⟩ := bind_eq_ok (m := alwaysLeaves) h
    obtain ⟨stack, w, hscopes, hread⟩ := bind_eq_ok (m := scopes) hleaves
    obtain ⟨rfl, -⟩ := scopes_eq_ok hscopes
    obtain rfl : v = w := by
      cases hread
      rfl
    have hprune {w : State} (hnone : w.narrowings = []) (h : (do
        if (← get).session.config.prune then return [first']
        let rest ← body (next :: others) true
        return first' :: rest : Check (List Stmt)) c w = .ok (out, s')) : out = [first'] ∧
          s'.narrowings = [] ∨ ∃ u rest' reported', u.narrowings = [] ∧
            body (next :: others) reported' c u = .ok (rest', s') ∧ out = first' :: rest' := by
      obtain ⟨_, x, hget, h⟩ := bind_eq_ok (m := get) h
      cases hget
      split at h
      · cases h
        exact .inl ⟨rfl, hnone⟩
      · obtain ⟨rest', x, hrest, h⟩ := bind_eq_ok h
        cases h
        exact .inr ⟨w, rest', true, hnone, hrest, rfl⟩
    cases certain with
    | true =>
      cases reported with
      | true => exact hprune hnone h
      | false =>
        obtain ⟨_, x, hreport, h⟩ := bind_eq_ok (m := report _ _) h
        have hreported : x.narrowings = [] := by
          cases hreport
          exact hnone
        exact hprune hreported h
    | false =>
      obtain ⟨rest', x, hrest, h⟩ := bind_eq_ok h
      cases h
      exact .inr ⟨_, rest', reported, hnone, hrest, rfl⟩

/-- A body leaves nothing pending where nothing was. -/
theorem narrowings_body {stmts out : List Stmt} {reported : Bool} (hnone : s.narrowings = [])
    (h : body stmts reported c s = .ok (out, s')) : s'.narrowings = [] := by
  induction stmts generalizing s out reported with
  | nil =>
    cases h
    exact hnone
  | cons first rest ih =>
    obtain ⟨first', t, -, hend | hrest⟩ := body_cons_eq_ok h
    · exact hend.2
    · obtain ⟨u, rest', reported', hu, hrun, -⟩ := hrest
      exact ih hu hrun

/-- The statements are walked in a scope that binds only names with the property, and nothing is
pending then. -/
def WalkedWith (c : Context) (stmts stmts' : List Stmt) (P : String → Value → Prop) : Prop :=
  ∃ t t', body stmts false c t = .ok (stmts', t') ∧ t.narrowings = [] ∧
    ∀ name value, t.Binds c name value → P name value

theorem route_push (c : Context) (s : State) (tag : ScopeTag) (added : Permissions) :
    Route c s (s.modifyOwn c fun env => { env with scopes := env.scopes.push tag added }) :=
  .single ⟨.checking, .edit s _ (.scopes (·.push tag added) fun _ _ => .of_bindings_eq _ rfl)
    (.inr fun _ => rfl)⟩

theorem WalkedWith.imp {stmts stmts' : List Stmt} {P Q : String → Value → Prop}
    (h : WalkedWith c stmts stmts' P) (hPQ : ∀ name value, P name value → Q name value) :
    WalkedWith c stmts stmts' Q := by
  obtain ⟨t, t', hbody, hpending, hnames⟩ := h
  exact ⟨t, t', hbody, hpending, fun name value hbinds => hPQ name value (hnames name value hbinds)⟩

theorem Live.push (h : Live c s o) (tag : ScopeTag) (added : Permissions) :
    Live c (s.modifyOwn c fun env => { env with scopes := env.scopes.push tag added })
      (o.cons (o.pushedScope tag.outline added)) :=
  h.modifyOwn fun env _ ho => ⟨rfl, ho ▸ (env.scopes.push_opens tag added).1⟩

/-- A body in a scope of its own, with the names of narrowings. -/
theorem narrowed_eq_ok (h : Live c s o) (hnone : s.narrowings = []) {tag : ScopeTag}
    {added : Permissions} {narrowings : List Narrowing} {negated : Bool} {stmts : List Stmt}
    {r : List Stmt × Option Scope}
    (hrun : inScope (·.push tag added) (do
      declareNarrowings narrowings negated
      body stmts false) c s = .ok (r, s')) :
    WalkedWith c stmts r.1 (Names narrowings negated) ∧ s'.narrowings = [] := by
  obtain ⟨u, hrun, hclosed⟩ := inScope_eq_ok hrun
  obtain ⟨_, t, hdeclare, hbody⟩ := bind_eq_ok (m := declareNarrowings _ _) hrun
  have hquiet : Quiet .binding (declareNarrowings narrowings negated) := quiet_declareNarrowings _ _
  have hpending : t.narrowings = [] :=
    (((hquiet c _ _ (h.push tag added)).apply hdeclare).1.narrowings_eq rfl).trans hnone
  refine ⟨⟨t, u, hbody, hpending, fun name value hbinds => ?_⟩,
    hclosed.trans (narrowings_body hpending hbody)⟩
  -- Before the names are declared the new scope is empty.
  refine (binds_of_declareNarrowings hdeclare hbinds).resolve_left fun hbound => ?_
  obtain ⟨env, v, hown, hv, -⟩ := hbound
  rw [own?_modifyOwn] at hown
  obtain ⟨env, -, rfl⟩ := Option.map_eq_some_iff.1 hown
  cases hv

/-! ## Conditions -/

/-- A name that a condition declares where it has the truth value. It was pending when the
condition began, or a test of the condition binds it; then the tested value is an entity of the
type whenever the condition has the truth value. -/
def DeclaredBy (c : Context) (s : State) (condition : Expr) (b : Bool) (name : String)
    (value : Value) : Prop :=
  ∃ n : Narrowing, n.negated = !b ∧ n.name.name = name ∧ value = .entityObject n.entity ∧
    (n ∈ s.narrowings ∨
      ∃ t ∈ condition.tests, n.BoundBy c s t ∧ condition.Entails b t.value t.ty)

/-- Where a condition without statements inside decides the names that it binds, the body of a
branch is walked with such names only. -/
def NarrowedBody (c : Context) (s : State) (condition : Expr) (b : Bool)
    (stmts stmts' : List Stmt) : Prop :=
  condition.isPlain = true → condition.Faithful →
    WalkedWith c stmts stmts' (DeclaredBy c s condition b)

/-- A condition is walked, and what is pending then is taken. -/
theorem condition_eq_ok (h : Live c s o) {condition : Expr} {r : Expr × Value} {t : State}
    {narrowings : List Narrowing} (hwalk : single (expr condition none) c s = .ok (r, t))
    (htake : conditionNarrowings r.1 r.2 c t = .ok (narrowings, s')) :
    Route c s s' ∧ Live c s' o ∧ s'.narrowings = [] ∧
      (condition.isPlain = true → condition.Faithful → ∀ b name value,
        Names narrowings (!b) name value → DeclaredBy c s condition b name value) := by
  have hexpr : Quiet .checking (single (expr condition none)) := (quiet_expr condition none).single
  have hquiet : Quiet .checking (conditionNarrowings r.1 r.2) := quiet_conditionNarrowings _ _
  obtain ⟨hsteps, hl⟩ := (hexpr c s o h).apply hwalk
  obtain ⟨hsteps', hl'⟩ := (hquiet c t o hl).apply htake
  obtain ⟨_, u, hcheck, htake⟩ := bind_eq_ok (m := checkType _ _ _ _) htake
  have hcheckType : Quiet .binding (checkType .bool r.2.ty "condition" r.1.span) :=
    quiet_checkType _ _ _ _
  have hkept : u.narrowings = t.narrowings :=
    ((hcheckType c t o hl).apply hcheck).1.narrowings_eq rfl
  obtain ⟨rfl, hnone⟩ : narrowings = t.narrowings ∧ s'.narrowings = [] := by
    rw [← hkept]
    cases htake
    exact ⟨rfl, rfl⟩
  refine ⟨hsteps.route.trans hsteps'.route, hl', hnone, fun hplain hfaithful b name value hnamed => ?_⟩
  obtain ⟨n, hn, hnegated, hname, hvalue⟩ := hnamed
  refine ⟨n, hnegated, hname, hvalue, ?_⟩
  obtain ⟨-, -, new, heq, hnew⟩ := ((collects_expr condition none hplain).single c s o h).apply hwalk
  rw [heq] at hn
  refine (List.mem_append.1 hn).imp_right fun hn => ?_
  obtain ⟨test, htest, hbound⟩ := hnew n hn
  have hforces := hfaithful test htest
  rw [← hbound.negated, hnegated, Bool.not_not] at hforces
  exact ⟨test, htest, hbound, hforces.entails⟩

theorem inBranch_eq_ok {r : α × Exits} (h : inBranch m c s = .ok (r, s')) :
    ∃ closed, inScope (·.push .plain .empty) m c s = .ok ((r.1, closed), s') := by
  obtain ⟨p, t, hrun, h⟩ := bind_eq_ok (m := inScope _ _) h
  cases h
  exact ⟨p.2, hrun⟩

theorem narrowedBranch_steps (h : Live c s o) {narrowings : List Narrowing} {negated : Bool}
    {stmts : List Stmt} {r : List Stmt × Exits}
    (hrun : inBranch (do
      declareNarrowings narrowings negated
      body stmts false) c s = .ok (r, s')) :
    Steps c .checking s s' ∧ Live c s' (o.reportExits r.2) := by
  have hleaves : Leaves .checking (do
      declareNarrowings narrowings negated
      body stmts false) (Stmt.bodyLeaves · stmts) :=
    (quiet_declareNarrowings _ _).leaves_bind fun _ => leaves_body stmts false
  obtain ⟨hsteps, -, hl⟩ := (runs_inBranch hleaves h).apply hrun
  exact ⟨hsteps, hl⟩

/-- The bodies of `elseif` branches, where nothing is pending before. -/
theorem elseIfs_eq_ok (h : Live c s o) (hnone : s.narrowings = []) {branches out : List ElseIf}
    (hrun : elseIfs branches c s = .ok (out, s')) :
    List.Forall₂ (fun branch branch' => ∃ t, Route c s t ∧ t.narrowings = [] ∧
      NarrowedBody c t branch.condition true branch.body branch'.body) branches out ∧
      s'.narrowings = [] ∧ ∃ o', Live c s' o' := by
  induction branches generalizing s o out with
  | nil =>
    cases hrun
    exact ⟨.nil, hnone, o, h⟩
  | cons branch rest ih =>
    obtain ⟨condition, stmts, span⟩ := branch
    obtain ⟨r, t, hwalk, hrun⟩ := bind_eq_ok (m := single (expr condition none)) hrun
    obtain ⟨narrowings, u, htake, hrun⟩ := bind_eq_ok (m := conditionNarrowings r.1 r.2) hrun
    obtain ⟨hroute, hl, htaken, hdeclared⟩ := condition_eq_ok h hwalk htake
    obtain ⟨p, v, hbranch, hrun⟩ := bind_eq_ok (m := inBranch _) hrun
    obtain ⟨closed, hscope⟩ := inBranch_eq_ok hbranch
    obtain ⟨hwalked, hclosed⟩ := narrowed_eq_ok hl htaken hscope
    obtain ⟨hsteps, hl'⟩ := narrowedBranch_steps hl hbranch
    obtain ⟨rest', w, hrest, hrun⟩ := bind_eq_ok (m := elseIfs rest) hrun
    cases hrun
    obtain ⟨hothers, hend, hlast⟩ := ih hl' hclosed hrest
    have hroute' := hroute.trans hsteps.route
    refine ⟨.cons ⟨s, .refl, hnone, fun hplain hfaithful =>
      hwalked.imp (hdeclared hplain hfaithful true)⟩ (hothers.imp fun _ _ hother => ?_), hend, hlast⟩
    obtain ⟨t, hroute'', hrest⟩ := hother
    exact ⟨t, hroute'.trans hroute'', hrest⟩

/-! ## Statements -/

/-- The branches of a chain, in the scope that collects their exits. -/
def chainBranches (narrowings : List Narrowing) (stmts : List Stmt) (elseifs : List ElseIf)
    (otherwise : Option (List Stmt)) :
    Check ((List Stmt × Exits × List ElseIf × Option (List Stmt)) × Option Scope) :=
  inScope (·.push (.multiPath {}) .empty) do
    let (stmts, exits) ← inBranch do
      declareNarrowings narrowings false
      body stmts false
    let elseifs ← elseIfs elseifs
    let otherwise ← elseBody otherwise narrowings
    pure (stmts, exits, elseifs, otherwise)

/-- The branches of a chain after its condition, where nothing is pending. -/
theorem chainBranches_eq_ok (h : Live c s o) (hnone : s.narrowings = [])
    {narrowings : List Narrowing} {stmts stmts' : List Stmt} {elseifs elseifs' : List ElseIf}
    {otherwise otherwise' : Option (List Stmt)} {exits : Exits} {closed : Option Scope}
    (hrun : chainBranches narrowings stmts elseifs otherwise c s =
      .ok (((stmts', exits, elseifs', otherwise'), closed), s')) :
    WalkedWith c stmts stmts' (Names narrowings false) ∧
      (∀ rest ∈ otherwise, ∃ rest' ∈ otherwise', WalkedWith c rest rest' (Names narrowings true)) ∧
      List.Forall₂ (fun branch branch' => ∃ t, Route c s t ∧ t.narrowings = [] ∧
        NarrowedBody c t branch.condition true branch.body branch'.body) elseifs elseifs' := by
  obtain ⟨t, hrun, -⟩ := inScope_eq_ok hrun
  have hl := h.push (.multiPath {}) .empty
  obtain ⟨p, u, hbranch, hrun⟩ := bind_eq_ok (m := inBranch _) hrun
  obtain ⟨_, hscope⟩ := inBranch_eq_ok hbranch
  obtain ⟨hwalked, hclosed⟩ := narrowed_eq_ok hl hnone hscope
  obtain ⟨hsteps, hl₁⟩ := narrowedBranch_steps hl hbranch
  obtain ⟨out, v, helseifs, hrun⟩ := bind_eq_ok (m := elseIfs elseifs) hrun
  obtain ⟨hothers, hend, o', hl₂⟩ := elseIfs_eq_ok hl₁ hclosed helseifs
  obtain ⟨last, w, helse, hrun⟩ := bind_eq_ok (m := elseBody otherwise narrowings) hrun
  cases hrun
  refine ⟨hwalked, fun rest hrest => ?_, hothers.imp fun _ _ hother => ?_⟩
  · obtain rfl := Option.mem_def.1 hrest
    obtain ⟨q, x, hbranch', hdone⟩ := bind_eq_ok (m := inBranch _) helse
    cases hdone
    obtain ⟨_, hscope'⟩ := inBranch_eq_ok hbranch'
    exact ⟨_, rfl, (narrowed_eq_ok hl₂ hend hscope').1⟩
  · obtain ⟨t, hroute, hnarrowed⟩ := hother
    exact ⟨t, ((route_push c s _ _).trans hsteps.route).trans hroute, hnarrowed⟩

/-- What a chain declares. The branches of the first condition have its names and those that were
pending before, and an `elseif` has the names of its own condition. After the scope of the chain is
closed, names are declared only if the first branch always leaves. -/
structure ChainNarrows (c : Context) (s s' : State) (condition : Expr) (stmts stmts' : List Stmt)
    (elseifs elseifs' : List ElseIf) (otherwise otherwise' : Option (List Stmt)) : Prop where
  thenBody : NarrowedBody c s condition true stmts stmts'
  elseBody : ∀ rest ∈ otherwise, ∃ rest' ∈ otherwise', NarrowedBody c s condition false rest rest'
  elseIfs : List.Forall₂ (fun branch branch' => ∃ t, Route c s t ∧ t.narrowings = [] ∧
    NarrowedBody c t branch.condition true branch.body branch'.body) elseifs elseifs'
  after : ∃ narrowings t exits closed t',
    chainBranches narrowings stmts elseifs otherwise c t =
      .ok (((stmts', exits, elseifs', otherwise'), closed), t') ∧
    (condition.isPlain = true → condition.Faithful → ∀ name value, s'.Binds c name value →
      t'.Binds c name value ∨ exits.always = true ∧ DeclaredBy c s condition false name value)

theorem ifChain_eq_ok (h : Live c s o) {condition : Expr} {stmts : List Stmt}
    {elseifs : List ElseIf} {otherwise : Option (List Stmt)} {span : Span} {out : Stmt}
    (hrun : stmt (.ifChain condition stmts elseifs otherwise span) c s = .ok (out, s')) :
    ∃ condition' stmts' elseifs' otherwise',
      out = .ifChain condition' stmts' elseifs' otherwise' span ∧
        ChainNarrows c s s' condition stmts stmts' elseifs elseifs' otherwise otherwise' := by
  obtain ⟨r, t, hwalk, hrun⟩ := bind_eq_ok (m := single (expr condition none)) hrun
  obtain ⟨narrowings, u, htake, hrun⟩ := bind_eq_ok (m := conditionNarrowings r.1 r.2) hrun
  obtain ⟨hroute, hl, htaken, hdeclared⟩ := condition_eq_ok h hwalk htake
  obtain ⟨⟨⟨stmts', exits, elseifs', otherwise'⟩, closed⟩, v, hchain, hrun⟩ :=
    bind_eq_ok (m := chainBranches narrowings stmts elseifs otherwise) hrun
  obtain ⟨hthen, helse, helseifs⟩ := chainBranches_eq_ok hl htaken hchain
  have hafter : out = .ifChain r.1 stmts' elseifs' otherwise' span ∧
      ∀ name value, s'.Binds c name value →
        v.Binds c name value ∨ exits.always = true ∧ Names narrowings true name value := by
    dsimp only at hrun
    split_ifs at hrun with hexits
    · obtain ⟨_, w, hdeclare, hdone⟩ := bind_eq_ok (m := declareNarrowings _ _) hrun
      cases hdone
      exact ⟨rfl, fun name value hbinds =>
        (binds_of_declareNarrowings hdeclare hbinds).imp_right (⟨hexits, ·⟩)⟩
    · cases hrun
      exact ⟨rfl, fun name value hbinds => .inl hbinds⟩
  refine ⟨r.1, stmts', elseifs', otherwise', hafter.1, ?_⟩
  constructor
  · exact fun hplain hfaithful => hthen.imp (hdeclared hplain hfaithful true)
  · intro rest hrest
    obtain ⟨rest', hrest', hwalked⟩ := helse rest hrest
    exact ⟨rest', hrest', fun hplain hfaithful => hwalked.imp (hdeclared hplain hfaithful false)⟩
  · refine helseifs.imp fun _ _ hbranch => ?_
    obtain ⟨t, hroute', hnarrowed⟩ := hbranch
    exact ⟨t, hroute.trans hroute', hnarrowed⟩
  · refine ⟨narrowings, u, exits, closed, v, hchain, fun hplain hfaithful name value hbinds => ?_⟩
    exact (hafter.2 name value hbinds).imp_right fun hnew =>
      ⟨hnew.1, hdeclared hplain hfaithful false name value hnew.2⟩

theorem whileLoop_eq_ok (h : Live c s o) {condition : Expr} {stmts : List Stmt} {span : Span}
    {out : Stmt} (hrun : stmt (.whileLoop condition stmts span) c s = .ok (out, s')) :
    ∃ condition' stmts', out = .whileLoop condition' stmts' span ∧
      NarrowedBody c s condition true stmts stmts' := by
  obtain ⟨r, t, hwalk, hrun⟩ := bind_eq_ok (m := single (expr condition none)) hrun
  obtain ⟨narrowings, u, htake, hrun⟩ := bind_eq_ok (m := conditionNarrowings r.1 r.2) hrun
  obtain ⟨-, hl, htaken, hdeclared⟩ := condition_eq_ok h hwalk htake
  obtain ⟨stmts', v, hloop, hrun⟩ := bind_eq_ok (m := inLoop _ _ _) hrun
  cases hrun
  obtain ⟨p, w, hscope, hdone⟩ := bind_eq_ok (m := inScope _ _) hloop
  cases hdone
  refine ⟨r.1, p.1, rfl, fun hplain hfaithful => ?_⟩
  exact (narrowed_eq_ok hl htaken hscope).1.imp (hdeclared hplain hfaithful true)

/-- Narrowed names are declared where they hold, if the conditions decide them. The branches of a
chain and the body of a loop have the names of their own condition and those that were pending
when the statement began, and nothing is pending after the first statement of a body. A condition
that asks nothing twice must decide its names for that. -/
theorem narrows_where_decided (h : Live c s o) :
    (∀ condition stmts elseifs otherwise span out s',
      stmt (.ifChain condition stmts elseifs otherwise span) c s = .ok (out, s') →
        ∃ condition' stmts' elseifs' otherwise',
          out = .ifChain condition' stmts' elseifs' otherwise' span ∧
            ChainNarrows c s s' condition stmts stmts' elseifs elseifs' otherwise otherwise') ∧
    (∀ condition stmts span out s', stmt (.whileLoop condition stmts span) c s = .ok (out, s') →
      ∃ condition' stmts', out = .whileLoop condition' stmts' span ∧
        NarrowedBody c s condition true stmts stmts') ∧
    (∀ first rest reported out s', body (first :: rest) reported c s = .ok (out, s') →
      ∃ first' t, stmt first c s = .ok (first', t) ∧
        (out = [first'] ∨ ∃ u rest' reported', u.narrowings = [] ∧
          body rest reported' c u = .ok (rest', s') ∧ out = first' :: rest')) ∧
    ∀ condition : Expr, condition.questions.Nodup → (condition.Faithful ↔
      ∀ t ∈ condition.tests, condition.Entails (!t.negated) t.value t.ty) := by
  refine ⟨fun condition stmts elseifs otherwise span out s' hrun => ifChain_eq_ok h hrun,
    fun condition stmts span out s' hrun => whileLoop_eq_ok h hrun,
    fun first rest reported out s' hrun => ?_, fun condition hnodup => ?_⟩
  · obtain ⟨first', t, hfirst, hrest⟩ := body_cons_eq_ok hrun
    exact ⟨first', t, hfirst, hrest.imp_left And.left⟩
  · exact forall₂_congr fun t _ => (Expr.entails_iff_forces hnodup).symm

end Check

/-! ## Tests of an entity -/

/-- A written type that is only a name. -/
def namedTypeExpr (name : String) : TypeExpr :=
  ⟨none, ⟨name, .synthetic⟩, [], [], [], false, .synthetic⟩

/-- The test `e is Ship`, with the name that it binds. -/
def isShip (binding : Option Ident) : Expr :=
  .entityTest (.ident ⟨"e", .synthetic⟩) (namedTypeExpr "Ship") binding false false .synthetic

/-- The condition `!(e is Ship)`, with the name that the test binds. -/
def noShip (binding : Option Ident) : Expr :=
  .unary .not (.group (isShip binding) .synthetic) .synthetic

namespace Check

/-- The entity `Ship` of an environment. -/
def shipInfo : EntityInfo := { ty := ⟨.user 0, "Ship"⟩, span := .synthetic, isPub := false }

/-- An environment with the entity `Ship`, whose root scope binds the entity `e`. -/
def shipEnvironment : Environment :=
  let e : Variable := { name := "e", value := .rawEntity, span := .synthetic }
  { id := .user 0, path := "main.hyb", name := "Main", kind := .level, state := .walking
    entities := Table.empty.insert "Ship" shipInfo
    scopes := { root := { bindings := Table.empty.insert "e" e } } }

/-- The state of its walk, in a session with no other environment. -/
def shipState : State := { session := { registry := { envs := [shipEnvironment] } } }

theorem walks_shipState : Walks (.user 0) shipState shipEnvironment := by
  refine ⟨rfl, WalkState.noConfusion, fun id env henv hwaits => ?_⟩
  obtain ⟨index, -, hindex⟩ := Option.bind_eq_some_iff.1 henv
  have hmem : env ∈ [shipEnvironment] := List.mem_of_getElem? hindex
  obtain rfl := List.mem_singleton.1 hmem
  cases hwaits

/-- The loop body of `while e is Ship as s` has no other name than `s`. -/
theorem narrows_where_decided_ship :
    ∃ t t' stmts, body [.error .synthetic] false ⟨.user 0, Session.walk 0⟩ t = .ok (stmts, t') ∧
      ∀ name value, t.Binds ⟨.user 0, Session.walk 0⟩ name value → name = "s" := by
  have hlive := walks_shipState.live 0
  have hloop := leaves_stmt (.whileLoop (isShip (some ⟨"s", .synthetic⟩)) [.error .synthetic]
    .synthetic)
  obtain ⟨out, s', hrun, -⟩ := hloop _ _ _ hlive trivial (.inl rfl)
  obtain ⟨-, hwhile, -⟩ := narrows_where_decided hlive
  obtain ⟨-, stmts, -, hnarrowed⟩ := hwhile _ _ _ _ _ hrun
  have hfaithful : (isShip (some ⟨"s", .synthetic⟩)).Faithful := by
    intro t ht
    obtain rfl := List.mem_singleton.1 ht
    exact .test _ false _ _
  obtain ⟨t, t', hbody, -, hnames⟩ := hnarrowed rfl hfaithful
  refine ⟨t, t', stmts, hbody, fun name value hbinds => ?_⟩
  obtain ⟨n, -, rfl, -, hpending | ⟨test, htest, hbound, -⟩⟩ := hnames name value hbinds
  · cases hpending
  · obtain rfl := List.mem_singleton.1 htest
    rw [hbound.name]

end Check

/-- A level that destroys `s` if a condition on the entity `e` holds. -/
def destroyingProgram (condition : Expr) : Program :=
  [.level "Main",
    .entityDecl ⟨⟨"Ship", .synthetic⟩, false, [], [],
      [⟨.spawn, [], [⟨⟨"x", .synthetic⟩, namedTypeExpr "fixed"⟩,
          ⟨⟨"y", .synthetic⟩, namedTypeExpr "fixed"⟩], [], [], .synthetic⟩,
        ⟨.destroy, [], [], [], [], .synthetic⟩], .synthetic⟩,
    .function ⟨⟨"check", .synthetic⟩, [], [⟨⟨"e", .synthetic⟩, namedTypeExpr "entity"⟩], [],
      [.ifChain condition [.destroy (.ident ⟨"s", .synthetic⟩) [] [] .synthetic] [] none .synthetic],
      false, .synthetic⟩]

/-- In the first branch of `if !(e is Ship as s)` the name `s` is declared as a `Ship`, where `e` is
none: the program has no alert, and without the binding it has one. -/
theorem analyze_narrows_below_negation :
    (∃ v : Evaluation, v.eval (noShip (some ⟨"s", .synthetic⟩)) = true ∧
      v (.isA (.ident ⟨"e", .synthetic⟩) (namedTypeExpr "Ship")) = false) ∧
    analyzedCodes [("main.hyb", destroyingProgram (noShip (some ⟨"s", .synthetic⟩)))] = some [[]] ∧
    analyzedCodes [("main.hyb", destroyingProgram (noShip none))] =
      some [[.undeclaredVariableAccess]] := by
  refine ⟨⟨fun _ => false, rfl, rfl⟩, ?_, ?_⟩
  · decide +kernel
  · decide +kernel

end HybroidSema
