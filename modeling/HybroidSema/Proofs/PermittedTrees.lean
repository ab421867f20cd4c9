import HybroidSema.Proofs.MissingExits
import HybroidSema.Proofs.PermittedNames
import HybroidSema.Proofs.ResolvedRuns

/-!
# Permitted trees

Every qualified name of a resolved tree was kept or put there by the walk, and was vetted when that
happened. So it may be used when the walk ends, or the walk has failed. What the walk leaves out
makes it fail: a class or an entity away from the root, and a method call without an owner.

* `Vetting`: what is known in the middle of a walk.
* `Vets`: a check keeps that, and the qualified names of its result are vetted when it ends.
* `vets_expr_of`, `vets_stmt_of`: a node, where what is right inside it is vetted. `vets_tree` is
  the induction.
* `vetted_program`: the qualified names of a resolved program.
-/

namespace HybroidSema

namespace ScopeStack

theorem length_inner_modifyCurrent (s : ScopeStack) (f : Scope → Scope) :
    (s.modifyCurrent f).inner.length = s.inner.length := by
  unfold modifyCurrent
  split
  · rfl
  · next h => simp [h]

theorem length_inner_afterClosing (s : ScopeStack) (scope : Scope) :
    (s.afterClosing scope).inner.length = s.inner.length := by
  unfold afterClosing
  split
  · exact s.length_inner_modifyCurrent _
  · rfl

theorem length_inner_reportAll (s : ScopeStack) (branches : List Exits) :
    (s.reportAll branches).inner.length = s.inner.length := by
  unfold reportAll
  induction branches generalizing s with
  | nil => rfl
  | cons exits rest ih => exact (ih _).trans (s.length_inner_modifyCurrent _)

end ScopeStack

namespace Check

variable {α β : Type} {c : Context} {s s' t : State} {p : Program} {d : Nat}
  {known known' : List Access}

/-! ## In the middle of a walk -/

/-- The walk of a program whose declarations are registered, inside `d` scopes other than the root.
The listed names were vetted. -/
structure Vetting (c : Context) (p : Program) (d : Nat) (names : List Access) (s : State) :
    Prop where
  naming : Naming c.walk
  recording : Session.Recording c.walk
  live : ∃ o : ScopeStack, Live c s o ∧ o.inner.length = d
  linked : WellLinked c s
  declared : Declared c p s
  vetted : Vetted c s names

/-- The walk goes on, and comes to some depth. -/
theorem Vetting.steps {d' : Nat} (h : Vetting c p d known s) (hsteps : Steps c .checking s s')
    (hlive : ∃ o : ScopeStack, Live c s' o ∧ o.inner.length = d') :
    Vetting c p d' known s' := by
  obtain ⟨o, hl, -⟩ := h.live
  exact ⟨h.naming, h.recording, hlive, Route.wellLinked hl h.naming h.linked hsteps.route,
    h.declared.steps hl hsteps, h.vetted.route hl h.recording hsteps.route⟩

/-- In a walk that has failed every name counts as vetted. -/
theorem Vetting.of_failed (h : Vetting c p d known s) (hfailed : s.Failed) :
    Vetting c p d known' s :=
  { h with vetted := .inl hfailed }

/-- Where the names in `known` were vetted, those of the result are vetted in the end. -/
def Vets (p : Program) (d : Nat) (known : List Access) (m : Check α) (names : α → List Access) :
    Prop :=
  ∀ c s r s', Vetting c p d known s → m c s = .ok (r, s') → Vetting c p d (names r) s'

section Rules

variable {m : Check α} {f : α → Check β} {n : α → List Access} {names : β → List Access}

namespace Vets

theorem pure {names : α → List Access} {a : α} (h : names a ⊆ known) :
    Vets p d known (pure a) names := by
  intro c s r s' hs hrun
  cases hrun
  exact { hs with vetted := hs.vetted.of_subset h }

theorem bind (hm : Vets p d known m n) (hf : ∀ a, Vets p d (n a) (f a) names) :
    Vets p d known (m >>= f) names := by
  intro c s r s' hs hrun
  obtain ⟨a, t, hfirst, hrest⟩ := bind_eq_ok hrun
  exact hf a c t r s' (hm c s a t hs hfirst) hrest

theorem pure_bind {a : α} (hf : Vets p d known (f a) names) :
    Vets p d known (Pure.pure a >>= f) names := hf

theorem mono {names' : α → List Access} (h : Vets p d known m n)
    (hsubset : ∀ a, names' a ⊆ n a) : Vets p d known m names' := by
  intro c s r s' hs hrun
  have hrest := h c s r s' hs hrun
  exact { hrest with vetted := hrest.vetted.of_subset (hsubset r) }

/-- An expression whose value is reduced to one. -/
theorem single {m : Check (Expr × Value)} (h : Vets p d known m fun r => known ++ r.1.accesses) :
    Vets p d known (single m) fun r => known ++ r.1.accesses := by
  intro c s r s' hs hrun
  obtain ⟨⟨e, value⟩, t, hfirst, hrest⟩ := bind_eq_ok hrun
  obtain ⟨_, u, hexpect, hrest⟩ := bind_eq_ok hrest
  cases hrest
  have ht := h c s _ t hs hfirst
  obtain ⟨o, hl, hd⟩ := ht.live
  obtain ⟨hsteps, hl'⟩ := (quiet_expectSingle value e.span c t o hl).apply hexpect
  exact ht.steps hsteps ⟨o, hl', hd⟩

end Vets

/-- A quiet check vets nothing. -/
theorem Quiet.vets (hm : Quiet .checking m) : Vets p d known m fun _ => known := by
  intro c s r s' hs hrun
  obtain ⟨o, hl, hd⟩ := hs.live
  obtain ⟨hsteps, hl'⟩ := (hm c s o hl).apply hrun
  exact hs.steps hsteps ⟨o, hl', hd⟩

theorem Quiet.vets_bind (hm : Quiet .checking m) (hf : ∀ a, Vets p d known (f a) names) :
    Vets p d known (m >>= f) names :=
  hm.vets.bind hf

/-- A quiet check whose result has no names but those that were vetted. -/
theorem Quiet.vets_of {names : α → List Access} (hm : Quiet .checking m)
    (hnames : Gives m fun r => names r ⊆ known) : Vets p d known m names := by
  intro c s r s' hs hrun
  have hrest := hm.vets c s r s' hs hrun
  exact { hrest with vetted := hrest.vetted.of_subset (hnames c s r s' hrun) }

/-- A check that is made under a condition, before the rest. -/
theorem Vets.guard_of {m : Check PUnit} {f : PUnit → Check β} {b : Prop} [Decidable b]
    (hm : Vets p d known m fun _ => known) (hf : ∀ u, Vets p d known (f u) names) :
    Vets p d known (if b then m >>= f else f ⟨⟩) names := by
  split
  · exact hm.bind hf
  · exact hf _

theorem Vets.guard {m : Check PUnit} {f : PUnit → Check β} {b : Prop} [Decidable b]
    (hm : Quiet .checking m) (hf : ∀ u, Vets p d known (f u) names) :
    Vets p d known (if b then m >>= f else f ⟨⟩) names :=
  .guard_of hm.vets hf

/-- A check that is made under a condition after the scopes were read, before the rest. -/
theorem Vets.guard_scopes {m : Check PUnit} {rest : Check β} {b : Prop} [Decidable b]
    {b' : ScopeStack → Prop} [∀ stack, Decidable (b' stack)] (hm : Quiet .checking m)
    (hrest : Vets p d known rest names) :
    Vets p d known (if b then scopes >>= fun stack => if b' stack then m >>= fun _ => rest else rest
      else rest) names := by
  split
  · exact quiet_scopes.vets_bind fun _ => .guard hm fun _ => hrest
  · exact hrest

/-- A check that ends with an exit. -/
theorem Exiting.vets {kind : Exits} (hm : Exiting .checking kind m) :
    Vets p d known m fun _ => known := by
  intro c s r s' hs hrun
  obtain ⟨o, hl, hd⟩ := hs.live
  obtain ⟨hsteps, hl'⟩ := (hm c s o hl).apply hrun
  exact hs.steps hsteps ⟨_, hl', (o.length_inner_modifyCurrent _).trans hd⟩

/-- A path that goes past all branches. -/
theorem vets_reportExits : Vets p d known (modifyScopes (·.reportExits .empty)) fun _ => known := by
  intro c s r s' hs hrun
  obtain ⟨o, hl, hd⟩ := hs.live
  have hnone : Branches .checking (modifyScopes (·.reportExits .empty)) _ _ := branches_none
  obtain ⟨-, hsteps, xs, -, hl'⟩ := (hnone c s o hl).apply hrun
  exact hs.steps hsteps ⟨_, hl', (o.length_inner_reportAll xs).trans hd⟩

/-- A check in a scope of its own. -/
theorem Vets.inScope {enter : ScopeStack → ScopeStack}
    (henter : ∀ stack, (∃ scope, (enter stack).outline = stack.outline.cons scope) ∧
      (enter stack).root.bindings = stack.root.bindings)
    (hm : Vets p (d + 1) known m n) : Vets p d known (inScope enter m) fun r => n r.1 := by
  intro c s r s' hs hrun
  obtain ⟨o, hl, hd⟩ := hs.live
  obtain ⟨_, s₁, hopen, hrun⟩ := bind_eq_ok hrun
  obtain ⟨result, s₂, hbody, hrun⟩ := bind_eq_ok hrun
  obtain ⟨closed, s₃, hclose, hpure⟩ := bind_eq_ok hrun
  cases hpure
  obtain ⟨env, hown, -, ho⟩ := hl.own
  obtain ⟨⟨scope, hscope⟩, hroot⟩ := henter env.scopes
  have hopens : ∀ env', s.own? c = some env' → env'.scopes.outline = o →
      (enter env'.scopes).outline = o.cons scope ∧
        Phase.checking.KeepsRoot env'.scopes (enter env'.scopes) := fun env' hown' _ => by
    obtain rfl := Option.some.inj (hown.symm.trans hown')
    exact ⟨ho ▸ hscope, .of_bindings_eq .checking hroot⟩
  obtain ⟨hopened, hl₁, -⟩ := (runs_modifyScopes .checking hl hopens).apply hopen
  have h₁ := hs.steps hopened ⟨_, hl₁, congrArg (· + 1) hd⟩
  have h₂ := hm c s₁ result s₂ h₁ hbody
  obtain ⟨⟨root, inner⟩, hl₂, hd₂⟩ := h₂.live
  cases inner with
  | nil => cases hd₂
  | cons top rest =>
    obtain ⟨hclosed, _, _, -, -, hl₃, -⟩ :=
      (runs_closeScope (o := ⟨root, rest⟩) .checking hl₂).apply hclose
    refine h₂.steps hclosed ⟨_, hl₃, ?_⟩
    rw [ScopeStack.length_inner_afterClosing]
    exact Nat.succ.inj hd₂

theorem Vets.push {tag : ScopeTag} {added : Permissions} (hm : Vets p (d + 1) known m n) :
    Vets p d known (Check.inScope (·.push tag added) m) fun r => n r.1 :=
  .inScope (fun stack => ⟨⟨_, (stack.push_opens tag added).1⟩, rfl⟩) hm

theorem Vets.pushRestricted {tag : ScopeTag} {removed : Permissions}
    (hm : Vets p (d + 1) known m n) :
    Vets p d known (Check.inScope (·.pushRestricted tag removed) m) fun r => n r.1 :=
  .inScope (fun stack => ⟨⟨_, (stack.pushRestricted_opens tag removed).1⟩, rfl⟩) hm

theorem Vets.inBranch (hm : Vets p (d + 1) known m n) :
    Vets p d known (inBranch m) fun r => n r.1 :=
  (Vets.push hm).bind fun _ => .pure (List.Subset.refl _)

theorem Vets.inLoop {permits : Permissions} {bindings : List (Ident × Value)}
    (hm : Vets p (d + 1) known m n) : Vets p d known (inLoop permits bindings m) n :=
  (Vets.push (Quiet.vets_bind (.forM _ fun _ => quiet_declare _ _) fun _ => hm)).bind
    fun _ => .pure (List.Subset.refl _)

theorem Vets.inFunction {m : Check (List Stmt)} {n : List Stmt → List Access}
    {signature : Signature} {params : List Param} {span : Span}
    (hm : Vets p (d + 1) known m n) : Vets p d known (inFunction signature params span m) n := by
  refine (Vets.inScope (n := n)
    (fun stack => ⟨⟨_, (stack.pushFunction_opens _).1⟩, rfl⟩) ?_).bind
    fun _ => .pure (List.Subset.refl _)
  exact (quiet_bindParams _ _).vets_bind fun _ => hm.bind fun _ => quiet_scopes.vets_bind fun _ =>
    .guard (quiet_report _ _ rfl) fun _ => .pure (List.Subset.refl _)

/-- The arguments of a call. -/
theorem Vets.call {signature : Signature} {explicit : List TypeExpr} {span : Span}
    {walkArgs : List Ty → Check (List Expr × List (Value × Span))}
    (hargs : ∀ hints, Vets p d known (walkArgs hints) fun r => known ++ Expr.allAccesses r.1) :
    Vets p d known (call signature explicit walkArgs span) fun r =>
      known ++ Expr.allAccesses r.1 :=
  (quiet_resolveTypes _).vets_bind fun _ => (hargs _).bind fun _ =>
    (quiet_bindGenerics _ _ _ _).vets_bind fun _ => Quiet.vets_bind
      (.forM_mem fun _ ha => quiet_alert _ (reports_validateArguments ha))
      fun _ => .pure (List.Subset.refl _)

/-- The initializers of fields are compared inside the scope of their container. -/
theorem vets_checkInitializers (owner : DeclRef) (kind : NamedKind) (names : List Ident)
    (registered : List (Option Value)) (values : List (Value × Span)) :
    Vets p (d + 1) known (checkInitializers owner kind names registered values) fun _ => known := by
  intro c s r s' hs hrun
  obtain ⟨⟨root, inner⟩, hl, hd⟩ := hs.live
  cases inner with
  | nil => cases hd
  | cons scope rest =>
    have hchecked : Runs (checkInitializers owner kind names registered values) c s fun _ s' =>
        Steps c .checking s s' ∧ Live c s' (ScopeStack.cons ⟨root, rest⟩ scope) :=
      runs_checkInitializers hl _ _ _ _ _
    obtain ⟨hsteps, hl'⟩ := hchecked.apply hrun
    exact hs.steps hsteps ⟨_, hl', hd⟩

end Rules

/-! ## What is left out -/

/-- A declaration that is not at the root is reported. -/
theorem atRoot_cases {what : String} {span : Span} {isRoot : Bool} (hs : Vetting c p d known s)
    (hrun : atRoot what span c s = .ok (isRoot, t)) :
    isRoot = true ∧ t = s ∧ d = 0 ∨ isRoot = false ∧ t.Failed := by
  obtain ⟨o, hl, rfl⟩ := hs.live
  obtain ⟨stack, u, hscopes, hrest⟩ := bind_eq_ok hrun
  obtain ⟨rfl, rfl, -⟩ := (runs_scopes hl).apply hscopes
  cases hinner : stack.inner with
  | nil =>
    simp only [ScopeStack.isRoot, hinner, List.isEmpty_nil, if_true] at hrest
    cases hrest
    exact .inl ⟨rfl, rfl, by simp [ScopeStack.outline, hinner]⟩
  | cons scope rest =>
    simp only [ScopeStack.isRoot, hinner, List.isEmpty_cons, Bool.false_eq_true, if_false] at hrest
    obtain ⟨_, v, hreport, hpure⟩ := bind_eq_ok hrest
    cases hpure
    exact .inr ⟨rfl, report_failed rfl hreport⟩

/-- A class or entity is walked if it is at the root and found there, or the walk fails. What is
done with it need only vet the names of the result if it is the one that is declared. -/
theorem vets_lookup {γ : Type} {find : Check (Option γ)} {what : String} {span : Span}
    {f : Option γ → Check β} {P : γ → Prop} [DecidablePred P] {added : β → List Access}
    (hquiet : Quiet .checking find)
    (hfind : d = 0 → ∀ c s found s', Declared c p s → find c s = .ok (found, s') →
      s'.Failed ∨ ∃ info, found = some info ∧ P info)
    (hnone : ∀ known', Vets p d known' (f none) fun _ => known')
    (hsome : ∀ info known', Vets p d known' (f (some info)) fun r =>
      known' ++ if P info then added r else []) :
    Vets p d known (atRoot what span >>= fun isRoot =>
      if isRoot = true then find >>= f else pure none >>= f) fun r => known ++ added r := by
  intro c s r s' hs hrun
  obtain ⟨isRoot, t, hroot, hrest⟩ := bind_eq_ok hrun
  have ht := (quiet_atRoot what span).vets c s isRoot t hs hroot
  -- After a failure the names of the result need no vetting.
  have hfailed {found : Option γ} {u : State} (hu : Vetting c p d known u) (hfailed : u.Failed)
      (hrun : f found c u = .ok (r, s')) : Vetting c p d (known ++ added r) s' := by
    cases found with
    | none => exact hnone _ c u r s' (hu.of_failed hfailed) hrun
    | some info =>
      have hkept := (hsome info (known ++ added r)).mono fun _ => List.subset_append_left _ _
      exact hkept c u r s' (hu.of_failed hfailed) hrun
  rcases atRoot_cases hs hroot with ⟨rfl, rfl, hd⟩ | ⟨rfl, hreported⟩
  · obtain ⟨found, u, hfound, hrest⟩ := bind_eq_ok hrest
    have hu := hquiet.vets c t found u ht hfound
    rcases hfind hd c t found u hs.declared hfound with hfail | ⟨info, rfl, hinfo⟩
    · exact hfailed hu hfail hrest
    · have hadded : Vets p d known (f (some info)) fun r => known ++ added r :=
        (hsome info known).mono fun r => by rw [if_pos hinfo]; exact List.Subset.refl _
      exact hadded c u r s' hu hrest
  · exact hfailed ht hreported hrest

/-- A method call without an owner fails. -/
theorem calledMethod_failed {owner : DeclRef} {kind : NamedKind} {method : Ident}
    (hrun : calledMethod owner kind method c s = .ok (.ownerless, t)) : t.Failed := by
  obtain ⟨members, u, -, hrest⟩ := bind_eq_ok hrun
  cases members with
  | none =>
    obtain ⟨_, v, hfail, hpure⟩ := bind_eq_ok hrest
    cases hpure
    exact fail_failed hfail
  | some members =>
    cases hmethod : members.method? method.name with
    | some found =>
      simp only [hmethod] at hrest
      cases hrest
    | none =>
      simp only [hmethod] at hrest
      obtain ⟨_, v, -, hpure⟩ := bind_eq_ok hrest
      cases hpure

/-- What is done with the method of a method call need only vet names if there is an owner. -/
theorem vets_calledMethod {owner : DeclRef} {kind : NamedKind} {method : Ident}
    {f : CalledMethod → Check β} {names : β → List Access}
    (hfound : ∀ signature, Vets p d known (f (.found signature)) names)
    (hmissing : Vets p d known (f .missing) names)
    (hownerless : ∀ known', Vets p d known' (f .ownerless) fun _ => known') :
    Vets p d known (calledMethod owner kind method >>= f) names := by
  intro c s r s' hs hrun
  obtain ⟨called, t, hcalled, hrest⟩ := bind_eq_ok hrun
  have ht := (quiet_calledMethod owner kind method).vets c s called t hs hcalled
  cases called with
  | found signature => exact hfound signature c t r s' ht hrest
  | missing => exact hmissing c t r s' ht hrest
  | ownerless =>
    exact hownerless (names r) c t r s' (ht.of_failed (calledMethod_failed hcalled)) hrest

/-! ## Single nodes -/

theorem accesses_callNode (caller : Expr) (owner : Option MethodOwner) (generics : List TypeExpr)
    (args : List Expr) (amount : Nat) (span : Span) :
    (callNode caller owner generics args amount span).accesses =
      caller.accesses ++ Expr.allAccesses args := by
  unfold callNode
  split <;> rfl

theorem gives_fieldAccess_accesses (target : Expr) (value : Value) (field : Ident)
    (index : Option Nat) (span : Span) : Gives (fieldAccess target value field index span) fun r =>
      r.1.accesses ⊆ target.accesses := by
  intro c s r s' hrun
  rcases gives_fieldAccess target value field index span c s r s' hrun with ⟨_, hr⟩ | ⟨_, hr⟩ <;>
    rw [hr]
  exacts [List.Subset.refl _, List.nil_subset _]

theorem accesses_defaultLiteral? {ty : Ty} {span : Span} {e : Expr}
    (h : ty.defaultLiteral? span = some e) : e.accesses = [] := by
  unfold Ty.defaultLiteral? at h
  split at h <;> cases h <;> rfl

theorem allAccesses_eq_nil {es : List Expr} (h : ∀ e ∈ es, e.accesses = []) :
    Expr.allAccesses es = [] := by
  induction es with
  | nil => rfl
  | cons e rest ih =>
    simp only [Expr.allAccesses, List.append_eq_nil_iff]
    exact ⟨h e (by simp), ih fun e' he' => h e' (by simp [he'])⟩

/-- What is filled in for the values of a declaration has no qualified names. -/
theorem gives_defaultValues_accesses (d : Declaration) :
    Gives (defaultValues d) fun r => Expr.allAccesses r.1 = [] := by
  intro c s r s' hrun
  rcases gives_defaultValues d c s r s' hrun with ⟨ty, -, hdefaults⟩ | ⟨-, hnone⟩
  · refine allAccesses_eq_nil fun e he => ?_
    rw [hdefaults] at he
    obtain ⟨name, -, hname⟩ := List.mem_filterMap.1 he
    exact accesses_defaultLiteral? hname
  · rw [hnone]
    rfl

theorem accesses_unitLiteral (ty : Ty) (span : Span) : (ty.unitLiteral span).accesses = [] := by
  unfold Ty.unitLiteral
  split <;> rfl

theorem allAccesses_cons (decl : LifecycleDecl) (rest : List LifecycleDecl) :
    LifecycleDecl.allAccesses (decl :: rest) =
      LifecycleDecl.allAccesses [decl] ++ LifecycleDecl.allAccesses rest := by
  obtain ⟨_, _, _, _, _, _⟩ := decl
  simp [LifecycleDecl.allAccesses]

/-- A name, with the names that were vetted before. -/
theorem vets_leaf {m : Check (Expr × Value)} (hm : Quiet .checking m)
    (hleaf : ∀ c s o r t, Live c s o → Naming c.walk → WellLinked c s → m c s = .ok (r, t) →
      Vetted c t r.1.accesses) : Vets p d known m fun r => known ++ r.1.accesses := by
  intro c s r s' hs hrun
  obtain ⟨o, hl, -⟩ := hs.live
  have hrest := hm.vets c s r s' hs hrun
  have hnames := hrest.vetted.append (hleaf c s o r s' hl hs.naming hs.linked hrun)
  exact { hrest with vetted := hnames }

/-! ## Lists of nodes -/

/-- The qualified names of a walked expression are vetted. -/
def VetsExpr (p : Program) (e : Expr) : Prop :=
  ∀ (hint : Option Ty) (d : Nat) (known : List Access),
    Vets p d known (expr e hint) fun r => known ++ r.1.accesses

/-- The qualified names of a walked statement are vetted. At the root it is one of the program. -/
def VetsStmt (p : Program) (st : Stmt) : Prop :=
  ∀ (d : Nat) (known : List Access), (d = 0 → st ∈ p) →
    Vets p d known (stmt st) fun r => known ++ r.accesses

section Nodes

variable {es : List Expr} {stmts : List Stmt}

theorem vets_values_of (hes : ∀ e ∈ es, VetsExpr p e) (hints : List Ty) (d : Nat)
    (known : List Access) :
    Vets p d known (values es hints) fun r => known ++ Expr.allAccesses r.1 := by
  induction es generalizing hints known with
  | nil => exact .pure (by simp [Expr.allAccesses])
  | cons e rest ih =>
    rw [List.forall_mem_cons] at hes
    have hrest (known : List Access) := ih hes.2 hints.tail known
    refine (hes.1 hints.head? d known).bind fun _ => ?_
    dsimp only
    split
    · exact (Quiet.pure _).vets_bind fun _ => (hrest _).bind fun _ =>
        .pure (by simp [Expr.allAccesses])
    · exact (quiet_expectSingle _ _).vets_bind fun _ => (Quiet.pure _).vets_bind fun _ =>
        (hrest _).bind fun _ => .pure (by simp [Expr.allAccesses])

theorem vets_elements_of (hes : ∀ e ∈ es, VetsExpr p e) (reference : Option Ty) (d : Nat)
    (known : List Access) :
    Vets p d known (elements es reference) fun r => known ++ Expr.allAccesses r.1 := by
  induction es generalizing reference known with
  | nil => exact .pure (by simp [Expr.allAccesses])
  | cons e rest ih =>
    rw [List.forall_mem_cons] at hes
    exact (hes.1 reference d known).single.bind fun _ => (quiet_elementType _ _ _).vets_bind
      fun _ => (ih hes.2 _ _).bind fun _ => .pure (by simp [Expr.allAccesses])

theorem vets_mapEntries_of {entries : List MapEntry}
    (hes : ∀ e ∈ entries.map (·.value), VetsExpr p e) (keys : List String) (reference : Option Ty)
    (d : Nat) (known : List Access) :
    Vets p d known (mapEntries entries keys reference) fun r =>
      known ++ MapEntry.allAccesses r.1 := by
  induction entries generalizing keys reference known with
  | nil => exact .pure (by simp [MapEntry.allAccesses])
  | cons entry rest ih =>
    obtain ⟨key, e⟩ := entry
    rw [List.map_cons, List.forall_mem_cons] at hes
    have hfirst := (hes.1 reference d known).single
    unfold mapEntries
    exact .guard (quiet_report _ _ rfl) fun _ => hfirst.bind fun _ =>
      (quiet_elementType _ _ _).vets_bind fun _ => (ih hes.2 _ _ _).bind fun _ =>
        .pure (by simp [MapEntry.allAccesses])

theorem vets_unchecked_of (hes : ∀ e ∈ es, VetsExpr p e) (d : Nat) (known : List Access) :
    Vets p d known (unchecked es) fun r => known ++ Expr.allAccesses r := by
  induction es generalizing known with
  | nil => exact .pure (by simp [Expr.allAccesses])
  | cons e rest ih =>
    rw [List.forall_mem_cons] at hes
    exact (hes.1 none d known).bind fun _ => (ih hes.2 _).bind fun _ =>
      .pure (by simp [Expr.allAccesses])

theorem vets_patterns_of (hes : ∀ e ∈ es, VetsExpr p e) (subject : Ty) (d : Nat)
    (known : List Access) :
    Vets p d known (patterns es subject) fun r => known ++ Expr.allAccesses r := by
  induction es generalizing known with
  | nil => exact .pure (by simp [Expr.allAccesses])
  | cons e rest ih =>
    rw [List.forall_mem_cons] at hes
    exact (hes.1 (some subject) d known).single.bind fun _ => .guard (quiet_report _ _ rfl)
      fun _ => (ih hes.2 _).bind fun _ => .pure (by simp [Expr.allAccesses])

theorem vets_places_of (hes : ∀ e ∈ es, VetsExpr p e) (d : Nat) (known : List Access) :
    Vets p d known (places es) fun r => known ++ Expr.allAccesses r.1 := by
  induction es generalizing known with
  | nil => exact .pure (by simp [Expr.allAccesses])
  | cons e rest ih =>
    rw [List.forall_mem_cons] at hes
    exact (quiet_assignLocal _).vets_bind fun _ => (hes.1 none d known).single.bind fun _ =>
      (quiet_finishPlace _ _ _).vets_bind fun _ => (ih hes.2 _).bind fun _ =>
        .pure (by simp [Expr.allAccesses])

theorem vets_repeatPart_of {part : Option Expr} (hes : ∀ e ∈ part.toList, VetsExpr p e) (ty : Ty)
    (span : Span) (d : Nat) (known : List Access) :
    Vets p d known (repeatPart part ty span) fun r => known ++ r.accesses := by
  cases part with
  | none => exact .pure (by simp [accesses_unitLiteral])
  | some e =>
    have he := hes e (List.mem_singleton_self e) (some ty) d known
    exact he.single.bind fun _ => (quiet_checkType _ _ _ _).vets_bind fun _ =>
      .pure (List.Subset.refl _)

theorem vets_body_of (hstmts : ∀ st ∈ stmts, VetsStmt p st) (reported : Bool) (d : Nat)
    (known : List Access) (h : d = 0 → stmts ⊆ p) :
    Vets p d known (body stmts reported) fun r => known ++ Stmt.allAccesses r := by
  induction stmts generalizing reported known with
  | nil => exact .pure (by simp [Stmt.allAccesses])
  | cons first rest ih =>
    rw [List.forall_mem_cons] at hstmts
    have hfirst := hstmts.1 d known fun hd => h hd (by simp)
    have hrest (reported : Bool) (known : List Access) :=
      ih hstmts.2 reported known fun hd st hst => h hd (by simp [hst])
    unfold body
    refine hfirst.bind fun first' => quiet_clearNarrowings.vets_bind fun _ => ?_
    have hothers (reported : Bool) : Vets p d (known ++ first'.accesses) (do
        let rest ← body rest reported
        return first' :: rest) fun r => known ++ Stmt.allAccesses r :=
      (hrest reported _).bind fun _ => .pure (by simp [Stmt.allAccesses])
    have hcut : Vets p d (known ++ first'.accesses) (pure [first']) fun r =>
        known ++ Stmt.allAccesses r := .pure (by simp [Stmt.allAccesses])
    cases rest with
    | nil => exact hcut
    | cons next others =>
      refine quiet_alwaysLeaves.vets_bind fun certain => ?_
      split
      · refine .guard (quiet_report _ _ rfl) fun _ => quiet_get.vets_bind fun st => ?_
        split
        · exact hcut
        · exact hothers true
      · exact hothers reported

/-- A body inside another scope. -/
theorem vets_innerBody_of (hstmts : ∀ st ∈ stmts, VetsStmt p st) (d : Nat) (known : List Access) :
    Vets p (d + 1) known (body stmts false) fun r => known ++ Stmt.allAccesses r :=
  vets_body_of hstmts false (d + 1) known nofun

theorem vets_matchArms_of {arms : List MatchArm}
    (hes : ∀ e ∈ arms.flatMap (·.patterns), VetsExpr p e)
    (hstmts : ∀ st ∈ arms.flatMap (·.body), VetsStmt p st) (subject : Ty) (d : Nat)
    (known : List Access) :
    Vets p d known (matchArms arms subject) fun r => known ++ MatchArm.allAccesses r.1 := by
  induction arms generalizing known with
  | nil => exact .pure (by simp [MatchArm.allAccesses])
  | cons arm rest ih =>
    obtain ⟨pats, isDefault, stmts, span⟩ := arm
    rw [List.flatMap_cons, List.forall_mem_append] at hes hstmts
    have hpats := vets_patterns_of hes.1 subject d known
    have harm (known : List Access) := (vets_innerBody_of hstmts.1 d known).inBranch
    have hrest (known : List Access) := ih hes.2 hstmts.2 known
    unfold matchArms
    dsimp only
    cases isDefault with
    | true =>
      refine .guard (quiet_report _ _ rfl) fun _ => Vets.pure_bind ?_
      exact (harm known).bind fun _ => (hrest _).bind fun _ =>
        .pure (by simp [MatchArm.allAccesses])
    | false =>
      refine hpats.bind fun _ => quiet_clearNarrowings.vets_bind fun _ => Vets.pure_bind ?_
      exact (harm _).bind fun _ => (hrest _).bind fun _ => .pure (by simp [MatchArm.allAccesses])

theorem vets_elseIfs_of {branches : List ElseIf}
    (hes : ∀ e ∈ branches.map (·.condition), VetsExpr p e)
    (hstmts : ∀ st ∈ branches.flatMap (·.body), VetsStmt p st) (d : Nat) (known : List Access) :
    Vets p d known (elseIfs branches) fun r => known ++ ElseIf.allAccesses r := by
  induction branches generalizing known with
  | nil => exact .pure (by simp [ElseIf.allAccesses])
  | cons branch rest ih =>
    obtain ⟨condition, stmts, span⟩ := branch
    rw [List.map_cons, List.forall_mem_cons] at hes
    rw [List.flatMap_cons, List.forall_mem_append] at hstmts
    have hbody (known : List Access) := vets_innerBody_of hstmts.1 d known
    exact (hes.1 none d known).single.bind fun _ => (quiet_conditionNarrowings _ _).vets_bind
      fun narrowings => ((quiet_declareNarrowings narrowings false).vets_bind
        fun _ => hbody _).inBranch.bind fun _ => (ih hes.2 hstmts.2 _).bind fun _ =>
          .pure (by simp [ElseIf.allAccesses])

theorem vets_elseBody_of {otherwise : Option (List Stmt)}
    (hstmts : ∀ st ∈ otherwise.getD [], VetsStmt p st) (narrowings : List Narrowing) (d : Nat)
    (known : List Access) :
    Vets p d known (elseBody otherwise narrowings) fun r => known ++ Stmt.optionAccesses r := by
  cases otherwise with
  | none => exact vets_reportExits.bind fun _ => .pure (by simp [Stmt.optionAccesses])
  | some stmts =>
    exact ((quiet_declareNarrowings narrowings true).vets_bind fun _ =>
      vets_innerBody_of hstmts d known).inBranch.bind fun _ => .pure (by simp [Stmt.optionAccesses])

theorem vets_initializers_of {decls : List VariableDecl}
    (hes : ∀ e ∈ decls.flatMap (·.values), VetsExpr p e) (owner : DeclRef) (kind : NamedKind)
    (members : Members) (d : Nat) (known : List Access) :
    Vets p (d + 1) known (initializers decls owner kind members) fun r =>
      known ++ VariableDecl.allAccesses r := by
  induction decls generalizing known with
  | nil => exact .pure (by simp [VariableDecl.allAccesses])
  | cons decl rest ih =>
    obtain ⟨names, ty, exprs, isPub, isConst, span⟩ := decl
    rw [List.flatMap_cons, List.forall_mem_append] at hes
    have hvalues (hints : List Ty) : Vets p (d + 1) known
        (inScope (·.pushRestricted .plain { selfRef := true }) (values exprs hints))
        fun r => known ++ Expr.allAccesses r.1.1 :=
      (vets_values_of hes.1 hints (d + 2) known).pushRestricted
    have hrest (known : List Access) := ih hes.2 known
    unfold initializers
    dsimp only
    split
    · next hempty =>
      obtain rfl := List.isEmpty_iff.1 hempty
      exact Vets.pure_bind ((hrest _).bind fun _ =>
        .pure (by simp [VariableDecl.allAccesses, Expr.allAccesses]))
    · exact (hvalues _).bind fun _ => (quiet_checkValueCount _ _ _ _).vets_bind fun _ =>
        (vets_checkInitializers _ _ _ _ _).bind fun _ => Vets.pure_bind ((hrest _).bind fun _ =>
          .pure (by simp [VariableDecl.allAccesses]))

theorem vets_constructorBody_of {decl : Option ConstructorDecl}
    (hstmts : ∀ st ∈ decl.toList.flatMap (·.body), VetsStmt p st) (signature : Option Signature)
    (d : Nat) (known : List Access) : Vets p d known (constructorBody decl signature) fun r =>
      known ++ if signature.isSome = decl.isSome then ConstructorDecl.optionAccesses r else [] := by
  cases decl with
  | none => exact .pure (by simp [ConstructorDecl.optionAccesses])
  | some decl =>
    obtain ⟨generics, params, stmts, span⟩ := decl
    rw [Option.toList_some, List.flatMap_singleton] at hstmts
    cases signature with
    | none => exact .pure (by simp)
    | some signature =>
      exact (vets_innerBody_of hstmts d known).inFunction.bind fun _ =>
        (quiet_checkFieldsInitialized _).vets_bind fun _ =>
          .pure (by simp [ConstructorDecl.optionAccesses])

theorem vets_methodBodies_of {decls : List FunctionDecl}
    (hstmts : ∀ st ∈ decls.flatMap (·.body), VetsStmt p st) (members : Members) (d : Nat)
    (known : List Access) :
    Vets p d known (methodBodies decls members) fun r => known ++ FunctionDecl.allAccesses r := by
  induction decls generalizing known with
  | nil => exact .pure (by simp [FunctionDecl.allAccesses])
  | cons decl rest ih =>
    obtain ⟨name, generics, params, returns, stmts, isPub, span⟩ := decl
    rw [List.flatMap_cons, List.forall_mem_append] at hstmts
    exact (quiet_methodSignature _ _ _ _ _).vets_bind fun _ =>
      (vets_innerBody_of hstmts.1 d known).inFunction.bind fun _ => (ih hstmts.2 _).bind fun _ =>
        .pure (by simp [FunctionDecl.allAccesses])

theorem vets_firstSpawn_of {decls : List LifecycleDecl}
    (hstmts : ∀ st ∈ decls.flatMap (·.body), VetsStmt p st) (entity : EntityInfo) (d : Nat)
    (known : List Access) : Vets p d known (firstSpawn decls entity) fun r =>
      known ++ LifecycleDecl.allAccesses r.1.toList := by
  induction decls with
  | nil => exact .pure (by simp [LifecycleDecl.allAccesses])
  | cons decl rest ih =>
    obtain ⟨kind, generics, params, returns, stmts, span⟩ := decl
    rw [List.flatMap_cons, List.forall_mem_append] at hstmts
    have hbody := vets_innerBody_of hstmts.1 d known
    unfold firstSpawn
    split
    · exact (quiet_walkedSignature _ _ _ _ _ _).vets_bind fun _ => hbody.inFunction.bind fun _ =>
        .guard (quiet_checkFieldsInitialized _) fun _ =>
          .pure (by simp [LifecycleDecl.allAccesses])
    · exact ih hstmts.2

theorem vets_otherLifecycles_of {decls : List LifecycleDecl}
    (hstmts : ∀ st ∈ decls.flatMap (·.body), VetsStmt p st) (entity : EntityInfo)
    (spawned : Option LifecycleDecl) (seen : List LifecycleKind) (d : Nat) (known : List Access)
    (hspawned : LifecycleDecl.allAccesses spawned.toList ⊆ known) :
    Vets p d known (otherLifecycles decls entity spawned seen) fun r =>
      known ++ LifecycleDecl.allAccesses r := by
  induction decls generalizing spawned seen known with
  | nil => exact .pure (by simp [LifecycleDecl.allAccesses])
  | cons decl rest ih =>
    obtain ⟨kind, generics, params, returns, stmts, span⟩ := decl
    rw [List.flatMap_cons, List.forall_mem_append] at hstmts
    have hbody := vets_innerBody_of hstmts.1 d known
    have hrest (spawned : Option LifecycleDecl) (seen : List LifecycleKind) (known : List Access)
        (hspawned : LifecycleDecl.allAccesses spawned.toList ⊆ known) :=
      ih hstmts.2 spawned seen known hspawned
    unfold otherLifecycles
    split
    · next walked =>
      refine (hrest none seen known (List.nil_subset _)).bind fun others => .pure ?_
      rw [allAccesses_cons]
      have hwalked : LifecycleDecl.allAccesses [walked] ⊆ known := hspawned
      exact List.append_subset.2 ⟨List.subset_append_left _ _, List.append_subset.2
        ⟨List.Subset.trans hwalked (List.subset_append_left _ _), List.subset_append_right _ _⟩⟩
    · exact (quiet_walkedSignature _ _ _ _ _ _).vets_bind fun _ => hbody.inFunction.bind fun _ =>
        .guard (quiet_checkFieldsInitialized _) fun _ =>
          (hrest _ _ _ (List.Subset.trans hspawned (List.subset_append_left _ _))).bind fun _ =>
            .pure (by simp [LifecycleDecl.allAccesses])

end Nodes

/-! ## Nodes -/

theorem vets_expr_of {e : Expr} (hes : ∀ child ∈ e.children, VetsExpr p child)
    (hpatterns : ∀ pattern ∈ e.patterns, VetsExpr p pattern)
    (hstmts : ∀ st ∈ e.statements, VetsStmt p st) : VetsExpr p e := by
  intro hint d known
  cases e with
  | literal | error => exact .pure (by simp [Expr.accesses])
  | ident id =>
    exact vets_leaf (quiet_identifier id) fun _ _ _ _ _ hl _ hs hrun => identifier_vetted hl hs hrun
  | builtin id => exact (quiet_builtinValue id).vets_bind fun _ => .pure (by simp [Expr.accesses])
  | envAccess env name span =>
    exact vets_leaf (quiet_qualifiedName env name span) fun _ _ _ _ _ hl hw hs hrun =>
      qualifiedName_vetted hl hw hs hrun
  | unary op operand span =>
    have hoperand := (hes operand (List.mem_singleton_self _) none d known).single
    exact hoperand.bind fun _ => (quiet_unaryValue _ _ _).vets_bind fun _ =>
      .pure (by simp [Expr.accesses])
  | binary left op right span =>
    obtain ⟨hleft, hright⟩ := List.forall_mem_cons.1 hes
    have hright (hint : Option Ty) (known : List Access) :=
      (hright right (List.mem_singleton_self _) hint d known).single
    refine quiet_get.vets_bind fun _ => (hleft none d known).single.bind fun _ =>
      (hright _ _).bind fun _ => ?_
    exact .guard (quiet_dropUnderOr _ _) fun _ => (quiet_binaryValue _ _ _ _).vets_bind fun _ =>
      .pure (by simp [Expr.accesses])
  | group inner span =>
    exact (hes inner (List.mem_singleton_self _) hint d known).bind fun _ =>
      .pure (by simp [Expr.accesses])
  | list elems span =>
    exact (quiet_checkKnown _ _ _).vets_bind fun _ => (vets_elements_of hes _ d known).bind
      fun _ => .pure (by simp [Expr.accesses])
  | map entries span =>
    exact (quiet_checkKnown _ _ _).vets_bind fun _ => (vets_mapEntries_of hes _ _ d known).bind
      fun _ => .pure (by simp [Expr.accesses])
  | call caller generics args amount span =>
    obtain ⟨hcaller, hargs⟩ := List.forall_mem_cons.1 hes
    have hvalues (hints : List Ty) (known : List Access) := vets_values_of hargs hints d known
    refine (hcaller none d known).single.bind fun _ => ?_
    dsimp only
    split
    · exact (Vets.call fun hints => hvalues hints _).bind fun _ =>
        .pure (by simp [accesses_callNode])
    · exact .guard (quiet_report _ _ rfl) fun _ => (vets_unchecked_of hargs d _).bind fun _ =>
        .pure (by simp [Expr.accesses])
  | methodCall receiver owner kind method generics args amount span =>
    obtain ⟨hreceiver, hargs⟩ := List.forall_mem_cons.1 hes
    have hvalues (hints : List Ty) (known : List Access) := vets_values_of hargs hints d known
    refine (hreceiver none d known).single.bind fun _ =>
      vets_calledMethod (fun _ => ?_) ?_ fun _ => ?_
    · exact (Vets.call fun hints => hvalues hints _).bind fun _ => .pure (by simp [Expr.accesses])
    · exact (vets_unchecked_of hargs d _).bind fun _ => .pure (by simp [Expr.accesses])
    · exact .pure (List.Subset.refl _)
  | field target field index span =>
    exact (hes target (List.mem_singleton_self _) none d known).single.bind fun r =>
      (quiet_fieldAccess _ _ _ _ _).vets_of fun _ _ _ _ hrun => by
        have hsubset := gives_fieldAccess_accesses _ _ _ _ _ _ _ _ _ hrun
        exact List.append_subset.2 ⟨List.subset_append_left _ _,
          List.Subset.trans hsubset (List.subset_append_right _ _)⟩
  | member target index span =>
    obtain ⟨htarget, hindex⟩ := List.forall_mem_cons.1 hes
    have hindex (known : List Access) :=
      (hindex index (List.mem_singleton_self _) none d known).single
    exact (htarget none d known).single.bind fun _ => (hindex _).bind fun _ =>
      (quiet_elementValue _ _ _ _).vets_bind fun _ => .pure (by simp [Expr.accesses])
  | self owner span => exact (quiet_selfValue _).vets_bind fun _ => .pure (by simp [Expr.accesses])
  | new ty generics args span | spawn ty generics args span =>
    have hvalues (hints : List Ty) (known : List Access) := vets_values_of hes hints d known
    refine (quiet_constructed _ _ _).vets_bind fun found => ?_
    split
    · exact (Vets.call fun hints => hvalues hints _).bind fun _ => .pure (by simp [Expr.accesses])
    · exact (vets_unchecked_of hes d _).bind fun _ => .pure (by simp [Expr.accesses])
  | function params returns stmts span =>
    exact (quiet_resolveSignature _ _ _).vets_bind fun _ =>
      (vets_innerBody_of hstmts d known).inFunction.bind fun _ => .pure (by simp [Expr.accesses])
  | matching subject arms amount span =>
    have hsubject := (hes subject (List.mem_singleton_self _) none d known).single
    have harms (ty : Ty) (known : List Access) :=
      vets_matchArms_of hpatterns hstmts ty (d + 1) known
    exact hsubject.bind fun _ => (harms _ _).push.bind fun _ => (quiet_matchValue _ _ _).vets_bind
      fun _ => .pure (by simp [Expr.accesses])
  | entityTest value ty binding negated official span =>
    exact (hes value (List.mem_singleton_self _) none d known).single.bind fun _ =>
      (quiet_checkType _ _ _ _).vets_bind fun _ => (quiet_entityTest _ _ _ _).vets_bind fun _ =>
        .pure (by simp [Expr.accesses])

theorem vets_variable {decl : VariableDecl} (hes : ∀ e ∈ decl.values, VetsExpr p e) (d : Nat)
    (known : List Access) :
    Vets p d known (stmt (.variable decl)) fun r => known ++ r.accesses := by
  obtain ⟨names, ty, exprs, isPub, isConst, span⟩ := decl
  have hvalues (hints : List Ty) :
      Vets p d known (values exprs hints) fun r => known ++ Expr.allAccesses r.1 :=
    vets_values_of hes hints d known
  have hnames (d' : Declaration) (given : List Expr × List Value) :
      Vets p d (known ++ Expr.allAccesses given.1) (do
        declareNames d' names given.2 (inlinedLiterals names given.1)
        return Stmt.variable ⟨names, ty, given.1, isPub, isConst, span⟩) fun r =>
      known ++ r.accesses :=
    (quiet_declareNames _ _ _ _).vets_bind fun _ => .pure (by simp [Stmt.accesses])
  unfold stmt
  refine .guard_scopes (quiet_report _ _ rfl) ?_
  refine .guard (quiet_report _ _ rfl) fun _ => (quiet_resolveType? _).vets_bind fun declared => ?_
  dsimp only
  split
  · refine ((quiet_defaultValues _).vets_of fun _ _ r _ hrun => ?_).bind fun given => hnames _ given
    simp [gives_defaultValues_accesses _ _ _ _ _ hrun]
  · exact (hvalues _).bind fun _ => (quiet_checkValueCount _ _ _ _).vets_bind fun _ =>
      Vets.pure_bind (hnames _ (_, _))

theorem vets_classDecl {decl : ClassDecl} (hes : ∀ e ∈ decl.fields.flatMap (·.values), VetsExpr p e)
    (hmethods : ∀ st ∈ decl.methods.flatMap (·.body), VetsStmt p st)
    (hconstructor : ∀ st ∈ decl.constructor.toList.flatMap (·.body), VetsStmt p st) (d : Nat)
    (known : List Access) (h : d = 0 → Stmt.classDecl decl ∈ p) :
    Vets p d known (stmt (.classDecl decl)) fun r => known ++ r.accesses := by
  obtain ⟨name, isPub, fields, methods, constructor, span⟩ := decl
  have hfields (info : ClassInfo) (known : List Access) :=
    vets_initializers_of hes info.ty .classDecl info.members d known
  have hnew (signature : Option Signature) (known : List Access) :=
    vets_constructorBody_of hconstructor signature (d + 1) known
  have hbodies (members : Members) (known : List Access) :=
    vets_methodBodies_of hmethods members (d + 1) known
  -- The constructor is walked if the class was registered with one.
  refine vets_lookup (P := fun info => info.constructor.isSome = constructor.isSome)
    (quiet_ownClass? _) (fun hd c s found s' hdeclared hrun => hdeclared.ownClass? (h hd) hrun)
    (fun _ => .pure (List.Subset.refl _)) fun info known => ?_
  refine Vets.bind (Vets.push (n := fun r => known ++ VariableDecl.allAccesses r.1 ++
    (if info.constructor.isSome = constructor.isSome then
      ConstructorDecl.optionAccesses r.2.1 else []) ++ FunctionDecl.allAccesses r.2.2) ?_) ?_
  · exact (quiet_bindMembers _).vets_bind fun _ => (hfields info _).bind fun _ =>
      (hnew _ _).bind fun _ => (hbodies _ _).bind fun _ => .pure (by simp)
  · rintro ⟨⟨fields', constructor', methods'⟩, _⟩
    refine .pure fun a ha => ?_
    split at ha
    · next hsome =>
      simp only [Stmt.accesses, List.mem_append, if_pos hsome] at ha ⊢
      tauto
    · next hother =>
      rw [List.append_nil] at ha
      simp [ha]

theorem vets_entityDecl {decl : EntityDecl}
    (hes : ∀ e ∈ decl.fields.flatMap (·.values), VetsExpr p e)
    (hmethods : ∀ st ∈ decl.methods.flatMap (·.body), VetsStmt p st)
    (hfunctions : ∀ st ∈ decl.functions.flatMap (·.body), VetsStmt p st) (d : Nat)
    (known : List Access) (h : d = 0 → Stmt.entityDecl decl ∈ p) :
    Vets p d known (stmt (.entityDecl decl)) fun r => known ++ r.accesses := by
  obtain ⟨name, isPub, fields, methods, functions, span⟩ := decl
  have hfields (info : EntityInfo) (known : List Access) :=
    vets_initializers_of hes info.ty .entityDecl info.members d known
  have hspawn (info : EntityInfo) (known : List Access) :=
    vets_firstSpawn_of hfunctions info (d + 1) known
  have hothers (info : EntityInfo) (spawned : Option LifecycleDecl) (seen : List LifecycleKind)
      (known : List Access) (hspawned : LifecycleDecl.allAccesses spawned.toList ⊆ known) :=
    vets_otherLifecycles_of hfunctions info spawned seen (d + 1) known hspawned
  have hbodies (members : Members) (known : List Access) :=
    vets_methodBodies_of hmethods members (d + 1) known
  refine vets_lookup (P := fun _ => True) (quiet_ownEntity? _)
    (fun hd c s found s' hdeclared hrun => (hdeclared.ownEntity? (h hd) hrun).imp_right
      (Exists.imp fun info hinfo => ⟨hinfo, trivial⟩)) (fun _ => .pure (List.Subset.refl _))
    fun info known => ?_
  refine Vets.bind (Vets.push (n := fun r => known ++ VariableDecl.allAccesses r.1 ++
    LifecycleDecl.allAccesses r.2.1 ++ FunctionDecl.allAccesses r.2.2) ?_) ?_
  · refine (quiet_bindMembers _).vets_bind fun _ => (hfields info _).bind fun _ =>
      (hspawn info _).bind fun _ => (hothers info _ _ _ (by simp)).bind fun _ =>
        (hbodies _ _).bind fun _ => .pure fun a ha => ?_
    simp only [List.mem_append] at ha ⊢
    tauto
  · rintro ⟨⟨fields', functions', methods'⟩, _⟩
    refine .pure fun a ha => ?_
    simp only [Stmt.accesses, List.mem_append, if_true] at ha ⊢
    tauto

theorem vets_stmt_of {st : Stmt} (hes : ∀ e ∈ st.expressions, VetsExpr p e)
    (hstmts : ∀ inner ∈ st.statements, VetsStmt p inner) : VetsStmt p st := by
  intro d known h
  cases st with
  | env decl => exact (quiet_report _ _ rfl).vets_bind fun _ => .pure (by simp [Stmt.accesses])
  | «variable» decl => exact vets_variable hes d known
  | function decl =>
    obtain ⟨name, generics, params, returns, stmts, isPub, span⟩ := decl
    exact (quiet_functionSignature _ _ _ _ _ _).vets_bind fun _ =>
      (vets_innerBody_of hstmts d known).inFunction.bind fun _ => .pure (by simp [Stmt.accesses])
  | classDecl decl =>
    obtain ⟨hmethods, hconstructor⟩ := List.forall_mem_append.1 hstmts
    exact vets_classDecl hes hmethods hconstructor d known h
  | entityDecl decl =>
    obtain ⟨hmethods, hfunctions⟩ := List.forall_mem_append.1 hstmts
    exact vets_entityDecl hes hmethods hfunctions d known h
  | enumDecl | aliasDecl =>
    exact (quiet_atRoot _ _).vets_bind fun _ => .pure (by simp [Stmt.accesses])
  | assign targets op exprs span =>
    obtain ⟨htargets, hexprs⟩ := List.forall_mem_append.1 hes
    exact (vets_places_of htargets d known).bind fun _ => (vets_values_of hexprs _ d _).bind
      fun _ => (quiet_checkValueCount _ _ _ _).vets_bind fun _ =>
        (quiet_checkAssigned _ _ _).vets_bind fun _ => .pure (by simp [Stmt.accesses])
  | ifChain condition stmts elseifs otherwise span =>
    obtain ⟨hcondition, hconditions⟩ := List.forall_mem_cons.1 hes
    obtain ⟨hthen, hstmts⟩ := List.forall_mem_append.1 hstmts
    obtain ⟨hbodies, helse⟩ := List.forall_mem_append.1 hstmts
    have hbody (known : List Access) := vets_innerBody_of hthen (d + 1) known
    have helseifs (known : List Access) := vets_elseIfs_of hconditions hbodies (d + 1) known
    have hotherwise (narrowings : List Narrowing) (known : List Access) :=
      vets_elseBody_of helse narrowings (d + 1) known
    refine (hcondition none d known).single.bind fun condition' =>
      (quiet_conditionNarrowings _ _).vets_bind fun narrowings => ?_
    have hfirst (known : List Access) := ((quiet_declareNarrowings narrowings false).vets_bind
      fun _ => hbody known).inBranch
    refine Vets.bind (Vets.push (n := fun r => known ++ condition'.1.accesses ++
      Stmt.allAccesses r.1 ++ ElseIf.allAccesses r.2.2.1 ++ Stmt.optionAccesses r.2.2.2) ?_) ?_
    · exact (hfirst _).bind fun _ => (helseifs _).bind fun _ => (hotherwise _ _).bind fun _ =>
        .pure (List.Subset.refl _)
    · rintro ⟨⟨stmts', exits, elseifs', otherwise'⟩, _⟩
      exact .guard (quiet_declareNarrowings _ _) fun _ => .pure (by simp [Stmt.accesses])
  | repeatLoop iterator start skip counter stmts span =>
    obtain ⟨hiterator, hparts⟩ := List.forall_mem_cons.1 hes
    obtain ⟨hstart, hskip⟩ := List.forall_mem_append.1 hparts
    exact (hiterator none d known).single.bind fun _ => (quiet_repeatType _ _).vets_bind fun _ =>
      (vets_repeatPart_of hstart _ _ d _).bind fun _ => (vets_repeatPart_of hskip _ _ d _).bind
        fun _ => (vets_innerBody_of hstmts d _).inLoop.bind fun _ =>
          .pure (by simp [Stmt.accesses, Expr.optionAccesses])
  | whileLoop condition stmts span =>
    have hcondition := (hes condition (List.mem_singleton_self _) none d known).single
    exact hcondition.bind fun _ => (quiet_conditionNarrowings _ _).vets_bind fun _ =>
      (Vets.inLoop ((quiet_declareNarrowings _ _).vets_bind fun _ =>
        vets_innerBody_of hstmts d _)).bind fun _ => .pure (by simp [Stmt.accesses])
  | forLoop key value iterator stmts span =>
    have hiterator := (hes iterator (List.mem_singleton_self _) none d known).single
    exact hiterator.bind fun _ => (quiet_iterated _ _).vets_bind fun _ =>
      (quiet_forKey _ _).vets_bind fun _ => (vets_innerBody_of hstmts d _).inLoop.bind fun _ =>
        .pure (by simp [Stmt.accesses])
  | tick counter stmts span =>
    exact (vets_innerBody_of hstmts d known).inLoop.bind fun _ => .pure (by simp [Stmt.accesses])
  | matching subject arms span =>
    obtain ⟨hsubject, hpatterns⟩ := List.forall_mem_cons.1 hes
    have harms (ty : Ty) (known : List Access) :=
      vets_matchArms_of hpatterns hstmts ty (d + 1) known
    refine (hsubject none d known).single.bind fun subject' => ?_
    refine Vets.bind (Vets.push (n := fun r => known ++ subject'.1.accesses ++
      MatchArm.allAccesses r.1) ((harms _ _).bind fun _ => ?_)) fun _ => ?_
    · exact .guard_of vets_reportExits fun _ => .pure (List.Subset.refl _)
    · exact .guard (quiet_report _ _ rfl) fun _ => .pure (by simp [Stmt.accesses])
  | returning exprs span =>
    have hvalues (hints : List Ty) := vets_values_of hes hints d known
    refine (quiet_exitAllowed _ _ _).checking.vets_bind fun allowed => ?_
    split
    · exact quiet_returnTypes.vets_bind fun _ => (hvalues _).bind fun _ =>
        (exiting_checkReturn _ _ _).vets.bind fun _ => .pure (by simp [Stmt.accesses])
    · exact (hvalues _).bind fun _ => .pure (by simp [Stmt.accesses])
  | yielding exprs span =>
    have hvalues (hints : List Ty) := vets_values_of hes hints d known
    refine (quiet_exitAllowed _ _ _).checking.vets_bind fun allowed => ?_
    split
    · exact quiet_yieldTarget.vets_bind fun _ => (hvalues _).bind fun _ =>
        (exiting_checkYield _ _ _ _).vets.bind fun _ => .pure (by simp [Stmt.accesses])
    · exact (hvalues _).bind fun _ => .pure (by simp [Stmt.accesses])
  | breaking span | continuing span =>
    refine (quiet_exitAllowed _ _ _).checking.vets_bind fun allowed => ?_
    split
    · exact (exiting_markExit _).vets.bind fun _ => .pure (by simp [Stmt.accesses])
    · exact .pure (by simp [Stmt.accesses])
  | destroy target generics args span =>
    obtain ⟨htarget, hargs⟩ := List.forall_mem_cons.1 hes
    have hvalues (hints : List Ty) (known : List Access) := vets_values_of hargs hints d known
    refine (htarget none d known).single.bind fun _ => (quiet_destroyer? _ _).vets_bind
      fun found => ?_
    split
    · exact (Vets.call fun hints => hvalues hints _).bind fun _ => .pure (by simp [Stmt.accesses])
    · exact (vets_unchecked_of hargs d _).bind fun _ => .pure (by simp [Stmt.accesses])
  | use decl =>
    exact quiet_scopes.vets_bind fun stack => .guard (quiet_useEnvironment _) fun _ =>
      .pure (by simp [Stmt.accesses])
  | expr e =>
    exact (hes e (List.mem_singleton_self _) none d known).bind fun _ =>
      .pure (by simp [Stmt.accesses])
  | error span => exact .pure (by simp [Stmt.accesses])

/-! ## Trees -/

theorem vets_tree (p : Program) : (∀ e, VetsExpr p e) ∧ ∀ st, VetsStmt p st :=
  Tree.induction (fun _ hes hpatterns hstmts => vets_expr_of hes hpatterns hstmts)
    fun _ hes hstmts => vets_stmt_of hes hstmts

/-- The statements of a program, at the root. -/
theorem vets_rootBody {stmts : List Stmt} (h : stmts ⊆ p) :
    Vets p 0 [] (body stmts false) Stmt.allAccesses :=
  vets_body_of (fun st _ => (vets_tree p).2 st) false 0 [] fun _ => h

/-- The qualified names of a resolved program may be used, or the walk has failed. -/
theorem vetted_program {out : Program} (hs : Vetting c p 0 [] s)
    (hrun : Check.program p c s = .ok (out, t)) : Vetting c p 0 (Stmt.allAccesses out) t := by
  cases p with
  | nil => exact vets_rootBody (List.Subset.refl _) c s out t hs hrun
  | cons first rest =>
    cases first with
    | env decl =>
      obtain ⟨rest', u, hrest, hpure⟩ := bind_eq_ok hrun
      cases hpure
      exact vets_rootBody (List.subset_cons_self _ _) c s rest' t hs hrest
    | _ => exact vets_rootBody (List.Subset.refl _) c s out t hs hrun

end Check

end HybroidSema
