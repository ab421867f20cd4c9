import HybroidSema.Proofs.DeadStatements
import HybroidSema.Proofs.Pruning
import HybroidSema.Proofs.RootExits

/-!
# Dead statements make no difference

With pruning, what a walk leaves does not depend on the dead statements of its program.

* `Check.AgreesIn`: two checks that do the same where statements are removed. The rules follow what
  checks are built of, and `agrees_body` is the rule of a body.
* `agrees_expr_of`, `agrees_stmt_of`: a node, where its children agree. `agrees_tree` is the induction.
-/

namespace HybroidSema

namespace Check

variable {α β : Type} {m m' : Check α} {c : Context} {s : State} {p : Permissions}

/-! ## Checks that do the same -/

/-- The first check does what the second one does, where statements are removed, the exits in `p`
are permitted and `ok` holds of the scopes. -/
def AgreesIn (ok : ScopeStack → Prop) (p : Permissions) (m' m : Check α) : Prop :=
  ∀ c s o, Live c s o → s.session.config.prune = true → o.current.permits.exits = p → ok o →
    m' c s = m c s

/-- The first check does what the second one does wherever the exits in `p` are permitted. -/
abbrev Agrees (p : Permissions) (m' m : Check α) : Prop := AgreesIn (fun _ => True) p m' m

/-- A check that runs where `ok` holds, and changes no scope but the innermost one. -/
def Passing (ok : ScopeStack → Prop) (m : Check α) : Prop :=
  ∀ c s o, Live c s o → ok o → Runs m c s fun _ t =>
    t.session.config = s.session.config ∧ ∃ o', o.Alike o' ∧ Live c t o'

/-- The scope has no exits yet. -/
def IsFresh (o : ScopeStack) : Prop :=
  o.current.tag.IsSequential ∧ o.current.exits.always = false

section Rules

variable {ok : ScopeStack → Prop} {f f' : α → Check β}

theorem Quiet.passing (h : Quiet .checking m) : Passing ok m :=
  fun c s o hl _ => (h c s o hl).mono fun _ _ ⟨hs, hl'⟩ =>
    ⟨(Steps.frames hl hs).1.config, o, .refl o, hl'⟩

theorem ReportsIn.passing {F : Bool → Permissions → List Form}
    (h : ReportsIn (fun _ => ok) m F) : Passing ok m :=
  fun c s o hl hs => (h c s o hl hs).mono fun _ _ ht =>
    ⟨(Steps.frames hl ht.steps).1.config, ht.live⟩

theorem AgreesIn.refl (m : Check α) : AgreesIn ok p m m := fun _ _ _ _ _ _ _ => rfl

theorem Agrees.within (h : Agrees p m' m) : AgreesIn ok p m' m :=
  fun c s o hl hprune hp _ => h c s o hl hprune hp trivial

/-- Checks that do the same, and then the same rest. -/
theorem AgreesIn.bind_left (h : AgreesIn ok p m' m) (f : α → Check β) :
    AgreesIn ok p (m' >>= f) (m >>= f) := by
  intro c s o hl hprune hp hs
  rw [bind_apply, h c s o hl hprune hp hs]
  rfl

/-- Checks that do the same, and then checks that do the same. -/
theorem AgreesIn.bind (hok : ∀ o o', o.Alike o' → ok o → ok o') (h : AgreesIn ok p m' m)
    (hm : Passing ok m) (hf : ∀ a, AgreesIn ok p (f' a) (f a)) :
    AgreesIn ok p (m' >>= f') (m >>= f) := by
  intro c s o hl hprune hp hs
  obtain ⟨a, t, hrun, hconfig, o', halike, hl'⟩ := hm c s o hl hs
  have hrun' : m' c s = .ok (a, t) := (h c s o hl hprune hp hs).trans hrun
  rw [bind_apply_ok hrun, bind_apply_ok hrun']
  exact hf a c t o' hl' (by rwa [hconfig]) (by rwa [halike.permits]) (hok o o' halike hs)

theorem Agrees.bind (h : Agrees p m' m) (hm : Passing (fun _ => True) m)
    (hf : ∀ a, Agrees p (f' a) (f a)) : Agrees p (m' >>= f') (m >>= f) :=
  AgreesIn.bind (fun _ _ _ _ => trivial) h hm hf

/-- What is done at one node, and then checks that do the same. -/
theorem Quiet.agrees_bind (hm : Quiet .checking m) (hf : ∀ a, AgreesIn ok p (f' a) (f a)) :
    AgreesIn ok p (m >>= f') (m >>= f) := by
  intro c s o hl hprune hp hs
  obtain ⟨a, t, hrun, hsteps, hl'⟩ := hm c s o hl
  rw [bind_apply_ok hrun, bind_apply_ok hrun]
  exact hf a c t o hl' (by rwa [(Steps.frames hl hsteps).1.config]) hp hs

theorem Agrees.single {m m' : Check (Expr × Value)} (h : Agrees p m' m) :
    Agrees p (single m') (single m) := h.bind_left _

/-- A check that is made under a condition, before checks that do the same. -/
theorem AgreesIn.guard {f f' : PUnit → Check β} {m : Check PUnit} {b : Prop} [Decidable b]
    (hm : Quiet .checking m) (hf : ∀ u, AgreesIn ok p (f' u) (f u)) :
    AgreesIn ok p (if b then m >>= f' else f' ⟨⟩) (if b then m >>= f else f ⟨⟩) := by
  split
  · exact hm.agrees_bind hf
  · exact hf _

/-- The same for a condition that reads the scopes. -/
theorem AgreesIn.guard_scopes {m : Check PUnit} {rest rest' : Check β} {b : Prop} [Decidable b]
    {b' : ScopeStack → Prop} [∀ stack, Decidable (b' stack)] (hm : Quiet .checking m)
    (hrest : AgreesIn ok p rest' rest) :
    AgreesIn ok p
      (if b then scopes >>= fun stack => if b' stack then m >>= fun _ => rest' else rest'
        else rest')
      (if b then scopes >>= fun stack => if b' stack then m >>= fun _ => rest else rest
        else rest) := by
  split
  · exact quiet_scopes.agrees_bind fun _ => .guard hm fun _ => hrest
  · exact hrest

/-- Checks that do the same in a scope of their own. -/
theorem AgreesIn.inScope {q : Permissions} {enter : ScopeStack → ScopeStack}
    (h : AgreesIn ok q m' m) (scope : ScopeStack → Scope)
    (henter : ∀ stack, (enter stack).outline = stack.outline.cons (scope stack.outline) ∧
      (enter stack).root.bindings = stack.root.bindings)
    (hok : ∀ o : ScopeStack, ok (o.cons (scope o)))
    (hpermits : ∀ o : ScopeStack, o.current.permits.exits = p → (scope o).permits.exits = q) :
    Agrees p (Check.inScope enter m') (Check.inScope enter m) := by
  intro c s o hl hprune hp _
  have hopen : ∀ env, s.own? c = some env → env.scopes.outline = o →
      (enter env.scopes).outline = o.cons (scope o) ∧
        Phase.visiting.KeepsRoot env.scopes (enter env.scopes) := fun env _ ho =>
    ⟨ho ▸ (henter env.scopes).1, .of_bindings_eq .visiting (henter env.scopes).2⟩
  obtain ⟨⟨⟩, t, hrun, hsteps, hl', -⟩ := runs_modifyScopes .visiting hl hopen
  have hsame := h c t _ hl' (by rwa [(Steps.frames hl hsteps).1.config]) (hpermits o hp) (hok o)
  unfold Check.inScope
  rw [bind_apply_ok hrun, bind_apply_ok hrun, bind_apply, hsame]
  rfl

end Rules

/-! ## Bodies -/

/-- What a body leaves does not depend on the statements after the first one that leaves. -/
theorem agrees_body {stmts : List Stmt}
    (h : ∀ st ∈ stmts, Agrees p (stmt (st.blank p)) (stmt st)) :
    AgreesIn IsFresh p (body (Stmt.blankBody p stmts) false) (body stmts false) := by
  induction stmts with
  | nil => exact .refl _
  | cons first rest ih =>
    intro c s o hl hprune hp hs
    obtain ⟨hseq, hfresh⟩ := hs
    rw [List.forall_mem_cons] at h
    obtain ⟨first', t, u, hfirst, hclear, hconfig, x, hx, hl'⟩ :=
      runs_stmt_clear hl hseq (.inl hfresh) first
    have hfirst' : stmt (first.blank p) c s = .ok (first', t) :=
      (h.1 c s o hl hprune hp trivial).trans hfirst
    have hleaves : first.leaves p = first.leaves o.current.permits := by
      rw [← hp]
      exact Stmt.leaves_self o.current.permits false first
    have hprune' : u.session.config.prune = true := by rwa [hconfig]
    unfold Stmt.blankBody
    rw [body_cons hfirst' hclear hl', body_cons hfirst hclear hl']
    cases hcertain : first.leaves o.current.permits with
    | true =>
      have halways : (o.addExits x).current.exits.always = true := by
        simp [hx.always, hcertain]
      rw [hleaves, hcertain, if_pos rfl]
      cases rest with
      | nil => rfl
      | cons next others =>
        have hreport : Quiet .checking (report .unreachableCode (runSpan next others)) :=
          quiet_report _ _ rfl
        obtain ⟨⟨⟩, v, hrun, hsteps, -⟩ := hreport c u _ hl'
        have hget : (get : Check State) c v = .ok (v, v) := rfl
        have hprune'' : v.session.config.prune = true := by
          rwa [(Steps.frames hl' hsteps).1.config]
        simp only [Stmt.blankDead, halways, if_true, Bool.not_false, runSpan_error]
        rw [bind_apply_ok hrun, bind_apply_ok hrun, bind_apply_ok hget, bind_apply_ok hget,
          if_pos hprune'', if_pos hprune'']
    | false =>
      -- The statement adds no exits, so the rest starts as the body did.
      obtain rfl := hx.silent hcertain
      rw [ScopeStack.addExits_empty] at hl'
      have hrest := ih h.2 c u o hl' hprune' hp ⟨hseq, hfresh⟩
      rw [hleaves, hcertain, if_neg Bool.false_ne_true]
      cases rest with
      | nil => rfl
      | cons next others =>
        simp only [ScopeStack.addExits_empty, hfresh, Bool.false_eq_true, if_false,
          Stmt.blankBody] at hrest ⊢
        rw [bind_apply, hrest]
        rfl

/-- A function. -/
theorem agrees_inFunction {stmts : List Stmt} (signature : Signature) (params : List Param)
    (span : Span) (h : AgreesIn IsFresh { returns := true }
      (body (Stmt.blankBody { returns := true } stmts) false) (body stmts false)) :
    Agrees p
      (inFunction signature params span (body (Stmt.blankBody { returns := true } stmts) false))
      (inFunction signature params span (body stmts false)) := by
  have hparams : Quiet .checking (bindParams params signature.params) := quiet_bindParams _ _
  have hinner := hparams.agrees_bind fun _ => h.bind_left fun body => do
    let exits := (← scopes).current.exits
    if !signature.returns.isEmpty && !exits.byReturn then
      report (.notAllCodePathsExit "return") span
    return body
  exact (hinner.inScope (·.funcScope _) (fun stack => stack.pushFunction_opens _)
    (fun _ => ⟨trivial, rfl⟩) fun _ _ => rfl).bind_left _

/-- A branch. -/
theorem agrees_inBranch (h : AgreesIn IsFresh p m' m) : Agrees p (inBranch m') (inBranch m) :=
  (h.inScope (·.pushedScope .plain .empty) (fun stack => stack.push_opens .plain .empty)
    (fun _ => ⟨trivial, rfl⟩) fun o ho => by simpa [ScopeStack.pushedScope] using ho).bind_left _

/-- A loop, in which more exits are permitted. -/
theorem agrees_inLoop (permits : Permissions) (bindings : List (Ident × Value))
    (h : AgreesIn IsFresh (p.union permits.exits) m' m) :
    Agrees p (inLoop permits bindings m') (inLoop permits bindings m) := by
  have hbind : Quiet .checking (bindings.forM fun binding =>
      declare { name := binding.1.name, value := binding.2, span := binding.1.span } "variable") :=
    .forM _ fun _ => quiet_declare _ _
  exact ((hbind.agrees_bind fun _ => h).inScope (·.pushedScope .loop permits)
    (fun stack => stack.push_opens .loop permits) (fun _ => ⟨trivial, rfl⟩)
    fun o ho => by rw [ScopeStack.pushedScope, Permissions.exits_union, ho]).bind_left _

/-- Alternative branches, in the scope that collects them. -/
theorem Agrees.inChain (h : Agrees p m' m) :
    Agrees p (inScope (·.push (.multiPath {}) .empty) m')
      (inScope (·.push (.multiPath {}) .empty) m) :=
  h.inScope (·.pushedScope (.multiPath {}) .empty)
    (fun stack => stack.push_opens (.multiPath {}) .empty) (fun _ => trivial)
    fun o ho => by simpa [ScopeStack.pushedScope] using ho

/-- A branch runs and hands its exits on. -/
theorem passing_inBranch {l : Permissions → Bool} {m : Check α} (hm : Leaves .checking m l) :
    Passing (fun _ => True) (inBranch m) :=
  fun _ _ o hl _ => (runs_inBranch hm hl).mono fun _ _ ⟨hs, _, hl'⟩ =>
    ⟨(Steps.frames hl hs).1.config, _, ScopeStack.alike_reportExits o _, hl'⟩

/-- A call. -/
theorem agrees_call {walkArgs walkArgs' : List Ty → Check (List Expr × List (Value × Span))}
    (signature : Signature) (explicit : List TypeExpr) (span : Span)
    (h : ∀ hints, Agrees p (walkArgs' hints) (walkArgs hints)) :
    Agrees p (call signature explicit walkArgs' span) (call signature explicit walkArgs span) := by
  exact (quiet_resolveTypes _).agrees_bind fun _ => (h _).bind_left _

/-- The targets of an assignment are looked at from outside. -/
theorem assignLocal_blank (e : Expr) : assignLocal (e.blank p) = assignLocal e := by
  cases e <;> rfl

theorem finishPlace_blank (e resolved : Expr) (isLocal : Bool) :
    finishPlace (e.blank p) resolved isLocal = finishPlace e resolved isLocal := by
  cases e <;> rfl

/-! ## Lists of nodes -/

section Nodes

variable {es : List Expr}

section Expressions

variable (hes : ∀ e ∈ es, ∀ p hint, Agrees p (expr (e.blank p) hint) (expr e hint))
include hes

theorem agrees_values_of (hints : List Ty) :
    Agrees p (values (Expr.blankAll p es) hints) (values es hints) := by
  induction es generalizing hints with
  | nil => exact .refl _
  | cons e rest ih =>
    rw [List.forall_mem_cons] at hes
    have hrest := ih hes.2 hints.tail
    unfold Expr.blankAll values
    rw [Expr.isEmpty_blankAll]
    refine (hes.1 p hints.head?).bind (quiet_expr e hints.head?).passing fun r => ?_
    dsimp only
    split
    · exact (Quiet.pure _).agrees_bind fun _ => hrest.bind_left _
    · exact (quiet_expectSingle _ _).agrees_bind fun _ => (Quiet.pure _).agrees_bind
        fun _ => hrest.bind_left _

theorem agrees_elements_of (reference : Option Ty) :
    Agrees p (elements (Expr.blankAll p es) reference) (elements es reference) := by
  induction es generalizing reference with
  | nil => exact .refl _
  | cons e rest ih =>
    rw [List.forall_mem_cons] at hes
    have hfirst := (hes.1 p reference).single
    exact hfirst.bind (quiet_expr e reference).single.passing fun _ =>
      (quiet_elementType _ _ _).agrees_bind fun _ => (ih hes.2 _).bind_left _

theorem agrees_unchecked_of : Agrees p (unchecked (Expr.blankAll p es)) (unchecked es) := by
  induction es with
  | nil => exact .refl _
  | cons e rest ih =>
    rw [List.forall_mem_cons] at hes
    exact (hes.1 p none).bind (quiet_expr e none).passing fun _ => (ih hes.2).bind_left _

theorem agrees_patterns_of (subject : Ty) :
    Agrees p (patterns (Expr.blankAll p es) subject) (patterns es subject) := by
  induction es with
  | nil => exact .refl _
  | cons e rest ih =>
    rw [List.forall_mem_cons] at hes
    have hfirst := (hes.1 p (some subject)).single
    exact hfirst.bind (quiet_expr e (some subject)).single.passing fun _ =>
      .guard (quiet_report _ _ rfl) fun _ => (ih hes.2).bind_left _

theorem agrees_places_of : Agrees p (places (Expr.blankAll p es)) (places es) := by
  induction es with
  | nil => exact .refl _
  | cons e rest ih =>
    rw [List.forall_mem_cons] at hes
    unfold Expr.blankAll places
    rw [assignLocal_blank]
    refine (quiet_assignLocal _).agrees_bind fun isLocal =>
      (hes.1 p none).single.bind (quiet_expr e none).single.passing fun _ => ?_
    simp only [finishPlace_blank]
    exact (quiet_finishPlace _ _ _).agrees_bind fun _ => (ih hes.2).bind_left _

end Expressions

theorem agrees_mapEntries_of {entries : List MapEntry}
    (hes : ∀ e ∈ entries.map (·.value), ∀ p hint, Agrees p (expr (e.blank p) hint) (expr e hint))
    (keys : List String) (reference : Option Ty) :
    Agrees p (mapEntries (MapEntry.blankAll p entries) keys reference)
      (mapEntries entries keys reference) := by
  induction entries generalizing keys reference with
  | nil => exact .refl _
  | cons entry rest ih =>
    obtain ⟨key, e⟩ := entry
    rw [List.map_cons, List.forall_mem_cons] at hes
    have hfirst := (hes.1 p reference).single
    unfold MapEntry.blankAll mapEntries
    exact .guard (quiet_report _ _ rfl) fun _ =>
      hfirst.bind (quiet_expr e reference).single.passing fun _ =>
        (quiet_elementType _ _ _).agrees_bind fun _ => (ih hes.2 _ _).bind_left _

theorem agrees_repeatPart_of {part : Option Expr}
    (hes : ∀ e ∈ part.toList, ∀ p hint, Agrees p (expr (e.blank p) hint) (expr e hint)) (ty : Ty)
    (span : Span) :
    Agrees p (repeatPart (Expr.blankOption p part) ty span) (repeatPart part ty span) := by
  cases part with
  | none => exact .refl _
  | some e => exact (hes e (List.mem_singleton_self e) p (some ty)).single.bind_left _

theorem agrees_matchArms_of {arms : List MatchArm}
    (hes : ∀ e ∈ arms.flatMap (·.patterns), ∀ p hint, Agrees p (expr (e.blank p) hint) (expr e hint))
    (hstmts : ∀ st ∈ arms.flatMap (·.body), ∀ p, Agrees p (stmt (st.blank p)) (stmt st))
    (subject : Ty) :
    Agrees p (matchArms (MatchArm.blankAll p arms) subject) (matchArms arms subject) := by
  induction arms with
  | nil => exact .refl _
  | cons arm rest ih =>
    obtain ⟨pats, isDefault, stmts, span⟩ := arm
    rw [List.flatMap_cons, List.forall_mem_append] at hes hstmts
    have hpats := agrees_patterns_of (p := p) hes.1 subject
    have harm := agrees_inBranch (agrees_body fun st hst => hstmts.1 st hst p)
    have hrest := ih hes.2 hstmts.2
    have hpassing := passing_inBranch (leaves_body stmts false)
    unfold MatchArm.blankAll matchArms
    rw [MatchArm.isEmpty_blankAll]
    dsimp only
    cases isDefault with
    | true =>
      simp only [if_true]
      exact .guard (quiet_report _ _ rfl) fun _ =>
        (Quiet.pure _).agrees_bind fun _ =>
          harm.bind hpassing fun _ => hrest.bind_left _
    | false =>
      simp only [Bool.false_eq_true, if_false]
      exact hpats.bind (quiet_patterns pats subject).passing fun pats =>
        quiet_clearNarrowings.agrees_bind fun _ => (Quiet.pure _).agrees_bind fun _ =>
          harm.bind hpassing fun _ => hrest.bind_left _

theorem agrees_elseIfs_of {branches : List ElseIf}
    (hes : ∀ e ∈ branches.map (·.condition), ∀ p hint,
      Agrees p (expr (e.blank p) hint) (expr e hint))
    (hstmts : ∀ st ∈ branches.flatMap (·.body), ∀ p, Agrees p (stmt (st.blank p)) (stmt st)) :
    Agrees p (elseIfs (ElseIf.blankAll p branches)) (elseIfs branches) := by
  induction branches with
  | nil => exact .refl _
  | cons branch rest ih =>
    obtain ⟨condition, stmts, span⟩ := branch
    rw [List.map_cons, List.forall_mem_cons] at hes
    rw [List.flatMap_cons, List.forall_mem_append] at hstmts
    have hbody := agrees_body fun st hst => hstmts.1 st hst p
    have hrest := ih hes.2 hstmts.2
    have hbranch (narrowings : List Narrowing) :=
      agrees_inBranch ((quiet_declareNarrowings narrowings false).agrees_bind fun _ => hbody)
    have hpassing (narrowings : List Narrowing) := passing_inBranch
      ((quiet_declareNarrowings narrowings false).leaves_bind fun _ => leaves_body stmts false)
    exact (hes.1 p none).single.bind (quiet_expr condition none).single.passing fun _ =>
      (quiet_conditionNarrowings _ _).agrees_bind fun narrowings =>
        (hbranch narrowings).bind (hpassing narrowings) fun _ => hrest.bind_left _

theorem agrees_elseBody_of {otherwise : Option (List Stmt)}
    (hstmts : ∀ st ∈ otherwise.getD [], ∀ p, Agrees p (stmt (st.blank p)) (stmt st))
    (narrowings : List Narrowing) :
    Agrees p (elseBody (Stmt.blankElse p otherwise) narrowings) (elseBody otherwise narrowings) := by
  cases otherwise with
  | none => exact .refl _
  | some stmts =>
    have hbody := agrees_body fun st hst => hstmts st hst p
    exact (agrees_inBranch ((quiet_declareNarrowings _ _).agrees_bind fun _ => hbody)).bind_left _

end Nodes

/-! ## Nodes -/

theorem agrees_expr_of {e : Expr}
    (hes : ∀ child ∈ e.children, ∀ p hint, Agrees p (expr (child.blank p) hint) (expr child hint))
    (hpatterns : ∀ pattern ∈ e.patterns, ∀ p hint,
      Agrees p (expr (pattern.blank p) hint) (expr pattern hint))
    (hstmts : ∀ st ∈ e.statements, ∀ p, Agrees p (stmt (st.blank p)) (stmt st)) (p : Permissions)
    (hint : Option Ty) : Agrees p (expr (e.blank p) hint) (expr e hint) := by
  cases e with
  | literal | ident | builtin | envAccess | self | error => exact .refl _
  | unary _ inner | field inner | entityTest inner =>
    exact (hes inner (List.mem_singleton_self _) p none).single.bind_left _
  | group inner => exact (hes inner (List.mem_singleton_self _) p hint).bind_left _
  | binary left op right span =>
    obtain ⟨hleft, hright⟩ := List.forall_mem_cons.1 hes
    exact quiet_get.agrees_bind fun _ => (hleft p none).single.bind
      (quiet_expr left none).single.passing fun _ =>
        (hright right (List.mem_singleton_self _) p _).single.bind_left _
  | member target index span =>
    obtain ⟨htarget, hindex⟩ := List.forall_mem_cons.1 hes
    exact (htarget p none).single.bind (quiet_expr target none).single.passing fun _ =>
      (hindex index (List.mem_singleton_self _) p none).single.bind_left _
  | list elems span =>
    unfold Expr.blank expr
    rw [Expr.isEmpty_blankAll]
    exact (quiet_checkKnown _ _ _).agrees_bind fun _ => (agrees_elements_of hes _).bind_left _
  | map entries span =>
    unfold Expr.blank expr
    rw [MapEntry.isEmpty_blankAll]
    exact (quiet_checkKnown _ _ _).agrees_bind fun _ => (agrees_mapEntries_of hes _ _).bind_left _
  | call caller generics args returnAmount span =>
    obtain ⟨hcaller, hargs⟩ := List.forall_mem_cons.1 hes
    refine (hcaller p none).single.bind (quiet_expr caller none).single.passing fun _ => ?_
    dsimp only
    split
    · exact (agrees_call _ _ _ (agrees_values_of hargs)).bind_left _
    · exact .guard (quiet_report _ _ rfl) fun _ => (agrees_unchecked_of hargs).bind_left _
  | methodCall receiver owner kind method generics args returnAmount span =>
    exact (hes receiver (List.mem_cons_self ..) p none).single.bind_left _
  | new ty generics args span =>
    refine (quiet_constructed _ _ _).agrees_bind fun found => ?_
    split
    · exact (agrees_call _ _ _ (agrees_values_of hes)).bind_left _
    · exact (agrees_unchecked_of hes).bind_left _
  | spawn ty generics args span =>
    refine (quiet_constructed _ _ _).agrees_bind fun found => ?_
    split
    · exact (agrees_call _ _ _ (agrees_values_of hes)).bind_left _
    · exact (agrees_unchecked_of hes).bind_left _
  | function params returns stmts span =>
    have hbody := agrees_body fun st hst => hstmts st hst { returns := true }
    exact (quiet_resolveSignature _ _ _).agrees_bind fun _ =>
      (agrees_inFunction _ _ _ hbody).bind_left _
  | matching subject arms returnAmount span =>
    have hsubject := (hes subject (List.mem_singleton_self _) p none).single
    have harms (ty : Ty) :=
      agrees_matchArms_of (p := { p with yields := true }) hpatterns hstmts ty
    have hscope (ty : Ty) := (harms ty).inScope (p := p)
      (·.pushedScope (.matchExpr {}) { yields := true })
      (fun stack => stack.push_opens (.matchExpr {}) { yields := true }) (fun _ => trivial)
      fun o ho => by
        rw [← ho, ScopeStack.pushedScope, Permissions.union_yields]
        rfl
    exact hsubject.bind (quiet_expr subject none).single.passing fun _ => (hscope _).bind_left _

theorem agrees_stmt_of {st : Stmt}
    (hes : ∀ e ∈ st.expressions, ∀ p hint, Agrees p (expr (e.blank p) hint) (expr e hint))
    (hstmts : ∀ inner ∈ st.statements, ∀ p, Agrees p (stmt (inner.blank p)) (stmt inner))
    (p : Permissions) : Agrees p (stmt (st.blank p)) (stmt st) := by
  have hbody {stmts : List Stmt} (hstmts : ∀ inner ∈ stmts, ∀ p,
      Agrees p (stmt (inner.blank p)) (stmt inner)) (p : Permissions) :=
    agrees_body fun inner hinner => hstmts inner hinner p
  cases st with
  | env | classDecl | entityDecl | enumDecl | aliasDecl | breaking | continuing | use | error =>
    exact .refl _
  | «variable» decl =>
    obtain ⟨names, ty, exprs, isPub, isConst, span⟩ := decl
    unfold Stmt.blank stmt
    rw [Expr.isEmpty_blankAll, Expr.length_blankAll]
    refine .guard_scopes (quiet_report _ _ rfl) ?_
    refine .guard (quiet_report _ _ rfl) fun _ => (quiet_resolveType? _).agrees_bind
      fun declared => ?_
    dsimp only
    split
    · next hnone =>
      obtain rfl : exprs = [] := by simpa using hnone
      exact .refl _
    · exact (agrees_values_of hes _).bind_left _
  | function decl =>
    obtain ⟨name, generics, params, returns, stmts, isPub, span⟩ := decl
    exact (quiet_functionSignature _ _ _ _ _ _).agrees_bind fun _ =>
      (agrees_inFunction _ _ _ (hbody hstmts _)).bind_left _
  | assign targets op exprs span =>
    obtain ⟨htargets, hexprs⟩ := List.forall_mem_append.1 hes
    exact (agrees_places_of htargets).bind (quiet_places targets).passing fun _ =>
      (agrees_values_of hexprs _).bind_left _
  | ifChain condition stmts elseifs otherwise span =>
    obtain ⟨hcondition, hconditions⟩ := List.forall_mem_cons.1 hes
    obtain ⟨hthen, hstmts⟩ := List.forall_mem_append.1 hstmts
    obtain ⟨hbodies, helse⟩ := List.forall_mem_append.1 hstmts
    have helseifs := agrees_elseIfs_of (p := p) hconditions hbodies
    have hotherwise (narrowings : List Narrowing) := agrees_elseBody_of (p := p) helse narrowings
    have hfirst (narrowings : List Narrowing) := agrees_inBranch
      ((quiet_declareNarrowings narrowings false).agrees_bind fun _ => hbody hthen p)
    have hpassing (narrowings : List Narrowing) := passing_inBranch
      ((quiet_declareNarrowings narrowings false).leaves_bind fun _ => leaves_body stmts false)
    have hchain (narrowings : List Narrowing) := Agrees.inChain ((hfirst narrowings).bind
      (hpassing narrowings) fun a => helseifs.bind (reports_elseIfs elseifs).passing fun b =>
        (hotherwise narrowings).bind_left fun d => pure (a.1, a.2, b, d))
    exact (hcondition p none).single.bind (quiet_expr condition none).single.passing fun _ =>
      (quiet_conditionNarrowings _ _).agrees_bind fun narrowings => (hchain narrowings).bind_left _
  | repeatLoop iterator start skip counter stmts span =>
    obtain ⟨hiterator, hparts⟩ := List.forall_mem_cons.1 hes
    obtain ⟨hstart, hskip⟩ := List.forall_mem_append.1 hparts
    have hloop (bindings : List (Ident × Value)) :=
      agrees_inLoop .ofLoop bindings (hbody hstmts (p.union .ofLoop))
    exact (hiterator p none).single.bind (quiet_expr iterator none).single.passing fun _ =>
      (quiet_repeatType _ _).agrees_bind fun ty =>
        (agrees_repeatPart_of hstart ty span).bind (quiet_repeatPart start ty span).passing fun _ =>
          (agrees_repeatPart_of hskip ty span).bind (quiet_repeatPart skip ty span).passing
            fun _ => (hloop _).bind_left _
  | whileLoop condition stmts span =>
    have hcondition := (hes condition (List.mem_singleton_self _) p none).single
    have hloop (narrowings : List Narrowing) := agrees_inLoop .ofLoop []
      ((quiet_declareNarrowings narrowings false).agrees_bind
        fun _ => hbody hstmts (p.union .ofLoop))
    exact hcondition.bind (quiet_expr condition none).single.passing fun _ =>
      (quiet_conditionNarrowings _ _).agrees_bind fun narrowings => (hloop narrowings).bind_left _
  | forLoop key value iterator stmts span =>
    have hiterator := (hes iterator (List.mem_singleton_self _) p none).single
    have hloop (bindings : List (Ident × Value)) :=
      agrees_inLoop .ofLoop bindings (hbody hstmts (p.union .ofLoop))
    exact hiterator.bind (quiet_expr iterator none).single.passing fun _ =>
      (quiet_iterated _ _).agrees_bind fun _ => (quiet_forKey _ _).agrees_bind fun _ =>
        (hloop _).bind_left _
  | tick counter stmts span =>
    have hloop (bindings : List (Ident × Value)) : Agrees p
        (inLoop .empty bindings (body (Stmt.blankBody p stmts) false))
        (inLoop .empty bindings (body stmts false)) := by
      refine agrees_inLoop .empty bindings ?_
      rw [show Permissions.empty.exits = .empty from rfl, Permissions.union_empty]
      exact hbody hstmts p
    exact (hloop _).bind_left _
  | matching subject arms span =>
    obtain ⟨hsubject, hpatterns⟩ := List.forall_mem_cons.1 hes
    have harms (ty : Ty) := agrees_matchArms_of (p := p) hpatterns hstmts ty
    exact (hsubject p none).single.bind (quiet_expr subject none).single.passing fun _ =>
      (Agrees.inChain ((harms _).bind_left _)).bind_left _
  | returning exprs span =>
    refine (quiet_exitAllowed _ _ _).agrees_bind fun accepted => ?_
    split
    · exact quiet_returnTypes.agrees_bind fun _ => (agrees_values_of hes _).bind_left _
    · exact (agrees_values_of hes _).bind_left _
  | yielding exprs span =>
    refine (quiet_exitAllowed _ _ _).agrees_bind fun accepted => ?_
    split
    · exact quiet_yieldTarget.agrees_bind fun _ => (agrees_values_of hes _).bind_left _
    · exact (agrees_values_of hes _).bind_left _
  | destroy target generics args span =>
    obtain ⟨htarget, hargs⟩ := List.forall_mem_cons.1 hes
    refine (htarget p none).single.bind (quiet_expr target none).single.passing fun _ =>
      (quiet_destroyer? _ _).agrees_bind fun found => ?_
    split
    · exact (agrees_call _ _ _ (agrees_values_of hargs)).bind_left _
    · exact (agrees_unchecked_of hargs).bind_left _
  | expr e => exact (hes e (List.mem_singleton_self _) p none).bind_left _

/-! ## Trees -/

theorem agrees_tree : (∀ e p hint, Agrees p (expr (e.blank p) hint) (expr e hint)) ∧
    ∀ st p, Agrees p (stmt (st.blank p)) (stmt st) :=
  Tree.induction (fun _ hes hpatterns hstmts => agrees_expr_of hes hpatterns hstmts)
    fun _ hes hstmts => agrees_stmt_of hes hstmts

theorem agrees_values (p : Permissions) (es : List Expr) (hints : List Ty) :
    Agrees p (values (Expr.blankAll p es) hints) (values es hints) :=
  agrees_values_of (fun e _ => agrees_tree.1 e) hints

theorem agrees_stmt (p : Permissions) (st : Stmt) : Agrees p (stmt (st.blank p)) (stmt st) :=
  agrees_tree.2 st p

theorem agrees_stmts (p : Permissions) (stmts : List Stmt) :
    ∀ st ∈ stmts, Agrees p (stmt (st.blank p)) (stmt st) :=
  fun st _ => agrees_stmt p st

end Check

end HybroidSema
