import HybroidSema.Proofs.AssignedTargets

/-!
# A walk assigns the fields that it comes to

The walk of a tree assigns the fields of the innermost class or entity for which it comes to an
assignment, however deep that stands, and no others.

* `Check.assigning_expr_of`, `Check.assigning_stmt_of`: a node, where what is right inside it does
  so. `Check.assigning_tree` is the induction.
-/

namespace HybroidSema

/-- Whether a statement has the members of a class or entity. -/
def Stmt.isContainer : Stmt → Bool
  | .classDecl _ | .entityDecl _ => true
  | _ => false

namespace Check

open HybroidSema.Check.Part

variable {α β : Type} {m : Check α} {c : Context} {s s' t : State} {o : ScopeStack} {below : Bool}

/-! ## Around the recursion -/

/-- The state is looked at before a check. -/
theorem Assigning.get_bind {f : State → Check α} {F : Marking}
    (hf : ∀ st, Assigning below (f st) F) : Assigning below (get >>= f) F :=
  fun c s o hl hin htidy => hf s c s o hl hin htidy

/-- A call whose signature is known. -/
theorem assigning_call {args : List Expr}
    (hargs : ∀ hints, Assigning below (values args hints) (Assigned (.values args hints)))
    (signature : Signature) (explicit : List TypeExpr) (span : Span) :
    Assigning below (call signature explicit (fun hints => values args hints) span)
      (markings [arguments signature explicit args]) := by
  have htypes : Assignless below (resolveTypes explicit) := Quiet.assigning (quiet_resolveTypes _)
  refine htypes.bind [fun _ => _] fun _ => (hargs _).walk [] fun _ => Quiet.assigning ?_
  exact (quiet_bindGenerics _ _ _ _).bind fun _ => Quiet.bind
    (.forM_mem fun _ ha => quiet_alert _ (reports_validateArguments ha)) fun _ => .pure _

/-- A condition, before what depends on its narrowings. -/
theorem assigning_condition {e : Expr} {f : Expr × Value → List Narrowing → Check β}
    (parts : List (List Narrowing → Part))
    (hcondition : Assigning below (expr e none) (Assigned (.expr e none)))
    (hf : ∀ r narrowings, Assigning below (f r narrowings) (markings (parts.map (· narrowings)))) :
    Assigning below (single (expr e none) >>= fun r => conditionNarrowings r.1 r.2 >>= f r)
      (markings (here (.expr e none) :: parts.map fun part => Part.condition e >>= part)) := by
  have hall := hcondition.single.walk (r := [])
    (f := fun r => conditionNarrowings r.1 r.2 >>= f r)
    (parts.map fun part r => conditionNarrowings r.1 r.2 >>= part) fun r => by
      have hquiet : Assignless below (conditionNarrowings r.1 r.2) :=
        Quiet.assigning (quiet_conditionNarrowings _ _)
      rw [List.map_map]
      exact hquiet.bind parts (hf r)
  refine hall.congr (congrArg markings (congrArg _ ?_))
  rw [List.map_map]
  refine List.map_congr_left fun part _ => ?_
  rw [Part.condition, bind_assoc]
  rfl

theorem declareNarrowings_nil (negated : Bool) : declareNarrowings [] negated = pure ⟨⟩ := rfl

/-- A loop without narrowings. -/
theorem assigning_plainLoop {stmts : List Stmt} (region : Region) (permits : Permissions)
    (bindings : List (Ident × Value))
    (hbody : Assigning true (body stmts false) (Assigned (.body stmts false))) :
    Assigning below (inLoop permits bindings (body stmts false))
      (markings [loopBody region permits bindings [] stmts]) := by
  have hloop : Assigning below (inLoop permits bindings do
      declareNarrowings [] false
      body stmts false) (markings [loopBody region permits bindings [] stmts]) :=
    assigning_loopBody region permits bindings [] hbody
  rwa [declareNarrowings_nil, pure_bind] at hloop

/-- A branch without narrowings. -/
theorem assigning_plainBranch {stmts : List Stmt} (around : List Region)
    (hbody : Assigning true (body stmts false) (Assigned (.body stmts false))) :
    Assigning below (inBranch (body stmts false)) (markings [branch [] false stmts around]) := by
  have hbranch : Assigning below (inBranch do
      declareNarrowings [] false
      body stmts false) (markings [branch [] false stmts around]) :=
    assigning_branch [] false around hbody
  rwa [declareNarrowings_nil, pure_bind] at hbranch

/-- Below the root, the body of a class or entity is not walked. -/
theorem assigning_belowRoot {γ : Type} {what : String} {span : Span} {find : Check (Option γ)}
    {tag : γ → ScopeTag} {members : γ → Members} {rest : Bool → Check α} {a : α}
    (parts : List (γ → Part)) (hrest : rest false = pure a) (hplace : below = true) :
    Assigning below (atRoot what span >>= rest)
      (markings (parts.map fun part => containerPart what span find tag members part)) := by
  intro c s o hl hin htidy
  obtain ⟨isRoot, t, hrun, ⟨hsteps, hl'⟩, hisRoot⟩ := runs_atRoot .looking hl what span
  obtain rfl : isRoot = false := hisRoot.trans (hin.isRoot hplace)
  have hskip (part : γ → Part) : containerPart what span find tag members part c s = .ok (none, t) :=
    bind_apply_ok hrun
  have hparts : markings (parts.map fun part => containerPart what span find tag members part) c s =
      ⊥ := by
    induction parts with
    | nil => rfl
    | cons part rest ih =>
      rw [List.map_cons, markings, Pi.sup_apply, Pi.sup_apply, ih, Part.marking, after_eq (hskip part)]
      exact sup_bot_eq _
  have hruns : (atRoot what span >>= rest) c s = .ok (a, t) := by
    rw [bind_apply_ok hrun, hrest]
    rfl
  rw [hparts]
  exact ⟨a, t, hruns, .of_steps hl hsteps hl'⟩

/-! ## Lists of nodes -/

/-- The walk of an expression assigns the fields that it comes to. -/
def AssigningExpr (e : Expr) : Prop :=
  ∀ (hint : Option Ty) (below : Bool), Assigning below (expr e hint) (Assigned (.expr e hint))

/-- The walk of a statement assigns the fields that it comes to. A class or entity has fields of its
own, so that it must be in another scope than the root. -/
def AssigningStmt (st : Stmt) : Prop :=
  ∀ below : Bool, (st.isContainer = true → below = true) →
    Assigning below (stmt st) (Assigned (.stmt st))

section Nodes

variable {es : List Expr} {stmts : List Stmt}

theorem assigning_values_of (hes : ∀ e ∈ es, AssigningExpr e) (hints : List Ty) (below : Bool) :
    Assigning below (values es hints) (Assigned (.values es hints)) := by
  induction es generalizing hints with
  | nil => exact .task rfl <| .pure _
  | cons e rest ih =>
    rw [List.forall_mem_cons] at hes
    have hrest := ih hes.2 hints.tail
    have hsingle (value : Value) (span : Span) : Assignless below (expectSingle value span) :=
      Quiet.assigning (quiet_expectSingle _ _)
    refine .task rfl <| (hes.1 hints.head? below).walk [fun _ => _] fun r => ?_
    cases rest with
    | nil => exact hrest.walk [] fun _ => .pure _
    | cons =>
      refine (hsingle _ _).bind [fun _ => _] fun _ => ?_
      rw [pure_bind]
      exact hrest.walk [] fun _ => .pure _

theorem assigning_elements_of (hes : ∀ e ∈ es, AssigningExpr e) (reference : Option Ty)
    (below : Bool) :
    Assigning below (elements es reference) (Assigned (.elements es reference)) := by
  induction es generalizing reference with
  | nil => exact .task rfl <| .pure _
  | cons e rest ih =>
    rw [List.forall_mem_cons] at hes
    exact .task rfl <| (hes.1 reference below).single.walk [fun _ => _] fun _ =>
      (Quiet.assigning (quiet_elementType _ _ _)).bind [fun _ => _] fun _ =>
        (ih hes.2 _).walk [] fun _ => .pure _

theorem assigning_mapEntries_of {entries : List MapEntry}
    (hes : ∀ e ∈ entries.map (·.value), AssigningExpr e) (keys : List String)
    (reference : Option Ty) (below : Bool) : Assigning below (mapEntries entries keys reference)
      (Assigned (.mapEntries entries keys reference)) := by
  induction entries generalizing keys reference with
  | nil => exact .task rfl <| .pure _
  | cons entry rest ih =>
    obtain ⟨key, e⟩ := entry
    rw [List.map_cons, List.forall_mem_cons] at hes
    have hfirst := (hes.1 reference below).single
    have hrest (reference : Option Ty) := ih hes.2 (key.name :: keys) reference
    have htype (got : Ty) (span : Span) : Assignless below (elementType reference got span) :=
      Quiet.assigning (quiet_elementType _ _ _)
    refine .task rfl ?_
    unfold mapEntries taskParts
    exact .guard [fun _ => _, fun _ => _] (assignless_report rfl _) fun _ =>
      hfirst.walk [fun _ => _] fun _ => (htype _ _).bind [fun _ => _] fun _ =>
        (hrest _).walk [] fun _ => .pure _

theorem assigning_unchecked_of (hes : ∀ e ∈ es, AssigningExpr e) (below : Bool) :
    Assigning below (unchecked es) (Assigned (.unchecked es)) := by
  induction es with
  | nil => exact .task rfl <| .pure _
  | cons e rest ih =>
    rw [List.forall_mem_cons] at hes
    exact .task rfl <| (hes.1 none below).walk [_] fun _ => (ih hes.2).walk [] fun _ => .pure _

theorem assigning_patterns_of (hes : ∀ e ∈ es, AssigningExpr e) (subject : Ty) (below : Bool) :
    Assigning below (patterns es subject) (Assigned (.patterns es subject)) := by
  induction es with
  | nil => exact .task rfl <| .pure _
  | cons e rest ih =>
    rw [List.forall_mem_cons] at hes
    exact .task rfl <| (hes.1 (some subject) below).single.walk [fun _ => _] fun _ =>
      .guard [fun _ => _] (assignless_report rfl _) fun _ => (ih hes.2).walk [] fun _ => .pure _

theorem assigning_places_of (hes : ∀ e ∈ es, AssigningExpr e) (below : Bool) :
    Assigning below (places es) (Assigned (.places es)) := by
  induction es with
  | nil => exact .task rfl <| .pure _
  | cons e rest ih =>
    rw [List.forall_mem_cons] at hes
    have hplace := assigning_place (hes.1 none below)
    have hparts : taskParts (.places (e :: rest)) = [assignLocal e >>= fun _ => here (.expr e none)] ++
        [fun _ => here (.places rest)].map fun part => place e >>= part := by
      simp only [taskParts, place, bind_assoc, pure_bind, List.map_cons, List.map_nil,
        List.singleton_append]
    rw [places_cons, assigned_eq, hparts, markings_append, markings_map_bind]
    exact (hplace.seq fun _ => (ih hes.2).walk [] fun _ => .pure _).congr (sup_assoc _ _ _)

theorem assigning_repeatPart_of {part : Option Expr} (hes : ∀ e ∈ part.toList, AssigningExpr e)
    (ty : Ty) (span : Span) (below : Bool) :
    Assigning below (repeatPart part ty span) (Assigned (.repeatPart part ty span)) := by
  cases part with
  | none => exact .task rfl <| .pure _
  | some e =>
    have he := hes e (List.mem_singleton_self e) (some ty) below
    exact .task rfl <| he.single.walk [] fun _ =>
      Quiet.assigning ((quiet_checkType _ _ _ _).bind fun _ => .pure _)

theorem assigning_body_of (hstmts : ∀ st ∈ stmts, AssigningStmt st) (reported : Bool) :
    Assigning true (body stmts reported) (Assigned (.body stmts reported)) := by
  induction stmts generalizing reported with
  | nil => exact .task rfl <| .pure _
  | cons first rest ih =>
    rw [List.forall_mem_cons] at hstmts
    have hfirst := hstmts.1 true fun _ => rfl
    have hrest (reported : Bool) := ih hstmts.2 reported
    have hclear : Assignless true clearNarrowings := Quiet.assigning quiet_clearNarrowings
    have hleaves : Assignless true alwaysLeaves := Quiet.assigning (quiet_scopes.bind fun _ => .pure _)
    have hget : Assignless true (get : Check State) := Quiet.assigning quiet_get
    refine .task rfl <| hfirst.walk [_] fun _ => hclear.bind [fun _ => _] fun _ => ?_
    cases rest with
    | nil => exact .skip (.pure _)
    | cons next others =>
      have hreport : Assignless true (report .unreachableCode (runSpan next others)) :=
        assignless_report rfl _
      refine hleaves.bind [fun _ => _] fun leaves => ?_
      cases leaves with
      | true =>
        simp only [if_true, List.map_cons, List.map_nil]
        refine .guard [fun _ => _] hreport fun _ => hget.bind [fun _ => _] fun st => ?_
        simp only [List.map_cons, List.map_nil]
        cases st.session.config.prune with
        | true => exact .skip (.pure _)
        | false => exact (hrest true).walk [] fun _ => .pure _
      | false => exact (hrest reported).walk [] fun _ => .pure _

theorem assigning_matchArms_of {arms : List MatchArm}
    (hes : ∀ e ∈ arms.flatMap (·.patterns), AssigningExpr e)
    (hstmts : ∀ st ∈ arms.flatMap (·.body), AssigningStmt st) (subject : Ty) (below : Bool) :
    Assigning below (matchArms arms subject) (Assigned (.matchArms arms subject)) := by
  induction arms with
  | nil => exact .task rfl <| .pure _
  | cons arm rest ih =>
    obtain ⟨pats, isDefault, stmts, span⟩ := arm
    rw [List.flatMap_cons, List.forall_mem_append] at hes hstmts
    have hpats := assigning_patterns_of hes.1 subject below
    have harm : Assigning below (inBranch (body stmts false)) (markings [branch [] false stmts []]) :=
      assigning_plainBranch [] (assigning_body_of hstmts.1 false)
    have hrest := ih hes.2 hstmts.2
    have hclear : Assignless below clearNarrowings := Quiet.assigning quiet_clearNarrowings
    refine .task rfl ?_
    unfold matchArms
    change Assigning below _ (markings [_, _, _])
    cases isDefault with
    | true =>
      simp only [if_true, pure_bind]
      refine .skip ?_
      cases rest.isEmpty with
      | true => exact harm.bind [fun _ => _] fun _ => hrest.walk [] fun _ => .pure _
      | false =>
        exact (assignless_report rfl _).bind [fun _ => _, fun _ => _] fun _ =>
          harm.bind [fun _ => _] fun _ => hrest.walk [] fun _ => .pure _
    | false =>
      simp only [Bool.false_eq_true, if_false, bind_assoc, pure_bind]
      exact hpats.walk [fun _ => _, fun _ => _] fun _ => hclear.bind [fun _ => _, fun _ => _] fun _ =>
        harm.bind [fun _ => _] fun _ => hrest.walk [] fun _ => .pure _

theorem assigning_elseIfs_of {branches : List ElseIf}
    (hes : ∀ e ∈ branches.map (·.condition), AssigningExpr e)
    (hstmts : ∀ st ∈ branches.flatMap (·.body), AssigningStmt st) (below : Bool) :
    Assigning below (elseIfs branches) (Assigned (.elseIfs branches)) := by
  induction branches with
  | nil => exact .task rfl <| .pure _
  | cons elseIf rest ih =>
    obtain ⟨condition, stmts, span⟩ := elseIf
    rw [List.map_cons, List.forall_mem_cons] at hes
    rw [List.flatMap_cons, List.forall_mem_append] at hstmts
    exact .task rfl <| assigning_condition [fun _ => _, fun _ => _] (hes.1 none below) fun _ _ =>
      (assigning_branch _ false [] (assigning_body_of hstmts.1 false)).bind [fun _ => _] fun _ =>
        (ih hes.2 hstmts.2).walk [] fun _ => .pure _

theorem assigning_elseBody_of {otherwise : Option (List Stmt)}
    (hstmts : ∀ st ∈ otherwise.getD [], AssigningStmt st) (narrowings : List Narrowing)
    (below : Bool) :
    Assigning below (elseBody otherwise narrowings) (Assigned (.elseBody otherwise narrowings)) := by
  cases otherwise with
  | none => exact .task rfl <| (assignless_reportExits _).bind [] fun _ => .pure _
  | some stmts =>
    exact .task rfl <| (assigning_branch _ true [] (assigning_body_of hstmts false)).bind []
      fun _ => .pure _

end Nodes

/-! ## Nodes -/

theorem assigning_expr_of {e : Expr} (hes : ∀ child ∈ e.children, AssigningExpr child)
    (hpatterns : ∀ pattern ∈ e.patterns, AssigningExpr pattern)
    (hstmts : ∀ st ∈ e.statements, AssigningStmt st) : AssigningExpr e := by
  intro hint below
  cases e with
  | literal | error => exact .task rfl <| .pure _
  | ident id => exact .task rfl <| Quiet.assigning (quiet_identifier id)
  | builtin id => exact .task rfl <| Quiet.assigning ((quiet_builtinValue id).bind fun _ => .pure _)
  | envAccess env name span =>
    exact .task rfl <| Quiet.assigning (quiet_qualifiedName env name span)
  | unary op operand span =>
    have hoperand := (hes operand (List.mem_singleton_self _) none below).single
    exact .task rfl <| hoperand.walk [] fun _ => Quiet.assigning <|
      (quiet_unaryValue _ _ _).bind fun _ => .pure _
  | binary left op right span =>
    obtain ⟨hleft, hright⟩ := List.forall_mem_cons.1 hes
    have hleft := (hleft none below).single
    have hright (hint : Option Ty) := (hright right (List.mem_singleton_self _) hint below).single
    have hdrop (before : Nat) : Assignless below (dropUnderOr before span) :=
      Quiet.assigning (quiet_dropUnderOr _ _)
    refine .task rfl <| .get_bind fun st => hleft.walk [_] fun _ => (hright _).walk [] fun _ => ?_
    exact .guard [] (hdrop _) fun _ => Quiet.assigning <|
      (quiet_binaryValue _ _ _ _).bind fun _ => .pure _
  | group inner span =>
    exact .task rfl <| (hes inner (List.mem_singleton_self _) hint below).walk [] fun _ => .pure _
  | list elems span =>
    exact .task rfl <| (Quiet.assigning (quiet_checkKnown _ _ _)).bind [fun _ => _] fun _ =>
      (assigning_elements_of hes _ below).walk [] fun _ => .pure _
  | map entries span =>
    exact .task rfl <| (Quiet.assigning (quiet_checkKnown _ _ _)).bind [fun _ => _] fun _ =>
      (assigning_mapEntries_of hes _ _ below).walk [] fun _ => .pure _
  | call caller generics args returnAmount span =>
    obtain ⟨hcaller, hargs⟩ := List.forall_mem_cons.1 hes
    have hvalues (hints : List Ty) := assigning_values_of hargs hints below
    have hunchecked := assigning_unchecked_of hargs below
    refine .task rfl <| (hcaller none below).single.walk [fun _ => _] fun r => ?_
    obtain ⟨caller', callee⟩ := r
    cases callee with
    | function signature =>
      exact (assigning_call hvalues _ _ _).bind [] fun _ => .pure _
    | _ =>
      exact .guard [fun _ => _] (assignless_report rfl _) fun _ =>
        hunchecked.walk [] fun _ => .pure _
  | methodCall receiver owner kind method generics args returnAmount span =>
    obtain ⟨hreceiver, hargs⟩ := List.forall_mem_cons.1 hes
    have hreceiver := (hreceiver none below).single
    have hvalues (hints : List Ty) := assigning_values_of hargs hints below
    have hunchecked := assigning_unchecked_of hargs below
    have hmethod : Assignless below (calledMethod owner kind method) :=
      Quiet.assigning (quiet_calledMethod _ _ _)
    refine .task rfl <| hreceiver.walk [_] fun _ => hmethod.bind [_] fun found => ?_
    cases found with
    | found signature => exact (assigning_call hvalues _ _ _).bind [] fun _ => .pure _
    | missing => exact hunchecked.walk [] fun _ => .pure _
    | ownerless => exact .skip (.pure _)
  | field target field index span =>
    have htarget := (hes target (List.mem_singleton_self _) none below).single
    exact .task rfl <| htarget.walk [] fun _ => Quiet.assigning (quiet_fieldAccess _ _ _ _ _)
  | member target index span =>
    obtain ⟨htarget, hindex⟩ := List.forall_mem_cons.1 hes
    have htarget := (htarget none below).single
    have hindex := (hindex index (List.mem_singleton_self _) none below).single
    exact .task rfl <| htarget.walk [_] fun _ => hindex.walk [] fun _ => Quiet.assigning <|
      (quiet_elementValue _ _ _ _).bind fun _ => .pure _
  | self owner span =>
    exact .task rfl <| Quiet.assigning ((quiet_selfValue _).bind fun _ => .pure _)
  | new ty generics args span | spawn ty generics args span =>
    have hvalues (hints : List Ty) := assigning_values_of hes hints below
    have hargs := assigning_unchecked_of hes below
    have hfound (kind : NamedKind) (word : String) : Assignless below (constructed ty kind word) :=
      Quiet.assigning (quiet_constructed _ _ _)
    refine .task rfl <| (hfound _ _).bind [_] fun found => ?_
    obtain ⟨ref, _ | signature⟩ := found
    · exact hargs.walk [] fun _ => .pure _
    · exact (assigning_call hvalues _ _ _).bind [] fun _ => .pure _
  | function params returns stmts span =>
    exact .task rfl <| (fixes_resolveSignature _ _ _).assigning.bind [_] fun _ =>
      (assigning_inFunction _ _ _ (assigning_body_of hstmts false)).bind [] fun _ => .pure _
  | matching subject arms returnAmount span =>
    have hsubject := (hes subject (List.mem_singleton_self _) none below).single
    exact .task rfl <| hsubject.walk [fun _ => _] fun _ =>
      (Assigning.inScope (ScopeStack.opensInner_push rfl _) [fun _ => _]
        (assigning_matchArms_of hpatterns hstmts _ true).inside).bind [] fun _ =>
          (assignless_matchValue _ _ _).bind [] fun _ => .pure _
  | entityTest value ty binding negated official span =>
    have hvalue := (hes value (List.mem_singleton_self _) none below).single
    exact .task rfl <| hvalue.walk [] fun _ => Quiet.assigning <|
      (quiet_checkType _ _ _ _).bind fun _ => (quiet_entityTest _ _ _ _).bind fun _ => .pure _

theorem assigning_variable {decl : VariableDecl} (hes : ∀ e ∈ decl.values, AssigningExpr e)
    (below : Bool) :
    Assigning below (stmt (.variable decl)) (Assigned (.stmt (.variable decl))) := by
  obtain ⟨names, ty, exprs, isPub, isConst, span⟩ := decl
  have hvalues (hints : List Ty) :
      Assigning below (values exprs hints) (Assigned (.values exprs hints)) :=
    assigning_values_of hes hints below
  have htype : Assignless below (resolveType? ty) := Quiet.assigning (quiet_resolveType? _)
  have hdefaults (d : Declaration) : Assignless below (defaultValues d) :=
    Quiet.assigning (quiet_defaultValues _)
  have hcount (values : List (Value × Span)) : Assignless below
      (checkValueCount names.length values span "declaration") :=
    Quiet.assigning (quiet_checkValueCount _ _ _ _)
  refine .task rfl ?_
  unfold stmt
  change Assigning below _ (markings [_])
  refine .guard_scopes (assignless_report rfl _) ?_
  refine .guard [fun _ => _] (assignless_report rfl _) fun _ => htype.bind [fun _ => _] fun _ => ?_
  cases exprs with
  | nil =>
    exact .skip <| (hdefaults _).bind [] fun _ => (assignless_declareNames _ _ _ _).bind []
      fun _ => .pure _
  | cons =>
    refine (hvalues _).walk [] fun _ => (hcount _).bind [] fun _ => ?_
    rw [pure_bind]
    exact (assignless_declareNames _ _ _ _).bind [] fun _ => .pure _

theorem assigning_stmt_of {st : Stmt} (hes : ∀ e ∈ st.expressions, AssigningExpr e)
    (hstmts : ∀ inner ∈ st.statements, AssigningStmt inner) : AssigningStmt st := by
  intro below hplace
  cases st with
  | env decl => exact .task rfl <| (assignless_report rfl _).bind [] fun _ => .pure _
  | «variable» decl => exact assigning_variable hes below
  | function decl =>
    obtain ⟨name, generics, params, returns, stmts, isPub, span⟩ := decl
    exact .task rfl <| (assignless_functionSignature _ _ _ _ _ _).bind [_] fun _ =>
      (assigning_inFunction _ _ _ (assigning_body_of hstmts false)).bind [] fun _ => .pure _
  | classDecl decl =>
    obtain ⟨name, isPub, fields, methods, constructor, span⟩ := decl
    exact .task rfl <| assigning_belowRoot [fun _ => _, fun _ => _, fun _ => _] rfl (hplace rfl)
  | entityDecl decl =>
    obtain ⟨name, isPub, fields, methods, functions, span⟩ := decl
    exact .task rfl <|
      assigning_belowRoot [fun _ => _, fun _ => _, fun _ => _, fun _ => _] rfl (hplace rfl)
  | enumDecl | aliasDecl =>
    exact .task rfl <| Quiet.assigning ((quiet_atRoot _ _).bind fun _ => .pure _)
  | assign targets op exprs span =>
    obtain ⟨htargets, hexprs⟩ := List.forall_mem_append.1 hes
    exact .task rfl <| (assigning_places_of htargets below).walk [fun _ => _] fun _ =>
      (assigning_values_of hexprs _ below).walk [] fun _ => Quiet.assigning <|
        (quiet_checkValueCount _ _ _ _).bind fun _ => (quiet_checkAssigned _ _ _).bind
          fun _ => .pure _
  | ifChain condition stmts elseifs otherwise span =>
    obtain ⟨hcondition, hconditions⟩ := List.forall_mem_cons.1 hes
    obtain ⟨hthen, hstmts⟩ := List.forall_mem_append.1 hstmts
    obtain ⟨hbodies, helse⟩ := List.forall_mem_append.1 hstmts
    have hbody := assigning_body_of hthen false
    have helseifs := assigning_elseIfs_of hconditions hbodies true
    have hotherwise (narrowings : List Narrowing) := assigning_elseBody_of helse narrowings true
    refine .task rfl <| assigning_condition [fun _ => _, fun _ => _, fun _ => _]
      (hcondition none below) fun _ narrowings => ?_
    have hbranch : Assigning true (inBranch do
        declareNarrowings narrowings false
        body stmts false) (markings [branch narrowings false stmts [.block]]) :=
      assigning_branch narrowings false [.block] hbody
    have hbranches := hbranch.bind [fun _ => _, fun _ => _] fun r =>
      helseifs.walk (r := [.block]) [fun _ => _] fun b =>
        (hotherwise narrowings).walk (r := [.block]) [] fun d => .pure (r.1, r.2, b, d)
    exact (Assigning.inScope (ScopeStack.opensInner_push rfl _) [fun _ => _, fun _ => _, fun _ => _]
      hbranches).bind [] fun _ => .guard [] (assignless_declareNarrowings _ _) fun _ => .pure _
  | repeatLoop iterator start skip counter stmts span =>
    obtain ⟨hiterator, hparts⟩ := List.forall_mem_cons.1 hes
    obtain ⟨hstart, hskip⟩ := List.forall_mem_append.1 hparts
    have hiterator := (hiterator none below).single
    have hstart (ty : Ty) := assigning_repeatPart_of hstart ty span below
    have hskip (ty : Ty) := assigning_repeatPart_of hskip ty span below
    have hbody := assigning_body_of hstmts false
    have htype (iterator : Expr) (value : Value) : Assignless below (repeatType iterator value) :=
      Quiet.assigning (quiet_repeatType _ _)
    exact .task rfl <| hiterator.walk [fun _ => _, fun _ => _, fun _ => _] fun _ =>
      (htype _ _).bind [fun _ => _, fun _ => _, fun _ => _] fun _ =>
        (hstart _).walk [_, _] fun _ => (hskip _).walk [_] fun _ =>
          (assigning_plainLoop .loop .ofLoop _ hbody).bind [] fun _ => .pure _
  | whileLoop condition stmts span =>
    have hcondition := hes condition (List.mem_singleton_self _) none below
    exact .task rfl <| assigning_condition [fun _ => _] hcondition fun _ _ =>
      (assigning_loopBody .loop .ofLoop [] _ (assigning_body_of hstmts false)).bind []
        fun _ => .pure _
  | forLoop key value iterator stmts span =>
    have hiterator := (hes iterator (List.mem_singleton_self _) none below).single
    have hbody := assigning_body_of hstmts false
    have hfound (iterator : Expr) (value : Value) : Assignless below (iterated iterator value) :=
      Quiet.assigning (quiet_iterated _ _)
    have hkey : Assignless below (forKey key span) := Quiet.assigning (quiet_forKey _ _)
    exact .task rfl <| hiterator.walk [fun _ => _] fun _ => (hfound _ _).bind [fun _ => _] fun _ =>
      hkey.bind [fun _ => _] fun _ =>
        (assigning_plainLoop .loop .ofLoop _ hbody).bind [] fun _ => .pure _
  | tick counter stmts span =>
    exact .task rfl <| (assigning_plainLoop .tick .empty _ (assigning_body_of hstmts false)).bind []
      fun _ => .pure _
  | matching subject arms span =>
    obtain ⟨hsubject, hpatterns⟩ := List.forall_mem_cons.1 hes
    exact .task rfl <| (hsubject none below).single.walk [fun _ => _] fun _ =>
      (Assigning.inScope (ScopeStack.opensInner_push rfl _) [fun _ => _]
        ((assigning_matchArms_of hpatterns hstmts _ true).walk [] fun _ =>
          .guard [] (assignless_reportExits _) fun _ => .pure _)).bind [] fun _ =>
            .guard [] (assignless_report rfl _) fun _ => .pure _
  | returning exprs span =>
    have hvalues (hints : List Ty) := assigning_values_of hes hints below
    have hallowed : Assignless below (exitAllowed { returns := true } "return" span) :=
      Quiet.assigning (quiet_exitAllowed _ _ _)
    have htypes : Assignless below returnTypes := Quiet.assigning quiet_returnTypes
    refine .task rfl <| hallowed.bind [fun _ => _] fun accepted => ?_
    cases accepted with
    | true =>
      exact htypes.bind [_] fun _ => (hvalues _).walk [] fun _ =>
        (assignless_checkReturn _ _ _).bind [] fun _ => .pure _
    | false => exact (hvalues _).walk [] fun _ => .pure _
  | yielding exprs span =>
    have hvalues (hints : List Ty) := assigning_values_of hes hints below
    have hallowed : Assignless below (exitAllowed { yields := true } "yield" span) :=
      Quiet.assigning (quiet_exitAllowed _ _ _)
    have htarget : Assignless below yieldTarget := Quiet.assigning quiet_yieldTarget
    refine .task rfl <| hallowed.bind [fun _ => _] fun accepted => ?_
    cases accepted with
    | true =>
      exact htarget.bind [fun _ => _] fun _ => (hvalues _).walk [] fun _ =>
        (assignless_checkYield _ _ _ _).bind [] fun _ => .pure _
    | false => exact (hvalues _).walk [] fun _ => .pure _
  | breaking span | continuing span =>
    have hallowed (needed : Permissions) (word : String) :
        Assignless below (exitAllowed needed word span) := Quiet.assigning (quiet_exitAllowed _ _ _)
    exact .task rfl <| (hallowed _ _).bind [] fun _ => .guard [] (assignless_markExit _) fun _ =>
      .pure _
  | destroy target generics args span =>
    obtain ⟨htarget, hargs⟩ := List.forall_mem_cons.1 hes
    have hvalues (hints : List Ty) := assigning_values_of hargs hints below
    have hunchecked := assigning_unchecked_of hargs below
    have hfound (target : Expr) (value : Value) : Assignless below (destroyer? target value) :=
      Quiet.assigning (quiet_destroyer? _ _)
    refine .task rfl <| (htarget none below).single.walk [fun _ => _] fun _ =>
      (hfound _ _).bind [fun _ => _] fun found => ?_
    cases found with
    | none => exact hunchecked.walk [] fun _ => .pure _
    | some signature => exact (assigning_call hvalues _ _ _).bind [] fun _ => .pure _
  | use decl =>
    have hscopes : Assignless below scopes := Quiet.assigning quiet_scopes
    exact .task rfl <| hscopes.bind [] fun _ => .guard [] (assignless_useEnvironment _) fun _ =>
      .pure _
  | expr e =>
    exact .task rfl <| (hes e (List.mem_singleton_self _) none below).walk [] fun _ => .pure _
  | error span => exact .task rfl <| .pure _

/-! ## Trees -/

theorem assigning_tree : (∀ e, AssigningExpr e) ∧ ∀ st, AssigningStmt st :=
  Tree.induction (fun _ hes hpatterns hstmts => assigning_expr_of hes hpatterns hstmts)
    fun _ hes hstmts => assigning_stmt_of hes hstmts

theorem assigning_stmt (st : Stmt) (below : Bool) (hplace : st.isContainer = true → below = true) :
    Assigning below (stmt st) (Assigned (.stmt st)) :=
  assigning_tree.2 st below hplace

theorem assigning_body (stmts : List Stmt) (reported : Bool) :
    Assigning true (body stmts reported) (Assigned (.body stmts reported)) :=
  assigning_body_of (fun st _ => assigning_tree.2 st) reported

end Check

end HybroidSema
