import HybroidSema.Proofs.Returns
import HybroidSema.Proofs.Signatures
import HybroidSema.Proofs.Unreachable

/-!
# Which missing exits are reported

The walk of a tree reports the missing exits of the forms in it, in the order in which it finishes
them, and no others. What is done at one node reports none, so it is enough to follow the recursion.

* `ScopeStack.Alike`: stacks that differ in the exits that the innermost scope has collected.
* `Check.ReportsIn` and `Check.Reports`: the reports of a check, by the forms that it finishes. If an
  error ends the build, nothing is said about the reports before it.
* `reports_inFunction` and `reports_matchExpr`: the places that report.
* `weighs_reports`: an expression finishes the forms of its operands, so no kind of expression is
  looked at but those with a body.
* `reports_expr_of` and `reports_stmt_of`: what a node finishes, by what is right inside it.
* `reports_expr` and `reports_stmt`: by induction on the tree.
-/

namespace HybroidSema

namespace Permissions

/-- The exits that are permitted. -/
def exits (p : Permissions) : Permissions := { p with selfRef := false }

@[simp] theorem exits_union (p q : Permissions) : (p.union q).exits = p.exits.union q.exits := rfl

@[simp] theorem union_empty (p : Permissions) : p.union .empty = p := by
  simp [union, empty]

theorem union_yields (p : Permissions) :
    p.union { yields := true } = { p with yields := true } := by
  simp [union]

end Permissions

namespace Stmt

/-- Whether a statement at the root is registered before bodies are checked, with the signatures in
it. -/
def isRegistered : Stmt → Bool
  | .function _ | .classDecl _ | .entityDecl _ => true
  | _ => false

theorem reachable_exits (p : Permissions) (stmts : List Stmt) :
    reachable p.exits stmts = reachable p stmts := by
  induction stmts with
  | nil => rfl
  | cons first rest ih =>
    have hfirst : first.leaves p.exits = first.leaves p := leaves_self p false first
    simp only [reachable, hfirst, ih]

theorem unreachable_exits (p : Permissions) (stmts : List Stmt) :
    unreachable p.exits stmts = unreachable p stmts := by
  induction stmts with
  | nil => rfl
  | cons first rest ih =>
    have hfirst : first.leaves p.exits = first.leaves p := leaves_self p false first
    simp only [unreachable, hfirst, ih]

/-- Where nothing is removed, a body has the forms of all its statements. -/
theorem bodyForms_false (p : Permissions) (stmts : List Stmt) :
    bodyForms false p stmts = stmts.flatMap (·.forms false p) := by
  induction stmts with
  | nil => rfl
  | cons first rest ih => simp [bodyForms, ih]

/-- The forms of a body are those of its reachable statements, and of the others unless they are
removed. -/
theorem bodyForms_eq (prune : Bool) (p : Permissions) (stmts : List Stmt) :
    bodyForms prune p stmts = (reachable p stmts).flatMap (·.forms prune p) ++
      if prune then [] else (unreachable p stmts).flatMap (·.forms prune p) := by
  cases prune with
  | false =>
    rw [bodyForms_false, if_neg Bool.false_ne_true, ← List.flatMap_append,
      reachable_append_unreachable]
  | true =>
    induction stmts with
    | nil => rfl
    | cons first rest ih =>
      unfold bodyForms reachable
      cases first.leaves p <;> simp_all

end Stmt

/-! ## Stacks that differ in exits -/

namespace ScopeStack

/-- The stacks differ in the innermost scope only, and not in its frame. -/
def Alike (o o' : ScopeStack) : Prop :=
  ∃ f : Scope → Scope, (∀ scope, (f scope).frame = scope.frame) ∧ o' = o.modifyCurrent f

theorem Alike.refl (o : ScopeStack) : o.Alike o :=
  ⟨id, fun _ => rfl, (modifyCurrent_eq_self rfl).symm⟩

theorem Alike.trans {o o' o'' : ScopeStack} (h : o.Alike o') (h' : o'.Alike o'') : o.Alike o'' := by
  obtain ⟨f, hf, rfl⟩ := h
  obtain ⟨g, hg, rfl⟩ := h'
  exact ⟨g ∘ f, fun scope => (hg _).trans (hf scope), modifyCurrent_modifyCurrent o f g⟩

theorem Alike.permits {o o' : ScopeStack} (h : o.Alike o') :
    o'.current.permits = o.current.permits := by
  obtain ⟨f, hf, rfl⟩ := h
  rw [current_modifyCurrent, Scope.permits_of_frame_eq (hf _)]

theorem Alike.isRoot {o o' : ScopeStack} (h : o.Alike o') : o'.isRoot = o.isRoot := by
  obtain ⟨f, -, rfl⟩ := h
  unfold modifyCurrent ScopeStack.isRoot
  cases o.inner <;> rfl

/-- What is below the innermost scope is the same. -/
theorem Alike.of_cons {o o' : ScopeStack} {scope : Scope} (h : (o.cons scope).Alike o') :
    ∃ top, o' = o.cons top := by
  obtain ⟨f, -, rfl⟩ := h
  exact ⟨f scope, rfl⟩

theorem alike_addExits (o : ScopeStack) (exits : Exits) : o.Alike (o.addExits exits) :=
  ⟨fun scope => { scope with exits := scope.exits.union exits }, fun _ => rfl, rfl⟩

theorem alike_reportExits (o : ScopeStack) (exits : Exits) : o.Alike (o.reportExits exits) :=
  ⟨(·.receive exits), fun scope => Scope.frame_receive scope exits, rfl⟩

theorem alike_afterClosing (o : ScopeStack) (scope : Scope) : o.Alike (o.afterClosing scope) := by
  unfold afterClosing
  split
  · exact alike_reportExits o _
  · exact .refl o

end ScopeStack

namespace Check

variable {α β : Type} {m : Check α} {f : α → Check β} {c : Context} {s s' : State}

/-! ## Reports -/

/-- What a check that finishes some forms does. It runs in steps that change no scope below the
innermost one, and unless an error ends the build, its reports of missing exits are those of the
forms. -/
structure Finishes (c : Context) (s : State) (o : ScopeStack) (forms : List Form) (s' : State) :
    Prop where
  steps : Steps c .checking s s'
  live : ∃ o', o.Alike o' ∧ Live c s' o'
  missing : s'.fatal = none → s'.missing = s.missing ++ Form.missing forms

/-- A check finishes the forms that are given for what is pruned and permitted, wherever `ok`
holds. -/
def ReportsIn (ok : Bool → ScopeStack → Prop) (m : Check α)
    (forms : Bool → Permissions → List Form) : Prop :=
  ∀ c s o, Live c s o → ok s.session.config.prune o → Runs m c s fun _ s' =>
    Finishes c s o (forms s.session.config.prune o.current.permits.exits) s'

/-- A check finishes the forms that are given, wherever it runs. -/
abbrev Reports (m : Check α) (forms : Bool → Permissions → List Form) : Prop :=
  ReportsIn (fun _ _ => True) m forms

/-- A condition that does not depend on the exits that the innermost scope has collected. -/
def Stable (ok : Bool → ScopeStack → Prop) : Prop :=
  ∀ prune o o', o.Alike o' → ok prune o → ok prune o'

/-- A scope of its own is open. -/
def Below (_ : Bool) (o : ScopeStack) : Prop := o.isRoot = false

/-- A body may be walked here: its scope has no exits yet. -/
def Fresh (_ : Bool) (o : ScopeStack) : Prop :=
  o.isRoot = false ∧ o.current.tag.IsSequential ∧ o.current.exits.always = false

/-- The statement may be walked here without looking up what was registered for it. -/
def Unregistered (s : Stmt) (_ : Bool) (o : ScopeStack) : Prop :=
  s.isRegistered = true → o.isRoot = false

theorem stable_below : Stable Below := by
  intro _ o o' halike h
  rw [Below, halike.isRoot]
  exact h

section Rules

variable {ok : Bool → ScopeStack → Prop} {o o' : ScopeStack} {F G : Bool → Permissions → List Form}

/-- Forms that are finished one after the other. -/
theorem Finishes.trans {t : State} {forms others : List Form} (h : Finishes c s o forms t)
    (h' : Finishes c t o' others s') (halike : o.Alike o') :
    Finishes c s o (forms ++ others) s' := by
  obtain ⟨o'', halike', hl⟩ := h'.live
  refine ⟨h.steps.trans h'.steps, ⟨o'', halike.trans halike', hl⟩, fun hfatal => ?_⟩
  have hbefore : t.fatal = none := by
    by_contra hne
    exact Steps.fatal_ne h'.steps hne hfatal
  rw [h'.missing hfatal, h.missing hbefore, Form.missing_append, List.append_assoc]

/-- Steps at one node finish nothing. -/
theorem Finishes.of_steps (h : Steps c .visiting s s') (halike : o.Alike o') (hl : Live c s' o') :
    Finishes c s o [] s' :=
  ⟨h.checking, ⟨o', halike, hl⟩, fun _ => by
    rw [Form.missing_nil, List.append_nil, Steps.missing_eq rfl h]⟩

theorem ReportsIn.weaken {ok' : Bool → ScopeStack → Prop} (h : ReportsIn ok m F)
    (hok : ∀ prune o, ok' prune o → ok prune o) : ReportsIn ok' m F :=
  fun c s o hl hs => h c s o hl (hok _ o hs)

/-- What a check reports wherever it runs, it reports under a condition. -/
theorem ReportsIn.within (h : Reports m F) : ReportsIn ok m F := h.weaken fun _ _ _ => trivial

theorem ReportsIn.congr (h : ReportsIn ok m F) (heq : ∀ prune p, F prune p = G prune p) :
    ReportsIn ok m G := by
  rwa [← show F = G from funext fun prune => funext (heq prune)]

theorem ReportsIn.bind_of {Q : α → Prop} (hok : Stable ok) (hm : ReportsIn ok m F)
    (hgives : Gives m Q) (hf : ∀ a, Q a → ReportsIn ok (f a) G) :
    ReportsIn ok (m >>= f) fun prune p => F prune p ++ G prune p := by
  intro c s o hl hs
  obtain ⟨a, t, hrun, hfirst⟩ := hm c s o hl hs
  obtain ⟨o', halike, hl'⟩ := hfirst.live
  have hconfig := (Steps.frames hl hfirst.steps).1.config
  have ht : ok t.session.config.prune o' := by
    rw [hconfig]
    exact hok _ o o' halike hs
  obtain ⟨b, u, hrun', hrest⟩ := hf a (hgives c s a t hrun) c t o' hl' ht
  rw [hconfig, halike.permits] at hrest
  exact ⟨b, u, (bind_apply_ok hrun).trans hrun', hfirst.trans hrest halike⟩

theorem ReportsIn.bind (hok : Stable ok) (hm : ReportsIn ok m F)
    (hf : ∀ a, ReportsIn ok (f a) G) :
    ReportsIn ok (m >>= f) fun prune p => F prune p ++ G prune p :=
  hm.bind_of hok (Q := fun _ => True) (fun _ _ _ _ _ => trivial) fun a _ => hf a

theorem Reports.bind (hm : Reports m F) (hf : ∀ a, Reports (f a) G) :
    Reports (m >>= f) fun prune p => F prune p ++ G prune p :=
  ReportsIn.bind (fun _ _ _ _ _ => trivial) hm hf

/-- What is done at one node finishes nothing. -/
theorem Quiet.reports (h : Quiet .visiting m) : ReportsIn ok m fun _ _ => [] :=
  fun c s o hl _ => (h c s o hl).mono fun _ _ ht => .of_steps ht.1 (.refl o) ht.2

/-- What is done at one node before the rest, with what is known of its result. -/
theorem Runs.finishes_bind {Q : α → State → Prop} {forms : List Form} (hl : Live c s o)
    (hm : Runs m c s fun a t => (Steps c .visiting s t ∧ Live c t o) ∧ Q a t)
    (hf : ∀ a t, Q a t → t.session.config = s.session.config → Live c t o →
      Runs (f a) c t fun _ u => Finishes c t o forms u) :
    Runs (m >>= f) c s fun _ u => Finishes c s o forms u := by
  refine hm.bind fun a t ht => ?_
  obtain ⟨⟨hsteps, hl'⟩, hq⟩ := ht
  refine (hf a t hq (Steps.frames hl hsteps).1.config hl').mono fun _ u hu => ?_
  exact (Finishes.of_steps hsteps (.refl o) hl').trans hu (.refl o)

theorem Quiet.reports_bind_of {Q : α → Prop} (hm : Quiet .visiting m) (hgives : Gives m Q)
    (hf : ∀ a, Q a → ReportsIn ok (f a) F) : ReportsIn ok (m >>= f) F := by
  intro c s o hl hs
  obtain ⟨a, t, hrun, ht⟩ := hm c s o hl
  refine Runs.finishes_bind (Q := fun a _ => Q a) hl ⟨a, t, hrun, ht, hgives c s a t hrun⟩
    fun a t hq hconfig hl' => ?_
  rw [← hconfig] at hs ⊢
  exact hf a hq c t o hl' hs

theorem Quiet.reports_bind (hm : Quiet .visiting m) (hf : ∀ a, ReportsIn ok (f a) F) :
    ReportsIn ok (m >>= f) F :=
  hm.reports_bind_of (Q := fun _ => True) (fun _ _ _ _ _ => trivial) fun a _ => hf a

theorem ReportsIn.bind_quiet (hm : ReportsIn ok m F) (hf : ∀ a, Quiet .visiting (f a)) :
    ReportsIn ok (m >>= f) F := by
  intro c s o hl hs
  refine (hm c s o hl hs).bind fun a t hfirst => ?_
  obtain ⟨o', halike, hl'⟩ := hfirst.live
  refine (hf a c t o' hl').mono fun _ u hu => ?_
  have hrest := hfirst.trans (.of_steps hu.1 (.refl o') hu.2) halike
  rwa [List.append_nil] at hrest

theorem ReportsIn.bind_pure {g : α → β} (hm : ReportsIn ok m F) :
    ReportsIn ok (m >>= fun a => pure (g a)) F :=
  hm.bind_quiet fun _ => .pure _

theorem ReportsIn.guard {f : PUnit → Check β} {m : Check PUnit} {b : Prop} [Decidable b]
    (hm : Quiet .visiting m) (hf : ∀ u, ReportsIn ok (f u) F) :
    ReportsIn ok (if b then m >>= f else f ⟨⟩) F := by
  split
  · exact hm.reports_bind hf
  · exact hf _

/-- A check that is made under a condition after the scopes were read, before the rest. -/
theorem ReportsIn.guard_scopes {m : Check PUnit} {rest : Check β} {b : Prop} [Decidable b]
    {b' : ScopeStack → Prop} [∀ stack, Decidable (b' stack)] (hm : Quiet .visiting m)
    (hrest : ReportsIn ok rest F) :
    ReportsIn ok (if b then scopes >>= fun stack => if b' stack then m >>= fun _ => rest else rest
      else rest) F := by
  split
  · exact quiet_scopes.reports_bind fun _ => .guard hm fun _ => hrest
  · exact hrest

/-- An exit statement finishes nothing. -/
theorem Exiting.reports {kind : Exits} (h : Exiting .visiting kind m) : Reports m fun _ _ => [] :=
  fun c s o hl _ => (h c s o hl).mono fun _ _ ht =>
    .of_steps ht.1 (ScopeStack.alike_addExits o _) ht.2

/-- A path that goes past all branches. -/
theorem reports_past : Reports (modifyScopes (·.reportExits .empty)) fun _ _ => [] := by
  intro c s o hl _
  have hpast : Branches .visiting (modifyScopes (·.reportExits .empty)) (fun _ => [false])
      fun _ => True := branches_none
  refine (hpast c s o hl).mono fun _ t ht => ?_
  obtain ⟨-, hsteps, xs, hxs, hl'⟩ := ht
  obtain ⟨x, rfl⟩ : ∃ x, xs = [x] := List.length_eq_one_iff.1 hxs.length_eq.symm
  exact .of_steps hsteps (ScopeStack.alike_reportExits o x) hl'

/-- A check in a scope of its own finishes what it finishes there. -/
theorem ReportsIn.inScope {enter : ScopeStack → ScopeStack} (hm : ReportsIn ok m G)
    (scope : ScopeStack → Scope)
    (henter : ∀ stack, (enter stack).outline = stack.outline.cons (scope stack.outline) ∧
      (enter stack).root.bindings = stack.root.bindings)
    (hok : ∀ prune (o : ScopeStack), ok prune (o.cons (scope o)))
    (hforms : ∀ prune (o : ScopeStack),
      G prune (scope o).permits.exits = F prune o.current.permits.exits) :
    Reports (Check.inScope enter m) F := by
  intro c s o hl _
  have hopen : ∀ env, s.own? c = some env → env.scopes.outline = o →
      (enter env.scopes).outline = o.cons (scope o) ∧
        Phase.visiting.KeepsRoot env.scopes (enter env.scopes) := fun env _ ho =>
    ⟨ho ▸ (henter env.scopes).1, .of_bindings_eq .visiting (henter env.scopes).2⟩
  refine (runs_modifyScopes .visiting hl hopen).bind fun _ s₁ hopened => ?_
  obtain ⟨hs₁, hl₁, -⟩ := hopened
  have hconfig := (Steps.frames hl hs₁).1.config
  refine (hm c s₁ _ hl₁ (hok _ o)).bind fun a s₂ hbody => ?_
  obtain ⟨o₂, halike, hl₂⟩ := hbody.live
  obtain ⟨top, rfl⟩ := halike.of_cons
  refine (runs_closeScope .visiting hl₂).bind fun closed s₃ hclosed => .pure ?_
  obtain ⟨hs₃, scope', below, -, -, hl₃, -⟩ := hclosed
  refine ⟨(hs₁.checking.trans hbody.steps).trans hs₃.checking,
    ⟨_, ScopeStack.alike_afterClosing o top, hl₃⟩, fun hfatal => ?_⟩
  have hfatal₂ : s₂.fatal = none := by
    by_contra hne
    exact Steps.fatal_ne hs₃ hne hfatal
  rw [Steps.missing_eq rfl hs₃, hbody.missing hfatal₂, Steps.missing_eq rfl hs₁, hconfig,
    ← hforms _ o]
  rfl

end Rules

/-! ## Missing exits -/

/-- The end of a form reports its missing exit. -/
theorem reports_form (form : Form) :
    Reports (if form.lacksExit then alert form.alert else pure ()) fun _ _ => [form] := by
  have hmissing : form.alert.kind.isMissingExit = true := by cases form <;> rfl
  have halert : Quiet .checking (alert form.alert) :=
    quiet_alert _ (by cases form <;> rfl)
  intro c s o hl _
  cases hform : form.lacksExit with
  | true =>
    simp only [if_true]
    refine ((halert c s o hl).and (runs_modify _)).mono fun _ t ht => ?_
    obtain ⟨⟨hsteps, hl'⟩, rfl⟩ := ht
    refine ⟨hsteps, ⟨o, .refl o, hl'⟩, fun _ => ?_⟩
    rw [State.missing_push, hmissing]
    simp [Form.missing, hform]
  | false =>
    refine .pure ⟨.refl, ⟨o, .refl o, hl⟩, fun _ => ?_⟩
    simp [Form.missing, hform]

/-- A function finishes the forms in its body, and then itself. -/
theorem reports_inFunction {signature : Signature} {returns : List TypeExpr} {stmts : List Stmt}
    (hreturns : signature.returns.length = returns.length) (params : List Param) (span : Span)
    (hbody : ReportsIn Fresh (body stmts false) (Stmt.bodyForms · · stmts)) :
    Reports (inFunction signature params span (body stmts false)) fun prune _ =>
      Stmt.bodyForms prune { returns := true } stmts ++ [.function returns stmts span] := by
  have hinner : ReportsIn Fresh (do
      bindParams params signature.params
      body stmts false) (Stmt.bodyForms · · stmts) :=
    (quiet_bindParams _ _).reports_bind fun _ => hbody
  have hwalk : Reports (walkFunction signature params stmts) fun prune _ =>
      Stmt.bodyForms prune { returns := true } stmts :=
    ReportsIn.bind_pure (hinner.inScope (·.funcScope _) (fun stack => stack.pushFunction_opens _)
      (fun _ _ => ⟨rfl, trivial, rfl⟩) fun _ _ => rfl)
  have hlacks : (!signature.returns.isEmpty && !Stmt.bodyReturns stmts) =
      (Form.function returns stmts span).lacksExit := by
    cases hs : signature.returns <;> cases hr : returns <;> simp_all [Form.lacksExit]
  have hend : Reports (missingReturn (!signature.returns.isEmpty) stmts span)
      fun _ _ => [.function returns stmts span] := by
    unfold missingReturn
    rw [hlacks]
    exact reports_form (.function returns stmts span)
  have hall := hwalk.bind fun out => hend.bind_pure (g := fun _ => out)
  intro c s o hl _
  obtain ⟨out, s', hrun, hfinishes⟩ := hall c s o hl trivial
  exact ⟨out, s', (inFunction_eq hl signature params span stmts).trans hrun, hfinishes⟩

/-! ## Bodies -/

theorem reports_eachStmt {stmts : List Stmt}
    (h : ∀ st ∈ stmts, ReportsIn Below (stmt st) (st.forms · ·)) :
    ReportsIn Below (eachStmt stmts) fun prune p => stmts.flatMap (·.forms prune p) := by
  induction stmts with
  | nil => exact (Quiet.pure _).reports
  | cons first rest ih =>
    rw [List.forall_mem_cons] at h
    have hrest := ih h.2
    refine (ReportsIn.bind stable_below h.1 fun _ => quiet_clearNarrowings.reports_bind fun _ =>
      hrest.bind_pure).congr fun prune p => ?_
    rw [List.flatMap_cons]

/-- The statements after the first one that leaves are walked if they are not removed. -/
theorem reports_finishBody {dead : List Stmt}
    (h : ∀ st ∈ dead, ReportsIn Below (stmt st) (st.forms · ·)) (walked : List Stmt) :
    ReportsIn Below (finishBody dead walked) fun prune p =>
      if prune then [] else dead.flatMap (·.forms prune p) := by
  cases dead with
  | nil => exact (Quiet.pure _).reports.congr fun prune _ => by simp
  | cons next others =>
    have hdead := reports_eachStmt h
    refine Quiet.reports_bind (quiet_report _ _ rfl) fun _ => ?_
    intro c s o hl hs
    refine runs_get.bind fun st t ht => ?_
    obtain ⟨rfl, rfl⟩ := ht
    dsimp only
    have hrun := hdead.bind_pure (g := fun rest => walked ++ rest) c t o hl hs
    split
    · exact .pure (.of_steps .refl (.refl o) hl)
    · exact hrun

/-- A body finishes the forms of its statements. -/
theorem reports_body {stmts : List Stmt}
    (h : ∀ st ∈ stmts, ReportsIn Below (stmt st) (st.forms · ·)) :
    ReportsIn Fresh (body stmts false) (Stmt.bodyForms · · stmts) := by
  intro c s o hl hs
  obtain ⟨hbelow, hseq, hfresh⟩ := hs
  have hall := Stmt.reachable_append_unreachable o.current.permits stmts
  have hreachable : ReportsIn Below (eachStmt (Stmt.reachable o.current.permits stmts)) _ :=
    reports_eachStmt fun st hst => h st (by rw [← hall]; exact List.mem_append_left _ hst)
  have hunreachable : ∀ walked, ReportsIn Below
      (finishBody (Stmt.unreachable o.current.permits stmts) walked) _ :=
    reports_finishBody fun st hst => h st (by rw [← hall]; exact List.mem_append_right _ hst)
  obtain ⟨out, s', hrun, hfinishes⟩ :=
    ReportsIn.bind stable_below hreachable hunreachable c s o hl hbelow
  refine ⟨out, s', (body_eq_of_fresh hl hseq hfresh stmts).trans hrun, ?_⟩
  dsimp only
  rw [Stmt.bodyForms_eq, Stmt.reachable_exits, Stmt.unreachable_exits]
  exact hfinishes

/-- A branch finishes the forms in its body. -/
theorem reports_inBranch {F : Bool → Permissions → List Form} (hm : ReportsIn Fresh m F) :
    Reports (inBranch m) F :=
  ReportsIn.bind_pure (hm.inScope (·.pushedScope .plain .empty)
    (fun stack => stack.push_opens .plain .empty) (fun _ _ => ⟨rfl, trivial, rfl⟩)
    fun prune o => by simp [ScopeStack.pushedScope])

/-- A loop finishes the forms in its body, where more exits are permitted. -/
theorem reports_inLoop {F : Bool → Permissions → List Form} (permits : Permissions)
    (bindings : List (Ident × Value)) (hm : ReportsIn Fresh m F) :
    Reports (inLoop permits bindings m) fun prune p => F prune (p.union permits.exits) := by
  have hbind : Quiet .visiting (bindings.forM fun binding =>
      declare { name := binding.1.name, value := binding.2, span := binding.1.span } "variable") :=
    .forM _ fun _ => quiet_declare _ _
  have hinner := hbind.reports_bind fun _ => hm
  exact ReportsIn.bind_pure (hinner.inScope (·.pushedScope .loop permits)
    (fun stack => stack.push_opens .loop permits) (fun _ _ => ⟨rfl, trivial, rfl⟩) fun _ _ => rfl)

/-- Alternative branches finish their forms in the scope that collects them. -/
theorem Reports.inChain {F : Bool → Permissions → List Form} (hm : Reports m F) :
    Reports (inScope (·.push (.multiPath {}) .empty) m) F :=
  hm.inScope (·.pushedScope (.multiPath {}) .empty)
    (fun stack => stack.push_opens (.multiPath {}) .empty) (fun _ _ => trivial)
    fun prune o => by simp [ScopeStack.pushedScope]

/-- A match expression finishes the forms in its subject and its arms, and then itself. -/
theorem reports_matchExpr {subject : Expr} {arms : List MatchArm} (returnAmount : Nat) (span : Span)
    (hint : Option Ty) (hsubject : Reports (single (expr subject none)) (subject.forms · ·))
    (harms : ∀ ty, Reports (matchArms arms ty) (MatchArm.allForms · · arms)) :
    Reports (expr (.matching subject arms returnAmount span) hint) fun prune p =>
      subject.forms prune p ++ MatchArm.allForms prune { p with yields := true } arms ++
        [.matching { p with yields := true } arms span] := by
  have hscope (ty : Ty) : Reports (inScope (·.push (.matchExpr {}) { yields := true })
      (matchArms arms ty)) fun prune p => MatchArm.allForms prune { p with yields := true } arms :=
    (harms ty).inScope (·.pushedScope (.matchExpr {}) { yields := true })
      (fun stack => stack.push_opens (.matchExpr {}) { yields := true }) (fun _ _ => trivial)
      fun prune o => by
        rw [ScopeStack.pushedScope, Permissions.union_yields]
        rfl
  intro c s o hl _
  let form : Form := .matching { o.current.permits.exits with yields := true } arms span
  have hend : Reports (missingYield (o.current.permits.union { yields := true }) arms span)
      fun _ _ => [form] := by
    have hleave : Stmt.armsLeave (o.current.permits.union { yields := true }) arms =
        Stmt.armsLeave { o.current.permits.exits with yields := true } arms := by
      rw [Permissions.union_yields]
      exact (Stmt.armsLeave_self { o.current.permits with yields := true } false arms).symm
    unfold missingYield
    rw [hleave]
    exact reports_form form
  have hall := hsubject.bind fun r => (hscope r.2.ty).bind fun closed =>
    ReportsIn.guard (b := (!closed.1.2.hasDefault) = true)
      (quiet_report .defaultCaseMissing span rfl) fun _ =>
      ReportsIn.guard (b := (closed.1.2.cases == 0) = true)
        (quiet_report .insufficientCases span rfl) fun _ => hend.bind_pure
          (g := fun _ => (Expr.matching r.1 closed.1.1 (yielded closed.2).1 span,
            (yielded closed.2).2))
  obtain ⟨out, s', hrun, hfinishes⟩ := hall c s o hl trivial
  refine ⟨out, s', (matchExpr_eq hl subject arms returnAmount span hint).trans hrun, ?_⟩
  dsimp only
  rw [List.append_assoc]
  exact hfinishes

/-! ## Around the recursion -/

theorem Reports.single {m : Check (Expr × Value)} {F : Bool → Permissions → List Form}
    (h : Reports m F) : Reports (Check.single m) F :=
  h.bind_quiet fun _ => (quiet_expectSingle _ _).bind fun _ => .pure _

/-- A method call whose owner is not declared ends the build. -/
theorem runs_calledMethod {o : ScopeStack} (hl : Live c s o) (owner : DeclRef) (kind : NamedKind)
    (method : Ident) : Runs (calledMethod owner kind method) c s fun found t =>
      (Steps c .visiting s t ∧ Live c t o) ∧ (found = .ownerless → t.fatal ≠ none) := by
  have hquiet : Quiet .visiting (calledMethod owner kind method) := quiet_calledMethod _ _ _
  obtain ⟨found, t, hrun, hkept⟩ := hquiet c s o hl
  refine ⟨found, t, hrun, hkept, ?_⟩
  rintro rfl
  obtain ⟨members, u, hmembers, hrest⟩ := bind_eq_ok hrun
  cases members with
  | none =>
    obtain ⟨⟨⟩, v, hfail, hpure⟩ := bind_eq_ok hrest
    cases hfail
    cases hpure
    simp
  | some members =>
    cases hmethod : members.method? method.name with
    | some found =>
      simp only [hmethod] at hrest
      cases hrest
    | none =>
      simp only [hmethod] at hrest
      obtain ⟨⟨⟩, v, hreport, hpure⟩ := bind_eq_ok hrest
      cases hpure

/-- Below the root a function is bound with the signature that is written. -/
theorem runs_functionSignature {o : ScopeStack} (hl : Live c s o) (hbelow : o.isRoot = false)
    (name : Ident) (generics : List Ident) (params : List Param) (returns : List TypeExpr)
    (isPub : Bool) (span : Span) :
    Runs (functionSignature name generics params returns isPub span) c s fun signature t =>
      (Steps c .visiting s t ∧ Live c t o) ∧ signature.returns.length = returns.length := by
  have hquiet : Quiet .visiting (functionSignature name generics params returns isPub span) :=
    quiet_functionSignature _ _ _ _ _ _
  obtain ⟨signature, t, hrun, hkept⟩ := hquiet c s o hl
  refine ⟨signature, t, hrun, hkept, ?_⟩
  obtain ⟨stack, u, hscopes, hrest⟩ := bind_eq_ok hrun
  obtain ⟨-, ho, -⟩ := (runs_scopes hl).apply hscopes
  have hroot : stack.isRoot = false := by rw [← stack.outline_isRoot, ho, hbelow]
  simp only [hroot, Bool.false_eq_true, if_false] at hrest
  have hgives (b : Bool) : Gives (do
      if b then report .publicDeclarationInLocalScope span
      let signature ← resolveSignature generics params returns
      declare { name := name.name, value := .function signature, span := name.span, isConst := true }
        "function"
      return signature) fun signature => signature.returns.length = returns.length := by
    have hresolved := gives_resolveSignature generics params returns
    have hbound : Gives (do
        let signature ← resolveSignature generics params returns
        declare { name := name.name, value := .function signature, span := name.span,
                  isConst := true } "function"
        return signature) fun signature => signature.returns.length = returns.length :=
      .bind_of hresolved fun _ h => .bind fun _ => .pure h
    dsimp only
    split
    · exact .bind fun _ => hbound
    · exact hbound
  exact hgives isPub c u signature t hrest

/-- Whether a declaration stands at the root. -/
theorem runs_atRoot {o : ScopeStack} (phase : Phase) (hl : Live c s o) (what : String)
    (span : Span) :
    Runs (atRoot what span) c s fun isRoot t =>
      (Steps c phase s t ∧ Live c t o) ∧ isRoot = o.isRoot := by
  have hquiet : Quiet phase (atRoot what span) := quiet_atRoot _ _
  obtain ⟨isRoot, t, hrun, hkept⟩ := hquiet c s o hl
  refine ⟨isRoot, t, hrun, hkept, ?_⟩
  obtain ⟨stack, u, hscopes, hrest⟩ := bind_eq_ok hrun
  obtain ⟨-, ho, -⟩ := (runs_scopes hl).apply hscopes
  rw [← ho, stack.outline_isRoot]
  cases hroot : stack.isRoot with
  | true =>
    simp only [hroot, if_true] at hrest
    cases hrest
    rfl
  | false =>
    simp only [hroot, Bool.false_eq_true, if_false] at hrest
    obtain ⟨⟨⟩, v, hreport, hpure⟩ := bind_eq_ok hrest
    cases hpure
    rfl

theorem quiet_exitAllowed {phase : Phase} (asked : Permissions) (statement : String) (span : Span) :
    Quiet phase (exitAllowed asked statement span) :=
  fun _ _ _ hl => (runs_exitAllowed phase hl asked statement span).mono fun _ _ ht => ht.2

/-- Without an `else` arm, a path goes past the arms of a match statement. -/
theorem reports_armsPast {arms : List MatchArm} {ty : Ty} {F : Bool → Permissions → List Form}
    (harms : Reports (matchArms arms ty) F) : Reports (do
      let r ← matchArms arms ty
      if !r.2.hasDefault then modifyScopes (·.reportExits .empty)
      pure r) F := by
  refine (harms.bind (G := fun _ _ => []) fun r => ?_).congr fun _ _ => List.append_nil _
  dsimp only
  split
  · exact reports_past.bind_pure
  · exact (Quiet.pure _).reports

/-! ## Expressions -/

/-- The forms of expressions that are walked one after another. -/
def formWeights : Weighing (Bool → Permissions → List Form) where
  expr e := (e.forms · ·)
  join F G prune p := F prune p ++ G prune p
  nothing _ _ := []

theorem forms_list (es : List Expr) : (Expr.allForms · · es) = formWeights.all es :=
  formWeights.eq_all (fun es => (Expr.allForms · · es)) rfl (fun _ _ => rfl) es

theorem forms_of_children (e : Expr) (h : e.isOrdinary = true) :
    formWeights.expr e = formWeights.all e.children := by
  have hentries := formWeights.eq_all_values (fun es => (MapEntry.allForms · · es)) rfl
    fun _ _ _ => rfl
  cases e with
  | function | matching | entityTest => cases h
  | list | new | spawn => exact forms_list _
  | map => exact hentries _
  | call caller _ args | methodCall caller _ _ _ _ args =>
    exact congrArg (formWeights.join (caller.forms · ·)) (forms_list args)
  | binary left _ right | member left right =>
    exact funext fun prune => funext fun p =>
      congrArg (left.forms prune p ++ ·) (List.append_nil _).symm
  | unary | group | field => exact funext fun _ => funext fun _ => (List.append_nil _).symm
  | _ => rfl

/-- A method call without an owner ends the build, and then the forms do not matter. -/
theorem reports_calledMethod {f : CalledMethod → Check β} {F : Bool → Permissions → List Form}
    (owner : DeclRef) (kind : NamedKind) (method : Ident)
    (hfound : ∀ signature, Reports (f (.found signature)) F) (hmissing : Reports (f .missing) F)
    (hownerless : Quiet .visiting (f .ownerless)) :
    Reports (calledMethod owner kind method >>= f) F := by
  intro c s o hl _
  refine Runs.finishes_bind hl (runs_calledMethod hl _ _ _) fun found t hfound' hconfig hl' => ?_
  rw [← hconfig]
  cases found with
  | found signature => exact hfound signature c t o hl' trivial
  | missing => exact hmissing c t o hl' trivial
  | ownerless =>
    refine (hownerless c t o hl').mono fun _ u hu => ?_
    refine ⟨hu.1.checking, ⟨o, .refl o, hu.2⟩, fun hfatal => ?_⟩
    exact absurd hfatal (Steps.fatal_ne hu.1 (hfound' rfl))

theorem weighs_reports : Weighs formWeights fun m F => Reports m F where
  own h := (h .visiting).reports
  bind h hf := h.bind hf
  method owner kind method hfound hmissing hownerless :=
    reports_calledMethod owner kind method hfound hmissing (hownerless .visiting)
  join_nothing F := funext fun prune => funext fun p => List.append_nil (F prune p)
  nothing_join F := funext fun prune => funext fun p => List.nil_append (F prune p)
  ordinary := forms_of_children
  or _ hleft hright :=
    quiet_get.reports_bind fun _ => (hleft none).single.bind fun _ =>
      (hright _).single.bind_quiet fun _ => .guard (quiet_dropUnderOr _ _) fun _ =>
        (quiet_binaryValue _ _ _ _).bind fun _ => .pure _
  test _ hvalue :=
    (hvalue none).single.bind_quiet fun _ => (quiet_checkType _ _ _ _).bind fun _ =>
      (quiet_entityTest _ _ _ _).bind fun _ => .pure _

section Lists

variable {es : List Expr} (hes : ∀ e ∈ es, ∀ hint, Reports (expr e hint) (e.forms · ·))
include hes

theorem reports_values (hints : List Ty) : Reports (values es hints) (Expr.allForms · · es) :=
  forms_list es ▸ weighs_reports.of_values hes hints

theorem reports_unchecked : Reports (unchecked es) (Expr.allForms · · es) :=
  forms_list es ▸ weighs_reports.of_unchecked hes

theorem reports_patterns (subject : Ty) : Reports (patterns es subject) (Expr.allForms · · es) :=
  forms_list es ▸ weighs_reports.of_patterns hes subject

end Lists

/-- A call finishes the forms in its arguments. -/
theorem reports_call {walkArgs : List Ty → Check (List Expr × List (Value × Span))}
    {F : Bool → Permissions → List Form} (signature : Signature) (explicit : List TypeExpr)
    (span : Span) (h : ∀ hints, Reports (walkArgs hints) F) :
    Reports (call signature explicit walkArgs span) F :=
  weighs_reports.call signature explicit span h

/-! ## Lists of nodes -/

section Nodes

variable {es : List Expr} {stmts : List Stmt}

theorem reports_places_of (hes : ∀ e ∈ es, ∀ hint, Reports (expr e hint) (e.forms · ·)) :
    Reports (places es) (Expr.allForms · · es) := by
  induction es with
  | nil => exact (Quiet.pure _).reports
  | cons e rest ih =>
    rw [List.forall_mem_cons] at hes
    exact (quiet_assignLocal _).reports_bind fun _ => (hes.1 none).single.bind fun _ =>
      (quiet_finishPlace _ _ _).reports_bind fun _ => (ih hes.2).bind_pure

theorem reports_repeatPart_of {part : Option Expr}
    (hes : ∀ e ∈ part.toList, ∀ hint, Reports (expr e hint) (e.forms · ·)) (ty : Ty) (span : Span) :
    Reports (repeatPart part ty span) (Expr.optionForms · · part) := by
  cases part with
  | none => exact (Quiet.pure _).reports
  | some e =>
    have he := hes e (List.mem_singleton_self e) (some ty)
    exact he.single.bind_quiet fun _ => (quiet_checkType _ _ _ _).bind fun _ => .pure _

theorem reports_matchArms_of {arms : List MatchArm}
    (hes : ∀ e ∈ arms.flatMap (·.patterns), ∀ hint, Reports (expr e hint) (e.forms · ·))
    (hstmts : ∀ st ∈ arms.flatMap (·.body), ReportsIn Below (stmt st) (st.forms · ·))
    (subject : Ty) : Reports (matchArms arms subject) (MatchArm.allForms · · arms) := by
  induction arms with
  | nil => exact (Quiet.pure _).reports
  | cons arm rest ih =>
    obtain ⟨pats, isDefault, stmts, span⟩ := arm
    rw [List.flatMap_cons, List.forall_mem_append] at hes hstmts
    have hpats := reports_patterns hes.1 subject
    have harm := reports_inBranch (reports_body hstmts.1)
    have hrest := ih hes.2 hstmts.2
    unfold matchArms
    dsimp only
    cases isDefault with
    | true =>
      refine .guard (quiet_report _ _ rfl) fun _ => (Quiet.pure _).reports_bind fun _ => ?_
      exact harm.bind fun _ => hrest.bind_pure
    | false =>
      refine (hpats.bind fun pats => quiet_clearNarrowings.reports_bind fun _ =>
        (Quiet.pure _).reports_bind fun _ => harm.bind fun _ => hrest.bind_pure).congr
          fun prune p => ?_
      simp [MatchArm.allForms]

theorem reports_elseIfs_of {branches : List ElseIf}
    (hes : ∀ e ∈ branches.map (·.condition), ∀ hint, Reports (expr e hint) (e.forms · ·))
    (hstmts : ∀ st ∈ branches.flatMap (·.body), ReportsIn Below (stmt st) (st.forms · ·)) :
    Reports (elseIfs branches) (ElseIf.allForms · · branches) := by
  induction branches with
  | nil => exact (Quiet.pure _).reports
  | cons branch rest ih =>
    obtain ⟨condition, stmts, span⟩ := branch
    rw [List.map_cons, List.forall_mem_cons] at hes
    rw [List.flatMap_cons, List.forall_mem_append] at hstmts
    have hbody := reports_body hstmts.1
    have hrest := ih hes.2 hstmts.2
    have hbranch (narrowings : List Narrowing) := reports_inBranch
      ((quiet_declareNarrowings narrowings false).reports_bind fun _ => hbody)
    refine ((hes.1 none).single.bind fun _ => (quiet_conditionNarrowings _ _).reports_bind
      fun narrowings => (hbranch narrowings).bind fun _ => hrest.bind_pure).congr fun prune p => ?_
    simp [ElseIf.allForms]

theorem reports_elseBody_of {otherwise : Option (List Stmt)}
    (hstmts : ∀ st ∈ otherwise.getD [], ReportsIn Below (stmt st) (st.forms · ·))
    (narrowings : List Narrowing) :
    Reports (elseBody otherwise narrowings) (Stmt.elseForms · · otherwise) := by
  cases otherwise with
  | none => exact reports_past.bind_pure
  | some stmts =>
    exact (reports_inBranch ((quiet_declareNarrowings narrowings true).reports_bind
      fun _ => reports_body hstmts)).bind_pure

end Nodes

/-! ## Nodes -/

theorem reports_expr_of {e : Expr}
    (hes : ∀ child ∈ e.children, ∀ hint, Reports (expr child hint) (child.forms · ·))
    (hpatterns : ∀ pattern ∈ e.patterns, ∀ hint, Reports (expr pattern hint) (pattern.forms · ·))
    (hstmts : ∀ st ∈ e.statements, ReportsIn Below (stmt st) (st.forms · ·)) (hint : Option Ty) :
    Reports (expr e hint) (e.forms · ·) := by
  refine weighs_reports.of_children hes hint fun hbody => ?_
  cases e with
  | function params returns stmts span =>
    exact (quiet_resolveSignature _ _ _).reports_bind_of (gives_resolveSignature _ _ _)
      fun _ hreturns => (reports_inFunction hreturns params span (reports_body hstmts)).bind_pure
  | matching subject arms returnAmount span =>
    have hsubject := (hes subject (List.mem_singleton_self _) none).single
    exact reports_matchExpr returnAmount span hint hsubject (reports_matchArms_of hpatterns hstmts)
  | _ => cases hbody

theorem reports_stmt_of {st : Stmt}
    (hes : ∀ e ∈ st.expressions, ∀ hint, Reports (expr e hint) (e.forms · ·))
    (hstmts : ∀ inner ∈ st.statements, ReportsIn Below (stmt inner) (inner.forms · ·)) :
    ReportsIn (Unregistered st) (stmt st) (st.forms · ·) := by
  cases st with
  | env decl => exact Quiet.reports (.bind (quiet_report _ _ rfl) fun _ => .pure _)
  | «variable» decl =>
    obtain ⟨names, ty, exprs, isPub, isConst, span⟩ := decl
    have hvalues (hints : List Ty) := reports_values hes hints
    unfold stmt
    refine ReportsIn.within (.guard_scopes (quiet_report _ _ rfl) ?_)
    refine .guard (quiet_report _ _ rfl) fun _ => (quiet_resolveType? _).reports_bind
      fun declared => ?_
    dsimp only
    split
    · next hnone =>
      obtain rfl : exprs = [] := by simpa using hnone
      exact ((quiet_defaultValues _).bind fun _ => (quiet_declareNames _ _ _ _).bind fun _ =>
        .pure _).reports
    · exact (hvalues _).bind_quiet fun _ => (quiet_checkValueCount _ _ _ _).bind fun _ =>
        (Quiet.pure _).bind fun _ => (quiet_declareNames _ _ _ _).bind fun _ => .pure _
  | function decl =>
    obtain ⟨name, generics, params, returns, stmts, isPub, span⟩ := decl
    have hbody := reports_body hstmts
    intro c s o hl hbelow
    refine Runs.finishes_bind hl (runs_functionSignature hl (hbelow rfl) _ _ _ _ _ _)
      fun signature t hreturns hconfig hl' => ?_
    rw [← hconfig]
    exact (reports_inFunction hreturns params span hbody).bind_pure c t o hl' trivial
  | classDecl decl =>
    obtain ⟨name, isPub, fields, methods, constructor, span⟩ := decl
    intro c s o hl hbelow
    refine Runs.finishes_bind hl (runs_atRoot .visiting hl _ _) fun isRoot t hroot hconfig hl' => ?_
    obtain rfl : isRoot = false := hroot.trans (hbelow rfl)
    exact .pure (.of_steps .refl (.refl o) hl')
  | entityDecl decl =>
    obtain ⟨name, isPub, fields, methods, functions, span⟩ := decl
    intro c s o hl hbelow
    refine Runs.finishes_bind hl (runs_atRoot .visiting hl _ _) fun isRoot t hroot hconfig hl' => ?_
    obtain rfl : isRoot = false := hroot.trans (hbelow rfl)
    exact .pure (.of_steps .refl (.refl o) hl')
  | enumDecl decl => exact ((quiet_atRoot _ _).bind fun _ => .pure _).reports
  | aliasDecl decl => exact ((quiet_atRoot _ _).bind fun _ => .pure _).reports
  | assign targets op exprs span =>
    obtain ⟨htargets, hexprs⟩ := List.forall_mem_append.1 hes
    exact ReportsIn.within ((reports_places_of htargets).bind fun _ =>
      (reports_values hexprs _).bind_quiet fun _ => (quiet_checkValueCount _ _ _ _).bind fun _ =>
        (quiet_checkAssigned _ _ _).bind fun _ => .pure _)
  | ifChain condition stmts elseifs otherwise span =>
    obtain ⟨hcondition, hconditions⟩ := List.forall_mem_cons.1 hes
    obtain ⟨hthen, hstmts⟩ := List.forall_mem_append.1 hstmts
    obtain ⟨hbodies, helse⟩ := List.forall_mem_append.1 hstmts
    have helseifs := reports_elseIfs_of hconditions hbodies
    have hotherwise (narrowings : List Narrowing) := reports_elseBody_of helse narrowings
    have hfirst (narrowings : List Narrowing) := reports_inBranch
      ((quiet_declareNarrowings narrowings false).reports_bind fun _ => reports_body hthen)
    have hchain (narrowings : List Narrowing) := Reports.inChain ((hfirst narrowings).bind fun a =>
      helseifs.bind fun b => (hotherwise narrowings).bind_pure (g := fun d => (a.1, a.2, b, d)))
    refine ((hcondition none).single.bind fun _ => (quiet_conditionNarrowings _ _).reports_bind
      fun narrowings => (hchain narrowings).bind_quiet fun _ => ?_).within.congr fun prune p => ?_
    · exact .guard (quiet_declareNarrowings _ _) fun _ => .pure _
    · simp only [Stmt.forms, List.append_assoc]
  | repeatLoop iterator start skip counter stmts span =>
    obtain ⟨hiterator, hparts⟩ := List.forall_mem_cons.1 hes
    obtain ⟨hstart, hskip⟩ := List.forall_mem_append.1 hparts
    have hloop (bindings : List (Ident × Value)) :=
      reports_inLoop .ofLoop bindings (reports_body hstmts)
    refine ((hiterator none).single.bind fun _ => (quiet_repeatType _ _).reports_bind fun _ =>
      (reports_repeatPart_of hstart _ _).bind fun _ => (reports_repeatPart_of hskip _ _).bind
        fun _ => (hloop _).bind_pure).within.congr fun prune p => ?_
    simp only [Stmt.forms, List.append_assoc]
    rfl
  | whileLoop condition stmts span =>
    have hcondition := hes condition (List.mem_singleton_self _) none
    have hloop (narrowings : List Narrowing) := reports_inLoop .ofLoop []
      ((quiet_declareNarrowings narrowings false).reports_bind fun _ => reports_body hstmts)
    exact (hcondition.single.bind fun _ => (quiet_conditionNarrowings _ _).reports_bind
      fun narrowings => (hloop narrowings).bind_pure).within
  | forLoop key value iterator stmts span =>
    have hiterator := hes iterator (List.mem_singleton_self _) none
    have hloop (bindings : List (Ident × Value)) :=
      reports_inLoop .ofLoop bindings (reports_body hstmts)
    exact (hiterator.single.bind fun _ => (quiet_iterated _ _).reports_bind fun _ =>
      (quiet_forKey _ _).reports_bind fun _ => (hloop _).bind_pure).within
  | tick counter stmts span =>
    have hloop := reports_inLoop .empty (counter.toList.map (·, .number none)) (reports_body hstmts)
    refine hloop.bind_pure.within.congr fun prune p => ?_
    exact congrArg (Stmt.bodyForms prune · stmts) p.union_empty
  | matching subject arms span =>
    obtain ⟨hsubject, hpatterns⟩ := List.forall_mem_cons.1 hes
    have hscope (ty : Ty) :=
      Reports.inChain (reports_armsPast (reports_matchArms_of hpatterns hstmts ty))
    exact ((hsubject none).single.bind fun _ => (hscope _).bind_quiet fun _ =>
      .guard (quiet_report _ _ rfl) fun _ => .pure _).within
  | returning exprs span =>
    have hvalues (hints : List Ty) := reports_values hes hints
    refine ((quiet_exitAllowed _ _ _).reports_bind fun accepted => ?_).within
    split
    · exact quiet_returnTypes.reports_bind fun _ => ((hvalues _).bind fun _ =>
        (exiting_checkReturn _ _ _).reports.bind_pure).congr fun _ _ => List.append_nil _
    · exact (hvalues _).bind_pure
  | yielding exprs span =>
    have hvalues (hints : List Ty) := reports_values hes hints
    refine ((quiet_exitAllowed _ _ _).reports_bind fun accepted => ?_).within
    split
    · exact quiet_yieldTarget.reports_bind fun _ => ((hvalues _).bind fun _ =>
        (exiting_checkYield _ _ _ _).reports.bind_pure).congr fun _ _ => List.append_nil _
    · exact (hvalues _).bind_pure
  | breaking span =>
    refine ((quiet_exitAllowed _ _ _).reports_bind fun accepted => ?_).within
    split
    · exact (exiting_markExit .ofBreak).reports.bind_pure
    · exact (Quiet.pure _).reports
  | continuing span =>
    refine ((quiet_exitAllowed _ _ _).reports_bind fun accepted => ?_).within
    split
    · exact (exiting_markExit .ofContinue).reports.bind_pure
    · exact (Quiet.pure _).reports
  | destroy target generics args span =>
    obtain ⟨htarget, hargs⟩ := List.forall_mem_cons.1 hes
    refine ((htarget none).single.bind fun _ => (quiet_destroyer? _ _).reports_bind
      fun found => ?_).within
    split
    · exact (reports_call _ _ _ (reports_values hargs)).bind_pure
    · exact (reports_unchecked hargs).bind_pure
  | use decl =>
    refine Quiet.reports (quiet_scopes.bind fun stack => ?_)
    exact .guard (quiet_useEnvironment _) fun _ => .pure _
  | expr e => exact (hes e (List.mem_singleton_self _) none).bind_pure.within
  | error span => exact (Quiet.pure _).reports

/-! ## Trees -/

/-- Below the root, every statement finishes the forms in it. -/
theorem reports_tree : (∀ e hint, Reports (expr e hint) (e.forms · ·)) ∧
    ∀ st, ReportsIn Below (stmt st) (st.forms · ·) :=
  Tree.induction (fun _ hes hpatterns hstmts => reports_expr_of hes hpatterns hstmts)
    fun _ hes hstmts => (reports_stmt_of hes hstmts).weaken fun _ _ hbelow _ => hbelow

theorem reports_expr (e : Expr) (hint : Option Ty) : Reports (expr e hint) (e.forms · ·) :=
  reports_tree.1 e hint

theorem reports_exprs (es : List Expr) :
    ∀ e ∈ es, ∀ hint, Reports (expr e hint) (e.forms · ·) :=
  fun e _ => reports_expr e

theorem reports_stmts (stmts : List Stmt) :
    ∀ st ∈ stmts, ReportsIn Below (stmt st) (st.forms · ·) :=
  fun st _ => reports_tree.2 st

theorem reports_stmt (st : Stmt) : ReportsIn (Unregistered st) (stmt st) (st.forms · ·) :=
  reports_stmt_of (reports_exprs _) (reports_stmts _)

theorem reports_elseIfs (branches : List ElseIf) :
    Reports (elseIfs branches) (ElseIf.allForms · · branches) :=
  reports_elseIfs_of (reports_exprs _) (reports_stmts _)

end Check

end HybroidSema
