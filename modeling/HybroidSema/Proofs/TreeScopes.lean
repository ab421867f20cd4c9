import HybroidSema.Proofs.Leaves
import HybroidSema.Proofs.Subexpressions

/-!
# What checking a tree does to the scopes

An expression is quiet, however many function bodies and match arms it contains. A statement adds
exits to its scope, and they reflect whether the statement leaves as the tree tells.

* `Check.Leaves` and `Check.Branches`: what a statement does to its scope, and what alternative
  branches do to the scope that collects them.
* `quiet_inFunction`, `quiet_inLoop` and `runs_inBranch`: the places that have bodies.
* `quiet_expr_of` and `leaves_stmt_of`: what a node does, by what is right inside it.
* `quiet_expr`, `leaves_stmt` and `leaves_body`, with the other functions of the recursion: by
  induction on the tree.
-/

namespace HybroidSema

namespace ScopeStack

/-- The stack after several branches were closed on top of it. -/
def reportAll (s : ScopeStack) (branches : List Exits) : ScopeStack :=
  branches.foldl reportExits s

@[simp] theorem permits_reportAll (s : ScopeStack) (xs : List Exits) :
    (s.reportAll xs).current.permits = s.current.permits := by
  induction xs generalizing s with
  | nil => rfl
  | cons x xs ih =>
    rw [reportAll, List.foldl_cons, ← reportAll, ih, reportExits, current_modifyCurrent,
      Scope.permits_receive]

/-- The branches of a chain are collected in its scope. -/
theorem cons_multiPath_reportAll (s : ScopeStack) (m : MultiPath) (p : Permissions)
    (q : Option Nat) (xs : List Exits) :
    (s.cons { tag := .multiPath m, permits := p, parent := q }).reportAll xs =
      s.cons { tag := .multiPath (m.reportAll xs), permits := p, parent := q } := by
  induction xs generalizing m with
  | nil => rfl
  | cons x xs ih => exact ih (m.report x)

/-- The arms of a match expression are collected in its scope. -/
theorem cons_matchExpr_reportAll (s : ScopeStack) (m : MultiPath) (p : Permissions)
    (q : Option Nat) (xs : List Exits) :
    (s.cons { tag := .matchExpr { paths := m }, permits := p, parent := q }).reportAll xs =
      s.cons { tag := .matchExpr { paths := m.reportAll xs }, permits := p, parent := q } := by
  induction xs generalizing m with
  | nil => rfl
  | cons x xs ih => exact ih (m.report x)

end ScopeStack

namespace Check

variable {α β : Type} {phase : Phase} {m : Check α} {c : Context} {s s' : State}

/-! ## Statements and branches -/

/-- A check in sequence with others. It adds exits to its scope, and they reflect whether it
leaves. After a part that leaves, the check may only go on if nothing is pruned. -/
def Leaves (phase : Phase) (m : Check α) (l : Permissions → Bool) : Prop :=
  ∀ c s o, Live c s o → o.current.tag.IsSequential →
    o.current.exits.always = false ∨ s.session.config.prune = false →
    Runs m c s fun _ s' => Steps c phase s s' ∧
      ∃ x : Exits, x.Reflects o.current.permits (l o.current.permits) ∧ Live c s' (o.addExits x)

/-- A check of alternative branches. Each reports its exits to the scope of the check, and they
reflect whether the branch leaves. -/
def Branches (phase : Phase) (m : Check α) (ls : Permissions → List Bool) (R : α → Prop) : Prop :=
  ∀ c s o, Live c s o → Runs m c s fun a s' => R a ∧ Steps c phase s s' ∧
    ∃ xs, List.Forall₂ (Exits.Reflects o.current.permits) (ls o.current.permits) xs ∧
      Live c s' (o.reportAll xs)

section Rules

variable {f : α → Check β} {l : Permissions → Bool} {ls ls' : Permissions → List Bool}
  {R : α → Prop} {R' : β → Prop}

/-- A quiet check does not leave. -/
theorem Quiet.leaves (h : Quiet phase m) : Leaves phase m fun _ => false :=
  fun c s o hl _ _ => (h c s o hl).mono fun _ _ ⟨hs, hl'⟩ => ⟨hs, {}, .none, by simpa using hl'⟩

theorem Quiet.leaves_bind (hm : Quiet phase m) (hf : ∀ a, Leaves phase (f a) l) :
    Leaves phase (m >>= f) l := by
  intro c s o h hseq hfresh
  refine (hm c s o h).bind fun a t ⟨ht, hl⟩ => ?_
  rw [← (Steps.frames h ht).1.config] at hfresh
  exact (hf a c t o hl hseq hfresh).mono fun _ u ⟨hu, hx⟩ => ⟨ht.trans hu, hx⟩

theorem Leaves.bind_quiet (hm : Leaves phase m l) (hf : ∀ a, Quiet phase (f a)) :
    Leaves phase (m >>= f) l := by
  intro c s o h hseq hfresh
  refine (hm c s o h hseq hfresh).bind fun a t ⟨ht, x, hx, hl⟩ => ?_
  exact (hf a c t _ hl).mono fun _ u ⟨hu, hl'⟩ => ⟨ht.trans hu, x, hx, hl'⟩

theorem Leaves.congr {l' : Permissions → Bool} (h : Leaves phase m l) (heq : ∀ p, l p = l' p) :
    Leaves phase m l' := by
  rwa [← funext heq]

/-- A check that goes on from what it looked up under a condition. -/
theorem Leaves.lookup {γ : Type} {m : Check (Option γ)} {f : Option γ → Check β} {b : Prop}
    [Decidable b] (hm : Quiet phase m) (hf : ∀ found, Leaves phase (f found) l) :
    Leaves phase (if b then m >>= f else pure none >>= f) l := by
  split
  · exact hm.leaves_bind hf
  · exact (Quiet.pure none).leaves_bind hf

/-- A check that is made under a condition after the scopes were read, before the rest. -/
theorem Quiet.guard_scopes {m : Check PUnit} {rest : Check β} {b : Prop} [Decidable b]
    {b' : ScopeStack → Prop} [∀ stack, Decidable (b' stack)] (hm : Quiet .checking m)
    (hrest : Quiet .checking rest) :
    Quiet .checking (if b then scopes >>= fun stack => if b' stack then m >>= fun _ => rest
      else rest else rest) := by
  split
  · exact quiet_scopes.bind fun _ => .guard hm fun _ => hrest
  · exact hrest

/-- A quiet check is no branch. -/
theorem Quiet.branches (h : Quiet phase m) : Branches phase m (fun _ => []) fun _ => True :=
  fun c s o hl => (h c s o hl).mono fun _ _ ⟨hs, hl'⟩ => ⟨trivial, hs, [], .nil, hl'⟩

theorem Branches.bind (hm : Branches phase m ls R) (hf : ∀ a, R a → Branches phase (f a) ls' R') :
    Branches phase (m >>= f) (fun p => ls p ++ ls' p) R' := by
  intro c s o h
  refine (hm c s o h).bind fun a t ⟨ha, ht, xs, hxs, hl⟩ => ?_
  refine (hf a ha c t _ hl).mono fun b u ⟨hb, hu, ys, hys, hl'⟩ => ?_
  rw [ScopeStack.permits_reportAll] at hys
  refine ⟨hb, ht.trans hu, xs ++ ys, List.rel_append hxs hys, ?_⟩
  simpa [ScopeStack.reportAll] using hl'

theorem Quiet.branches_bind (hm : Quiet phase m) (hf : ∀ a, Branches phase (f a) ls R') :
    Branches phase (m >>= f) ls R' :=
  hm.branches.bind fun a _ => hf a

theorem Branches.guard {f : PUnit → Check β} {m : Check PUnit} {b : Prop} [Decidable b]
    (hm : Quiet phase m) (hf : ∀ u, Branches phase (f u) ls R') :
    Branches phase (if b then m >>= f else f ⟨⟩) ls R' := by
  split
  · exact hm.branches_bind hf
  · exact hf _

theorem Branches.bind_pure {g : α → β} (hm : Branches phase m ls R) (hg : ∀ a, R a → R' (g a)) :
    Branches phase (m >>= fun a => pure (g a)) ls R' := by
  intro c s o h
  refine (hm c s o h).bind fun a t ⟨ha, ht, hx⟩ => ?_
  exact .pure ⟨hg a ha, ht, hx⟩

end Rules

/-! ## Exit statements -/

theorem runs_exitAllowed {o : ScopeStack} (phase : Phase) (h : Live c s o) (asked : Permissions)
    (statement : String) (span : Span) :
    Runs (exitAllowed asked statement span) c s fun accepted s' =>
      accepted = o.current.permits.contains asked ∧ Steps c phase s s' ∧ Live c s' o := by
  refine (runs_scopes h).bind fun stack t ⟨ht, ho, _⟩ => ?_
  subst ht
  have hasked : stack.allows asked = o.current.permits.contains asked := by
    rw [← ho, ScopeStack.outline_current, Scope.outline_permits]
    rfl
  rw [← hasked]
  split
  · next hok => exact .pure ⟨hok.symm, .refl, h⟩
  · next hno =>
    refine (quiet_report _ _ rfl c _ o h).bind fun _ u ⟨hu, hl⟩ => .pure ⟨?_, hu, hl⟩
    simpa using hno

/-- A check that ends with an exit of a kind. -/
def Exiting (phase : Phase) (kind : Exits) (m : Check α) : Prop :=
  ∀ c s o, Live c s o → Runs m c s fun _ s' => Steps c phase s s' ∧
    Live c s' (o.addExits (.leaving kind))

theorem exiting_markExit [phase.Opens] (kind : Exits) : Exiting phase kind (markExit kind) := by
  intro c s o h
  refine (runs_modifyScopes phase h fun env _ ho => ⟨?_, ?_⟩).mono fun _ _ ⟨hs, hl, _⟩ => ⟨hs, hl⟩
  · rw [ScopeStack.outline_markExit, ho, ScopeStack.markExit_eq_addExits]
  · exact .of_bindings_eq phase (env.scopes.rootBindings_modifyCurrent fun _ => rfl)

theorem Quiet.exiting_bind {kind : Exits} {f : α → Check β} (hm : Quiet phase m)
    (hf : ∀ a, Exiting phase kind (f a)) : Exiting phase kind (m >>= f) := by
  intro c s o h
  refine (hm c s o h).bind fun a t ⟨ht, hl⟩ => ?_
  exact (hf a c t o hl).mono fun _ u ⟨hu, hl'⟩ => ⟨ht.trans hu, hl'⟩

theorem Exiting.bind_pure {kind : Exits} {g : α → β} (hm : Exiting phase kind m) :
    Exiting phase kind (m >>= fun a => pure (g a)) := by
  intro c s o h
  exact (hm c s o h).bind fun a t ht => .pure ht

theorem exiting_checkReturn [phase.Opens] (expected : List Ty) (values : List (Value × Span)) (span : Span) :
    Exiting phase .ofReturn (checkReturn expected values span) := by
  refine (quiet_checkValueCount _ _ _ _).exiting_bind fun isRight => ?_
  split
  · exact (quiet_checkValueTypes _ _ _).exiting_bind fun _ => exiting_markExit _
  · exact exiting_markExit _

theorem quiet_returnTypes : Quiet phase returnTypes := quiet_scopes.bind fun _ => .pure _

theorem quiet_yieldTarget : Quiet phase yieldTarget := quiet_scopes.bind fun _ => .pure _

/-- The types of the first `yield` do not show in the outline. -/
theorem quiet_setYields [phase.Opens] (position : Nat) (types : List Ty) :
    Quiet phase (modifyScopes (·.modifyAt position (setYields types))) := by
  intro c s o h
  refine (runs_modifyScopes phase h fun env _ ho => ⟨?_, ?_⟩).mono fun _ _ ⟨hs, hl, _⟩ => ⟨hs, hl⟩
  · refine (env.scopes.outline_modifyAt position fun scope => ?_).trans ho
    unfold setYields
    split
    · next heq => simp [Scope.outline, ScopeTag.outline, heq]
    · rfl
  · refine .of_bindings_eq phase (env.scopes.rootBindings_modifyAt position fun scope => ?_)
    unfold setYields
    split <;> rfl

theorem exiting_checkYield [phase.Opens] (position : Option Nat) (known : Option (List Ty))
    (values : List (Value × Span)) (span : Span) :
    Exiting phase .ofYield (checkYield position known values span) := by
  unfold checkYield
  dsimp only
  split
  · refine (quiet_checkValueCount _ _ _ _).exiting_bind fun isRight => ?_
    split
    · exact (quiet_checkValueTypes _ _ _).exiting_bind fun _ => exiting_markExit _
    · exact exiting_markExit _
  · split
    · exact (quiet_setYields _ _).exiting_bind fun _ => exiting_markExit _
    · exact exiting_markExit _

/-- An exit statement leaves if it is accepted. -/
theorem leaves_exit {asked : Permissions} {statement : String} {span : Span} {kind : Exits}
    {accept reject : Check α} {l : Permissions → Bool}
    (hasked : ∀ p : Permissions, p.contains asked = l p)
    (hkind : ∀ p, l p = true → (Exits.leaving kind).Reflects p true)
    (haccept : Exiting phase kind accept) (hreject : Quiet phase reject) :
    Leaves phase (do if ← exitAllowed asked statement span then accept else reject) l := by
  intro c s o h _ _
  refine (runs_exitAllowed phase h asked statement span).bind fun accepted t ⟨ha, ht, hl⟩ => ?_
  rw [hasked] at ha
  cases accepted with
  | true =>
    refine (haccept c t o hl).mono fun _ u ⟨hu, hl'⟩ => ⟨ht.trans hu, _, ?_, hl'⟩
    exact ha ▸ hkind _ ha.symm
  | false =>
    refine (hreject c t o hl).mono fun _ u ⟨hu, hl'⟩ => ⟨ht.trans hu, {}, ?_, by simpa using hl'⟩
    exact ha ▸ .none

theorem contains_returns (p : Permissions) : p.contains { returns := true } = p.returns := by
  cases h : p.returns <;> simp [Permissions.contains, Permissions.inter, h]

theorem contains_yields (p : Permissions) : p.contains { yields := true } = p.yields := by
  cases h : p.yields <;> simp [Permissions.contains, Permissions.inter, h]

theorem contains_breaks (p : Permissions) : p.contains { breaks := true } = p.breaks := by
  cases h : p.breaks <;> simp [Permissions.contains, Permissions.inter, h]

theorem contains_continues (p : Permissions) : p.contains { continues := true } = p.continues := by
  cases h : p.continues <;> simp [Permissions.contains, Permissions.inter, h]

/-! ## Bodies -/

/-- A body in a scope that keeps its exits to itself: a function or a loop. -/
theorem Leaves.quiet_scoped [phase.Opens] {enter : ScopeStack → ScopeStack} {l : Permissions → Bool}
    (scope : ScopeStack → Scope)
    (henter : ∀ stack, (enter stack).outline = stack.outline.cons (scope stack.outline) ∧
      (enter stack).root.bindings = stack.root.bindings)
    (hseq : ∀ o, (scope o).tag.IsSequential) (hexits : ∀ o, (scope o).exits = {})
    (hkeeps : ∀ (o : ScopeStack) x, o.afterClosing { scope o with exits := x } = o)
    (hm : Leaves phase m l) : Quiet phase (inScope enter m) := by
  refine .scoped scope henter fun c s o h => ?_
  have hfresh : (o.cons (scope o)).current.exits.always = false := by
    rw [ScopeStack.current_cons, hexits]
  refine (hm c s _ h (hseq o) (.inl hfresh)).mono fun _ t ⟨ht, x, _, hl⟩ => ?_
  exact ⟨ht, _, hl, hkeeps o _⟩

theorem quiet_inFunction {l : Permissions → Bool} {m : Check (List Stmt)} (signature : Signature)
    (params : List Param) (span : Span) (hm : Leaves .checking m l) :
    Quiet .checking (inFunction signature params span m) := by
  refine Quiet.bind (Leaves.quiet_scoped (l := l) (·.funcScope _)
    (fun stack => stack.pushFunction_opens _) (fun _ => trivial) (fun _ => rfl)
    (fun _ _ => rfl) ?_) fun _ => .pure _
  refine (quiet_bindParams _ _).leaves_bind fun _ => hm.bind_quiet fun _ => ?_
  exact quiet_scopes.bind fun _ => .guard (quiet_report _ _ rfl) fun _ => .pure _

theorem quiet_inLoop {l : Permissions → Bool} (permits : Permissions)
    (bindings : List (Ident × Value)) (hm : Leaves .checking m l) :
    Quiet .checking (inLoop permits bindings m) := by
  refine Quiet.bind (Leaves.quiet_scoped (l := l) (·.pushedScope .loop permits)
    (fun stack => stack.push_opens .loop permits) (fun _ => trivial) (fun _ => rfl)
    (fun _ _ => rfl) ?_) fun _ => .pure _
  exact Quiet.leaves_bind (.forM _ fun _ => quiet_declare _ _) fun _ => hm

/-- A branch hands its exits to the scope around it. -/
theorem runs_inBranch [phase.Opens] {l : Permissions → Bool} {o : ScopeStack} (hm : Leaves phase m l)
    (h : Live c s o) : Runs (inBranch m) c s fun r s' => Steps c phase s s' ∧
      r.2.Reflects o.current.permits (l o.current.permits) ∧ Live c s' (o.reportExits r.2) := by
  have hopen (stack : ScopeStack) (ho : stack.outline = o) :
      (stack.push .plain .empty).outline = o.cons (o.pushedScope .plain .empty) ∧
        (stack.push .plain .empty).root.bindings = stack.root.bindings := ho ▸ stack.push_opens .plain .empty
  have hscope := runs_inScope phase (Q := fun (_ : α) top _ => top.tag = .plain ∧
      top.exits.Reflects o.current.permits (l o.current.permits)) h hopen fun s₁ _ hl =>
    (hm c s₁ _ hl trivial (.inl rfl)).mono fun _ s₂ ⟨hs, x, hx, hl'⟩ =>
      ⟨hs, _, hl', rfl, by simpa using hx⟩
  refine hscope.bind fun r t ⟨ht, closed, _, _, hr, hl, ⟨htag, hx⟩, _⟩ => .pure ?_
  have hexits : ((r.2.map (·.exits)).getD .empty) = closed.outline.exits := by rw [hr]; rfl
  have hclosing : o.afterClosing closed.outline = o.reportExits closed.outline.exits := by
    rw [ScopeStack.afterClosing, Scope.handedOn?, htag]
  exact ⟨ht, hexits ▸ hx, by rw [hexits, ← hclosing]; exact hl⟩

theorem branches_inBranch [phase.Opens] {l : Permissions → Bool} (hm : Leaves phase m l) :
    Branches phase (inBranch m) (fun p => [l p]) fun _ => True :=
  fun _ _ _ h => (runs_inBranch hm h).mono fun r _ ⟨hs, hx, hl⟩ =>
    ⟨trivial, hs, [r.2], .cons hx .nil, hl⟩

/-- A path that goes past all branches. -/
theorem branches_none [phase.Opens] :
    Branches phase (modifyScopes (·.reportExits .empty)) (fun _ => [false]) fun _ => True := by
  intro c s o h
  refine (runs_modifyScopes phase h fun env _ ho => ⟨?_, ?_⟩).mono fun _ _ ⟨hs, hl, _⟩ =>
    ⟨trivial, hs, [.empty], .cons .none .nil, hl⟩
  · rw [ScopeStack.outline_reportExits, ho]
    rfl
  · exact .of_bindings_eq phase (env.scopes.rootBindings_reportExits _)

/-- Alternative branches leave together if each of them leaves. -/
theorem Branches.leaves [phase.Opens] {ls : Permissions → List Bool} {R : α → Prop}
    (hm : Branches phase m ls R) :
    Leaves phase (inScope (·.push (.multiPath {}) .empty) m)
      fun p => !(ls p).isEmpty && (ls p).all id := by
  intro c s o h hseq _
  have hopen (stack : ScopeStack) (ho : stack.outline = o) :
      (stack.push (.multiPath {}) .empty).outline =
          o.cons
            { tag := .multiPath {}, permits := o.current.permits, parent := some o.currentPosition } ∧
        (stack.push (.multiPath {}) .empty).root.bindings = stack.root.bindings := by
    rw [← ScopeStack.pushedScope_empty]
    exact ho ▸ stack.push_opens (.multiPath {}) .empty
  have hscope := runs_inScope phase (Q := fun _ top _ =>
      ∃ xs, top.handedOn? = some (MultiPath.reportAll {} xs).finish ∧
        List.Forall₂ (Exits.Reflects o.current.permits) (ls o.current.permits) xs) h hopen
    fun s₁ _ hl => (hm c s₁ _ hl).mono fun a s₂ ⟨_, hs, xs, hxs, hl'⟩ => by
      rw [ScopeStack.cons_multiPath_reportAll] at hl'
      exact ⟨hs, _, hl', xs, rfl, hxs⟩
  refine hscope.mono fun r t ⟨ht, closed, _, _, _, hl, ⟨xs, hx, hxs⟩, _⟩ => ?_
  rw [ScopeStack.afterClosing, hx] at hl
  simp only [ScopeStack.reportExits_of_isSequential hseq] at hl
  exact ⟨ht, _, MultiPath.finish_reportAll hxs, hl⟩

theorem runs_alwaysLeaves {o : ScopeStack} (h : Live c s o) :
    Runs alwaysLeaves c s fun certain s' => certain = o.current.exits.always ∧ s' = s := by
  refine (runs_scopes h).bind fun stack t ⟨ht, ho, _⟩ => .pure ⟨?_, ht⟩
  rw [← ho, ScopeStack.outline_current, Scope.outline_exits]

/-- A match expression keeps the exits of its arms to itself. -/
theorem Branches.quiet_matchExpr [phase.Opens] {ls : Permissions → List Bool} {R : α → Prop}
    (hm : Branches phase m ls R) :
    Quiet phase (inScope (·.push (.matchExpr {}) { yields := true }) m) := by
  refine .scoped (·.pushedScope (.matchExpr {}) { yields := true })
    (fun stack => stack.push_opens (.matchExpr {}) { yields := true }) fun c s o h => ?_
  refine (hm c s _ h).mono fun _ t ⟨_, ht, xs, _, hl⟩ => ?_
  rw [ScopeStack.pushedScope, ScopeStack.cons_matchExpr_reportAll] at hl
  exact ⟨ht, _, hl, rfl⟩

/-- A body leaves if its first statement or one of the others does. Whether the others are walked
after a first statement that leaves makes no difference to that. -/
theorem leaves_body_cons {first : Stmt} {rest : List Stmt}
    (hfirst : Leaves .checking (stmt first) (first.leaves ·))
    (hrest : ∀ reported, Leaves .checking (body rest reported) (Stmt.bodyLeaves · rest))
    (reported : Bool) :
    Leaves .checking (body (first :: rest) reported) (Stmt.bodyLeaves · (first :: rest)) := by
  have hclear : Quiet .checking clearNarrowings := quiet_clearNarrowings
  intro c s o h hseq hfresh
  unfold body
  refine (hfirst c s o h hseq hfresh).bind fun first' t ht => ?_
  obtain ⟨ht, x, hx, hl⟩ := ht
  refine (hclear c t _ hl).bind fun _ u hu => ?_
  obtain ⟨hu, hlu⟩ := hu
  have hsteps : Steps c .checking s u := ht.trans hu
  rw [← (Steps.frames h hsteps).1.config] at hfresh
  cases rest with
  | nil => exact .pure ⟨hsteps, x, by simpa [Stmt.bodyLeaves] using hx, hlu⟩
  | cons next others =>
    refine (runs_alwaysLeaves hlu).bind fun certain v hv => ?_
    obtain ⟨hcertain, rfl⟩ := hv
    have hseq' : (o.addExits x).current.tag.IsSequential := by simpa using hseq
    -- The others are walked: the exits come one after the other.
    have hgoOn (reported : Bool) {w : State} (hw : Steps c .checking v w)
        (hl : Live c w (o.addExits x))
        (hfresh : (o.addExits x).current.exits.always = false ∨ w.session.config.prune = false) :
        Runs (body (next :: others) reported >>= fun rest => pure (first' :: rest)) c w
          fun _ s' => Steps c .checking s s' ∧ ∃ x : Exits, x.Reflects o.current.permits
            (Stmt.bodyLeaves o.current.permits (first :: next :: others)) ∧
            Live c s' (o.addExits x) := by
      refine (hrest reported c w _ hl hseq' hfresh).bind fun _ w' hw' => .pure ?_
      obtain ⟨hw', y, hy, hl'⟩ := hw'
      rw [ScopeStack.current_addExits] at hy
      rw [ScopeStack.addExits_addExits] at hl'
      exact ⟨(hsteps.trans hw).trans hw', x.union y, hx.union hy, hl'⟩
    cases certain with
    | false => exact hgoOn reported .refl hlu (.inl hcertain.symm)
    | true =>
      -- Only if nothing is pruned the others are walked.
      have hprune {w : State} (hw : Steps c .checking v w) (hl : Live c w (o.addExits x)) :
          Runs (do
            if (← get).session.config.prune then return [first']
            let rest ← body (next :: others) true
            return first' :: rest) c w fun _ s' => Steps c .checking s s' ∧ ∃ x : Exits,
              x.Reflects o.current.permits
                (Stmt.bodyLeaves o.current.permits (first :: next :: others)) ∧
              Live c s' (o.addExits x) := by
        rw [← (Steps.frames hlu hw).1.config] at hfresh
        refine runs_get.bind fun a w' hw' => ?_
        obtain ⟨rfl, rfl⟩ := hw'
        split
        · next hprune =>
          have hleft : first.leaves o.current.permits = true := by
            have hnew : o.current.exits.always = false := by simpa [hprune] using hfresh
            simpa [hnew, hx.always] using hcertain.symm
          refine .pure ⟨hsteps.trans hw, x, ?_, hl⟩
          rw [Stmt.bodyLeaves, hleft, Bool.true_or, ← hleft]
          exact hx
        · next hprune => exact hgoOn true hw hl (.inr (by simpa using hprune))
      cases reported with
      | true => exact hprune .refl hlu
      | false =>
        have hreport : Quiet .checking (report .unreachableCode (runSpan next others)) :=
          quiet_report _ _ rfl
        exact (hreport c _ _ hlu).bind fun _ w hw => hprune hw.1 hw.2

/-- Without an `else` arm, a path goes past the arms of a match statement. -/
theorem leaves_matchStatement [phase.Opens] {arms : List MatchArm} {ty : Ty}
    (harms : Branches phase (matchArms arms ty) (fun p => arms.map (Stmt.bodyLeaves p ·.body))
      fun r => r.2.hasDefault = arms.any (·.isDefault)) :
    Leaves phase (inScope (·.push (.multiPath {}) .empty) do
      let (arms, count) ← matchArms arms ty
      if !count.hasDefault then modifyScopes (·.reportExits .empty)
      pure (arms, count)) fun p => arms.any (·.isDefault) && Stmt.armsLeave p arms := by
  have hpast (r : List MatchArm × ArmCount) (hr : r.2.hasDefault = arms.any (·.isDefault)) :
      Branches phase (do
        if !r.2.hasDefault then modifyScopes (·.reportExits .empty)
        pure r) (fun _ => if arms.any (·.isDefault) then [] else [false]) fun _ => True := by
    dsimp only
    rw [hr]
    cases arms.any (·.isDefault) with
    | true => exact (Quiet.pure _).branches
    | false => exact branches_none.bind_pure fun _ _ => trivial
  refine (harms.bind hpast).leaves.congr fun p => ?_
  rw [Stmt.armsLeave_eq_all]
  cases hdefault : arms.any (·.isDefault) with
  | true =>
    have hsome : arms ≠ [] := by
      rintro rfl
      cases hdefault
    simp [hsome]
  | false => simp

/-! ## Containers -/

/-- A check inside a scope that collects no branches, which it keeps as it is. -/
def QuietInside (phase : Phase) (m : Check α) : Prop :=
  ∀ c s (o : ScopeStack) scope, scope.tag.IsSequential → Live c s (o.cons scope) →
    Runs m c s fun _ s' => Steps c phase s s' ∧ Live c s' (o.cons scope)

theorem Quiet.inside (h : Quiet phase m) : QuietInside phase m :=
  fun c s _ _ _ hl => h c s _ hl

theorem QuietInside.bind {f : α → Check β} (hm : QuietInside phase m)
    (hf : ∀ a, QuietInside phase (f a)) : QuietInside phase (m >>= f) := by
  intro c s o scope hseq h
  refine (hm c s o scope hseq h).bind fun a t ⟨ht, hl⟩ => ?_
  exact (hf a c t o scope hseq hl).mono fun _ u ⟨hu, hl'⟩ => ⟨ht.trans hu, hl'⟩

/-- A scope whose exits are handed on, and that has none. -/
theorem runs_inScope_silent [phase.Opens] {enter : ScopeStack → ScopeStack} {o : ScopeStack} {scope : Scope}
    (h : Live c s o) (hseq : o.current.tag.IsSequential)
    (henter : ∀ stack, stack.outline = o →
      (enter stack).outline = o.cons scope ∧ (enter stack).root.bindings = stack.root.bindings)
    (hhanded : scope.handedOn? = some {})
    (hm : ∀ s₁, Live c s₁ (o.cons scope) → Runs m c s₁ fun _ s₂ =>
      Steps c phase s₁ s₂ ∧ Live c s₂ (o.cons scope)) :
    Runs (inScope enter m) c s fun _ s' => Steps c phase s s' ∧ Live c s' o := by
  have hscope := runs_inScope phase (Q := fun _ top _ => top = scope) h henter fun s₁ _ hl =>
    (hm s₁ hl).mono fun _ s₂ ⟨hs, hl'⟩ => ⟨hs, scope, hl', rfl⟩
  refine hscope.mono fun r t ⟨ht, closed, _, _, _, hl, htop, _⟩ => ⟨ht, ?_⟩
  rw [htop, ScopeStack.afterClosing, hhanded] at hl
  simpa [ScopeStack.reportExits_of_isSequential hseq] using hl

/-- The body of a class or entity has no exits. -/
theorem leaves_container [phase.Opens] {tag : ScopeTag} (htag : tag.container?.isSome)
    (hm : QuietInside phase m) :
    Leaves phase (inScope (·.push tag { selfRef := true }) m) fun _ => false := by
  intro c s o h hseq _
  have hplain : tag.outline = tag ∧ tag.IsSequential ∧
      (o.pushedScope tag { selfRef := true }).handedOn? = some {} := by
    cases tag with
    | classBody | entityBody => exact ⟨rfl, trivial, rfl⟩
    | _ => cases htag
  obtain ⟨houtline, hseq', hhanded⟩ := hplain
  refine (runs_inScope_silent h hseq (fun stack ho => ?_) hhanded fun s₁ hl =>
    hm c s₁ o _ hseq' hl).mono fun _ t ⟨ht, hl⟩ => ⟨ht, {}, .none, by simpa using hl⟩
  have hopens := stack.push_opens tag { selfRef := true }
  rwa [ho, houtline] at hopens

/-- The initializers of fields run in a scope without `self`. -/
theorem quietInside_restricted [phase.Opens] (hm : Quiet phase m) :
    QuietInside phase (inScope (·.pushRestricted .plain { selfRef := true }) m) := by
  intro c s o scope hseq h
  exact runs_inScope_silent h hseq (fun stack ho => ho ▸ stack.pushRestricted_opens .plain _) rfl
    fun s₁ hl => hm c s₁ _ hl

/-! ## Lists of nodes

What lists of expressions and statements do follows from what each of them does.
-/

section Nodes

variable {es : List Expr} {stmts : List Stmt}

theorem quiet_places_of (hes : ∀ e ∈ es, ∀ hint, Quiet .checking (expr e hint)) :
    Quiet .checking (places es) := by
  induction es with
  | nil => exact .pure _
  | cons e rest ih =>
    rw [List.forall_mem_cons] at hes
    exact (quiet_assignLocal _).bind fun _ => (hes.1 none).single.bind fun _ =>
      (quiet_finishPlace _ _ _).bind fun _ => (ih hes.2).bind fun _ => .pure _

theorem quiet_repeatPart_of {part : Option Expr}
    (hes : ∀ e ∈ part.toList, ∀ hint, Quiet .checking (expr e hint)) (ty : Ty) (span : Span) :
    Quiet .checking (repeatPart part ty span) := by
  cases part with
  | none => exact .pure _
  | some e =>
    have he := hes e (List.mem_singleton_self e) (some ty)
    exact he.single.bind fun _ => (quiet_checkType _ _ _ _).bind fun _ => .pure _

theorem leaves_body_of (hstmts : ∀ st ∈ stmts, Leaves .checking (stmt st) (st.leaves ·))
    (reported : Bool) : Leaves .checking (body stmts reported) (Stmt.bodyLeaves · stmts) := by
  induction stmts generalizing reported with
  | nil => exact (Quiet.pure _).leaves
  | cons first rest ih =>
    rw [List.forall_mem_cons] at hstmts
    exact leaves_body_cons hstmts.1 (ih hstmts.2) reported

theorem branches_matchArms_of {arms : List MatchArm}
    (hes : ∀ e ∈ arms.flatMap (·.patterns), ∀ hint, Quiet .checking (expr e hint))
    (hstmts : ∀ st ∈ arms.flatMap (·.body), Leaves .checking (stmt st) (st.leaves ·))
    (subject : Ty) :
    Branches .checking (matchArms arms subject) (fun p => arms.map (Stmt.bodyLeaves p ·.body))
      fun r => r.2.hasDefault = arms.any (·.isDefault) := by
  induction arms with
  | nil => exact fun c s o h => .pure ⟨rfl, .refl, [], .nil, h⟩
  | cons arm rest ih =>
    obtain ⟨pats, isDefault, stmts, span⟩ := arm
    rw [List.flatMap_cons, List.forall_mem_append] at hes hstmts
    have hpats := (weighs_quiet .checking).of_patterns hes.1 subject
    have harm := branches_inBranch (leaves_body_of hstmts.1 false)
    have hrest := ih hes.2 hstmts.2
    -- The two kinds of arm differ in what they count.
    have harms (pats : List Expr) (count : ArmCount → ArmCount)
        (hcount : ∀ n, n.hasDefault = rest.any (·.isDefault) →
          (count n).hasDefault = (isDefault || rest.any (·.isDefault))) :
        Branches .checking (do
          let arm ← inBranch (body stmts false)
          let others ← matchArms rest subject
          pure (MatchArm.mk pats isDefault arm.1 span :: others.1, count others.2))
          (fun p => Stmt.bodyLeaves p stmts :: rest.map (Stmt.bodyLeaves p ·.body))
          (fun r => r.2.hasDefault = (isDefault || rest.any (·.isDefault))) :=
      harm.bind fun _ _ => hrest.bind_pure fun r hr => hcount r.2 hr
    unfold matchArms
    dsimp only
    cases isDefault with
    | true =>
      refine .guard (quiet_report _ _ rfl) fun _ => (Quiet.pure _).branches_bind fun _ => ?_
      exact harms _ (fun n => { n with hasDefault := true }) fun _ _ => rfl
    | false =>
      refine hpats.branches_bind fun pats => quiet_clearNarrowings.branches_bind fun _ =>
        (Quiet.pure _).branches_bind fun _ => ?_
      exact harms _ (fun n => { n with cases := n.cases + 1 }) fun n hn => hn

theorem branches_elseIfs_of {branches : List ElseIf}
    (hes : ∀ e ∈ branches.map (·.condition), ∀ hint, Quiet .checking (expr e hint))
    (hstmts : ∀ st ∈ branches.flatMap (·.body), Leaves .checking (stmt st) (st.leaves ·)) :
    Branches .checking (elseIfs branches) (fun p => branches.map (Stmt.bodyLeaves p ·.body))
      fun _ => True := by
  induction branches with
  | nil => exact (Quiet.pure _).branches
  | cons branch rest ih =>
    obtain ⟨condition, stmts, span⟩ := branch
    rw [List.map_cons, List.forall_mem_cons] at hes
    rw [List.flatMap_cons, List.forall_mem_append] at hstmts
    have hbody := leaves_body_of hstmts.1 false
    refine (hes.1 none).single.branches_bind fun _ => (quiet_conditionNarrowings _ _).branches_bind
      fun narrowings => ?_
    have hbranch := branches_inBranch ((quiet_declareNarrowings narrowings false).leaves_bind
      fun _ => hbody)
    exact hbranch.bind fun _ _ => (ih hes.2 hstmts.2).bind_pure fun _ _ => trivial

theorem branches_elseBody_of {otherwise : Option (List Stmt)}
    (hstmts : ∀ st ∈ otherwise.getD [], Leaves .checking (stmt st) (st.leaves ·))
    (narrowings : List Narrowing) :
    Branches .checking (elseBody otherwise narrowings) (fun p => [Stmt.elseLeaves p otherwise])
      fun _ => True := by
  cases otherwise with
  | none => exact branches_none.bind_pure fun _ _ => trivial
  | some stmts =>
    have hbranch := branches_inBranch ((quiet_declareNarrowings narrowings true).leaves_bind
      fun _ => leaves_body_of hstmts false)
    exact hbranch.bind_pure fun _ _ => trivial

theorem inside_initializers_of {decls : List VariableDecl}
    (hes : ∀ e ∈ decls.flatMap (·.values), ∀ hint, Quiet .checking (expr e hint))
    (owner : DeclRef) (kind : NamedKind) (members : Members) :
    QuietInside .checking (initializers decls owner kind members) := by
  induction decls with
  | nil => exact (Quiet.pure _).inside
  | cons decl rest ih =>
    obtain ⟨names, ty, exprs, isPub, isConst, span⟩ := decl
    rw [List.flatMap_cons, List.forall_mem_append] at hes
    have hvalues (hints : List Ty) :=
      quietInside_restricted ((weighs_quiet .checking).of_values hes.1 hints)
    have hrest := ih hes.2
    have hchecked (values : List (Value × Span)) : QuietInside .checking
        (checkInitializers owner kind names (registeredValues members names) values) :=
      fun _ _ _ _ _ h => runs_checkInitializers h _ _ _ _ _
    unfold initializers
    dsimp only
    split
    · exact (Quiet.pure _).inside.bind fun _ => hrest.bind fun _ => (Quiet.pure _).inside
    · exact (hvalues _).bind fun _ => (quiet_checkValueCount _ _ _ _).inside.bind fun _ =>
        (hchecked _).bind fun _ => (Quiet.pure _).inside.bind fun _ => hrest.bind fun _ =>
          (Quiet.pure _).inside

theorem quiet_constructorBody_of {decl : Option ConstructorDecl}
    (hstmts : ∀ st ∈ decl.toList.flatMap (·.body), Leaves .checking (stmt st) (st.leaves ·))
    (signature : Option Signature) : Quiet .checking (constructorBody decl signature) := by
  cases decl with
  | none => exact .pure _
  | some decl =>
    obtain ⟨generics, params, stmts, span⟩ := decl
    rw [Option.toList_some, List.flatMap_singleton] at hstmts
    cases signature with
    | none => exact .pure _
    | some signature =>
      exact (quiet_inFunction _ _ _ (leaves_body_of hstmts false)).bind fun _ =>
        (quiet_checkFieldsInitialized _).bind fun _ => .pure _

theorem quiet_methodBodies_of {decls : List FunctionDecl}
    (hstmts : ∀ st ∈ decls.flatMap (·.body), Leaves .checking (stmt st) (st.leaves ·))
    (members : Members) : Quiet .checking (methodBodies decls members) := by
  induction decls with
  | nil => exact .pure _
  | cons decl rest ih =>
    obtain ⟨name, generics, params, returns, stmts, isPub, span⟩ := decl
    rw [List.flatMap_cons, List.forall_mem_append] at hstmts
    exact (quiet_methodSignature _ _ _ _ _).bind fun _ =>
      (quiet_inFunction _ _ _ (leaves_body_of hstmts.1 false)).bind fun _ =>
        (ih hstmts.2).bind fun _ => .pure _

theorem quiet_firstSpawn_of {decls : List LifecycleDecl}
    (hstmts : ∀ st ∈ decls.flatMap (·.body), Leaves .checking (stmt st) (st.leaves ·))
    (entity : EntityInfo) : Quiet .checking (firstSpawn decls entity) := by
  induction decls with
  | nil => exact .pure _
  | cons decl rest ih =>
    obtain ⟨kind, generics, params, returns, stmts, span⟩ := decl
    rw [List.flatMap_cons, List.forall_mem_append] at hstmts
    have hbody := leaves_body_of hstmts.1 false
    unfold firstSpawn
    split
    · exact (quiet_walkedSignature _ _ _ _ _ _).bind fun _ =>
        (quiet_inFunction _ _ _ hbody).bind fun _ =>
          .guard (quiet_checkFieldsInitialized _) fun _ => .pure _
    · exact ih hstmts.2

theorem quiet_otherLifecycles_of {decls : List LifecycleDecl}
    (hstmts : ∀ st ∈ decls.flatMap (·.body), Leaves .checking (stmt st) (st.leaves ·))
    (entity : EntityInfo) (spawned : Option LifecycleDecl) (seen : List LifecycleKind) :
    Quiet .checking (otherLifecycles decls entity spawned seen) := by
  induction decls generalizing spawned seen with
  | nil => exact .pure _
  | cons decl rest ih =>
    obtain ⟨kind, generics, params, returns, stmts, span⟩ := decl
    rw [List.flatMap_cons, List.forall_mem_append] at hstmts
    have hbody := leaves_body_of hstmts.1 false
    have hrest := ih hstmts.2
    unfold otherLifecycles
    split
    · exact (hrest _ _).bind fun _ => .pure _
    · exact (quiet_walkedSignature _ _ _ _ _ _).bind fun _ =>
        (quiet_inFunction _ _ _ hbody).bind fun _ =>
          .guard (quiet_checkFieldsInitialized _) fun _ => (hrest _ _).bind fun _ => .pure _

end Nodes

/-! ## Nodes -/

theorem quiet_expr_of {e : Expr}
    (hes : ∀ child ∈ e.children, ∀ hint, Quiet .checking (expr child hint))
    (hpatterns : ∀ pattern ∈ e.patterns, ∀ hint, Quiet .checking (expr pattern hint))
    (hstmts : ∀ st ∈ e.statements, Leaves .checking (stmt st) (st.leaves ·)) (hint : Option Ty) :
    Quiet .checking (expr e hint) := by
  refine (weighs_quiet .checking).of_children hes hint fun hbody => ?_
  cases e with
  | function params returns stmts span =>
    have hbody : Leaves .checking (body stmts false) _ := leaves_body_of hstmts false
    exact (quiet_resolveSignature _ _ _).bind fun _ => (quiet_inFunction _ _ _ hbody).bind fun _ =>
      .pure _
  | matching subject arms amount span =>
    have hsubject := (hes subject (List.mem_singleton_self _) none).single
    have harms (ty : Ty) := (branches_matchArms_of hpatterns hstmts ty).quiet_matchExpr
    exact hsubject.bind fun _ => (harms _).bind fun _ => (quiet_matchValue _ _ _).bind fun _ =>
      .pure _
  | _ => cases hbody

theorem leaves_variable {decl : VariableDecl}
    (hes : ∀ e ∈ decl.values, ∀ hint, Quiet .checking (expr e hint)) :
    Leaves .checking (stmt (.variable decl)) fun _ => false := by
  obtain ⟨names, ty, exprs, isPub, isConst, span⟩ := decl
  have hvalues (hints : List Ty) : Quiet .checking (values exprs hints) :=
    (weighs_quiet .checking).of_values hes hints
  have hnames (d : Declaration) (given : List Expr × List Value) : Quiet .checking (do
      declareNames d names given.2 (inlinedLiterals names given.1)
      return Stmt.variable ⟨names, ty, given.1, isPub, isConst, span⟩) :=
    (quiet_declareNames _ _ _ _).bind fun _ => .pure _
  refine Quiet.leaves ?_
  unfold stmt
  refine .guard_scopes (quiet_report _ _ rfl) ?_
  refine .guard (quiet_report _ _ rfl) fun _ => (quiet_resolveType? _).bind fun declared => ?_
  dsimp only
  split
  · exact (quiet_defaultValues _).bind fun given => hnames _ given
  · exact (hvalues _).bind fun _ => (quiet_checkValueCount _ _ _ _).bind fun _ =>
      (Quiet.pure _).bind fun given => hnames _ given

theorem leaves_classDecl {decl : ClassDecl}
    (hes : ∀ e ∈ decl.fields.flatMap (·.values), ∀ hint, Quiet .checking (expr e hint))
    (hmethods : ∀ st ∈ decl.methods.flatMap (·.body), Leaves .checking (stmt st) (st.leaves ·))
    (hconstructor : ∀ st ∈ decl.constructor.toList.flatMap (·.body),
      Leaves .checking (stmt st) (st.leaves ·)) :
    Leaves .checking (stmt (.classDecl decl)) fun _ => false := by
  obtain ⟨name, isPub, fields, methods, constructor, span⟩ := decl
  refine (quiet_atRoot _ _).leaves_bind fun _ => .lookup (quiet_ownClass? _) fun found => ?_
  cases found with
  | none => exact (Quiet.pure _).leaves
  | some info =>
    refine (leaves_container rfl ?_).bind_quiet fun _ => .pure _
    refine (quiet_bindMembers _).inside.bind fun _ => (inside_initializers_of hes _ _ _).bind
      fun _ => QuietInside.bind ?_ fun _ => QuietInside.bind ?_ fun _ => (Quiet.pure _).inside
    · exact (quiet_constructorBody_of hconstructor _).inside
    · exact (quiet_methodBodies_of hmethods _).inside

theorem leaves_entityDecl {decl : EntityDecl}
    (hes : ∀ e ∈ decl.fields.flatMap (·.values), ∀ hint, Quiet .checking (expr e hint))
    (hmethods : ∀ st ∈ decl.methods.flatMap (·.body), Leaves .checking (stmt st) (st.leaves ·))
    (hfunctions : ∀ st ∈ decl.functions.flatMap (·.body),
      Leaves .checking (stmt st) (st.leaves ·)) :
    Leaves .checking (stmt (.entityDecl decl)) fun _ => false := by
  obtain ⟨name, isPub, fields, methods, functions, span⟩ := decl
  refine (quiet_atRoot _ _).leaves_bind fun _ => .lookup (quiet_ownEntity? _) fun found => ?_
  cases found with
  | none => exact (Quiet.pure _).leaves
  | some info =>
    refine (leaves_container rfl ?_).bind_quiet fun _ => .pure _
    refine (quiet_bindMembers _).inside.bind fun _ => (inside_initializers_of hes _ _ _).bind
      fun _ => Quiet.inside (.bind ?_ fun _ => .bind ?_ fun _ => .bind ?_ fun _ => .pure _)
    · exact quiet_firstSpawn_of hfunctions _
    · exact quiet_otherLifecycles_of hfunctions _ _ _
    · exact quiet_methodBodies_of hmethods _

theorem leaves_stmt_of {st : Stmt}
    (hes : ∀ e ∈ st.expressions, ∀ hint, Quiet .checking (expr e hint))
    (hstmts : ∀ inner ∈ st.statements, Leaves .checking (stmt inner) (inner.leaves ·)) :
    Leaves .checking (stmt st) (st.leaves ·) := by
  cases st with
  | env decl => exact Quiet.leaves (.bind (quiet_report _ _ rfl) fun _ => .pure _)
  | «variable» decl => exact leaves_variable hes
  | function decl =>
    obtain ⟨name, generics, params, returns, stmts, isPub, span⟩ := decl
    exact ((quiet_functionSignature _ _ _ _ _ _).bind fun _ =>
      (quiet_inFunction _ _ _ (leaves_body_of hstmts false)).bind fun _ => .pure _).leaves
  | classDecl decl =>
    obtain ⟨hmethods, hconstructor⟩ := List.forall_mem_append.1 hstmts
    exact leaves_classDecl hes hmethods hconstructor
  | entityDecl decl =>
    obtain ⟨hmethods, hfunctions⟩ := List.forall_mem_append.1 hstmts
    exact leaves_entityDecl hes hmethods hfunctions
  | enumDecl decl => exact ((quiet_atRoot _ _).bind fun _ => .pure _).leaves
  | aliasDecl decl => exact ((quiet_atRoot _ _).bind fun _ => .pure _).leaves
  | assign targets op exprs span =>
    obtain ⟨htargets, hexprs⟩ := List.forall_mem_append.1 hes
    have hvalues (hints : List Ty) := (weighs_quiet .checking).of_values hexprs hints
    exact ((quiet_places_of htargets).bind fun _ => (hvalues _).bind fun _ =>
      (quiet_checkValueCount _ _ _ _).bind fun _ => (quiet_checkAssigned _ _ _).bind
        fun _ => .pure _).leaves
  | ifChain condition stmts elseifs otherwise span =>
    obtain ⟨hcondition, hconditions⟩ := List.forall_mem_cons.1 hes
    obtain ⟨hthen, hstmts⟩ := List.forall_mem_append.1 hstmts
    obtain ⟨hbodies, helse⟩ := List.forall_mem_append.1 hstmts
    have hbody := leaves_body_of hthen false
    have helseifs := branches_elseIfs_of hconditions hbodies
    have hotherwise (narrowings : List Narrowing) := branches_elseBody_of helse narrowings
    refine (hcondition none).single.leaves_bind fun _ => (quiet_conditionNarrowings _ _).leaves_bind
      fun narrowings => ?_
    have hfirst := branches_inBranch ((quiet_declareNarrowings narrowings false).leaves_bind
      fun _ => hbody)
    have hchain := Branches.leaves (R := fun _ => True) (hfirst.bind fun a _ => helseifs.bind
      fun b _ => (hotherwise narrowings).bind_pure (g := fun d => (a.1, a.2, b, d))
        fun _ _ => trivial)
    refine (hchain.bind_quiet fun _ => ?_).congr fun p => ?_
    · exact .guard (quiet_declareNarrowings _ _) fun _ => .pure _
    · simp [Stmt.leaves, Stmt.elseIfsLeave_eq_all, Bool.and_assoc]
  | repeatLoop iterator start skip counter stmts span =>
    obtain ⟨hiterator, hparts⟩ := List.forall_mem_cons.1 hes
    obtain ⟨hstart, hskip⟩ := List.forall_mem_append.1 hparts
    exact ((hiterator none).single.bind fun _ => (quiet_repeatType _ _).bind fun _ =>
      (quiet_repeatPart_of hstart _ _).bind fun _ => (quiet_repeatPart_of hskip _ _).bind fun _ =>
        (quiet_inLoop _ _ (leaves_body_of hstmts false)).bind fun _ => .pure _).leaves
  | whileLoop condition stmts span =>
    have hcondition := hes condition (List.mem_singleton_self _) none
    exact (hcondition.single.bind fun _ => (quiet_conditionNarrowings _ _).bind fun _ =>
      (quiet_inLoop _ _ ((quiet_declareNarrowings _ _).leaves_bind fun _ =>
        leaves_body_of hstmts false)).bind fun _ => .pure _).leaves
  | forLoop key value iterator stmts span =>
    have hiterator := hes iterator (List.mem_singleton_self _) none
    exact (hiterator.single.bind fun _ => (quiet_iterated _ _).bind fun _ =>
      (quiet_forKey _ _).bind fun _ => (quiet_inLoop _ _ (leaves_body_of hstmts false)).bind
        fun _ => .pure _).leaves
  | tick counter stmts span =>
    exact ((quiet_inLoop _ _ (leaves_body_of hstmts false)).bind fun _ => .pure _).leaves
  | matching subject arms span =>
    obtain ⟨hsubject, hpatterns⟩ := List.forall_mem_cons.1 hes
    have harms (ty : Ty) := branches_matchArms_of hpatterns hstmts ty
    exact (hsubject none).single.leaves_bind fun _ => (leaves_matchStatement (harms _)).bind_quiet
      fun _ => .guard (quiet_report _ _ rfl) fun _ => .pure _
  | returning exprs span =>
    have hvalues (hints : List Ty) := (weighs_quiet .checking).of_values hes hints
    refine leaves_exit contains_returns (fun _ _ => Exits.reflects_ofReturn) ?_ ?_
    · exact quiet_returnTypes.exiting_bind fun _ => (hvalues _).exiting_bind fun _ =>
        (exiting_checkReturn _ _ _).bind_pure
    · exact (hvalues _).bind fun _ => .pure _
  | yielding exprs span =>
    have hvalues (hints : List Ty) := (weighs_quiet .checking).of_values hes hints
    refine leaves_exit contains_yields (fun _ hp => Exits.reflects_leaving .ofYield (.inl hp)) ?_ ?_
    · exact quiet_yieldTarget.exiting_bind fun _ => (hvalues _).exiting_bind fun _ =>
        (exiting_checkYield _ _ _ _).bind_pure
    · exact (hvalues _).bind fun _ => .pure _
  | breaking span =>
    exact leaves_exit contains_breaks (fun _ hp => Exits.reflects_leaving _ (.inr (.inl hp)))
      (exiting_markExit .ofBreak).bind_pure (.pure _)
  | continuing span =>
    exact leaves_exit contains_continues (fun _ hp => Exits.reflects_leaving _ (.inr (.inr hp)))
      (exiting_markExit .ofContinue).bind_pure (.pure _)
  | destroy target generics args span =>
    obtain ⟨htarget, hargs⟩ := List.forall_mem_cons.1 hes
    have hvalues (hints : List Ty) := (weighs_quiet .checking).of_values hargs hints
    have hunchecked := (weighs_quiet .checking).of_unchecked hargs
    refine Quiet.leaves ((htarget none).single.bind fun _ => (quiet_destroyer? _ _).bind
      fun found => ?_)
    split
    · exact (quiet_call _ _ _ hvalues).bind fun _ => .pure _
    · exact hunchecked.bind fun _ => .pure _
  | use decl =>
    refine Quiet.leaves (quiet_scopes.bind fun stack => ?_)
    exact .guard (quiet_useEnvironment _) fun _ => .pure _
  | expr e =>
    have he := hes e (List.mem_singleton_self _) none
    exact (he.bind fun _ => .pure _).leaves
  | error span => exact (Quiet.pure _).leaves

/-! ## Trees -/

theorem scopes_tree : (∀ e hint, Quiet .checking (expr e hint)) ∧
    ∀ st, Leaves .checking (stmt st) (st.leaves ·) :=
  Tree.induction (fun _ hes hpatterns hstmts => quiet_expr_of hes hpatterns hstmts)
    fun _ hes hstmts => leaves_stmt_of hes hstmts

theorem quiet_expr (e : Expr) (hint : Option Ty) : Quiet .checking (expr e hint) :=
  scopes_tree.1 e hint

theorem leaves_stmt (st : Stmt) : Leaves .checking (stmt st) (st.leaves ·) :=
  scopes_tree.2 st

theorem leaves_body (stmts : List Stmt) (reported : Bool) :
    Leaves .checking (body stmts reported) (Stmt.bodyLeaves · stmts) :=
  leaves_body_of (fun st _ => leaves_stmt st) reported

theorem branches_matchArms (arms : List MatchArm) (subject : Ty) :
    Branches .checking (matchArms arms subject) (fun p => arms.map (Stmt.bodyLeaves p ·.body))
      fun r => r.2.hasDefault = arms.any (·.isDefault) :=
  branches_matchArms_of (fun e _ => quiet_expr e) (fun st _ => leaves_stmt st) subject

theorem quiet_values (es : List Expr) (hints : List Ty) : Quiet .checking (values es hints) :=
  (weighs_quiet .checking).of_values (fun e _ => quiet_expr e) hints

theorem quiet_patterns (es : List Expr) (subject : Ty) : Quiet .checking (patterns es subject) :=
  (weighs_quiet .checking).of_patterns (fun e _ => quiet_expr e) subject

theorem quiet_places (es : List Expr) : Quiet .checking (places es) :=
  quiet_places_of fun e _ => quiet_expr e

theorem quiet_repeatPart (part : Option Expr) (ty : Ty) (span : Span) :
    Quiet .checking (repeatPart part ty span) :=
  quiet_repeatPart_of (fun e _ => quiet_expr e) ty span

theorem inside_initializers (decls : List VariableDecl) (owner : DeclRef) (kind : NamedKind)
    (members : Members) : QuietInside .checking (initializers decls owner kind members) :=
  inside_initializers_of (fun e _ => quiet_expr e) owner kind members

theorem quiet_constructorBody (decl : Option ConstructorDecl) (signature : Option Signature) :
    Quiet .checking (constructorBody decl signature) :=
  quiet_constructorBody_of (fun st _ => leaves_stmt st) signature

theorem quiet_methodBodies (decls : List FunctionDecl) (members : Members) :
    Quiet .checking (methodBodies decls members) :=
  quiet_methodBodies_of (fun st _ => leaves_stmt st) members

theorem quiet_firstSpawn (decls : List LifecycleDecl) (entity : EntityInfo) :
    Quiet .checking (firstSpawn decls entity) :=
  quiet_firstSpawn_of (fun st _ => leaves_stmt st) entity

theorem quiet_otherLifecycles (decls : List LifecycleDecl) (entity : EntityInfo)
    (spawned : Option LifecycleDecl) (seen : List LifecycleKind) :
    Quiet .checking (otherLifecycles decls entity spawned seen) :=
  quiet_otherLifecycles_of (fun st _ => leaves_stmt st) entity spawned seen

end Check

end HybroidSema
