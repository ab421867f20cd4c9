import HybroidSema.Proofs.Frame

/-!
# Unreachable statements

A body is walked up to its first statement that leaves, as the tree tells. What follows is
reported once, and then removed or walked like everything before it.

* `eachStmt` and `finishBody`: a body without a look at the scopes.
* `body_eq_of_certain` and `body_eq_of_fresh`: a body does the same, by induction on its
  statements, after a statement that leaves and before one.
* `body_stops_at_first_leaving`: what is walked, what is reported, and the exits that the scope of
  the body has afterwards.
-/

namespace HybroidSema.Check

/-- Walk statements one after the other. -/
def eachStmt : List Stmt → Check (List Stmt)
  | [] => return []
  | first :: rest => do
    let first ← stmt first
    clearNarrowings
    let rest ← eachStmt rest
    return first :: rest

/-- What is done with the statements after the first one that leaves, given the walked ones: they
are reported once, and walked unless the session prunes. -/
def finishBody (dead walked : List Stmt) : Check (List Stmt) :=
  match dead with
  | [] => return walked
  | next :: others => do
    report .unreachableCode (runSpan next others)
    if (← get).session.config.prune then return walked
    let rest ← eachStmt (next :: others)
    return walked ++ rest

/-- What is reported about the statements after the first one that leaves. -/
def deadAlerts : List Stmt → List Alert
  | [] => []
  | next :: others => [{ kind := .unreachableCode, span := runSpan next others }]

/-- The environment is being walked, and every one that waits is as it was registered. -/
structure Walks (id : EnvId) (s : State) (env : Environment) : Prop where
  registered : s.session.registry.get? id = some env
  started : env.state ≠ .notWalked
  waitsNew : s.session.WaitsNew

variable {c : Context} {s : State} {o : ScopeStack} {id : EnvId} {env : Environment}

theorem Walks.live (h : Walks id s env) (depth : Nat) :
    Live ⟨id, Session.walk depth⟩ s env.scopes.outline :=
  ⟨⟨env, h.registered, h.started, rfl⟩, h.waitsNew, Session.framing_walk depth⟩

theorem Live.walks {depth : Nat} (h : Live ⟨id, Session.walk depth⟩ s o) :
    ∃ env, Walks id s env ∧ env.scopes.outline = o := by
  obtain ⟨env, henv, hstarted, ho⟩ := h.own
  exact ⟨env, ⟨henv, hstarted, h.waitsNew⟩, ho⟩

/-! ## One statement -/

/-- A statement and the end of its narrowings, as a step of a body. -/
theorem runs_stmt_clear (h : Live c s o) (hseq : o.current.tag.IsSequential)
    (hfresh : o.current.exits.always = false ∨ s.session.config.prune = false) (first : Stmt) :
    ∃ first' t u, stmt first c s = .ok (first', t) ∧ clearNarrowings c t = .ok ((), u) ∧
      u.session.config = s.session.config ∧ ∃ x : Exits,
        x.Reflects o.current.permits (first.leaves o.current.permits) ∧
          Live c u (o.addExits x) := by
  have hstmt : Leaves .checking (stmt first) (first.leaves ·) := leaves_stmt first
  have hclear : Quiet .checking clearNarrowings := quiet_clearNarrowings
  obtain ⟨first', t, hrun, ht, x, hx, hl⟩ := hstmt c s o h hseq hfresh
  obtain ⟨⟨⟩, u, hrun', hu, hl'⟩ := hclear c t _ hl
  refine ⟨first', t, u, hrun, hrun', ?_, x, hx, hl'⟩
  exact (Steps.frames h (ht.trans hu)).1.config

/-- Walked statements are the results of their statements, one for one. -/
theorem forall₂_eachStmt {stmts out : List Stmt} {s' : State}
    (h : eachStmt stmts c s = .ok (out, s')) :
    List.Forall₂ (fun st st' => ∃ t t', stmt st c t = .ok (st', t')) stmts out := by
  induction stmts generalizing s out s' with
  | nil =>
    cases h
    exact .nil
  | cons first rest ih =>
    obtain ⟨first', t, hfirst, h⟩ := bind_eq_ok h
    obtain ⟨_, u, _, h⟩ := bind_eq_ok h
    obtain ⟨rest', v, hrest, h⟩ := bind_eq_ok h
    cases h
    exact .cons ⟨s, t, hfirst⟩ (ih hrest)

/-! ## A body -/

/-- A body after its first statement. -/
theorem body_cons {first first' : Stmt} {t u : State} (hfirst : stmt first c s = .ok (first', t))
    (hclear : clearNarrowings c t = .ok ((), u)) (hl : Live c u o) (rest : List Stmt)
    (reported : Bool) :
    body (first :: rest) reported c s = (match rest with
      | [] => return [first']
      | next :: others => do
        if o.current.exits.always then
          if !reported then report .unreachableCode (runSpan next others)
          if (← get).session.config.prune then return [first']
          let rest ← body rest true
          return first' :: rest
        else
          let rest ← body rest reported
          return first' :: rest) c u := by
  unfold body
  rw [bind_apply_ok hfirst, bind_apply_ok hclear]
  cases rest with
  | nil => rfl
  | cons next others =>
    obtain ⟨_, _, halways, rfl, rfl⟩ := runs_alwaysLeaves hl
    exact bind_apply_ok halways

/-- After a statement that leaves, the statements of a body are walked if nothing is pruned. -/
theorem body_eq_of_certain (h : Live c s o) (hseq : o.current.tag.IsSequential)
    (hcertain : o.current.exits.always = true) (hprune : s.session.config.prune = false)
    (stmts : List Stmt) : body stmts true c s = eachStmt stmts c s := by
  induction stmts generalizing s o with
  | nil => rfl
  | cons first rest ih =>
    obtain ⟨first', t, u, hfirst, hclear, hconfig, x, _, hl⟩ :=
      runs_stmt_clear h hseq (.inr hprune) first
    have hcertain' : (o.addExits x).current.exits.always = true := by simp [hcertain]
    have hprune' : u.session.config.prune = false := hconfig ▸ hprune
    have hrest := ih hl (by simpa using hseq) hcertain' hprune'
    rw [body_cons hfirst hclear hl, eachStmt, bind_apply_ok hfirst, bind_apply_ok hclear]
    cases rest with
    | nil => rfl
    | cons next others =>
      have hget : (get : Check State) c u = .ok (u, u) := rfl
      simp only [hcertain', if_true, Bool.not_true, Bool.false_eq_true, if_false]
      rw [bind_apply_ok hget, bind_apply (eachStmt _), ← hrest]
      simp only [hprune', Bool.false_eq_true, if_false]
      rfl

/-- What is done after the walked statements does not depend on them. -/
theorem finishBody_cons (dead walked : List Stmt) (first : Stmt) :
    finishBody dead (first :: walked) = do
      let walked ← finishBody dead walked
      return first :: walked := by
  unfold finishBody
  cases dead with
  | nil => simp
  | cons next others =>
    simp only [bind_assoc]
    congr 1
    funext _
    congr 1
    funext st
    split <;> simp

/-- What is dead is reported, and then it is walked unless the session prunes. -/
theorem finishBody_eq_ok {dead walked out : List Stmt} {s' : State}
    (h : finishBody dead walked c s = .ok (out, s')) :
    if s.session.config.prune then out = walked ∧ s' = s.addAlerts (deadAlerts dead)
    else ∃ rest, eachStmt dead c (s.addAlerts (deadAlerts dead)) = .ok (rest, s') ∧
      out = walked ++ rest := by
  unfold finishBody at h
  cases dead with
  | nil =>
    cases h
    rw [deadAlerts, State.addAlerts_nil]
    split
    · exact ⟨rfl, rfl⟩
    · exact ⟨[], rfl, (List.append_nil _).symm⟩
  | cons next others =>
    obtain ⟨⟨⟩, u, hreport, h⟩ := bind_eq_ok h
    obtain ⟨st, t, hget, h⟩ := bind_eq_ok h
    cases hreport
    cases hget
    split at h
    · next hprune =>
      cases h
      rw [if_pos hprune]
      exact ⟨rfl, rfl⟩
    · next hprune =>
      obtain ⟨rest, t, hrest, hpure⟩ := bind_eq_ok h
      cases hpure
      rw [if_neg hprune]
      exact ⟨rest, hrest, rfl⟩

/-- Before a statement leaves, a body is walked up to the first one that does. -/
theorem body_eq_of_fresh (h : Live c s o) (hseq : o.current.tag.IsSequential)
    (hfresh : o.current.exits.always = false) (stmts : List Stmt) :
    body stmts false c s = (eachStmt (Stmt.reachable o.current.permits stmts) >>=
      finishBody (Stmt.unreachable o.current.permits stmts)) c s := by
  induction stmts generalizing s with
  | nil => rfl
  | cons first rest ih =>
    obtain ⟨first', t, u, hfirst, hclear, hconfig, x, hx, hl⟩ :=
      runs_stmt_clear h hseq (.inl hfresh) first
    rw [body_cons hfirst hclear hl]
    unfold Stmt.reachable Stmt.unreachable
    cases hleaves : first.leaves o.current.permits with
    | false =>
      -- The statement adds no exits, so the rest starts as the body did.
      obtain rfl := hx.silent hleaves
      rw [ScopeStack.addExits_empty] at hl
      have hrest : (body rest false >>= fun walked => pure (first' :: walked)) c u =
          (eachStmt (Stmt.reachable o.current.permits rest) >>= fun walked =>
            finishBody (Stmt.unreachable o.current.permits rest) (first' :: walked)) c u := by
        simp only [finishBody_cons, ← bind_assoc]
        rw [bind_apply, ih hl]
        rfl
      simp only [Bool.false_eq_true, if_false]
      rw [bind_apply, eachStmt, bind_apply_ok hfirst, bind_apply_ok hclear, ← bind_apply]
      simp only [bind_assoc, pure_bind]
      rw [← hrest]
      cases rest with
      | nil => rfl
      | cons next others =>
        simp only [ScopeStack.addExits_empty, hfresh, Bool.false_eq_true, if_false]
    | true =>
      have hcertain : (o.addExits x).current.exits.always = true := by
        simp [hx.always, hleaves]
      have hwalked : eachStmt [first] c s = .ok ([first'], u) := by
        rw [eachStmt, bind_apply_ok hfirst, bind_apply_ok hclear]
        rfl
      simp only [if_true]
      rw [bind_apply_ok hwalked]
      cases rest with
      | nil => rfl
      | cons next others =>
        have hreport : Quiet .checking (report .unreachableCode (runSpan next others)) :=
          quiet_report _ _ rfl
        obtain ⟨⟨⟩, v, hrun, _, hl'⟩ := hreport c u _ hl
        have hget : (get : Check State) c v = .ok (v, v) := rfl
        simp only [hcertain, if_true, Bool.not_false, finishBody]
        rw [bind_apply_ok hrun, bind_apply_ok hrun, bind_apply_ok hget, bind_apply_ok hget]
        split
        · rfl
        · next hprune =>
          have hdead := body_eq_of_certain hl' (by simpa using hseq) hcertain
            (by simpa using hprune) (next :: others)
          rw [bind_apply, hdead]
          rfl

/-! ## The result of a body -/

/-- The settings are the same when a body comes to the statements that are not reachable. -/
theorem config_eachStmt_reachable (h : Live c s o) (hseq : o.current.tag.IsSequential)
    (hfresh : o.current.exits.always = false) {stmts walked : List Stmt} {t : State}
    (hrun : eachStmt (Stmt.reachable o.current.permits stmts) c s = .ok (walked, t)) :
    t.session.config = s.session.config := by
  induction stmts generalizing s walked with
  | nil =>
    cases hrun
    rfl
  | cons first rest ih =>
    obtain ⟨first', s₁, s₂, hfirst, hclear, hconfig, x, hx, hl⟩ :=
      runs_stmt_clear h hseq (.inl hfresh) first
    unfold Stmt.reachable at hrun
    cases hleaves : first.leaves o.current.permits with
    | true =>
      rw [hleaves, if_pos rfl, eachStmt, bind_apply_ok hfirst, bind_apply_ok hclear] at hrun
      cases hrun
      exact hconfig
    | false =>
      rw [hleaves, if_neg Bool.false_ne_true, eachStmt, bind_apply_ok hfirst,
        bind_apply_ok hclear] at hrun
      obtain ⟨rest', t', hrest, hrun⟩ := bind_eq_ok hrun
      cases hrun
      obtain rfl := hx.silent hleaves
      rw [ScopeStack.addExits_empty] at hl
      exact (ih hl hrest).trans hconfig

/-- The statements of the result, one for one: those that are reachable if the session prunes, and
all of them otherwise. -/
theorem forall₂_body (h : Live c s o) (hseq : o.current.tag.IsSequential)
    (hfresh : o.current.exits.always = false) {stmts out : List Stmt} {s' : State}
    (hrun : body stmts false c s = .ok (out, s')) :
    List.Forall₂ (fun st st' => ∃ t t', stmt st c t = .ok (st', t'))
      (if s.session.config.prune then Stmt.reachable o.current.permits stmts else stmts) out := by
  have hall := Stmt.reachable_append_unreachable o.current.permits stmts
  rw [body_eq_of_fresh h hseq hfresh] at hrun
  obtain ⟨walked, t, hwalked, hrun⟩ := bind_eq_ok hrun
  have hlive := forall₂_eachStmt hwalked
  have hfinish := finishBody_eq_ok hrun
  rw [config_eachStmt_reachable h hseq hfresh hwalked] at hfinish
  split at hfinish
  · next hprune =>
    obtain ⟨rfl, -⟩ := hfinish
    rwa [if_pos hprune]
  · next hprune =>
    obtain ⟨rest, hrest, rfl⟩ := hfinish
    rw [if_neg hprune, ← hall]
    exact List.rel_append hlive (forall₂_eachStmt hrest)

/-- A body walks its statements up to and including the first one that leaves. If there are more,
they are reported once, in one alert after those of the walked statements, and they are walked only
if the session does not prune. Afterwards the exits of the scope tell whether the body leaves, and
there are none if it does not. -/
theorem body_stops_at_first_leaving (depth : Nat) (stmts : List Stmt) (h : Walks id s env)
    (hseq : env.scopes.current.tag.IsSequential) (hfresh : env.scopes.current.exits = {}) :
    let c : Context := ⟨id, Session.walk depth⟩
    let p := env.scopes.current.permits
    let kept := if s.session.config.prune then Stmt.reachable p stmts else stmts
    body stmts false c s =
        (eachStmt (Stmt.reachable p stmts) >>= finishBody (Stmt.unreachable p stmts)) c s ∧
      ∃ out s' env', body stmts false c s = .ok (out, s') ∧ Walks id s' env' ∧
        List.Forall₂ (fun st st' => ∃ t t', stmt st c t = .ok (st', t')) kept out ∧
        env'.scopes.current.exits.always = Stmt.bodyLeaves p stmts ∧
        (Stmt.bodyLeaves p stmts = false → env'.scopes.current.exits = {}) ∧
        ∃ walked t, eachStmt (Stmt.reachable p stmts) c s = .ok (walked, t) ∧
          let reported := t.addAlerts (deadAlerts (Stmt.unreachable p stmts))
          if s.session.config.prune then out = walked ∧ s' = reported
          else ∃ rest, eachStmt (Stmt.unreachable p stmts) c reported = .ok (rest, s') ∧
            out = walked ++ rest := by
  intro c p kept
  have hlive : Live c s env.scopes.outline := h.live depth
  have hcurrent := env.scopes.outline_current
  have hseq' : env.scopes.outline.current.tag.IsSequential := by
    rw [hcurrent, Scope.outline_tag]
    cases htag : env.scopes.current.tag <;> simp_all [ScopeTag.IsSequential, ScopeTag.outline]
  have hfresh' : env.scopes.outline.current.exits = {} := by rw [hcurrent]; exact hfresh
  have hpermits : env.scopes.outline.current.permits = p := by rw [hcurrent]; rfl
  have hcertain : env.scopes.outline.current.exits.always = false := by rw [hfresh']
  have hleaves : Leaves .checking (body stmts false) (Stmt.bodyLeaves · stmts) :=
    leaves_body stmts false
  obtain ⟨out, s', hrun, -, x, hx, hl⟩ := hleaves c s _ hlive hseq' (.inl hcertain)
  obtain ⟨env', hwalks, hscopes⟩ := hl.walks
  have hexits : env'.scopes.current.exits = x := by
    rw [← Scope.outline_exits, ← ScopeStack.outline_current, hscopes]
    simp [hfresh]
  have hstmts := forall₂_body hlive hseq' hcertain hrun
  rw [hpermits] at hx hstmts
  have heq := body_eq_of_fresh hlive hseq' hcertain stmts
  rw [hpermits] at heq
  obtain ⟨walked, t, hwalked, hfinish⟩ := bind_eq_ok (heq.symm.trans hrun)
  have hconfig : t.session.config = s.session.config :=
    config_eachStmt_reachable hlive hseq' hcertain (hpermits.symm ▸ hwalked)
  refine ⟨heq, out, s', env', hrun, hwalks, hstmts, ?_, ?_, walked, t, hwalked, ?_⟩
  · rw [hexits, hx.always]
  · rw [hexits]
    exact hx.silent
  · rw [← hconfig]
    exact finishBody_eq_ok hfinish

/-! ## Inside a function -/

/-- An environment whose walk is inside the body of a function that returns a number. -/
def functionEnvironment : Environment :=
  { id := .user 0, path := "main", name := "Main", kind := .level, state := .walking
    scopes := ({} : ScopeStack).pushFunction { returns := [.number] } }

/-- The state of that walk, in a session with no other environment. -/
def functionState : State := { session := { registry := { envs := [functionEnvironment] } } }

theorem walks_functionState : Walks (.user 0) functionState functionEnvironment := by
  refine ⟨rfl, nofun, fun id env henv hwaits => ?_⟩
  obtain ⟨index, -, hindex⟩ := Option.bind_eq_some_iff.1 henv
  have hmem : env ∈ [functionEnvironment] := List.mem_of_getElem? hindex
  obtain rfl := List.mem_singleton.1 hmem
  cases hwaits

/-- What stands after a `return` is removed, and there is one alert about it after the one that the
`return` has no value. -/
theorem body_keeps_only_return :
    ∃ out s', body [.returning [] .synthetic, .breaking .synthetic, .error .synthetic] false
        ⟨.user 0, Session.walk 0⟩ functionState = .ok (out, s') ∧ out.length = 1 ∧
      s'.alerts.codes = [.tooFewValuesGiven, .unreachableCode] := by
  have hreturn : (eachStmt [.returning [] .synthetic] ⟨.user 0, Session.walk 0⟩
      functionState).toOption.any (·.2.alerts.codes == [.tooFewValuesGiven]) = true := by
    decide +kernel
  obtain ⟨-, out, s', -, hrun, -, hstmts, -, -, walked, t, hwalked, hfinish⟩ :=
    body_stops_at_first_leaving 0
      [.returning [] .synthetic, .breaking .synthetic, .error .synthetic] walks_functionState
      trivial rfl
  obtain ⟨r, hr, hcodes⟩ := exists_eq_ok_of_any hreturn
  obtain rfl := Except.ok.inj (hwalked.symm.trans hr)
  obtain ⟨-, rfl⟩ := hfinish
  refine ⟨out, _, hrun, hstmts.length_eq.symm, ?_⟩
  calc (t.alerts.alerts ++ deadAlerts [.breaking .synthetic, .error .synthetic]).map Alert.code
      = t.alerts.codes ++ [.unreachableCode] := List.map_append
    _ = [.tooFewValuesGiven, .unreachableCode] := by rw [beq_iff_eq.1 hcodes]; rfl

end HybroidSema.Check
