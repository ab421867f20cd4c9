import HybroidSema.Proofs.LifecycleCounts
import HybroidSema.Proofs.LifecycleTurns

/-!
# The contract of an entity

An entity that has its name registers the first lifecycle function of each kind, and what it has too
many or too few of is reported. Its one walk takes every lifecycle function once, against its own
declaration, and checks after the first spawn function, and only there, that the fields are assigned.

* `Program.filter_countAlerts`: what a program reports about one entity.
* `Check.Steps.lifecycles_eq`: what is registered stays while bodies are walked.
* `Check.program_walks_once`: the one walk of a statement at the root.
* `Check.WalkedOnce` and `Check.Counted`: the two halves of the contract.
* `analyze_keeps_entity_contract`: every entity of a build.
-/

namespace HybroidSema

open Check Declare

/-! ## What is reported about one entity -/

/-- Whether an alert is about how often the entity of a name declares lifecycle functions. -/
def AlertKind.countsIn (name : String) : AlertKind → Bool
  | .multipleEntityFunctions entity _ | .missingEntityFunction entity _ => entity == name
  | _ => false

/-- Whether an alert is about a lifecycle function that the entity of a name declares again. -/
def AlertKind.repeatsIn (name : String) : AlertKind → Bool
  | .multipleEntityFunctions entity _ => entity == name
  | _ => false

theorem AlertKind.isLifecycleCount_of_countsIn {kind : AlertKind} {name : String}
    (h : kind.countsIn name = true) : kind.isLifecycleCount = true := by
  cases kind <;> first | rfl | cases h

theorem AlertKind.countsIn_of_repeatsIn {kind : AlertKind} {name : String}
    (h : kind.repeatsIn name = true) : kind.countsIn name = true := by
  cases kind <;> first | exact h | cases h

namespace LifecycleDecl

variable {entity : Ident} {earlier decls : List LifecycleDecl} {a : Alert}

/-- A further function is reported with the name of its entity. -/
theorem repeatsIn_of_mem_duplicates (h : a ∈ duplicates entity earlier decls) (name : String) :
    a.kind.repeatsIn name = (entity.name == name) := by
  induction decls generalizing earlier with
  | nil => cases h
  | cons decl rest ih =>
    unfold duplicates at h
    split at h
    · rcases List.mem_cons.1 h with rfl | hrest
      · rfl
      · exact ih hrest
    · exact ih h

theorem mem_missing {kind : LifecycleKind} : a ∈ missing entity kind decls ↔
    first? decls kind = none ∧
      a = { kind := .missingEntityFunction entity.name kind.name, span := entity.span } := by
  unfold missing
  split
  · next hsome => simp [hsome]
  · next hnone => simp [hnone]

end LifecycleDecl

namespace EntityDecl

variable {decl : EntityDecl} {a : Alert}

/-- What is reported about an entity has its name. -/
theorem countsIn_of_mem_countAlerts (h : a ∈ decl.countAlerts) (name : String) :
    a.kind.countsIn name = (decl.name.name == name) := by
  simp only [countAlerts, List.mem_append, LifecycleDecl.mem_missing] at h
  rcases h with (hdup | ⟨-, rfl⟩) | ⟨-, rfl⟩
  · have hrepeats := LifecycleDecl.repeatsIn_of_mem_duplicates hdup decl.name.name
    have hkind := LifecycleDecl.repeatsIn_of_mem_duplicates hdup name
    cases hk : a.kind <;> rw [hk] at hrepeats hkind <;> first | exact hkind | skip
    all_goals simp [AlertKind.repeatsIn] at hrepeats
  · rfl
  · rfl

/-- How many functions are reported: of each kind all but one. -/
theorem countP_repeatsIn (decl : EntityDecl) :
    decl.countAlerts.countP (·.kind.repeatsIn decl.name.name) =
      (LifecycleKind.all.map fun kind => decl.functions.countP (·.kind == kind) - 1).sum := by
  have hdup : (LifecycleDecl.duplicates decl.name [] decl.functions).countP
      (·.kind.repeatsIn decl.name.name) =
        (LifecycleDecl.duplicates decl.name [] decl.functions).length :=
    List.countP_eq_length.2 fun a ha => by
      rw [LifecycleDecl.repeatsIn_of_mem_duplicates ha, beq_self_eq_true]
  have hmissing (kind : LifecycleKind) : (LifecycleDecl.missing decl.name kind decl.functions).countP
      (·.kind.repeatsIn decl.name.name) = 0 :=
    List.countP_eq_zero.2 fun a ha => by
      rw [(LifecycleDecl.mem_missing.1 ha).2]
      exact Bool.false_ne_true
  simp only [countAlerts, List.countP_append, hdup, hmissing, Nat.add_zero,
    LifecycleDecl.length_duplicates]
  rfl

/-- A missing function is reported if no function has the kind. -/
theorem missing_iff (decl : EntityDecl) {kind : LifecycleKind}
    (h : kind = .spawn ∨ kind = .destroy) :
    (∃ a ∈ decl.countAlerts, a.kind = .missingEntityFunction decl.name.name kind.name) ↔
      ∀ function ∈ decl.functions, function.kind ≠ kind := by
  have hnone : LifecycleDecl.first? decl.functions kind = none ↔
      ∀ function ∈ decl.functions, function.kind ≠ kind := by
    simp [LifecycleDecl.first?]
  rw [← hnone]
  refine ⟨fun hreported => ?_, fun hmissing => ?_⟩
  · obtain ⟨a, ha, hkind⟩ := hreported
    simp only [countAlerts, List.mem_append, LifecycleDecl.mem_missing] at ha
    rcases ha with (hdup | ⟨hmissing, rfl⟩) | ⟨hmissing, rfl⟩
    · have hrepeats := LifecycleDecl.repeatsIn_of_mem_duplicates hdup decl.name.name
      rw [hkind] at hrepeats
      simp [AlertKind.repeatsIn] at hrepeats
    all_goals
      rcases h with rfl | rfl <;> first | exact hmissing | simp [LifecycleKind.name] at hkind
  · refine ⟨{ kind := .missingEntityFunction decl.name.name kind.name, span := decl.name.span }, ?_,
      rfl⟩
    simp only [countAlerts, List.mem_append, LifecycleDecl.mem_missing]
    rcases h with rfl | rfl
    · exact .inl (.inr ⟨hmissing, rfl⟩)
    · exact .inr ⟨hmissing, rfl⟩

end EntityDecl

namespace Program

variable {p before rest : Program} {decl : EntityDecl}

/-- Before a type that has its name, no other one has that. -/
theorem name_ne_of_owns (hidents : p.typeIdents.Nodup) {stmt other : Stmt} {id id' : Ident}
    (hp : p = before ++ stmt :: rest) (hid : stmt.typeIdent? = some id) (howns : p.owns id = true)
    (hother : other ∈ before) (hid' : other.typeIdent? = some id') : id'.name ≠ id.name := by
  intro hname
  rw [(owns_split hidents hp hid).1, Option.isNone_iff_eq_none, first?, List.find?_eq_none] at howns
  exact howns other hother (by simp [Stmt.declares, hid', hname])

/-- What a program reports about the entity that has a name. -/
theorem filter_countAlerts (hidents : p.typeIdents.Nodup) (hdecl : .entityDecl decl ∈ p)
    (howns : p.owns decl.name = true) :
    (p.flatMap p.countAlerts).filter (·.kind.countsIn decl.name.name) = decl.countAlerts := by
  obtain ⟨before, rest, hp⟩ := List.append_of_mem hdecl
  -- No other entity that has its name has this one.
  have hother {others : List Stmt} (hothers : ∀ stmt ∈ others, ∀ d, stmt = .entityDecl d →
      p.owns d.name = true → d.name.name ≠ decl.name.name) :
      (others.flatMap p.countAlerts).filter (·.kind.countsIn decl.name.name) = [] := by
    rw [List.filter_eq_nil_iff]
    intro a ha hcounts
    obtain ⟨stmt, hstmt, hmem⟩ := List.mem_flatMap.1 ha
    unfold countAlerts at hmem
    split at hmem
    · next d =>
      split at hmem
      · next hd =>
        rw [EntityDecl.countsIn_of_mem_countAlerts hmem] at hcounts
        exact hothers _ hstmt d rfl hd (by simpa using hcounts)
      · cases hmem
    · cases hmem
  have hself : (p.countAlerts (.entityDecl decl)).filter (·.kind.countsIn decl.name.name) =
      decl.countAlerts := by
    rw [countAlerts, if_pos howns, List.filter_eq_self]
    intro a ha
    rw [EntityDecl.countsIn_of_mem_countAlerts ha, beq_self_eq_true]
  have hbefore : (before.flatMap p.countAlerts).filter (·.kind.countsIn decl.name.name) = [] := by
    refine hother fun stmt hstmt d hd _ => ?_
    subst hd
    exact name_ne_of_owns hidents hp rfl howns hstmt rfl
  have hrest : (rest.flatMap p.countAlerts).filter (·.kind.countsIn decl.name.name) = [] := by
    refine hother fun stmt hstmt d hd howns' => ?_
    subst hd
    obtain ⟨between, after, rfl⟩ := List.append_of_mem hstmt
    have hp' : p = (before ++ .entityDecl decl :: between) ++ .entityDecl d :: after := by
      rw [hp]
      simp
    have hmem : .entityDecl decl ∈ before ++ .entityDecl decl :: between := by simp
    exact (name_ne_of_owns hidents hp' rfl howns' hmem rfl).symm
  have hsplit : p.flatMap p.countAlerts = before.flatMap p.countAlerts ++
      (p.countAlerts (.entityDecl decl) ++ rest.flatMap p.countAlerts) := by
    conv => lhs; rw [hp]
    rw [List.flatMap_append, List.flatMap_cons, ← hp]
  rw [hsplit, List.filter_append, List.filter_append, hbefore, hself, hrest, List.nil_append,
    List.append_nil]

end Program

/-! ## What is registered stays -/

/-- What is registered for the lifecycle functions of an entity, and where the entity stands. -/
def EntityInfo.lifecycles (info : EntityInfo) :
    Span × Option Signature × Option Signature × List (LifecycleKind × Signature) :=
  (info.span, info.spawner, info.destroyer, info.callbacks)

theorem EntityInfo.lifecycle?_of_lifecycles_eq {info info' : EntityInfo}
    (h : info'.lifecycles = info.lifecycles) : info'.lifecycle? = info.lifecycle? := by
  simp only [lifecycles, Prod.mk.injEq] at h
  obtain ⟨-, hspawner, hdestroyer, hcallbacks⟩ := h
  funext kind
  cases kind <;> simp only [lifecycle?, hspawner, hdestroyer, hcallbacks]

namespace Check

variable {c : Context} {s t : State} {o : ScopeStack}

/-- While bodies are walked, an entity keeps what is registered for its lifecycle functions. -/
theorem Steps.lifecycles_eq (hl : Live c s o) (hsteps : Steps c .checking s t) {e : Environment}
    (hown : s.own? c = some e) : ∃ e', t.own? c = some e' ∧ ∀ name,
      (e'.entities.get? name).map EntityInfo.lifecycles =
        (e.entities.get? name).map EntityInfo.lifecycles := by
  refine Steps.own_keeps (I := fun e' => ∀ name, (e'.entities.get? name).map EntityInfo.lifecycles =
    (e.entities.get? name).map EntityInfo.lifecycles) hl hsteps (fun _ f e' hf _ he' name => ?_) hown
    fun _ => rfl
  rw [← he' name]
  cases hf with
  | require =>
    simp only [Environment.require]
    split <;> rfl
  | addImport =>
    simp only [Environment.addImport]
    split <;> rfl
  | setField kind container field value =>
    cases kind with
    | classDecl => rfl
    | entityDecl => exact map_get?_modify _ _ _ fun _ => rfl
  | claimClass _ _ hphase | claimEntity _ _ hphase | claimEnum _ _ hphase
  | claimAlias _ _ hphase | fillClass _ _ hphase | fillEntity _ _ hphase => cases hphase
  | _ => rfl

/-! ## One walk -/

theorem eachStmt_append (before rest : List Stmt) : eachStmt (before ++ rest) = do
    let before ← eachStmt before
    let rest ← eachStmt rest
    return before ++ rest := by
  induction before with
  | nil => simp [eachStmt]
  | cons first before ih => simp [eachStmt, ih]

/-- The statements of a program, without a leading `env` declaration. -/
def rootStatements : Program → List Stmt
  | .env _ :: rest => rest
  | stmts => stmts

theorem program_eq_eachStmt (hl : Live c s {}) {p out : Program}
    (hrun : Check.program p c s = .ok (out, t)) :
    ∃ head walked, eachStmt (rootStatements p) c s = .ok (walked, t) ∧
      p = head ++ rootStatements p ∧ out = head ++ walked := by
  unfold Check.program at hrun
  split at hrun
  · next decl rest =>
    obtain ⟨walked, u, hbody, hpure⟩ := bind_eq_ok hrun
    cases hpure
    exact ⟨[.env decl], walked, (body_root hl rest).symm.trans hbody, rfl, rfl⟩
  · next hother =>
    have hsame : rootStatements p = p := by
      unfold rootStatements
      split
      · next decl rest => exact absurd rfl (hother decl rest)
      · rfl
    rw [hsame]
    exact ⟨[], out, (body_root hl p).symm.trans hrun, rfl, rfl⟩

/-- Among the statements of a body at the root, one is walked between those before and those after
it. -/
theorem eachStmt_walks_once (hl : Live c s {}) {before rest out : List Stmt} {st : Stmt}
    (hrun : eachStmt (before ++ st :: rest) c s = .ok (out, t)) :
    ∃ first walked others u v, Live c u {} ∧ Steps c .checking s u ∧
      eachStmt before c s = .ok (first, u) ∧ stmt st c u = .ok (walked, v) ∧
      (clearNarrowings >>= fun _ => eachStmt rest) c v = .ok (others, t) ∧
      out = first ++ walked :: others := by
  rw [eachStmt_append] at hrun
  obtain ⟨first, u, hbefore, hrun⟩ := bind_eq_ok hrun
  obtain ⟨after, t', hafter, hpure⟩ := bind_eq_ok hrun
  cases hpure
  obtain ⟨walked, v, hstmt, hafter⟩ := bind_eq_ok hafter
  obtain ⟨⟨⟩, w, hclear, hafter⟩ := bind_eq_ok hafter
  obtain ⟨others, t', hrest, hpure⟩ := bind_eq_ok hafter
  cases hpure
  have hbody : Leaves .checking (body before false) (Stmt.bodyLeaves · before) :=
    leaves_body before false
  obtain ⟨hsteps, x, hx, hlu⟩ := (hbody c s {} hl trivial (.inl rfl)).apply
    ((body_root hl before).trans hbefore)
  obtain rfl := hx.silent (Stmt.bodyLeaves_nothing before)
  rw [ScopeStack.addExits_empty] at hlu
  exact ⟨first, walked, others, u, v, hlu, hsteps, hbefore, hstmt, (bind_apply_ok hclear).trans hrest,
    rfl⟩

/-- How an entity at the root is walked: once, after the statements before it and before those after it,
and in the order of its turns. -/
def WalkedOnce (p out : Program) (c : Context) (s t : State) (decl walkedDecl : EntityDecl)
    (registered : LifecycleKind → Option Signature) : Prop :=
  ∃ head before rest first others u v own entity,
    rootStatements p = before ++ .entityDecl decl :: rest ∧ p = head ++ rootStatements p ∧
    eachStmt before c s = .ok (first, u) ∧
    u.own? c = some own ∧ own.entities.get? decl.name.name = some entity ∧
    entity.lifecycle? = registered ∧
    stmt (.entityDecl decl) c u = (Stmt.entityDecl <$> walkEntity entity decl) c u ∧
    walkEntity entity decl c u = .ok (walkedDecl, v) ∧
    (clearNarrowings >>= fun _ => eachStmt rest) c v = .ok (others, t) ∧
    out = head ++ first ++ .entityDecl walkedDecl :: others

/-- A registered entity is walked once. -/
theorem exists_walkedOnce (hl : Live c s {}) {p out : Program} {decl : EntityDecl}
    {info : EntityInfo} {e : Environment}
    (hrun : Check.program p c s = .ok (out, t)) (hdecl : .entityDecl decl ∈ p)
    (hown : s.own? c = some e) (hinfo : e.entities.get? decl.name.name = some info)
    (hspan : info.span = decl.name.span)
    (hkinds : ∀ kind, (LifecycleDecl.first? decl.functions kind).isSome = true →
      (info.lifecycle? kind).isSome = true) :
    ∃ walkedDecl, WalkedOnce p out c s t decl walkedDecl info.lifecycle? := by
  obtain ⟨head, walked, hbody, hp, rfl⟩ := program_eq_eachStmt hl hrun
  have hmem : .entityDecl decl ∈ rootStatements p := by
    unfold rootStatements
    split
    · simpa using hdecl
    · exact hdecl
  obtain ⟨before, rest, hsplit⟩ := List.append_of_mem hmem
  rw [hsplit] at hbody
  obtain ⟨first, walkedStmt, others, u, v, hlu, hsteps, hfirst, hstmt, hothers, rfl⟩ :=
    eachStmt_walks_once hl hbody
  obtain ⟨own, hown', hkept⟩ := Steps.lifecycles_eq hl hsteps hown
  have hentry := hkept decl.name.name
  rw [hinfo, Option.map_some, Option.map_eq_some_iff] at hentry
  obtain ⟨entity, hentity, hsame⟩ := hentry
  have hlifecycle := EntityInfo.lifecycle?_of_lifecycles_eq hsame
  have heq : stmt (.entityDecl decl) c u = (Stmt.entityDecl <$> walkEntity entity decl) c u :=
    stmt_entityDecl_eq hlu hown' hentity ((congrArg Prod.fst hsame).trans hspan)
      (by rwa [hlifecycle])
  rw [heq, map_eq_pure_bind] at hstmt
  obtain ⟨walkedDecl, v', hwalk, hpure⟩ := bind_eq_ok hstmt
  cases hpure
  exact ⟨walkedDecl, head, before, rest, first, others, u, v, own, entity, hsplit, hp, hfirst, hown',
    hentity, hlifecycle, heq, hwalk, hothers, by simp⟩

end Check

/-! ## Builds -/

/-- What is reported about how often an entity declares lifecycle functions: every function but the
first of its kind, and a spawn or destroy function that is missing. -/
structure EntityDecl.Counted (decl : EntityDecl) (alerts : Diagnostics) : Prop where
  all : alerts.alerts.filter (·.kind.countsIn decl.name.name) = decl.countAlerts
  repeated : alerts.alerts.countP (·.kind.repeatsIn decl.name.name) =
    (LifecycleKind.all.map fun kind => decl.functions.countP (·.kind == kind) - 1).sum
  missing : ∀ kind, kind = .spawn ∨ kind = .destroy →
    ((∃ a ∈ alerts.alerts, a.kind = .missingEntityFunction decl.name.name kind.name) ↔
      ∀ function ∈ decl.functions, function.kind ≠ kind)

theorem EntityDecl.counted_of_filter_eq {decl : EntityDecl} {alerts : Diagnostics}
    (h : alerts.alerts.filter (·.kind.countsIn decl.name.name) = decl.countAlerts) :
    decl.Counted alerts := by
  refine ⟨h, ?_, fun kind hkind => ?_⟩
  · rw [← decl.countP_repeatsIn, ← h, List.countP_filter]
    refine List.countP_congr fun a _ => ?_
    simpa using AlertKind.countsIn_of_repeatsIn
  · rw [← decl.missing_iff hkind, ← h]
    refine exists_congr fun a => ?_
    rw [List.mem_filter]
    refine ⟨fun ⟨ha, heq⟩ => ⟨⟨ha, ?_⟩, heq⟩, fun ⟨⟨ha, _⟩, heq⟩ => ⟨ha, heq⟩⟩
    rw [heq]
    exact beq_self_eq_true _

/-- An `env` declaration declares no lifecycle function. -/
theorem counts_header (s : Session) (path : String) (p : Program) :
    (s.header path p).2.2.counts = [] := by
  unfold Session.header
  split
  · cases EnvKind.ofName? _ <;> cases s.registry.lookup? _ <;> rfl
  · rfl

theorem Diagnostics.filter_counts (d : Diagnostics) (name : String) :
    d.counts.filter (·.kind.countsIn name) = d.alerts.filter (·.kind.countsIn name) := by
  rw [counts, List.filter_filter]
  refine List.filter_congr fun a _ => ?_
  cases hcounts : a.kind.countsIn name with
  | true => simp [AlertKind.isLifecycleCount_of_countsIn hcounts]
  | false => rfl

/-- Every entity of a build that has its name keeps its contract. Its registered lifecycle functions are
the first of their kinds, and the ones that are too many or too few are reported. It is walked once:
there every lifecycle function has one turn, with the registered signature only if it is the first of its
kind, and after the first spawn function, if there is one, it is checked that the fields are assigned. -/
theorem analyze_keeps_entity_contract {config : Config} {files : List (String × Program)}
    {out : BuildOutput} (h : analyze config files = .ok out) {i : Nat} {path : String} {p : Program}
    (hfile : files[i]? = some (path, p)) (hidents : p.typeIdents.Nodup) {decl : EntityDecl}
    (hdecl : .entityDecl decl ∈ p) (howns : p.owns decl.name = true) :
    ∃ walked c s t, ∃ run : Registration p c s, ∃ env info walkedDecl alerts,
      FinishedWalk config (.user i) p walked c s t ∧
      out.programs[i]? = some walked ∧ out.registry.envs[i]? = some env ∧
      out.alerts[i]? = some alerts ∧
      env.entities.get? decl.name.name = some info ∧
      RegistersFirsts p c run.resolved decl info.lifecycle? ∧
      decl.Counted alerts ∧
      WalkedOnce p walked c run.final t decl walkedDecl info.lifecycle? ∧
      (decl.turns.map Prod.fst).Perm decl.functions ∧
      ∀ function, (function, true) ∈ decl.turns →
        LifecycleDecl.first? decl.functions function.kind = some function := by
  obtain ⟨-, -, -, hwalked⟩ := finished_of_analyze h
  obtain ⟨walked, c, s, t, env, hwalk, hownt, henv, hprogram, halerts⟩ := hwalked i path p hfile
  obtain ⟨counts, u, hdeclare, hcheck⟩ := bind_eq_ok hwalk.run
  obtain ⟨run, -, rfl⟩ := Registration.of_run hdeclare
  obtain ⟨new, hnew, hown⟩ := hwalk.isNew
  have hfresh : Environment.IsFresh { new with state := .walking } := by
    rw [Environment.IsFresh, hnew]
    rfl
  -- What the registration leaves stays until the walk ends.
  obtain ⟨e, info, hown', hinfo, hspan, hregisters⟩ :=
    run.registers_firsts hwalk.live hown hfresh hidents hdecl howns
  obtain ⟨-, hl⟩ := run.steps_final hwalk.live
  obtain ⟨walkedDecl, honce⟩ := exists_walkedOnce hl hcheck hdecl hown' hinfo hspan
    fun kind hkind => (hregisters.isSome kind).trans hkind
  obtain ⟨hsteps, -⟩ := (runs_program hl p).apply hcheck
  obtain ⟨e', hownt', hkept⟩ := Steps.lifecycles_eq hl hsteps hown'
  obtain rfl := Option.some.inj (hownt'.symm.trans hownt)
  have hentry := hkept decl.name.name
  rw [hinfo, Option.map_some, Option.map_eq_some_iff] at hentry
  obtain ⟨info', hinfo', hsame⟩ := hentry
  have hlifecycle := EntityInfo.lifecycle?_of_lifecycles_eq hsame
  have hcounts : t.alerts.counts = p.flatMap p.countAlerts := by
    rw [hsteps.counts_eq rfl, run.counts_final hwalk.live hown hfresh hidents, hwalk.alerts]
    rfl
  have hcounted : decl.Counted
      (((Session.ofFiles config (files.take i)).header path p).2.2.append t.alerts) := by
    refine EntityDecl.counted_of_filter_eq ?_
    rw [← Diagnostics.filter_counts, Diagnostics.counts_append, counts_header, List.nil_append,
      hcounts]
    exact Program.filter_countAlerts hidents hdecl howns
  rw [← hlifecycle] at hregisters honce
  exact ⟨walked, c, s, t, run, _, info', walkedDecl, _, hwalk, hprogram, henv, halerts, hinfo',
    hregisters, hcounted, honce, decl.perm_turns, fun function => EntityDecl.first?_of_mem_turns⟩

/-- An entity with an update function before two spawn functions, and without a destroy function. -/
def shipDecl : EntityDecl :=
  let function (kind : LifecycleKind) (line : Nat) : LifecycleDecl :=
    ⟨kind, [], [], [], [], ⟨line, 0, 1⟩⟩
  ⟨⟨"Ship", .synthetic⟩, false, [], [],
    [function .update 1, function .spawn 2, function .spawn 3], .synthetic⟩

def shipProgram : Program :=
  [.level "Main", .entityDecl shipDecl]

/-- The second spawn function and the missing destroy function are reported, and the first spawn function
has the first turn. -/
theorem analyze_keeps_entity_contract_ship : shipProgram.typeIdents.Nodup ∧
    shipProgram.owns shipDecl.name = true ∧ .entityDecl shipDecl ∈ shipProgram ∧
    shipDecl.turns.map (fun turn => (turn.1.span.line, turn.2)) =
      [(2, true), (1, true), (3, false)] ∧
    ∃ out alerts, analyze {} [("main.hyb", shipProgram)] = .ok out ∧ out.alerts[0]? = some alerts ∧
      alerts.alerts.countP (·.kind.repeatsIn "Ship") = 1 ∧
      ∃ a ∈ alerts.alerts, a.kind = .missingEntityFunction "Ship" "destroy" := by
  have hidents : shipProgram.typeIdents.Nodup := by decide
  have howns : shipProgram.owns shipDecl.name = true := by decide
  have hdecl : .entityDecl shipDecl ∈ shipProgram := by simp [shipProgram]
  have hok : (analyze {} [("main.hyb", shipProgram)]).isOk = true := by decide +kernel
  refine ⟨hidents, howns, hdecl, by decide, ?_⟩
  cases hout : analyze {} [("main.hyb", shipProgram)] with
  | error e =>
    rw [hout] at hok
    cases hok
  | ok out =>
    obtain ⟨_, _, _, _, _, _, _, _, alerts, -, -, -, halerts, -, -, hcounted, -⟩ :=
      analyze_keeps_entity_contract hout (i := 0) rfl hidents hdecl howns
    refine ⟨out, alerts, rfl, halerts, hcounted.repeated, (hcounted.missing .destroy (.inr rfl)).2 ?_⟩
    decide

/-! ## Two entities of one name and position

The name is claimed once, and the entity that holds it is told by its position. So the later declaration
takes the place of the one that claimed the name.
-/

/-- An entity with the given lifecycle functions. -/
def twinDecl (functions : List LifecycleDecl) : EntityDecl :=
  ⟨⟨"Ship", .synthetic⟩, false, [], [], functions, .synthetic⟩

/-- A spawn and a destroy function. -/
def twinFunctions : List LifecycleDecl :=
  let fixed (name : String) : Param :=
    ⟨⟨name, .synthetic⟩, ⟨none, ⟨"fixed", .synthetic⟩, [], [], [], false, .synthetic⟩⟩
  [⟨.spawn, [], [fixed "x", fixed "y"], [], [], .synthetic⟩, ⟨.destroy, [], [], [], [], .synthetic⟩]

/-- An entity with both functions, and one of its name and position without any. -/
def twinProgram : Program :=
  [.level "Main", .entityDecl (twinDecl twinFunctions), .entityDecl (twinDecl [])]

/-- The spawn and the destroy function that an environment has registered for an entity. -/
def Environment.births? (env : Environment) (name : String) : Option (Bool × Bool) :=
  (env.entities.get? name).map fun info => (info.spawner.isSome, info.destroyer.isSome)

/-- The first entity owns its name and has both functions. None is registered, and both are reported as
missing. -/
theorem analyze_forgets_twin_functions :
    .entityDecl (twinDecl twinFunctions) ∈ twinProgram ∧
    twinProgram.owns (twinDecl twinFunctions).name = true ∧
    twinFunctions.map (·.kind) = [.spawn, .destroy] ∧
    ∃ out, analyze {} [("main.hyb", twinProgram)] = .ok out ∧
      out.registry.envs.map (·.births? "Ship") = [some (false, false)] ∧
      out.alerts.map (fun alerts => alerts.alerts.map (·.kind.message)) =
        [[(AlertKind.redeclaration "Ship" "entity").message,
          (AlertKind.missingEntityFunction "Ship" "spawn").message,
          (AlertKind.missingEntityFunction "Ship" "destroy").message]] := by
  have hbuild : (analyze {} [("main.hyb", twinProgram)]).toOption.any (fun out =>
      out.registry.envs.map (·.births? "Ship") == [some (false, false)] &&
        out.alerts.map (fun alerts => alerts.alerts.map (·.kind.message)) ==
          [[(AlertKind.redeclaration "Ship" "entity").message,
            (AlertKind.missingEntityFunction "Ship" "spawn").message,
            (AlertKind.missingEntityFunction "Ship" "destroy").message]]) = true := by
    decide +kernel
  obtain ⟨out, hout, hforgets⟩ := exists_eq_ok_of_any hbuild
  rw [Bool.and_eq_true, beq_iff_eq, beq_iff_eq] at hforgets
  exact ⟨List.mem_cons_of_mem _ (List.mem_cons_self ..), by decide, rfl, out, hout, hforgets⟩

end HybroidSema
