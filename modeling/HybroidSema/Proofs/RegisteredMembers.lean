import HybroidSema.Proofs.BuildWalks
import HybroidSema.Proofs.MemberTables
import HybroidSema.Proofs.UninitializedFields

/-!
# The members that are registered

The members of a class or entity are built up by additions, and later its fields take other values. They
are what a run of operations makes of no members, and so fields and methods have names of their own in
every environment, whatever a program declares. In the scope of the class or entity they are bound
without a clash.

* `Members.IsMade`: what operations make of no members.
* `made_classMembers` and `made_entityMembers`: by induction on the declarations, what is registered.
* `Environment.HasMade`: what holds of an environment, with `Environment.HasMade.edit` for one step.
* `Registration.hasMade` and `Steps.hasMade`: it holds after the registration, and stays.
* `members_stay_in_step`: the containers, and every class and entity of a build.
-/

namespace HybroidSema

namespace Members

variable {m m' : Members}

/-- The members are what operations make of none. -/
def IsMade (m : Members) : Prop := ∃ ops, run ops = m

namespace IsMade

theorem empty : IsMade {} := ⟨[], rfl⟩

theorem apply (h : m.IsMade) (op : MemberOp) : (m.apply op).1.IsMade := by
  obtain ⟨ops, rfl⟩ := h
  refine ⟨ops ++ [op], ?_⟩
  rw [run, List.foldl_append]
  rfl

theorem addField (h : m.IsMade) {field : Variable} (hadd : m.addField field = .ok m') : m'.IsMade := by
  have hnext := h.apply (.addField field)
  rwa [Members.apply, hadd] at hnext

theorem addMethod (h : m.IsMade) {name : String} {signature : Signature} {span : Span}
    (hadd : m.addMethod name signature span = .ok m') : m'.IsMade := by
  have hnext := h.apply (.addMethod name signature span)
  rwa [Members.apply, hadd] at hnext

theorem setField (h : m.IsMade) (name : String) (value : Value) : (m.setField name value).IsMade :=
  h.apply (.setField name value)

/-- The variables that such members become have names of their own. -/
theorem nodup_bound (h : m.IsMade) : (m.bound.map Prod.fst).Nodup := by
  obtain ⟨ops, rfl⟩ := h
  have hdistinct := (MemberTables.run_represents ops).distinct
  simpa [Distinct, Members.bound, Function.comp_def] using hdistinct

end IsMade

end Members

namespace Declare

open Check

/-! ## Registering members -/

theorem made_registerNames (decl : VariableDecl) (declared : Option Ty) (index : Nat)
    (names : List Ident) {m : Members} (h : m.IsMade) :
    Gives (registerNames decl declared index names m) Members.IsMade := by
  induction names generalizing index m with
  | nil => exact .pure h
  | cons name rest ih =>
    unfold registerNames
    dsimp only
    split
    · next m' hadd => exact ih (index + 1) (h.addField hadd)
    · exact .bind fun _ => ih (index + 1) h

theorem made_registerFields (decls : List VariableDecl) {m : Members} (h : m.IsMade) :
    Gives (registerFields decls m) Members.IsMade := by
  induction decls generalizing m with
  | nil => exact .pure h
  | cons decl rest ih =>
    exact .bind fun declared => .bind_of (made_registerNames decl declared 0 _ h) fun _ hm => ih hm

theorem made_registerMethods (decls : List FunctionDecl) {m : Members} (h : m.IsMade) :
    Gives (registerMethods decls m) (·.1.IsMade) := by
  induction decls generalizing m with
  | nil => exact .pure h
  | cons decl rest ih =>
    unfold registerMethods
    refine .bind fun signature => ?_
    split
    · next m' hadd => exact .bind_of (ih (h.addMethod hadd)) fun _ hm => .pure hm
    · exact .bind fun _ => ih h

theorem made_classMembers (decl : ClassDecl) : Gives (classMembers decl) (·.1.IsMade) :=
  .bind_of (made_registerFields decl.fields .empty) fun _ hfields =>
    .bind_of (made_registerMethods decl.methods hfields) fun _ hmethods => .bind fun _ => .pure hmethods

theorem made_entityMembers (decl : EntityDecl) : Gives (entityMembers decl) (·.1.IsMade) :=
  .bind_of (made_registerFields decl.fields .empty) fun _ hfields =>
    .bind_of (made_registerMethods decl.methods hfields) fun _ hmethods =>
      .bind fun _ => .bind fun _ => .bind fun _ => .pure hmethods

end Declare

/-! ## Environments -/

open Check Declare

/-- Every class and entity of the environment has members that operations make. -/
structure Environment.HasMade (e : Environment) : Prop where
  classes : ∀ name info, e.classes.get? name = some info → info.members.IsMade
  entities : ∀ name info, e.entities.get? name = some info → info.members.IsMade

/-- An entry of a table of which one entry was changed. -/
theorem Table.of_get?_modify {α : Type} {table : Table α} {P : α → Prop} {f : α → α} {key : String}
    (h : ∀ name a, table.get? name = some a → P a) (hf : ∀ a, P a → P (f a)) :
    ∀ name a, (table.modify key f).get? name = some a → P a := by
  intro name a ha
  rw [Table.get?_modify] at ha
  split at ha
  · obtain ⟨before, hbefore, rfl⟩ := Option.map_eq_some_iff.1 ha
    exact hf before (h name before hbefore)
  · exact h name a ha

namespace Environment.HasMade

variable {e e' : Environment} {c : Context} {s : State}

theorem of_tables_eq (h : e.HasMade) (htables : e'.tables = e.tables) : e'.HasMade := by
  simp only [Environment.tables, Prod.mk.injEq] at htables
  obtain ⟨hclasses, hentities, -⟩ := htables
  exact ⟨hclasses ▸ h.classes, hentities ▸ h.entities⟩

theorem fillClass (h : e.HasMade) {m : Members} (hm : m.IsMade) (name : String)
    (constructor : Option Signature) : (Declare.fillClass name m constructor e).HasMade :=
  ⟨Table.of_get?_modify h.classes fun _ _ => hm, h.entities⟩

theorem fillEntity (h : e.HasMade) {m : Members} (hm : m.IsMade) (name : String)
    (registered : List Lifecycle) : (Declare.fillEntity name m registered e).HasMade :=
  ⟨h.classes, Table.of_get?_modify h.entities fun _ _ => hm⟩

/-- Steps that neither claim names nor register members. -/
theorem edit (h : e.HasMade) {phase : Phase} {f : Environment → Environment} (hf : Edit c phase s f)
    (hclaiming : phase ≠ .claiming) (hdeclaring : phase ≠ .declaring) : (f e).HasMade := by
  cases hf with
  | require =>
    simp only [Environment.require]
    split <;> exact h.of_tables_eq rfl
  | addImport =>
    simp only [Environment.addImport]
    split <;> exact h.of_tables_eq rfl
  | setField kind container field value =>
    cases kind with
    | classDecl =>
      exact ⟨Table.of_get?_modify h.classes fun _ hinfo => hinfo.setField field value, h.entities⟩
    | entityDecl =>
      exact ⟨h.classes, Table.of_get?_modify h.entities fun _ hinfo => hinfo.setField field value⟩
  | claimClass _ _ hphase | claimEntity _ _ hphase | claimEnum _ _ hphase
  | claimAlias _ _ hphase => exact absurd hphase hclaiming
  | fillClass _ _ hphase | fillEntity _ _ hphase => exact absurd hphase hdeclaring
  | fillAlias => exact ⟨h.classes, h.entities⟩
  | scopes => exact h.of_tables_eq rfl

end Environment.HasMade

/-- A name is claimed without members. -/
theorem Declare.Claimed.hasMade {id : EnvId} {p : Program} {e e' : Environment}
    (h : Claimed id p e e') : e'.HasMade where
  classes name info hinfo := by
    rw [h.classes, Option.bind_eq_some_iff] at hinfo
    obtain ⟨stmt, -, hstmt⟩ := hinfo
    cases stmt <;> cases hstmt
    exact .empty
  entities name info hinfo := by
    rw [h.entities, Option.bind_eq_some_iff] at hinfo
    obtain ⟨stmt, -, hstmt⟩ := hinfo
    cases stmt <;> cases hstmt
    exact .empty

namespace Check

variable {c : Context} {s t : State} {o : ScopeStack} {e : Environment}

/-- Steps that neither claim names nor register members keep what holds of members. -/
theorem Steps.hasMade {phase : Phase} (hl : Live c s o) (hsteps : Steps c phase s t)
    (hclaiming : phase ≠ .claiming) (hdeclaring : phase ≠ .declaring) (hown : s.own? c = some e)
    (h : e.HasMade) : ∃ e', t.own? c = some e' ∧ e'.HasMade :=
  Steps.own_keeps hl hsteps (fun _ _ _ hf _ h => h.edit hf hclaiming hdeclaring) hown h

end Check

namespace Declare

variable {c : Context} {s : State} {o : ScopeStack} {p : Program} {e : Environment}

/-- What is registered for a declaration is filled in at the end. -/
theorem runs_fill {t : State} {f : Environment → Environment} (hl : Live c (t.modifyOwn c f) o)
    (htables : (t.own? c).map Environment.tables = some e.tables) (h : e.HasMade)
    (hf : ∀ e : Environment, e.HasMade → (f e).HasMade) :
    Runs (modifyEnvironment f) c t fun _ u => Live c u o ∧ ∃ e', u.own? c = some e' ∧ e'.HasMade := by
  obtain ⟨own, hown, htables⟩ := Option.map_eq_some_iff.1 htables
  refine ⟨⟨⟩, _, modifyEnvironment_eq hown f, hl, f own, ?_, hf own (h.of_tables_eq htables)⟩
  rw [own?_modifyOwn, hown]
  rfl

/-- One more declaration registers its members. -/
theorem runs_registerMembers_made (hl : Live c s o) (hown : s.own? c = some e) (h : e.HasMade)
    (stmt : Stmt) : Runs (registerMembers stmt) c s fun _ t =>
      Live c t o ∧ ∃ e', t.own? c = some e' ∧ e'.HasMade := by
  cases stmt with
  | classDecl decl =>
    rw [registerMembers, registerClass_eq, Runs, bind_apply_ok (ownsName_eq hown decl.name)]
    split
    · obtain ⟨⟨m, methods, constructor⟩, t, hmembers, hlt, htables⟩ :=
        keepsTables_classMembers decl c s o hl
      have hm : m.IsMade := made_classMembers decl c s _ t hmembers
      rw [bind_apply_ok hmembers]
      refine Runs.bind (runs_fill (hlt.modifyOwn fun _ _ ho => ⟨rfl, ho⟩) (htables.trans ?_) h
        fun _ he => he.fillClass hm decl.name.name constructor) fun _ u hu => .pure hu
      rw [hown, Option.map_some]
    · exact Runs.pure ⟨hl, e, hown, h⟩
  | entityDecl decl =>
    rw [registerMembers, registerEntity_eq, Runs, bind_apply_ok (ownsName_eq hown decl.name)]
    split
    · obtain ⟨⟨m, methods, registered⟩, t, hmembers, hlt, htables⟩ :=
        keepsTables_entityMembers decl c s o hl
      have hm : m.IsMade := made_entityMembers decl c s _ t hmembers
      rw [bind_apply_ok hmembers]
      refine Runs.bind (runs_fill (hlt.modifyOwn fun _ _ ho => ⟨rfl, ho⟩) (htables.trans ?_) h
        fun _ he => he.fillEntity hm decl.name.name registered) fun _ u hu => .pure hu
      rw [hown, Option.map_some]
    · exact Runs.pure ⟨hl, e, hown, h⟩
  | _ => exact .pure ⟨hl, e, hown, h⟩

/-- The registration of a program leaves classes and entities whose members operations make. -/
theorem Registration.hasMade (run : Registration p c s) (hl : Live c s o)
    (hown : s.own? c = some e) (hfresh : e.IsFresh) :
    ∃ e', run.final.own? c = some e' ∧ e'.HasMade := by
  obtain ⟨-, _, _, -, -, hown₂, hclaimed, -⟩ := run.own_claimed hl hown hfresh
  obtain ⟨hsteps₃, hl₃⟩ := run.steps_resolved hl
  obtain ⟨-, hl₂⟩ := run.steps_claimed hl
  have hresolved := Steps.hasMade hl₂ hsteps₃ nofun nofun hown₂ hclaimed.hasMade
  have hfilled : Runs (countEach registerMembers p) c run.resolved fun _ t =>
      Live c t o ∧ ∃ e', t.own? c = some e' ∧ e'.HasMade :=
    runs_countEach (I := fun _ _ t => Live c t o ∧ ∃ e', t.own? c = some e' ∧ e'.HasMade)
      (fun _ stmt _ _ _ _ ⟨hlt, _, hownt, ht⟩ => runs_registerMembers_made hlt hownt ht stmt)
      ⟨hl₃, hresolved⟩
  obtain ⟨hl₄, e₄, hown₄, hmade⟩ := hfilled.apply run.fills
  obtain ⟨e', hown', htables⟩ := run.tables_final hl₄ hown₄
  exact ⟨e', hown', hmade.of_tables_eq htables⟩

end Declare

/-! ## Walks of a build -/

namespace BuildWalk

variable {config : Config} {files : List (String × Program)} {p : Program} {c : Context}
  {s s₀ u : State}

/-- At the beginning nothing was registered. -/
theorem own_fresh (h : BuildWalk config files p c s) : ∃ e, s.own? c = some e ∧ e.IsFresh := by
  obtain ⟨m, index, depth, env, hrun, hget, hwaits, -, rfl, rfl⟩ := h.begins
  have hget' : m.session.registry.get? (.user index) = some env := by simpa using hget
  have hnew := (hrun.steady (Session.loaded_ofFiles config files).steady).waitsNew _ env hget' hwaits
  refine ⟨{ env with state := .walking }, ?_, ?_⟩
  · exact (m.session.registry.get?_modify_self (.user index) _).trans (by rw [hget']; rfl)
  · rw [Environment.IsFresh, hnew]
    rfl

/-- Wherever a walk of a build comes to, the members of classes and entities are what operations make
of none. -/
theorem hasMade (h : BuildWalk config files p c s) (hchecks : Checks p c s s₀) {task : Task}
    {regions : List Region} (hvisits : Visits c (programTask p) s₀ regions task u) :
    ∃ e, u.own? c = some e ∧ e.HasMade := by
  obtain ⟨counts, hdeclare⟩ := hchecks
  obtain ⟨run, -, rfl⟩ := Registration.of_run hdeclare
  obtain ⟨new, hnew, hfresh⟩ := h.own_fresh
  obtain ⟨e, hown, hmade⟩ := run.hasMade h.live_linked.1 hnew hfresh
  obtain ⟨-, hl⟩ := h.route_checks ⟨counts, hdeclare⟩
  exact Steps.hasMade hl (hvisits.steps hl .start (placed_programTask p)) nofun nofun hown hmade

end BuildWalk

/-- Opening the scope of a class or entity with the members binds every field and every method in it,
and reports nothing. -/
def BindsAll (c : Context) (s : State) (m : Members) : Prop :=
  ∀ tag : ScopeTag, tag.container?.isSome →
    ∃ t, (modifyScopes (·.push tag { selfRef := true }) >>= fun _ => bindMembers m) c s = .ok (⟨⟩, t) ∧
      t.members c = m.bound ∧ t.alerts = s.alerts

/-- The four containers for the members of a class or entity are in step after any operations: names are
distinct, each field has its position, and methods have signatures and positions in the source under the
same names. An addition under a taken name is refused with the position of the member that has it, and
changes nothing. The same operations on members have the same answers. And wherever a walk of a build
comes to, such operations have made the members of every class and entity of its environment, and these
are bound in its scope without a clash. -/
theorem members_stay_in_step {config : Config} {files : List (String × Program)} {p : Program}
    {c : Context} {s s₀ : State} (h : BuildWalk config files p c s)
    (hchecks : BuildWalk.Checks p c s s₀) :
    (∀ ops, InStep (MemberTables.run ops) ∧ (∀ op, Answers (MemberTables.run ops) op) ∧
      Represents (MemberTables.run ops) (Members.run ops) ∧
      ∀ op, ((Members.run ops).apply op).2 = ((MemberTables.run ops).apply op).2) ∧
    ∀ regions task u, Visits c (programTask p) s₀ regions task u → ∃ e, u.own? c = some e ∧
      (∀ name info, e.classes.get? name = some info →
        (∃ ops, Members.run ops = info.members) ∧ BindsAll c u info.members) ∧
      ∀ name info, e.entities.get? name = some info →
        (∃ ops, Members.run ops = info.members) ∧ BindsAll c u info.members := by
  refine ⟨fun ops => ?_, fun regions task u hvisits => ?_⟩
  · have hrepresents := MemberTables.run_represents ops
    exact ⟨hrepresents.inStep, hrepresents.inStep.answers, hrepresents,
      fun op => (hrepresents.apply op).2.symm⟩
  · obtain ⟨e, hown, hmade⟩ := h.hasMade hchecks hvisits
    obtain ⟨⟨o, hl⟩, -, -⟩ := h.visits hchecks hvisits
    have hbinds {m : Members} (hm : m.IsMade) : BindsAll c u m := fun tag htag => by
      obtain ⟨⟨⟩, t, hrun, hinner, halerts⟩ := runs_enterContainer htag hl hm.nodup_bound
      exact ⟨t, hrun, hinner.members, halerts⟩
    exact ⟨e, hown, fun name info hinfo => ⟨hmade.classes name info hinfo,
        hbinds (hmade.classes name info hinfo)⟩,
      fun name info hinfo => ⟨hmade.entities name info hinfo,
        hbinds (hmade.entities name info hinfo)⟩⟩

/-- A class with a field, a method of the same name, and another method. -/
def gateDecl : ClassDecl where
  name := ⟨"Gate", .synthetic⟩
  isPub := false
  fields := [⟨[⟨"open", ⟨1, 0, 4⟩⟩], some ⟨none, ⟨"bool", .synthetic⟩, [], [], [], false, .synthetic⟩, [],
    false, false, .synthetic⟩]
  methods := [⟨⟨"open", ⟨2, 0, 4⟩⟩, [], [], [], [], false, .synthetic⟩,
    ⟨⟨"shut", ⟨3, 0, 4⟩⟩, [], [], [], [], false, .synthetic⟩]
  constructor := none
  span := .synthetic

def gateProgram : Program :=
  [.level "Main", .classDecl gateDecl]

/-- The field as it is registered. -/
def gateField : Variable where
  name := "open"
  value := .bool
  span := ⟨1, 0, 4⟩
  isInit := false

/-- The method that has the name of the field is refused, and the class is registered with members that
are bound without a clash. -/
theorem members_stay_in_step_gate :
    ((MemberTables.run [.addField gateField]).apply (.addMethod "open" {} ⟨2, 0, 4⟩)).2 =
      some ⟨1, 0, 4⟩ ∧
    ∃ c s s₀ e info, BuildWalk {} [("main.hyb", gateProgram)] gateProgram c s ∧
      BuildWalk.Checks gateProgram c s s₀ ∧ s₀.own? c = some e ∧
      e.classes.get? "Gate" = some info ∧ BindsAll c s₀ info.members ∧
      ∃ v ∈ info.members.fields, v.name = "open" := by
  have hok : (analyze {} [("main.hyb", gateProgram)]).isOk = true := by decide +kernel
  cases hout : analyze {} [("main.hyb", gateProgram)] with
  | error e =>
    rw [hout] at hok
    cases hok
  | ok out =>
    obtain ⟨c, s, s₀, -, -, hwalk, -, hchecks, -, -⟩ := exists_buildWalk hout (i := 0) rfl
    obtain ⟨hops, hwalks⟩ := members_stay_in_step hwalk hchecks
    obtain ⟨-, hanswers, -, -⟩ := hops [.addField gateField]
    refine ⟨((hanswers _).refuses "open" ⟨2, 0, 4⟩ ⟨1, 0, 4⟩ rfl).2
      (.inl ⟨_, List.mem_singleton_self _, rfl, rfl⟩), c, s, s₀, ?_⟩
    -- What is registered when the first statement is checked.
    obtain ⟨e, hown, hclasses, -⟩ := hwalks [] _ s₀ (.here _ _)
    obtain ⟨new, hnew, hfresh⟩ := hwalk.own_fresh
    obtain ⟨counts, hdeclare⟩ := id hchecks
    obtain ⟨run, -, rfl⟩ := Registration.of_run hdeclare
    obtain ⟨e', hown', hholds⟩ := run.holdsFields hwalk.live_linked.1 hnew hfresh (by decide)
    obtain rfl := Option.some.inj (hown.symm.trans hown')
    obtain ⟨info, hinfo, hregisters⟩ := hholds.classes gateDecl (by simp [gateProgram]) (by decide)
    let field : Ident := ⟨"open", ⟨1, 0, 4⟩⟩
    have hdeclared : (declaredFields gateDecl.fields).find? (·.1.name == field.name) =
        some (field, false) := by decide
    obtain ⟨v, hv, -, hname⟩ := hregisters.members.find?_eq_some_iff.1 hdeclared
    exact ⟨e, info, hwalk, hchecks, hown, hinfo, (hclasses _ info hinfo).2, v, hv,
      congrArg Ident.name hname⟩

end HybroidSema
