import HybroidSema.Proofs.Registered
import Mathlib.Data.Finset.Card

/-!
# What the first declaration of a name claims

In a fresh environment the tables of declared types hold exactly what the first declarations of a
program claim. A later declaration of a name is reported with the position of the first one, and that
is all that happens to it.

* `Environment.IsFresh`: nothing was registered yet.
* `Program.first?`, `Stmt.classInfo?` and its siblings: which entries the tables get.
* `runs_countEach`: a pass over a program, by what holds after its first statements.
* `claimType_eq_taken` and `claimType_of_free`: one statement.
* `Claimed`, `claimType_eq` and `runs_claims`: a program.
* `Registration`: the steps of a registration, with the states between them.
-/

namespace HybroidSema

/-- The environment is as it was registered, but for how far it is walked. -/
def Environment.IsFresh (e : Environment) : Prop := IsNew { e with state := .notWalked }

/-- A fresh environment declares nothing. -/
theorem Environment.IsFresh.declares_nil {e : Environment} (h : e.IsFresh) : e.Declares [] := by
  have hnil : Declares { e with state := .notWalked } [] := IsNew.declares_nil h
  exact hnil

/-! ## Alerts that are added -/

namespace Check

variable {c : Context} {s : State}

theorem State.modifyOwn_addAlerts (s : State) (added : List Alert) (f : Environment → Environment) :
    (s.addAlerts added).modifyOwn c f = (s.modifyOwn c f).addAlerts added := rfl

/-- What a change makes of the own environment is all that it does. -/
theorem State.modifyOwn_eq_const {env : Environment} (hown : s.own? c = some env)
    (f : Environment → Environment) : s.modifyOwn c f = s.modifyOwn c fun _ => f env := by
  have hcomp := modifyOwn_modifyOwn c s (fun _ => env) f
  rwa [modifyOwn_eq_self hown rfl] at hcomp

/-- The own environment is replaced twice, and alerts are added each time. -/
theorem State.modifyOwn_addAlerts_twice (s : State) (first second : Environment)
    (added more : List Alert) :
    (((s.modifyOwn c fun _ => first).addAlerts added).modifyOwn c fun _ => second).addAlerts more =
      (s.modifyOwn c fun _ => second).addAlerts (added ++ more) := by
  rw [modifyOwn_addAlerts, addAlerts_addAlerts, modifyOwn_modifyOwn]
  rfl

theorem State.own?_modifyOwn_addAlerts {env : Environment} (hown : s.own? c = some env)
    (second : Environment) (added : List Alert) :
    ((s.modifyOwn c fun _ => second).addAlerts added).own? c = some second := by
  rw [own?_addAlerts, own?_modifyOwn, hown]
  rfl

theorem ownId_eq : ownId c s = .ok (c.env, s) := rfl

theorem modifyEnvironment_eq {env : Environment} (hown : s.own? c = some env)
    (f : Environment → Environment) : modifyEnvironment f c s = .ok ((), s.modifyOwn c f) := by
  rw [show modifyEnvironment f = ownId >>= fun id => environment >>= fun _ =>
    modifyRegistry (·.modify id f) from rfl, bind_apply_ok ownId_eq,
    bind_apply_ok (environment_eq hown)]
  rfl

end Check

/-- Whether an alert reports a second declaration of a type name. -/
def AlertKind.isTypeRedeclaration : AlertKind → Bool
  | .redeclaration _ what => ["class", "entity", "enum", "alias"].contains what
  | _ => false

/-! ## Type declarations -/

/-- The names in a list, without the repeated ones, after the ones that are given. -/
def distinctNames : (names : List Ident) → (seen : List String) → List String
  | [], seen => seen
  | name :: rest, seen =>
    if seen.contains name.name then distinctNames rest seen
    else distinctNames rest (seen ++ [name.name])

namespace Stmt

/-- The word for a type declaration in a message. -/
def typeWord : Stmt → String
  | .classDecl _ => "class"
  | .entityDecl _ => "entity"
  | .enumDecl _ => "enum"
  | _ => "alias"

/-- The entry of a class whose members are not registered yet. -/
def classInfo? (id : EnvId) : Stmt → Option ClassInfo
  | .classDecl decl =>
    some { ty := ⟨id, decl.name.name⟩, span := decl.name.span, isPub := decl.isPub }
  | _ => none

/-- The entry of an entity whose members are not registered yet. -/
def entityInfo? (id : EnvId) : Stmt → Option EntityInfo
  | .entityDecl decl =>
    some { ty := ⟨id, decl.name.name⟩, span := decl.name.span, isPub := decl.isPub }
  | _ => none

/-- The entry of an enum. -/
def enumInfo? (id : EnvId) : Stmt → Option EnumInfo
  | .enumDecl decl =>
    some ⟨⟨id, decl.name.name⟩, decl.name.span, decl.isPub, distinctNames decl.fields []⟩
  | _ => none

/-- The entry of an alias that is not resolved yet. -/
def aliasInfo? : Stmt → Option AliasInfo
  | .aliasDecl decl => some ⟨.invalid, decl.name.span, decl.isPub⟩
  | _ => none

/-- Whether a statement declares a type of the name. -/
def declares (stmt : Stmt) (name : String) : Bool := stmt.typeIdent?.any (·.name == name)

end Stmt

/-- The environment with the type that a statement declares. -/
def Environment.addType (id : EnvId) (e : Environment) : Stmt → Environment
  | .classDecl decl =>
    let info : ClassInfo := { ty := ⟨id, decl.name.name⟩, span := decl.name.span, isPub := decl.isPub }
    { e with classes := e.classes.insert decl.name.name info }
  | .entityDecl decl =>
    let info : EntityInfo := { ty := ⟨id, decl.name.name⟩, span := decl.name.span, isPub := decl.isPub }
    { e with entities := e.entities.insert decl.name.name info }
  | .enumDecl decl =>
    let fields := distinctNames decl.fields []
    let info : EnumInfo := ⟨⟨id, decl.name.name⟩, decl.name.span, decl.isPub, fields⟩
    { e with enums := e.enums.insert decl.name.name info }
  | .aliasDecl decl =>
    let info : AliasInfo := ⟨.invalid, decl.name.span, decl.isPub⟩
    { e with aliases := e.aliases.insert decl.name.name info }
  | _ => e

namespace Program

/-- The first declaration of a type name. -/
def first? (p : Program) (name : String) : Option Stmt := p.find? (·.declares name)

/-- The type names of a program. -/
def typeNames (p : Program) : List String := (p.filterMap Stmt.typeIdent?).map (·.name)

variable {p : Program} {stmt : Stmt} {id : Ident} {name : String}

theorem first?_append_singleton (p : Program) (stmt : Stmt) (name : String) :
    first? (p ++ [stmt]) name =
      (p.first? name).or (if stmt.declares name then some stmt else none) := by
  rw [first?, List.find?_append, List.find?_singleton]
  rfl

/-- The first declaration of a name is among the statements before, or it is the last one. -/
theorem first?_append_cases {first : Stmt} (h : first? (p ++ [stmt]) name = some first) :
    p.first? name = some first ∨
      p.first? name = none ∧ first = stmt ∧ stmt.declares name = true := by
  rw [first?_append_singleton] at h
  cases hbefore : p.first? name with
  | some earlier =>
    rw [hbefore] at h
    exact .inl h
  | none =>
    rw [hbefore, Option.none_or] at h
    obtain ⟨hdeclares, hstmt⟩ := Option.ite_none_right_eq_some.1 h
    exact .inr ⟨rfl, (Option.some.inj hstmt).symm, hdeclares⟩

/-- A statement that declares a type whose name is free. -/
theorem first?_append_free (hid : stmt.typeIdent? = some id) (hfree : p.first? id.name = none)
    (name : String) :
    first? (p ++ [stmt]) name = if name = id.name then some stmt else p.first? name := by
  rw [first?_append_singleton]
  by_cases heq : name = id.name
  · subst heq
    simp [hfree, Stmt.declares, hid]
  · simp [heq, Ne.symm heq, Stmt.declares, hid]

/-- Whether a statement after a program declares a type of a new name. -/
def claims (p : Program) (stmt : Stmt) : Bool :=
  stmt.typeIdent?.any fun id => (p.first? id.name).isNone

/-- The alert about a statement after a program, if its name is taken there. -/
def redeclaration? (p : Program) (stmt : Stmt) : Option Alert := do
  let id ← stmt.typeIdent?
  let first ← p.type? id.name
  return { kind := .redeclaration id.name stmt.typeWord, span := id.span, more := [first.span] }

/-- The position of the first declaration of a name. -/
theorem type?_eq_first? (p : Program) (name : String) :
    p.type? name = (p.first? name).bind Stmt.typeIdent? := by
  induction p with
  | nil => rfl
  | cons stmt rest ih =>
    unfold type? first? at ih ⊢
    cases hid : stmt.typeIdent? with
    | none => simp [hid, Stmt.declares, ih]
    | some id =>
      by_cases hname : id.name = name
      · simp [hid, Stmt.declares, hname]
      · simp [hid, Stmt.declares, hname, ih]

theorem owns_of_type? (h : p.type? id.name = some id) : p.owns id = true := by
  rw [owns, h, beq_self_eq_true]

/-- The first declaration of a name that a statement declares. -/
theorem first?_split {before rest : Program} (hp : p = before ++ stmt :: rest)
    (hid : stmt.typeIdent? = some id) :
    p.first? id.name = (before.first? id.name).or (some stmt) := by
  rw [hp, first?, List.find?_append, ← first?, List.find?_cons_of_pos (by simp [Stmt.declares, hid])]

theorem declares_of_first? (h : p.first? name = some stmt) :
    stmt ∈ p ∧ stmt.declares name = true := by
  unfold first? at h
  exact ⟨List.mem_of_find?_eq_some h, by simpa using List.find?_some h⟩

theorem first?_eq_none_iff : p.first? name = none ↔ name ∉ p.typeNames := by
  rw [first?, List.find?_eq_none]
  constructor
  · intro h hmem
    obtain ⟨id, hid, rfl⟩ := List.mem_map.1 hmem
    obtain ⟨stmt, hstmt, hid⟩ := List.mem_filterMap.1 hid
    exact h stmt hstmt (by simp [Stmt.declares, hid])
  · intro h stmt hstmt hdeclares
    obtain ⟨id, hid, hname⟩ := (Option.any_eq_true _ _).1 hdeclares
    exact h (List.mem_map.2 ⟨id, List.mem_filterMap.2 ⟨stmt, hstmt, hid⟩, by simpa using hname⟩)

/-- The only declaration of a name is the first one. -/
theorem first?_of_count (hstmt : stmt ∈ p) (hid : stmt.typeIdent? = some id)
    (hone : p.typeNames.count id.name = 1) : p.first? id.name = some stmt := by
  obtain ⟨before, rest, hp⟩ := List.append_of_mem hstmt
  have hfree : id.name ∉ typeNames before := by
    intro hmem
    have hpos := List.count_pos_iff.2 hmem
    rw [hp] at hone
    simp only [typeNames, List.filterMap_append, List.filterMap_cons_some hid, List.map_append,
      List.map_cons, List.count_append, List.count_cons_self] at hone hpos
    omega
  rw [first?_split hp hid, first?_eq_none_iff.2 hfree, Option.none_or]

end Program

namespace Declare

open Check

variable {c : Context} {s s' : State} {o : ScopeStack}

/-! ## A pass over a program -/

/-- A pass over a program, by what holds after its first statements and the number that they count. -/
theorem runs_countEach {step : Stmt → Check Nat} {p : Program} {I : Program → Nat → State → Prop}
    (hstep : ∀ before stmt rest k t, p = before ++ stmt :: rest → I before k t →
      Runs (step stmt) c t fun n t' => I (before ++ [stmt]) (k + n) t')
    (h : I [] 0 s) : Runs (countEach step p) c s fun n s' => I p n s' := by
  have hrest (before rest : Program) (k : Nat) (t : State) (hp : p = before ++ rest)
      (ht : I before k t) : Runs (countEach step rest) c t fun n t' => I p (k + n) t' := by
    induction rest generalizing before k t with
    | nil =>
      rw [List.append_nil] at hp
      exact .pure (hp ▸ ht)
    | cons stmt rest ih =>
      refine (hstep before stmt rest k t hp ht).bind fun first u hu => ?_
      refine (ih (before ++ [stmt]) (k + first) u (by simp [hp]) hu).bind fun others v hv => ?_
      exact .pure (Nat.add_assoc k first others ▸ hv)
  exact (hrest [] p 0 s rfl h).mono fun n t ht => Nat.zero_add n ▸ ht

/-! ## Names that are distinct -/

theorem distinctFields_eq (fields : List Ident) (seen : List String) :
    ∃ added : List Alert, (∀ a ∈ added, a.kind.isTypeRedeclaration = false) ∧
      ∀ s, distinctFields fields seen c s = .ok (distinctNames fields seen, s.addAlerts added) := by
  induction fields generalizing seen with
  | nil => exact ⟨[], by simp, fun s => by rw [State.addAlerts_nil]; rfl⟩
  | cons field rest ih =>
    unfold distinctFields distinctNames
    split
    · obtain ⟨added, hadded, hrun⟩ := ih seen
      refine ⟨{ kind := .duplicateElement field.name, span := field.span } :: added,
        List.forall_mem_cons.2 ⟨rfl, hadded⟩, fun s => ?_⟩
      rw [bind_apply_ok (report_eq _ _), hrun, State.addAlerts_addAlerts]
      rfl
    · exact ih _

/-! ## One claim -/

/-- A later declaration of a name is reported, and changes nothing. -/
theorem claimType_eq_taken {stmt : Stmt} {id : Ident} {env : Environment} {first : Span}
    (hid : stmt.typeIdent? = some id) (hown : s.own? c = some env)
    (hfirst : env.declaredSpan? id.name = some first) :
    claimType stmt c s = .ok (0, s.addAlerts
      [{ kind := .redeclaration id.name stmt.typeWord, span := id.span, more := [first] }]) := by
  have hclaim (what : String) : claim id what c s = .ok (false, s.addAlerts
      [{ kind := .redeclaration id.name what, span := id.span, more := [first] }]) := by
    unfold claim
    rw [bind_apply_ok (environment_eq hown)]
    simp only [hfirst]
    rw [bind_apply_ok (alert_eq _)]
    rfl
  cases stmt <;> cases hid <;> exact bind_apply_ok (hclaim _)

/-- The first declaration of a name adds it, and reports no second one. -/
theorem claimType_of_free {stmt : Stmt} {id : Ident} {env : Environment}
    (hid : stmt.typeIdent? = some id) (hown : s.own? c = some env)
    (hfree : env.declaredSpan? id.name = none) :
    ∃ added : List Alert, (∀ a ∈ added, a.kind.isTypeRedeclaration = false) ∧
      claimType stmt c s =
        .ok (1, (s.modifyOwn c (·.addType c.env stmt)).addAlerts added) := by
  have hclaim (what : String) : claim id what c s = .ok (true, s) := by
    unfold claim
    rw [bind_apply_ok (environment_eq hown)]
    simp only [hfree]
    rfl
  have hadd {s : State} (hown : s.own? c = some env) (f : Environment → Environment) :
      (modifyEnvironment f >>= fun _ => pure 1) c s = .ok (1, s.modifyOwn c f) :=
    bind_apply_ok (modifyEnvironment_eq hown f)
  cases stmt with
  | classDecl decl | entityDecl decl =>
    cases hid
    refine ⟨[], by simp, (bind_apply_ok (hclaim _)).trans ?_⟩
    simp only [if_true, State.addAlerts_nil]
    exact (bind_apply_ok rfl).trans (hadd hown _)
  | aliasDecl decl =>
    cases hid
    refine ⟨[], by simp, (bind_apply_ok (hclaim _)).trans ?_⟩
    simp only [if_true, State.addAlerts_nil]
    exact hadd hown _
  | enumDecl decl =>
    cases hid
    obtain ⟨added, hadded, hfields⟩ := distinctFields_eq (c := c) decl.fields []
    have hrest (s : State) (hown : s.own? c = some env) : (do
        let fields ← distinctFields decl.fields []
        let ref ← ownRef decl.name
        let info : EnumInfo := ⟨ref, decl.name.span, decl.isPub, fields⟩
        modifyEnvironment fun env => { env with enums := env.enums.insert decl.name.name info }
        return 1) c s = .ok (1, (s.modifyOwn c (·.addType c.env (.enumDecl decl))).addAlerts added) :=
      (bind_apply_ok (hfields s)).trans <| (bind_apply_ok rfl).trans <|
        hadd (s := s.addAlerts added) hown _
    by_cases hempty : decl.fields.isEmpty = true
    · refine ⟨{ kind := .emptyEnum decl.name.name, span := decl.name.span } :: added,
        List.forall_mem_cons.2 ⟨rfl, hadded⟩, (bind_apply_ok (hclaim _)).trans ?_⟩
      simp only [hempty, if_true]
      refine (bind_apply_ok (report_eq _ _)).trans ((hrest (s.addAlerts _) hown).trans ?_)
      rw [State.modifyOwn_addAlerts, State.addAlerts_addAlerts]
      rfl
    · refine ⟨added, hadded, (bind_apply_ok (hclaim _)).trans ?_⟩
      simp only [hempty, if_true]
      exact hrest s hown
  | _ => cases hid

/-! ## The claims of a program -/

/-- The tables hold what the first declarations of the program claim, and all else is as it was. -/
structure Claimed (id : EnvId) (p : Program) (e e' : Environment) : Prop where
  classes : ∀ name, e'.classes.get? name = (p.first? name).bind (·.classInfo? id)
  entities : ∀ name, e'.entities.get? name = (p.first? name).bind (·.entityInfo? id)
  enums : ∀ name, e'.enums.get? name = (p.first? name).bind (·.enumInfo? id)
  aliases : ∀ name, e'.aliases.get? name = (p.first? name).bind Stmt.aliasInfo?
  kept : e' = { e with
    classes := e'.classes, entities := e'.entities, enums := e'.enums, aliases := e'.aliases }

variable {p : Program} {e e' : Environment} {id : EnvId} {stmt : Stmt} {name : String}

/-- Where nothing is declared, nothing is claimed. -/
theorem claimed_nil (h : e.Declares []) : Claimed id [] e e := by
  have hnone (kind : TypeKind) (name : String) : e.hasType kind name = false := by
    rw [Bool.eq_false_iff]
    intro htype
    cases (h kind name).1 htype
  exact ⟨fun name => Option.not_isSome_iff_eq_none.1 (Bool.eq_false_iff.1 (hnone .classDecl name)),
    fun name => Option.not_isSome_iff_eq_none.1 (Bool.eq_false_iff.1 (hnone .entityDecl name)),
    fun name => Option.not_isSome_iff_eq_none.1 (Bool.eq_false_iff.1 (hnone .enumDecl name)),
    fun name => Option.not_isSome_iff_eq_none.1 (Bool.eq_false_iff.1 (hnone .aliasDecl name)), rfl⟩

/-- A name is declared where its first declaration stands. -/
theorem Claimed.declaredSpan? (h : Claimed id p e e') (name : String) :
    e'.declaredSpan? name = (p.type? name).map (·.span) := by
  rw [Environment.declaredSpan?, h.classes, h.entities, h.enums, h.aliases,
    Program.type?_eq_first?]
  cases p.first? name with
  | none => rfl
  | some stmt => cases stmt <;> rfl

/-- A statement that declares no type, or one whose name is taken. -/
theorem Claimed.skip (h : Claimed id p e e')
    (hskip : ∀ name, stmt.declares name = true → p.first? name ≠ none) :
    Claimed id (p ++ [stmt]) e e' := by
  have hfirst (name : String) : Program.first? (p ++ [stmt]) name = p.first? name := by
    rw [Program.first?_append_singleton]
    cases hp : p.first? name with
    | some first => rfl
    | none =>
      have hnot : stmt.declares name = false := by
        by_contra hdeclares
        exact hskip name (by simpa using hdeclares) hp
      simp [hnot]
  exact ⟨fun name => hfirst name ▸ h.classes name, fun name => hfirst name ▸ h.entities name,
    fun name => hfirst name ▸ h.enums name, fun name => hfirst name ▸ h.aliases name, h.kept⟩

/-- A statement that declares a type whose name is free. -/
theorem Claimed.add (h : Claimed id p e e') {ident : Ident} (hid : stmt.typeIdent? = some ident)
    (hfree : p.first? ident.name = none) :
    Claimed id (p ++ [stmt]) e (e'.addType id stmt) := by
  have hfirst := Program.first?_append_free hid hfree
  have hbind {α : Type} (info? : Stmt → Option α) (name : String) :
      (Program.first? (p ++ [stmt]) name).bind info? =
        if name = ident.name then info? stmt else (p.first? name).bind info? := by
    rw [hfirst]
    split <;> rfl
  have hnone : e'.classes.get? ident.name = none ∧ e'.entities.get? ident.name = none ∧
      e'.enums.get? ident.name = none ∧ e'.aliases.get? ident.name = none := by
    rw [h.classes, h.entities, h.enums, h.aliases, hfree]
    exact ⟨rfl, rfl, rfl, rfl⟩
  refine ⟨fun name => ?_, fun name => ?_, fun name => ?_, fun name => ?_, ?_⟩
  · rw [hbind, ← h.classes]
    cases stmt <;> cases hid <;> grind [Environment.addType, Table.get?_insert, Stmt.classInfo?]
  · rw [hbind, ← h.entities]
    cases stmt <;> cases hid <;> grind [Environment.addType, Table.get?_insert, Stmt.entityInfo?]
  · rw [hbind, ← h.enums]
    cases stmt <;> cases hid <;> grind [Environment.addType, Table.get?_insert, Stmt.enumInfo?]
  · rw [hbind, ← h.aliases]
    cases stmt <;> cases hid <;> grind [Environment.addType, Table.get?_insert, Stmt.aliasInfo?]
  · have hkept := h.kept
    cases stmt <;> cases hid <;> simp only [Environment.addType] <;> rw [hkept]

/-- The type names of a program and one more statement. -/
theorem card_typeNames_append (p : Program) (stmt : Stmt) :
    (Program.typeNames (p ++ [stmt])).toFinset.card =
      p.typeNames.toFinset.card + if p.claims stmt then 1 else 0 := by
  cases hid : stmt.typeIdent? with
  | none => simp [Program.typeNames, Program.claims, hid]
  | some id =>
    have hnames : Program.typeNames (p ++ [stmt]) = p.typeNames ++ [id.name] := by
      simp [Program.typeNames, hid]
    rw [hnames, List.toFinset_append, Finset.union_comm]
    by_cases hnone : p.first? id.name = none
    · have hnew := Program.first?_eq_none_iff.1 hnone
      simp [Program.claims, hid, hnone, hnew]
    · have hknown : id.name ∈ p.typeNames := by simpa [Program.first?_eq_none_iff] using hnone
      have hsome : (p.first? id.name).isNone = false := by simpa [Option.isSome_iff_ne_none] using hnone
      simp [Program.claims, hid, hsome, hknown]

/-- After the claims of a program, one more statement claims its name if it is new, and otherwise it
is reported and changes nothing. -/
theorem claimType_eq (hown : s.own? c = some e') (hclaimed : Claimed c.env p e e') (stmt : Stmt) :
    let next := if p.claims stmt then e'.addType c.env stmt else e'
    Claimed c.env (p ++ [stmt]) e next ∧ ∃ added : List Alert,
      added.filter (·.kind.isTypeRedeclaration) = (p.redeclaration? stmt).toList ∧
      claimType stmt c s = .ok (if p.claims stmt then 1 else 0,
        (s.modifyOwn c fun _ => next).addAlerts added) := by
  intro next
  have hsame : s.modifyOwn c (fun _ => e') = s := modifyOwn_eq_self hown rfl
  have hspan := hclaimed.declaredSpan?
  cases hid : stmt.typeIdent? with
  | none =>
    have hname : stmt.typeName? = none := by cases stmt <;> first | rfl | cases hid
    have hclaims : p.claims stmt = false := by simp [Program.claims, hid]
    have hnext : next = e' := by simp [next, hclaims]
    refine ⟨hnext ▸ hclaimed.skip fun name hdeclares => ?_, [], ?_, ?_⟩
    · simp [Stmt.declares, hid] at hdeclares
    · simp [Program.redeclaration?, hid]
    · rw [claimType_eq_of_none hname, hclaims, hnext, hsame, State.addAlerts_nil]
      rfl
  | some id =>
    cases hfirst : p.first? id.name with
    | some first =>
      have hclaims : p.claims stmt = false := by simp [Program.claims, hid, hfirst]
      have hnext : next = e' := by simp [next, hclaims]
      obtain ⟨ident, hident⟩ : ∃ ident, p.type? id.name = some ident := by
        have hdeclares := (Program.declares_of_first? hfirst).2
        rw [Program.type?_eq_first?, hfirst]
        cases hf : first.typeIdent? with
        | none => simp [Stmt.declares, hf] at hdeclares
        | some ident => exact ⟨ident, hf⟩
      have htaken := claimType_eq_taken hid hown (by rw [hspan, hident]; rfl)
      refine ⟨hnext ▸ hclaimed.skip fun name hdeclares => ?_, [{
          kind := .redeclaration id.name stmt.typeWord, span := id.span, more := [ident.span] }],
        ?_, ?_⟩
      · obtain rfl : id.name = name := by simpa [Stmt.declares, hid] using hdeclares
        simp [hfirst]
      · have hkind : (AlertKind.redeclaration id.name stmt.typeWord).isTypeRedeclaration = true := by
          cases stmt <;> rfl
        simp [Program.redeclaration?, hid, hident, hkind]
      · rw [htaken, hclaims, hnext, hsame]
        rfl
    | none =>
      have hclaims : p.claims stmt = true := by simp [Program.claims, hid, hfirst]
      have hnext : next = e'.addType c.env stmt := by simp [next, hclaims]
      have hnone : p.type? id.name = none := by rw [Program.type?_eq_first?, hfirst]; rfl
      obtain ⟨added, hadded, hfree⟩ := claimType_of_free hid hown (by rw [hspan, hnone]; rfl)
      refine ⟨hnext ▸ hclaimed.add hid hfirst, added, ?_, ?_⟩
      · rw [List.filter_eq_nil_iff.2 fun a ha => by simp [hadded a ha]]
        simp [Program.redeclaration?, hid, hnone]
      · rw [hfree, hclaims, hnext, State.modifyOwn_eq_const hown]
        rfl

/-- A program claims the names of its first declarations, counts them, and changes nothing else but
for alerts. -/
theorem runs_claims (hown : s.own? c = some e) (hnew : Claimed c.env [] e e) (p : Program) :
    Runs (countEach claimType p) c s fun n s' => n = p.typeNames.toFinset.card ∧
      ∃ added e', s' = (s.modifyOwn c fun _ => e').addAlerts added ∧ Claimed c.env p e e' := by
  refine runs_countEach (I := fun before k t => k = before.typeNames.toFinset.card ∧
    ∃ added e', t = (s.modifyOwn c fun _ => e').addAlerts added ∧ Claimed c.env before e e')
    (fun before stmt rest k t _ ⟨hk, added, e', ht, hclaimed⟩ => ?_)
    ⟨rfl, [], e, by rw [modifyOwn_eq_self hown rfl, State.addAlerts_nil], hnew⟩
  have hown' : t.own? c = some e' := ht ▸ State.own?_modifyOwn_addAlerts hown e' added
  obtain ⟨hnext, more, -, hrun⟩ := claimType_eq hown' hclaimed stmt
  refine ⟨_, _, hrun, by rw [card_typeNames_append, hk], added ++ more, _, ?_, hnext⟩
  rw [ht, State.modifyOwn_addAlerts_twice]

/-! ## The steps of a registration -/

/-- The registration of a program, with the states between its steps. -/
structure Registration (p : Program) (c : Context) (s : State) where
  imported : State
  claimed : State
  resolved : State
  filled : State
  bound : State
  final : State
  types : Nat
  members : Nat
  functions : Nat
  imports : importAll p c s = .ok ((), imported)
  claims : countEach claimType p c imported = .ok (types, claimed)
  resolves : resolveAliases p c claimed = .ok ((), resolved)
  fills : countEach registerMembers p c resolved = .ok (members, filled)
  binds : countEach registerFunction p c filled = .ok (functions, bound)
  walks : walkImports p c bound = .ok ((), final)

namespace Registration

/-- The numbers of types and functions that are registered. -/
def counts (run : Registration p c s) : Counts := ⟨run.types, run.members + run.functions⟩

theorem program_eq (run : Registration p c s) :
    Declare.program p c s = .ok (run.counts, run.final) := by
  rw [Declare.program_eq, bind_apply_ok run.imports, bind_apply_ok run.claims, fillIn,
    bind_apply_ok run.resolves, bind_apply_ok run.fills, bind_apply_ok run.binds,
    bind_apply_ok run.walks]
  rfl

/-- Where a registration is run to its end, its steps are run. -/
theorem of_run {counts : Counts} (h : Declare.program p c s = .ok (counts, s')) :
    ∃ run : Registration p c s, run.counts = counts ∧ run.final = s' := by
  obtain ⟨s₁, s₂, types, himports, hclaims, hfill⟩ := declare_eq_ok h
  obtain ⟨⟨⟩, s₃, hresolves, hfill⟩ := bind_eq_ok hfill
  obtain ⟨members, s₄, hfills, hfill⟩ := bind_eq_ok hfill
  obtain ⟨functions, s₅, hbinds, hfill⟩ := bind_eq_ok hfill
  obtain ⟨⟨⟩, _, hwalks, hpure⟩ := bind_eq_ok hfill
  cases hpure
  exact ⟨⟨s₁, s₂, s₃, s₄, s₅, _, types, members, functions, himports, hclaims, hresolves, hfills,
    hbinds, hwalks⟩, rfl, rfl⟩

/-- From a live state a registration is run to its end. -/
theorem exists_of_live (h : Live c s o) (p : Program) :
    ∃ run : Registration p c s, Declare.program p c s = .ok (run.counts, run.final) := by
  obtain ⟨counts, s', hrun, -⟩ := runs_declare h p
  obtain ⟨run, -, -⟩ := of_run hrun
  exact ⟨run, run.program_eq⟩

variable (run : Registration p c s)

/-- Nothing is imported without a `use`. -/
theorem imported_eq (huse : p.filterMap use? = []) : run.imported = s := by
  have hnone : importAll p c s = .ok ((), s) := by
    rw [importAll, huse]
    rfl
  simpa using run.imports.symm.trans hnone

theorem steps_imported (h : Live c s o) :
    Steps c .importing s run.imported ∧ Live c run.imported o :=
  (quiet_importAll p c s o h).apply run.imports

theorem steps_claimed (h : Live c s o) :
    Steps c .claiming run.imported run.claimed ∧ Live c run.claimed o :=
  (quiet_countEach quiet_claimType p c _ o (run.steps_imported h).2).apply run.claims

theorem steps_resolved (h : Live c s o) :
    Steps c .resolving run.claimed run.resolved ∧ Live c run.resolved o :=
  (quiet_resolveAliases p c _ o (run.steps_claimed h).2).apply run.resolves

theorem steps_filled (h : Live c s o) :
    Steps c .declaring run.resolved run.filled ∧ Live c run.filled o :=
  (quiet_countEach quiet_registerMembers p c _ o (run.steps_resolved h).2).apply run.fills

theorem steps_bound (h : Live c s o) :
    Steps c .binding run.filled run.bound ∧ Live c run.bound o :=
  (quiet_countEach quiet_registerFunction p c _ o (run.steps_filled h).2).apply run.binds

theorem steps_final (h : Live c s o) :
    Steps c .binding run.bound run.final ∧ Live c run.final o :=
  (quiet_walkImports p c _ o (run.steps_bound h).2).apply run.walks

/-- After the claims, a fresh environment holds what the first declarations claim. -/
theorem own_claimed (h : Live c s o) {env : Environment} (hown : s.own? c = some env)
    (hfresh : env.IsFresh) : run.types = p.typeNames.toFinset.card ∧
      ∃ env₁ env₂ added, run.imported.own? c = some env₁ ∧ run.claimed.own? c = some env₂ ∧
        Claimed c.env p env₁ env₂ ∧
        run.claimed = (run.imported.modifyOwn c fun _ => env₂).addAlerts added := by
  obtain ⟨hsteps, -⟩ := run.steps_imported h
  obtain ⟨env₁, hown₁, hnil⟩ := Steps.declares h hsteps nofun hown hfresh.declares_nil
  obtain ⟨htypes, added, env₂, hclaimed, hentries⟩ :=
    (runs_claims hown₁ (claimed_nil hnil) p).apply run.claims
  refine ⟨htypes, env₁, env₂, added, hown₁, ?_, hentries, hclaimed⟩
  rw [hclaimed, State.own?_addAlerts, own?_modifyOwn, hown₁]
  rfl

/-- If nothing is imported, they are claimed in the environment as it was. -/
theorem own_claimed_of_use (h : Live c s o) {env : Environment} (hown : s.own? c = some env)
    (hfresh : env.IsFresh) (huse : p.filterMap use? = []) :
    ∃ claimed, run.claimed.own? c = some claimed ∧ Claimed c.env p env claimed := by
  obtain ⟨-, env₁, claimed, -, hown₁, hown₂, hclaimed, -⟩ := run.own_claimed h hown hfresh
  rw [run.imported_eq huse, hown] at hown₁
  exact ⟨claimed, hown₂, Option.some.inj hown₁ ▸ hclaimed⟩

end Registration

end Declare

end HybroidSema
