import HybroidSema.Proofs.Frame
import HybroidSema.Proofs.Sound

/-!
# Which type names a program has

After the names of a program are claimed, its environment declares a type name as the kind of the
first declaration of that name, and nothing else. No later step of the walk changes that.

* `Environment.hasType` and `Environment.Declares`.
* `claims_claimType` and `declares_countEach`: one statement, and a whole program.
* `Steps.hasType_eq`: steps after the claims leave the type names alone.
* `declares_declare`: the environment after the declarations are registered.
-/

namespace HybroidSema

/-- Whether a type name is declared here as a kind. -/
def Environment.hasType (e : Environment) (kind : TypeKind) (name : String) : Bool :=
  match kind with
  | .classDecl => (e.classes.get? name).isSome
  | .entityDecl => (e.entities.get? name).isSome
  | .enumDecl => (e.enums.get? name).isSome
  | .aliasDecl => (e.aliases.get? name).isSome

/-- The type names declared here are those that the program claims, with their kinds. -/
def Environment.Declares (e : Environment) (p : Program) : Prop :=
  ∀ kind name, e.hasType kind name = true ↔ p.claimed? name = some kind

namespace Environment

theorem declaredSpan?_isSome_iff (e : Environment) (name : String) :
    (e.declaredSpan? name).isSome = true ↔ ∃ kind, e.hasType kind name = true := by
  have hsome : (e.declaredSpan? name).isSome = (e.hasType .classDecl name ||
      e.hasType .entityDecl name || e.hasType .enumDecl name || e.hasType .aliasDecl name) := by
    simp only [declaredSpan?, hasType]
    cases e.classes.get? name <;> cases e.entities.get? name <;> cases e.enums.get? name <;>
      cases e.aliases.get? name <;> rfl
  rw [hsome]
  constructor
  · intro h
    simp only [Bool.or_eq_true] at h
    rcases h with ((h | h) | h) | h
    · exact ⟨.classDecl, h⟩
    · exact ⟨.entityDecl, h⟩
    · exact ⟨.enumDecl, h⟩
    · exact ⟨.aliasDecl, h⟩
  · rintro ⟨kind, h⟩
    cases kind <;> simp [h]

/-- A new environment declares nothing. -/
theorem IsNew.declares_nil {e : Environment} (h : e.IsNew) : e.Declares [] := by
  intro kind name
  rw [h]
  cases kind <;> simp [hasType, Program.claimed?]

/-- One more type name, as the statement that claims it declares it. -/
inductive Adds (e : Environment) : Stmt → Environment → Prop
  | classDecl (decl : ClassDecl) (ref : DeclRef) :
    e.Adds (.classDecl decl) { e with
      classes := e.classes.insert decl.name.name
        { ty := ref, span := decl.name.span, isPub := decl.isPub } }
  | entityDecl (decl : EntityDecl) (ref : DeclRef) :
    e.Adds (.entityDecl decl) { e with
      entities := e.entities.insert decl.name.name
        { ty := ref, span := decl.name.span, isPub := decl.isPub } }
  | enumDecl (decl : EnumDecl) (ref : DeclRef) (fields : List String) :
    e.Adds (.enumDecl decl) { e with
      enums := e.enums.insert decl.name.name ⟨ref, decl.name.span, decl.isPub, fields⟩ }
  | aliasDecl (decl : AliasDecl) :
    e.Adds (.aliasDecl decl) { e with
      aliases := e.aliases.insert decl.name.name ⟨.invalid, decl.name.span, decl.isPub⟩ }

/-- What a claim for a name does: nothing if the name is taken, or else it adds the name. -/
def Claims (e : Environment) (stmt : Stmt) (name : String) (e' : Environment) : Prop :=
  if (e.declaredSpan? name).isSome then e' = e else e.Adds stmt e'

theorem isSome_insert {α : Type} (t : Table α) (name other : String) (v : α) :
    ((t.insert name v).get? other).isSome = true ↔ (t.get? other).isSome = true ∨ other = name := by
  rw [Table.get?_insert]
  split
  · next h => simp [h]
  · next h => simp [h]

theorem Adds.hasType_iff {e e' : Environment} {stmt : Stmt} {name : String} {added : TypeKind}
    (h : e.Adds stmt e') (hstmt : stmt.typeName? = some (name, added)) (kind : TypeKind)
    (other : String) : e'.hasType kind other = true ↔
      e.hasType kind other = true ∨ (kind = added ∧ other = name) := by
  cases h <;> cases hstmt <;> cases kind <;> simp [hasType, isSome_insert]

theorem claimed?_append_singleton (p : Program) (s : Stmt) (name : String) :
    Program.claimed? (p ++ [s]) name = (p.claimed? name).or (s.claims? name) := by
  rw [Program.claimed?, List.findSome?_append, Program.claimed?]
  congr 1
  rw [List.findSome?_cons, List.findSome?_nil]
  cases s.claims? name <;> rfl

/-- A claim for the type name of a statement. -/
theorem Declares.claims {e e' : Environment} {p : Program} (h : e.Declares p) {s : Stmt}
    {kind : TypeKind} {name : String} (hs : s.typeName? = some (name, kind))
    (hclaims : e.Claims s name e') : e'.Declares (p ++ [s]) := by
  have hstmt (other : String) : s.claims? other = if name = other then some kind else none := by
    simp only [Stmt.claims?, hs]
  intro kind' other
  rw [claimed?_append_singleton, hstmt]
  unfold Claims at hclaims
  split at hclaims
  · next htaken =>
    subst hclaims
    rw [h kind' other]
    cases hc : Program.claimed? p other with
    | some k => simp
    | none =>
      -- The name is taken, so it is no new one.
      have hne : name ≠ other := by
        rintro rfl
        obtain ⟨k, hk⟩ := (declaredSpan?_isSome_iff e' name).1 htaken
        rw [(h k name).1 hk] at hc
        cases hc
      simp [hne]
  · next hfree =>
    rw [hclaims.hasType_iff hs kind' other, h kind' other]
    by_cases hname : name = other
    · subst hname
      have hnone : Program.claimed? p name = none := by
        by_contra hc
        obtain ⟨k, hk⟩ := Option.ne_none_iff_exists'.1 hc
        exact hfree ((declaredSpan?_isSome_iff e name).2 ⟨k, (h k name).2 hk⟩)
      simp [hnone, eq_comm]
    · have hother : ¬other = name := fun heq => hname heq.symm
      simp [hname, hother]

/-- A statement that declares no type. -/
theorem Declares.skip {e : Environment} {p : Program} (h : e.Declares p) {s : Stmt}
    (hs : s.typeName? = none) : e.Declares (p ++ [s]) := by
  intro kind name
  have hstmt : s.claims? name = none := by simp only [Stmt.claims?, hs]
  rw [claimed?_append_singleton, hstmt, Option.or_none, h kind name]

end Environment

namespace Declare

open Check

variable {c : Context} {s s' : State}

/-! ## Claims -/

theorem claim_eq_ok {name : Ident} {what : String} {claimed : Bool}
    (h : claim name what c s = .ok (claimed, s')) :
    ∃ env, s.own? c = some env ∧ s'.session = s.session ∧
      claimed = !(env.declaredSpan? name.name).isSome := by
  obtain ⟨env, t, henv, hmatch⟩ := bind_eq_ok h
  obtain ⟨rfl, hown⟩ := environment_eq_ok henv
  refine ⟨env, hown, ?_⟩
  cases hspan : env.declaredSpan? name.name with
  | none =>
    simp only [hspan] at hmatch
    cases hmatch
    exact ⟨rfl, rfl⟩
  | some first =>
    simp only [hspan] at hmatch
    cases hmatch
    exact ⟨rfl, rfl⟩

theorem distinctFields_eq_ok {fields : List Ident} {seen out : List String}
    (h : distinctFields fields seen c s = .ok (out, s')) : s'.session = s.session := by
  induction fields generalizing s seen with
  | nil =>
    cases h
    rfl
  | cons field rest ih =>
    unfold distinctFields at h
    split at h
    · obtain ⟨_, t, hreport, hrest⟩ := bind_eq_ok h
      have hsession := ih hrest
      cases hreport
      exact hsession
    · exact ih h

/-- A claim that goes on to add the name. -/
theorem claims_of_run {name : Ident} {what : String} {stmt : Stmt} {env : Environment} {n : Nat}
    {add : Check Nat} (hown : s.own? c = some env)
    (hadd : ∀ (t : State) m t', t.own? c = some env → add c t = .ok (m, t') →
      ∃ env', t'.own? c = some env' ∧ env.Adds stmt env')
    (h : (do if ← claim name what then add else return 0) c s = .ok (n, s')) :
    ∃ env', s'.own? c = some env' ∧ env.Claims stmt name.name env' := by
  obtain ⟨claimed, t, hclaim, hrest⟩ := bind_eq_ok h
  obtain ⟨found, hfound, hsession, rfl⟩ := claim_eq_ok hclaim
  obtain rfl := Option.some.inj (hown.symm.trans hfound)
  have hown' : t.own? c = some env := by rw [State.own?, hsession]; exact hown
  by_cases htaken : (env.declaredSpan? name.name).isSome = true
  · simp only [htaken, Bool.not_true, Bool.false_eq_true, if_false] at hrest
    cases hrest
    exact ⟨env, hown', by rw [Environment.Claims, if_pos htaken]⟩
  · simp only [htaken, Bool.not_false, if_true] at hrest
    obtain ⟨env', hown'', hadds⟩ := hadd t n s' hown' hrest
    exact ⟨env', hown'', by rw [Environment.Claims, if_neg htaken]; exact hadds⟩

/-- A change of the own environment that adds a type name. -/
theorem adds_of_modify {f : Environment → Environment} {stmt : Stmt} {env : Environment}
    (hown : s.own? c = some env) (hf : env.Adds stmt (f env)) {n m : Nat}
    (h : (modifyEnvironment f >>= fun _ => pure n) c s = .ok (m, s')) :
    ∃ env', s'.own? c = some env' ∧ env.Adds stmt env' := by
  obtain ⟨_, t, hmodify, h⟩ := bind_eq_ok h
  obtain rfl := modifyEnvironment_eq_ok hmodify
  cases h
  exact ⟨f env, by rw [own?_modifyOwn, hown]; rfl, hf⟩

theorem claims_claimEnum {decl : EnumDecl} {env : Environment} {n : Nat}
    (hown : s.own? c = some env) (h : claimEnum decl c s = .ok (n, s')) :
    ∃ env', s'.own? c = some env' ∧ env.Claims (.enumDecl decl) decl.name.name env' := by
  refine claims_of_run hown (fun t m t' hown hrun => ?_) h
  have hfields (t : State) (hown : t.own? c = some env)
      (hrun : (do
        let fields ← distinctFields decl.fields []
        let ref ← ownRef decl.name
        let info : EnumInfo := ⟨ref, decl.name.span, decl.isPub, fields⟩
        modifyEnvironment fun env => { env with enums := env.enums.insert decl.name.name info }
        return 1) c t = .ok (m, t')) :
      ∃ env', t'.own? c = some env' ∧ env.Adds (.enumDecl decl) env' := by
    obtain ⟨fields, u, hfields, hrun⟩ := bind_eq_ok hrun
    have hown' : u.own? c = some env := by
      rw [State.own?, distinctFields_eq_ok hfields]
      exact hown
    obtain ⟨ref, v, href, hrun⟩ := bind_eq_ok hrun
    cases href
    exact adds_of_modify hown' (.enumDecl decl _ fields) hrun
  split at hrun
  · obtain ⟨_, u, hreport, hrest⟩ := bind_eq_ok hrun
    refine hfields u ?_ hrest
    cases hreport
    exact hown
  · exact hfields _ hown hrun

/-- One statement that declares a type. -/
theorem claims_claimType {stmt : Stmt} {name : String} {kind : TypeKind} {env : Environment}
    {n : Nat} (hstmt : stmt.typeName? = some (name, kind)) (hown : s.own? c = some env)
    (h : claimType stmt c s = .ok (n, s')) :
    ∃ env', s'.own? c = some env' ∧ env.Claims stmt name env' := by
  cases stmt with
  | classDecl decl =>
    cases hstmt
    refine claims_of_run hown (fun t m t' hown hrun => ?_) h
    obtain ⟨ref, u, href, hrun⟩ := bind_eq_ok hrun
    cases href
    exact adds_of_modify hown (.classDecl decl _) hrun
  | entityDecl decl =>
    cases hstmt
    refine claims_of_run hown (fun t m t' hown hrun => ?_) h
    obtain ⟨ref, u, href, hrun⟩ := bind_eq_ok hrun
    cases href
    exact adds_of_modify hown (.entityDecl decl _) hrun
  | enumDecl decl =>
    cases hstmt
    exact claims_claimEnum hown h
  | aliasDecl decl =>
    cases hstmt
    exact claims_of_run hown (fun t m t' hown hrun => adds_of_modify hown (.aliasDecl decl) hrun) h
  | _ => cases hstmt

/-- One statement that declares no type. -/
theorem claimType_eq_of_none {stmt : Stmt} (hstmt : stmt.typeName? = none) :
    claimType stmt = pure 0 := by
  cases stmt with
  | classDecl decl | entityDecl decl | enumDecl decl | aliasDecl decl => cases hstmt
  | _ => rfl

/-- A pass over a program, by what holds after its first statements. -/
theorem countEach_induct {step : Stmt → Check Nat} {program : Program} {I : Program → State → Prop}
    (hstep : ∀ before stmt s n s', stmt ∈ program → I before s → step stmt c s = .ok (n, s') →
      I (before ++ [stmt]) s')
    (before : Program) {n : Nat} (h : I before s)
    (hrun : countEach step program c s = .ok (n, s')) : I (before ++ program) s' := by
  induction program generalizing s before n with
  | nil =>
    cases hrun
    rwa [List.append_nil]
  | cons stmt rest ih =>
    obtain ⟨first, t, hfirst, hrest⟩ := bind_eq_ok hrun
    obtain ⟨others, u, hothers, hpure⟩ := bind_eq_ok hrest
    cases hpure
    have hnext := hstep before stmt s first t (by simp) h hfirst
    have hall := ih (fun before stmt' s n s' hmem => hstep before stmt' s n s' (by simp [hmem]))
      (before ++ [stmt]) hnext hothers
    rwa [List.append_assoc] at hall

/-- A whole program. -/
theorem declares_countEach {program : Program} {n : Nat} {env : Environment}
    (hown : s.own? c = some env) (hnew : env.Declares [])
    (h : countEach claimType program c s = .ok (n, s')) :
    ∃ env', s'.own? c = some env' ∧ env'.Declares program := by
  refine countEach_induct (I := fun p s => ∃ env, s.own? c = some env ∧ env.Declares p)
    (fun before stmt t m t' _ ⟨env, hown, hp⟩ hrun => ?_) [] ⟨env, hown, hnew⟩ h
  cases hstmt : stmt.typeName? with
  | none =>
    rw [claimType_eq_of_none hstmt] at hrun
    cases hrun
    exact ⟨env, hown, hp.skip hstmt⟩
  | some claimed =>
    obtain ⟨env', hown', hclaims⟩ := claims_claimType hstmt hown hrun
    exact ⟨env', hown', hp.claims hstmt hclaims⟩

end Declare

/-! ## Steps after the claims -/

namespace Check

variable {c : Context} {s s' : State} {o : ScopeStack} {phase : Phase}

theorem isSome_modify {α : Type} (t : Table α) (name other : String) (f : α → α) :
    ((t.modify name f).get? other).isSome = (t.get? other).isSome := by
  rw [Table.get?_modify]
  split <;> simp

theorem Edit.hasType_eq {f : Environment → Environment} (h : Edit c phase s f)
    (hphase : phase ≠ .claiming) (env : Environment) (kind : TypeKind) (name : String) :
    (f env).hasType kind name = env.hasType kind name := by
  cases h with
  | scopes => rfl
  | require =>
    simp only [Environment.require]
    split <;> rfl
  | addImport =>
    simp only [Environment.addImport]
    split <;> rfl
  | setField k =>
    cases k <;> cases kind <;> simp [Environment.modifyMembers, Environment.hasType, isSome_modify]
  | claimClass _ _ hc | claimEntity _ _ hc | claimEnum _ _ hc | claimAlias _ _ hc =>
    exact absurd hc hphase
  | fillClass | fillEntity | fillAlias =>
    cases kind <;> simp [Environment.hasType, isSome_modify]

/-- Steps after the claims leave the type names alone. -/
theorem Steps.hasType_eq (h : Live c s o) (hsteps : Steps c phase s s')
    (hphase : phase ≠ .claiming) {env : Environment} (hown : s.own? c = some env) :
    ∃ env', s'.own? c = some env' ∧
      ∀ kind name, env'.hasType kind name = env.hasType kind name :=
  Steps.own_keeps h hsteps
    (fun _ _ env' hf _ henv kind name => (hf.hasType_eq hphase env' kind name).trans (henv kind name))
    hown fun _ _ => rfl

theorem Steps.declares (h : Live c s o) (hsteps : Steps c phase s s')
    (hphase : phase ≠ .claiming) {env : Environment} {p : Program} (hown : s.own? c = some env)
    (hp : env.Declares p) : ∃ env', s'.own? c = some env' ∧ env'.Declares p := by
  obtain ⟨env', hown', heq⟩ := Steps.hasType_eq h hsteps hphase hown
  exact ⟨env', hown', fun kind name => heq kind name ▸ hp kind name⟩

/-- The registration of a program falls into the claims and what comes before and after them. -/
theorem declare_eq_ok {program : Program} {counts : Declare.Counts}
    (h : Declare.program program c s = .ok (counts, s')) :
    ∃ t u types, importAll program c s = .ok ((), t) ∧
      Declare.countEach Declare.claimType program c t = .ok (types, u) ∧
      Declare.fillIn program types c u = .ok (counts, s') := by
  rw [Declare.program_eq] at h
  obtain ⟨⟨⟩, t, himport, hrest⟩ := bind_eq_ok h
  obtain ⟨types, u, hclaim, hfill⟩ := bind_eq_ok hrest
  exact ⟨t, u, types, himport, hclaim, hfill⟩

/-- Registering a program in a new environment declares the type names that it claims, from the
claims on. -/
theorem declares_declare {program : Program} {env : Environment} {t u : State} {types : Nat}
    {counts : Declare.Counts} (hl : Live c s o) (hown : s.own? c = some env)
    (hnew : env.Declares []) (himport : importAll program c s = .ok ((), t))
    (hclaim : Declare.countEach Declare.claimType program c t = .ok (types, u))
    (hfill : Declare.fillIn program types c u = .ok (counts, s')) :
    (∃ env', u.own? c = some env' ∧ env'.Declares program) ∧
      ∃ env', s'.own? c = some env' ∧ env'.Declares program := by
  have hquiet : Quiet .importing (importAll program) := Declare.quiet_importAll program
  obtain ⟨hsteps, hl₁⟩ := (hquiet c s o hl).apply himport
  obtain ⟨env₁, hown₁, hp₁⟩ := Steps.declares hl hsteps nofun hown hnew
  obtain ⟨env₂, hown₂, hp₂⟩ := Declare.declares_countEach hown₁ hp₁ hclaim
  obtain ⟨-, hl₂⟩ := (Declare.quiet_countEach Declare.quiet_claimType program c t o hl₁).apply hclaim
  obtain ⟨u₁, u₂, hs₁, hs₂, hs₃, -⟩ := (Declare.runs_fillIn hl₂ program types).apply hfill
  obtain ⟨env₃, hown₃, hp₃⟩ := Steps.declares hl₂ hs₁ nofun hown₂ hp₂
  obtain ⟨-, o₃, hl₃⟩ := Steps.frames hl₂ hs₁
  obtain ⟨env₄, hown₄, hp₄⟩ := Steps.declares hl₃ hs₂ nofun hown₃ hp₃
  obtain ⟨-, o₄, hl₄⟩ := Steps.frames hl₃ hs₂
  exact ⟨⟨env₂, hown₂, hp₂⟩, Steps.declares hl₄ hs₃ nofun hown₄ hp₄⟩

end Check

end HybroidSema
