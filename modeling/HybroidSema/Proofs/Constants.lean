import HybroidSema.Proofs.Completion

/-!
# Assignments to constants

An assignment to a target reports what reading the target reports, and one alert more if the
target is seen to be a constant. It is seen for every unqualified name: a name of an open scope, of
the implicit library or of an import. It is seen for a qualified name only if no literal takes its
place, and never for a field.

* `Registry.variableOf?` and `Environment.variableOf?`: what a name stands for.
* `place`: what is done with one target. `noticed` are the alerts it adds to those of reading.
* `gives_expr`: which nodes take the place of an expression.
* `runs_place_ident`, `runs_place_qualified` and `runs_place_other`: one target of each form.
* `assign_notices_constants`: all targets of an assignment.
* `analyze_shows_order`: a constant that is noticed in one order of the files and not in the other.
-/

namespace HybroidSema

/-! ## What a name stands for -/

/-- A variable that an environment or library offers to others. -/
def Registry.variableOf? (r : Registry) (target : EnvId) (name : String) : Option Variable :=
  match target.library? with
  | some library => library.binding? name
  | none => (r.get? target).bind (·.rootVariable? name)

/-- The variable that a qualified name stands for. -/
def Registry.qualified? (r : Registry) (env name : String) : Option Variable :=
  (r.lookup? env).bind (r.variableOf? · name)

/-- The variable that an unqualified name stands for: the one in the innermost scope that binds
the name, that of the implicit library, or that of the first import which has one. -/
def Environment.variableOf? (r : Registry) (e : Environment) (name : String) : Option Variable :=
  match e.scopes.resolve? name with
  | some position => e.scopes.binding? position name
  | none => Library.builtin.binding? name <|> e.imports.findSome? (r.variableOf? · name)

/-- Whether an expression is a name, or a node that takes the place of one. -/
def Expr.isName : Expr → Bool
  | .ident _ | .builtin _ | .envAccess _ _ _ => true
  | _ => false

/-- Whether an expression is a field access. -/
def Expr.isField : Expr → Bool
  | .field _ _ _ _ => true
  | _ => false

/-- Whether an expression is `self`. -/
def Expr.isSelf : Expr → Bool
  | .self _ _ => true
  | _ => false

namespace ScopeStack

/-- A name that is resolved is bound there. -/
theorem exists_binding?_of_resolve? {s : ScopeStack} {name : String} {position : Nat}
    (h : s.resolve? name = some position) : ∃ v, s.binding? position name = some v := by
  obtain ⟨i, hi, rfl⟩ := Option.map_eq_some_iff.1 h
  obtain ⟨hlt, hcontains, -⟩ := List.findIdx?_eq_some_iff_getElem.1 hi
  have hlength : s.chain.length = s.inner.length + 1 := by simp [chain]
  have hindex : s.inner.length - (s.inner.length - i) = i := by omega
  obtain ⟨v, hv⟩ := Option.isSome_iff_exists.1 hcontains
  refine ⟨v, ?_⟩
  rw [binding?, get?, if_pos (Nat.sub_le _ _), hindex, List.getElem?_eq_getElem hlt]
  exact hv

/-- A change of one scope that keeps a property of every scope keeps where it is found. -/
theorem innermost?_modifyAt (s : ScopeStack) (position : Nat) {f : Scope → Scope}
    {p : Scope → Bool} (h : ∀ scope, p (f scope) = p scope) :
    (s.modifyAt position f).innermost? p = s.innermost? p := by
  have hlist : ∀ (l : List Scope) (i : Nat), (l.modify i f).map p = l.map p := by
    intro l
    induction l with
    | nil => simp
    | cons scope rest ih => intro i; cases i <;> simp [h, ih]
  have hfind (l l' : List Scope) (heq : l'.map p = l.map p) : l'.findIdx? p = l.findIdx? p := by
    have hid (l : List Scope) : l.findIdx? p = (l.map p).findIdx? id := by
      rw [List.findIdx?_map]
      rfl
    rw [hid, hid, heq]
  unfold modifyAt innermost?
  split_ifs
  · rw [hfind s.chain _ (by simp [chain, h])]
  · rw [hfind s.chain _ (by simp [chain, hlist])]
    simp
  · rfl

/-- The scope at a position after it was changed. -/
theorem get?_modifyAt (s : ScopeStack) (position : Nat) (f : Scope → Scope) :
    (s.modifyAt position f).get? position = (s.get? position).map f := by
  unfold modifyAt get?
  by_cases hroot : position = 0
  · subst hroot
    simp [chain]
  · by_cases hle : position ≤ s.inner.length
    · have hlt : s.inner.length - position < s.inner.length := by omega
      have hlength := s.inner.length_modify f (s.inner.length - position)
      simp only [if_neg hroot, if_pos hle, hlength, chain]
      rw [List.getElem?_append_left (hlength.symm ▸ hlt), List.getElem?_append_left hlt,
        List.getElem?_modify_eq, Option.map_eq_map]
    · simp [hroot, hle]

theorem resolve?_modifyVariable (s : ScopeStack) (position : Nat) (name : String)
    (f : Variable → Variable) (other : String) :
    (s.modifyVariable position name f).resolve? other = s.resolve? other := by
  refine s.innermost?_modifyAt position fun scope => ?_
  simp only [Table.contains, Table.get?_modify]
  split <;> simp

theorem binding?_modifyVariable (s : ScopeStack) (position : Nat) (name : String)
    (f : Variable → Variable) :
    (s.modifyVariable position name f).binding? position name =
      (s.binding? position name).map f := by
  unfold binding? modifyVariable
  rw [get?_modifyAt]
  cases s.get? position with
  | none => rfl
  | some scope => simp [Table.get?_modify]

end ScopeStack

namespace Check

variable {α β : Type} {m : Check α} {c : Context} {s s' : State} {o : ScopeStack} {d : Nat}
  {env : Environment}

/-! ## One target -/

/-- What is done with one target of an assignment. -/
def place (e : Expr) : Check (Expr × Value) := do
  let isLocal ← assignLocal e
  let (resolved, value) ← single (expr e none)
  finishPlace e resolved isLocal
  return (resolved, value)

theorem places_cons (e : Expr) (rest : List Expr) :
    places (e :: rest) = do
      let (resolved, value) ← place e
      let (rest, others) ← places rest
      return (resolved :: rest, value :: others) := by
  simp only [places, place, bind_assoc, pure_bind]

/-- The alert about an assignment to a variable, if that is a constant. -/
def constAlerts (found : Option Variable) (id : Ident) : List Alert :=
  if found.any (·.isConst) then [{ kind := .constAssignment id.name, span := id.span }] else []

/-- The alerts about constants for a target, given the own environment and the registry before
the target is read, the registry after it, and the node that took its place. -/
def noticed (env : Environment) (before after : Registry) (written resolved : Expr) :
    List Alert :=
  match written, resolved with
  | .ident id, _ => constAlerts (env.variableOf? before id.name) id
  | .builtin id, _ => constAlerts (Library.builtin.binding? id.name) id
  | .envAccess _ _ _, .envAccess env name _ => constAlerts (after.qualified? env.name name.name) name
  | _, _ => []

/-! ## Equations of single steps -/

theorem foreignVariable?_eq (target : EnvId) (name : String) :
    foreignVariable? target name c s = .ok (s.session.registry.variableOf? target name, s) := by
  unfold foreignVariable? Registry.variableOf?
  cases target.library? <;> rfl

/-- An assignment to a constant of another environment is reported. -/
theorem checkForeignConst_eq (found : Option Variable) (id : Ident) :
    ∃ s', checkForeignConst found id c s = .ok ((), s') ∧
      s'.alerts.alerts = s.alerts.alerts ++ constAlerts found id := by
  unfold checkForeignConst constAlerts
  split
  · exact ⟨_, rfl, rfl⟩
  · exact ⟨s, rfl, by simp⟩

/-- A name that no scope binds is not assigned here. -/
theorem assignLocal_eq_of_none (h : s.own? c = some env) {id : Ident}
    (hid : env.scopes.resolve? id.name = none) : assignLocal (.ident id) c s = .ok (false, s) := by
  simp only [assignLocal]
  rw [bind_apply_ok (scopes_eq h)]
  simp only [hid]
  rfl

/-- A name that a scope binds is marked as assigned, unless it is a constant, which is reported. -/
theorem assignLocal_eq_of_some (h : s.own? c = some env) {id : Ident} {position : Nat}
    (hid : env.scopes.resolve? id.name = some position) {v : Variable}
    (hv : env.scopes.binding? position id.name = some v) :
    ∃ s₀ env₀ v₀, assignLocal (.ident id) c s = .ok (true, s₀) ∧
      s₀.alerts.alerts = s.alerts.alerts ++ constAlerts (some v) id ∧ s₀.own? c = some env₀ ∧
      env₀.scopes.resolve? id.name = some position ∧
      env₀.scopes.binding? position id.name = some v₀ ∧ v₀.constant = v.constant := by
  simp only [assignLocal]
  rw [bind_apply_ok (scopes_eq h)]
  simp only [hid]
  rw [bind_apply_ok (scopes_eq h)]
  cases hconst : v.isConst with
  | true =>
    simp only [ScopeStack.assign, hv, hconst, if_true]
    exact ⟨_, env, v, rfl, by simp [constAlerts, hconst, Diagnostics.push], h, hid, hv, rfl⟩
  | false =>
    simp only [ScopeStack.assign, hv, hconst, Bool.false_eq_true, if_false]
    rw [bind_apply_ok (modifyScopes_eq h _)]
    refine ⟨_, _, { v with isInit := true }, rfl, by simp [constAlerts, hconst, State.modifyOwn],
      (own?_modifyOwn c _ s).trans (congrArg _ h), ?_, ?_, rfl⟩
    · exact (env.scopes.resolve?_modifyVariable position id.name _ id.name).trans hid
    · exact (env.scopes.binding?_modifyVariable position id.name _).trans (congrArg _ hv)

/-- The alerts of the look at the node that took the place of a target. -/
def finishAlerts (r : Registry) (written resolved : Expr) (isLocal : Bool) : List Alert :=
  match resolved with
  | .builtin id => constAlerts (Library.builtin.binding? id.name) id
  | .envAccess env name _ => constAlerts (r.qualified? env.name name.name) name
  | .literal lit =>
    match written with
    | .ident id =>
      if isLocal then [] else [{ kind := .constAssignment id.name, span := lit.span }]
    | _ => []
  | _ => []

theorem finishPlace_eq (h : s.own? c = some env) (written resolved : Expr) (isLocal : Bool) :
    ∃ s', finishPlace written resolved isLocal c s = .ok ((), s') ∧ s'.alerts.alerts =
      s.alerts.alerts ++ finishAlerts s.session.registry written resolved isLocal := by
  unfold finishPlace
  split
  · next field _ _ =>
    unfold markFieldInitialized
    rw [bind_apply_ok (scopes_eq h)]
    cases env.scopes.nearestContainer? with
    | none => exact ⟨s, rfl, by simp [finishAlerts]⟩
    | some position => exact ⟨_, modifyScopes_eq h _, by simp [finishAlerts, State.modifyOwn]⟩
  · exact checkForeignConst_eq _ _
  · next q name _ =>
    have hregistry : registry c s = .ok (s.session.registry, s) := rfl
    rw [bind_apply_ok hregistry]
    cases htarget : s.session.registry.lookup? q.name with
    | none => exact ⟨s, rfl, by simp [finishAlerts, Registry.qualified?, htarget, constAlerts]⟩
    | some target =>
      dsimp only
      rw [bind_apply_ok (foreignVariable?_eq target name.name)]
      obtain ⟨s', hrun, halerts⟩ := checkForeignConst_eq (c := c) (s := s)
        (s.session.registry.variableOf? target name.name) name
      exact ⟨s', hrun, by simpa [finishAlerts, Registry.qualified?, htarget] using halerts⟩
  · split
    · cases isLocal with
      | true => exact ⟨s, rfl, by simp [finishAlerts]⟩
      | false => exact ⟨_, rfl, rfl⟩
    · next hwritten =>
      refine ⟨s, rfl, ?_⟩
      unfold finishAlerts
      split <;> simp_all
  · refine ⟨s, rfl, ?_⟩
    unfold finishAlerts
    split <;> simp_all

/-! ## What takes the place of an unqualified name -/

/-- A check that leaves the session as it is, with what its result is there. -/
def Reads (c : Context) (t : Session) (m : Check α) (Q : α → Prop) : Prop :=
  ∀ s a s', s.session = t → m c s = .ok (a, s') → s'.session = t ∧ Q a

namespace Reads

variable {t : Session} {f : α → Check β} {Q : α → Prop} {R : β → Prop}

theorem pure {a : α} (h : Q a) : Reads c t (pure a) Q := by
  intro s a' s' hs hrun
  cases hrun
  exact ⟨hs, h⟩

theorem bind (hm : Reads c t m Q) (hf : ∀ a, Q a → Reads c t (f a) R) :
    Reads c t (m >>= f) R := by
  intro s b s' hs hrun
  obtain ⟨a, u, hrun₁, hrun₂⟩ := bind_eq_ok hrun
  obtain ⟨hu, ha⟩ := hm s a u hs hrun₁
  exact hf a ha u b s' hu hrun₂

/-- Two properties of the one result. -/
theorem and {Q' : α → Prop} (h : Reads c t m Q) (h' : Reads c t m Q') :
    Reads c t m fun a => Q a ∧ Q' a := by
  intro s a s' hs hrun
  obtain ⟨ht, hq⟩ := h s a s' hs hrun
  exact ⟨ht, hq, (h' s a s' hs hrun).2⟩

end Reads

variable {t : Session}

theorem reads_report (kind : AlertKind) (span : Span) :
    Reads c t (report kind span) fun _ => True := by
  intro s u s' hs hrun
  cases hrun
  exact ⟨hs, trivial⟩

theorem reads_registry : Reads c t registry (· = t.registry) := by
  intro s r s' hs hrun
  cases hrun
  exact ⟨hs, by rw [hs]⟩

theorem reads_environment (h : t.registry.get? c.env = some env) :
    Reads c t environment (· = env) := by
  intro s env' s' hs hrun
  obtain ⟨rfl, hown⟩ := environment_eq_ok hrun
  have hown' : t.registry.get? c.env = some env' := hs ▸ hown
  exact ⟨hs, Option.some.inj (hown'.symm.trans h)⟩

theorem reads_ownId : Reads c t ownId fun _ => True := by
  intro s id s' hs hrun
  cases hrun
  exact ⟨hs, trivial⟩

theorem reads_foreignVariable? (target : EnvId) (name : String) :
    Reads c t (foreignVariable? target name) (· = t.registry.variableOf? target name) := by
  intro s v s' hs hrun
  rw [foreignVariable?_eq] at hrun
  cases hrun
  exact ⟨hs, by rw [hs]⟩

theorem reads_enum? (ref : DeclRef) : Reads c t (enum? ref) fun _ => True := by
  unfold enum?
  split
  · exact .pure trivial
  · exact reads_registry.bind fun _ _ => .pure trivial

/-- The first import that has a variable of the name. -/
theorem reads_importedVariable? (id : Ident) (imports : List EnvId) :
    Reads c t (importedVariable? id imports) fun found =>
      imports.findSome? (t.registry.variableOf? · id.name) = found.map Prod.snd ∧
        ∀ p ∈ found, p.1 ∈ imports ∧ t.registry.variableOf? p.1 id.name = some p.2 := by
  induction imports with
  | nil => exact .pure ⟨rfl, nofun⟩
  | cons target rest ih =>
    refine (reads_foreignVariable? target id.name).bind fun found hfound => ?_
    cases found with
    | none =>
      intro s a s' hs hrun
      obtain ⟨hs', hfind, hmem⟩ := ih s a s' hs hrun
      refine ⟨hs', by rw [List.findSome?_cons_of_isNone (by rw [← hfound]; rfl), hfind],
        fun p hp => ?_⟩
      obtain ⟨hin, hvar⟩ := hmem p hp
      exact ⟨List.mem_cons_of_mem _ hin, hvar⟩
    | some v =>
      have hdone : Reads c t (pure (some (target, v)) : Check (Option (EnvId × Variable)))
          fun found => (target :: rest).findSome? (t.registry.variableOf? · id.name) =
              found.map Prod.snd ∧
            ∀ p ∈ found, p.1 ∈ target :: rest ∧ t.registry.variableOf? p.1 id.name = some p.2 := by
        refine .pure ⟨by simp [← hfound], fun p hp => ?_⟩
        cases hp
        exact ⟨List.mem_cons_self, hfound.symm⟩
      dsimp only
      split
      · exact reads_registry.bind fun _ _ => (reads_report _ _).bind fun _ _ => hdone
      · exact hdone

/-- The import in which an enum of the name was found. -/
theorem reads_importedEnum? (name : String) (imports : List EnvId) :
    Reads c t (importedEnum? name imports) fun found => ∀ p ∈ found, p.1 ∈ imports := by
  induction imports with
  | nil => exact .pure nofun
  | cons target rest ih =>
    refine (reads_enum? _).bind fun found _ => ?_
    split
    · intro s a s' hs hrun
      obtain ⟨hs', hmem⟩ := ih s a s' hs hrun
      exact ⟨hs', fun p hp => List.mem_cons_of_mem _ (hmem p hp)⟩
    · refine .pure fun p hp => ?_
      cases hp
      exact List.mem_cons_self

/-- A variable of an environment or library is valid. -/
theorem valid_variableOf? {r : Registry} (h : r.Valid) {target : EnvId} {name : String}
    {v : Variable} (hv : r.variableOf? target name = some v) : v.Valid r := by
  have hfine : r.Fine False := h.fine id
  unfold Registry.variableOf? at hv
  split at hv
  · exact (Library.fine_binding? (k := .completion 0) hv).valid
  · obtain ⟨env, he, hv⟩ := Option.bind_eq_some_iff.1 hv
    exact (hfine.rootVariable? he hv).valid

/-- A name that no scope binds: the look at the node that took its place notices a constant, and
a literal took its place only if it is one. -/
theorem reads_identifier (hvalid : t.registry.Valid) (hown : t.registry.get? c.env = some env)
    {id : Ident} (hid : env.scopes.resolve? id.name = none) :
    Reads c t (identifier id) fun r =>
      finishAlerts t.registry (.ident id) r.1 false =
          constAlerts (env.variableOf? t.registry id.name) id ∧
        (r.1.literal?.isSome → (env.variableOf? t.registry id.name).any (·.isConst) = true) := by
  have hscopes : Reads c t scopes (· = env.scopes) :=
    (reads_environment hown).bind fun _ he => .pure (by rw [he])
  -- The name that takes the place of an import leads back to it.
  have hqualified : ∀ target ∈ env.imports, ∀ span : Span,
      finishAlerts t.registry (.ident id) (.envAccess ⟨t.registry.nameOf target, span⟩ id span) false
        = constAlerts (t.registry.variableOf? target id.name) id := by
    intro target ht span
    have hnamed : t.registry.lookup? (t.registry.nameOf target) = some target :=
      (hvalid.envs _ env hown).imports target ht
    simp [finishAlerts, Registry.qualified?, hnamed]
  have hqualify (target : EnvId) :
      Reads c t (qualify target id)
        (· = .envAccess ⟨t.registry.nameOf target, id.span⟩ id id.span) :=
    reads_registry.bind fun _ hr => .pure (by rw [hr])
  refine hscopes.bind fun _ hstack => ?_
  subst hstack
  simp only [hid]
  cases hbuiltin : Library.builtin.binding? id.name with
  | some v => exact .pure ⟨by simp [finishAlerts, Environment.variableOf?, hid, hbuiltin], nofun⟩
  | none =>
    dsimp only
    refine (reads_environment hown).bind fun own henv => ?_
    rw [henv]
    refine (reads_importedVariable? id _).bind fun found ⟨hfind, hmem⟩ => ?_
    have hvariable : env.variableOf? t.registry id.name = found.map Prod.snd := by
      rw [Environment.variableOf?, hid, hbuiltin, ← hfind]
      rfl
    rw [hvariable]
    cases found with
    | some p =>
      obtain ⟨target, v⟩ := p
      obtain ⟨hin, hv⟩ := hmem _ rfl
      dsimp only
      cases hconstant : v.constant with
      | some lit =>
        have hconst : v.isConst = true :=
          (valid_variableOf? hvalid hv).constant (by simp [hconstant])
        exact .pure ⟨by simp [finishAlerts, inlineLiteral, constAlerts, hconst],
          fun _ => by simp [hconst]⟩
      | none =>
        refine (hqualify target).bind fun e he => .pure ?_
        subst he
        exact ⟨by rw [hqualified target hin, hv]; rfl, nofun⟩
    | none =>
      -- No import has a variable of the name, so one with an enum of the name has none.
      have hnone (target : EnvId) (ht : target ∈ env.imports) :
          t.registry.variableOf? target id.name = none :=
        List.findSome?_eq_none_iff.1 hfind target ht
      have hident : finishAlerts t.registry (.ident id) (.ident id) false = [] := rfl
      unfold enumName
      refine (reads_environment hown).bind fun own henv => ?_
      rw [henv]
      split
      · exact .pure ⟨hident, nofun⟩
      · refine (reads_importedEnum? _ _).bind fun found hfound => ?_
        split
        · next target info =>
          have hin := hfound _ rfl
          refine reads_ownId.bind fun own _ => ?_
          split
          · exact .pure ⟨hident, nofun⟩
          · refine (hqualify target).bind fun e he => .pure ?_
            subst he
            exact ⟨by rw [hqualified target hin, hnone target hin]; rfl, nofun⟩
        · exact (reads_report _ _).bind fun _ _ => .pure ⟨hident, nofun⟩

/-! ## What takes the place of other expressions -/

/-- The node of an expression that must have a value. -/
theorem Gives.single {m : Check (Expr × Value)} {P : Expr → Prop} (h : Gives m fun r => P r.1) :
    Gives (single m) fun r => P r.1 := by
  intro c s r s' hrun
  obtain ⟨a, t, hrun₁, hrun₂⟩ := bind_eq_ok hrun
  obtain ⟨value, u, -, hrun₃⟩ := bind_eq_ok hrun₂
  cases hrun₃
  exact h c s a t hrun₁

/-- A member of the enclosing class or entity becomes a field of `self`, if `self` is allowed. -/
theorem gives_selfField (id : Ident) (owner : DeclRef) (kind : NamedKind) (value : Value) :
    Gives (selfField id owner kind value) fun r =>
      r.1 = .ident id ∨ ∃ index, r.1 = .field (.self (some kind) id.span) id index id.span := by
  refine .bind fun stack => ?_
  dsimp only
  split
  · exact .bind fun _ => .pure (.inl rfl)
  · exact .bind fun members => .pure (.inr ⟨_, rfl⟩)

/-- A literal takes the place of a name of a scope exactly if the variable has one, and otherwise
the look at the node finds nothing to report. -/
theorem literal_scopedName (h : s.own? c = some env) {id : Ident} {position : Nat} {v : Variable}
    (hv : env.scopes.binding? position id.name = some v) {r : Expr × Value}
    (hrun : scopedName id position c s = .ok (r, s')) (after : Registry) :
    (r.1.literal?.isSome → v.constant.isSome) ∧ finishAlerts after (.ident id) r.1 true = [] := by
  obtain ⟨stack, t, hscopes, hrun⟩ := bind_eq_ok hrun
  rw [scopes_eq h] at hscopes
  cases hscopes
  simp only [hv] at hrun
  obtain ⟨_, u, -, hrun⟩ := bind_eq_ok hrun
  cases hconstant : v.constant with
  | some lit =>
    simp only [hconstant] at hrun
    cases hrun
    exact ⟨fun _ => rfl, rfl⟩
  | none =>
    simp only [hconstant] at hrun
    cases hcontainer : (env.scopes.get? position).bind (·.tag.container?) with
    | some p =>
      simp only [hcontainer] at hrun
      rcases gives_selfField _ _ _ _ _ _ _ _ hrun with hr | ⟨index, hr⟩ <;> rw [hr] <;>
        exact ⟨nofun, rfl⟩
    | none =>
      simp only [hcontainer] at hrun
      cases hrun
      exact ⟨nofun, rfl⟩

/-- The node of a call is a call. -/
theorem isName_callNode (caller : Expr) (owner : Option MethodOwner) (generics : List TypeExpr)
    (args : List Expr) (returnAmount : Nat) (span : Span) :
    (callNode caller owner generics args returnAmount span).isName = false ∧
      (callNode caller owner generics args returnAmount span).literal? = none := by
  unfold callNode
  split <;> exact ⟨rfl, rfl⟩

/-- What takes the place of a field is the field, or the number of an enum field. -/
theorem gives_fieldAccess (target : Expr) (value : Value) (field : Ident) (index : Option Nat)
    (span : Span) : Gives (fieldAccess target value field index span) fun r =>
      (∃ index', r.1 = .field target field index' span) ∨ ∃ lit, r.1 = .literal lit := by
  unfold fieldAccess
  dsimp only
  split
  · exact .bind fun _ => .pure (.inl ⟨_, rfl⟩)
  · exact .bind fun _ => .pure (.inl ⟨_, rfl⟩)
  · refine .bind fun info => ?_
    split
    · split
      · exact .pure (.inl ⟨_, rfl⟩)
      · exact .pure (.inr ⟨_, rfl⟩)
    · exact .bind fun _ => .pure (.inl ⟨_, rfl⟩)
  · exact .bind fun _ => .pure (.inl ⟨_, rfl⟩)
  · exact .bind fun _ => .pure (.inl ⟨_, rfl⟩)
  · exact .pure (.inl ⟨_, rfl⟩)
  · exact .bind fun _ => .pure (.inl ⟨_, rfl⟩)

/-- No name takes the place of an expression that is none, and a literal takes the place of a
field or a literal only. -/
theorem gives_expr (e : Expr) (hint : Option Ty) (he : e.isName = false) :
    Gives (expr e hint) fun r =>
      r.1.isName = false ∧ (r.1.literal?.isSome → e.literal?.isSome ∨ e.isField = true) := by
  have hkept {e' : Expr} (hname : e'.isName = false) (hlit : e'.literal? = none) :
      e'.isName = false ∧ (e'.literal?.isSome → e.literal?.isSome ∨ e.isField = true) :=
    ⟨hname, fun h => by rw [hlit] at h; cases h⟩
  cases e with
  | literal lit => exact .pure ⟨rfl, fun _ => .inl rfl⟩
  | ident id => cases he
  | builtin id => cases he
  | envAccess env name span => cases he
  | unary op operand span => exact .bind fun _ => .bind fun _ => .pure (hkept rfl rfl)
  | binary left op right span =>
    refine .bind fun _ => .bind fun _ => .bind fun _ => ?_
    dsimp only
    split
    · exact .bind fun _ => .bind fun _ => .pure (hkept rfl rfl)
    · exact .bind fun _ => .pure (hkept rfl rfl)
  | group inner span => exact .bind fun _ => .pure (hkept rfl rfl)
  | list elems span => exact .bind fun _ => .bind fun _ => .pure (hkept rfl rfl)
  | map entries span => exact .bind fun _ => .bind fun _ => .pure (hkept rfl rfl)
  | call caller generics args returnAmount span =>
    refine .bind fun p => ?_
    obtain ⟨caller', callee⟩ := p
    dsimp only
    split
    · refine .bind fun _ => .pure ?_
      exact hkept (isName_callNode _ _ _ _ _ _).1 (isName_callNode _ _ _ _ _ _).2
    · split
      · exact .bind fun _ => .bind fun _ => .pure (hkept rfl rfl)
      · exact .bind fun _ => .pure (hkept rfl rfl)
  | methodCall receiver owner kind method generics args returnAmount span =>
    refine .bind fun _ => .bind fun called => ?_
    cases called with
    | found signature => exact .bind fun _ => .pure (hkept rfl rfl)
    | missing => exact .bind fun _ => .pure (hkept rfl rfl)
    | ownerless => exact .pure (hkept rfl rfl)
  | field target field index span =>
    refine .bind fun r => fun c s r' s' hrun => ⟨?_, fun _ => .inr rfl⟩
    rcases gives_fieldAccess r.1 r.2 field index span c s r' s' hrun with ⟨_, hr⟩ | ⟨_, hr⟩ <;>
      rw [hr] <;> rfl
  | member target index span =>
    exact .bind fun _ => .bind fun _ => .bind fun _ => .pure (hkept rfl rfl)
  | self owner span => exact .bind fun _ => .pure (hkept rfl rfl)
  | new ty generics args span =>
    refine .bind fun found => ?_
    obtain ⟨ref, signature⟩ := found
    cases signature with
    | some signature => exact .bind fun _ => .pure (hkept rfl rfl)
    | none => exact .bind fun _ => .pure (hkept rfl rfl)
  | spawn ty generics args span =>
    refine .bind fun found => ?_
    obtain ⟨ref, signature⟩ := found
    cases signature with
    | some signature => exact .bind fun _ => .pure (hkept rfl rfl)
    | none => exact .bind fun _ => .pure (hkept rfl rfl)
  | function params returns stmts span =>
    exact .bind fun _ => .bind fun _ => .pure (hkept rfl rfl)
  | matching subject arms returnAmount span =>
    exact .bind fun _ => .bind fun _ => .bind fun _ => .pure (hkept rfl rfl)
  | entityTest value ty binding negated official span =>
    exact .bind fun _ => .bind fun _ => .bind fun _ => .pure (hkept rfl rfl)
  | error span => exact .pure (hkept rfl rfl)

/-- The literal of a qualified name is that of the variable it stands for. -/
theorem reads_qualified? (target : EnvId) (name : String) :
    Reads c t (qualified? target name) fun found => ∀ q ∈ found, ∀ lit, q.constant = some lit →
      ∃ v, t.registry.variableOf? target name = some v ∧ v.constant = some lit := by
  refine (reads_foreignVariable? target name).bind fun found hfound => ?_
  cases found with
  | some v =>
    refine .pure fun q hq lit hlit => ?_
    cases hq
    exact ⟨v, hfound.symm, hlit⟩
  | none =>
    refine (reads_enum? _).bind fun info _ => ?_
    cases info with
    | some info =>
      refine .pure fun q hq lit hlit => ?_
      cases hq
      cases hlit
    | none => exact .pure nofun

/-- A qualified name is kept, or the literal of a constant takes its place. -/
theorem literal_qualifiedName (hs : Good c d s) {q name : Ident} {span : Span} {r : Expr × Value}
    (hrun : qualifiedName q name span c s = .ok (r, s')) :
    r.1 = .envAccess q name span ∨ ∃ v lit,
      s'.session.registry.qualified? q.name name.name = some v ∧ v.constant = some lit ∧
        r.1 = inlineLiteral lit span := by
  have hkept : Gives (pure (Expr.envAccess q name span, Value.invalid) : Check (Expr × Value))
      fun r => r.1 = .envAccess q name span := .pure rfl
  obtain ⟨registry, t, hregistry, hrun₁⟩ := bind_eq_ok hrun
  cases hregistry
  cases htarget : s.session.registry.lookup? q.name with
  | none =>
    simp only [htarget] at hrun₁
    exact .inl (Gives.bind (fun _ => hkept) c s r s' hrun₁)
  | some target =>
    simp only [htarget] at hrun₁
    obtain ⟨linked, t, hlink, hrun₂⟩ := bind_eq_ok hrun₁
    obtain ⟨n, flags, htidy, -⟩ := hs.tidy
    obtain ⟨-, hext, -⟩ := (sound_link target span).apply htidy (.refl _) hlink
    have htarget' := (hext.lookup? q.name).trans htarget
    cases linked with
    | false => exact .inl (hkept c t r s' hrun₂)
    | true =>
      -- After the link nothing but alerts is added to the state.
      have hdone {m : Check (Expr × Value)} (hrun : m c t = .ok (r, s'))
          (hm : Reads c t.session m fun r => r.1 = .envAccess q name span ∨ ∃ v lit,
            t.session.registry.qualified? q.name name.name = some v ∧ v.constant = some lit ∧
              r.1 = inlineLiteral lit span) :
          r.1 = .envAccess q name span ∨ ∃ v lit,
            s'.session.registry.qualified? q.name name.name = some v ∧ v.constant = some lit ∧
              r.1 = inlineLiteral lit span := by
        obtain ⟨hsession, hr⟩ := hm t r s' rfl hrun
        rwa [hsession]
      refine hdone hrun₂ ((reads_qualified? target name.name).bind fun found hfound => ?_)
      cases found with
      | none => exact (reads_report _ _).bind fun _ _ => .pure (.inl rfl)
      | some found =>
        refine reads_ownId.bind fun own _ => ?_
        cases hconstant : found.constant with
        | some lit =>
          obtain ⟨v, hv, hvlit⟩ := hfound found rfl lit hconstant
          have hqualified : t.session.registry.qualified? q.name name.name = some v := by
            rw [Registry.qualified?, htarget']
            exact hv
          split
          · exact (reads_report _ _).bind fun _ _ => .pure (.inr ⟨v, lit, hqualified, hvlit, rfl⟩)
          · exact .pure (.inr ⟨v, lit, hqualified, hvlit, rfl⟩)
        | none =>
          split
          · exact (reads_report _ _).bind fun _ _ => .pure (.inl rfl)
          · exact .pure (.inl rfl)

/-! ## What an assignment reports -/

/-- A literal that is a target of the resolved tree: it was written as one, it is the number of an
enum field, it took the place of a qualified name, or an alert was reported. -/
def LiteralTarget (alerts : List Alert) (after : Registry) (written resolved : Expr) : Prop :=
  resolved.literal?.isSome → written.literal?.isSome ∨ written.isField = true ∨ alerts ≠ [] ∨
    ∃ q name span v, written = .envAccess q name span ∧
      after.qualified? q.name name.name = some v ∧ v.constant.isSome

/-- A target is assigned: between two looks at it, it is read. Reading only adds alerts, and the
looks report the constants that are noticed and nothing else. -/
def Assigns (c : Context) (written resolved : Expr) (s s' : State) : Prop :=
  ∃ env isLocal value s₀ s₁ before after,
    s.own? c = some env ∧ assignLocal written c s = .ok (isLocal, s₀) ∧
      single (expr written none) c s₀ = .ok ((resolved, value), s₁) ∧
      finishPlace written resolved isLocal c s₁ = .ok ((), s') ∧
      s₀.alerts.alerts = s.alerts.alerts ++ before ∧
      s₀.alerts.alerts <+: s₁.alerts.alerts ∧
      s'.alerts.alerts = s₁.alerts.alerts ++ after ∧
      before ++ after = noticed env s.session.registry s₁.session.registry written resolved ∧
      LiteralTarget (before ++ after) s₁.session.registry written resolved

/-- Targets are assigned one after the other. -/
inductive AssignsAll (c : Context) : List Expr → List Expr → State → State → Prop
  | nil (s : State) : AssignsAll c [] [] s s
  | cons {e e' : Expr} {rest rest' : List Expr} {s t u : State} (first : Assigns c e e' s t)
      (others : AssignsAll c rest rest' t u) : AssignsAll c (e :: rest) (e' :: rest') s u

/-- A target is assigned if the alerts of the two looks around every reading are those that are
noticed. -/
theorem assigns_of_reading (hl : Live c s o) (hown : s.own? c = some env) {e : Expr}
    {isLocal : Bool} {s₀ : State} {b : List Alert}
    (hassign : assignLocal e c s = .ok (isLocal, s₀))
    (hb : s₀.alerts.alerts = s.alerts.alerts ++ b)
    (hread : ∀ e' value s₁, single (expr e none) c s₀ = .ok ((e', value), s₁) →
      b ++ finishAlerts s₁.session.registry e e' isLocal =
          noticed env s.session.registry s₁.session.registry e e' ∧
        LiteralTarget (b ++ finishAlerts s₁.session.registry e e' isLocal)
          s₁.session.registry e e') :
    ∃ e' value s', place e c s = .ok ((e', value), s') ∧ Assigns c e e' s s' := by
  have hquiet : Quiet .checking (assignLocal e) := quiet_assignLocal e
  have hexpr : Quiet .checking (single (expr e none)) := (quiet_expr e none).single
  obtain ⟨-, hl₀⟩ := (hquiet c s o hl).apply hassign
  obtain ⟨⟨e', value⟩, s₁, hrun, hsteps, hl₁⟩ := hexpr c s₀ o hl₀
  obtain ⟨env₁, hown₁, -, -⟩ := hl₁.own
  obtain ⟨s', hfinish, hafter⟩ := finishPlace_eq hown₁ e e' isLocal
  obtain ⟨hnoticed, hliteral⟩ := hread e' value s₁ hrun
  refine ⟨e', value, s', ?_, env, isLocal, value, s₀, s₁, b, _, hown, hassign, hrun, hfinish,
    hb, Steps.alerts_prefix hsteps, hafter, hnoticed, hliteral⟩
  rw [place, bind_apply_ok hassign, bind_apply_ok hrun]
  exact bind_apply_ok hfinish

/-- Only a name can be a local one. -/
theorem assignLocal_eq_of_other {e : Expr} (he : ∀ id, e ≠ .ident id) :
    assignLocal e c s = .ok (false, s) := by
  unfold assignLocal
  split
  · next id => exact absurd rfl (he id)
  · rfl

/-- The session is the same after the number of values was checked. -/
theorem session_single {m : Check (Expr × Value)} {r : Expr × Value}
    (hrun : single m c s = .ok (r, s')) :
    ∃ value s₁, m c s = .ok ((r.1, value), s₁) ∧ s'.session = s₁.session := by
  obtain ⟨⟨e, value⟩, s₁, hrun₁, hrun₂⟩ := bind_eq_ok hrun
  obtain ⟨value', s₂, hrun₃, hrun₄⟩ := bind_eq_ok hrun₂
  cases hrun₄
  refine ⟨value, s₁, hrun₁, ?_⟩
  have hreads : Reads c s₁.session (expectSingle value e.span) fun _ => True := by
    unfold expectSingle
    split
    · exact (reads_report _ _).bind fun _ _ => .pure trivial
    · exact .pure trivial
  exact (hreads s₁ value' s' rfl hrun₃).1

/-- An unqualified name: every constant is noticed. -/
theorem runs_place_ident (hs : Good c d s) (hl : Live c s o) (id : Ident) :
    ∃ e' value s', place (.ident id) c s = .ok ((e', value), s') ∧ Assigns c (.ident id) e' s s' := by
  obtain ⟨env, hown, -, -⟩ := hs.own
  cases hid : env.scopes.resolve? id.name with
  | some position =>
    obtain ⟨v, hv⟩ := ScopeStack.exists_binding?_of_resolve? hid
    obtain ⟨s₀, env₀, v₀, hassign, hbefore, hown₀, hid₀, hv₀, hconstant⟩ :=
      assignLocal_eq_of_some hown hid hv
    refine assigns_of_reading hl hown hassign hbefore fun e' value s₁ hrun => ?_
    obtain ⟨value', s₂, hrun₁, -⟩ := session_single hrun
    have hscoped : scopedName id position c s₀ = .ok ((e', value'), s₂) := by
      have hident : (scopes >>= fun stack => match stack.resolve? id.name with
          | some position => scopedName id position
          | none => _) c s₀ = .ok ((e', value'), s₂) := hrun₁
      rw [bind_apply_ok (scopes_eq hown₀)] at hident
      simpa only [hid₀] using hident
    obtain ⟨hliteral, hnothing⟩ := literal_scopedName hown₀ hv₀ hscoped s₁.session.registry
    have hfine : s.session.registry.Fine False := hs.valid.fine not_false
    have hbinding := (hfine.envs _ env hown).scopes.binding? hv
    rw [hnothing, List.append_nil]
    refine ⟨by simp [noticed, Environment.variableOf?, hid, hv], fun hlit => .inr (.inr (.inl ?_))⟩
    simp [constAlerts, hbinding.constant (hconstant ▸ hliteral hlit)]
  | none =>
    refine assigns_of_reading (b := []) hl hown (assignLocal_eq_of_none hown hid) (by simp)
      fun e' value s₁ hrun => ?_
    obtain ⟨value', s₂, hrun₁, hsession⟩ := session_single hrun
    obtain ⟨hsession', hnoticed, hliteral⟩ :=
      reads_identifier hs.valid hown hid s _ s₂ rfl hrun₁
    rw [List.nil_append, hsession, hsession']
    refine ⟨hnoticed, fun hlit => .inr (.inr (.inl ?_))⟩
    rw [hnoticed]
    simp [constAlerts, hliteral hlit]

/-- A qualified name: a constant is noticed if no literal took the place of the name. -/
theorem runs_place_qualified (hs : Good c d s) (hl : Live c s o) (q name : Ident) (span : Span) :
    ∃ e' value s', place (.envAccess q name span) c s = .ok ((e', value), s') ∧
      Assigns c (.envAccess q name span) e' s s' := by
  obtain ⟨env, hown, -, -⟩ := hs.own
  refine assigns_of_reading (b := []) hl hown (assignLocal_eq_of_other nofun) (by simp)
    fun e' value s₁ hrun => ?_
  obtain ⟨value', s₂, hrun₁, hsession⟩ := session_single hrun
  rw [List.nil_append]
  rcases literal_qualifiedName hs hrun₁ with rfl | ⟨v, lit, hv, hlit, rfl⟩
  · exact ⟨rfl, nofun⟩
  · refine ⟨rfl, fun _ => .inr (.inr (.inr ⟨q, name, span, v, rfl, ?_, by simp [hlit]⟩))⟩
    rw [hsession]
    exact hv

/-- A name of the implicit library, written as such: it is noticed like an unqualified one. -/
theorem runs_place_builtin (hs : Good c d s) (hl : Live c s o) (id : Ident) :
    ∃ e' value s', place (.builtin id) c s = .ok ((e', value), s') ∧
      Assigns c (.builtin id) e' s s' := by
  obtain ⟨env, hown, -, -⟩ := hs.own
  refine assigns_of_reading (b := []) hl hown (assignLocal_eq_of_other nofun) (by simp)
    fun e' value s₁ hrun => ?_
  have hkept : Gives (expr (.builtin id) none) fun r => r.1 = .builtin id :=
    .bind fun _ => .pure rfl
  obtain rfl : e' = .builtin id := (Gives.single (P := (· = .builtin id)) hkept) _ _ _ _ hrun
  exact ⟨rfl, nofun⟩

/-- Any other target is read and nothing else. -/
theorem runs_place_other (hs : Good c d s) (hl : Live c s o) {e : Expr} (he : e.isName = false) :
    ∃ e' value s', place e c s = .ok ((e', value), s') ∧ Assigns c e e' s s' := by
  obtain ⟨env, hown, -, -⟩ := hs.own
  have hident : ∀ id, e ≠ .ident id := by
    rintro id rfl
    cases he
  refine assigns_of_reading (b := []) hl hown (assignLocal_eq_of_other hident) (by simp)
    fun e' value s₁ hrun => ?_
  obtain ⟨hname, hliteral⟩ := (Gives.single (P := fun e' => e'.isName = false ∧
    (e'.literal?.isSome → e.literal?.isSome ∨ e.isField = true)) (gives_expr e none he)) _ _ _ _ hrun
  have hfinish : finishAlerts s₁.session.registry e e' false = [] := by
    unfold finishAlerts
    split
    · cases hname
    · cases hname
    · split
      · next id => exact absurd rfl (hident id)
      · rfl
    · rfl
  have hnoticed (after : Registry) : noticed env s.session.registry after e e' = [] := by
    unfold noticed
    split
    · cases he
    · cases he
    · cases he
    · rfl
  rw [hfinish, hnoticed]
  exact ⟨rfl, fun hlit => (hliteral hlit).elim .inl (.inr ∘ .inl)⟩

/-- One target of any form. -/
theorem runs_place (hs : Good c d s) (hl : Live c s o) (e : Expr) :
    ∃ e' value s', place e c s = .ok ((e', value), s') ∧ Assigns c e e' s s' := by
  cases hname : e.isName with
  | false => exact runs_place_other hs hl hname
  | true =>
    cases e with
    | ident id => exact runs_place_ident hs hl id
    | builtin id => exact runs_place_builtin hs hl id
    | envAccess q name span => exact runs_place_qualified hs hl q name span
    | _ => cases hname

/-! ## All targets -/

theorem quiet_place (e : Expr) : Quiet .checking (place e) :=
  (quiet_assignLocal e).bind fun _ => (quiet_expr e none).single.bind fun _ =>
    (quiet_finishPlace _ _ _).bind fun _ => .pure _

theorem sound_place {k : Demands} {r : Registry} {flags : List Bool} {e : Expr}
    (he : k.fits → e.isSource = true) : Sound k c r flags (place e) fun _ _ => True :=
  (sound_assignLocal e).bind fun _ r₁ _ _ => (sound_expr e he r₁ flags declared_none).single.bind
    fun _ _ _ _ => (sound_finishPlace _ _ _).bind fun _ _ _ _ => .pure fun _ _ => trivial

/-- The targets of an assignment, one after the other. -/
theorem runs_places (hs : Good c d s) (hl : Live c s o) {es : List Expr}
    (hsource : Expr.allSource es = true) :
    ∃ es' values s', places es c s = .ok ((es', values), s') ∧ AssignsAll c es es' s s' := by
  induction es generalizing s d with
  | nil => exact ⟨[], [], s, rfl, .nil s⟩
  | cons e rest ih =>
    simp only [Expr.allSource, Bool.and_eq_true] at hsource
    have hquiet : Quiet .checking (place e) := quiet_place e
    obtain ⟨e', value, t, hplace, hassigns⟩ := runs_place hs hl e
    obtain ⟨-, hl'⟩ := (hquiet c s o hl).apply hplace
    obtain ⟨n, flags, htidy, -⟩ := hs.tidy
    obtain ⟨htidy', -⟩ := (sound_place fun _ => hsource.1).apply htidy (.refl _) hplace
    obtain ⟨rest', values, u, hrest, hall⟩ := ih htidy'.good hl' hsource.2
    refine ⟨e' :: rest', value :: values, u, ?_, .cons hassigns hall⟩
    rw [places_cons, bind_apply_ok hplace]
    exact bind_apply_ok hrest

/-- An assignment reads its targets, and reports in addition exactly the constants that are
noticed: all of those named without an environment, and those named with one that are kept. A
literal among the resolved targets was reported, or written as a literal, as a field or with an
environment. -/
theorem assign_notices_constants (hs : Good c d s) (hl : Live c s o) (targets exprs : List Expr)
    (op : AssignOp) (span : Span) (hsource : Expr.allSource targets = true) :
    ∃ targets' exprs' t s',
      stmt (.assign targets op exprs span) c s = .ok (.assign targets' op exprs' span, s') ∧
        AssignsAll c targets targets' s t ∧ t.alerts.alerts <+: s'.alerts.alerts := by
  have hquiet : Quiet .checking (places targets) := quiet_places targets
  obtain ⟨targets', found, t, hplaces, hall⟩ := runs_places hs hl hsource
  obtain ⟨-, hl₁⟩ := (hquiet c s o hl).apply hplaces
  have hvalues : Quiet .checking (values exprs (found.map Value.ty)) := quiet_values _ _
  obtain ⟨⟨exprs', given⟩, u, hgiven, hsteps, hl₂⟩ := hvalues c t o hl₁
  have hchecks : Quiet .checking (do
      let _ ← checkValueCount found.length given span "assignment"
      checkAssigned op found given
      return Stmt.assign targets' op exprs' span) :=
    (quiet_checkValueCount _ _ _ _).bind fun _ => (quiet_checkAssigned _ _ _).bind fun _ => .pure _
  obtain ⟨out, s', hrest, hsteps', -⟩ := hchecks c u o hl₂
  obtain rfl : out = .assign targets' op exprs' span := by
    obtain ⟨_, _, -, hrest⟩ := bind_eq_ok hrest
    obtain ⟨_, _, -, hrest⟩ := bind_eq_ok hrest
    cases hrest
    rfl
  refine ⟨targets', exprs', t, s', ?_, hall, Steps.alerts_prefix (hsteps.trans hsteps')⟩
  rw [stmt, bind_apply_ok hplaces]
  exact (bind_apply_ok hgiven).trans hrest

/-- The session of one empty program. -/
def emptySession : Session := ((Session.new {}).addProgram "demo.hyb" []).2

/-- The walk of its environment has started. -/
def emptyState : State := { session := emptySession.checkOut (.user 0) 0 }

/-- The name of a function of the implicit library. -/
def toStringName : Ident := ⟨"ToString", .synthetic⟩

/-- An assignment to a function of the implicit library is reported. -/
theorem assign_notices_library_function :
    ∃ out s', stmt (.assign [.ident toStringName] .plain [.error .synthetic] .synthetic)
        ⟨.user 0, Session.walk 0⟩ emptyState = .ok (out, s') ∧
      { kind := .constAssignment "ToString", span := .synthetic : Alert } ∈ s'.alerts.alerts := by
  have hloaded : emptySession.Loaded [("demo.hyb", [])] :=
    Session.loaded_files {} [("demo.hyb", [])]
  have hready : emptySession.Ready 1 := hloaded.ready fun file hfile => by
    obtain rfl := List.mem_singleton.1 hfile
    exact ⟨rfl, rfl⟩
  obtain ⟨env, henv⟩ : ∃ env, emptySession.registry.get? (.user 0) = some env := ⟨_, rfl⟩
  obtain ⟨hnew, -⟩ := hloaded.envs 0 env (by simpa using henv)
  have hwaits : env.state = .notWalked := by rw [hnew]
  have hgood := Session.good_checkOut hready (Session.safe_walk 0) henv hwaits
  have hlive := Session.live_checkOut (Session.framing_walk 0) hready.waitsNew henv hnew 0
  obtain ⟨targets, exprs, t, s', hrun, hall, hstart⟩ := assign_notices_constants hgood hlive
    [.ident toStringName] [.error .synthetic] .plain .synthetic rfl
  refine ⟨_, s', hrun, hstart.subset ?_⟩
  cases hall with
  | cons first others =>
    cases others
    obtain ⟨own, isLocal, value, s₀, s₁, before, after, hown, -, -, -, hbefore, hread, hafter,
      hnoticed, -⟩ := first
    have hself := emptySession.registry.get?_modify_self (.user 0) fun env =>
      { env with state := .walking }
    obtain rfl : own = { env with state := .walking } := by
      rw [henv] at hself
      exact Option.some.inj (hown.symm.trans hself)
    have hscopes : env.scopes = {} := by rw [hnew]
    have hconst : (Library.builtin.binding? "ToString").any (·.isConst) = true := by
      decide +kernel
    have hvariable (r : Registry) :
        ({ env with state := .walking } : Environment).variableOf? r "ToString" =
          Library.builtin.binding? "ToString" := by
      obtain ⟨v, hv⟩ : ∃ v, Library.builtin.binding? "ToString" = some v := ⟨_, rfl⟩
      have hresolve : ({} : ScopeStack).resolve? "ToString" = none := rfl
      simp [Environment.variableOf?, hscopes, hresolve, hv]
    have halert : before ++ after =
        [{ kind := .constAssignment "ToString", span := .synthetic }] := by
      rw [hnoticed]
      simp only [noticed, toStringName, constAlerts, hvariable, hconst, if_true]
    have hsubset : ∀ a ∈ before ++ after, a ∈ s₁.alerts.alerts ++ after := by
      intro a ha
      rcases List.mem_append.1 ha with ha | ha
      · exact List.mem_append_left _ (hread.subset (by simp [hbefore, ha]))
      · exact List.mem_append_right _ ha
    rw [hafter]
    exact hsubset _ (by simp [halert])

end Check

/-! ## A constant that is not noticed -/

/-- Whether a statement assigns to a literal. -/
def Stmt.assignsLiteral : Stmt → Bool
  | .assign targets _ _ _ => targets.any (·.literal?.isSome)
  | _ => false

/-- A level with a public constant `K`. -/
def constantProgram : Program :=
  [.level "Shared",
    .variable ⟨[⟨"K", .synthetic⟩], none, [.literal ⟨.number, "10", .synthetic⟩], true, true,
      .synthetic⟩]

/-- A level that assigns to `Shared::K`. -/
def qualifiedAssignment : Program :=
  [.level "Main",
    .assign [.envAccess ⟨"Shared", .synthetic⟩ ⟨"K", .synthetic⟩ .synthetic] .plain
      [.literal ⟨.number, "5", .synthetic⟩] .synthetic]

/-- An assignment to a constant by its qualified name becomes one to a literal, without an
alert. -/
theorem analyze_assigns_literal_silently :
    ∃ out, analyze {} [("shared.hyb", constantProgram), ("main.hyb", qualifiedAssignment)] =
        .ok out ∧ out.codes = [[], []] ∧
      out.programs.any (·.any Stmt.assignsLiteral) = true := by
  have hbuild : (analyze {} [("shared.hyb", constantProgram),
      ("main.hyb", qualifiedAssignment)]).toOption.any (fun out =>
        out.codes == [[], []] && out.programs.any (·.any Stmt.assignsLiteral)) = true := by
    decide +kernel
  obtain ⟨out, hout, hassigns⟩ := Check.exists_eq_ok_of_any hbuild
  rw [Bool.and_eq_true, beq_iff_eq] at hassigns
  exact ⟨out, hout, hassigns⟩

/-! ## A constant of an environment that may not be linked

Whether such a constant is noticed depends on whether its environment was walked before: reading the
name stops at the refused link, and the target is looked up all the same.
-/

/-- A level with a public constant that has no literal. -/
def negatedConstant : Program :=
  [.level "B",
    .variable ⟨[⟨"k", .synthetic⟩], none,
      [.unary .neg (.literal ⟨.number, "1", .synthetic⟩) .synthetic], true, true, .synthetic⟩]

/-- A mesh, which may not link a level, with an assignment to a constant of the level. -/
def refusedAssignment : Program :=
  [.env ⟨⟨"A", .synthetic⟩, ⟨"Mesh", .synthetic⟩, .synthetic⟩,
    .assign [.envAccess ⟨"B", .synthetic⟩ ⟨"k", .synthetic⟩ .synthetic] .plain
      [.literal ⟨.number, "1", .synthetic⟩] .synthetic]

/-- The assignment to a constant of an environment that may not be linked is reported if that
environment is registered before, and not if it is registered after. -/
theorem analyze_shows_order :
    analyzedCodes [("a.hyb", refusedAssignment), ("b.hyb", negatedConstant)] =
        some [[.unallowedEnvironmentAccess], []] ∧
      analyzedCodes [("b.hyb", negatedConstant), ("a.hyb", refusedAssignment)] =
        some [[], [.unallowedEnvironmentAccess, .constAssignment]] := by
  constructor
  · decide +kernel
  · decide +kernel

end HybroidSema
