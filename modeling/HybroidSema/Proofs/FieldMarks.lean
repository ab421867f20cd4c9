import HybroidSema.Proofs.ContainerScope
import HybroidSema.Proofs.Returns
import HybroidSema.Proofs.Visits

/-!
# Which fields a check assigns

Inside a class or entity, a check marks the fields that it assigns in the scope of the class or entity.
What it assigns depends on where it is run, so it is described by the places of assignments that its
walk comes to.

* `Check.Assigned`: the walk of a part comes to an assignment to the name.
* `Check.markings`: the names that the parts of a call assign.
* `Check.Assigning`: a check assigns the names that are given, and reports no field.
* `Assigning.bind`, `Assigning.guard` and `Assigning.inScope`: one rule for each way to build a check
  from its parts.
-/

namespace HybroidSema

namespace ScopeStack

variable {o o' : ScopeStack} {scope : Scope}

/-- Inside a class or entity `self` is permitted. -/
def PermitsSelf (o : ScopeStack) : Prop :=
  o.nearestContainer?.isSome → o.current.permits.selfRef = true

/-- Where statements stand: not among the members of a class or entity, and inside a function if that
is asked for. -/
structure Inside (below : Bool) (o : ScopeStack) : Prop where
  permitsSelf : o.PermitsSelf
  plain : o.current.tag.container? = none
  isRoot : below = true → o.isRoot = false

theorem container?_current_of_outline {s : ScopeStack} (h : s.outline = o) :
    s.current.tag.container? = o.current.tag.container? := by
  rw [← h, outline_current, Scope.outline_tag, ScopeTag.container?_outline]

theorem Alike.nearestContainer?_eq (h : o.Alike o') : o'.nearestContainer? = o.nearestContainer? := by
  obtain ⟨f, hf, rfl⟩ := h
  rw [modifyCurrent_eq_modifyAt]
  exact o.innermost?_modifyAt _ fun scope => by
    rw [ScopeTag.container?_of_kind_eq (Scope.kind_of_frame_eq (hf scope))]

theorem Alike.container?_current (h : o.Alike o') :
    o'.current.tag.container? = o.current.tag.container? := by
  obtain ⟨f, hf, rfl⟩ := h
  rw [current_modifyCurrent, ScopeTag.container?_of_kind_eq (Scope.kind_of_frame_eq (hf _))]

theorem Inside.alike {below : Bool} (h : o.Inside below) (halike : o.Alike o') : o'.Inside below where
  permitsSelf hinside := by
    rw [halike.permits]
    exact h.permitsSelf (halike.nearestContainer?_eq ▸ hinside)
  plain := halike.container?_current.trans h.plain
  isRoot hbelow := halike.isRoot.trans (h.isRoot hbelow)

/-- A scope that is opened for a function, a branch or a loop. -/
def OpensInner (enter : ScopeStack → ScopeStack) : Prop :=
  ∀ stack, ∃ scope : Scope, enter stack = stack.cons scope ∧ scope.tag.container? = none ∧
    (stack.current.permits.selfRef = true → scope.permits.selfRef = true)

theorem opensInner_push {tag : ScopeTag} (htag : tag.container? = none) (added : Permissions) :
    OpensInner (·.push tag added) :=
  fun stack => ⟨stack.pushedScope tag added, rfl, htag, fun hself => by
    simp [pushedScope, Permissions.union, hself]⟩

theorem opensInner_pushFunction (tag : FuncTag) : OpensInner (·.pushFunction tag) :=
  fun stack => ⟨stack.funcScope tag, rfl, rfl, id⟩

theorem PermitsSelf.cons (h : o.PermitsSelf) (hplain : scope.tag.container? = none)
    (hself : o.current.permits.selfRef = true → scope.permits.selfRef = true) :
    (o.cons scope).Inside true where
  permitsSelf hinside := hself (h (nearestContainer?_cons hplain ▸ hinside))
  plain := hplain
  isRoot _ := rfl

end ScopeStack

namespace Check

variable {α β : Type} {m : Check α} {f : α → Check β} {c : Context} {s s' t : State}
  {o o' : ScopeStack} {below : Bool}

/-! ## What a run assigns -/

/-- The variables of the innermost class or entity. -/
def State.members (c : Context) (s : State) : List (String × Variable) :=
  ((s.own? c).map (·.scopes.members)).getD []

theorem State.members_eq {env : Environment} (h : s.own? c = some env) :
    s.members c = env.scopes.members := by
  rw [members, h, Option.map_some, Option.getD_some]

/-- What a check does that assigns some names. It changes no scope below the innermost one but for the
fields that it marks, and it reports no field. -/
structure Fills (c : Context) (s : State) (o : ScopeStack) (names : String → Prop) (s' : State) :
    Prop where
  live : ∃ o', o.Alike o' ∧ Live c s' o'
  members : MarksAll names (s.members c) (s'.members c)
  unassigned : s'.unassigned = s.unassigned

section Fills

variable {names others : String → Prop}

theorem Fills.refl (hl : Live c s o) : Fills c s o ⊥ s :=
  ⟨⟨o, .refl o, hl⟩, .refl _, rfl⟩

/-- Names that are assigned one after the other. -/
theorem Fills.trans (h : Fills c s o names t) (h' : Fills c t o' others s') (halike : o.Alike o') :
    Fills c s o (names ⊔ others) s' := by
  obtain ⟨o'', halike', hl⟩ := h'.live
  exact ⟨⟨o'', halike.trans halike', hl⟩, h.members.trans h'.members,
    h'.unassigned.trans h.unassigned⟩

/-- Two checks one after the other that assign nothing. -/
theorem Fills.trans_bot (h : Fills c s o ⊥ t) (h' : Fills c t o ⊥ s') : Fills c s o ⊥ s' := by
  have hall := h.trans h' (.refl o)
  rwa [bot_sup_eq] at hall

theorem Edit.marksAll {g : Environment → Environment} {env : Environment} (h : Edit c .looking s g)
    (hown : s.own? c = some env) : MarksAll ⊥ env.scopes.members (g env).scopes.members := by
  cases h with
  | scopes g hg => exact ScopeStack.marksAll_of_unread_eq (hg env hown)
  | require =>
    simp only [Environment.require]
    split <;> exact .refl _
  | addImport _ hphase | setField _ _ _ _ hphase => exact absurd rfl hphase
  | claimClass _ _ hphase | claimEntity _ _ hphase | claimEnum _ _ hphase | claimAlias _ _ hphase
  | fillClass _ _ hphase | fillEntity _ _ hphase | fillAlias _ _ hphase => cases hphase

/-- A check that only looks at variables assigns none. -/
theorem Fills.of_steps (hl : Live c s o) (h : Steps c .looking s s') (hl' : Live c s' o) :
    Fills c s o ⊥ s' := by
  obtain ⟨env, hown, -, -⟩ := hl.own
  obtain ⟨env', hown', hmarks⟩ := Steps.own_keeps
    (I := fun env' => MarksAll ⊥ env.scopes.members env'.scopes.members) hl h
    (fun _ _ _ hedit he hmarks => bot_sup_eq (⊥ : String → Prop) ▸ hmarks.trans (hedit.marksAll he))
    hown (.refl _)
  exact ⟨⟨o, .refl o, hl'⟩, by rwa [State.members_eq hown, State.members_eq hown'],
    Steps.unassigned_eq rfl h⟩

/-- A change of the own environment. -/
theorem Fills.of_modifyOwn {g : Environment → Environment} {env : Environment} (hl : Live c s o)
    (hown : s.own? c = some env) (hstate : (g env).state = env.state)
    (halike : o.Alike (g env).scopes.outline)
    (hmembers : MarksAll names env.scopes.members (g env).scopes.members) :
    Fills c s o names (s.modifyOwn c g) := by
  have hown' : (s.modifyOwn c g).own? c = some (g env) := by
    rw [own?_modifyOwn, hown]
    rfl
  refine ⟨⟨_, halike, hl.modifyOwn fun e he _ => ?_⟩, ?_, rfl⟩
  · obtain rfl := Option.some.inj (hown.symm.trans he)
    exact ⟨hstate, rfl⟩
  · rwa [State.members_eq hown, State.members_eq hown']

/-- A change of the own environment that keeps the variables of the class or entity. -/
theorem Fills.of_members_eq {g : Environment → Environment} {env : Environment} (hl : Live c s o)
    (hown : s.own? c = some env) (hstate : (g env).state = env.state)
    (halike : o.Alike (g env).scopes.outline)
    (hmembers : (g env).scopes.members = env.scopes.members) :
    Fills c s o ⊥ (s.modifyOwn c g) :=
  .of_modifyOwn hl hown hstate halike (hmembers ▸ .refl _)

end Fills

/-! ## Checks that assign nothing -/

/-- A check that assigns no field, wherever it is run. -/
def Fixes (m : Check α) : Prop :=
  ∀ c s o, Live c s o → Runs m c s fun _ s' => Fills c s o ⊥ s'

/-- A check that only looks at variables. -/
theorem Quiet.fixes (h : Quiet .looking m) : Fixes m :=
  fun c s o hl => (h c s o hl).mono fun _ _ ht => .of_steps hl ht.1 ht.2

theorem Fixes.bind (hm : Fixes m) (hf : ∀ a, Fixes (f a)) : Fixes (m >>= f) := by
  intro c s o hl
  obtain ⟨a, t, hrun, hfirst⟩ := hm c s o hl
  obtain ⟨o', halike, hl'⟩ := hfirst.live
  obtain ⟨b, u, hrun', hrest⟩ := hf a c t o' hl'
  refine ⟨b, u, (bind_apply_ok hrun).trans hrun', ?_⟩
  exact bot_sup_eq (⊥ : String → Prop) ▸ hfirst.trans hrest halike

theorem Fixes.forM {ι : Type} {step : ι → Check PUnit} (items : List ι) (h : ∀ i, Fixes (step i)) :
    Fixes (items.forM step) := by
  induction items with
  | nil => exact Quiet.fixes (.pure _)
  | cons i rest ih => exact (h i).bind fun _ => ih

/-! ## The names that a walk assigns -/

/-- The names that are assigned when something is run in a context from a state. -/
abbrev Marking := Context → State → String → Prop

/-- What is assigned after a check. -/
def After (m : Check α) (F : α → Marking) : Marking :=
  fun c s name => ∃ a t, m c s = .ok (a, t) ∧ F a c t name

theorem after_eq {F : α → Marking} {a : α} (hrun : m c s = .ok (a, t)) :
    After m F c s = F a c t := by
  funext name
  refine propext ⟨?_, fun h => ⟨a, t, hrun, h⟩⟩
  rintro ⟨b, u, hrun', h⟩
  obtain ⟨rfl, rfl⟩ : a = b ∧ t = u := by simpa [hrun] using hrun'
  exact h

theorem after_pure (a : α) (F : α → Marking) : After (pure a) F = F a :=
  funext fun _ => funext fun _ => after_eq rfl

theorem after_bind (m : Check α) (f : α → Check β) (F : β → Marking) :
    After (m >>= f) F = After m fun a => After (f a) F := by
  funext c s name
  refine propext ⟨?_, ?_⟩
  · rintro ⟨b, u, hrun, h⟩
    obtain ⟨a, t, hm, hf⟩ := bind_eq_ok hrun
    exact ⟨a, t, hm, b, u, hf, h⟩
  · rintro ⟨a, t, hm, b, u, hf, h⟩
    exact ⟨b, u, (bind_apply_ok hm).trans hf, h⟩

theorem after_bot (m : Check α) : After m (fun _ => ⊥) = ⊥ := by
  funext c s name
  exact eq_false fun ⟨_, _, _, h⟩ => h

theorem after_sup (m : Check α) (F G : α → Marking) :
    After m (fun a => F a ⊔ G a) = After m F ⊔ After m G := by
  funext c s name
  refine propext ⟨?_, ?_⟩
  · rintro ⟨a, t, hrun, h | h⟩
    exacts [.inl ⟨a, t, hrun, h⟩, .inr ⟨a, t, hrun, h⟩]
  · rintro (⟨a, t, hrun, h⟩ | ⟨a, t, hrun, h⟩)
    exacts [⟨a, t, hrun, .inl h⟩, ⟨a, t, hrun, .inr h⟩]

/-- The target of an assignment is a field of the innermost class or entity: it is written as a field
of `self`, or as a name that is resolved to the scope of the class or entity. -/
def Target (e : Expr) (c : Context) (s : State) (name : String) : Prop :=
  match e with
  | .field (.self _ _) id _ _ => id.name = name
  | .ident id => id.name = name ∧ ∃ env position, s.own? c = some env ∧
      env.scopes.resolve? name = some position ∧ env.scopes.nearestContainer? = some position
  | _ => False

/-- From a part the walk comes to an assignment to the name. -/
def Assigned (task : Task) : Marking := fun c s name =>
  ∃ regions e rest t, Visits c task s regions (.places (e :: rest)) t ∧ Target e c t name

/-- What a part assigns. -/
def Part.marking (part : Part) : Marking :=
  After part fun found => (found.map fun entered => Assigned entered.2).getD ⊥

/-- What several parts assign. -/
def markings : List Part → Marking
  | [] => ⊥
  | part :: rest => part.marking ⊔ markings rest

/-- What a call assigns itself. -/
def Task.target : Task → Marking
  | .places (e :: _) => Target e
  | _ => ⊥

theorem markings_append (parts others : List Part) :
    markings (parts ++ others) = markings parts ⊔ markings others := by
  induction parts with
  | nil => exact (bot_sup_eq _).symm
  | cons part rest ih => exact (congrArg _ ih).trans (sup_assoc _ _ _).symm

/-- A check that is run before every one of several parts. -/
theorem markings_map_bind (m : Check α) (parts : List (α → Part)) :
    markings (parts.map fun part => m >>= part) = After m fun a => markings (parts.map (· a)) := by
  induction parts with
  | nil => exact (after_bot m).symm
  | cons part rest ih =>
    exact (congr_arg₂ _ (after_bind _ _ _) ih).trans (after_sup m _ _).symm

theorem markings_inside (regions : List Region) (task : Task) :
    markings [Part.inside regions task] = Assigned task := by
  rw [markings, Part.marking, Part.inside, after_pure]
  exact sup_bot_eq _

/-- What is left out assigns nothing. -/
theorem markings_skip (parts : List Part) : markings (.skip :: parts) = markings parts := by
  rw [markings, Part.marking, Part.skip, after_pure]
  exact bot_sup_eq _

theorem mem_markings {parts : List Part} {name : String} :
    markings parts c s name ↔ ∃ part ∈ parts, part.marking c s name := by
  induction parts with
  | nil => exact ⟨False.elim, fun ⟨_, hmem, _⟩ => absurd hmem List.not_mem_nil⟩
  | cons part rest ih =>
    refine Iff.trans (or_congr .rfl ih) ?_
    simp

/-- A call assigns what it assigns itself and what its parts assign. -/
theorem assigned_eq (task : Task) : Assigned task = task.target ⊔ markings (taskParts task) := by
  funext c s name
  refine propext ⟨?_, ?_⟩
  · rintro ⟨regions, e, rest, t, hvisits, htarget⟩
    cases hvisits with
    | here => exact .inl htarget
    | into hpart hrun hvisits =>
      exact .inr (mem_markings.2 ⟨_, hpart, _, _, hrun, _, e, rest, t, hvisits, htarget⟩)
  · rintro (htarget | hparts)
    · unfold Task.target at htarget
      split at htarget
      · exact ⟨[], _, _, s, .here _ s, htarget⟩
      · exact htarget.elim
    · obtain ⟨part, hpart, found, t, hrun, hfound⟩ := mem_markings.1 hparts
      cases found with
      | none => exact hfound.elim
      | some entered =>
        obtain ⟨regions, e, rest, u, hvisits, htarget⟩ := hfound
        exact ⟨_, e, rest, u, .into hpart hrun hvisits, htarget⟩

/-! ## Rules -/

/-- A check that assigns the given names, where statements may stand. -/
def Assigning (below : Bool) (m : Check α) (F : Marking) : Prop :=
  ∀ c s o, Live c s o → o.Inside below → MembersTidy (s.members c) →
    Runs m c s fun _ s' => Fills c s o (F c s) s'

/-- A check that assigns nothing. -/
abbrev Assignless (below : Bool) (m : Check α) : Prop := Assigning below m (markings [])

section Rules

variable {F : Marking} {G : α → Marking} {parts : List Part}

/-- One check after another, from a state in which the first one assigns what is given. -/
theorem Runs.fills_bind {names : String → Prop} (hm : Runs m c s fun _ t => Fills c s o names t)
    (hin : o.Inside below) (htidy : MembersTidy (s.members c))
    (hf : ∀ a, Assigning below (f a) (G a)) :
    Runs (m >>= f) c s fun _ u => Fills c s o (names ⊔ After m G c s) u := by
  obtain ⟨a, t, hrun, hfirst⟩ := hm
  obtain ⟨o', halike, hl'⟩ := hfirst.live
  obtain ⟨b, u, hrun', hrest⟩ :=
    hf a c t o' hl' (hin.alike halike) (htidy.marked hfirst.members)
  refine ⟨b, u, (bind_apply_ok hrun).trans hrun', ?_⟩
  rw [after_eq hrun]
  exact hfirst.trans hrest halike

theorem Assigning.seq (hm : Assigning below m F) (hf : ∀ a, Assigning below (f a) (G a)) :
    Assigning below (m >>= f) (F ⊔ After m G) :=
  fun c s o hl hin htidy => Runs.fills_bind (hm c s o hl hin htidy) hin htidy hf

theorem Assigning.congr {F' : Marking} (h : Assigning below m F) (heq : F = F') :
    Assigning below m F' := heq ▸ h

/-- The parts of a call. -/
theorem Assigning.task {task : Task} (htarget : task.target = ⊥)
    (h : Assigning below m (markings (taskParts task))) : Assigning below m (Assigned task) := by
  rwa [assigned_eq, htarget, bot_sup_eq]

/-- A call is the part of another one. -/
theorem Assigning.inside {task : Task} {r : List Region} (h : Assigning below m (Assigned task)) :
    Assigning below m (markings [.inside r task]) := by
  rwa [markings_inside]

/-- One check after another. The parts of the second one come after the first one. -/
theorem Assigning.bind (parts' : List (α → Part)) (hm : Assigning below m (markings parts))
    (hf : ∀ a, Assigning below (f a) (markings (parts'.map (· a)))) :
    Assigning below (m >>= f) (markings (parts ++ parts'.map fun part => m >>= part)) := by
  rw [markings_append, markings_map_bind]
  exact hm.seq hf

/-- A check after a part. -/
theorem Assigning.walk {task : Task} {r : List Region} (parts' : List (α → Part))
    (hm : Assigning below m (Assigned task))
    (hf : ∀ a, Assigning below (f a) (markings (parts'.map (· a)))) :
    Assigning below (m >>= f)
      (markings (.inside r task :: parts'.map fun part => m >>= part)) :=
  hm.inside.bind parts' hf

/-- A part that is left out. -/
theorem Assigning.skip (h : Assigning below m (markings parts)) :
    Assigning below m (markings (.skip :: parts)) := by
  rwa [markings_skip]

theorem Fixes.assigning (h : Fixes m) : Assignless below m :=
  fun c s o hl _ _ => h c s o hl

/-- A check that only looks at variables. -/
theorem Quiet.assigning (h : Quiet .looking m) : Assignless below m :=
  h.fixes.assigning

theorem Assigning.pure (a : α) : Assignless below (pure a : Check α) :=
  Quiet.assigning (.pure a)

/-- A check that is made under a condition, before the rest. -/
theorem Assigning.guard {m : Check PUnit} {f : PUnit → Check β} {b : Prop} [Decidable b]
    (parts : List (PUnit → Part)) (hm : Assignless below m)
    (hf : ∀ u, Assigning below (f u) (markings (parts.map (· u)))) :
    Assigning below (if b then m >>= f else f ⟨⟩)
      (markings (parts.map fun part => if b then m >>= part else part ⟨⟩)) := by
  split
  · exact hm.bind parts hf
  · exact hf ⟨⟩

/-- The same where the scopes are read before. -/
theorem Assigning.guard_scopes {m : Check PUnit} {rest : Check β} {part : Part} {b : Prop}
    [Decidable b] {b' : ScopeStack → Prop} [∀ stack, Decidable (b' stack)] (hm : Assignless below m)
    (hrest : Assigning below rest (markings [part])) :
    Assigning below
      (if b then scopes >>= fun stack => if b' stack then m >>= fun _ => rest else rest else rest)
      (markings [if b then scopes >>= fun stack => if b' stack then m >>= fun _ => part else part
        else part]) := by
  have hscopes : Assignless below scopes := Quiet.assigning quiet_scopes
  split
  · exact hscopes.bind [fun stack => if b' stack then m >>= fun _ => part else part] fun _ =>
      .guard [fun _ => part] hm fun _ => hrest
  · exact hrest

end Rules

/-! ## Scopes -/

section Scopes

variable {enter : ScopeStack → ScopeStack}

/-- A change of the scopes that keeps the variables of the class or entity. -/
theorem assignless_modifyScopes {g : ScopeStack → ScopeStack}
    (hg : ∀ stack : ScopeStack, stack.current.tag.container? = none →
      stack.outline.Alike (g stack).outline ∧ (g stack).members = stack.members) :
    Assignless below (modifyScopes g) := by
  intro c s o hl hin _
  obtain ⟨env, hown, -, ho⟩ := hl.own
  obtain ⟨halike, hmembers⟩ :=
    hg env.scopes ((ScopeStack.container?_current_of_outline ho).trans hin.plain)
  exact ⟨⟨⟩, _, modifyScopes_eq hown g, .of_members_eq hl hown rfl (ho ▸ halike) hmembers⟩

/-- A check in a scope that is opened and is no class or entity. -/
theorem Runs.fills_inScope {body : Check α} {env : Environment} {scope : Scope}
    {names : String → Prop} (hl : Live c s o) (hown : s.own? c = some env)
    (hscope : enter env.scopes = env.scopes.cons scope) (hplain : scope.tag.container? = none)
    (hbody : ∀ s₁, modifyScopes enter c s = .ok (⟨⟩, s₁) → Live c s₁ (o.cons scope.outline) →
      s₁.members c = s.members c →
      Runs body c s₁ fun _ t => Fills c s₁ (o.cons scope.outline) names t) :
    Runs (inScope enter body) c s fun _ s' => Fills c s o names s' := by
  -- The scope is opened.
  have hopen := modifyScopes_eq hown enter
  have hown₁ : (s.modifyOwn c fun env => { env with scopes := enter env.scopes }).own? c =
      some { env with scopes := enter env.scopes } := by
    rw [own?_modifyOwn, hown]
    rfl
  have hl₁ : Live c (s.modifyOwn c fun env => { env with scopes := enter env.scopes })
      (o.cons scope.outline) := hl.modifyOwn fun e he ho => by
    obtain rfl := Option.some.inj (hown.symm.trans he)
    exact ⟨rfl, by rw [hscope, ← ho]; rfl⟩
  have hmembers₁ : (s.modifyOwn c fun env => { env with scopes := enter env.scopes }).members c =
      s.members c := by
    rw [State.members_eq hown₁, State.members_eq hown, hscope, ScopeStack.members_cons hplain]
  -- The body is run inside of it.
  obtain ⟨a, s₂, hrun, hfills⟩ := hbody _ hopen hl₁ hmembers₁
  obtain ⟨o₂, halike, hl₂⟩ := hfills.live
  obtain ⟨top, rfl⟩ := halike.of_cons
  obtain ⟨env₂, hown₂, hstate, ho₂⟩ := hl₂.own
  -- The scope is closed.
  obtain ⟨closed, rest, hclose, -, hrest⟩ := ScopeStack.close?_of_outline_eq_cons ho₂
  have hplain₂ : env₂.scopes.current.tag.container? = none :=
    (ScopeStack.container?_current_of_outline ho₂).trans
      (halike.container?_current.trans ((ScopeTag.container?_outline scope.tag).trans hplain))
  have hown₃ : (s₂.modifyOwn c fun env => { env with scopes := rest }).own? c =
      some { env₂ with scopes := rest } := by
    rw [own?_modifyOwn, hown₂]
    rfl
  have hruns : inScope enter body c s = .ok ((a, some closed),
      s₂.modifyOwn c fun env => { env with scopes := rest }) := by
    rw [inScope, bind_apply_ok hopen, bind_apply_ok hrun, bind_apply_ok (closeScope_eq hown₂ hclose)]
    rfl
  refine ⟨_, _, hruns, ⟨_, ScopeStack.alike_afterClosing o top, ?_⟩, ?_, hfills.unassigned⟩
  · exact hl₂.modifyOwn fun _ _ _ => ⟨rfl, hrest⟩
  · rw [State.members_eq hown₃, ScopeStack.members_close? hplain₂ hclose, ← State.members_eq hown₂,
      ← hmembers₁]
    exact hfills.members

/-- A check in a scope of a function, a branch or a loop, wherever that is opened. -/
theorem runs_inScope_fills {body : Check α} (henter : ScopeStack.OpensInner enter)
    (parts : List (PUnit → Part)) (hbody : Assigning true body (markings (parts.map (· ⟨⟩))))
    (hl : Live c s o) (hself : o.PermitsSelf) (htidy : MembersTidy (s.members c)) :
    Runs (inScope enter body) c s fun _ s' =>
      Fills c s o (markings (parts.map fun part => modifyScopes enter >>= part) c s) s' := by
  obtain ⟨env, hown, -, ho⟩ := hl.own
  obtain ⟨scope, hscope, hplain, hpermits⟩ := henter env.scopes
  refine Runs.fills_inScope hl hown hscope hplain fun s₁ hopen hl₁ hmembers₁ => ?_
  rw [markings_map_bind, after_eq hopen]
  have hplain₁ : scope.outline.tag.container? = none :=
    (ScopeTag.container?_outline scope.tag).trans hplain
  exact hbody c s₁ _ hl₁ (hself.cons hplain₁ fun h => hpermits (by
    rwa [← Scope.outline_permits, ← ScopeStack.outline_current, ho])) (hmembers₁ ▸ htidy)

/-- The parts inside of a scope that is opened. -/
theorem Assigning.inScope {body : Check α} (henter : ScopeStack.OpensInner enter)
    (parts : List (PUnit → Part)) (hbody : Assigning true body (markings (parts.map (· ⟨⟩)))) :
    Assigning below (inScope enter body)
      (markings (parts.map fun part => modifyScopes enter >>= part)) :=
  fun _ _ _ hl hin htidy => runs_inScope_fills henter parts hbody hl hin.permitsSelf htidy

/-- A variable of the innermost scope is bound. -/
theorem assignless_declare (binding : Variable) (what : String) :
    Assignless below (declare binding what) := by
  intro c s o hl hin htidy
  refine (runs_scopes hl).bind fun stack t ht => ?_
  obtain ⟨rfl, ho, env, hown, rfl⟩ := ht
  cases hd : env.scopes.declare binding with
  | error error =>
    have hreport : Assignless below (reportScopeError error binding.span what) :=
      Quiet.assigning (quiet_reportScopeError _ _ _)
    exact hreport c t o hl hin htidy
  | ok stack =>
    have hplain := (ScopeStack.container?_current_of_outline ho).trans hin.plain
    refine ⟨⟨⟩, _, modifyScopes_eq hown _, .of_members_eq hl hown rfl ?_
      (ScopeStack.members_declare hplain hd)⟩
    rw [show ({ env with scopes := stack } : Environment).scopes.outline = o from
      (ScopeStack.outline_declare hd).trans ho]
    exact .refl o

end Scopes

/-! ## Checks at one node -/

theorem Assigning.single {m : Check (Expr × Value)} {task : Task}
    (h : Assigning below m (Assigned task)) : Assigning below (Check.single m) (Assigned task) := by
  have hall := h.inside (r := []) |>.bind (f := fun r => expectSingle r.2 r.1.span >>= fun value =>
    Pure.pure (r.1, value)) [] fun _ => Quiet.assigning ((quiet_expectSingle _ _).bind fun _ => .pure _)
  rwa [List.map_nil, List.append_nil, markings_inside] at hall

theorem assignless_forM {ι : Type} {step : ι → Check PUnit} (items : List ι)
    (h : ∀ i, Assignless below (step i)) : Assignless below (items.forM step) := by
  induction items with
  | nil => exact .pure _
  | cons i rest ih => exact (h i).bind [] fun _ => ih

/-- A report of anything but a field. -/
theorem assignless_report {kind : AlertKind} (hkind : kind.isUninitialized = false) (span : Span) :
    Assignless below (report kind span) := by
  intro c s o hl _ _
  refine ⟨⟨⟩, _, rfl, ⟨⟨o, .refl o, hl.of_envs_eq rfl⟩, .refl _, ?_⟩⟩
  refine (s.alerts.filter_push _ _).trans ?_
  rw [hkind]
  exact List.append_nil _

theorem assignless_declareNarrowings (narrowings : List Narrowing) (negated : Bool) :
    Assignless below (declareNarrowings narrowings negated) :=
  assignless_forM _ fun _ => assignless_declare _ _

theorem assignless_bindParams (params : List Param) (types : List Ty) :
    Assignless below (bindParams params types) :=
  assignless_forM _ fun _ => assignless_declare _ _

theorem assignless_declareNames (d : Declaration) (names : List Ident) (values : List Value)
    (literals : List (Option Literal)) : Assignless below (declareNames d names values literals) := by
  induction names generalizing values literals with
  | nil => exact .pure _
  | cons name rest ih =>
    have hvalue : Assignless below (declaredValue name d.declared (values.head?.getD .invalid)) :=
      Quiet.assigning (quiet_declaredValue _ _ _)
    exact hvalue.bind [] fun _ => (assignless_declare _ _).bind [] fun _ => ih _ _

/-- The types of a signature are resolved in a scope of their own. -/
theorem fixes_resolveSignature (generics : List Ident) (params : List Param)
    (returns : List TypeExpr) : Fixes (resolveSignature generics params returns) := by
  have hnames : Fixes (distinctGenerics generics []) := Quiet.fixes (quiet_distinctGenerics _ _)
  refine hnames.bind fun names => Fixes.bind (fun c s o hl => ?_) fun _ => Quiet.fixes (.pure _)
  obtain ⟨env, hown, -, -⟩ := hl.own
  refine Runs.fills_inScope hl hown rfl rfl fun s₁ _ hl₁ _ => Quiet.fixes ?_ c s₁ _ hl₁
  exact (quiet_resolveTypes _).bind fun _ => (quiet_resolveTypes _).bind fun _ => .pure _

theorem assignless_functionSignature (name : Ident) (generics : List Ident) (params : List Param)
    (returns : List TypeExpr) (isPub : Bool) (span : Span) :
    Assignless below (functionSignature name generics params returns isPub span) := by
  have hscopes : Assignless below scopes := Quiet.assigning quiet_scopes
  have hfound : Assignless below (registeredFunction? name) :=
    Quiet.assigning (quiet_registeredFunction? _)
  have hsignature : Assignless below (resolveSignature generics params returns) :=
    (fixes_resolveSignature generics params returns).assigning
  unfold functionSignature
  refine hscopes.bind [] fun stack => ?_
  split
  · refine hfound.bind [] fun found => ?_
    cases found with
    | some signature => exact .pure _
    | none => exact hsignature
  · exact .guard [] (assignless_report rfl _) fun _ => hsignature.bind [] fun _ =>
      (assignless_declare _ _).bind [] fun _ => .pure _

theorem assignless_markExit (kind : Exits) : Assignless below (markExit kind) :=
  assignless_modifyScopes fun stack _ => by
    rw [ScopeStack.outline_markExit, ScopeStack.markExit_eq_addExits]
    refine ⟨ScopeStack.alike_addExits _ _, ?_⟩
    rw [ScopeStack.markExit, ScopeStack.modifyCurrent_eq_modifyAt]
    exact stack.members_modifyAt_of_bindings_eq _ fun _ => ⟨rfl, rfl⟩

theorem assignless_reportExits (exits : Exits) :
    Assignless below (modifyScopes (·.reportExits exits)) :=
  assignless_modifyScopes fun stack _ => by
    rw [ScopeStack.outline_reportExits]
    refine ⟨ScopeStack.alike_reportExits _ _, ?_⟩
    rw [ScopeStack.reportExits, ScopeStack.modifyCurrent_eq_modifyAt]
    exact stack.members_modifyAt_of_bindings_eq _ fun scope =>
      ⟨by rw [ScopeTag.container?_of_kind_eq (scope.kind_receive exits)], scope.bindings_receive exits⟩

theorem assignless_checkReturn (expected : List Ty) (values : List (Value × Span)) (span : Span) :
    Assignless below (checkReturn expected values span) := by
  have hcount : Assignless below (checkValueCount expected.length values span "return") :=
    Quiet.assigning (quiet_checkValueCount _ _ _ _)
  have htypes : Assignless below (checkValueTypes expected values "return") :=
    Quiet.assigning (quiet_checkValueTypes _ _ _)
  exact hcount.bind [] fun _ => .guard [] htypes fun _ => assignless_markExit _

theorem assignless_setYields (types : List Ty) (position : Nat) :
    Assignless below (modifyScopes (·.modifyAt position (setYields types))) := by
  have hset (scope : Scope) : (setYields types scope).outline = scope.outline ∧
      (setYields types scope).tag.container? = scope.tag.container? ∧
      (setYields types scope).bindings = scope.bindings := by
    unfold setYields
    split
    · next htag => simp [Scope.outline, ScopeTag.outline, ScopeTag.container?, htag]
    · exact ⟨rfl, rfl, rfl⟩
  refine assignless_modifyScopes fun stack _ => ⟨?_, ?_⟩
  · rw [stack.outline_modifyAt position fun scope => (hset scope).1]
    exact .refl _
  · exact stack.members_modifyAt_of_bindings_eq position fun scope =>
      ⟨by rw [(hset scope).2.1], (hset scope).2.2⟩

theorem assignless_checkYield (position : Option Nat) (known : Option (List Ty))
    (values : List (Value × Span)) (span : Span) :
    Assignless below (checkYield position known values span) := by
  unfold checkYield
  cases known with
  | some expected =>
    have hcount : Assignless below (checkValueCount expected.length values span "yield") :=
      Quiet.assigning (quiet_checkValueCount _ _ _ _)
    have htypes : Assignless below (checkValueTypes expected values "yield") :=
      Quiet.assigning (quiet_checkValueTypes _ _ _)
    exact hcount.bind [] fun _ => .guard [] htypes fun _ => assignless_markExit _
  | none =>
    cases position with
    | some position => exact (assignless_setYields _ _).bind [] fun _ => assignless_markExit _
    | none => exact assignless_markExit _

/-- A `use` in a body changes the imports, and not the scopes. -/
theorem assignless_useEnvironment (stmt : UseStmt) : Assignless below (useEnvironment stmt) := by
  intro c s o hl _ _
  refine (runs_useTarget? .looking hl stmt).bind fun found t ht => ?_
  obtain ⟨⟨hsteps, hl'⟩, hfound⟩ := ht
  cases found with
  | none => exact .pure (.of_steps hl hsteps hl')
  | some target =>
    obtain ⟨rfl, hlookup, -⟩ := hfound target rfl
    refine (runs_link .looking hl' ⟨_, hlookup⟩ _).bind fun linked u hu => ?_
    obtain ⟨⟨hlinked, hl₁⟩, -⟩ := hu
    have hfills := Fills.of_steps hl' hlinked hl₁
    cases linked with
    | false => exact .pure hfills
    | true =>
      obtain ⟨env, hown, -, ho⟩ := hl₁.own
      refine (runs_modifyEnvironment hl₁ _).mono fun _ v hv => ?_
      subst hv
      have hkept : (env.addImport target).state = env.state ∧
          (env.addImport target).scopes = env.scopes := by
        unfold Environment.addImport
        split <;> exact ⟨rfl, rfl⟩
      refine hfills.trans_bot (.of_members_eq hl₁ hown hkept.1 ?_ ?_)
      · rw [hkept.2, ho]
        exact .refl o
      · rw [hkept.2]

theorem assignless_matchValue (arms : ArmCount) (closed : Option Scope) (span : Span) :
    Assignless below (matchValue arms closed span) := by
  unfold matchValue
  refine .guard [] (assignless_report rfl _) fun _ => .guard [] (assignless_report rfl _) fun _ =>
    .guard [] (assignless_report rfl _) fun _ => ?_
  split <;> exact .pure _

/-! ## Bodies -/

section Bodies

variable {stmts : List Stmt}

/-- A function, wherever it is declared. -/
theorem runs_inFunction_fills (signature : Signature) (params : List Param) (span : Span)
    (hbody : Assigning true (body stmts false) (Assigned (.body stmts false))) (hl : Live c s o)
    (hself : o.PermitsSelf) (htidy : MembersTidy (s.members c)) :
    Runs (inFunction signature params span (body stmts false)) c s fun _ s' =>
      Fills c s o (markings [.functionBody signature params stmts] c s) s' := by
  have hscopes : Assignless true scopes := Quiet.assigning quiet_scopes
  have hinner : Assigning true (do
      bindParams params signature.params
      let body ← body stmts false
      let exits := (← scopes).current.exits
      if !signature.returns.isEmpty && !exits.byReturn then
        report (.notAllCodePathsExit "return") span
      return body) (markings [do
        bindParams params signature.params
        Part.inside [.function] (.body stmts false)]) :=
    (assignless_bindParams _ _).bind [fun _ => _] fun _ => hbody.walk [] fun _ =>
      hscopes.bind [] fun _ => .guard [] (assignless_report rfl _) fun _ => .pure _
  exact Runs.bind (runs_inScope_fills (ScopeStack.opensInner_pushFunction _) [fun _ => _] hinner hl
    hself htidy) fun _ _ h => .pure h

theorem assigning_inFunction (signature : Signature) (params : List Param) (span : Span)
    (hbody : Assigning true (body stmts false) (Assigned (.body stmts false))) :
    Assigning below (inFunction signature params span (body stmts false))
      (markings [.functionBody signature params stmts]) :=
  fun _ _ _ hl hin htidy =>
    runs_inFunction_fills signature params span hbody hl hin.permitsSelf htidy

/-- A branch with its narrowings. -/
theorem assigning_branch (narrowings : List Narrowing) (negated : Bool) (around : List Region)
    (hbody : Assigning true (body stmts false) (Assigned (.body stmts false))) :
    Assigning below (inBranch do
      declareNarrowings narrowings negated
      body stmts false) (markings [.branch narrowings negated stmts around]) :=
  Assigning.bind [] (.inScope (ScopeStack.opensInner_push rfl _) [fun _ => _]
    ((assignless_declareNarrowings _ _).bind [fun _ => _] fun _ => hbody.inside)) fun _ => .pure _

/-- A loop with its variables and its narrowings. -/
theorem assigning_loopBody (region : Region) (permits : Permissions)
    (bindings : List (Ident × Value)) (narrowings : List Narrowing)
    (hbody : Assigning true (body stmts false) (Assigned (.body stmts false))) :
    Assigning below (inLoop permits bindings do
      declareNarrowings narrowings false
      body stmts false) (markings [.loopBody region permits bindings narrowings stmts]) :=
  Assigning.bind [] (.inScope (ScopeStack.opensInner_push rfl _) [fun _ => _]
    ((assignless_forM _ fun _ => assignless_declare _ _).bind [fun _ => _] fun _ =>
      (assignless_declareNarrowings _ _).bind [fun _ => _] fun _ => hbody.inside)) fun _ => .pure _

end Bodies

end Check

end HybroidSema
