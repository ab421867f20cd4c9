import HybroidSema.Proofs.FinishedWalks
import HybroidSema.Proofs.MissingExits

/-!
# Scopes are closed by the check that opened them

Every check of the recursion closes the scopes that it opens. On its return the stack has the scopes
that were open before, each with its parent, its kind and its permissions, and only a statement may
leave exits in the innermost one. At the root nothing is permitted, so no statement leaves exits there: a walk
ends as it began, and a program keeps all its statements.

* `ScopeStack.frames` and `ScopeStack.collected`: what is kept.
* `Check.Keeps` and `keeps_stmt`: a statement, wherever it is walked.
* `FinishedWalk.root` and `FinishedWalk.statements`: a walk from its beginning to its end.
* `walk_keeps_scopes`: every check, and every build.
-/

namespace HybroidSema

/-! ## Frames -/

namespace ScopeStack

variable {o o' : ScopeStack}

/-- The frame of each scope, innermost first. -/
def frames (s : ScopeStack) : List Scope.Frame := s.chain.map Scope.frame

/-- The exits of each scope, innermost first. -/
def collected (s : ScopeStack) : List Exits := s.chain.map (·.exits)

theorem length_frames (s : ScopeStack) : s.frames.length = s.depth := by
  simp [frames, chain, depth]

theorem chain_outline (s : ScopeStack) : s.outline.chain = s.chain.map Scope.outline := by
  simp [chain, outline]

@[simp] theorem frames_outline (s : ScopeStack) : s.outline.frames = s.frames := by
  simp [frames, chain_outline, Function.comp_def]

@[simp] theorem collected_outline (s : ScopeStack) : s.outline.collected = s.collected := by
  simp [collected, chain_outline, Function.comp_def]

theorem Alike.frames_eq (h : o.Alike o') : o'.frames = o.frames := by
  obtain ⟨f, hf, rfl⟩ := h
  unfold modifyCurrent frames chain
  cases o.inner <;> simp [hf]

end ScopeStack

namespace Check

variable {α β : Type} {m : Check α} {f : α → Check β} {c : Context} {s s' : State}

/-! ## Statements -/

/-- A check that runs in steps and leaves at most exits in the innermost scope. -/
def Keeps (m : Check α) : Prop :=
  ∀ c s o, Live c s o → Runs m c s fun _ s' =>
    Steps c .checking s s' ∧ ∃ o', o.Alike o' ∧ Live c s' o'

theorem Quiet.checking (h : Quiet .visiting m) : Quiet .checking m :=
  fun c s o hl => (h c s o hl).mono fun _ _ ht => ⟨Steps.checking ht.1, ht.2⟩

theorem Quiet.keeps (h : Quiet .checking m) : Keeps m :=
  fun c s o hl => (h c s o hl).mono fun _ _ ht => ⟨ht.1, o, .refl o, ht.2⟩

theorem ReportsIn.keeps {ok : Bool → ScopeStack → Prop} {F : Bool → Permissions → List Form}
    (h : ReportsIn ok m F) (hok : ∀ prune o, ok prune o) : Keeps m :=
  fun c s o hl => (h c s o hl (hok _ o)).mono fun _ _ ht => ⟨ht.steps, ht.live⟩

theorem Keeps.bind (hm : Keeps m) (hf : ∀ a, Keeps (f a)) : Keeps (m >>= f) := by
  intro c s o hl
  refine (hm c s o hl).bind fun a t ht => ?_
  obtain ⟨hsteps, o', halike, hl'⟩ := ht
  refine (hf a c t o' hl').mono fun _ u hu => ?_
  obtain ⟨hsteps', o'', halike', hl''⟩ := hu
  exact ⟨hsteps.trans hsteps', o'', halike.trans halike', hl''⟩

/-- A check that goes on from what it looked up under a condition. -/
theorem Keeps.lookup {γ : Type} {m : Check (Option γ)} {f : Option γ → Check β} {b : Prop}
    [Decidable b] (hm : Keeps m) (hf : ∀ found, Keeps (f found)) :
    Keeps (if b then m >>= f else pure none >>= f) := by
  have hnone : Quiet .checking (pure none : Check (Option γ)) := .pure none
  split
  · exact hm.bind hf
  · exact hnone.keeps.bind hf

/-- The body of a class or entity. -/
theorem keeps_container {tag : ScopeTag} (htag : tag.container?.isSome)
    (hm : QuietInside .checking m) : Keeps (inScope (·.push tag { selfRef := true }) m) := by
  have hplain : tag.outline = tag ∧ tag.IsSequential := by
    cases tag with
    | classBody | entityBody => exact ⟨rfl, trivial⟩
    | _ => cases htag
  obtain ⟨houtline, hseq⟩ := hplain
  intro c s o hl
  have hopen (stack : ScopeStack) (ho : stack.outline = o) :
      (stack.push tag { selfRef := true }).outline =
          o.cons (o.pushedScope tag { selfRef := true }) ∧
        (stack.push tag { selfRef := true }).root.bindings = stack.root.bindings := by
    have hopens := stack.push_opens tag { selfRef := true }
    rwa [ho, houtline] at hopens
  refine (runs_inScope .checking (Q := fun _ _ _ => True) hl hopen fun s₁ _ hl₁ =>
    (hm c s₁ o _ hseq hl₁).mono fun _ s₂ h₂ => ⟨h₂.1, _, h₂.2, trivial⟩).mono fun r t ht => ?_
  obtain ⟨hsteps, closed, _, _, -, hl', -⟩ := ht
  exact ⟨hsteps, _, ScopeStack.alike_afterClosing o _, hl'⟩

/-- A statement closes the scopes that it opens. -/
theorem keeps_stmt (st : Stmt) : Keeps (stmt st) := by
  have hchecking {γ : Type} {m : Check γ} (h : Quiet .checking m) : Keeps m := h.keeps
  by_cases hregistered : st.isRegistered = true
  · cases st with
    | function decl =>
      obtain ⟨name, generics, params, returns, stmts, isPub, span⟩ := decl
      exact hchecking ((quiet_functionSignature _ _ _ _ _ _).bind fun _ =>
        (quiet_inFunction _ _ _ (leaves_body stmts false)).bind fun _ => .pure _)
    | classDecl decl =>
      obtain ⟨name, isPub, fields, methods, constructor, span⟩ := decl
      refine (hchecking (quiet_atRoot _ _)).bind fun _ =>
        .lookup (hchecking (quiet_ownClass? _)) fun found => ?_
      cases found with
      | none => exact hchecking (.pure _)
      | some info =>
        refine (keeps_container rfl ?_).bind fun _ => hchecking (.pure _)
        exact (quiet_bindMembers _).inside.bind fun _ =>
          (inside_initializers fields info.ty .classDecl info.members).bind fun _ =>
            ((quiet_constructorBody _ _).bind fun _ => (quiet_methodBodies _ _).bind fun _ =>
              .pure _).inside
    | entityDecl decl =>
      obtain ⟨name, isPub, fields, methods, functions, span⟩ := decl
      refine (hchecking (quiet_atRoot _ _)).bind fun _ =>
        .lookup (hchecking (quiet_ownEntity? _)) fun found => ?_
      cases found with
      | none => exact hchecking (.pure _)
      | some info =>
        refine (keeps_container rfl ?_).bind fun _ => hchecking (.pure _)
        exact (quiet_bindMembers _).inside.bind fun _ =>
          (inside_initializers fields info.ty .entityDecl info.members).bind fun _ =>
            ((quiet_firstSpawn _ _).bind fun _ => (quiet_otherLifecycles _ _ _ _).bind fun _ =>
              (quiet_methodBodies _ _).bind fun _ => .pure _).inside
    | _ => cases hregistered
  · exact (reports_stmt st).keeps fun _ _ h => absurd h hregistered

/-! ## From the beginning of a walk to its end -/

/-- A statement of a program and what it is resolved to: what its check gives, or the statement
itself if it is an `env` declaration. -/
def Resolves (c : Context) (st st' : Stmt) : Prop :=
  (∃ decl, st = .env decl ∧ st' = .env decl) ∨ ∃ t t', stmt st c t = .ok (st', t')

/-- The statements of a program, one for one. -/
theorem forall₂_program (h : Live c s {}) {p out : Program}
    (hrun : Check.program p c s = .ok (out, s')) : List.Forall₂ (Resolves c) p out := by
  have hbody {stmts out : List Stmt} {s' : State} (hrun : body stmts false c s = .ok (out, s')) :
      List.Forall₂ (Resolves c) stmts out :=
    (forall₂_eachStmt ((body_root h stmts).symm.trans hrun)).imp fun _ _ => .inr
  unfold Check.program at hrun
  split at hrun
  · next decl rest =>
    obtain ⟨out', t, hrest, hpure⟩ := bind_eq_ok hrun
    cases hpure
    exact .cons (.inl ⟨decl, rfl, rfl⟩) (hbody hrest)
  · exact hbody hrun

/-- The root collects no exits. -/
theorem live_program (h : Live c s {}) {p out : Program}
    (hrun : Check.program p c s = .ok (out, s')) : Live c s' {} := by
  have hbody {stmts out : List Stmt} {s' : State} (hrun : body stmts false c s = .ok (out, s')) :
      Live c s' {} := by
    obtain ⟨-, x, hx, hl⟩ := (leaves_body stmts false c s {} h trivial (.inl rfl)).apply hrun
    obtain rfl := hx.silent (Stmt.bodyLeaves_nothing stmts)
    exact hl
  unfold Check.program at hrun
  split at hrun
  · obtain ⟨out', t, hrest, hpure⟩ := bind_eq_ok hrun
    cases hpure
    exact hbody hrest
  · exact hbody hrun

end Check

namespace FinishedWalk

open Check

variable {config : Config} {id : EnvId} {p out : Program} {c : Context} {s t : State}

/-- The declarations of the program are registered, and then its statements are checked. -/
theorem registers (h : FinishedWalk config id p out c s t) :
    ∃ counts u, Declare.program p c s = .ok (counts, u) ∧ Route c s u ∧ Live c u {} ∧
      Check.program p c u = .ok (out, t) := by
  obtain ⟨counts, u, hdeclare, hcheck⟩ := bind_eq_ok h.run
  obtain ⟨_, _, _, _, himport, hclaim, hresolve, hfill, hbind, hl⟩ :=
    (runs_declare h.live p).apply hdeclare
  exact ⟨counts, u, hdeclare, (((himport.route.trans hclaim.route).trans hresolve.route).trans
    hfill.route).trans hbind.route, hl, hcheck⟩

/-- Where the statements of the program are checked. -/
theorem checks (h : FinishedWalk config id p out c s t) :
    ∃ u, Live c u {} ∧ Check.program p c u = .ok (out, t) := by
  obtain ⟨_, u, -, -, hl, hcheck⟩ := h.registers
  exact ⟨u, hl, hcheck⟩

/-- A walk ends with only the root scope open, as it was at the beginning. -/
theorem root (h : FinishedWalk config id p out c s t) {env : Environment}
    (hown : t.own? c = some env) :
    env.scopes.inner = [] ∧ env.scopes.root.exits = {} := by
  obtain ⟨u, hl, hcheck⟩ := h.checks
  obtain ⟨env', hown', -, houtline⟩ := (live_program hl hcheck).own
  obtain rfl := Option.some.inj (hown.symm.trans hown')
  refine ⟨?_, ?_⟩
  · simpa [ScopeStack.outline] using congrArg ScopeStack.inner houtline
  · exact congrArg (·.root.exits) houtline

/-- A walk keeps every statement of the program, in its order. -/
theorem statements (h : FinishedWalk config id p out c s t) :
    List.Forall₂ (Resolves c) p out := by
  obtain ⟨u, hl, hcheck⟩ := h.checks
  exact forall₂_program hl hcheck

end FinishedWalk

/-! ## Every check and every build -/

namespace Check

/-- On return, the stack of the environment has the depth that it had, and every scope has its parent,
its kind and its permissions. -/
def KeepsFrames {α : Type} (m : Check α) (c : Context) (s : State) (env : Environment) : Prop :=
  Runs m c s fun _ s' => ∃ env', Walks c.env s' env' ∧
    env'.scopes.depth = env.scopes.depth ∧ env'.scopes.frames = env.scopes.frames

/-- On return, also the exits of every scope are the same. -/
def RestoresScopes {α : Type} (m : Check α) (c : Context) (s : State) (env : Environment) : Prop :=
  Runs m c s fun _ s' => ∃ env', Walks c.env s' env' ∧
    env'.scopes.depth = env.scopes.depth ∧ env'.scopes.frames = env.scopes.frames ∧
    env'.scopes.collected = env.scopes.collected

variable {α : Type} {m : Check α} {id : EnvId} {s : State} {env : Environment}

theorem Keeps.keepsFrames (h : Keeps m) (hwalks : Walks id s env) (depth : Nat) :
    KeepsFrames m ⟨id, Session.walk depth⟩ s env := by
  refine (h _ s _ (hwalks.live depth)).mono fun _ t ht => ?_
  obtain ⟨-, o', halike, hl⟩ := ht
  obtain ⟨env', hwalks', rfl⟩ := hl.walks
  have hframes : env'.scopes.frames = env.scopes.frames := by simpa using halike.frames_eq
  refine ⟨env', hwalks', ?_, hframes⟩
  rw [← ScopeStack.length_frames, hframes, ScopeStack.length_frames]

theorem Quiet.restoresScopes (h : Quiet .checking m) (hwalks : Walks id s env) (depth : Nat) :
    RestoresScopes m ⟨id, Session.walk depth⟩ s env := by
  refine (h _ s _ (hwalks.live depth)).mono fun _ t ht => ?_
  obtain ⟨env', hwalks', houtline⟩ := ht.2.walks
  have hframes : env'.scopes.frames = env.scopes.frames := by
    rw [← ScopeStack.frames_outline, houtline, ScopeStack.frames_outline]
  refine ⟨env', hwalks', ?_, hframes, ?_⟩
  · rw [← ScopeStack.length_frames, hframes, ScopeStack.length_frames]
  · rw [← ScopeStack.collected_outline, houtline, ScopeStack.collected_outline]

end Check

open Check

/-- The discipline of scopes. Wherever an environment is being walked, the check of an expression, a
statement, a function body or a signature returns, and on its return the stack has its scopes, each
with its parent, its kind and its permissions. All but a statement also restore the exits. So in a build
without an error every environment ends with only its root scope, which has no exits, and every
program keeps its statements, in their order. -/
theorem walk_keeps_scopes :
    (∀ id s env, Walks id s env → ∀ depth, let c : Context := ⟨id, Session.walk depth⟩
      (∀ e hint, RestoresScopes (expr e hint) c s env) ∧
      (∀ st, KeepsFrames (stmt st) c s env) ∧
      (∀ signature params span stmts,
        RestoresScopes (inFunction signature params span (body stmts false)) c s env) ∧
      ∀ generics params returns,
        RestoresScopes (resolveSignature generics params returns) c s env) ∧
    ∀ config files out, analyze config files = .ok out →
      out.registry.envs.length = files.length ∧ out.programs.length = files.length ∧
      ∀ (i : Nat) path p, files[i]? = some (path, p) →
        ∃ env walked depth, out.registry.envs[i]? = some env ∧ out.programs[i]? = some walked ∧
          env.scopes.inner = [] ∧ env.scopes.root.exits = {} ∧ walked.length = p.length ∧
          List.Forall₂ (Resolves ⟨.user i, Session.walk depth⟩) p walked := by
  refine ⟨fun id s env hwalks depth => ⟨fun e hint => ?_, fun st => ?_,
    fun signature params span stmts => ?_, fun generics params returns => ?_⟩,
    fun config files out hout => ?_⟩
  · exact (quiet_expr e hint).restoresScopes hwalks depth
  · exact (keeps_stmt st).keepsFrames hwalks depth
  · exact (quiet_inFunction signature params span (leaves_body stmts false)).restoresScopes hwalks
      depth
  · exact (quiet_resolveSignature generics params returns).restoresScopes hwalks depth
  · obtain ⟨henvs, hprograms, -, hwalked⟩ := finished_of_analyze hout
    refine ⟨henvs, hprograms, fun i path p hfile => ?_⟩
    obtain ⟨walked, c, s, t, env, hwalk, hown, henv, hprogram, -⟩ := hwalked i path p hfile
    obtain ⟨hinner, hexits⟩ := hwalk.root hown
    obtain ⟨depth, hdepth⟩ := hwalk.nested
    obtain rfl : c = ⟨.user i, Session.walk depth⟩ := by
      rw [← hwalk.own, ← hdepth]
    exact ⟨_, walked, depth, henv, hprogram, hinner, hexits, hwalk.statements.length_eq.symm,
      hwalk.statements⟩

/-- A function whose `return` is followed by another statement. -/
def afterReturnFile : String × Program :=
  ("main.hyb", [.level "Main",
    .function ⟨⟨"f", .synthetic⟩, [], [], [],
      [.returning [] .synthetic, .expr (.self none .synthetic)], false, .synthetic⟩])

/-- A misplaced `self` inside a function leaves its scope as it was, and a build keeps the function
with what stands after its `return` removed. -/
theorem walk_keeps_scopes_function :
    RestoresScopes (expr (.self none .synthetic) none) ⟨.user 0, Session.walk 0⟩ functionState
        functionEnvironment ∧
      ∃ out env walked, analyze {} [afterReturnFile] = .ok out ∧
        out.registry.envs[0]? = some env ∧ env.scopes.inner = [] ∧
        out.programs[0]? = some walked ∧ walked.length = 2 := by
  obtain ⟨hchecks, hbuilds⟩ := walk_keeps_scopes
  refine ⟨(hchecks _ _ _ walks_functionState 0).1 _ none, ?_⟩
  have hok : (analyze {} [afterReturnFile]).isOk = true := by decide +kernel
  cases hout : analyze {} [afterReturnFile] with
  | error e =>
    rw [hout] at hok
    cases hok
  | ok out =>
    obtain ⟨-, -, hfiles⟩ := hbuilds _ _ out hout
    obtain ⟨env, walked, depth, henv, hprogram, hinner, -, hlength, -⟩ := hfiles 0 _ _ rfl
    exact ⟨out, env, walked, rfl, henv, hinner, hprogram, hlength⟩

end HybroidSema
