import HybroidSema.Proofs.Machine

/-!
# Every build is a run of the machine

A check works for the innermost walk of a machine. Each of its steps is a run of moves, a nested
walk included, so a walk as a whole is a run from the moment it is begun until it has ended.

* `Session.Steady`: what a session keeps while it is built. Every environment that waits has its
  program, and there are no more of them than walks may nest.
* `Check.Tracks`: the machine has come as far as a check.
* `Step.tracks`, `tracks_importAll` and `tracks_walkImports`: a check is followed step by step.
  Requirements are left pending by `use` statements at the root alone, and each is asked for after
  everything is declared.
* `Session.tracked_walk`: by induction on how deep walks may nest.
-/

namespace HybroidSema

theorem Registry.modify_self (r : Registry) (target : EnvId) :
    r.modify target (fun env => env) = r := by
  unfold modify
  split
  · rw [show (fun env : Environment => env) = id from rfl, List.modify_id]
  · rfl

theorem Environment.lacksRequirement_eq_false_iff {e : Environment} {target : EnvId} :
    e.lacksRequirement target = false ↔ target = e.id ∨ target ∈ e.requirements := by
  simp [lacksRequirement, or_iff_not_imp_left]

/-! ## Sessions that are built -/

/-- Environments have their handles, and every environment that waits, of which there are at most
`n`, is new and has its program. -/
structure Session.Steady (n : Nat) (s : Session) : Prop where
  ids : ∀ (i : Nat) env, s.registry.envs[i]? = some env → env.id = .user i
  waitsNew : s.WaitsNew
  few : s.registry.envs.countP Environment.waits ≤ n
  slots : ∀ (i : Nat) env, s.registry.envs[i]? = some env → env.state = .notWalked → s.Filled i

/-- An error of the one kind that a walk may end with: a container was not registered. -/
def CompileError.isContainer : CompileError → Bool
  | .unregisteredContainer _ _ => true
  | _ => false

namespace Session

open Machine

/-- A walk of an environment that waits is a run of the machine from its beginning to its end, on
top of whatever walks are under way. -/
def Tracked (n : Nat)
    (walk : EnvId → Session → Except CompileError (Option CompileError × Session)) : Prop :=
  ∀ (index : Nat) env (s : Session), s.Steady n → s.registry.envs[index]? = some env →
    env.state = .notWalked → ∃ program, s.programs[index]? = some (some program) ∧
    ∀ result s', walk (.user index) s = .ok (result, s') →
      s'.Steady n ∧ (∀ e ∈ result, e.isContainer = true) ∧
      ∀ rest started reports, ∃ started' reports',
        Run (begin ⟨s, rest, started, reports⟩ index program) ⟨s', rest, started', reports'⟩

/-- A change of one environment that keeps its handle and its state, which is not to wait. -/
theorem Steady.modify {s : Session} {n index : Nat} {f : Environment → Environment}
    (h : s.Steady n) (hf : ∀ env, s.registry.envs[index]? = some env →
      (f env).id = env.id ∧ (f env).state = env.state ∧ env.state ≠ .notWalked) :
    Session.Steady n { s with registry := s.registry.modify (.user index) f } := by
  have hmodify : s.registry.modify (.user index) f =
      { s.registry with envs := s.registry.envs.modify index f } := by
    simp only [Registry.modify, EnvId.userIndex?_user]
  -- Every environment after the change is one from before, or the changed one.
  have hcases (i : Nat) (env : Environment)
      (he : (s.registry.envs.modify index f)[i]? = some env) :
      s.registry.envs[i]? = some env ∨ ∃ old, i = index ∧ s.registry.envs[index]? = some old ∧
        env = f old := by
    rw [List.getElem?_modify] at he
    obtain ⟨old, hold, heq⟩ := Option.map_eq_some_iff.1 he
    split at heq
    · next hi => exact .inr ⟨old, hi.symm, hi ▸ hold, heq.symm⟩
    · exact .inl (by rw [hold]; exact congrArg some heq)
  refine ⟨fun i env he => ?_, fun id env he hw => ?_, ?_, fun i env he hw => ?_⟩
  · rw [hmodify] at he
    rcases hcases i env he with hsame | ⟨old, rfl, hold, rfl⟩
    · exact h.ids i env hsame
    · rw [(hf old hold).1, h.ids i old hold]
  · rw [hmodify] at he
    obtain ⟨i, hi, hget⟩ := Option.bind_eq_some_iff.1 he
    rcases hcases i env hget with hsame | ⟨old, rfl, hold, rfl⟩
    · exact h.waitsNew id env (Option.bind_eq_some_iff.2 ⟨i, hi, hsame⟩) hw
    · exact absurd ((hf old hold).2.1 ▸ hw) (hf old hold).2.2
  · rw [hmodify]
    refine le_of_eq_of_le (Check.countP_waits_modify _ index fun env he => ?_) h.few
    simp only [Environment.waits, (hf env he).2.1]
  · rw [hmodify] at he
    rcases hcases i env he with hsame | ⟨old, rfl, hold, rfl⟩
    · exact h.slots i env hsame hw
    · exact absurd ((hf old hold).2.1 ▸ hw) (hf old hold).2.2

end Session

namespace Check

open Session Machine

variable {c : Context} {s s' : State} {o : ScopeStack} {phase : Phase} {n : Nat}
  {m₀ : Machine} {f : Frame} {rest : List Frame} {pending : List EnvId}

/-- What a check keeps while the machine follows it. -/
structure Holds (c : Context) (n : Nat) (s : State) : Prop where
  steady : s.session.Steady n
  required : ∀ env, s.own? c = some env → ∀ target ∈ env.imports,
    target = c.env ∨ target ∈ env.requirements
  fatal : ∀ e ∈ s.fatal, e.isContainer = true

/-- The walk that a check is made for, with what it has pending. -/
abbrev frameAt (f : Frame) (s : State) (pending : List EnvId) : Frame :=
  { f with pending := pending, alerts := s.alerts }

/-- The machine has come as far as the check that its innermost walk makes. -/
def Tracks (m₀ : Machine) (f : Frame) (rest : List Frame) (s : State) (pending : List EnvId) :
    Prop :=
  ∃ started reports, Run m₀ ⟨s.session, frameAt f s pending :: rest, started, reports⟩

theorem Tracks.tail (h : Tracks m₀ f rest s pending) {pending' : List EnvId}
    (hmove : ∀ started reports, ∃ started' reports',
      Run ⟨s.session, frameAt f s pending :: rest, started, reports⟩
        ⟨s'.session, frameAt f s' pending' :: rest, started', reports'⟩) :
    Tracks m₀ f rest s' pending' := by
  obtain ⟨started, reports, hrun⟩ := h
  obtain ⟨started', reports', hmove⟩ := hmove started reports
  exact ⟨started', reports', hrun.trans hmove⟩

/-! ## Changes of the own environment -/

/-- An edit changes at most the requirements of what others see. -/
theorem Edit.linkage_eq {g : Environment → Environment} (h : Edit c phase s g)
    (env : Environment) :
    (g env).linkage = { env.linkage with requirements := (g env).requirements } := by
  cases h with
  | require =>
    simp only [Environment.require]
    split <;> rfl
  | addImport =>
    simp only [Environment.addImport]
    split <;> rfl
  | setField =>
    simp only [Environment.modifyMembers]
    split <;> rfl
  | _ => rfl

theorem Edit.id_eq {g : Environment → Environment} (h : Edit c phase s g) (env : Environment) :
    (g env).id = env.id := by
  have hlinkage := congrArg (fun e : Environment => e.id) (h.linkage_eq env)
  exact hlinkage

/-- Every environment that is imported after an edit is required, if that was so before. -/
theorem Edit.required {g : Environment → Environment} (h : Edit c phase s g) {env : Environment}
    (hown : s.own? c = some env) (hid : env.id = c.env)
    (hbefore : ∀ target ∈ env.imports, target = c.env ∨ target ∈ env.requirements) :
    ∀ target ∈ (g env).imports, target = c.env ∨ target ∈ (g env).requirements := by
  cases h with
  | require target =>
    simp only [Environment.require]
    split
    · exact fun t ht => (hbefore t ht).imp_right (List.mem_append_left _)
    · exact hbefore
  | addImport target _ _ required =>
    have htarget : target = c.env ∨ target ∈ env.requirements := by
      rw [← hid]
      exact Environment.lacksRequirement_eq_false_iff.1 (required env hown)
    simp only [Environment.addImport]
    split
    · intro t ht
      rcases List.mem_append.1 ht with hold | hnew
      · exact hbefore t hold
      · obtain rfl : t = target := by simpa using hnew
        exact htarget
    · exact hbefore
  | setField =>
    simp only [Environment.modifyMembers]
    split <;> exact hbefore
  | _ => exact hbefore

theorem Edit.holds {g : Environment → Environment} (h : Live c s o) (hc : c.env = f.id)
    (hs : Holds c n s) (hedit : Edit c phase s g) : Holds c n (s.modifyOwn c g) := by
  obtain ⟨own, hown, hstarted, -⟩ := h.own
  have hget : s.session.registry.envs[f.index]? = some own := by
    simpa [State.own?, hc, Frame.id] using hown
  refine ⟨?_, fun env he => ?_, hs.fatal⟩
  · rw [State.modifyOwn, hc]
    refine hs.steady.modify fun env he => ⟨hedit.id_eq env, hedit.state_eq env, ?_⟩
    obtain rfl := Option.some.inj (hget.symm.trans he)
    exact hstarted
  · rw [own?_modifyOwn, hown] at he
    obtain rfl := Option.some.inj he
    refine hedit.required hown ?_ (hs.required own hown)
    rw [hs.steady.ids _ own hget, hc]
    rfl

/-- A change that others do not see is work. -/
theorem Edit.tracks {g : Environment → Environment} (hc : c.env = f.id)
    (hedit : Edit c phase s g) (kept : ∀ env, (g env).requirements = env.requirements)
    (h : Tracks m₀ f rest s pending) : Tracks m₀ f rest (s.modifyOwn c g) pending := by
  refine h.tail fun started reports => ⟨started, reports, ?_⟩
  have hkeeps (env : Environment) : (g env).linkage = env.linkage := by
    rw [hedit.linkage_eq env, kept env]
    rfl
  have hmove := Move.work (m := ⟨s.session, frameAt f s pending :: rest, started, reports⟩) g s.session.synthetic [] rfl hkeeps nofun
  rw [List.append_nil] at hmove
  rw [State.modifyOwn, hc]
  exact .single hmove

/-- A requirement is pending when it is recorded. -/
theorem tracks_require (hc : c.env = f.id) {target : EnvId}
    (named : ∃ name, s.session.registry.lookup? name = some target)
    (h : Tracks m₀ f rest s pending) :
    Tracks m₀ f rest (s.modifyOwn c (·.require target)) (target :: pending) := by
  refine h.tail fun started reports => ⟨started, reports, ?_⟩
  rw [State.modifyOwn, hc]
  exact .single (Move.require (f := frameAt f s pending) target rfl named)

/-! ## Asking for an environment -/

/-- An environment that is required, and not a library, is asked for. -/
theorem Ensures.tracks {target : EnvId} (h : Live c s o) (hc : c.env = f.id)
    (hwalk : Tracked n c.walk) (hs : Holds c n s)
    (required : target = c.env ∨ s.session.registry.Requires c.env target)
    (hensures : Ensures c target s s') (htracks : Tracks m₀ f rest s pending) :
    Holds c n s' ∧ Tracks m₀ f rest s' (pending.filter (· ≠ target)) := by
  have hsettle (hsettled : s.session.registry.Settled c.env target) :
      Tracks m₀ f rest s (pending.filter (· ≠ target)) := by
    refine htracks.tail fun started reports => ⟨started, reports, ?_⟩
    rw [hc] at hsettled
    exact .single (Move.settle (f := frameAt f s pending) target rfl hsettled)
  have hedge (hne : target ≠ c.env) : s.session.registry.Requires f.id target := by
    rw [← hc]
    exact required.resolve_left hne
  have hframes := hensures.frames h
  cases hensures with
  | exempt hexempt => exact ⟨hs, hsettle (.exempt hexempt)⟩
  | reported cycle hne found known => exact ⟨hs, hsettle (.reported cycle found known)⟩
  | started hne acyclic hstarted => exact ⟨hs, hsettle (.started acyclic hstarted)⟩
  | report cycle span hne found fresh =>
    have henvs := s.session.registry.envs_markCycle c.env target
    have hget := Registry.get?_of_envs_eq henvs
    refine ⟨⟨⟨?_, ?_, ?_, ?_⟩, fun env he => hs.required env ((hget _).symm.trans he), hs.fatal⟩, ?_⟩
    · exact fun i env he => hs.steady.ids i env (henvs ▸ he)
    · exact fun id env he => hs.steady.waitsNew id env ((hget id).symm.trans he)
    · exact le_of_eq_of_le (congrArg _ henvs) hs.steady.few
    · exact fun i env he => hs.steady.slots i env (henvs ▸ he)
    · refine htracks.tail fun started reports =>
        ⟨started, reports ++ [⟨f.id, target, cycle⟩], ?_⟩
      rw [hc] at hne found fresh
      rw [State.reportCycle, hc]
      exact .single (Move.report (f := frameAt f s pending) target cycle span rfl
        (hedge (hc ▸ hne)) hne found fresh)
  | walk result session hne acyclic waiting hrun =>
    obtain ⟨env, henv, hwaits⟩ := waiting
    obtain ⟨index, hindex, hget⟩ := Option.bind_eq_some_iff.1 henv
    obtain rfl := EnvId.userIndex?_eq_some_iff.1 hindex
    obtain ⟨program, hslot, hresult⟩ := hwalk index env s.session hs.steady hget hwaits
    obtain ⟨hsteady, herror, hmoves⟩ := hresult result session hrun
    obtain ⟨-, -, hown⟩ := hframes
    refine ⟨⟨hsteady, fun env he => hs.required env (hown ▸ he), fun e he => ?_⟩, ?_⟩
    · cases hf : s.fatal with
      | none => exact herror e (by simpa [hf] using he)
      | some first => exact hs.fatal e (by simpa [hf] using he)
    · refine htracks.tail fun started reports => ?_
      obtain ⟨started', reports', hmoves⟩ := hmoves
        (frameAt f s (pending.filter (· ≠ .user index)) :: rest) started reports
      refine ⟨started', reports', .trans (.single ?_) hmoves⟩
      exact Move.enter (m := ⟨s.session, frameAt f s pending :: rest, started, reports⟩)
        (f := frameAt f s pending) rfl (hedge hne) (hc ▸ acyclic) hget hwaits hslot

/-- An imported environment is a required one. -/
theorem Holds.requires (hs : Holds c n s) {target : EnvId} (himports : s.Imports c target) :
    target = c.env ∨ s.session.registry.Requires c.env target := by
  obtain ⟨env, hown, hmem⟩ := himports
  exact (hs.required env hown target hmem).imp_right fun hreq => ⟨env, hown, hreq⟩

/-! ## Steps -/

/-- After imports are recorded, a step leaves nothing pending that was not before. -/
theorem Step.tracks (h : Live c s o) (hc : c.env = f.id) (hwalk : Tracked n c.walk)
    (hstep : Step c phase s s') (hphase : phase ≠ .importing) (hs : Holds c n s)
    (htracks : Tracks m₀ f rest s pending) :
    Holds c n s' ∧ ∃ pending', pending' ⊆ pending ∧ Tracks m₀ f rest s' pending' := by
  cases hstep with
  | alert a hreports =>
    have hcycle : a.kind.isImportCycle = false := Phase.isImportCycle_of_reports hreports
    refine ⟨⟨hs.steady, hs.required, hs.fatal⟩, pending, List.Subset.refl _, ?_⟩
    refine htracks.tail fun started reports => ⟨started, reports, ?_⟩
    have hmove := Move.work (m := ⟨s.session, frameAt f s pending :: rest, started,
      reports⟩) (fun env => env) s.session.synthetic [a] rfl (fun _ => rfl)
      (by simpa using hcycle)
    rw [Registry.modify_self] at hmove
    exact .single hmove
  | narrow narrowings =>
    exact ⟨⟨hs.steady, hs.required, hs.fatal⟩, pending, List.Subset.refl _, htracks⟩
  | fail container member =>
    refine ⟨⟨hs.steady, hs.required, fun e he => ?_⟩, pending, List.Subset.refl _, htracks⟩
    cases hf : s.fatal with
    | none =>
      obtain rfl : .unregisteredContainer container member = e := by simpa [hf] using he
      rfl
    | some first => exact hs.fatal e (by simpa [hf] using he)
  | invent stem =>
    refine ⟨⟨⟨hs.steady.ids, hs.steady.waitsNew, hs.steady.few, hs.steady.slots⟩, hs.required,
      hs.fatal⟩, pending, List.Subset.refl _, ?_⟩
    refine htracks.tail fun started reports => ⟨started, reports, ?_⟩
    have hmove := Move.work (m := ⟨s.session, frameAt f s pending :: rest, started,
      reports⟩) (fun env => env) (s.session.synthetic + 1) [] rfl (fun _ => rfl)
      nofun
    rw [Registry.modify_self, List.append_nil] at hmove
    exact .single hmove
  | edit g hedit kept =>
    exact ⟨hedit.holds h hc hs, pending, List.Subset.refl _,
      hedit.tracks hc (kept.resolve_left hphase) htracks⟩
  | ensure target imported hensures =>
    obtain ⟨hs', htracks'⟩ := hensures.tracks h hc hwalk hs (hs.requires imported) htracks
    exact ⟨hs', _, List.filter_subset_self _, htracks'⟩
  | link target allowed named hensures =>
    have hedit : Edit c phase s (·.require target) := .require target allowed named
    obtain ⟨-, o', hl⟩ := hedit.frames h
    obtain ⟨env, hown, -, -⟩ := hl.own
    have hrequires : target = c.env ∨
        (s.modifyOwn c (·.require target)).session.registry.Requires c.env target := by
      have hown' := hown
      rw [own?_modifyOwn] at hown
      obtain ⟨before, hbefore, rfl⟩ := Option.map_eq_some_iff.1 hown
      have hid : (before.require target).id = c.env := by
        have hget : s.session.registry.envs[f.index]? = some before := by
          simpa [State.own?, hc, Frame.id] using hbefore
        rw [hedit.id_eq before, hs.steady.ids _ before hget, hc]
        rfl
      have hrequired := Environment.lacksRequirement_eq_false_iff.1
        (before.lacksRequirement_require target)
      rw [hid] at hrequired
      exact hrequired.imp_right fun hmem => ⟨_, hown', hmem⟩
    obtain ⟨hs', htracks'⟩ := hensures.tracks hl hc hwalk (hedit.holds h hc hs) hrequires
      (tracks_require hc named htracks)
    refine ⟨hs', _, fun t ht => ?_, htracks'⟩
    obtain ⟨hmem, hne⟩ := List.mem_filter.1 ht
    exact (List.mem_cons.1 hmem).resolve_left (by simpa using hne)

theorem Steps.tracks (h : Live c s o) (hc : c.env = f.id) (hwalk : Tracked n c.walk)
    (hsteps : Steps c phase s s') (hphase : phase ≠ .importing) (hs : Holds c n s)
    (htracks : Tracks m₀ f rest s pending) :
    Holds c n s' ∧ ∃ pending', pending' ⊆ pending ∧ Tracks m₀ f rest s' pending' := by
  induction hsteps with
  | refl => exact ⟨hs, pending, List.Subset.refl _, htracks⟩
  | tail hbefore hstep ih =>
    obtain ⟨hs₁, pending₁, hsub₁, htracks₁⟩ := ih
    obtain ⟨-, o₁, hl₁⟩ := Steps.frames h hbefore
    obtain ⟨hs₂, pending₂, hsub₂, htracks₂⟩ := hstep.tracks hl₁ hc hwalk hphase hs₁ htracks₁
    exact ⟨hs₂, pending₂, List.Subset.trans hsub₂ hsub₁, htracks₂⟩

/-! ## The imports of a program -/

/-- Names stand for the same environments throughout. -/
theorem Tracks.lookup? (h : Tracks m₀ f rest s pending) (name : String) :
    s.session.registry.lookup? name = m₀.session.registry.lookup? name := by
  obtain ⟨_, _, hrun⟩ := h
  exact hrun.lookup? name

/-- After the imports are recorded, only imports are pending. -/
theorem tracks_importAll (h : Live c s o) (hc : c.env = f.id) (hwalk : Tracked n c.walk)
    (uses : List UseStmt) (hs : Holds c n s) (htracks : Tracks m₀ f rest s []) :
    Runs (uses.forM importEnvironment) c s fun _ s' => Live c s' o ∧ Holds c n s' ∧
      ∃ pending, Tracks m₀ f rest s' pending ∧ ∀ target ∈ pending, s'.Imports c target ∧
        ∃ stmt ∈ uses, m₀.session.registry.lookup? stmt.path.name = some target := by
  refine Runs.forM (I := fun t => Live c t o ∧ Holds c n t ∧ ∃ pending, Tracks m₀ f rest t pending ∧
    ∀ target ∈ pending, t.Imports c target ∧
      ∃ stmt ∈ uses, m₀.session.registry.lookup? stmt.path.name = some target) uses
    ⟨h, hs, [], htracks, nofun⟩ fun stmt hstmt t ⟨hl, ht, pending, htr, hpending⟩ => ?_
  refine (runs_importEnvironment .checking hl stmt).mono fun _ u ⟨hl', hu⟩ => ?_
  rcases hu with hsteps | ⟨target, hlookup, hne, hallowed, rfl⟩
  · obtain ⟨hu, pending', hsub, htr'⟩ := Steps.tracks hl hc hwalk hsteps nofun ht htr
    exact ⟨hl', hu, pending', htr', fun target htarget =>
      ⟨Steps.imports hl hsteps (hpending target (hsub htarget)).1, (hpending target (hsub htarget)).2⟩⟩
  · have hrequire : Edit c .importing t (·.require target) := .require target hallowed ⟨_, hlookup⟩
    obtain ⟨-, o₁, hl₁⟩ := hrequire.frames hl
    have himport : Edit c .importing (t.modifyOwn c (·.require target)) (·.addImport target) := by
      refine .addImport target Phase.Opens.ne hne fun env henv => ?_
      rw [own?_modifyOwn] at henv
      obtain ⟨before, -, rfl⟩ := Option.map_eq_some_iff.1 henv
      exact before.lacksRequirement_require target
    obtain ⟨own, hown, -, -⟩ := hl.own
    have hkept (env : Environment) : (env.addImport target).requirements = env.requirements := by
      unfold Environment.addImport
      split <;> rfl
    refine ⟨hl', himport.holds hl₁ hc (hrequire.holds hl hc ht), target :: pending,
      himport.tracks hc hkept (tracks_require hc ⟨_, hlookup⟩ htr), fun other hother => ?_⟩
    have hown' : ((t.modifyOwn c (·.require target)).modifyOwn c (·.addImport target)).own? c =
        some ((own.require target).addImport target) := by
      rw [own?_modifyOwn, own?_modifyOwn, hown]
      rfl
    rcases List.mem_cons.1 hother with rfl | hother
    · refine ⟨⟨_, hown', ?_⟩, stmt, hstmt, htr.lookup? _ ▸ hlookup⟩
      unfold Environment.addImport
      split
      · simp
      · next hlacks => simpa [Environment.lacksImport] using hlacks
    · obtain ⟨⟨env, henv, hmem⟩, hnamed⟩ := hpending other hother
      obtain rfl := Option.some.inj (hown.symm.trans henv)
      exact ⟨⟨_, hown', himport.mem_imports (hrequire.mem_imports hmem)⟩, hnamed⟩

/-- Every import is asked for: what a `use` names is no longer pending. -/
theorem tracks_walkImports (h : Live c s o) (hc : c.env = f.id) (hwalk : Tracked n c.walk)
    (uses : List UseStmt) (hs : Holds c n s) (htracks : Tracks m₀ f rest s pending)
    (himports : ∀ target ∈ pending, s.Imports c target) :
    Runs (uses.forM walkImport) c s fun _ s' => Live c s' o ∧ Holds c n s' ∧
      ∃ pending', Tracks m₀ f rest s' pending' ∧ ∀ target ∈ pending', target ∈ pending ∧
        ∀ stmt ∈ uses, m₀.session.registry.lookup? stmt.path.name ≠ some target := by
  induction uses generalizing s pending with
  | nil => exact .pure ⟨h, hs, pending, htracks, fun _ ht => ⟨ht, nofun⟩⟩
  | cons stmt others ih =>
    refine (runs_walkImport h stmt).bind fun _ t ht => ?_
    rcases ht with ⟨target, hlookup, himported, hensures⟩ | ⟨rfl, hnot⟩
    · obtain ⟨ht, htr⟩ := hensures.tracks h hc hwalk hs (hs.requires himported) htracks
      obtain ⟨-, hl, hown⟩ := hensures.frames h
      refine (ih hl ht htr fun other hother => ?_).mono
        fun _ u ⟨hl', hu, pending', htr', hdone⟩ => ⟨hl', hu, pending', htr', fun other hother => ?_⟩
      · obtain ⟨env, henv, hmem⟩ := himports other (List.mem_filter.1 hother).1
        exact ⟨env, hown.trans henv, hmem⟩
      · obtain ⟨hmem, hrest⟩ := hdone other hother
        obtain ⟨hbefore, hne⟩ := List.mem_filter.1 hmem
        refine ⟨hbefore, fun st hst => ?_⟩
        rcases List.mem_cons.1 hst with rfl | hst
        · rw [← htracks.lookup?, hlookup]
          exact fun heq => absurd (Option.some.inj heq).symm (by simpa using hne)
        · exact hrest st hst
    · refine (ih h hs htracks himports).mono
        fun _ u ⟨hl', hu, pending', htr', hdone⟩ => ⟨hl', hu, pending', htr', fun other hother => ?_⟩
      obtain ⟨hmem, hrest⟩ := hdone other hother
      refine ⟨hmem, fun st hst hfound => ?_⟩
      rcases List.mem_cons.1 hst with rfl | hst
      · exact hnot other (htracks.lookup? _ ▸ hfound) (himports other hmem)
      · exact hrest st hst hfound

/-! ## Programs -/

/-- The check of a program ends with nothing pending. -/
theorem tracks_walkProgram (h : Live c s {}) (hc : c.env = f.id) (hwalk : Tracked n c.walk)
    (program : Program) (hs : Holds c n s) (htracks : Tracks m₀ f rest s []) :
    Runs (walkProgram program) c s fun _ s' => Holds c n s' ∧ Tracks m₀ f rest s' [] := by
  have hdeclare : Runs (Declare.program program) c s fun _ t =>
      Live c t {} ∧ Holds c n t ∧ Tracks m₀ f rest t [] := by
    rw [Declare.program_eq]
    refine (tracks_importAll h hc hwalk _ hs htracks).bind
      fun _ s₁ ⟨hl₁, hs₁, pending₁, htr₁, hpending₁⟩ => ?_
    refine (Declare.quiet_countEach Declare.quiet_claimType program c s₁ {} hl₁).bind
      fun types s₂ ⟨hsteps₂, hl₂⟩ => ?_
    obtain ⟨hs₂, pending₂, hsub₂, htr₂⟩ := Steps.tracks hl₁ hc hwalk hsteps₂ nofun hs₁ htr₁
    refine (Declare.quiet_resolveAliases program c s₂ {} hl₂).bind fun _ s₃ ⟨hsteps₃, hl₃⟩ => ?_
    obtain ⟨hs₃, pending₃, hsub₃, htr₃⟩ := Steps.tracks hl₂ hc hwalk hsteps₃ nofun hs₂ htr₂
    refine (Declare.quiet_countEach Declare.quiet_registerMembers program c s₃ {} hl₃).bind
      fun members s₄ ⟨hsteps₄, hl₄⟩ => ?_
    obtain ⟨hs₄, pending₄, hsub₄, htr₄⟩ := Steps.tracks hl₃ hc hwalk hsteps₄ nofun hs₃ htr₃
    have hfunctions : Quiet .binding (Declare.countEach Declare.registerFunction program) :=
      Declare.quiet_countEach Declare.quiet_registerFunction program
    refine (hfunctions c s₄ {} hl₄).bind
      fun functions s₅ ⟨hsteps₅, hl₅⟩ => ?_
    obtain ⟨hs₅, pending₅, hsub₅, htr₅⟩ := Steps.tracks hl₄ hc hwalk hsteps₅ nofun hs₄ htr₄
    have hsub : pending₅ ⊆ pending₁ :=
      List.Subset.trans (List.Subset.trans (List.Subset.trans hsub₅ hsub₄) hsub₃) hsub₂
    have himports : ∀ target ∈ pending₅, s₅.Imports c target := fun target htarget =>
      Steps.imports hl₄ hsteps₅ <| Steps.imports hl₃ hsteps₄ <| Steps.imports hl₂ hsteps₃ <|
        Steps.imports hl₁ hsteps₂ (hpending₁ target (hsub htarget)).1
    refine (tracks_walkImports hl₅ hc hwalk _ hs₅ htr₅ himports).bind
      fun _ s₆ ⟨hl₆, hs₆, pending₆, htr₆, hdone⟩ => ?_
    -- Whatever is pending is the target of a `use`, and all of these were asked for.
    obtain rfl : pending₆ = [] := by
      refine List.eq_nil_iff_forall_not_mem.2 fun target htarget => ?_
      obtain ⟨hmem, hnot⟩ := hdone target htarget
      obtain ⟨-, stmt, hstmt, hlookup⟩ := hpending₁ target (hsub hmem)
      exact hnot stmt hstmt hlookup
    exact .pure ⟨hl₆, hs₆, htr₆⟩
  refine hdeclare.bind fun _ t ⟨hl, ht, htr⟩ => ?_
  refine (runs_program hl program).mono fun _ u ⟨hsteps, _⟩ => ?_
  obtain ⟨hu, pending, hsub, htr'⟩ := Steps.tracks hl hc hwalk hsteps nofun ht htr
  obtain rfl := List.subset_nil.1 hsub
  exact ⟨hu, htr'⟩

end Check

/-! ## Walks -/

namespace Session

open Check Machine

variable {s : Session} {n index : Nat} {env : Environment}

/-- The environments that wait after another one is started. -/
theorem waits_of_checkOut {i : Nat} {other : Environment}
    (he : (s.checkOut (.user index) index).registry.envs[i]? = some other)
    (hwaits : other.state = .notWalked) : index ≠ i ∧ s.registry.envs[i]? = some other := by
  simp only [Session.checkOut, Registry.modify, EnvId.userIndex?_user, List.getElem?_modify] at he
  obtain ⟨old, hold, heq⟩ := Option.map_eq_some_iff.1 he
  split at heq
  · subst heq
    cases hwaits
  · next hne => exact ⟨hne, by rw [hold]; exact congrArg some heq⟩

theorem Steady.checkOut (h : s.Steady (n + 1)) (henv : s.registry.envs[index]? = some env)
    (hwaits : env.state = .notWalked) : (s.checkOut (.user index) index).Steady n := by
  have hids : ∀ (i : Nat) other,
      (s.checkOut (.user index) index).registry.envs[i]? = some other → other.id = .user i := by
    intro i other he
    simp only [Session.checkOut, Registry.modify, EnvId.userIndex?_user, List.getElem?_modify] at he
    obtain ⟨old, hold, heq⟩ := Option.map_eq_some_iff.1 he
    rw [← h.ids i old hold, ← heq]
    split <;> rfl
  refine ⟨hids, fun id other he hw => ?_, ?_, fun i other he hw => ?_⟩
  · obtain ⟨i, hi, hget⟩ := Option.bind_eq_some_iff.1 he
    exact h.waitsNew id other (Option.bind_eq_some_iff.2 ⟨i, hi, (waits_of_checkOut hget hw).2⟩) hw
  · have hcount := countP_waits_start (f := fun env => { env with state := .walking }) henv
      (Environment.waits_iff.2 hwaits) rfl
    have hfew := h.few
    simp only [Session.checkOut, Registry.modify, EnvId.userIndex?_user]
    omega
  · obtain ⟨hne, hget⟩ := waits_of_checkOut he hw
    obtain ⟨program, hslot⟩ := h.slots i other hget hw
    exact ⟨program, (List.getElem?_set_ne hne).trans hslot⟩

theorem Steady.checkIn {m : Nat} {t : Session} (h : s.Steady n) (ht : t.Steady m) (out : Program)
    (alerts : Diagnostics) (hkeeps : s.Keeps (t.checkIn (.user index) index out alerts)) :
    (t.checkIn (.user index) index out alerts).Steady n := by
  have hcases (i : Nat) (other : Environment)
      (he : (t.checkIn (.user index) index out alerts).registry.envs[i]? = some other) :
      ∃ old, t.registry.envs[i]? = some old ∧
        other = if index = i then { old with state := .walked } else old := by
    simp only [Session.checkIn, Registry.modify, EnvId.userIndex?_user, List.getElem?_modify] at he
    obtain ⟨old, hold, heq⟩ := Option.map_eq_some_iff.1 he
    exact ⟨old, hold, heq.symm⟩
  refine ⟨fun i other he => ?_, hkeeps.waitsNew h.waitsNew, ?_, fun i other he hw => ?_⟩
  · obtain ⟨old, hold, rfl⟩ := hcases i other he
    rw [← ht.ids i old hold]
    split <;> rfl
  · refine Nat.le_trans (countP_waits_le fun j other he hw => ?_) h.few
    simpa using hkeeps.waiting (.user j) other (by simpa using he) hw
  · obtain ⟨old, hold, rfl⟩ := hcases i other he
    split at hw
    · cases hw
    · next hne =>
      obtain ⟨program, hslot⟩ := ht.slots i old hold hw
      exact ⟨program, (List.getElem?_set_ne hne).trans hslot⟩

/-- Every walk is a run of the machine. -/
theorem tracked_walk (n : Nat) : Tracked n (Session.walk n) := by
  induction n with
  | zero =>
    intro index env s hs henv hwaits
    have hnone := List.countP_eq_zero.1 (Nat.le_zero.1 hs.few) env (List.mem_of_getElem? henv)
    exact absurd (Environment.waits_iff.2 hwaits) hnone
  | succ n ih =>
    intro index env s hs henv hwaits
    obtain ⟨program, hslot⟩ := hs.slots index env henv hwaits
    refine ⟨program, hslot, fun result s' hrun => ?_⟩
    have hget : s.registry.get? (.user index) = some env := by simpa using henv
    have hnew := hs.waitsNew _ env hget hwaits
    have hlive := live_checkOut (framing_walk n) hs.waitsNew hget hnew index
    obtain ⟨_, _, hrun', hkeeps⟩ := framing_walk (n + 1) (.user index) s hs.waitsNew
    rw [hrun] at hrun'
    cases hrun'
    have hholds : Holds ⟨.user index, Session.walk n⟩ n
        { session := s.checkOut (.user index) index } := by
      refine ⟨hs.checkOut henv hwaits, fun own hown target htarget => ?_, nofun⟩
      have hself := s.registry.get?_modify_self (.user index) fun env =>
        { env with state := .walking }
      rw [hget] at hself
      obtain rfl := Option.some.inj (hself.symm.trans hown)
      rw [hnew] at htarget
      cases htarget
    have htracks rest started reports : Runs (walkProgram program) ⟨.user index, Session.walk n⟩
        { session := s.checkOut (.user index) index } fun _ t =>
          Holds ⟨.user index, Session.walk n⟩ n t ∧
          Tracks (begin ⟨s, rest, started, reports⟩ index program) ⟨index, program, s, [], {}⟩ rest
            t [] :=
      tracks_walkProgram hlive rfl ih program hholds ⟨started ++ [index], reports, .refl⟩
    obtain ⟨out, t, hprogram, ht, -⟩ := htracks [] [] []
    have hcheck : (s.checkOut (.user index) index).runCheck (.user index) (Session.walk n)
        (walkProgram program) = .ok (out, t) := hprogram
    unfold walk at hrun
    simp only [EnvId.userIndex?_user, hget, hwaits, bne_self_eq_false, Bool.false_eq_true, if_false,
      hslot, hcheck] at hrun
    cases hrun
    refine ⟨hs.checkIn ht.steady out t.alerts hkeeps, ht.fatal, fun rest started reports => ?_⟩
    obtain ⟨-, started', reports', hmoves⟩ := (htracks rest started reports).apply hprogram
    exact ⟨started', reports', hmoves.tail
      (Move.finish (f := frameAt ⟨index, program, s, [], {}⟩ t []) n rfl rfl hcheck rfl rfl)⟩

/-! ## Builds -/

/-- The walks over a list of environments end with an error. Those before one of them are a run to a
machine without walks under way, and the walk of that one, which ends with the error, is a run from
there. -/
def Stops (m : Machine) (indices : List Nat) (e : CompileError) (m' : Machine) : Prop :=
  ∃ before i after mid, indices = before ++ i :: after ∧
    Run m mid ∧ mid.active = [] ∧ m.session.walkAll before = .ok mid.session ∧
    Run mid m' ∧ mid.session.walkEnvironment (.user i) = .ok (some e, m'.session)

theorem Stops.cons {m mid m' : Machine} {i : Nat} {others : List Nat} {e : CompileError}
    (hwalk : m.session.walkEnvironment (.user i) = .ok (none, mid.session)) (hrun : Run m mid)
    (h : Stops mid others e m') : Stops m (i :: others) e m' := by
  obtain ⟨before, j, after, last, rfl, hbefore, hidle, hall, hlast, herror⟩ := h
  refine ⟨i :: before, j, after, last, rfl, hrun.trans hbefore, hidle, ?_, hlast, herror⟩
  rw [walkAll, hwalk]
  exact hall

/-- The walks of a build are a run of the machine, up to the first error. -/
theorem run_walkAll {indices : List Nat} (hs : s.Steady n)
    (hindices : ∀ i ∈ indices, i < s.registry.envs.length) (started : List Nat)
    (reports : List CycleReport) :
    ∃ s' started' reports', Run ⟨s, [], started, reports⟩ ⟨s', [], started', reports'⟩ ∧
      (s.walkAll indices = .ok s' ∧ (∀ i ∈ indices, ¬s'.WaitsAt i) ∨
        ∃ e, e.isContainer = true ∧ s.walkAll indices = .error e ∧
          Stops ⟨s, [], started, reports⟩ indices e ⟨s', [], started', reports'⟩) := by
  induction indices generalizing s n started reports with
  | nil => exact ⟨s, started, reports, .refl, .inl ⟨rfl, by simp⟩⟩
  | cons i others ih =>
    have hi := hindices i (by simp)
    have hsteady : s.Steady s.registry.envs.length :=
      ⟨hs.ids, hs.waitsNew, List.countP_le_length, hs.slots⟩
    obtain ⟨result, t, hwalk, hkeeps⟩ := framing_walk s.registry.envs.length (.user i) s hs.waitsNew
    have hrun : (∃ m, t.Steady m) ∧ (∀ e ∈ result, e.isContainer = true) ∧
        ∃ started' reports', Run ⟨s, [], started, reports⟩ ⟨t, [], started', reports'⟩ := by
      by_cases hwaits : s.registry.envs[i].state = .notWalked
      · have hget := List.getElem?_eq_getElem hi
        obtain ⟨program, hslot, hresult⟩ := tracked_walk _ i _ s hsteady hget hwaits
        obtain ⟨ht, herror, hmoves⟩ := hresult result t hwalk
        obtain ⟨started', reports', hmoves⟩ := hmoves [] started reports
        exact ⟨⟨_, ht⟩, herror, started', reports', .head (.start rfl hget hwaits hslot) hmoves⟩
      · have hget : s.registry.get? (.user i) = some s.registry.envs[i] := by simp
        unfold walk at hwalk
        simp only [EnvId.userIndex?_user, hget, bne_iff_ne, ne_eq, hwaits, not_false_eq_true,
          if_true] at hwalk
        cases hwalk
        exact ⟨⟨n, hs⟩, by simp, started, reports, .refl⟩
    obtain ⟨⟨m, ht⟩, herror, started₁, reports₁, hmoves⟩ := hrun
    have hfirst : s.walkEnvironment (.user i) = .ok (result, t) := hwalk
    rw [walkAll, hfirst]
    cases result with
    | some e =>
      exact ⟨t, started₁, reports₁, hmoves,
        .inr ⟨e, herror e rfl, rfl, [], i, others, _, rfl, .refl, rfl, rfl, hmoves, hfirst⟩⟩
    | none =>
      have hlength := congrArg List.length hmoves.names
      simp only [Registry.names, List.length_map] at hlength
      obtain ⟨s', started', reports', hrest, hresult⟩ := ih ht
        (fun j hj => hlength ▸ hindices j (by simp [hj])) started₁ reports₁
      refine ⟨s', started', reports', hmoves.trans hrest, ?_⟩
      rcases hresult with ⟨hok, hdone⟩ | ⟨e, hkind, hfails, hstops⟩
      · refine .inl ⟨hok, fun j hj => ?_⟩
        rcases List.mem_cons.1 hj with rfl | hj
        · have hothers := (progress_walkAll (hkeeps.waitsNew hs.waitsNew) hok).1
          exact fun hw => not_waitsAt_of_walk hwalk (hothers.still _ hw)
        · exact hdone j hj
      · exact .inr ⟨e, hkind, hfails, hstops.cons hfirst hmoves⟩

/-- The session that a build of files starts from. -/
def ofFiles (config : Config) (files : List (String × Program)) : Session :=
  files.foldl (fun s (path, program) => (s.addProgram path program).2) (Session.new config)

theorem loaded_ofFiles (config : Config) (files : List (String × Program)) :
    (ofFiles config files).Loaded files :=
  loaded_files config files

theorem Loaded.steady {files : List (String × Program)} (h : s.Loaded files) :
    s.Steady s.registry.envs.length := by
  refine ⟨fun i env he => (h.envs i env he).2, h.waitsNew, List.countP_le_length,
    fun i env he _ => ?_⟩
  obtain ⟨hi, -⟩ := List.getElem?_eq_some_iff.1 he
  rw [h.length] at hi
  exact ⟨files[i].2, by rw [h.programs]; simp [hi]⟩

/-- Every build is a run of the machine to a state without walks under way. -/
theorem run_analyze (config : Config) (files : List (String × Program)) :
    ∃ m : Machine, Run { session := ofFiles config files } m ∧ m.active = [] ∧
      ((∃ programs, analyze config files =
          .ok ⟨m.session.registry, programs, m.session.alerts, m.session.config.denyWarnings⟩ ∧
          collect m.session.programs m.session.registry.envs = .ok programs ∧
          ∀ i < files.length, ¬m.session.WaitsAt i) ∨
        (∃ e, analyze config files = .error e ∧
          (e.isContainer = true ∧
              Stops { session := ofFiles config files } (List.range files.length) e m ∨
            collect m.session.programs m.session.registry.envs = .error e))) := by
  have hloaded := loaded_ofFiles config files
  have hin : ∀ i ∈ List.range (ofFiles config files).registry.envs.length,
      i < (ofFiles config files).registry.envs.length := fun i hi => List.mem_range.1 hi
  obtain ⟨s', started, reports, hrun, hresult⟩ := run_walkAll hloaded.steady hin [] []
  refine ⟨_, hrun, rfl, ?_⟩
  have hbuild : analyze config files = (ofFiles config files).build := rfl
  rw [hbuild, build]
  rcases hresult with ⟨hok, hdone⟩ | ⟨e, hkind, herror, hstops⟩
  · rw [hok]
    cases hcollect : collect s'.programs s'.registry.envs with
    | ok programs =>
      refine .inl ⟨programs, ?_, rfl, fun i hi => hdone i (List.mem_range.2 (hloaded.length ▸ hi))⟩
      change (collect s'.programs s'.registry.envs >>= _) = _
      rw [hcollect]
      rfl
    | error e =>
      refine .inr ⟨e, ?_, .inr rfl⟩
      change (collect s'.programs s'.registry.envs >>= _) = _
      rw [hcollect]
      rfl
  · rw [herror]
    rw [hloaded.length] at hstops
    exact .inr ⟨e, rfl, .inl ⟨hkind, hstops⟩⟩

end Session

end HybroidSema
