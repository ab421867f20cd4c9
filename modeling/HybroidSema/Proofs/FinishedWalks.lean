import HybroidSema.Proofs.Lasting
import HybroidSema.Proofs.WalkOnce

/-!
# The walks of a finished build

A build that ends without an error has walked every program from its beginning to its end, without
an error in that walk or in one that was made on the way. What the build gives for a file is what
that one walk left: the resolved program, the environment, and the alerts after those of the `env`
declaration.

* `FinishedWalk`: a walk of a program in a new environment, to its end and without an error.
* `Session.Records`: what walks do to a session, position by position, by induction on the steps and
  on how deep walks nest (`Session.records_walk`).
* `finished_lasting_of_analyze`: the walk behind each file of a build, and what lasts after it;
  `finished_of_analyze` is the walk alone.
-/

namespace HybroidSema

open Check

/-- A walk of a program in an environment that was new, to its end and without an error. -/
structure FinishedWalk (config : Config) (id : EnvId) (p out : Program) (c : Context)
    (s t : State) : Prop where
  own : c.env = id
  nested : ∃ depth, c.walk = Session.walk depth
  live : Live c s {}
  isNew : ∃ env : Environment, env.IsNew ∧ s.own? c = some { env with state := .walking }
  settings : s.session.config = config
  alerts : s.alerts = {}
  narrowings : s.narrowings = []
  run : Session.walkProgram p c s = .ok (out, t)
  clean : t.fatal = none

namespace Session

/-- What a finished walk of a program left at its position. Whatever its environments had declared,
they still have. -/
def Left (before after : Session) (i : Nat) (p : Program) : Prop :=
  ∃ out c s t env, FinishedWalk after.config (.user i) p out c s t ∧ t.own? c = some env ∧
    after.unit i = (some { env with state := .walked }, some (some out),
      before.alerts[i]?.map (·.append t.alerts)) ∧ t.session.registry.Lasts after.registry

/-- What walks do at each position of a session, apart from the environment that asks for them.
Where an environment was started before, nothing happens; where one still waits, neither; and if
there was no error, a finished walk left what is at the other positions. -/
structure Records (clean : Prop) (own : Option EnvId) (s s' : Session) : Prop where
  config : s'.config = s.config
  busy : ∀ i, some (.user i) = own → ¬s.WaitsAt i
  slots : ∀ i, ¬s.WaitsAt i → s'.programs[i]? = s.programs[i]? ∧ s'.alerts[i]? = s.alerts[i]?
  started : ∀ i, ¬s.WaitsAt i → some (.user i) ≠ own →
    s'.registry.envs[i]? = s.registry.envs[i]?
  waiting : ∀ i, s'.WaitsAt i → s.WaitsAt i ∧ s'.unit i = s.unit i
  lasting : s.registry.Lasts s'.registry
  left : clean → ∀ i p, s.WaitsAt i → s.programs[i]? = some (some p) → ¬s'.WaitsAt i →
    s.Left s' i p

variable {s t u : Session} {clean clean' : Prop} {own : Option EnvId}

/-- Nothing is walked, and no environment changes but the one that asks. -/
theorem Records.of_same (hconfig : t.config = s.config) (hprograms : t.programs = s.programs)
    (halerts : t.alerts = s.alerts) (hbusy : ∀ i, some (.user i) = own → ¬s.WaitsAt i)
    (hwaits : ∀ i, t.WaitsAt i ↔ s.WaitsAt i)
    (henvs : ∀ i, some (EnvId.user i) ≠ own → t.registry.envs[i]? = s.registry.envs[i]?)
    (hlasting : s.registry.Lasts t.registry) : Records clean own s t := by
  refine ⟨hconfig, hbusy, fun i _ => by rw [hprograms, halerts]; exact ⟨rfl, rfl⟩,
    fun i _ hne => henvs i hne, fun i hi => ?_, hlasting,
    fun _ i _ hi _ hnot => absurd ((hwaits i).2 hi) hnot⟩
  have hs := (hwaits i).1 hi
  refine ⟨hs, ?_⟩
  simp only [unit, hprograms, halerts, henvs i fun heq => hbusy i heq hs]

theorem Records.trans (h : Records clean own s t) (h' : Records clean' own t u)
    (hclean : clean' → clean) : Records clean' own s u := by
  have hdone {i : Nat} (hi : ¬s.WaitsAt i) : ¬t.WaitsAt i := fun ht => hi (h.waiting i ht).1
  refine ⟨h'.config.trans h.config, h.busy, fun i hi => ?_, fun i hi hne => ?_, fun i hi => ?_,
    h.lasting.trans h'.lasting, fun hc i p hi hp hnot => ?_⟩
  · obtain ⟨hprogram, halerts⟩ := h.slots i hi
    obtain ⟨hprogram', halerts'⟩ := h'.slots i (hdone hi)
    exact ⟨hprogram'.trans hprogram, halerts'.trans halerts⟩
  · exact (h'.started i (hdone hi) hne).trans (h.started i hi hne)
  · obtain ⟨ht, hunit'⟩ := h'.waiting i hi
    obtain ⟨hs, hunit⟩ := h.waiting i ht
    exact ⟨hs, hunit'.trans hunit⟩
  · by_cases ht : t.WaitsAt i
    · have hunit := (h.waiting i ht).2
      simp only [unit, Prod.mk.injEq] at hunit
      have hleft := h'.left hc i p ht (hunit.2.1.trans hp) hnot
      simp only [Left, hunit.2.2] at hleft
      exact hleft
    · obtain ⟨out, c, s₀, t', env, hwalk, hown, hunit', hlasts⟩ := h.left (hclean hc) i p hi hp ht
      have hunit : u.unit i = t.unit i := by
        obtain ⟨hprogram, halerts⟩ := h'.slots i ht
        simp only [unit, hprogram, halerts, h'.started i ht fun heq => h.busy i heq hi]
      exact ⟨out, c, s₀, t', env, h'.config ▸ hwalk, hown, hunit.trans hunit',
        hlasts.trans h'.lasting⟩

theorem Records.weaken (h : Records clean own s t) (hclean : clean' → clean) :
    Records clean' own s t :=
  ⟨h.config, h.busy, h.slots, h.started, h.waiting, h.lasting, fun hc => h.left (hclean hc)⟩

/-- What a walk does, seen from an environment that was started before. -/
theorem Records.inside (h : Records clean none s t) (hbusy : ∀ i, some (.user i) = own →
    ¬s.WaitsAt i) : Records clean own s t :=
  ⟨h.config, hbusy, h.slots, fun i hi _ => h.started i hi (by simp), h.waiting, h.lasting, h.left⟩

/-- Walking another environment leaves what finished walks leave. -/
def Recording (walk : EnvId → Session → Except CompileError (Option CompileError × Session)) :
    Prop :=
  ∀ target (s : Session) result s', s.WaitsNew → walk target s = .ok (result, s') →
    Records (result = none) none s s'

end Session

namespace Check

open Session

variable {c : Context} {s s' : State} {o : ScopeStack} {phase : Phase} {clean : Prop}

/-- The own environment does not wait. -/
theorem Live.busy (h : Live c s o) (i : Nat) (hi : some (EnvId.user i) = some c.env) :
    ¬s.session.WaitsAt i := by
  obtain ⟨env, hown, hstarted, -⟩ := h.own
  rintro ⟨env', hget, hwaits⟩
  rw [Option.some.inj hi] at hget
  obtain rfl := Option.some.inj (hown.symm.trans hget)
  exact hstarted hwaits

/-- A change of everything but programs and environments. -/
theorem Live.records_of_envs_eq (h : Live c s o)
    (hconfig : s'.session.config = s.session.config)
    (hprograms : s'.session.programs = s.session.programs)
    (halerts : s'.session.alerts = s.session.alerts)
    (henvs : s'.session.registry.envs = s.session.registry.envs) :
    Records clean (some c.env) s.session s'.session :=
  .of_same hconfig hprograms halerts h.busy
    (fun i => by simp only [WaitsAt, Registry.get?_of_envs_eq henvs]) (fun i _ => by rw [henvs])
    (.of_envs_eq henvs)

theorem Edit.records {f : Environment → Environment} (h : Live c s o) (hedit : Edit c phase s f) :
    Records clean (some c.env) s.session (s.modifyOwn c f).session := by
  have hprogress : Progress True s.session (s.modifyOwn c f).session := hedit.progress
  refine .of_same rfl rfl rfl h.busy (fun i => ⟨hprogress.still i, fun hi => ?_⟩) (fun i hne => ?_)
    (Registry.lasts_modify fun env hown => hedit.lasts hown)
  · obtain ⟨env, hget, hwaits⟩ := hi
    have hne : EnvId.user i ≠ c.env := fun heq =>
      h.busy i (congrArg some heq) ⟨env, hget, hwaits⟩
    exact ⟨env, (Registry.get?_modify_ne _ f hne).trans hget, hwaits⟩
  · have hne' : EnvId.user i ≠ c.env := fun heq => hne (congrArg some heq)
    simpa [State.modifyOwn] using Registry.get?_modify_ne s.session.registry f hne'

theorem Ensures.records {target : EnvId} (h : Live c s o) (hw : Recording c.walk)
    (hensures : Ensures c target s s') :
    Records (s'.fatal = none) (some c.env) s.session s'.session := by
  cases hensures with
  | report cycle span =>
    exact h.records_of_envs_eq rfl rfl rfl (s.session.registry.envs_markCycle c.env target)
  | walk result session _ _ _ hrun =>
    refine ((hw target s.session result session h.waitsNew hrun).weaken fun hclean => ?_).inside
      h.busy
    cases result with
    | none => rfl
    | some error => cases hf : s.fatal <;> simp [hf] at hclean
  | _ => exact h.records_of_envs_eq rfl rfl rfl rfl

theorem Step.records (h : Live c s o) (hw : Recording c.walk) (hstep : Step c phase s s') :
    Records (s'.fatal = none) (some c.env) s.session s'.session := by
  cases hstep with
  | edit f hedit => exact hedit.records h
  | ensure target _ hensures => exact hensures.records h hw
  | link target allowed named hensures =>
    have hedit : Edit c phase s (·.require target) := .require target allowed named
    obtain ⟨-, o', hl⟩ := hedit.frames h
    have hrequire :
        Records True (some c.env) s.session (s.modifyOwn c (·.require target)).session :=
      hedit.records h
    exact hrequire.trans (hensures.records hl hw) fun _ => trivial
  | _ => exact h.records_of_envs_eq rfl rfl rfl rfl

/-- The steps of a walk, and the walks that it makes on the way. -/
theorem Route.records (h : Live c s o) (hw : Recording c.walk) (hroute : Route c s s') :
    Records (s'.fatal = none) (some c.env) s.session s'.session :=
  hroute.keeps (I := fun t => Records (t.fatal = none) (some c.env) s.session t.session) h
    (fun _ _ _ _ hl hstep ih => ih.trans (hstep.records hl hw) fun hclean => by
      by_contra hne
      exact hstep.fatal_ne hne hclean)
    (h.records_of_envs_eq rfl rfl rfl rfl)

end Check

namespace Session

/-- A walk from its beginning to its end. Between the two its own slot is empty and its environment
is being walked. -/
theorem Records.around {s : Session} {t : State} {index : Nat} {p out : Program}
    (hwaits : s.WaitsAt index) (hslot : s.programs[index]? = some (some p))
    (h : Records (t.fatal = none) (some (.user index)) (s.checkOut (.user index) index) t.session)
    (hown : ∃ env, t.session.registry.envs[index]? = some env ∧ (t.fatal = none →
      ∃ c s₀, FinishedWalk s.config (.user index) p out c s₀ t ∧ t.own? c = some env)) :
    Records (t.fatal = none) none s (t.session.checkIn (.user index) index out t.alerts) := by
  obtain ⟨env, hget, hfinished⟩ := hown
  have hid {i : Nat} (hi : i ≠ index) : EnvId.user i ≠ .user index :=
    fun heq => hi (by simpa [EnvId.user] using heq)
  have hbefore {i : Nat} (hi : i ≠ index) :
      (s.checkOut (.user index) index).WaitsAt i ↔ s.WaitsAt i := by
    simp only [WaitsAt, checkOut, Registry.get?_modify_ne _ _ (hid hi)]
  have hafter {i : Nat} (hi : i ≠ index) :
      (t.session.checkIn (.user index) index out t.alerts).WaitsAt i ↔ t.session.WaitsAt i := by
    simp only [WaitsAt, checkIn, Registry.get?_modify_ne _ _ (hid hi)]
  have hother {i : Nat} (hi : ¬s.WaitsAt i) : i ≠ index := fun heq => hi (heq ▸ hwaits)
  have hdone {i : Nat} (hi : (t.session.checkIn (.user index) index out t.alerts).WaitsAt i) :
      i ≠ index := by
    rintro rfl
    obtain ⟨env, he, hs⟩ := hi
    rw [checkIn, Registry.get?_modify_self] at he
    obtain ⟨own, -, rfl⟩ := Option.map_eq_some_iff.1 he
    cases hs
  have houtside {i : Nat} (hi : i ≠ index) :
      (t.session.checkIn (.user index) index out t.alerts).unit i = t.session.unit i ∧
        (s.checkOut (.user index) index).unit i = s.unit i :=
    ⟨Machine.unit_checkIn_ne _ _ _ hi, Machine.unit_checkOut_ne _ hi⟩
  have hmarked (env : Environment) (state : WalkState) : env.Lasts { env with state := state } :=
    { Environment.Lasts.refl env with root := .of_bindings_eq rfl }
  have hbegun : s.registry.Lasts (s.checkOut (.user index) index).registry :=
    Registry.lasts_modify fun env _ => hmarked env _
  have hended : t.session.registry.Lasts
      (t.session.checkIn (.user index) index out t.alerts).registry :=
    Registry.lasts_modify fun env _ => hmarked env _
  refine ⟨h.config, fun i hi => absurd hi (Option.some_ne_none _), fun i hi => ?_,
    fun i hi _ => ?_, fun i hi => ?_, (hbegun.trans h.lasting).trans hended,
    fun hc i q hi hq hnot => ?_⟩
  · have hne := hother hi
    obtain ⟨hprograms, halerts⟩ := h.slots i fun hw => hi ((hbefore hne).1 hw)
    have hunits := houtside hne
    simp only [unit, Prod.mk.injEq] at hunits
    exact ⟨hunits.1.2.1.trans (hprograms.trans hunits.2.2.1),
      hunits.1.2.2.trans (halerts.trans hunits.2.2.2)⟩
  · have hne := hother hi
    have henv := h.started i (fun hw => hi ((hbefore hne).1 hw))
      fun heq => hid hne (Option.some.inj heq)
    have hunits := houtside hne
    simp only [unit, Prod.mk.injEq] at hunits
    exact hunits.1.1.trans (henv.trans hunits.2.1)
  · have hne := hdone hi
    obtain ⟨hw, hunit⟩ := h.waiting i ((hafter hne).1 hi)
    exact ⟨(hbefore hne).1 hw, (houtside hne).1.trans (hunit.trans (houtside hne).2)⟩
  · by_cases heq : i = index
    · -- The walk itself left what is at its position.
      subst heq
      obtain rfl : p = q := by simpa [hslot] using hq
      obtain ⟨c, s₀, hwalk, hleft⟩ := hfinished hc
      have hin : i < s.programs.length := (List.getElem?_eq_some_iff.1 hslot).1
      have hbusy : ¬(s.checkOut (.user i) i).WaitsAt i := h.busy i rfl
      obtain ⟨hprograms, halerts⟩ := h.slots i hbusy
      have hin' : i < t.session.programs.length := by
        rw [checkOut, List.getElem?_set_self hin] at hprograms
        exact (List.getElem?_eq_some_iff.1 hprograms).1
      refine ⟨out, c, s₀, t, env, h.config ▸ hwalk, hleft, ?_, hended⟩
      have halerts' : t.session.alerts[i]? = s.alerts[i]? := halerts
      simp [unit, checkIn, Registry.modify, hget, hin', halerts']
    · have hunits := houtside heq
      have hleft := h.left hc i q ((hbefore heq).2 hi)
        (by
          simp only [unit, Prod.mk.injEq] at hunits
          exact hunits.2.2.1.trans hq)
        fun hw => hnot ((hafter heq).2 hw)
      obtain ⟨out', c, s₀, t', env', hwalk, hown, hunit, hlasts⟩ := hleft
      exact ⟨out', c, s₀, t', env', hwalk, hown, hunits.1.trans hunit, hlasts.trans hended⟩

/-- Every walk records what it and the walks inside it leave. -/
theorem records_walk (depth : Nat) : Recording (Session.walk depth) := by
  induction depth with
  | zero =>
    intro id s result s' _ hrun
    rcases walk_cases 0 id s with ⟨r, hsame⟩ | ⟨_, _, _, _, _, _, _, _, hdepth, _⟩
    · rw [hsame] at hrun
      cases hrun
      exact .of_same rfl rfl rfl nofun (fun _ => .rfl) (fun _ _ => rfl) (.of_envs_eq rfl)
    · cases hdepth
  | succ depth ih =>
    intro id s result s' hs hrun
    rcases walk_cases (depth + 1) id s with ⟨r, hsame⟩ |
      ⟨index, env, program, depth', henv, hwaits, rfl, hslot, hdepth, hwalk⟩
    · rw [hsame] at hrun
      cases hrun
      exact .of_same rfl rfl rfl nofun (fun _ => .rfl) (fun _ _ => rfl) (.of_envs_eq rfl)
    · cases hdepth
      have hnew := hs _ env henv hwaits
      have hlive := live_checkOut (framing_walk depth) hs henv hnew index
      obtain ⟨out, t, hprogram, hroute, o, hlive'⟩ := runs_walkProgram hlive program
      have hcheck : (s.checkOut (.user index) index).runCheck (.user index) (Session.walk depth)
          (walkProgram program) = .ok (out, t) := hprogram
      rw [hwalk, hcheck] at hrun
      cases hrun
      obtain ⟨own, hown, -⟩ := hlive'.own
      refine .around ⟨env, henv, hwaits⟩ hslot (Route.records hlive ih hroute)
        ⟨own, by simpa [State.own?] using hown, fun hfatal =>
          ⟨{ env := .user index, walk := Session.walk depth },
            { session := s.checkOut (.user index) index }, ?_, hown⟩⟩
      have hself := s.registry.get?_modify_self (.user index) fun env =>
        { env with state := .walking }
      rw [henv] at hself
      exact ⟨rfl, ⟨depth, rfl⟩, hlive, ⟨env, hnew, hself⟩, rfl, rfl, rfl, hprogram, hfatal⟩

/-- The walks of the environments at the given positions. -/
theorem records_walkAll {indices : List Nat} {s s' : Session} (hs : s.WaitsNew)
    (hrun : s.walkAll indices = .ok s') : Records True none s s' := by
  induction indices generalizing s with
  | nil =>
    cases hrun
    exact .of_same rfl rfl rfl nofun (fun _ => .rfl) (fun _ _ => rfl) (.of_envs_eq rfl)
  | cons i rest ih =>
    obtain ⟨result, t, hwalk, hkeeps⟩ := framing_walk s.registry.envs.length (.user i) s hs
    rw [walkAll, walkEnvironment, hwalk] at hrun
    cases result with
    | some error => cases hrun
    | none =>
      exact (records_walk _ (.user i) s none t hs hwalk).trans (ih (hkeeps.waitsNew hs) hrun)
        fun _ => rfl

end Session

open Session

theorem config_ofFiles (config : Config) (files : List (String × Program)) :
    (ofFiles config files).config = config := by
  induction files using List.reverseRecOn with
  | nil => rfl
  | append_singleton files file ih =>
    rw [show file = (file.1, file.2) from rfl, ofFiles_append]
    exact ih

/-- What the session of the files of a build has at each position. -/
theorem waitsAt_ofFiles (config : Config) (files : List (String × Program)) (i : Nat) :
    (ofFiles config files).WaitsAt i ↔ i < files.length := by
  have hloaded := loaded_ofFiles config files
  rw [← hloaded.length]
  constructor
  · rintro ⟨env, hget, -⟩
    rw [Registry.get?_user] at hget
    exact (List.getElem?_eq_some_iff.1 hget).1
  · intro hi
    have hget := List.getElem?_eq_getElem hi
    exact ⟨_, (Registry.get?_user _ _).trans hget, by rw [(hloaded.envs i _ hget).1]⟩

/-- A build without an error has an environment, a program and alerts for every file, and behind
them is the one walk that left them. What its environments had declared then, they still have. -/
theorem finished_lasting_of_analyze {config : Config} {files : List (String × Program)}
    {out : BuildOutput} (h : analyze config files = .ok out) :
    out.registry.envs.length = files.length ∧ out.programs.length = files.length ∧
      out.alerts.length = files.length ∧ (ofFiles config files).registry.Lasts out.registry ∧
      ∀ (i : Nat) path p, files[i]? = some (path, p) →
        ∃ walked c s t env, FinishedWalk config (.user i) p walked c s t ∧ t.own? c = some env ∧
          out.registry.envs[i]? = some { env with state := .walked } ∧
          out.programs[i]? = some walked ∧
          out.alerts[i]? =
            some (((ofFiles config (files.take i)).header path p).2.2.append t.alerts) ∧
          t.session.registry.Lasts out.registry := by
  have hloaded := loaded_ofFiles config files
  have hbuild : analyze config files = (ofFiles config files).build := rfl
  rw [hbuild, build] at h
  cases hwalk : (ofFiles config files).walkAll
      (List.range (ofFiles config files).registry.envs.length) with
  | error e =>
    rw [hwalk] at h
    cases h
  | ok s' =>
    rw [hwalk] at h
    change (collect s'.programs s'.registry.envs >>= _) = _ at h
    cases hcollect : collect s'.programs s'.registry.envs with
    | error e =>
      rw [hcollect] at h
      cases h
    | ok programs =>
      rw [hcollect] at h
      cases h
      have hrecords := records_walkAll hloaded.waitsNew hwalk
      obtain ⟨hprogress, hdone⟩ := progress_walkAll hloaded.waitsNew hwalk
      have hfiles (i : Nat) path p (hfile : files[i]? = some (path, p)) :
          (ofFiles config files).Left s' i p := by
        have hi := (List.getElem?_eq_some_iff.1 hfile).1
        exact hrecords.left trivial i p ((waitsAt_ofFiles config files i).2 hi)
          (by simp [hloaded.programs, hfile]) (hdone i (List.mem_range.2 (hloaded.length ▸ hi)))
      have hbeyond (i : Nat) (hi : ¬i < files.length) :
          s'.registry.envs[i]? = none ∧ s'.alerts[i]? = none := by
        have hnot : ¬(ofFiles config files).WaitsAt i := fun hw =>
          hi ((waitsAt_ofFiles config files i).1 hw)
        rw [hrecords.started i hnot (Option.some_ne_none _), (hrecords.slots i hnot).2,
          alerts_ofFiles]
        have hnone := Nat.le_of_not_lt hi
        simp [hloaded.length, hnone]
      have hin (i : Nat) :
          s'.registry.envs[i]?.isSome = files[i]?.isSome ∧
            s'.alerts[i]?.isSome = files[i]?.isSome := by
        by_cases hi : i < files.length
        · obtain ⟨_, _, _, _, _, -, -, hunit, -⟩ := hfiles i _ _ (List.getElem?_eq_getElem hi)
          simp only [unit, Prod.mk.injEq] at hunit
          simp [hunit, hi, alerts_ofFiles]
        · simp [hbeyond i hi, Nat.le_of_not_lt hi]
      have henvs := Machine.length_eq_of_isSome fun i => (hin i).1
      have hprograms := collect_eq_ok hcollect
        (hprogress.length.trans (by simp [hloaded.programs, henvs]))
      have hlength : programs.length = files.length := by
        simpa [hprograms, hloaded.programs] using hprogress.length
      refine ⟨henvs, hlength, Machine.length_eq_of_isSome fun i => (hin i).2, hrecords.lasting,
        fun i path p hfile => ?_⟩
      obtain ⟨walked, c, s, t, env, hfinished, hown, hunit, hlasts⟩ := hfiles i path p hfile
      simp only [unit, Prod.mk.injEq, hprograms] at hunit
      refine ⟨walked, c, s, t, env, ?_, hown, hunit.1, by simpa using hunit.2.1, ?_, hlasts⟩
      · rwa [hrecords.config, config_ofFiles] at hfinished
      · simpa [alerts_ofFiles, hfile] using hunit.2.2

/-- A build without an error has an environment, a program and alerts for every file, and behind
them is the one walk that left them. -/
theorem finished_of_analyze {config : Config} {files : List (String × Program)} {out : BuildOutput}
    (h : analyze config files = .ok out) :
    out.registry.envs.length = files.length ∧ out.programs.length = files.length ∧
      out.alerts.length = files.length ∧
      ∀ (i : Nat) path p, files[i]? = some (path, p) →
        ∃ walked c s t env, FinishedWalk config (.user i) p walked c s t ∧ t.own? c = some env ∧
          out.registry.envs[i]? = some { env with state := .walked } ∧
          out.programs[i]? = some walked ∧
          out.alerts[i]? =
            some (((ofFiles config (files.take i)).header path p).2.2.append t.alerts) := by
  obtain ⟨henvs, hprograms, halerts, -, hfiles⟩ := finished_lasting_of_analyze h
  refine ⟨henvs, hprograms, halerts, fun i path p hfile => ?_⟩
  obtain ⟨walked, c, s, t, env, hfinished, hown, henv, hprogram, hreported, -⟩ := hfiles i path p hfile
  exact ⟨walked, c, s, t, env, hfinished, hown, henv, hprogram, hreported⟩

end HybroidSema
