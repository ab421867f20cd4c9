import HybroidSema.Proofs.Progress
import HybroidSema.Proofs.SoundDeclarations
import HybroidSema.Proofs.TreeSound

/-!
# Which builds come to an end

A build of programs from source text ends without an error exactly if every class and entity has
its name, that is, if no declaration of another kind claimed the name before it. Everything else
that is wrong with a program becomes an alert.

* `tidy_walkProgram` and `Session.safeFor_walk`: every walk meets the demands that are made, by
  induction on the number of environments that wait.
* `good_checkOut` and `Session.safe_walk`: in particular no walk of fitting programs ends the build.
* `Session.Loaded`: the session of a build before anything is walked.
* `analyze_of_owned` and `owned_of_analyze`: the two directions.
-/

namespace HybroidSema

namespace Check

variable {k : Demands} {c : Context} {s s' : State} {r : Registry}

/-! ## One program -/

/-- In an environment that declares what a program claims, the program's classes and entities are
registered. -/
theorem registered_of_declares {env : Environment} {p : Program} (henv : r.get? c.env = some env)
    (hp : env.Declares p) (howns : p.ownsContainers = true) : ∀ st ∈ p, Registered c r st := by
  intro st hst
  have hst' := List.all_eq_true.1 howns st hst
  cases st with
  | classDecl decl =>
    have hclass : env.hasType .classDecl decl.name.name = true :=
      (hp _ _).2 (by simpa [Program.ownsContainer, Stmt.typeName?] using hst')
    obtain ⟨info, hinfo⟩ := Option.isSome_iff_exists.1 hclass
    exact Registry.hasClass_of_get? henv hinfo
  | entityDecl decl =>
    have hentity : env.hasType .entityDecl decl.name.name = true :=
      (hp _ _).2 (by simpa [Program.ownsContainer, Stmt.typeName?] using hst')
    obtain ⟨info, hinfo⟩ := Option.isSome_iff_exists.1 hentity
    exact Registry.hasEntity_of_get? henv hinfo
  | _ => trivial

/-- The statements of a program, with its classes and entities registered. -/
theorem sound_program {p : Program} (hp : k.fits → Stmt.allSource p = true)
    (hreg : k.fits → ∀ st ∈ p, Registered c r st) :
    Sound k c r [] (Check.program p) fun _ _ => True := by
  unfold Check.program
  split
  · next decl rest =>
    have hrest : k.fits → Stmt.allSource rest = true := hp
    exact (sound_body rest hrest r [] (fun hk _ st hst => hreg hk st (by simp [hst])) fun _ => rfl).bind
      fun _ _ _ _ => .pure fun _ _ => trivial
  · exact sound_body p hp r [] (fun hk _ => hreg hk) fun _ => rfl

/-- The walk of a program in a new environment meets the demands. -/
theorem tidy_walkProgram {env : Environment} {p out : Program} (hs : Tidy k c [] s)
    (hl : Live c s {}) (hown : s.own? c = some env) (hnew : env.Declares []) (hp : k.fits → p.Fits)
    (hrun : Session.walkProgram p c s = .ok (out, s')) :
    Tidy k c [] s' ∧ s.session.registry.Extends s'.session.registry := by
  obtain ⟨counts, t, hdeclare, hcheck⟩ := bind_eq_ok hrun
  obtain ⟨t₁, t₂, types, himport, hclaim, hfill⟩ := declare_eq_ok hdeclare
  obtain ⟨⟨env₁, hown₁, hp₁⟩, -⟩ := declares_declare hl hown hnew himport hclaim hfill
  obtain ⟨hs₁, h₁, -⟩ := (Declare.sound_importAll p).apply hs (.refl _) himport
  obtain ⟨hs₂, h₂, -⟩ := (Declare.sound_countEach (fun st _ => Declare.sound_claimType st) p).apply
    hs₁ (.refl _) hclaim
  obtain ⟨hs₃, h₃, -⟩ := (Declare.sound_fillIn p types).apply hs₂ (.refl _) hfill
  have hreg (hk : k.fits) := registered_of_declares hown₁ hp₁ (hp hk).owns
  obtain ⟨hs₄, h₄, -⟩ := (sound_program (fun hk => (hp hk).source)
    (fun hk st hst => (hreg hk st hst).mono h₃)).apply hs₃ (.refl _) hcheck
  exact ⟨hs₄, ((h₁.trans h₂).trans h₃).trans h₄⟩

end Check

/-! ## Walks -/

namespace Session

open Check

/-- The number of waiting environments if there are no new ones. -/
theorem countP_waits_le {l l' : List Environment}
    (h : ∀ (i : Nat) (env : Environment), l'[i]? = some env → env.state = .notWalked →
      l[i]? = some env) :
    l'.countP Environment.waits ≤ l.countP Environment.waits := by
  induction l' generalizing l with
  | nil => simp
  | cons first rest ih =>
    cases l with
    | nil =>
      have hfirst : first.waits = false := by
        rw [Bool.eq_false_iff]
        intro hw
        cases h 0 first rfl (Environment.waits_iff.1 hw)
      have hrest := ih (l := []) fun i env he hs => nomatch h (i + 1) env he hs
      simpa [List.countP_cons, hfirst] using hrest
    | cons first' rest' =>
      have hrest := ih (l := rest') fun i env he hs => h (i + 1) env he hs
      have hfirst : first.waits = true → first'.waits = true := by
        intro hw
        have heq := h 0 first rfl (Environment.waits_iff.1 hw)
        simp only [List.getElem?_cons_zero, Option.some.injEq] at heq
        rw [heq, hw]
      simp only [List.countP_cons]
      cases hw : first.waits with
      | false =>
        simp only [Bool.false_eq_true, if_false]
        omega
      | true => simp [hfirst hw, hrest]

/-- The number of waiting environments after one of them is started. -/
theorem countP_waits_start {l : List Environment} {i : Nat} {env : Environment}
    {f : Environment → Environment} (he : l[i]? = some env) (hw : env.waits = true)
    (hf : (f env).waits = false) :
    (l.modify i f).countP Environment.waits + 1 = l.countP Environment.waits := by
  induction l generalizing i with
  | nil => simp at he
  | cons first rest ih =>
    cases i with
    | zero =>
      obtain rfl : first = env := by simpa using he
      simp [hw, hf]
    | succ i =>
      have hrest := ih (i := i) (by simpa using he)
      simp only [List.modify_succ_cons, List.countP_cons]
      omega

variable {k : Demands} {s : Session} {n index : Nat} {env : Environment}

/-- A change of the state of an environment. -/
theorem fine_setState {plain : Prop} {r : Registry} (h : r.Fine plain) (id : EnvId)
    (state : WalkState) : (r.modify id fun env => { env with state := state }).Fine plain ∧
      r.Extends (r.modify id fun env => { env with state := state }) := by
  have hext : r.Extends (r.modify id fun env => { env with state := state }) :=
    Registry.extends_modify fun env _ => .of_eq rfl rfl rfl rfl
  refine ⟨h.modify fun env he => ⟨.of_eq rfl rfl rfl rfl, ?_⟩, hext⟩
  have hv := (h.envs id env he).mono hext
  exact ⟨hv.scopes, hv.classes, hv.entities, hv.enums, hv.aliases, hv.imports⟩

/-- After an environment is started there is one less that waits. -/
theorem ReadyFor.checkOut (h : s.ReadyFor { k with waiting := n + 1 })
    (henv : s.registry.get? (.user index) = some env) (hwaits : env.state = .notWalked) :
    (s.checkOut (.user index) index).ReadyFor { k with waiting := n } := by
  obtain ⟨hfine, -⟩ := fine_setState h.fine (.user index) .walking
  have hget : s.registry.envs[index]? = some env := by simpa using henv
  have hmodify : s.registry.modify (.user index) (fun env => { env with state := .walking }) =
      { s.registry with
        envs := s.registry.envs.modify index fun env => { env with state := .walking } } := by
    simp only [Registry.modify, EnvId.userIndex?_user]
  refine ⟨hfine, fun id other he hw => ?_, ?_, ?_, fun j other he hw => ?_, h.proper⟩
  · by_cases hid : id = .user index
    · subst hid
      rw [Session.checkOut, Registry.get?_modify_self] at he
      obtain ⟨own, -, rfl⟩ := Option.map_eq_some_iff.1 he
      cases hw
    · rw [Session.checkOut, Registry.get?_modify_ne _ _ hid] at he
      exact h.waitsNew id other he hw
  · have hcount := countP_waits_start (f := fun env => { env with state := .walking }) hget
      (Environment.waits_iff.2 hwaits) rfl
    have hfew : s.registry.envs.countP Environment.waits ≤ n + 1 := h.few
    simp only [Session.checkOut, hmodify]
    omega
  · exact h.slots.of_length_eq List.length_set rfl (Registry.length_envs_modify ..)
  · simp only [Session.checkOut, hmodify, List.getElem?_modify] at he
    obtain ⟨old, hold, heq⟩ := Option.map_eq_some_iff.1 he
    split at heq
    · subst heq
      cases hw
    · next hne =>
      obtain rfl : old = other := heq
      obtain ⟨program, hslot, hfits⟩ := h.programs j old hold hw
      exact ⟨program, (List.getElem?_set_ne hne).trans hslot, hfits⟩

/-- At the start of a walk. -/
theorem tidy_checkOut
    {walk : EnvId → Session → Except CompileError (Option CompileError × Session)}
    (h : s.ReadyFor { k with waiting := n + 1 }) (hwalk : SafeFor { k with waiting := n } walk)
    (henv : s.registry.get? (.user index) = some env) (hwaits : env.state = .notWalked) :
    Tidy { k with waiting := n } ⟨.user index, walk⟩ []
      { session := s.checkOut (.user index) index } := by
  have hself := s.registry.get?_modify_self (.user index) fun env => { env with state := .walking }
  rw [henv] at hself
  refine ⟨⟨_, hself, nofun, ?_⟩, nofun, fun _ => rfl, h.checkOut henv hwaits, hwalk, fun _ => nofun⟩
  have hnew := h.waitsNew _ env henv hwaits
  rw [hnew]
  rfl

theorem good_checkOut
    {walk : EnvId → Session → Except CompileError (Option CompileError × Session)}
    (h : s.Ready (n + 1)) (hwalk : Safe n walk)
    (henv : s.registry.get? (.user index) = some env) (hwaits : env.state = .notWalked) :
    Good ⟨.user index, walk⟩ 0 { session := s.checkOut (.user index) index } :=
  (tidy_checkOut (k := .completion 0) h.readyFor hwalk.safeFor henv hwaits).good

/-- After the end of a walk, a session is as ready as before it. -/
theorem ReadyFor.checkIn {m : Nat} {t : Session} (h : s.ReadyFor k)
    (ht : t.ReadyFor { k with waiting := m }) (out : Program) {alerts : Diagnostics}
    (halerts : k.proper → alerts.Proper)
    (hkeeps : s.Keeps (t.checkIn (.user index) index out alerts)) :
    (t.checkIn (.user index) index out alerts).ReadyFor k := by
  obtain ⟨hfine, -⟩ := fine_setState ht.fine (.user index) .walked
  refine ⟨hfine, hkeeps.waitsNew h.waitsNew, ?_, ?_, fun j other he hw => ?_, fun hk d hd => ?_⟩
  · refine Nat.le_trans (countP_waits_le fun j other he hw => ?_) h.few
    simpa using hkeeps.waiting (.user j) other (by simpa using he) hw
  · exact ht.slots.of_length_eq List.length_set (List.length_modify ..)
      (Registry.length_envs_modify ..)
  · have he' : (t.checkIn (.user index) index out alerts).registry.get? (.user j) = some other := by
      simpa using he
    have hne : j ≠ index := by
      rintro rfl
      rw [Session.checkIn, Registry.get?_modify_self] at he'
      obtain ⟨own, -, rfl⟩ := Option.map_eq_some_iff.1 he'
      cases hw
    have hid : EnvId.user j ≠ .user index := fun heq => hne (by simpa [EnvId.user] using heq)
    rw [Session.checkIn, Registry.get?_modify_ne _ _ hid] at he'
    obtain ⟨program, hslot, hfits⟩ := ht.programs j other (by simpa using he') hw
    exact ⟨program, (List.getElem?_set_ne (Ne.symm hne)).trans hslot, hfits⟩
  · obtain ⟨i, hi⟩ := List.mem_iff_getElem?.1 hd
    simp only [Session.checkIn, List.getElem?_modify] at hi
    obtain ⟨old, hold, rfl⟩ := Option.map_eq_some_iff.1 hi
    have hproper := ht.proper hk old (List.mem_of_getElem? hold)
    split
    · intro a ha
      rcases List.mem_append.1 ha with ha | ha
      · exact hproper a ha
      · exact halerts hk a ha
    · exact hproper

/-- Walks that may nest as deep as there are environments that wait meet the demands. -/
theorem safeFor_walk (k : Demands) (n : Nat) : SafeFor { k with waiting := n } (Session.walk n) := by
  induction n with
  | zero =>
    intro id s result s' hready hsome hrun
    obtain ⟨env, henv⟩ := Option.isSome_iff_exists.1 hsome
    obtain ⟨index, hindex, hget⟩ := Option.bind_eq_some_iff.1 henv
    -- No environment waits, so nothing is walked.
    have hstarted : env.state ≠ .notWalked := by
      intro hw
      have hnone := List.countP_eq_zero.1 (Nat.le_zero.1 hready.few) env
        (List.mem_of_getElem? hget)
      exact hnone (Environment.waits_iff.2 hw)
    unfold walk at hrun
    simp only [hindex, henv, bne_iff_ne, ne_eq, hstarted, not_false_eq_true, if_true] at hrun
    cases hrun
    exact ⟨fun _ => rfl, hready, .refl _, .refl _⟩
  | succ n ih =>
    intro id s result s' hready hsome hrun
    obtain ⟨env, henv⟩ := Option.isSome_iff_exists.1 hsome
    obtain ⟨index, hindex, hget⟩ := Option.bind_eq_some_iff.1 henv
    obtain rfl := EnvId.userIndex?_eq_some_iff.1 hindex
    obtain ⟨_, _, hwalk', hkeeps⟩ := framing_walk (n + 1) (.user index) s hready.waitsNew
    rw [hrun] at hwalk'
    cases hwalk'
    by_cases hwaits : env.state = .notWalked
    · obtain ⟨program, hslot, hfits⟩ := hready.programs index env hget hwaits
      have hnew := hready.waitsNew _ env henv hwaits
      have htidy := tidy_checkOut hready ih henv hwaits
      have hlive := live_checkOut (framing_walk n) hready.waitsNew henv hnew index
      obtain ⟨out, t, hprogram, -⟩ := runs_walkProgram hlive program
      have hcheck : (s.checkOut (.user index) index).runCheck (.user index) (Session.walk n)
          (walkProgram program) = .ok (out, t) := hprogram
      have hself := s.registry.get?_modify_self (.user index) fun env =>
        { env with state := .walking }
      rw [henv] at hself
      obtain ⟨ht, hext⟩ := tidy_walkProgram htidy hlive hself hnew.declares_nil hfits hprogram
      unfold walk at hrun
      simp only [hindex, henv, hwaits, bne_self_eq_false, Bool.false_eq_true, if_false, hslot,
        hcheck] at hrun
      cases hrun
      exact ⟨ht.fatal, hready.checkIn ht.ready out ht.proper hkeeps,
        ((fine_setState hready.fine _ _).2.trans hext).trans (fine_setState ht.fine _ _).2, hkeeps⟩
    · unfold walk at hrun
      simp only [hindex, henv, bne_iff_ne, ne_eq, hwaits, not_false_eq_true, if_true] at hrun
      cases hrun
      exact ⟨fun _ => rfl, hready, .refl _, .refl _⟩

/-- Walks that may nest as deep as there are environments that wait do not end the build. -/
theorem safe_walk (n : Nat) : Safe n (Session.walk n) := (safeFor_walk (.completion 0) n).safe

/-! ## A session before the walks -/

/-- The session of programs of which none was walked. -/
structure Loaded (s : Session) (files : List (String × Program)) : Prop where
  programs : s.programs = files.map (some ·.2)
  alerts : s.alerts.length = files.length
  length : s.registry.envs.length = files.length
  envs : ∀ (i : Nat) (env : Environment), s.registry.envs[i]? = some env →
    env.IsNew ∧ env.id = .user i

theorem Loaded.addProgram {files : List (String × Program)} (h : s.Loaded files) (path : String)
    (program : Program) : (s.addProgram path program).2.Loaded (files ++ [(path, program)]) := by
  refine ⟨by simp [Session.addProgram, h.programs], by simp [Session.addProgram, h.alerts],
    by simp [Session.addProgram, Registry.register, h.length], fun i env he => ?_⟩
  simp only [Session.addProgram, Registry.register] at he
  by_cases hi : i < s.registry.envs.length
  · rw [List.getElem?_append_left hi] at he
    exact h.envs i env he
  · rw [List.getElem?_append_right (Nat.le_of_not_lt hi)] at he
    obtain ⟨heq, hempty⟩ : i - s.registry.envs.length = 0 ∧ env = _ := by
      simpa [List.getElem?_singleton, eq_comm] using he
    obtain rfl : i = s.registry.envs.length := by omega
    subst hempty
    exact ⟨rfl, rfl⟩

theorem loaded_foldl (files : List (String × Program)) {before : List (String × Program)}
    (h : s.Loaded before) :
    (files.foldl (fun s (path, program) => (s.addProgram path program).2) s).Loaded
      (before ++ files) := by
  induction files generalizing s before with
  | nil => simpa using h
  | cons file rest ih =>
    obtain ⟨path, program⟩ := file
    have hrest := ih (h.addProgram path program)
    rwa [List.append_assoc] at hrest

/-- The session that a build starts from. -/
theorem loaded_files (config : Config) (files : List (String × Program)) :
    (files.foldl (fun s (path, program) => (s.addProgram path program).2)
      (Session.new config)).Loaded files := by
  have hnew : (Session.new config).Loaded [] := ⟨rfl, rfl, rfl, fun _ _ he => nomatch he⟩
  exact loaded_foldl files hnew

theorem Loaded.waitsNew {files : List (String × Program)} (h : s.Loaded files) : s.WaitsNew := by
  intro id env he _
  obtain ⟨i, -, hget⟩ := Option.bind_eq_some_iff.1 he
  exact (h.envs i env hget).1

/-- A new environment stores nothing. -/
theorem fine_of_isNew {plain : Prop} {r : Registry} (h : env.IsNew) : env.Fine plain r := by
  rw [h]
  refine ⟨⟨fun scope hscope => ?_, fun _ => rfl⟩, Table.forall_empty, Table.forall_empty,
    Table.forall_empty, Table.forall_empty, nofun⟩
  obtain rfl : scope = {} := by simpa [ScopeStack.chain] using hscope
  exact ⟨trivial, Table.forall_empty, fun _ _ => Table.forall_empty⟩

theorem Loaded.readyFor {files : List (String × Program)} (h : s.Loaded files)
    (hfits : k.fits → ∀ file ∈ files, Program.Fits file.2)
    (hproper : k.proper → ∀ alerts ∈ s.alerts, alerts.Proper) :
    s.ReadyFor { k with waiting := s.registry.envs.length } := by
  refine ⟨⟨fun id env he => ?_, fun id env he => ?_⟩, h.waitsNew, List.countP_le_length,
    ⟨by rw [h.programs, List.length_map, h.length], by rw [h.alerts, h.length]⟩,
    fun i env he _ => ?_, hproper⟩
  · obtain ⟨i, hi, hget⟩ := Option.bind_eq_some_iff.1 he
    rw [(h.envs i env hget).2, EnvId.userIndex?_eq_some_iff.1 hi]
  · obtain ⟨i, -, hget⟩ := Option.bind_eq_some_iff.1 he
    exact fine_of_isNew (h.envs i env hget).1
  · obtain ⟨hi, -⟩ := List.getElem?_eq_some_iff.1 he
    rw [h.length] at hi
    refine ⟨files[i].2, ?_, fun hk => hfits hk _ (List.getElem_mem hi)⟩
    rw [h.programs, List.getElem?_map, List.getElem?_eq_getElem hi]
    rfl

theorem Loaded.ready {files : List (String × Program)} (h : s.Loaded files)
    (hfits : ∀ file ∈ files, Program.Fits file.2) : s.Ready s.registry.envs.length :=
  (h.readyFor (k := .completion 0) (fun _ => hfits) nofun).ready

/-! ## Builds -/

theorem Ready.all {m : Nat} (h : s.Ready m) : s.Ready s.registry.envs.length :=
  ⟨h.valid, h.waitsNew, List.countP_le_length, h.slots, h.programs⟩

/-- The walks of a ready session end without an error. -/
theorem walkAll_of_ready {indices : List Nat} {m : Nat} (hready : s.Ready m)
    (hindices : ∀ i ∈ indices, (s.registry.get? (.user i)).isSome) :
    ∃ s', s.walkAll indices = .ok s' := by
  induction indices generalizing s m with
  | nil => exact ⟨s, rfl⟩
  | cons i rest ih =>
    obtain ⟨result, t, hrun, _⟩ := framing_walk s.registry.envs.length (.user i) s hready.waitsNew
    obtain ⟨rfl, hready', hext, _⟩ := safe_walk _ (.user i) s result t hready.all
      (hindices i (by simp)) hrun
    obtain ⟨s', hs'⟩ := ih hready' fun j hj => hext.envs _ (hindices j (by simp [hj]))
    refine ⟨s', ?_⟩
    rw [walkAll, walkEnvironment, hrun]
    exact hs'

/-- A walk without an error leaves its environment walked. -/
theorem not_waitsAt_of_walk {depth i : Nat} {s' : Session}
    (hrun : s.walk depth (.user i) = .ok (none, s')) : ¬s'.WaitsAt i := by
  rintro ⟨env, he, hw⟩
  unfold walk at hrun
  rw [EnvId.userIndex?_user] at hrun
  cases hget : s.registry.get? (.user i) with
  | none =>
    rw [hget] at hrun
    cases hrun
  | some own =>
    rw [hget] at hrun
    dsimp only at hrun
    split at hrun
    · next hstarted =>
      cases hrun
      obtain rfl := Option.some.inj (hget.symm.trans he)
      simp [hw] at hstarted
    · split at hrun
      · next program depth' _ =>
        cases hcheck : (s.checkOut (.user i) i).runCheck (.user i) (walk depth')
            (walkProgram program) with
        | error e =>
          rw [hcheck] at hrun
          cases hrun
        | ok p =>
          rw [hcheck] at hrun
          obtain rfl := congrArg Prod.snd (Except.ok.inj hrun)
          rw [checkIn, Registry.get?_modify_self] at he
          obtain ⟨walked, -, rfl⟩ := Option.map_eq_some_iff.1 he
          cases hw
      · cases hrun

/-- Walks without an error have walked every environment that they were told to walk. -/
theorem progress_walkAll {indices : List Nat} {s' : Session} (hs : s.WaitsNew)
    (hrun : s.walkAll indices = .ok s') :
    Progress True s s' ∧ ∀ i ∈ indices, ¬s'.WaitsAt i := by
  induction indices generalizing s with
  | nil =>
    cases hrun
    exact ⟨.of_same rfl fun _ => .rfl, by simp⟩
  | cons i rest ih =>
    obtain ⟨result, t, hwalk, hkeeps⟩ := framing_walk s.registry.envs.length (.user i) s hs
    rw [walkAll, walkEnvironment, hwalk] at hrun
    cases result with
    | some error => cases hrun
    | none =>
      obtain ⟨hprogress, hdone⟩ := ih (hkeeps.waitsNew hs) hrun
      refine ⟨(progress_walk _ (.user i) s none t hs hwalk).trans hprogress fun _ => rfl,
        fun j hj => ?_⟩
      rcases List.mem_cons.1 hj with rfl | hj
      · exact fun hw => not_waitsAt_of_walk hwalk (hprogress.still _ hw)
      · exact hdone j hj

/-- All programs are in their slots. -/
theorem collect_of_filled {slots : List (Option Program)} (h : ∀ slot ∈ slots, slot.isSome)
    (envs : List Environment) : ∃ programs, collect slots envs = .ok programs := by
  induction slots generalizing envs with
  | nil => exact ⟨[], rfl⟩
  | cons slot rest ih =>
    obtain ⟨program, rfl⟩ := Option.isSome_iff_exists.1 (h slot (by simp))
    cases envs with
    | nil => exact ⟨[], rfl⟩
    | cons env envs =>
      obtain ⟨programs, hrest⟩ := ih (fun slot hs => h slot (by simp [hs])) envs
      exact ⟨program :: programs, by rw [collect, hrest]; rfl⟩

end Session

open Session

/-- If every class and entity has its name, the build ends without an error. -/
theorem analyze_of_owned (config : Config) {files : List (String × Program)}
    (hfits : ∀ file ∈ files, Program.Fits file.2) : ∃ out, analyze config files = .ok out := by
  have hloaded := loaded_files config files
  rw [analyze]
  generalize files.foldl (fun s (path, program) => (s.addProgram path program).2)
    (Session.new config) = s at hloaded
  have hindices : ∀ i ∈ List.range s.registry.envs.length,
      (s.registry.get? (.user i)).isSome := by
    intro i hi
    simpa using List.mem_range.1 hi
  obtain ⟨s', hwalk⟩ := walkAll_of_ready (hloaded.ready hfits) hindices
  obtain ⟨hprogress, -⟩ := progress_walkAll hloaded.waitsNew hwalk
  have hfilled : ∀ slot ∈ s'.programs, slot.isSome := by
    intro slot hslot
    obtain ⟨i, hi, rfl⟩ := List.getElem_of_mem hslot
    have hfile : s.Filled i := by
      rw [hprogress.length, hloaded.programs, List.length_map] at hi
      exact ⟨files[i].2, by rw [hloaded.programs]; simp [hi]⟩
    obtain ⟨p, hp⟩ := hprogress.filled i hfile
    rw [List.getElem?_eq_getElem hi] at hp
    simp [Option.some.inj hp]
  obtain ⟨programs, hcollect⟩ := collect_of_filled hfilled s'.registry.envs
  refine ⟨⟨s'.registry, programs, s'.alerts, s'.config.denyWarnings⟩, ?_⟩
  rw [build, hwalk]
  change (collect s'.programs s'.registry.envs >>= _) = _
  rw [hcollect]
  rfl

/-- If the build ends without an error, every class and entity has its name. -/
theorem owned_of_analyze {config : Config} {files : List (String × Program)} {out : BuildOutput}
    (h : analyze config files = .ok out) :
    ∀ file ∈ files, Program.ownsContainers file.2 = true := by
  have hloaded := loaded_files config files
  rw [analyze] at h
  generalize files.foldl (fun s (path, program) => (s.addProgram path program).2)
    (Session.new config) = s at hloaded h
  cases hwalk : s.walkAll (List.range s.registry.envs.length) with
  | error e =>
    rw [build, hwalk] at h
    cases h
  | ok s' =>
    obtain ⟨hprogress, hdone⟩ := progress_walkAll hloaded.waitsNew hwalk
    intro file hfile
    obtain ⟨i, hi, rfl⟩ := List.getElem_of_mem hfile
    have hin : i < s.registry.envs.length := by rwa [hloaded.length]
    have hwaits : s.WaitsAt i := by
      have hget := List.getElem?_eq_getElem hin
      refine ⟨s.registry.envs[i], by simp, ?_⟩
      rw [(hloaded.envs i _ hget).1]
    refine hprogress.owns trivial i files[i].2 hwaits ?_ (hdone i (List.mem_range.2 hin))
    rw [hloaded.programs]
    simp [hi]

/-- The build of programs from source text ends without an error exactly if no class or entity has
a name that a declaration of another kind claimed before it. -/
theorem analyze_completes_iff (config : Config) (files : List (String × Program))
    (hsource : ∀ file ∈ files, Stmt.allSource file.2 = true) :
    (∃ out, analyze config files = .ok out) ↔
      ∀ file ∈ files, Program.ownsContainers file.2 = true := by
  constructor
  · rintro ⟨out, hout⟩
    exact owned_of_analyze hout
  · intro howns
    exact analyze_of_owned config fun file hfile => ⟨hsource file hfile, howns file hfile⟩

/-- An enum with the name `Thing`. -/
def thingEnum : Stmt :=
  .enumDecl ⟨⟨"Thing", .synthetic⟩, [⟨"Red", .synthetic⟩], false, .synthetic⟩

/-- A class with the name `Thing`. -/
def thingClass : Stmt := .classDecl ⟨⟨"Thing", .synthetic⟩, false, [], [], none, .synthetic⟩

/-- A second declaration of the name of a class is only reported. -/
theorem analyze_completes_class_then_enum :
    ∃ out, analyze {} [("demo.hyb", [thingClass, thingEnum])] = .ok out :=
  (analyze_completes_iff {} [("demo.hyb", [thingClass, thingEnum])] (by decide)).2 (by decide)

/-- A class with the name of an enum before it ends the build. -/
theorem analyze_fails_enum_then_class :
    Stmt.allSource [thingEnum, thingClass] = true ∧
      ¬∃ out, analyze {} [("demo.hyb", [thingEnum, thingClass])] = .ok out := by
  refine ⟨by decide, ?_⟩
  rintro ⟨out, hout⟩
  exact absurd (owned_of_analyze hout) (by decide)

end HybroidSema
