import HybroidSema.Proofs.Reached

/-!
# Statements that are removed

With pruning, what follows a statement that never ends is removed and not walked. Without it, such
statements are walked as if they were reached. Nothing else depends on pruning.

* `Session.switched_walk` and `Session.walkAll_prunes`: walks in which nothing is found unreachable.
* `analyze_of_all_reached`: the same build with and without pruning.
* `analyze_keeps_dead_assignment`: a statement that is never reached hides an error.
-/

namespace HybroidSema

open Check

/-! ## Where every statement is reached -/

namespace Session

variable {s : Session} {n index : Nat}

/-- A walk that found nothing unreachable adds its alerts to those of walks that did not either. -/
theorem allReached_of_checkIn {t : State} {id : EnvId} {out : Program}
    (hslot : index < t.session.alerts.length)
    (h : (t.session.checkIn id index out t.alerts).AllReached) : t.AllReached := by
  have hmodified {i : Nat} {alerts : Diagnostics} (hi : t.session.alerts[i]? = some alerts) :
      (if index = i then alerts.append t.alerts else alerts).AllReached := by
    refine h _ (List.mem_iff_getElem?.2 ⟨i, ?_⟩)
    rw [checkIn, List.getElem?_modify, hi]
    rfl
  refine ⟨fun alerts hmem => ?_, ?_⟩
  · obtain ⟨i, hi⟩ := List.mem_iff_getElem?.1 hmem
    have hlater := hmodified hi
    split at hlater
    · exact fun a ha => hlater a (List.mem_append_left _ ha)
    · exact hlater
  · have hlater := hmodified (List.getElem?_eq_getElem hslot)
    rw [if_pos rfl] at hlater
    exact fun a ha => hlater a (List.mem_append_right _ ha)

/-- An environment that was started is not walked again. -/
theorem walk_eq_of_started {env : Environment} (henv : s.registry.get? (.user index) = some env)
    (hstarted : env.state ≠ .notWalked) (depth : Nat) :
    s.walk depth (.user index) = .ok (none, s) := by
  unfold walk
  simp [henv, hstarted]

/-- An environment that waits is walked with the program in its slot. -/
theorem walk_eq_of_waits {env : Environment} (henv : s.registry.get? (.user index) = some env)
    (hwaits : env.state = .notWalked) {program : Program}
    (hslot : s.programs[index]? = some (some program)) (depth : Nat) :
    s.walk (depth + 1) (.user index) = (do
      let (out, t) ← (s.checkOut (.user index) index).runCheck (.user index) (Session.walk depth)
        (walkProgram program)
      return (t.fatal, t.session.checkIn (.user index) index out t.alerts)) := by
  unfold walk
  simp [henv, hwaits, hslot]

/-- A walk in which nothing is found unreachable is the same if pruning is switched. -/
theorem switched_walk (b : Bool) (n : Nat) :
    Switched (.steadiness n) b (Session.walk n) (Session.walk n) := by
  induction n with
  | zero =>
    intro target s result s' hready hsome hrun hreached
    obtain ⟨env, henv⟩ := Option.isSome_iff_exists.1 hsome
    obtain ⟨index, hindex, hget⟩ := Option.bind_eq_some_iff.1 henv
    obtain rfl := EnvId.userIndex?_eq_some_iff.1 hindex
    -- No environment waits, so nothing is walked.
    have hstarted : env.state ≠ .notWalked := fun hw =>
      List.countP_eq_zero.1 (Nat.le_zero.1 hready.few) env (List.mem_of_getElem? hget)
        (Environment.waits_iff.2 hw)
    rw [walk_eq_of_started henv hstarted] at hrun
    cases hrun
    exact ⟨hreached, walk_eq_of_started (s := s.prunes b) henv hstarted 0⟩
  | succ n ih =>
    intro target s result s' hready hsome hrun hreached
    obtain ⟨env, henv⟩ := Option.isSome_iff_exists.1 hsome
    obtain ⟨index, hindex, hget⟩ := Option.bind_eq_some_iff.1 henv
    obtain rfl := EnvId.userIndex?_eq_some_iff.1 hindex
    by_cases hwaits : env.state = .notWalked
    · obtain ⟨program, hslot, -⟩ := hready.programs index env hget hwaits
      have hsafe := safeFor_walk (.steadiness 0) n
      have htidy := tidy_checkOut (k := .steadiness 0) hready hsafe henv hwaits
      obtain ⟨⟨-, hsteady⟩, hsound⟩ := sound_walkProgram (k := .steadiness 0)
        (c := ⟨.user index, Session.walk n⟩) (r := (s.checkOut (.user index) index).registry)
        not_false n program _ htidy (.refl _)
      rw [walk_eq_of_waits henv hwaits hslot] at hrun
      cases hcheck : (s.checkOut (.user index) index).runCheck (.user index) (Session.walk n)
          (walkProgram program) with
      | error e =>
        rw [hcheck] at hrun
        cases hrun
      | ok p =>
        obtain ⟨out, t⟩ := p
        rw [hcheck] at hrun
        cases hrun
        obtain ⟨ht, -, -⟩ := hsound out t hcheck
        obtain ⟨own, hown, -⟩ := ht.own
        have hin : index < t.session.alerts.length := by
          rw [ht.ready.slots.alerts]
          exact (List.getElem?_eq_some_iff.1 ((Registry.get?_user ..).symm.trans hown)).1
        obtain ⟨hbefore, hswitched⟩ :=
          (hsteady out t hcheck).2 trivial (allReached_of_checkIn hin hreached) b _ ih
        refine ⟨hbefore, ?_⟩
        rw [walk_eq_of_waits (s := s.prunes b) henv hwaits hslot]
        have hcheck' : ((s.prunes b).checkOut (.user index) index).runCheck (.user index)
            (Session.walk n) (walkProgram program) = .ok (out, t.prunes b) := hswitched
        rw [hcheck']
        rfl
    · rw [walk_eq_of_started henv hwaits] at hrun
      cases hrun
      exact ⟨hreached, walk_eq_of_started (s := s.prunes b) henv hwaits _⟩

/-- The same for walks one after the other. -/
theorem walkAll_prunes (b : Bool) {indices : List Nat} {s' : Session}
    (h : s.ReadyFor (.steadiness n)) (hindices : ∀ i ∈ indices, i < s.registry.envs.length)
    (hrun : s.walkAll indices = .ok s') (hreached : s'.AllReached) :
    s.AllReached ∧ (s.prunes b).walkAll indices = .ok (s'.prunes b) := by
  induction indices generalizing s n with
  | nil =>
    cases hrun
    exact ⟨hreached, rfl⟩
  | cons i rest ih =>
    have hsome : (s.registry.get? (.user i)).isSome := by
      rw [Registry.get?_user, List.getElem?_eq_getElem (hindices i (by simp))]
      rfl
    obtain ⟨result, t, hwalk, -⟩ := framing_walk s.registry.envs.length (.user i) s h.waitsNew
    rw [walkAll, walkEnvironment, hwalk] at hrun
    cases result with
    | some error => cases hrun
    | none =>
      obtain ⟨-, hready, hext, -⟩ := safeFor_walk (.steadiness 0) _ (.user i) s none t h.all hsome hwalk
      have hrest : ∀ j ∈ rest, j < t.registry.envs.length := fun j hj => by
        have hj := hext.envs (.user j) (by simpa using hindices j (by simp [hj]))
        simpa using hj
      obtain ⟨ht, hrun'⟩ := ih hready hrest hrun
      obtain ⟨hs, hwalk'⟩ := switched_walk b _ (.user i) s none t h.all hsome hwalk ht
      refine ⟨hs, ?_⟩
      rw [walkAll, walkEnvironment]
      change (walk s.registry.envs.length (.user i) (s.prunes b) >>= _) = _
      rw [hwalk']
      exact hrun'

/-- The settings of pruning have no part in the session before the walks. -/
theorem ofFiles_prunes (config : Config) (files : List (String × Program)) (b : Bool) :
    ofFiles { config with prune := b } files = (ofFiles config files).prunes b := by
  have hfold (files : List (String × Program)) (s : Session) :
      files.foldl (fun s file => (s.addProgram file.1 file.2).2) (s.prunes b) =
        (files.foldl (fun s file => (s.addProgram file.1 file.2).2) s).prunes b := by
    induction files generalizing s with
    | nil => rfl
    | cons file rest ih => exact ih (s.addProgram file.1 file.2).2
  exact hfold files (Session.new config)

end Session

/-- A build in which no statement is found unreachable comes to the same with and without pruning. -/
theorem analyze_of_all_reached {config : Config} {files : List (String × Program)}
    {out : BuildOutput} (h : analyze config files = .ok out)
    (hreached : ∀ alerts ∈ out.alerts, alerts.AllReached) (b : Bool) :
    analyze { config with prune := b } files = .ok out := by
  have hready : (Session.ofFiles config files).ReadyFor
      (.steadiness (Session.ofFiles config files).registry.envs.length) :=
    Session.readyFor_ofFiles (k := .steadiness 0) not_false
  obtain ⟨t, programs, hwalk, hcollect, rfl⟩ :=
    Session.build_eq_ok_iff.1 (show (Session.ofFiles config files).build = .ok out from h)
  obtain ⟨-, hwalk'⟩ :=
    Session.walkAll_prunes b hready (fun i hi => List.mem_range.1 hi) hwalk hreached
  change (Session.ofFiles { config with prune := b } files).build = _
  rw [Session.ofFiles_prunes]
  exact Session.build_eq_ok_iff.2 ⟨t.prunes b, programs, hwalk', hcollect, rfl⟩

/-! ## A field that is never initialized -/

/-- A class with a field `f` of a number, and a constructor that sets it after a `return`. -/
def initializeAfterReturn : Program :=
  let f : Ident := ⟨"f", .synthetic⟩
  [.level "Main",
    .classDecl ⟨⟨"C", .synthetic⟩, false,
      [⟨[f], some ⟨none, ⟨"number", .synthetic⟩, [], [], [], false, .synthetic⟩, [], false, false,
        .synthetic⟩], [],
      some ⟨[], [], [.returning [] .synthetic,
        .assign [.field (.self none .synthetic) f none .synthetic] .plain
          [.literal ⟨.number, "1", .synthetic⟩] .synthetic], .synthetic⟩, .synthetic⟩]

/-- An assignment that is never reached initializes a field, unless it is removed: the same program
is refused if the session prunes and accepted if it does not. -/
theorem analyze_keeps_dead_assignment :
    ∃ pruned kept, analyze { prune := true } [("main.hyb", initializeAfterReturn)] = .ok pruned ∧
      analyze { prune := false } [("main.hyb", initializeAfterReturn)] = .ok kept ∧
      pruned.isSuccess = false ∧ pruned.codeCount .uninitializedField = 1 ∧
      kept.isSuccess = true ∧ kept.codeCount .uninitializedField = 0 := by
  have hpruned : (analyze { prune := true } [("main.hyb", initializeAfterReturn)]).toOption.any
      (fun out => !out.isSuccess && out.codeCount .uninitializedField == 1) = true := by
    decide +kernel
  have hkept : (analyze { prune := false } [("main.hyb", initializeAfterReturn)]).toOption.any
      (fun out => out.isSuccess && out.codeCount .uninitializedField == 0) = true := by
    decide +kernel
  obtain ⟨pruned, hp, hpruned⟩ := Check.exists_eq_ok_of_any hpruned
  obtain ⟨kept, hk, hkept⟩ := Check.exists_eq_ok_of_any hkept
  simp only [Bool.and_eq_true, Bool.not_eq_true', beq_iff_eq] at hpruned hkept
  exact ⟨pruned, kept, hp, hk, hpruned.1, hpruned.2, hkept.1, hkept.2⟩

end HybroidSema
