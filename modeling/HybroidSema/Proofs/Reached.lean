import HybroidSema.Proofs.BuildWalks
import HybroidSema.Proofs.TidyVisits

/-!
# The states that a build comes to

A build walks its environments in order, and a walk that asks for another environment waits for the
walk of that one. Here the states of all these walks are described, down to the calls that they make,
and what holds in all of them is shown: nothing that is stored refers to a missing declaration, and no
alert names the error sentinel. Neither depends on whether the build ends with an error.

* `Check.Asks`: a check asks for the walk of an environment in a session.
* `Begins`: the walks that are begun, one inside another; `Arises`: the sessions between walks.
* `Visited`, `Passes` and `Reached`: the calls that walks make and the states that they come to.
* `nothing_dangles` and `sentinel_never_reported`.
-/

namespace HybroidSema

/-! ## Which walks are begun -/

namespace Check

variable {α β : Type} {m : Check α} {k : Demands} {c : Context} {r : Registry} {d : List Bool} {s : State}
  {target : EnvId} {session : Session} {R : Registry → α → Prop}

/-- The check asks for the walk of the environment in the session: another outcome of that walk alone
would make a difference to it. -/
def Asks (m : Check α) (c : Context) (s : State) (target : EnvId) (session : Session) : Prop :=
  ∃ walk, (∀ target' session', (target', session') ≠ (target, session) →
    walk target' session' = c.walk target' session') ∧ m ⟨c.env, walk⟩ s ≠ m c s

/-- A sound check asks for walks in sessions that meet the demands only. -/
theorem Sound.of_asks (h : Sound k c r d m R) (hs : Tidy k c d s)
    (hr : r.Extends s.session.registry) (hasks : Asks m c s target session) :
    session.ReadyFor k ∧ (session.registry.get? target).isSome := by
  obtain ⟨walk, hothers, hne⟩ := hasks
  by_contra hnot
  refine hne ((h s hs hr).1.1 walk fun target' session' hready hsome => hothers target' session' ?_)
  rintro ⟨⟩
  exact hnot ⟨hready, hsome⟩

/-- A check that any error in a walk would end asks for that walk. -/
theorem asks_of_error (h : ∀ walk error, walk target session = .error error →
    m ⟨c.env, walk⟩ s = .error error) : Asks m c s target session := by
  classical
  -- One of two errors is not what the check gives now.
  obtain ⟨error, herror⟩ : ∃ error, m c s ≠ .error error := by
    by_cases hfirst : m c s = .error (.programCheckedOut "")
    · refine ⟨.unknownEnvironment target, fun hsecond => ?_⟩
      rw [hfirst] at hsecond
      cases hsecond
    · exact ⟨_, hfirst⟩
  refine ⟨fun target' session' => if (target', session') = (target, session) then .error error
    else c.walk target' session', fun target' session' hne => if_neg hne, fun heq => herror ?_⟩
  rw [← heq]
  exact h _ error (if_pos rfl)

/-- After a check that fails nothing is run. -/
theorem bind_apply_error {f : α → Check β} {error : CompileError} (h : m c s = .error error) :
    (m >>= f) c s = .error error := by
  rw [bind_apply, h]
  rfl

end Check

open Check

/-- The walk of the program is begun in a build, in the given state and with nested walks that deep:
either the build comes to the environment, or a walk that was begun before asks for it. -/
inductive Begins (config : Config) (files : List (String × Program)) :
    (depth : Nat) → Program → EnvId → State → Prop
  | first {session : Session} {depth i : Nat} {env : Environment} {p : Program}
      (before : (Session.ofFiles config files).walkAll (List.range i) = .ok session)
      (registered : session.registry.envs[i]? = some env) (waits : env.state = .notWalked)
      (slot : session.programs[i]? = some (some p))
      (room : depth + 1 = session.registry.envs.length) :
    Begins config files depth p (.user i) { session := session.checkOut (.user i) i }
  | next {session : Session} {depth i : Nat} {env : Environment} {p q : Program} {id : EnvId}
      {s : State} (outer : Begins config files (depth + 1) p id s)
      (asks : Asks (Session.walkProgram p) ⟨id, Session.walk (depth + 1)⟩ s (.user i) session)
      (registered : session.registry.envs[i]? = some env) (waits : env.state = .notWalked)
      (slot : session.programs[i]? = some (some q)) :
    Begins config files depth q (.user i) { session := session.checkOut (.user i) i }

/-- The session arises between walks: before one that the build begins, where one walk asks for
another, or when a walk hands it back. -/
inductive Arises (config : Config) (files : List (String × Program)) : Session → Prop
  | between {session : Session} {i : Nat}
      (h : (Session.ofFiles config files).walkAll (List.range i) = .ok session) :
    Arises config files session
  | asked {session : Session} {depth : Nat} {p : Program} {id target : EnvId} {s : State}
      (h : Begins config files depth p id s)
      (asks : Asks (Session.walkProgram p) ⟨id, Session.walk depth⟩ s target session) :
    Arises config files session
  | handedBack {depth i : Nat} {p out : Program} {s t : State}
      (h : Begins config files depth p (.user i) s)
      (walked : Session.walkProgram p ⟨.user i, Session.walk depth⟩ s = .ok (out, t)) :
    Arises config files (t.session.checkIn (.user i) i out t.alerts)

/-! ## Which states walks come to -/

namespace Declare

/-- Part of the registration of a program: of each step what concerns the first few statements. -/
def partly (p : Program) (imported claimed resolved filled bound walked : Nat) : Check Unit := do
  importAll (p.take imported)
  let _ ← countEach claimType (p.take claimed)
  resolveAliases (p.take resolved)
  let _ ← countEach registerMembers (p.take filled)
  let _ ← countEach registerFunction (p.take bound)
  walkImports (p.take walked)

end Declare

/-- A walk makes the call in the state. -/
def Visited (config : Config) (files : List (String × Program)) (c : Context) (task : Task)
    (t : State) : Prop :=
  ∃ depth p id s s₀ regions, Begins config files depth p id s ∧ c = ⟨id, Session.walk depth⟩ ∧
    BuildWalk.Checks p c s s₀ ∧ Visits c (programTask p) s₀ regions task t

/-- A walk comes to the state: in the registration of its program, at a call, after an expression or
at its end. -/
inductive Passes (config : Config) (files : List (String × Program)) : Context → State → Prop
  | declares {depth : Nat} {p : Program} {id : EnvId} {s t : State}
      (h : Begins config files depth p id s)
      (imported claimed resolved filled bound walked : Nat)
      (run : Declare.partly p imported claimed resolved filled bound walked
        ⟨id, Session.walk depth⟩ s = .ok ((), t)) :
    Passes config files ⟨id, Session.walk depth⟩ t
  | visits {c : Context} {task : Task} {t : State} (h : Visited config files c task t) :
    Passes config files c t
  | yields {c : Context} {e : Expr} {hint : Option Ty} {s t : State} {result : Expr × Value}
      (h : Visited config files c (.expr e hint) s) (run : expr e hint c s = .ok (result, t)) :
    Passes config files c t
  | ends {depth : Nat} {p out : Program} {id : EnvId} {s t : State}
      (h : Begins config files depth p id s)
      (run : Session.walkProgram p ⟨id, Session.walk depth⟩ s = .ok (out, t)) :
    Passes config files ⟨id, Session.walk depth⟩ t

/-- A walk may come to the state, also between calls: problems were noted, written types and
signatures were resolved, or an alias was given a type. Every type is resolved in such a state. -/
inductive Reached (config : Config) (files : List (String × Program)) : Context → State → Prop
  | passes {c : Context} {s : State} (h : Passes config files c s) : Reached config files c s
  | notes {c : Context} {s : State} (h : Reached config files c s) (alerts : Diagnostics)
      (fatal : Option CompileError) :
    Reached config files c { s with alerts := alerts, fatal := fatal }
  | resolves {c : Context} {s t : State} {written : TypeExpr} {ty : Ty}
      (h : Reached config files c s) (run : resolveType written c s = .ok (ty, t)) :
    Reached config files c t
  | settles {c : Context} {s t u : State} {written : TypeExpr} {ty : Ty} {name : String}
      (h : Reached config files c s) (run : resolveType written c s = .ok (ty, t))
      (run' : Declare.setAlias name ty c t = .ok ((), u)) : Reached config files c u
  | opens {c : Context} {s t : State} {generics : List String} (h : Reached config files c s)
      (run : modifyScopes (·.pushFunction { generics := generics }) c s = .ok ((), t)) :
    Reached config files c t
  | signs {c : Context} {s t : State} {generics : List Ident} {params : List Param}
      {returns : List TypeExpr} {signature : Signature} (h : Reached config files c s)
      (run : resolveSignature generics params returns c s = .ok (signature, t)) :
    Reached config files c t

/-! ## All of them are tidy -/

variable {k : Demands} {c : Context} {r : Registry} {d : List Bool} {config : Config}
  {files : List (String × Program)}

namespace Declare

theorem sound_partly (p : Program) (imported claimed resolved filled bound walked : Nat) :
    Sound k c r d (partly p imported claimed resolved filled bound walked) fun _ _ => True :=
  (sound_importAll _).bind fun _ _ _ _ =>
    (sound_countEach (fun stmt _ => sound_claimType stmt) _).bind fun _ _ _ _ =>
      (sound_resolveAliases _).bind fun _ _ _ _ =>
        (sound_countEach (fun stmt _ => sound_registerMembers stmt) _).bind fun _ _ _ _ =>
          (sound_countEach (fun stmt _ => sound_registerFunction stmt) _).bind fun _ _ _ _ =>
            sound_walkImports _

theorem sound_program (p : Program) : Sound k c r d (Declare.program p) fun _ _ => True := by
  rw [program_eq]
  exact (sound_importAll p).bind fun _ _ _ _ =>
    (sound_countEach (fun stmt _ => sound_claimType stmt) p).bind fun types _ _ _ =>
      sound_fillIn p types

end Declare

namespace Session

/-- The walk of any program, if nothing is asked of it. -/
theorem sound_walkProgram (hfits : ¬k.fits) (n : Nat) (p : Program) :
    Sound { k with waiting := n } c r [] (walkProgram p) fun _ _ => True :=
  (Declare.sound_program p).bind fun _ _ _ _ =>
    Check.sound_program (fun hk => absurd hk hfits) fun hk => absurd hk hfits

/-- The alerts of an `env` declaration name no types. -/
theorem proper_header (s : Session) (path : String) (p : Program) : (s.header path p).2.2.Proper := by
  have hempty : Diagnostics.empty.Proper := nofun
  have hreport {alerts : Diagnostics} (h : alerts.Proper) {kind : AlertKind} (span : Span)
      (hkind : kind.isProper = true) : (alerts.report kind span).Proper := h.push hkind
  unfold header
  split
  · dsimp only
    split <;> split
    · exact hreport hempty _ rfl
    · exact hreport (hreport hempty _ rfl) _ rfl
    · exact hempty
    · exact hreport hempty _ rfl
  · exact hempty.push rfl

theorem readyFor_ofFiles (hfits : ¬k.fits) :
    (ofFiles config files).ReadyFor
      { k with waiting := (ofFiles config files).registry.envs.length } := by
  refine (loaded_ofFiles config files).readyFor (fun hk => absurd hk hfits) fun _ alerts hmem => ?_
  obtain ⟨i, hi⟩ := List.mem_iff_getElem?.1 hmem
  rw [alerts_ofFiles] at hi
  obtain ⟨file, -, rfl⟩ := Option.map_eq_some_iff.1 hi
  exact proper_header _ _ _

/-- However many environments wait, there are not more of them than environments. -/
theorem ReadyFor.all {s : Session} (h : s.ReadyFor k) :
    s.ReadyFor { k with waiting := s.registry.envs.length } :=
  ⟨h.fine, h.waitsNew, List.countP_le_length, h.slots, h.programs, h.proper⟩

/-- Walks of a session that meets the demands leave one that does. -/
theorem ReadyFor.walkAll {s s' : Session} {indices : List Nat} {n : Nat}
    (h : s.ReadyFor { k with waiting := n }) (hrun : s.walkAll indices = .ok s') :
    s'.ReadyFor { k with waiting := s'.registry.envs.length } := by
  induction indices generalizing s n with
  | nil =>
    cases hrun
    exact h.all
  | cons i rest ih =>
    obtain ⟨result, t, hwalk, -⟩ := framing_walk s.registry.envs.length (.user i) s h.waitsNew
    rw [Session.walkAll, walkEnvironment, hwalk] at hrun
    cases result with
    | some error => cases hrun
    | none =>
      have hsome : (s.registry.get? (.user i)).isSome := by
        cases hget : s.registry.get? (.user i) with
        | some env => rfl
        | none =>
          unfold Session.walk at hwalk
          simp only [EnvId.userIndex?_user, hget] at hwalk
          cases hwalk
      obtain ⟨-, hready, -⟩ := safeFor_walk k _ (.user i) s none t h.all hsome hwalk
      exact ih hready hrun

end Session

/-- Every walk is begun in a session that meets the demands and in which its environment waits. -/
theorem Begins.before (hfits : ¬k.fits) {depth : Nat} {p : Program} {id : EnvId} {s : State}
    (h : Begins config files depth p id s) :
    ∃ (session : Session) (i : Nat) (env : Environment), id = .user i ∧
      s = { session := session.checkOut (.user i) i } ∧
      session.ReadyFor { k with waiting := depth + 1 } ∧
      session.registry.get? (.user i) = some env ∧ env.state = .notWalked ∧
      session.programs[i]? = some (some p) := by
  induction h with
  | @first session _ i env _ before registered waits slot room =>
    have hready := (Session.readyFor_ofFiles (k := k) hfits).walkAll before
    rw [← room] at hready
    exact ⟨session, i, env, rfl, rfl, hready, by simpa using registered, waits, slot⟩
  | @next session depth i env p _ _ _ _ asks registered waits slot ih =>
    obtain ⟨before, j, outer, rfl, rfl, hready, hget, houter, -⟩ := ih
    have hs := Session.tidy_checkOut hready (Session.safeFor_walk k _) hget houter
    obtain ⟨hsession, -⟩ := (Session.sound_walkProgram hfits (depth + 1) p).of_asks hs (.refl _) asks
    exact ⟨session, i, env, rfl, rfl, hsession, by simpa using registered, waits, slot⟩

/-- Every walk is begun in a tidy state. -/
theorem Begins.tidy (hfits : ¬k.fits) {depth : Nat} {p : Program} {id : EnvId} {s : State}
    (h : Begins config files depth p id s) :
    Tidy { k with waiting := depth } ⟨id, Session.walk depth⟩ [] s := by
  obtain ⟨session, i, env, rfl, rfl, hready, hget, hwaits, -⟩ := h.before hfits
  exact Session.tidy_checkOut hready (Session.safeFor_walk k depth) hget hwaits

/-- Every session between walks meets the demands. -/
theorem Arises.readyFor (hfits : ¬k.fits) {session : Session} (h : Arises config files session) :
    ∃ n, session.ReadyFor { k with waiting := n } := by
  cases h with
  | between h => exact ⟨_, (Session.readyFor_ofFiles (k := k) hfits).walkAll h⟩
  | @asked _ depth p _ _ _ h asks =>
    have hs := h.tidy hfits
    exact ⟨_, ((Session.sound_walkProgram hfits depth p).of_asks hs (.refl _) asks).1⟩
  | @handedBack depth i p out s t h walked =>
    obtain ⟨session, j, env, hid, rfl, hready, hget, hwaits, hslot⟩ := h.before hfits
    obtain rfl : i = j := by simpa [EnvId.user] using hid
    have hcheck : (session.checkOut (.user i) i).runCheck (.user i) (Session.walk depth)
        (Session.walkProgram p) = .ok (out, t) := walked
    have hwalk : session.walk (depth + 1) (.user i) =
        .ok (t.fatal, t.session.checkIn (.user i) i out t.alerts) := by
      unfold Session.walk
      simp only [EnvId.userIndex?_user, hget, hwaits, bne_self_eq_false, Bool.false_eq_true,
        if_false, hslot, hcheck]
      rfl
    obtain ⟨-, hafter, -⟩ := Session.safeFor_walk k (depth + 1) (.user i) session _ _ hready
      (by rw [hget]; rfl) hwalk
    exact ⟨_, hafter⟩

/-- Every call is made in a tidy state, and what it was given is declared. -/
theorem Visited.tidy (hfits : ¬k.fits) {task : Task} {t : State}
    (h : Visited config files c task t) :
    ∃ n d, Tidy { k with waiting := n } c d t ∧ task.Fine k.plain t.session.registry d := by
  obtain ⟨depth, p, id, s, s₀, regions, hbegins, rfl, ⟨counts, hdeclare⟩, hvisits⟩ := h
  obtain ⟨hs₀, -, -⟩ := (Declare.sound_program p).apply (hbegins.tidy hfits) (.refl _) hdeclare
  have htask : (programTask p).Fine k.plain s₀.session.registry [] := by
    unfold programTask
    split <;> trivial
  obtain ⟨d, ht, -, hfine⟩ := hvisits.tidy (k := { k with waiting := depth }) hfits hs₀ htask
  exact ⟨depth, d, ht, hfine⟩

theorem Passes.tidy (hfits : ¬k.fits) {s : State} (h : Passes config files c s) :
    ∃ n d, Tidy { k with waiting := n } c d s := by
  cases h with
  | declares h imported claimed resolved filled bound walked run =>
    obtain ⟨ht, -, -⟩ := (Declare.sound_partly _ imported claimed resolved filled bound walked).apply
      (h.tidy hfits) (.refl _) run
    exact ⟨_, _, ht⟩
  | visits h =>
    obtain ⟨n, d, ht, -⟩ := h.tidy hfits
    exact ⟨n, d, ht⟩
  | yields h run =>
    obtain ⟨n, d, hs, hhint⟩ := h.tidy hfits
    have hno {P : Prop} : ({ k with waiting := n } : Demands).fits → P := fun hk => absurd hk hfits
    exact ⟨n, d, ((sound_expr _ hno _ d hhint).apply hs (.refl _) run).1⟩
  | ends h run =>
    have hs := h.tidy hfits
    exact ⟨_, _, ((Session.sound_walkProgram hfits _ _).apply hs (.refl _) run).1⟩

theorem Reached.tidy (hfits : ¬k.fits) (hproper : ¬k.proper) {s : State} (h : Reached config files c s) :
    ∃ n d, Tidy { k with waiting := n } c d s := by
  induction h with
  | passes h => exact h.tidy hfits
  | notes _ alerts fatal ih =>
    obtain ⟨n, d, hs⟩ := ih
    exact ⟨n, d, hs.of_envs_eq rfl rfl rfl (fun hk => absurd hk hfits) hs.narrowings fun hk =>
      absurd hk hproper⟩
  | resolves _ run ih =>
    obtain ⟨n, d, hs⟩ := ih
    exact ⟨n, d, ((sound_resolveType _).apply hs (.refl _) run).1⟩
  | settles _ run run' ih =>
    obtain ⟨n, d, hs⟩ := ih
    obtain ⟨ht, -, hty⟩ := (sound_resolveType _).apply hs (.refl _) run
    exact ⟨n, d, ((Declare.sound_setAlias _ hty).apply ht (.refl _) run').1⟩
  | opens _ run ih =>
    obtain ⟨n, d, hs⟩ := ih
    refine ⟨n, false :: d, (hs.modifyScopes (fun stack hstack => ?_) run).1⟩
    exact ScopesAre.enter hstack (by exact trivial) _
  | signs _ run ih =>
    obtain ⟨n, d, hs⟩ := ih
    exact ⟨n, d, ((sound_resolveSignature _ _ _).apply hs (.refl _) run).1⟩

/-! ## References -/

/-- Whatever a build comes to, nothing that is stored or handed on refers to a missing declaration:
neither in the sessions between walks, nor in the states of a walk, nor in the value of an expression
or in what a written type stands for. So the members of an instance are always found. -/
theorem nothing_dangles (config : Config) (files : List (String × Program)) :
    (∀ session, Arises config files session → session.registry.Valid) ∧
    (∀ c s, Reached config files c s → s.session.registry.Valid ∧
      (∀ n ∈ s.narrowings, s.session.registry.HasEntity n.entity) ∧
      ∀ written ty t, resolveType written c s = .ok (ty, t) → ty.Declared t.session.registry) ∧
    (∀ c e hint s, Visited config files c (.expr e hint) s → ∀ e' v t,
      expr e hint c s = .ok ((e', v), t) → v.Declared t.session.registry) ∧
    ∀ c target field index span hint s,
      Visited config files c (.expr (.field target field index span) hint) s → ∀ target' v t,
      single (expr target none) c s = .ok ((target', v), t) →
      (∀ ref, v = .classObject ref →
        ∃ members, members? ref .classDecl c t = .ok (some members, t)) ∧
      ∀ ref, v = .entityObject ref →
        ∃ members, members? ref .entityDecl c t = .ok (some members, t) := by
  have hno {P : Prop} (n : Nat) : (Demands.plainness n).fits → P := False.elim
  refine ⟨fun session h => ?_, fun c s h => ?_, fun c e hint s h e' v t hrun => ?_,
    fun c target field index span hint s h target' v t hrun => ?_⟩
  · obtain ⟨n, hready⟩ := h.readyFor (k := .plainness 0) not_false
    exact hready.fine.valid
  · obtain ⟨n, d, hs⟩ := h.tidy (k := .plainness 0) not_false not_false
    refine ⟨hs.fine.valid, hs.narrowings, fun written ty t hrun => ?_⟩
    exact ((sound_resolveType written).apply hs (.refl _) hrun).2.2
  · obtain ⟨n, d, hs, hhint⟩ := h.tidy (k := .plainness 0) not_false
    obtain ⟨-, -, hv⟩ := (sound_expr e (hno n) _ d hhint).apply hs (.refl _) hrun
    exact hv.declared
  · obtain ⟨n, d, hs, -⟩ := h.tidy (k := .plainness 0) not_false
    obtain ⟨ht, -, hv⟩ := (sound_expr target (hno n) _ d declared_none).single.apply hs (.refl _) hrun
    have hfound {ref : DeclRef} {kind : NamedKind} (hhas : t.session.registry.Has ref kind) :
        ∃ members, members? ref kind c t = .ok (some members, t) := by
      obtain ⟨members, hmembers⟩ := Option.isSome_iff_exists.1 (Registry.isSome_members? hhas)
      exact ⟨members, congrArg (fun found => Except.ok (found, t)) hmembers⟩
    refine ⟨fun ref hinstance => ?_, fun ref hinstance => ?_⟩
    · subst hinstance
      exact hfound hv.declared
    · subst hinstance
      exact hfound hv.declared

/-- `new Thing()` -/
def newThing : Expr :=
  .new ⟨none, ⟨"Thing", .synthetic⟩, [], [], [], false, .synthetic⟩ [] [] .synthetic

/-- `new Thing().size` -/
def thingSize : Expr := .field newThing ⟨"size", .synthetic⟩ none .synthetic

/-- A program that uses another one, which declares a class and creates an instance. -/
def nestedFiles : List (String × Program) :=
  [("a.hyb", usingProgram "A" "B"),
    ("b.hyb", [.level "B", thingClass,
      .expr thingSize])]

/-- The first program before its walk. -/
def nestedStart : State := { session := (Session.ofFiles {} nestedFiles).checkOut (.user 0) 0 }

/-- The first program after its import was recorded. -/
def nestedImported : State :=
  nestedStart.modifyOwn ⟨.user 0, Session.walk 1⟩ fun env =>
    (env.require (.user 1)).addImport (.user 1)

/-- An error in the walk of the second program ends the walk of the first one. -/
theorem walkProgram_nested {error : CompileError}
    {walk : EnvId → Session → Except CompileError (Option CompileError × Session)}
    (h : walk (.user 1) nestedImported.session = .error error) :
    Session.walkProgram (usingProgram "A" "B") ⟨.user 0, walk⟩ nestedStart = .error error := by
  have himport : importAll (usingProgram "A" "B") ⟨.user 0, walk⟩ nestedStart =
      .ok ((), nestedImported) := rfl
  have hclaim : Declare.countEach Declare.claimType (usingProgram "A" "B") ⟨.user 0, walk⟩
      nestedImported = .ok (0, nestedImported) := rfl
  have hasks : walkImports (usingProgram "A" "B") ⟨.user 0, walk⟩ nestedImported =
      (walkOther (.user 1) >>= fun _ => pure ()) ⟨.user 0, walk⟩ nestedImported := rfl
  have hwalk : walkOther (.user 1) ⟨.user 0, walk⟩ nestedImported = .error error := by
    rw [walkOther_apply]
    dsimp only
    rw [h]
    rfl
  have hfill : Declare.fillIn (usingProgram "A" "B") 0 ⟨.user 0, walk⟩ nestedImported =
      (walkImports (usingProgram "A" "B") >>= fun _ => pure { types := 0, functions := 0 })
        ⟨.user 0, walk⟩ nestedImported := rfl
  refine bind_apply_error ?_
  rw [Declare.program_eq, bind_apply_ok himport, bind_apply_ok hclaim, hfill]
  refine bind_apply_error ?_
  rw [hasks]
  exact bind_apply_error hwalk

/-- The second program is walked inside the walk of the first one, and the class of its instance is
found there. -/
theorem nothing_dangles_nested :
    ∃ s, Visited {} nestedFiles ⟨.user 1, Session.walk 0⟩ (.expr thingSize none) s ∧
      s.session.registry.Valid ∧ ∃ e t members,
        single (expr newThing none) ⟨.user 1, Session.walk 0⟩ s =
          .ok ((e, .classObject ⟨.user 1, "Thing"⟩), t) ∧
        members? ⟨.user 1, "Thing"⟩ .classDecl ⟨.user 1, Session.walk 0⟩ t =
          .ok (some members, t) := by
  obtain ⟨-, hreached, -, hfield⟩ := nothing_dangles {} nestedFiles
  have houter : Begins {} nestedFiles 1 (usingProgram "A" "B") (.user 0) nestedStart :=
    .first (i := 0) rfl rfl rfl rfl rfl
  have hasks : Asks (Session.walkProgram (usingProgram "A" "B")) ⟨.user 0, Session.walk 1⟩
      nestedStart (.user 1) nestedImported.session := asks_of_error fun _ _ => walkProgram_nested
  have hinner := Begins.next houter hasks rfl rfl rfl
  obtain ⟨s, hvisited, e, t, hrun⟩ : ∃ s,
      Visited {} nestedFiles ⟨.user 1, Session.walk 0⟩ (.expr thingSize none) s ∧
      ∃ e t, single (expr newThing none) ⟨.user 1, Session.walk 0⟩ s =
        .ok ((e, .classObject ⟨.user 1, "Thing"⟩), t) :=
    ⟨_, ⟨0, _, _, _, _, _, hinner, rfl, ⟨_, rfl⟩,
      .into (List.mem_cons_of_mem _ (List.mem_cons_self ..)) rfl <|
        .into (List.mem_cons_self ..) rfl <| .into (List.mem_cons_self ..) rfl (.here _ _)⟩,
      _, _, rfl⟩
  obtain ⟨members, hmembers⟩ := (hfield _ _ _ _ _ _ _ hvisited _ _ _ hrun).1 _ rfl
  exact ⟨s, hvisited, (hreached _ _ (.passes (.visits hvisited))).1, e, t, members, hrun, hmembers⟩

/-! ## The error sentinel -/

/-- A build ends without an error if its walks do and every program is back in its slot. -/
theorem Session.build_eq_ok_iff {s : Session} {out : BuildOutput} :
    s.build = .ok out ↔ ∃ t programs, s.walkAll (List.range s.registry.envs.length) = .ok t ∧
      Session.collect t.programs t.registry.envs = .ok programs ∧
      out = ⟨t.registry, programs, t.alerts, t.config.denyWarnings⟩ := by
  constructor
  · intro h
    unfold Session.build at h
    cases hwalk : s.walkAll (List.range s.registry.envs.length) with
    | error e =>
      rw [hwalk] at h
      cases h
    | ok t =>
      rw [hwalk] at h
      change (Session.collect t.programs t.registry.envs >>= _) = _ at h
      cases hcollect : Session.collect t.programs t.registry.envs with
      | error e =>
        rw [hcollect] at h
        cases h
      | ok programs =>
        rw [hcollect] at h
        cases h
        exact ⟨t, programs, rfl, hcollect, rfl⟩
  · rintro ⟨t, programs, hwalk, hcollect, rfl⟩
    rw [Session.build, hwalk]
    change (Session.collect t.programs t.registry.envs >>= _) = _
    rw [hcollect]
    rfl

/-- A build that ends without an error gives the alerts of the session after its last walk. -/
theorem arises_of_analyze {out : BuildOutput} (h : analyze config files = .ok out) :
    ∃ session, Arises config files session ∧ session.alerts = out.alerts := by
  obtain ⟨session, programs, hwalk, -, rfl⟩ := Session.build_eq_ok_iff.1 h
  exact ⟨session, .between hwalk, rfl⟩

/-- No alert of a build names the error sentinel as one of its types, neither in what the build gives
nor in any state on the way, and one value that has the type of the sentinel is the sentinel. A type
that could not be resolved is not reported as one that cannot be created. -/
theorem sentinel_never_reported (config : Config) (files : List (String × Program)) :
    (∀ out, analyze config files = .ok out → ∀ alerts ∈ out.alerts, alerts.Proper) ∧
    (∀ session, Arises config files session → ∀ alerts ∈ session.alerts, alerts.Proper) ∧
    (∀ c s, Passes config files c s → s.alerts.Proper) ∧
    (∀ c e hint s, Visited config files c (.expr e hint) s → ∀ e' v t,
      single (expr e hint) c s = .ok ((e', v), t) → v.ty = .invalid → v = .invalid) ∧
    ∀ c s written t, resolveType written c s = .ok (.invalid, t) → ∀ kind keyword,
      constructed written kind keyword c s = .ok ((none, none), t) := by
  have hproper (session : Session) (h : Arises config files session) :
      ∀ alerts ∈ session.alerts, alerts.Proper := by
    obtain ⟨n, hready⟩ := h.readyFor (k := .tidiness 0) not_false
    exact hready.proper trivial
  refine ⟨fun out hout => ?_, hproper, fun c s h => ?_, fun c e hint s h e' v t hrun hty => ?_,
    fun c s written t hrun kind keyword => ?_⟩
  · obtain ⟨session, harises, heq⟩ := arises_of_analyze hout
    rw [← heq]
    exact hproper session harises
  · obtain ⟨n, d, hs⟩ := h.tidy (k := .tidiness 0) not_false
    exact hs.proper trivial
  · obtain ⟨n, d, hs, hhint⟩ := h.tidy (k := .tidiness 0) not_false
    have hsound := (sound_expr (k := .tidiness n) (c := c) e False.elim _ d hhint).single
    obtain ⟨-, -, hv⟩ := hsound.apply hs (.refl _) hrun
    exact Value.eq_invalid_of_ty (hv.isPlain trivial) hty
  · unfold constructed
    rw [bind_apply_ok hrun]
    cases kind <;> rfl

/-- One program that negates a name that stands for nothing. -/
def undeclaredFiles : List (String × Program) :=
  [("a.hyb", [.expr (.unary .neg (.ident ⟨"x", .synthetic⟩) .synthetic)])]

/-- The name is reported, and that the sentinel cannot be negated is not. -/
theorem sentinel_never_reported_undeclared :
    (∃ out, analyze {} undeclaredFiles = .ok out ∧ out.errorCount = 2 ∧
      ∀ alerts ∈ out.alerts, alerts.Proper) ∧
    ∃ c s e' v t, Visited {} undeclaredFiles c (.expr (.ident ⟨"x", .synthetic⟩) none) s ∧
      single (expr (.ident ⟨"x", .synthetic⟩) none) c s = .ok ((e', v), t) ∧
      v.ty = .invalid ∧ v = .invalid := by
  obtain ⟨hout, -, -, hsingle, -⟩ := sentinel_never_reported {} undeclaredFiles
  have hvisited : Visited {} undeclaredFiles ⟨.user 0, Session.walk 0⟩
      (.expr (.ident ⟨"x", .synthetic⟩) none)
      { session := (Session.ofFiles {} undeclaredFiles).checkOut (.user 0) 0 } := by
    exact ⟨0, _, _, _, _, _, .first (i := 0) rfl rfl rfl rfl rfl, rfl, ⟨_, rfl⟩,
      .into (List.mem_cons_self ..) rfl <| .into (List.mem_cons_self ..) rfl <|
        .into (List.mem_cons_self ..) rfl (.here _ _)⟩
  refine ⟨⟨_, rfl, rfl, hout _ rfl⟩, _, _, _, _, _, hvisited, rfl, rfl, ?_⟩
  exact hsingle _ _ _ _ hvisited _ _ _ rfl rfl

end HybroidSema
