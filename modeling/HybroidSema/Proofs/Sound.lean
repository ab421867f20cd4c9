import HybroidSema.Proofs.Fine
import HybroidSema.Proofs.Source

/-!
# Checks that keep the session tidy

A check ends the build if it asks for the members of a class or entity that is not declared, or
if an environment that it has walked does. Neither happens as long as everything the registry and
the scopes store is declared. `Check.Good` is that state of affairs.

More can be asked, or less: plain values and alerts that never name the error sentinel, and programs
that were not read from source text. `Demands` says what is asked, `Check.Tidy` is a state that meets
it, and `Check.Sound` says of a check that it keeps such states, that it walks other environments in
such sessions only, and what its result is in the registry that it leaves.

* `Session.Ready` and `Session.ReadyFor`: every environment that waits can be walked.
* `Check.Safe` and `Check.SafeFor`: walking another environment of a ready session.
* `Check.Good`, `Check.Tidy` and `Check.Sound`.
* `Sound.pure`, `Sound.bind` and the other rules. The registry of a `Sound` statement is the one
  in which what was learned before holds; the check may start from any later one.
-/

namespace HybroidSema

/-- The program comes from source text, and its classes and entities have their names. -/
structure Program.Fits (p : Program) : Prop where
  source : Stmt.allSource p = true
  owns : p.ownsContainers = true

/-- Whether an environment waits to be walked. -/
def Environment.waits (e : Environment) : Bool := e.state == .notWalked

theorem Environment.waits_iff {e : Environment} : e.waits = true ↔ e.state = .notWalked := by
  simp [waits]

/-- Every environment has a slot for its program and one for its alerts. -/
structure Session.HasSlots (s : Session) : Prop where
  programs : s.programs.length = s.registry.envs.length
  alerts : s.alerts.length = s.registry.envs.length

theorem Session.HasSlots.of_length_eq {s s' : Session} (h : s.HasSlots)
    (hprograms : s'.programs.length = s.programs.length)
    (halerts : s'.alerts.length = s.alerts.length)
    (henvs : s'.registry.envs.length = s.registry.envs.length) : s'.HasSlots :=
  ⟨by rw [hprograms, henvs, h.programs], by rw [halerts, henvs, h.alerts]⟩

theorem Registry.length_envs_modify (r : Registry) (target : EnvId)
    (f : Environment → Environment) : (r.modify target f).envs.length = r.envs.length := by
  unfold modify
  split
  · exact List.length_modify ..
  · rfl

/-- Nothing the session stores is dangling, and every environment that waits, of which there are
at most `n`, has its program. -/
structure Session.Ready (n : Nat) (s : Session) : Prop where
  valid : s.registry.Valid
  waitsNew : s.WaitsNew
  few : s.registry.envs.countP Environment.waits ≤ n
  slots : s.HasSlots
  programs : ∀ (i : Nat) (env : Environment), s.registry.envs[i]? = some env →
    env.state = .notWalked →
    ∃ program : Program, s.programs[i]? = some (some program) ∧ program.Fits

namespace Check

/-- Walking an environment of a session that is ready for `n` walks does not end the build. -/
def Safe (n : Nat)
    (walk : EnvId → Session → Except CompileError (Option CompileError × Session)) : Prop :=
  ∀ target (s : Session) result s', s.Ready n → (s.registry.get? target).isSome →
    walk target s = .ok (result, s') →
      result = none ∧ s'.Ready n ∧ s.registry.Extends s'.registry ∧ s.Keeps s'

/-- A state in which nothing is dangling and no error has ended the build. The own environment is
being walked, with `d` scopes open above the root. -/
structure Good (c : Context) (d : Nat) (s : State) : Prop where
  own : ∃ env, s.own? c = some env ∧ env.state ≠ .notWalked ∧ env.scopes.inner.length = d
  narrowings : ∀ n ∈ s.narrowings, s.session.registry.HasEntity n.entity
  fatal : s.fatal = none
  ready : ∃ n, s.session.Ready n ∧ Safe n c.walk

end Check

/-! ## What is asked -/

/-- What is asked of a session beyond declarations that exist, and of the checks in it. -/
structure Demands where
  /-- The programs that wait fit, and nothing ends the build. -/
  fits : Prop
  /-- Every stored value is plain, and what can change has forgotten its number. -/
  plain : Prop
  /-- Every alert is proper. -/
  proper : Prop
  /-- While nothing is found unreachable, checks do not depend on whether the session prunes. -/
  steady : Prop
  /-- How many environments may wait. -/
  waiting : Nat
  /-- Plain values are what shows that an alert is proper. -/
  plain_of_proper : proper → plain

/-- The demands of a build that ends without an error. -/
abbrev Demands.completion (n : Nat) : Demands := ⟨True, False, False, False, n, id⟩

/-- The demands that every build meets. -/
abbrev Demands.tidiness (n : Nat) : Demands := ⟨False, True, True, False, n, id⟩

/-- The same, but for alerts. -/
abbrev Demands.plainness (n : Nat) : Demands := ⟨False, True, False, False, n, False.elim⟩

/-- Only that checks do not depend on pruning. -/
abbrev Demands.steadiness (n : Nat) : Demands := ⟨False, False, False, True, n, id⟩

/-- No alert names the error sentinel. -/
def Diagnostics.Proper (d : Diagnostics) : Prop := ∀ a ∈ d.alerts, a.kind.isProper = true

theorem Diagnostics.Proper.push {alerts : Diagnostics} (h : alerts.Proper) {a : Alert}
    (ha : a.kind.isProper = true) : (alerts.push a).Proper := by
  intro b hb
  rcases List.mem_append.1 hb with hb | hb
  · exact h b hb
  · rw [List.mem_singleton.1 hb]
    exact ha

/-- Nothing was found unreachable. -/
def Diagnostics.AllReached (d : Diagnostics) : Prop := ∀ a ∈ d.alerts, a.kind ≠ .unreachableCode

/-- Nothing was found unreachable in the environments that are walked. -/
def Session.AllReached (s : Session) : Prop := ∀ alerts ∈ s.alerts, alerts.AllReached

/-- The session with pruning switched on or off. -/
def Session.prunes (s : Session) (b : Bool) : Session :=
  { s with config := { s.config with prune := b } }

/-- The session meets the demands, and every environment that waits has its program. -/
structure Session.ReadyFor (k : Demands) (s : Session) : Prop where
  fine : s.registry.Fine k.plain
  waitsNew : s.WaitsNew
  few : s.registry.envs.countP Environment.waits ≤ k.waiting
  slots : s.HasSlots
  programs : ∀ (i : Nat) (env : Environment), s.registry.envs[i]? = some env →
    env.state = .notWalked →
    ∃ program : Program, s.programs[i]? = some (some program) ∧ (k.fits → program.Fits)
  proper : k.proper → ∀ alerts ∈ s.alerts, alerts.Proper

namespace Check

variable {α β : Type} {m : Check α} {k : Demands} {c : Context} {r r' : Registry} {d : List Bool}
  {s s' : State}

/-- Walking an environment of a session that meets the demands leaves one that does. -/
def SafeFor (k : Demands)
    (walk : EnvId → Session → Except CompileError (Option CompileError × Session)) : Prop :=
  ∀ target (s : Session) result s', s.ReadyFor k → (s.registry.get? target).isSome →
    walk target s = .ok (result, s') →
      (k.fits → result = none) ∧ s'.ReadyFor k ∧ s.registry.Extends s'.registry ∧ s.Keeps s'

/-- Two ways to walk other environments that are the same in sessions that meet the demands. -/
def Alike (k : Demands)
    (walk walk' : EnvId → Session → Except CompileError (Option CompileError × Session)) : Prop :=
  ∀ target (s : Session), s.ReadyFor k → (s.registry.get? target).isSome →
    walk' target s = walk target s

/-- Nothing was found unreachable, in any environment. -/
structure State.AllReached (s : State) : Prop where
  session : s.session.AllReached
  alerts : s.alerts.AllReached

/-- The state with pruning switched on or off. -/
def State.prunes (s : State) (b : Bool) : State := { s with session := s.session.prunes b }

/-- Where nothing is found unreachable, the second way to walk other environments does in the session
with pruning switched what the first one does. -/
def Switched (k : Demands) (b : Bool)
    (walk walk' : EnvId → Session → Except CompileError (Option CompileError × Session)) : Prop :=
  ∀ target (s : Session) result s', s.ReadyFor k → (s.registry.get? target).isSome →
    walk target s = .ok (result, s') → s'.AllReached →
      s.AllReached ∧ walk' target (s.prunes b) = .ok (result, s'.prunes b)

/-- The check keeps the alerts that there are. Where it finds nothing unreachable, it does the same if
pruning is switched. -/
def Steady (k : Demands) (c : Context) (m : Check α) (s : State) : Prop :=
  ∀ a s', m c s = .ok (a, s') → s.alerts.alerts <+: s'.alerts.alerts ∧
    (k.steady → s'.AllReached → ∀ b walk, Switched k b c.walk walk →
      s.session.AllReached ∧ m ⟨c.env, walk⟩ (s.prunes b) = .ok (a, s'.prunes b))

/-- A state that meets the demands. The own environment is being walked. One scope is open above the
root for each entry of `d`, which says whether it is the body of a class or entity. -/
structure Tidy (k : Demands) (c : Context) (d : List Bool) (s : State) : Prop where
  own : ∃ env, s.own? c = some env ∧ env.state ≠ .notWalked ∧ env.scopes.containers = d
  narrowings : ∀ n ∈ s.narrowings, s.session.registry.HasEntity n.entity
  fatal : k.fits → s.fatal = none
  ready : s.session.ReadyFor k
  safe : SafeFor k c.walk
  proper : k.proper → s.alerts.Proper

/-- A check that leads from tidy states to tidy states. Its result has the property in the registry
that it leaves, if what was learned in `r` still holds at its start. How other environments are
walked matters to it only where the session meets the demands, and pruning only where something is
found unreachable. -/
def Sound (k : Demands) (c : Context) (r : Registry) (d : List Bool) (m : Check α)
    (R : Registry → α → Prop) : Prop :=
  ∀ s, Tidy k c d s → r.Extends s.session.registry →
    ((∀ walk, Alike k c.walk walk → m ⟨c.env, walk⟩ s = m c s) ∧ Steady k c m s) ∧
    ∀ a s', m c s = .ok (a, s') →
      Tidy k c d s' ∧ s.session.registry.Extends s'.session.registry ∧ R s'.session.registry a

/-! ## Tidy states -/

theorem Tidy.fine (h : Tidy k c d s) : s.session.registry.Fine k.plain := h.ready.fine

/-- A change of everything but the environments, their programs and their alerts. -/
theorem Tidy.of_envs_eq (h : Tidy k c d s)
    (henvs : s'.session.registry.envs = s.session.registry.envs)
    (hprograms : s'.session.programs = s.session.programs)
    (halerts : s'.session.alerts = s.session.alerts) (hfatal : k.fits → s'.fatal = none)
    (hnarrowings : ∀ n ∈ s'.narrowings, s.session.registry.HasEntity n.entity)
    (hproper : k.proper → s'.alerts.Proper) : Tidy k c d s' := by
  have hget := Registry.get?_of_envs_eq henvs
  obtain ⟨env, he, hs, hd⟩ := h.own
  have hready := h.ready
  refine ⟨⟨env, (hget _).trans he, hs, hd⟩, fun n hn => ?_, hfatal, ⟨?_, ?_, ?_, ?_, ?_, ?_⟩, h.safe,
    hproper⟩
  · exact (Registry.Extends.of_envs_eq henvs).entities _ (hnarrowings n hn)
  · exact hready.fine.of_envs_eq henvs
  · exact fun id env he => hready.waitsNew id env (hget id ▸ he)
  · rw [henvs]
    exact hready.few
  · exact hready.slots.of_length_eq (by rw [hprograms]) (by rw [halerts]) (by rw [henvs])
  · rw [henvs, hprograms]
    exact hready.programs
  · rw [halerts]
    exact hready.proper

/-- The number of waiting environments after a change of one of them. -/
theorem countP_waits_modify (envs : List Environment) (i : Nat) {f : Environment → Environment}
    (hf : ∀ env, envs[i]? = some env → (f env).waits = env.waits) :
    (envs.modify i f).countP Environment.waits = envs.countP Environment.waits := by
  induction envs generalizing i with
  | nil => simp
  | cons env rest ih =>
    cases i with
    | zero => simp [List.countP_cons, hf env rfl]
    | succ i => simp [List.countP_cons, ih i hf]

/-- A change of the own environment that keeps its declared names. -/
theorem Tidy.modifyOwn {d' : List Bool} {f : Environment → Environment} (h : Tidy k c d s)
    (hf : ∀ env, s.own? c = some env → env.Fine k.plain s.session.registry →
      env.scopes.containers = d → (f env).state = env.state ∧
        (f env).scopes.containers = d' ∧ env.Grows (f env) ∧
        (f env).Fine k.plain (s.session.registry.modify c.env f)) :
    Tidy k c d' (s.modifyOwn c f) ∧
      s.session.registry.Extends (s.modifyOwn c f).session.registry := by
  obtain ⟨own, hown, hs, hd⟩ := h.own
  have hready := h.ready
  obtain ⟨hstate, hdepth, hgrows, hfine⟩ := hf own hown (hready.fine.envs _ own hown) hd
  have hown' : (s.modifyOwn c f).own? c = some (f own) := by
    rw [own?_modifyOwn, hown]
    rfl
  have honly : ∀ env, s.session.registry.get? c.env = some env → env = own := fun env he =>
    Option.some.inj (he.symm.trans hown)
  have hext : s.session.registry.Extends (s.session.registry.modify c.env f) :=
    Registry.extends_modify fun env he => honly env he ▸ hgrows
  obtain ⟨i, hi, hget⟩ := Option.bind_eq_some_iff.1 hown
  have hmodify : s.session.registry.modify c.env f =
      { s.session.registry with envs := s.session.registry.envs.modify i f } := by
    simp only [Registry.modify, hi]
  refine ⟨⟨⟨f own, hown', by rwa [hstate], hdepth⟩, fun n hn => hext.entities _ (h.narrowings n hn),
    h.fatal, ⟨?_, fun id env he hwaits => ?_, ?_, ?_, fun j env he hwaits => ?_, hready.proper⟩,
    h.safe, h.proper⟩, hext⟩
  · exact hready.fine.modify fun env he => honly env he ▸ ⟨hgrows, hfine⟩
  · by_cases hid : id = c.env
    · subst hid
      obtain rfl : f own = env := Option.some.inj (hown'.symm.trans he)
      exact absurd (hstate ▸ hwaits) hs
    · exact hready.waitsNew id env ((Registry.get?_modify_ne _ f hid) ▸ he) hwaits
  · have hcount : (s.session.registry.envs.modify i f).countP Environment.waits =
        s.session.registry.envs.countP Environment.waits := by
      refine countP_waits_modify _ i fun env he => ?_
      obtain rfl := Option.some.inj (hget.symm.trans he)
      simp only [Environment.waits, hstate]
    simp only [State.modifyOwn, hmodify, hcount]
    exact hready.few
  · exact hready.slots.of_length_eq rfl rfl (Registry.length_envs_modify ..)
  · simp only [State.modifyOwn, hmodify, List.getElem?_modify] at he
    obtain ⟨old, hold, heq⟩ := Option.map_eq_some_iff.1 he
    split at heq
    · next hij =>
      subst hij
      obtain rfl := Option.some.inj (hget.symm.trans hold)
      rw [← heq, hstate] at hwaits
      exact absurd hwaits hs
    · obtain rfl : old = env := heq
      exact hready.programs j old hold hwaits

/-! ## Rules -/

/-- Two runs of a sequence are the same if its parts run in the same way. -/
theorem bind_congr_run {f : α → Check β} {c' : Context} (hm : m c' s = m c s)
    (hf : ∀ a t, m c s = .ok (a, t) → f a c' t = f a c t) : (m >>= f) c' s = (m >>= f) c s := by
  rw [bind_apply, bind_apply, hm]
  cases hrun : m c s with
  | error e => rfl
  | ok p => exact hf p.1 p.2 hrun

theorem allReached_of_prefix (h : s'.alerts.AllReached)
    (hstart : s.alerts.alerts <+: s'.alerts.alerts) : s.alerts.AllReached :=
  fun a ha => h a (hstart.subset ha)

theorem steady_pure (a : α) : Steady k c (pure a : Check α) s := by
  intro a' s' hrun
  cases hrun
  exact ⟨List.prefix_rfl, fun _ h _ _ _ => ⟨h.session, rfl⟩⟩

theorem Steady.bind {f : α → Check β} (hm : Steady k c m s)
    (hf : ∀ a t, m c s = .ok (a, t) → Steady k c (f a) t) : Steady k c (m >>= f) s := by
  intro b s' hrun
  obtain ⟨a, t, hm', hf'⟩ := bind_eq_ok hrun
  obtain ⟨hfirst, hbefore⟩ := hm a t hm'
  obtain ⟨hrest, hafter⟩ := hf a t hm' b s' hf'
  refine ⟨hfirst.trans hrest, fun hk hreached b walk hw => ?_⟩
  obtain ⟨hsession, hswitched⟩ := hafter hk hreached b walk hw
  obtain ⟨hstart, hswitched'⟩ :=
    hbefore hk ⟨hsession, allReached_of_prefix hreached.alerts hrest⟩ b walk hw
  exact ⟨hstart, (bind_apply_ok hswitched').trans hswitched⟩

/-- A check that walks nothing, reads nothing of the settings and at most adds alerts. -/
structure IsLocal (c : Context) (m : Check α) : Prop where
  walks : ∀ walk s, m ⟨c.env, walk⟩ s = m c s
  prunes : ∀ b s, m c (s.prunes b) = (m c s).map fun p => (p.1, p.2.prunes b)
  alerts : ∀ s a s', m c s = .ok (a, s') →
    s.alerts.alerts <+: s'.alerts.alerts ∧ s'.session.alerts = s.session.alerts

/-- A check that only reads, and nothing of the settings. -/
structure IsReading (c : Context) (m : Check α) : Prop where
  walks : ∀ walk s, m ⟨c.env, walk⟩ s = m c s
  prunes : ∀ b s, m c (s.prunes b) = (m c s).map fun p => (p.1, p.2.prunes b)
  keeps : ∀ s a s', m c s = .ok (a, s') → s' = s

theorem IsReading.isLocal (h : IsReading c m) : IsLocal c m := by
  refine ⟨h.walks, h.prunes, fun s a s' hrun => ?_⟩
  rw [h.keeps s a s' hrun]
  exact ⟨List.prefix_rfl, rfl⟩

theorem IsLocal.steady (h : IsLocal c m) (s : State) : Steady k c m s := by
  intro a s' hrun
  obtain ⟨hstart, hsession⟩ := h.alerts s a s' hrun
  refine ⟨hstart, fun _ hreached b walk _ => ⟨?_, ?_⟩⟩
  · unfold Session.AllReached
    rw [← hsession]
    exact hreached.session
  · rw [h.walks walk, h.prunes, hrun]
    rfl

namespace Sound

variable {R : Registry → α → Prop} {f : α → Check β} {Q : Registry → β → Prop}

/-- What one run leaves. -/
theorem apply (hm : Sound k c r d m R) (hs : Tidy k c d s) (hr : r.Extends s.session.registry)
    {a : α} (hrun : m c s = .ok (a, s')) :
    Tidy k c d s' ∧ s.session.registry.Extends s'.session.registry ∧ R s'.session.registry a :=
  (hm s hs hr).2 a s' hrun

theorem pure {a : α} (h : ∀ r', r.Extends r' → R r' a) : Sound k c r d (pure a : Check α) R := by
  refine fun s hs hr => ⟨⟨fun _ _ => rfl, steady_pure a⟩, fun a' s' hrun => ?_⟩
  cases hrun
  exact ⟨hs, .refl _, h _ hr⟩

theorem bind (hm : Sound k c r d m R)
    (hf : ∀ a r', r.Extends r' → R r' a → Sound k c r' d (f a) Q) :
    Sound k c r d (m >>= f) Q := by
  intro s hs hr
  have hrest (a : α) (t : State) (hm' : m c s = .ok (a, t)) := by
    obtain ⟨ht, hext, ha⟩ := hm.apply hs hr hm'
    exact hf a _ (hr.trans hext) ha t ht (.refl _)
  refine ⟨⟨fun walk hw => ?_, ?_⟩, fun b s' hrun => ?_⟩
  · exact bind_congr_run ((hm s hs hr).1.1 walk hw) fun a t hm' => (hrest a t hm').1.1 walk hw
  · exact (hm s hs hr).1.2.bind fun a t hm' => (hrest a t hm').1.2
  · obtain ⟨a, t, hm', hf'⟩ := bind_eq_ok hrun
    obtain ⟨hs', hext, hb⟩ := (hrest a t hm').2 b s' hf'
    exact ⟨hs', (hm.apply hs hr hm').2.1.trans hext, hb⟩

theorem mono {R' : Registry → α → Prop} (hm : Sound k c r d m R) (h : ∀ r' a, R r' a → R' r' a) :
    Sound k c r d m R' := by
  refine fun s hs hr => ⟨(hm s hs hr).1, fun a s' hrun => ?_⟩
  obtain ⟨ht, hext, ha⟩ := hm.apply hs hr hrun
  exact ⟨ht, hext, h _ a ha⟩

/-- A check that is made under a condition, before the rest. -/
theorem guardIf {m : Check PUnit} {R : Registry → PUnit → Prop} {f : PUnit → Check β} {b : Prop}
    [Decidable b] (hm : b → Sound k c r d m R)
    (hf : ∀ r', r.Extends r' → Sound k c r' d (f ⟨⟩) Q) :
    Sound k c r d (if b then m >>= f else f ⟨⟩) Q := by
  split
  · next hb => exact (hm hb).bind fun _ r' hr _ => hf r' hr
  · exact hf r (.refl r)

/-- A check that may be made under any condition. -/
theorem guard {m : Check PUnit} {R : Registry → PUnit → Prop} {f : PUnit → Check β} {b : Prop}
    [Decidable b] (hm : Sound k c r d m R)
    (hf : ∀ r', r.Extends r' → Sound k c r' d (f ⟨⟩) Q) :
    Sound k c r d (if b then m >>= f else f ⟨⟩) Q :=
  guardIf (fun _ => hm) hf

theorem forM {ι : Type} {step : ι → Check PUnit} {P : ι → Prop} {items : List ι}
    (hitems : ∀ i ∈ items, P i)
    (h : ∀ i r', r.Extends r' → P i → Sound k c r' d (step i) fun _ _ => True) :
    Sound k c r d (items.forM step) fun _ _ => True := by
  induction items generalizing r with
  | nil => exact .pure fun _ _ => trivial
  | cons i rest ih =>
    refine (h i r (.refl r) (hitems i (by simp))).bind fun _ r₁ h₁ _ => ?_
    exact ih (fun j hj => hitems j (by simp [hj])) fun j r' hr => h j r' (h₁.trans hr)

/-- A check that walks nothing. -/
theorem of_local {R : Registry → α → Prop} (hlocal : IsLocal c m)
    (h : ∀ s a s', Tidy k c d s → r.Extends s.session.registry → m c s = .ok (a, s') →
      Tidy k c d s' ∧ s.session.registry.Extends s'.session.registry ∧ R s'.session.registry a) :
    Sound k c r d m R :=
  fun s hs hr => ⟨⟨fun walk _ => hlocal.walks walk s, hlocal.steady s⟩,
    fun a s' hrun => h s a s' hs hr hrun⟩

/-- A check that changes nothing. -/
theorem of_reads {R : Registry → α → Prop} (hreads : IsReading c m)
    (h : ∀ s a, Tidy k c d s → r.Extends s.session.registry → m c s = .ok (a, s) →
      R s.session.registry a) : Sound k c r d m R :=
  .of_local hreads.isLocal fun s a s' hs hr hrun => by
    obtain rfl := hreads.keeps s a s' hrun
    exact ⟨hs, .refl _, h s' a hs hr hrun⟩

/-- Reading the state, apart from its settings. -/
theorem get_bind {f : State → Check β} (hprunes : k.steady → ∀ s b, f (s.prunes b) = f s)
    (h : ∀ s r', r.Extends r' → (∀ n ∈ s.narrowings, r'.HasEntity n.entity) →
      Sound k c r' d (f s) Q) : Sound k c r d (get >>= f) Q := by
  intro s hs hr
  obtain ⟨⟨halike, hsteady⟩, hrun⟩ := h s _ hr hs.narrowings s hs (.refl _)
  refine ⟨⟨halike, fun a s' hrun' => ?_⟩, hrun⟩
  obtain ⟨hstart, himp⟩ := hsteady a s' hrun'
  refine ⟨hstart, fun hk hreached b walk hw => ?_⟩
  obtain ⟨hsession, hswitched⟩ := himp hk hreached b walk hw
  refine ⟨hsession, ?_⟩
  change f (s.prunes b) ⟨c.env, walk⟩ (s.prunes b) = _
  rw [hprunes hk]
  exact hswitched

end Sound

/-! ## Where steadiness is not asked -/

theorem readyFor_unsteady {session : Session} :
    session.ReadyFor { k with steady := False } ↔ session.ReadyFor k :=
  ⟨fun h => ⟨h.fine, h.waitsNew, h.few, h.slots, h.programs, h.proper⟩,
    fun h => ⟨h.fine, h.waitsNew, h.few, h.slots, h.programs, h.proper⟩⟩

theorem alike_unsteady {walk walk' : EnvId → Session → Except CompileError (Option CompileError × Session)}
    (h : Alike k walk walk') : Alike { k with steady := False } walk walk' :=
  fun target session hready => h target session (readyFor_unsteady.1 hready)

theorem safeFor_unsteady {walk : EnvId → Session → Except CompileError (Option CompileError × Session)} :
    SafeFor { k with steady := False } walk ↔ SafeFor k walk := by
  refine ⟨fun h target s result s' hready hsome hrun => ?_,
    fun h target s result s' hready hsome hrun => ?_⟩
  · obtain ⟨hnone, hready', hrest⟩ := h target s result s' (readyFor_unsteady.2 hready) hsome hrun
    exact ⟨hnone, readyFor_unsteady.1 hready', hrest⟩
  · obtain ⟨hnone, hready', hrest⟩ := h target s result s' (readyFor_unsteady.1 hready) hsome hrun
    exact ⟨hnone, readyFor_unsteady.2 hready', hrest⟩

theorem tidy_unsteady : Tidy { k with steady := False } c d s ↔ Tidy k c d s :=
  ⟨fun h => ⟨h.own, h.narrowings, h.fatal, readyFor_unsteady.1 h.ready, safeFor_unsteady.1 h.safe,
      h.proper⟩,
    fun h => ⟨h.own, h.narrowings, h.fatal, readyFor_unsteady.2 h.ready, safeFor_unsteady.2 h.safe,
      h.proper⟩⟩

/-! ## Problems and reading -/

/-- A step that reads nothing of the settings and at most adds alerts. -/
theorem isLocal_modify {f : State → State} (hprunes : ∀ b s, f (s.prunes b) = (f s).prunes b)
    (halerts : ∀ s, s.alerts.alerts <+: (f s).alerts.alerts ∧
      (f s).session.alerts = s.session.alerts) : IsLocal c (modify f : Check Unit) := by
  refine ⟨fun _ _ => rfl, fun b s => ?_, fun s u s' hrun => ?_⟩
  · change Except.ok ((), f (s.prunes b)) = Except.ok ((), (f s).prunes b)
    rw [hprunes]
  · cases hrun
    exact halerts s

theorem isLocal_alert (a : Alert) : IsLocal c (alert a) :=
  isLocal_modify (fun _ _ => rfl) fun _ => ⟨List.prefix_append _ _, rfl⟩

theorem sound_alert (a : Alert) (ha : k.proper → a.kind.isProper = true) :
    Sound k c r d (alert a) fun _ _ => True := by
  refine .of_local (isLocal_alert a) fun s u s' hs _ hrun => ?_
  cases hrun
  exact ⟨hs.of_envs_eq rfl rfl rfl hs.fatal hs.narrowings fun hk => (hs.proper hk).push (ha hk),
    .refl _, trivial⟩

theorem sound_report (kind : AlertKind) (span : Span)
    (hkind : k.proper → kind.isProper = true) :
    Sound k c r d (report kind span) fun _ _ => True :=
  sound_alert _ hkind

/-- What comes after statements that were found unreachable may depend on pruning. -/
theorem Sound.after_unreachable {f : PUnit → Check β} {Q : Registry → β → Prop} {reported : Bool}
    (hreported : k.steady → reported = false) (span : Span)
    (hf : ∀ r', r.Extends r' → Sound { k with steady := False } c r' d (f ⟨⟩) Q) :
    Sound k c r d (if !reported then report .unreachableCode span >>= f else f ⟨⟩) Q := by
  have hreport (r : Registry) : Sound { k with steady := False } c r d
      (report .unreachableCode span) fun _ _ => True := sound_report _ _ fun _ => rfl
  intro s hs hr
  have hs' := tidy_unsteady.2 hs
  obtain ⟨⟨halike, hsteady⟩, hrun⟩ := Sound.guard (b := (!reported) = true) (hreport r) hf s hs' hr
  refine ⟨⟨fun walk hw => halike walk (alike_unsteady hw), fun a s' h => ?_⟩, fun a s' h => ?_⟩
  · refine ⟨(hsteady a s' h).1, fun hk hreached => ?_⟩
    obtain rfl := hreported hk
    obtain ⟨_, t, hfound, hrest⟩ := bind_eq_ok (m := report .unreachableCode span) h
    obtain ⟨ht, hext, -⟩ := (hreport r).apply hs' hr hfound
    obtain ⟨hstart, -⟩ := (hf _ (hr.trans hext) t ht (.refl _)).1.2 a s' hrest
    cases hfound
    exact absurd rfl (hreached.alerts _ (hstart.subset (List.mem_append_right _ (List.mem_singleton_self _))))
  · obtain ⟨ht, hrest⟩ := hrun a s' h
    exact ⟨tidy_unsteady.1 ht, hrest⟩

/-- Reading something that does not depend on the settings. -/
theorem isReading_of_eq {f : State → α} (h : ∀ s, m c s = .ok (f s, s))
    (hwalks : ∀ walk s, m ⟨c.env, walk⟩ s = m c s) (hprunes : ∀ b s, f (s.prunes b) = f s) :
    IsReading c m := by
  refine ⟨hwalks, fun b s => ?_, fun s a s' hrun => ?_⟩
  · rw [h, h, hprunes]
    rfl
  · rw [h] at hrun
    cases hrun
    rfl

theorem sound_registry :
    Sound k c r d registry fun r' registry => registry = r' ∧ r'.Fine k.plain :=
  .of_reads (isReading_of_eq (fun _ => rfl) (fun _ _ => rfl) fun _ _ => rfl)
    fun s a hs _ hrun => by
      cases hrun
      exact ⟨rfl, hs.fine⟩

theorem sound_ownId : Sound k c r d ownId fun _ id => id = c.env :=
  .of_reads (isReading_of_eq (fun _ => rfl) (fun _ _ => rfl) fun _ _ => rfl)
    fun s a _ _ hrun => by
      cases hrun
      rfl

theorem environment_eq_ok {env : Environment} (h : environment c s = .ok (env, s')) :
    s' = s ∧ s.own? c = some env := by
  have hrun : (liftM (s.session.registry.get c.env) : Check Environment) c s = .ok (env, s') := h
  unfold Registry.get at hrun
  split at hrun
  · next found hfound =>
    cases hrun
    exact ⟨rfl, hfound⟩
  · cases hrun

/-- The own environment, in the registry of the moment. -/
def OwnIs (k : Demands) (c : Context) (d : List Bool) (r : Registry) (env : Environment) : Prop :=
  r.Fine k.plain ∧ r.get? c.env = some env ∧ env.Fine k.plain r ∧ env.scopes.containers = d

theorem isReading_environment : IsReading c environment := by
  refine ⟨fun _ _ => rfl, fun b s => ?_, fun s env s' hrun => (environment_eq_ok hrun).1⟩
  change (liftM (s.session.registry.get c.env) : Check Environment) c (s.prunes b) =
    ((liftM (s.session.registry.get c.env) : Check Environment) c s).map _
  cases s.session.registry.get c.env <;> rfl

theorem sound_environment : Sound k c r d environment (OwnIs k c d) :=
  .of_reads isReading_environment fun s env hs _ hrun => by
    obtain ⟨-, hown⟩ := environment_eq_ok hrun
    obtain ⟨own, hown', _, hd⟩ := hs.own
    obtain rfl := Option.some.inj (hown.symm.trans hown')
    exact ⟨hs.fine, hown, hs.fine.envs _ env hown, hd⟩

/-- The scopes of the own environment. -/
def ScopesAre (k : Demands) (d : List Bool) (r : Registry) (stack : ScopeStack) : Prop :=
  stack.Fine k.plain r ∧ stack.containers = d

theorem sound_scopes : Sound k c r d scopes (ScopesAre k d) :=
  sound_environment.bind fun _ _ _ h => .pure fun _ hr => ⟨h.2.2.1.scopes.mono hr, h.2.2.2⟩

theorem sound_class? (ref : DeclRef) :
    Sound k c r d (class? ref) fun r' found => ∀ info ∈ found, info.Fine k.plain r' :=
  sound_registry.bind fun _ r₁ _ h => .pure fun _ hr info hi => by
    obtain ⟨rfl, hv⟩ := h
    exact (hv.class? hi).mono hr

theorem sound_entity? (ref : DeclRef) :
    Sound k c r d (entity? ref) fun r' found => ∀ info ∈ found, info.Fine k.plain r' :=
  sound_registry.bind fun _ r₁ _ h => .pure fun _ hr info hi => by
    obtain ⟨rfl, hv⟩ := h
    exact (hv.entity? hi).mono hr

/-- A declared class or entity has members. -/
theorem sound_members? (ref : DeclRef) (kind : NamedKind) :
    Sound k c r d (members? ref kind) fun r' found =>
      (r.Has ref kind → found.isSome) ∧ ∀ m ∈ found, m.Fine k.plain r' :=
  sound_registry.bind fun _ r₁ h₁ h => .pure fun _ hr => by
    obtain ⟨rfl, hv⟩ := h
    exact ⟨fun hhas => Registry.isSome_members? (h₁.has hhas), fun m hm =>
      (hv.members? hm).mono hr⟩

theorem sound_enum? (ref : DeclRef) :
    Sound k c r d (enum? ref) fun r' found => ∀ info ∈ found, r'.HasEnum info.ty := by
  unfold enum?
  cases hl : ref.env.library? with
  | some library =>
    refine .pure fun r' _ info hi => ?_
    rw [Library.ty_of_enum? hi]
    exact Library.hasEnum_of_enum? hi
  | none =>
    refine sound_registry.bind fun _ r₁ _ h => .pure fun r' hr info hi => ?_
    obtain ⟨rfl, hv⟩ := h
    obtain ⟨env, he, hi⟩ := Option.bind_eq_some_iff.1 hi
    exact hr.enums _ ((hv.envs _ env he).enums.get? hi)

/-! ## Changing the own environment -/

theorem modifyEnvironment_eq_ok {f : Environment → Environment} {u : Unit}
    (h : modifyEnvironment f c s = .ok (u, s')) : s' = s.modifyOwn c f := by
  obtain ⟨env, t, henv, hrun⟩ := bind_eq_ok (m := environment)
    (f := fun _ => modifyRegistry (·.modify c.env f)) h
  obtain ⟨rfl, -⟩ := environment_eq_ok henv
  cases hrun
  rfl

theorem isLocal_modifyEnvironment (f : Environment → Environment) :
    IsLocal c (modifyEnvironment f) := by
  refine ⟨fun _ _ => rfl, fun b s => ?_, fun s u s' hrun => ?_⟩
  · change (environment >>= fun _ => modifyRegistry (·.modify c.env f)) c (s.prunes b) =
      ((environment >>= fun _ => modifyRegistry (·.modify c.env f)) c s).map _
    rw [bind_apply, bind_apply, isReading_environment.prunes]
    cases environment c s <;> rfl
  · obtain rfl := modifyEnvironment_eq_ok hrun
    exact ⟨List.prefix_rfl, rfl⟩

/-- A change of the own environment. What it declares is looked up after the change. -/
theorem sound_modifyEnvironment {f : Environment → Environment} {R : Registry → Prop}
    (hf : ∀ r' env, r.Extends r' → OwnIs k c d r' env → (f env).state = env.state ∧
      (f env).scopes.containers = d ∧ env.Grows (f env) ∧
      (r'.Extends (r'.modify c.env f) → (r'.modify c.env f).get? c.env = some (f env) →
        (f env).Fine k.plain (r'.modify c.env f) ∧ R (r'.modify c.env f))) :
    Sound k c r d (modifyEnvironment f) fun r' _ => R r' := by
  refine .of_local (isLocal_modifyEnvironment f) fun s u s' hs hr hrun => ?_
  obtain rfl := modifyEnvironment_eq_ok hrun
  have hself (env : Environment) (he : s.own? c = some env) :
      (s.session.registry.modify c.env f).get? c.env = some (f env) := by
    rw [Registry.get?_modify_self, show s.session.registry.get? c.env = some env from he]
    rfl
  have hown (env : Environment) (he : s.own? c = some env)
      (hv : env.Fine k.plain s.session.registry) (hd : env.scopes.containers = d) :=
    hf s.session.registry env hr ⟨hs.fine, he, hv, hd⟩
  have hext : s.session.registry.Extends (s.session.registry.modify c.env f) := by
    obtain ⟨env, he, _, hd⟩ := hs.own
    have hv := hs.fine.envs _ env he
    refine Registry.extends_modify fun env' he' => ?_
    obtain rfl := Option.some.inj (he'.symm.trans he)
    exact (hown env' he hv hd).2.2.1
  have htidy : Tidy k c d (s.modifyOwn c f) := by
    refine (hs.modifyOwn fun env he hv hd => ?_).1
    obtain ⟨hstate, hdepth, hgrows, hfine⟩ := hown env he hv hd
    exact ⟨hstate, hdepth, hgrows, (hfine hext (hself env he)).1⟩
  obtain ⟨env, he, _, hd⟩ := hs.own
  exact ⟨htidy, hext,
    ((hown env he (hs.fine.envs _ env he) hd).2.2.2 hext (hself env he)).2⟩

/-- A change of the own environment that keeps its handle, its scopes and its declared names. -/
theorem sound_modifyEnvironment' {f : Environment → Environment}
    (hf : ∀ r' env, r.Extends r' → OwnIs k c d r' env → (f env).state = env.state ∧
      (f env).scopes.containers = d ∧ env.Grows (f env) ∧ (f env).Fine k.plain r') :
    Sound k c r d (modifyEnvironment f) fun _ _ => True :=
  sound_modifyEnvironment fun r' env hr hown =>
    have h := hf r' env hr hown
    ⟨h.1, h.2.1, h.2.2.1, fun hext _ => ⟨h.2.2.2.mono hext, trivial⟩⟩

theorem sound_modifyScopes {f : ScopeStack → ScopeStack}
    (hf : ∀ r' stack, r.Extends r' → ScopesAre k d r' stack → ScopesAre k d r' (f stack)) :
    Sound k c r d (modifyScopes f) fun _ _ => True :=
  sound_modifyEnvironment' fun r' env hr ⟨_, _, hv, hd⟩ =>
    have h := hf r' env.scopes hr ⟨hv.scopes, hd⟩
    ⟨rfl, h.2, .of_eq rfl rfl rfl rfl, h.1, hv.classes, hv.entities, hv.enums, hv.aliases,
      hv.imports⟩

/-- New scopes in the place of the own ones. -/
theorem sound_setScopes {stack : ScopeStack} (h : ScopesAre k d r stack) :
    Sound k c r d (modifyScopes fun _ => stack) fun _ _ => True :=
  sound_modifyScopes fun _ _ hr _ => ⟨h.1.mono hr, h.2⟩

/-! ## Scopes and variables -/

/-- Scopes with one more scope open. -/
theorem ScopesAre.enter {stack : ScopeStack} (h : ScopesAre k d r stack) {tag : ScopeTag}
    (ht : tag.Valid r) (permits : Permissions) :
    ScopesAre k (tag.container?.isSome :: d) r (stack.enter tag permits) :=
  ⟨h.1.enter ht permits, congrArg _ h.2⟩

theorem ScopesAre.modifyCurrent {stack : ScopeStack} (h : ScopesAre k d r stack)
    {f : Scope → Scope} (hf : ∀ scope, scope.Fine k.plain r → (f scope).Fine k.plain r)
    (hc : ∀ scope, (f scope).isContainer = scope.isContainer) :
    ScopesAre k d r (stack.modifyCurrent f) :=
  ⟨h.1.modifyCurrent (hf _ h.1.current) (hc _), (stack.containers_modifyCurrent (hc _)).trans h.2⟩

theorem ScopesAre.modifyVariable {stack : ScopeStack} (h : ScopesAre k d r stack) (position : Nat)
    (name : String) {f : Variable → Variable} (hf : ∀ v, v.Fine k.plain r → (f v).Fine k.plain r)
    (hn : ∀ v, v.Forgets → (f v).Forgets) :
    ScopesAre k d r (stack.modifyVariable position name f) :=
  ⟨h.1.modifyVariable position name hf hn,
    (stack.containers_modifyVariable position name f).trans h.2⟩

/-- A variable of the innermost scope, which is the body of a class or entity. -/
theorem ScopesAre.modifyMember {stack : ScopeStack} (h : ScopesAre k (true :: d) r stack)
    (name : String) {f : Variable → Variable} (hf : ∀ v, v.Fine k.plain r → (f v).Fine k.plain r) :
    ScopesAre k (true :: d) r (stack.modifyVariable stack.currentPosition name f) := by
  refine ⟨h.1.modifyAt _ (fun scope hscope hfine => ⟨hfine.tag, hfine.bindings.modify name hf,
    fun _ hother => ?_⟩) fun _ => rfl, (stack.containers_modifyVariable _ name f).trans h.2⟩
  obtain rfl : stack.current = scope := by
    have hcurrent : stack.get? stack.currentPosition = some stack.current := by
      unfold ScopeStack.get? ScopeStack.currentPosition ScopeStack.current ScopeStack.chain
      cases stack.inner <;> simp
    exact Option.some.inj (hcurrent.symm.trans hscope)
  have hcontainer := stack.isContainer_current
  rw [h.2] at hcontainer
  exact absurd (hother.symm.trans hcontainer) (by simp)

theorem ScopesAre.declare {stack stack' : ScopeStack} (h : ScopesAre k d r stack) {v : Variable}
    (hv : v.Fine k.plain r) (hn : d.head? = some true ∨ v.Forgets)
    (hd : stack.declare v = .ok stack') : ScopesAre k d r stack' := by
  refine ⟨h.1.declare hv (fun hother => hn.resolve_left fun hcontainer => ?_) hd, ?_⟩
  · have hcurrent := stack.isContainer_current
    rw [h.2, hcontainer, hother] at hcurrent
    cases hcurrent
  · unfold ScopeStack.declare at hd
    cases hscope : stack.current.declare v with
    | error e => simp [hscope, Except.map] at hd
    | ok scope =>
      simp only [hscope, Except.map, Except.ok.injEq] at hd
      rw [← hd, stack.containers_modifyCurrent (ScopeStack.isContainer_declare hscope), h.2]

theorem ScopesAre.declareRoot {stack stack' : ScopeStack} (h : ScopesAre k d r stack)
    {v : Variable} (hv : v.Fine k.plain r) (hn : v.Forgets)
    (hd : stack.declareRoot v = .ok stack') : ScopesAre k d r stack' := by
  refine ⟨h.1.declareRoot hv hn hd, ?_⟩
  unfold ScopeStack.declareRoot at hd
  cases hscope : stack.root.declare v with
  | error e => simp [hscope, Except.map] at hd
  | ok scope =>
    simp only [hscope, Except.map, Except.ok.injEq] at hd
    rw [← hd]
    exact h.2

theorem ScopesAre.assign {stack stack' : ScopeStack} (h : ScopesAre k d r stack) {position : Nat}
    {name : String} (ha : stack.assign position name none = .ok stack') :
    ScopesAre k d r stack' := by
  unfold ScopeStack.assign at ha
  split at ha
  · cases ha
  · split at ha
    · cases ha
    · cases ha
      exact h.modifyVariable position name (fun v hv => ⟨hv.value, hv.constant⟩) fun _ hn => hn

/-- Closing the innermost scope. -/
theorem ScopesAre.close? {stack below : ScopeStack} {scope : Scope} {b : Bool}
    (h : ScopesAre k (b :: d) r stack) (hc : stack.close? = some (scope, below)) :
    scope.Fine k.plain r ∧ ScopesAre k d r below := by
  obtain ⟨hscope, hbelow⟩ := h.1.close? hc
  refine ⟨hscope, hbelow, ?_⟩
  have hd := h.2
  unfold ScopeStack.close? at hc
  split at hc
  · cases hc
  · next top rest hi =>
    rw [ScopeStack.containers, hi, List.map_cons, List.cons.injEq] at hd
    dsimp only at hc
    split at hc
    · cases hc
      exact (ScopeStack.containers_modifyCurrent _
        (ScopeStack.isContainer_receive _ _)).trans hd.2
    · cases hc
      exact hd.2

/-- A change of the scopes that opens or closes some. -/
theorem Tidy.modifyScopes {d' : List Bool} {f : ScopeStack → ScopeStack} {u : Unit} (hs : Tidy k c d s)
    (hf : ∀ stack, ScopesAre k d s.session.registry stack →
      ScopesAre k d' s.session.registry (f stack))
    (hrun : modifyScopes f c s = .ok (u, s')) :
    Tidy k c d' s' ∧ s.session.registry.Extends s'.session.registry := by
  obtain rfl := modifyEnvironment_eq_ok hrun
  have hext : s.session.registry.Extends
      (s.session.registry.modify c.env fun env => { env with scopes := f env.scopes }) :=
    Registry.extends_modify fun env _ => .of_eq rfl rfl rfl rfl
  refine hs.modifyOwn fun env he hv hd => ?_
  obtain ⟨hvalid, hdepth⟩ := hf env.scopes ⟨hv.scopes, hd⟩
  have hnew : ({ env with scopes := f env.scopes } : Environment).Fine k.plain
      s.session.registry :=
    ⟨hvalid, hv.classes, hv.entities, hv.enums, hv.aliases, hv.imports⟩
  exact ⟨rfl, hdepth, .of_eq rfl rfl rfl rfl, hnew.mono hext⟩

/-- Closing a scope walks nothing. -/
theorem closeScope_congr
    (walk : EnvId → Session → Except CompileError (Option CompileError × Session)) :
    closeScope ⟨c.env, walk⟩ s = closeScope c s := by
  refine bind_congr_run rfl fun stack t _ => ?_
  cases stack.close? <;> rfl

theorem steady_closeScope (s : State) : Steady k c closeScope s := by
  have hscopes : Steady k c scopes s :=
    (isReading_environment.isLocal.steady s).bind fun _ _ _ => steady_pure _
  refine hscopes.bind fun stack t _ => ?_
  cases stack.close? with
  | none => exact steady_pure _
  | some p =>
    exact ((isLocal_modifyEnvironment _).steady _).bind fun _ _ _ => steady_pure _

/-- A check inside a scope of its own. -/
theorem Sound.inScope {enter : ScopeStack → ScopeStack} {body : Check α}
    {R : Registry → α → Prop} {b : Bool}
    (henter : ∀ r' stack, r.Extends r' → ScopesAre k d r' stack →
      ScopesAre k (b :: d) r' (enter stack))
    (hR : ∀ r₁ r₂ a, r₁.Extends r₂ → R r₁ a → R r₂ a) (hbody : Sound k c r (b :: d) body R) :
    Sound k c r d (inScope enter body) fun r' a =>
      R r' a.1 ∧ ∀ scope ∈ a.2, scope.Fine k.plain r' := by
  intro s hs hr
  have hopened (u : Unit) (t : State) (h : Check.modifyScopes enter c s = .ok (u, t)) :=
    hs.modifyScopes (fun stack => henter _ stack hr) h
  refine ⟨⟨fun walk hw => ?_, ?_⟩, fun res s' hrun => ?_⟩
  · refine bind_congr_run rfl fun u t henter' => ?_
    obtain ⟨ht, h₁⟩ := hopened u t henter'
    exact bind_congr_run ((hbody t ht (hr.trans h₁)).1.1 walk hw) fun _ _ _ =>
      bind_congr_run (closeScope_congr walk) fun _ _ _ => rfl
  · refine ((isLocal_modifyEnvironment _).steady s).bind fun u t henter' => ?_
    obtain ⟨ht, h₁⟩ := hopened u t henter'
    exact (hbody t ht (hr.trans h₁)).1.2.bind fun _ v _ => (steady_closeScope v).bind fun _ _ _ =>
      steady_pure _
  obtain ⟨_, s₁, henter', hrun⟩ := bind_eq_ok hrun
  obtain ⟨hs₁, h₁⟩ := hopened _ s₁ henter'
  obtain ⟨a, s₂, hbody', hrun⟩ := bind_eq_ok hrun
  obtain ⟨hs₂, h₂, ha⟩ := hbody.apply hs₁ (hr.trans h₁) hbody'
  obtain ⟨closed, s₃, hclose, hrun⟩ := bind_eq_ok hrun
  cases hrun
  obtain ⟨stack, t, hscopes, hmatch⟩ := bind_eq_ok hclose
  obtain ⟨ht, -, hstack⟩ := sound_scopes.apply hs₂ (.refl _) hscopes
  obtain ⟨env, u, henv, hpure⟩ := bind_eq_ok hscopes
  obtain ⟨rfl, hown⟩ := environment_eq_ok henv
  cases hpure
  cases hc : env.scopes.close? with
  | none =>
    -- The scope that was opened is still there.
    have hd := hstack.2
    unfold ScopeStack.close? at hc
    split at hc
    · next hnil => simp [ScopeStack.containers, hnil] at hd
    · dsimp only at hc
      split at hc <;> cases hc
  | some p =>
    obtain ⟨scope, below⟩ := p
    simp only [hc] at hmatch
    obtain ⟨_, v, hset, hpure⟩ := bind_eq_ok hmatch
    cases hpure
    obtain ⟨hscope, hbelow⟩ := hstack.close? hc
    obtain ⟨hs₃, h₃⟩ := hs₂.modifyScopes (fun _ _ => hbelow) hset
    refine ⟨hs₃, (h₁.trans h₂).trans h₃, hR _ _ a h₃ ha, fun other ho => ?_⟩
    cases ho
    exact hscope.mono h₃

/-- A check inside a scope that permits more. -/
theorem Sound.inPushed {body : Check α} {R : Registry → α → Prop} {tag : ScopeTag}
    (added : Permissions) (ht : tag.Valid r) (hR : ∀ r₁ r₂ a, r₁.Extends r₂ → R r₁ a → R r₂ a)
    (hbody : Sound k c r (tag.container?.isSome :: d) body R) :
    Sound k c r d (Check.inScope (·.push tag added) body) fun r' a =>
      R r' a.1 ∧ ∀ scope ∈ a.2, scope.Fine k.plain r' :=
  .inScope (fun _ _ hr h => h.enter (ht.mono hr) _) hR hbody

/-- A check inside a scope that permits less. -/
theorem Sound.inRestricted {body : Check α} {R : Registry → α → Prop} (removed : Permissions)
    (hR : ∀ r₁ r₂ a, r₁.Extends r₂ → R r₁ a → R r₂ a) (hbody : Sound k c r (false :: d) body R) :
    Sound k c r d (Check.inScope (·.pushRestricted .plain removed) body) fun r' a =>
      R r' a.1 ∧ ∀ scope ∈ a.2, scope.Fine k.plain r' := by
  refine .inScope (fun r' stack _ h => ?_) hR hbody
  have htag : ScopeTag.plain.Valid r' := trivial
  exact h.enter htag _

/-- A check inside a function scope. -/
theorem Sound.inPushedFunction {body : Check α} {R : Registry → α → Prop} {tag : FuncTag}
    (ht : Ty.AllDeclared r tag.returns) (hR : ∀ r₁ r₂ a, r₁.Extends r₂ → R r₁ a → R r₂ a)
    (hbody : Sound k c r (false :: d) body R) :
    Sound k c r d (Check.inScope (·.pushFunction tag) body) fun r' a =>
      R r' a.1 ∧ ∀ scope ∈ a.2, scope.Fine k.plain r' := by
  refine .inScope (fun r' stack hr h => ?_) hR hbody
  have htag : (ScopeTag.func tag).Valid r' := ht.mono hr
  exact h.enter htag _

theorem sound_reportScopeError (error : ScopeError) (span : Span) (what : String) :
    Sound k c r d (reportScopeError error span what) fun _ _ => True := by
  unfold reportScopeError
  split
  · exact sound_alert _ fun _ => rfl
  · exact sound_report _ _ fun _ => rfl
  · exact sound_report _ _ fun _ => rfl

theorem sound_declare {binding : Variable} (hv : binding.Fine k.plain r)
    (hn : d.head? = some true ∨ binding.Forgets) (what : String) :
    Sound k c r d (declare binding what) fun _ _ => True := by
  refine sound_scopes.bind fun stack r' hr hstack => ?_
  split
  · next stack' hd => exact sound_setScopes (hstack.declare (hv.mono hr) hn hd)
  · exact sound_reportScopeError _ _ _

theorem sound_setNarrowings {g : State → List Narrowing} (hprunes : ∀ b s, g (s.prunes b) = g s)
    (hg : ∀ s, r.Extends s.session.registry →
      (∀ n ∈ s.narrowings, s.session.registry.HasEntity n.entity) →
      ∀ n ∈ g s, s.session.registry.HasEntity n.entity) :
    Sound k c r d (modify fun s => { s with narrowings := g s }) fun _ _ => True := by
  refine .of_local (isLocal_modify (fun b s => ?_) fun _ => ⟨List.prefix_rfl, rfl⟩)
    fun s u s' hs hr hrun => ?_
  · rw [hprunes]
    rfl
  cases hrun
  exact ⟨hs.of_envs_eq rfl rfl rfl hs.fatal (hg s hr hs.narrowings) hs.proper, .refl _, trivial⟩

theorem sound_clearNarrowings : Sound k c r d clearNarrowings fun _ _ => True :=
  sound_setNarrowings (g := fun _ => []) (fun _ _ => rfl) fun _ _ _ => nofun

theorem sound_takeNarrowings :
    Sound k c r d takeNarrowings fun r' narrowings => ∀ n ∈ narrowings, r'.HasEntity n.entity :=
  .get_bind (fun _ _ _ => rfl) fun _ _ _ h => sound_clearNarrowings.bind fun _ _ h₁ _ =>
    .pure fun _ hr n hn => hr.entities _ (h₁.entities _ (h n hn))

end Check

/-! ## Good states -/

theorem Session.Ready.readyFor {n : Nat} {s : Session} (h : s.Ready n) :
    s.ReadyFor (.completion n) :=
  ⟨h.valid.fine id, h.waitsNew, h.few, h.slots, fun i env he hw =>
    (h.programs i env he hw).imp fun _ hp => ⟨hp.1, fun _ => hp.2⟩, nofun⟩

theorem Session.ReadyFor.ready {n : Nat} {s : Session} (h : s.ReadyFor (.completion n)) :
    s.Ready n :=
  ⟨h.fine.valid, h.waitsNew, h.few, h.slots, fun i env he hw =>
    (h.programs i env he hw).imp fun _ hp => ⟨hp.1, hp.2 trivial⟩⟩

namespace Check

variable {c : Context} {d n : Nat} {flags : List Bool} {s : State}
  {walk : EnvId → Session → Except CompileError (Option CompileError × Session)}

theorem Safe.safeFor (h : Safe n walk) : SafeFor (.completion n) walk := by
  intro target s result s' hs htarget hrun
  obtain ⟨hresult, hready, hkept⟩ := h target s result s' hs.ready htarget hrun
  exact ⟨fun _ => hresult, hready.readyFor, hkept⟩

theorem SafeFor.safe (h : SafeFor (.completion n) walk) : Safe n walk := by
  intro target s result s' hs htarget hrun
  obtain ⟨hresult, hready, hkept⟩ := h target s result s' hs.readyFor htarget hrun
  exact ⟨hresult trivial, hready.ready, hkept⟩

/-- A good state meets the demands of a build that ends without an error. -/
theorem Good.tidy (h : Good c d s) :
    ∃ n flags, Tidy (.completion n) c flags s ∧ flags.length = d := by
  obtain ⟨n, hready, hsafe⟩ := h.ready
  obtain ⟨env, hown, hstate, hd⟩ := h.own
  exact ⟨n, _, ⟨⟨env, hown, hstate, rfl⟩, h.narrowings, fun _ => h.fatal, hready.readyFor,
    hsafe.safeFor, nofun⟩, (List.length_map ..).trans hd⟩

theorem Tidy.good (h : Tidy (.completion n) c flags s) : Good c flags.length s := by
  obtain ⟨env, hown, hstate, rfl⟩ := h.own
  exact ⟨⟨env, hown, hstate, (List.length_map ..).symm⟩, h.narrowings, h.fatal trivial, n,
    h.ready.ready, h.safe.safe⟩

theorem Good.valid (h : Good c d s) : s.session.registry.Valid := by
  obtain ⟨_, hready, _⟩ := h.ready
  exact hready.valid

end Check

end HybroidSema
