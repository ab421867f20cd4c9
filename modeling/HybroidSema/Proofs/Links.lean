import HybroidSema.Proofs.BuildWalks

/-!
# The links of an environment

A check records a requirement once, if it is another environment that the kinds allow, and imports
only what is required. So the links of every environment of a build are in order, and whatever is
found through them while the environment is walked is found in the end.

* `Environment.LinksInOrder`: nothing is listed twice, and every import is required.
* `Check.WellLinked`: what a check knows about its links, kept by one step and so by a route.
* `Registry.Lasts.headings_eq` and the lemmas after it: what is found in a registry is found later.
* `FinishedWalk.wellLinked`: the links of an environment when its walk begins.
-/

namespace HybroidSema

/-- No requirement is listed twice or is the environment itself, and no import is listed twice or is
not required. -/
structure Environment.LinksInOrder (e : Environment) : Prop where
  requirements : e.requirements.Nodup
  others : e.id ∉ e.requirements
  imports : e.imports.Nodup
  required : e.imports ⊆ e.requirements

namespace Check

variable {c : Context} {s s' : State} {o : ScopeStack} {phase : Phase}

/-- Every change of the own environment keeps its links in order. -/
theorem Edit.linksInOrder {f : Environment → Environment} (h : Edit c phase s f)
    {env : Environment} (hown : s.own? c = some env) (hid : env.id = c.env)
    (henv : env.LinksInOrder) : (f env).LinksInOrder := by
  have hsame (env' : Environment) (hid : env'.id = env.id)
      (hrequirements : env'.requirements = env.requirements) (himports : env'.imports = env.imports) :
      env'.LinksInOrder := by
    obtain ⟨hnodup, hothers, himportsNodup, hrequired⟩ := henv
    constructor <;> simpa only [hid, hrequirements, himports]
  cases h with
  | require target =>
    simp only [Environment.require]
    split
    · next hlacks =>
      obtain ⟨hne, hnew⟩ : target ≠ env.id ∧ target ∉ env.requirements := by
        simpa [Environment.lacksRequirement] using hlacks
      refine ⟨?_, ?_, henv.imports, fun t ht => List.mem_append_left _ (henv.required ht)⟩
      · exact List.nodup_append.2 ⟨henv.requirements, List.nodup_singleton _, fun a ha b hb => by
          rintro rfl
          exact hnew (List.mem_singleton.1 hb ▸ ha)⟩
      · intro hmem
        rcases List.mem_append.1 hmem with hold | hlast
        · exact henv.others hold
        · exact hne (List.mem_singleton.1 hlast).symm
    · exact henv
  | addImport target _ hne required =>
    have htarget : target ∈ env.requirements :=
      (Environment.lacksRequirement_eq_false_iff.1 (required env hown)).resolve_left
        (hid ▸ hne)
    simp only [Environment.addImport]
    split
    · next hlacks =>
      have hnew : target ∉ env.imports := by simpa [Environment.lacksImport] using hlacks
      refine ⟨henv.requirements, henv.others, ?_, fun t ht => ?_⟩
      · exact List.nodup_append.2 ⟨henv.imports, List.nodup_singleton _, fun a ha b hb => by
          rintro rfl
          exact hnew (List.mem_singleton.1 hb ▸ ha)⟩
      · rcases List.mem_append.1 ht with hold | hlast
        · exact henv.required hold
        · exact List.mem_singleton.1 hlast ▸ htarget
    · exact henv
  | setField kind => cases kind <;> exact hsame _ rfl rfl rfl
  | _ => exact hsame _ rfl rfl rfl

/-- What a check knows about the links of its own environment. -/
structure WellLinked (c : Context) (s : State) : Prop extends Linked c s where
  inOrder : ∀ env, s.own? c = some env → env.LinksInOrder

theorem Step.wellLinked (h : Live c s o) (hw : Naming c.walk) (hs : WellLinked c s)
    (hstep : Step c phase s s') : WellLinked c s' := by
  refine ⟨hstep.linked h hw hs.toLinked, fun env hown => ?_⟩
  obtain ⟨before, hbefore, -, -⟩ := h.own
  have hbeforeLinks := hs.inOrder before hbefore
  rcases hstep.own_cases h hbefore with hsame | ⟨f, hedit, hchanged⟩
  · obtain rfl := Option.some.inj (hsame.symm.trans hown)
    exact hbeforeLinks
  · obtain rfl := Option.some.inj (hchanged.symm.trans hown)
    exact hedit.linksInOrder hbefore (hs.own_id hbefore) hbeforeLinks

theorem Route.wellLinked (h : Live c s o) (hw : Naming c.walk) (hs : WellLinked c s)
    (hroute : Route c s s') : WellLinked c s' :=
  hroute.keeps h (fun _ _ _ _ hl hstep ht => hstep.wellLinked hl hw ht) hs

/-- A route takes nothing back that any environment had. -/
theorem Route.lasts (h : Live c s o) (hw : Session.Recording c.walk) (hroute : Route c s s') :
    s.session.registry.Lasts s'.session.registry :=
  (Route.records h hw hroute).lasting

end Check

/-! ## Later registries -/

namespace Registry.Lasts

variable {r r' : Registry}

theorem headings_eq (h : r.Lasts r') : r'.headings = r.headings := by
  refine List.ext_getElem? fun i => ?_
  simp only [headings, List.getElem?_map]
  cases he : r.envs[i]? with
  | none =>
    have hlength := List.getElem?_eq_none_iff.1 he
    rw [List.getElem?_eq_none_iff.2 (h.length ▸ hlength)]
  | some e =>
    obtain ⟨e', he', hlasts⟩ := h.envs (.user i) e (by simpa using he)
    rw [get?_user] at he'
    simp [he', Environment.heading, hlasts.id, hlasts.name, hlasts.kind]

theorem lookup? (h : r.Lasts r') (name : String) : r'.lookup? name = r.lookup? name :=
  lookup?_of_names_eq (names_of_headings_eq h.headings_eq) name

theorem requires (h : r.Lasts r') {source target : EnvId} (hr : r.Requires source target) :
    r'.Requires source target := by
  obtain ⟨e, he, htarget⟩ := hr
  obtain ⟨e', he', hlasts⟩ := h.envs source e he
  exact ⟨e', he', hlasts.requirements htarget⟩

end Registry.Lasts

/-! ## When a walk begins -/

open Check Session

/-- Handles are positions in every registry that a later one with this property continues. -/
theorem Registry.Lasts.ids {r r' : Registry} (h : r.Lasts r')
    (hids : ∀ (i : Nat) env, r'.envs[i]? = some env → env.id = .user i) :
    ∀ (i : Nat) env, r.envs[i]? = some env → env.id = .user i := by
  intro i env henv
  obtain ⟨env', henv', hlasts⟩ := h.envs (.user i) env (by simpa using henv)
  rw [← hlasts.id]
  exact hids i env' (by simpa using henv')

/-- An environment that was new has no links yet. -/
theorem FinishedWalk.wellLinked {config : Config} {id : EnvId} {p out : Program} {c : Context}
    {s t : State} (h : FinishedWalk config id p out c s t)
    (hids : ∀ (i : Nat) env, s.session.registry.envs[i]? = some env → env.id = .user i) :
    WellLinked c s := by
  obtain ⟨env, hnew, hown⟩ := h.isNew
  rw [hnew] at hown
  have hbare {own : Environment} (h : s.own? c = some own) :
      own.requirements = [] ∧ own.imports = [] := by
    obtain rfl := Option.some.inj (hown.symm.trans h)
    exact ⟨rfl, rfl⟩
  refine ⟨⟨hids, fun own hown => ?_, fun own hown => ?_, fun own hown => ?_⟩, fun own hown => ?_⟩
  · simp [(hbare hown).2]
  · simp [(hbare hown).1]
  · simp [(hbare hown).1]
  · constructor <;> simp [(hbare hown).1, (hbare hown).2]

/-- The walks inside a finished walk keep names and leave what their environments had. -/
theorem FinishedWalk.walks {config : Config} {id : EnvId} {p out : Program} {c : Context}
    {s t : State} (h : FinishedWalk config id p out c s t) :
    Naming c.walk ∧ Recording c.walk := by
  obtain ⟨depth, hdepth⟩ := h.nested
  rw [hdepth]
  exact ⟨headings_walk depth, records_walk depth⟩

end HybroidSema
