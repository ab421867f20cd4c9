import HybroidSema.Proofs.PermittedTrees
import HybroidSema.Proofs.PermittedTypes

/-!
# Access control

An environment reaches what others declare through its links. The links are in order, and each of
them is allowed. If an environment has no error, its resolved program names only what it may use, and
a type that a look-up took from another environment is public there.

* `FinishedWalk.vetting`: what a finished walk knows once its declarations are registered.
* `Check.TypeLookup`: the two look-ups of a type.
* `analyze_controls_access`: the links, qualified names and types of every build.
* `analyze_keeps_foreign_pattern`: the pattern of an `else` arm is not looked up.
-/

namespace HybroidSema

open Check

namespace FinishedWalk

variable {config : Config} {id : EnvId} {p out : Program} {c : Context} {s t : State}

/-- Once the declarations are registered, nothing but the walk of the statements is left, and no
qualified name was vetted yet. -/
theorem vetting (h : FinishedWalk config id p out c s t)
    (hids : ∀ (i : Nat) env, s.session.registry.envs[i]? = some env → env.id = .user i) :
    ∃ u, Route c s u ∧ Vetting c p 0 [] u ∧ Check.program p c u = .ok (out, t) := by
  obtain ⟨counts, u, hdeclare, hroute, hl, hcheck⟩ := h.registers
  obtain ⟨env, hnew, hown⟩ := h.isNew
  obtain ⟨hregisters, hroot⟩ := hnew.registers p
  have hstart : Environment.Registers { env with state := .walking } p [] [] [] ∧
      env.scopes.RootFrom p :=
    ⟨⟨⟨hregisters.classes, hregisters.entities, hregisters.exclusive⟩, hregisters.types,
      hregisters.constructors, hregisters.functions⟩, hroot⟩
  refine ⟨u, hroute, ⟨h.walks.1, h.walks.2, ⟨{}, hl, rfl⟩, ?_, ⟨?_, ?_⟩, .of_eq_nil rfl⟩, hcheck⟩
  · exact Route.wellLinked h.live h.walks.1 (h.wellLinked hids) hroute
  · exact Declare.registers_declare h.live hown hstart hdeclare
  · exact Declare.claimsOnce_declare h.live hown hstart hdeclare

/-- A walk that reports no error has not failed. -/
theorem not_failed (h : FinishedWalk config id p out c s t) {before : Diagnostics}
    (herrors : (before.append t.alerts).hasErrors = false) : ¬t.Failed := by
  rintro (hreported | hfatal)
  · obtain ⟨a, ha, herror⟩ := (Diagnostics.hasErrors_iff _).1 hreported
    have hmem : a ∈ (before.append t.alerts).alerts := List.mem_append_right _ ha
    have hall := (Diagnostics.hasErrors_iff _).2 ⟨a, hmem, herror⟩
    rw [herrors] at hall
    cases hall
  · exact hfatal h.clean

end FinishedWalk

namespace Check

variable {c : Context} {s t u v : State}

/-- A type was looked up, with or without an environment. -/
def TypeLookup (c : Context) (name : Ident) (u : State) (ty : Ty) (v : State) : Prop :=
  (∃ env, qualifiedType env name c u = .ok (ty, v)) ∨ namedType name c u = .ok (ty, v)

/-- In a walk that does not fail, each look-up finds a type where it may. -/
theorem TypeLookup.from {o : ScopeStack} {name : Ident} {ty : Ty}
    (h : TypeLookup c name u ty v) (hl : Live c s o) (hw : Naming c.walk) (hs : WellLinked c s)
    (hbefore : Route c s u) (hafter : Route c v t) (ht : ¬t.Failed) :
    TypeFrom c u v name.name ty := by
  obtain ⟨-, _, hl'⟩ := Route.frames hl hbefore
  have hu := Route.wellLinked hl hw hs hbefore
  have hv : ¬v.Failed := fun hv => ht (Route.failed hafter hv)
  rcases h with ⟨env, hrun⟩ | hrun
  · exact (qualifiedType_from hl' hw hu hrun).resolve_left hv
  · exact (namedType_from hl' hw hu hrun).resolve_left hv

end Check

/-- Access control in every build without an error. No environment lists a requirement twice, itself
or one that it may not access, and its imports are among the requirements. If it has no error, every
qualified name of its resolved program stands for something of its own, or for something public in an
environment or library that it requires. Every type that a look-up of its walk found is a generic
parameter, one of its own or of the implicit library, or was public where it was taken from, and it is
declared public there in the end. -/
theorem analyze_controls_access {config : Config} {files : List (String × Program)}
    {out : BuildOutput} (hout : analyze config files = .ok out) :
    out.registry.envs.length = files.length ∧ out.programs.length = files.length ∧
    out.alerts.length = files.length ∧
    ∀ (i : Nat) path p, files[i]? = some (path, p) → ∃ env walked diagnostics c s t,
      out.registry.envs[i]? = some env ∧ out.programs[i]? = some walked ∧
      out.alerts[i]? = some diagnostics ∧ FinishedWalk config (.user i) p walked c s t ∧
      env.id = .user i ∧ env.LinksInOrder ∧
      (∀ target ∈ env.requirements, out.registry.accessError? (.user i) target = none) ∧
      (diagnostics.hasErrors = false →
        (∀ access ∈ Stmt.allAccesses walked, out.registry.Permits (.user i) access) ∧
        ∀ name u ty v, Route c s u → TypeLookup c name u ty v → Route c v t →
          TypeFrom c u v name.name ty ∧
          ∀ target, TypeTaken c u v target name.name ty →
            out.registry.Requires (.user i) target ∧
            ∃ declared, out.registry.type? target name.name = some declared ∧
              declared.isPub = true) := by
  obtain ⟨henvs, hprograms, halerts, hlasts, hwalked⟩ := finished_lasting_of_analyze hout
  refine ⟨henvs, hprograms, halerts, fun i path p hfile => ?_⟩
  obtain ⟨walked, c, s, t, env, hwalk, hown, henv, hprogram, hreported, hlater⟩ :=
    hwalked i path p hfile
  have hc : c.env = .user i := hwalk.own
  have hids : ∀ (j : Nat) env, out.registry.envs[j]? = some env → env.id = .user j :=
    Registry.ids_of_headings_eq hlasts.headings_eq fun j env henv =>
      ((Session.loaded_ofFiles config files).envs j env henv).2
  have hroute : Route c s t := ((runs_walkProgram hwalk.live p).apply hwalk.run).1
  have hbegin : s.session.registry.Lasts out.registry :=
    (Route.lasts hwalk.live hwalk.walks.2 hroute).trans hlater
  obtain ⟨u₀, -, hvetting, hcheck⟩ := hwalk.vetting (hbegin.ids hids)
  have hended := vetted_program hvetting hcheck
  have hlinks := hended.linked.inOrder env hown
  refine ⟨_, walked, _, c, s, t, henv, hprogram, hreported, hwalk, hids i _ henv,
    ⟨hlinks.requirements, hlinks.others, hlinks.imports, hlinks.required⟩,
    fun target htarget => ?_, fun herrors => ?_⟩
  · rw [Registry.accessError?_of_headings_eq hlater.headings_eq, ← hc]
    exact hended.linked.allowed env hown target htarget
  · have hclean := hwalk.not_failed herrors
    refine ⟨fun access haccess => ?_, fun name u ty v hbefore hlookup hafter => ?_⟩
    · rw [← hc]
      exact hlater.permits (hended.vetted.resolve_left hclean access haccess)
    · refine ⟨hlookup.from hwalk.live hwalk.walks.1 (hwalk.wellLinked (hbegin.ids hids)) hbefore
        hafter hclean, fun target htaken => ?_⟩
      obtain ⟨-, _, hl⟩ := Route.frames hwalk.live hbefore
      rw [← hc]
      exact (htaken.route hafter).isPublic hl hwalk.walks.2 hlater

/-- An environment names a public variable of another one. -/
def sharedUse : List (String × Program) :=
  [("main.hyb", [.level "Main",
      .expr (.envAccess ⟨"Shared", .synthetic⟩ ⟨"k", .synthetic⟩ .synthetic)]),
    ("shared.hyb", [.level "Shared",
      .variable ⟨[⟨"k", .synthetic⟩], none, [.literal ⟨.number, "1", .synthetic⟩], true, false,
        .synthetic⟩])]

/-- The qualified name stays in the resolved program, and the other environment is required. -/
theorem analyze_controls_access_shared :
    ∃ out walked access, analyze {} sharedUse = .ok out ∧ out.programs[0]? = some walked ∧
      access ∈ Stmt.allAccesses walked ∧ out.registry.Permits (.user 0) access ∧
      out.registry.lookup? access.env.name = some (.user 1) := by
  have hbuild : (analyze {} sharedUse).toOption.any (fun out =>
      out.programs[0]?.any (fun walked => (Stmt.allAccesses walked).any fun access =>
        out.registry.lookup? access.env.name == some (.user 1)) &&
      out.alerts[0]?.any (!·.hasErrors)) = true := by decide +kernel
  cases hout : analyze {} sharedUse with
  | error e =>
    rw [hout] at hbuild
    cases hbuild
  | ok out =>
    obtain ⟨-, -, -, hfiles⟩ := analyze_controls_access hout
    obtain ⟨env, walked, diagnostics, c, s, t, -, hprogram, halerts, -, -, -, -, hpermits⟩ :=
      hfiles 0 _ _ rfl
    rw [hout] at hbuild
    simp only [Except.toOption, Option.any_some, hprogram, halerts, Bool.and_eq_true,
      List.any_eq_true, beq_iff_eq, Bool.not_eq_true'] at hbuild
    obtain ⟨⟨access, haccess, hlookup⟩, herrors⟩ := hbuild
    exact ⟨out, walked, access, rfl, hprogram, haccess, (hpermits herrors).1 access haccess, hlookup⟩

/-! ## Patterns of an `else` arm -/

/-- The patterns of the `else` arms of a match statement. There are none in what a parser gives. -/
def Stmt.elsePatterns : Stmt → List Expr
  | .matching _ arms _ => (arms.filter (·.isDefault)).flatMap (·.patterns)
  | _ => []

/-- A match statement with a pattern in its `else` arm. No environment has the name of the
pattern. -/
def foreignPattern : Program :=
  [.level "Main",
    .matching (.literal ⟨.number, "1", .synthetic⟩)
      [⟨[.literal ⟨.number, "1", .synthetic⟩], false, [], .synthetic⟩,
        ⟨[.envAccess ⟨"Nope", .synthetic⟩ ⟨"x", .synthetic⟩ .synthetic], true, [], .synthetic⟩]
      .synthetic]

/-- The pattern stays in the resolved program without an error, though it may not be used. -/
theorem analyze_keeps_foreign_pattern :
    ∃ out walked st env name span, analyze {} [("main.hyb", foreignPattern)] = .ok out ∧
      out.programs[0]? = some walked ∧ out.alerts[0]?.map (·.hasErrors) = some false ∧
      st ∈ walked ∧ Expr.envAccess env name span ∈ st.elsePatterns ∧
      ¬out.registry.Permits (.user 0) ⟨env, name⟩ := by
  have hbuild : (analyze {} [("main.hyb", foreignPattern)]).toOption.any (fun out =>
      out.programs[0]?.any (fun walked => walked.any fun st => st.elsePatterns.any fun pattern =>
        (qualifiedParts? pattern).any fun (env, _, _) =>
          (out.registry.lookup? env.name).isNone) &&
      out.alerts[0]?.map (·.hasErrors) == some false) = true := by decide +kernel
  obtain ⟨out, hout, hkeeps⟩ := Check.exists_eq_ok_of_any hbuild
  rw [Bool.and_eq_true, beq_iff_eq] at hkeeps
  obtain ⟨hprogram, halerts⟩ := hkeeps
  obtain ⟨walked, hwalked, hany⟩ := (Option.any_eq_true _ _).1 hprogram
  obtain ⟨st, hst, hany⟩ := List.any_eq_true.1 hany
  obtain ⟨pattern, hpattern, hany⟩ := List.any_eq_true.1 hany
  obtain ⟨⟨env, name, span⟩, hparts, hnone⟩ := (Option.any_eq_true _ _).1 hany
  obtain rfl := qualifiedParts?_eq_some hparts
  change (out.registry.lookup? env.name).isNone = true at hnone
  refine ⟨out, walked, st, env, name, span, hout, hwalked, halerts, hst, hpattern, ?_⟩
  rintro ⟨target, item, hlookup, -⟩
  rw [hlookup] at hnone
  cases hnone

end HybroidSema
