import HybroidSema.Proofs.AliasCycles
import HybroidSema.Proofs.MemberReadings
import HybroidSema.Proofs.PermittedTypes
import Mathlib.Order.WellFoundedSet

/-!
# What aliases stand for

An alias gets the type that its target is read as at the time when it is settled. An alias that the
target mentions without a qualifier is settled by then, and stands for the same in the end. One that is
qualified with the name of the own environment is not waited for, and is read as the error sentinel if
its turn is yet to come.

* `TypeExpr.unplaced`: a written type without its positions.
* `Registry.standsIn`: what a name stands for at the root of an environment that imports nothing.
* `typesAfter`: what names stand for once aliases were settled.
* `Plan.expands_iff`: when an alias stands for what its target is read as in the end.
* `IsExpansion` and `IsExpansion.unique`: acyclic aliases are expanded in one way only.
* `OnlyAliases` and `Claimed.onlyAliases`: the environments that this is applied to.
-/

namespace HybroidSema

/-! ## Positions -/

namespace TypeExpr

open Check

mutual
/-- The written type without its positions. -/
def unplaced (written : TypeExpr) : TypeExpr :=
  match written with
  | ⟨env, name, wrapped, params, returns, isVariadic, _⟩ =>
    ⟨env.map fun env => ⟨env.name, .synthetic⟩, ⟨name.name, .synthetic⟩, unplacedAll wrapped,
      unplacedAll params, unplacedAll returns, isVariadic, .synthetic⟩
  termination_by structural written

/-- Written types without their positions. -/
def unplacedAll (written : List TypeExpr) : List TypeExpr :=
  match written with
  | [] => []
  | first :: rest => first.unplaced :: unplacedAll rest
  termination_by structural written
end

mutual
/-- A written type mentions the same names wherever it stands. -/
theorem mentions_unplaced (written : TypeExpr) : written.unplaced.mentions = written.mentions :=
  match written with
  | ⟨env, name, wrapped, params, returns, isVariadic, span⟩ => by
    unfold unplaced mentions
    rw [mentionsAll_unplacedAll wrapped, mentionsAll_unplacedAll params,
      mentionsAll_unplacedAll returns, Option.map_map]
    rfl
  termination_by structural written

theorem mentionsAll_unplacedAll (written : List TypeExpr) :
    mentionsAll (unplacedAll written) = mentionsAll written :=
  match written with
  | [] => by rw [unplacedAll]
  | first :: rest => by
    rw [unplacedAll, mentionsAll, mentionsAll, mentions_unplaced first, mentionsAll_unplacedAll rest]
  termination_by structural written
end

mutual
/-- A written type reads the same wherever it stands. -/
theorem reading_unplaced (look : Option String → String → Ty) (written : TypeExpr) :
    written.unplaced.reading look = written.reading look :=
  match written with
  | ⟨env, name, wrapped, params, returns, isVariadic, span⟩ => by
    have hwrapped := readings_unplacedAll look wrapped
    have hparams := readings_unplacedAll look params
    have hreturns := readings_unplacedAll look returns
    unfold unplaced reading
    cases env with
    | some env => rfl
    | none =>
      dsimp only [Option.map_none]
      cases containerKeyword? name.name with
      | none => rw [hparams, hreturns]
      | some kind =>
        match wrapped with
        | [] => rfl
        | [elem] => 
          have helem : elem.unplaced.reading look = elem.reading look := by
            simpa [unplacedAll, readings] using hwrapped
          simp only [unplacedAll, helem]
        | first :: second :: rest => simp only [unplacedAll]
  termination_by structural written

theorem readings_unplacedAll (look : Option String → String → Ty) (written : List TypeExpr) :
    readings look (unplacedAll written) = readings look written :=
  match written with
  | [] => by rw [unplacedAll]
  | first :: rest => by
    rw [unplacedAll, readings, readings, reading_unplaced look first, readings_unplacedAll look rest]
  termination_by structural written
end

end TypeExpr

/-! ## Names at the root of an environment -/

namespace Registry

variable {r : Registry} {id : EnvId} {types types' : String → Option DeclaredType}
  {env : Option String} {name : String}

/-- What a name in a written type stands for at the root of an environment that imports nothing and
declares the types. -/
def standsIn (r : Registry) (id : EnvId) (types : String → Option DeclaredType) :
    Option String → String → Ty
  | none, name => Declare.standsFor types [] none name
  | some env, name =>
    match r.lookup? env with
    | none => .invalid
    | some target =>
      let found := if target = id then types name
        else if (r.accessError? id target).isSome then none
        else r.type? target name
      found.elim .invalid (·.ty)

/-- Whether a name with or without a qualifier is looked up in the environment itself. -/
def IsOwn (r : Registry) (id : EnvId) : Option String → Prop
  | none => True
  | some env => r.lookup? env = some id

/-- An own name stands for the same wherever the same type is declared under it. -/
theorem standsIn_congr_own {r' : Registry} (hown : r.IsOwn id env) (hown' : r'.IsOwn id env)
    (h : (types name).map (·.ty) = (types' name).map (·.ty)) :
    r.standsIn id types env name = r'.standsIn id types' env name := by
  cases env with
  | none =>
    unfold standsIn Declare.standsFor
    cases hd : types name <;> cases hd' : types' name <;> simp_all
  | some env =>
    have hlookup : r.lookup? env = some id := hown
    have hlookup' : r'.lookup? env = some id := hown'
    have helim := congrArg (Option.elim · Ty.invalid fun ty => ty) h
    simpa [standsIn, hlookup, hlookup', Option.elim_map, Function.comp_def] using helim

/-- Own types matter to own names only. -/
theorem standsIn_congr
    (h : r.IsOwn id env → (types name).map (·.ty) = (types' name).map (·.ty)) :
    r.standsIn id types env name = r.standsIn id types' env name := by
  by_cases hown : r.IsOwn id env
  · exact standsIn_congr_own hown hown (h hown)
  · cases env with
    | none => exact absurd trivial hown
    | some env =>
      unfold standsIn
      cases hlookup : r.lookup? env with
      | none => simp only [hlookup]
      | some target =>
        have hne : target ≠ id := fun heq => hown (heq ▸ hlookup)
        simp only [hlookup, if_neg hne]

/-- An own name stands for the type that is declared under it. -/
theorem standsIn_own (hown : r.IsOwn id env) {declared : DeclaredType}
    (h : types name = some declared) : r.standsIn id types env name = declared.ty := by
  cases env with
  | none => simp [standsIn, Declare.standsFor, h]
  | some env =>
    have hlookup : r.lookup? env = some id := hown
    simp [standsIn, hlookup, h]

end Registry

/-! ## Aliases by name -/

/-- The names of a table that is made from a list. -/
theorem Table.isSome_get?_ofList {α : Type} (entries : List (String × α)) (name : String) :
    ((ofList entries).get? name).isSome ↔ name ∈ entries.map Prod.fst := by
  induction entries using List.reverseRecOn with
  | nil => simp [ofList]
  | append_singleton entries entry ih =>
    have hsplit : ofList (entries ++ [entry]) = (ofList entries).insert entry.1 entry.2 := by
      simp [ofList]
    rw [hsplit, get?_insert, List.map_append, List.mem_append, ← ih]
    split <;> simp_all

/-- The type that a declared type stands for before aliases are resolved. -/
def Stmt.claimedTy? (id : EnvId) : Stmt → Option Ty
  | .classDecl decl => some (.named id decl.name.name .classDecl)
  | .entityDecl decl => some (.named id decl.name.name .entityDecl)
  | .enumDecl decl => some (.enum id decl.name.name)
  | .aliasDecl _ => some .invalid
  | _ => none

namespace Program

variable {p : Program} {decl : AliasDecl} {name : String}

/-- The name of every alias is declared once. -/
def HasOwnAliases (p : Program) : Prop :=
  ∀ decl, .aliasDecl decl ∈ p → p.typeNames.count decl.name.name = 1

/-- An alias is the first and only declaration of its name. -/
theorem HasOwnAliases.get?_aliasTable (h : p.HasOwnAliases) :
    p.aliasTable.get? name = some decl ↔ p.first? name = some (.aliasDecl decl) := by
  have hfirst {name : String} {decl : AliasDecl} (hget : p.aliasTable.get? name = some decl) :
      p.first? name = some (.aliasDecl decl) := by
    obtain rfl := p.keyed_aliasTable name decl hget
    have hmem := mem_of_aliasTable hget
    exact first?_of_count hmem rfl (h decl hmem)
  refine ⟨hfirst, fun hname => ?_⟩
  obtain ⟨hmem, hdeclares⟩ := declares_of_first? hname
  obtain rfl : decl.name.name = name := by simpa [Stmt.declares, Stmt.typeIdent?] using hdeclares
  have howns : p.owns decl.name = true := owns_of_type? (by rw [type?_eq_first?, hname]; rfl)
  have hown : decl ∈ p.ownAliases :=
    List.mem_filter.2 ⟨List.mem_filterMap.2 ⟨_, hmem, rfl⟩, howns⟩
  have hsome : (p.aliasTable.get? decl.name.name).isSome :=
    (Table.isSome_get?_ofList _ _).2 (by simpa using ⟨decl, hown, rfl⟩)
  obtain ⟨found, hfound⟩ := Option.isSome_iff_exists.1 hsome
  have hsame := (hfirst hfound).symm.trans hname
  rw [hfound, Stmt.aliasDecl.inj (Option.some.inj hsame)]

end Program

namespace Declare

open Check

variable {r : Registry} {id : EnvId} {decls : Table AliasDecl} {decl : AliasDecl}
  {types types' : String → Option DeclaredType} {done earlier later : List AliasStep} {name : String}

/-! ## Settling aliases -/

/-- The types with another one for a name that is declared. -/
def withType (name : String) (ty : Ty) (types : String → Option DeclaredType) :
    String → Option DeclaredType :=
  fun other =>
    if other = name then (types other).map fun declared => { declared with ty := ty }
    else types other

/-- What names stand for once aliases were settled, the last one of the list first. -/
def typesAfter (r : Registry) (id : EnvId) (types : String → Option DeclaredType) :
    List AliasStep → String → Option DeclaredType
  | [] => types
  | .cycle _ :: earlier => typesAfter r id types earlier
  | .resolve decl :: earlier =>
    let before := typesAfter r id types earlier
    withType decl.name.name (decl.ty.reading (r.standsIn id before)) before

/-- The types of the other names are as they were. -/
theorem typesAfter_of_not_resolved (h : name ∉ resolvedNames done) :
    typesAfter r id types done name = types name := by
  induction done with
  | nil => rfl
  | cons step earlier ih =>
    cases step with
    | cycle decl => exact ih h
    | resolve decl =>
      obtain ⟨hne, hearlier⟩ : name ≠ decl.name.name ∧ name ∉ resolvedNames earlier := by
        simpa using h
      rw [typesAfter, withType, if_neg hne, ih hearlier]

/-- No name is declared or taken back. -/
theorem isSome_typesAfter (r : Registry) (id : EnvId) (types : String → Option DeclaredType)
    (done : List AliasStep) (name : String) :
    (typesAfter r id types done name).isSome = (types name).isSome := by
  induction done with
  | nil => rfl
  | cons step earlier ih =>
    cases step with
    | cycle decl => exact ih
    | resolve decl =>
      rw [← ih, typesAfter, withType]
      split <;> simp

/-- Settling more aliases changes nothing about the settled ones. -/
theorem typesAfter_append (hnodup : (settledNames (later ++ earlier)).Nodup)
    (h : name ∈ settledNames earlier) :
    typesAfter r id types (later ++ earlier) name = typesAfter r id types earlier name := by
  induction later with
  | nil => rfl
  | cons step later ih =>
    obtain ⟨hnew, hrest⟩ := List.nodup_cons.1 hnodup
    cases step with
    | cycle decl => exact ih hrest
    | resolve decl =>
      have hne : name ≠ decl.name.name := by
        rintro rfl
        exact hnew (by simpa [settledNames] using .inr (List.mem_map.1 h))
      rw [List.cons_append, typesAfter, withType, if_neg hne, ih hrest]

/-- No alias has a type yet. -/
def Unresolved (decls : Table AliasDecl) (types : String → Option DeclaredType) : Prop :=
  ∀ name, (decls.get? name).isSome → ∃ isPub, types name = some ⟨.invalid, isPub⟩

namespace Plan

/-- Of a plan, what comes first is one. -/
theorem of_append (h : Plan decls (later ++ earlier)) : Plan decls earlier := by
  induction later with
  | nil => exact h
  | cons step later ih =>
    cases h with
    | cycle htail | resolve htail => exact ih htail

/-- What is resolved is declared. -/
theorem declared_resolve (h : Plan decls (later ++ .resolve decl :: earlier)) :
    decls.get? decl.name.name = some decl := by
  have hstep : AliasStep.resolve decl ∈ later ++ .resolve decl :: earlier := by simp
  exact h.declared hstep

/-- What a resolved alias mentions is settled before it. -/
theorem after_resolve (h : Plan decls (.resolve decl :: earlier)) :
    ∀ mentioned ∈ localNames decl.ty, (decls.get? mentioned).isSome →
      mentioned ∈ settledNames earlier := by
  cases h with
  | resolve _ _ _ hafter => exact hafter

/-- The type that an alias gets. -/
theorem type_resolved (h : Plan decls (later ++ .resolve decl :: earlier)) {declared : DeclaredType}
    (htype : types decl.name.name = some declared) :
    typesAfter r id types (later ++ .resolve decl :: earlier) decl.name.name =
      some ⟨decl.ty.reading (r.standsIn id (typesAfter r id types earlier)), declared.isPub⟩ := by
  have hnew : decl.name.name ∉ settledNames earlier := by
    cases h.of_append with
    | resolve _ _ hnew => exact hnew
  rw [typesAfter_append h.nodup (by simp), typesAfter, withType, if_pos rfl,
    typesAfter_of_not_resolved fun hresolved => hnew (resolvedNames_subset _ hresolved), htype]
  rfl

/-- What is no alias keeps its type. -/
theorem typesAfter_of_get?_eq_none (h : Plan decls done) (hnone : decls.get? name = none) :
    typesAfter r id types done name = types name := by
  refine typesAfter_of_not_resolved fun hmem => ?_
  obtain ⟨step, hstep, rfl⟩ := List.mem_map.1 (resolvedNames_subset _ hmem)
  simp [h.declared hstep] at hnone

/-- An own alias is read alike when another one is settled and in the end, if it is settled by then or
never gets a type. -/
theorem standsIn_eq_iff (h : Plan decls (later ++ .resolve decl :: earlier))
    (hunresolved : Unresolved decls types) {env : Option String} (hown : r.IsOwn id env)
    (hsome : (decls.get? name).isSome) :
    let after := typesAfter r id types (later ++ .resolve decl :: earlier)
    r.standsIn id (typesAfter r id types earlier) env name = r.standsIn id after env name ↔
      name ∈ settledNames earlier ∨ (after name).map (·.ty) = some .invalid := by
  intro after
  obtain ⟨isPub, hbare⟩ := hunresolved name hsome
  by_cases hin : name ∈ settledNames earlier
  · have hsame : after name = typesAfter r id types earlier name := by
      have hnodup := h.nodup
      unfold after
      rw [List.append_cons] at hnodup ⊢
      exact typesAfter_append hnodup hin
    simp only [hin, true_or, iff_true]
    exact Registry.standsIn_congr fun _ => by rw [hsame]
  · have hbefore : typesAfter r id types earlier name = some ⟨.invalid, isPub⟩ :=
      (typesAfter_of_not_resolved fun hmem => hin (resolvedNames_subset _ hmem)).trans hbare
    obtain ⟨found, hfound⟩ : ∃ found, after name = some found :=
      Option.isSome_iff_exists.1 (by rw [isSome_typesAfter, hbare]; rfl)
    rw [Registry.standsIn_own hown hbefore, Registry.standsIn_own hown hfound, hfound,
      Option.map_some, Option.some.injEq, or_iff_right hin]
    exact eq_comm

/-- An alias stands for what its target is read as in the end exactly if each alias in the target that
is qualified with the name of the own environment is settled before it, or never gets a type. -/
theorem expands_iff (h : Plan decls (later ++ .resolve decl :: earlier))
    (hunresolved : Unresolved decls types) :
    let after := typesAfter r id types (later ++ .resolve decl :: earlier)
    (after decl.name.name).map (·.ty) = some (decl.ty.reading (r.standsIn id after)) ↔
      ∀ env other, (some env, other) ∈ decl.ty.leaves → r.lookup? env = some id →
        (decls.get? other).isSome →
        other ∈ settledNames earlier ∨ (after other).map (·.ty) = some .invalid := by
  intro after
  obtain ⟨isPub, htype⟩ :=
    hunresolved decl.name.name (Option.isSome_of_eq_some h.declared_resolve)
  have htyped : after decl.name.name = _ := h.type_resolved htype
  rw [htyped, Option.map_some, Option.some.injEq, TypeExpr.reading_eq_iff]
  constructor
  · intro hleaves env other hleaf hlookup hsome
    have hown : r.IsOwn id (some env) := hlookup
    exact (h.standsIn_eq_iff hunresolved hown hsome).1 (hleaves _ hleaf)
  · rintro hqualified ⟨env, other⟩ hleaf
    by_cases hown : r.IsOwn id env
    · by_cases hsome : (decls.get? other).isSome
      · refine (h.standsIn_eq_iff hunresolved hown hsome).2 ?_
        cases env with
        | none =>
          -- An unqualified alias is waited for.
          refine .inl (h.of_append.after_resolve other ?_ hsome)
          exact (decl.ty.mem_localNames other).2 (decl.ty.leaves_subset hleaf)
        | some env => exact hqualified env other hleaf hown hsome
      · have hnone := Option.not_isSome_iff_eq_none.1 hsome
        have hbefore : Plan decls earlier := (List.append_cons later _ earlier ▸ h).of_append
        refine Registry.standsIn_congr fun _ => ?_
        rw [hbefore.typesAfter_of_get?_eq_none hnone]
        exact congrArg (Option.map _) (h.typesAfter_of_get?_eq_none hnone).symm
    · exact Registry.standsIn_congr fun hin => absurd hin hown

end Plan

/-! ## Expansions -/

/-- Every alias stands for what its target is read as, with all aliases in it replaced by what they
stand for. -/
def IsExpansion (r : Registry) (id : EnvId) (decls : Table AliasDecl)
    (types : String → Option DeclaredType) : Prop :=
  ∀ name decl, decls.get? name = some decl →
    (types name).map (·.ty) = some (decl.ty.reading (r.standsIn id types))

/-- The target of one alias mentions another one, either without a qualifier or qualified with the name
of the own environment. -/
def Refers (r : Registry) (id : EnvId) (decls : Table AliasDecl) (a b : String) : Prop :=
  ∃ decl env, decls.get? a = some decl ∧ (env, b) ∈ decl.ty.mentions ∧ r.IsOwn id env ∧
    (decls.get? b).isSome

/-- Only the names of environments matter. -/
theorem Refers.of_lookup? {r' : Registry} {a b : String} (h : Refers r id decls a b)
    (hnames : ∀ env, r.lookup? env = r'.lookup? env) : Refers r' id decls a b := by
  obtain ⟨decl, env, hdecl, hmention, hown, hsome⟩ := h
  refine ⟨decl, env, hdecl, hmention, ?_, hsome⟩
  cases env with
  | none => trivial
  | some env => exact (hnames env).symm.trans hown

/-- If no name in the targets is qualified, aliases refer to those that are waited for. -/
theorem Refers.mentions {a b : String} (h : Refers r id decls a b)
    (hunqualified : ∀ name decl, decls.get? name = some decl → Unqualified [decl.ty]) :
    Mentions decls a b := by
  obtain ⟨decl, env, hdecl, hmention, -, hsome⟩ := h
  obtain rfl : env = none := hunqualified a decl hdecl decl.ty (by simp) _ hmention
  exact ⟨decl, hdecl, (decl.ty.mem_localNames b).2 hmention, hsome⟩

theorem Mentions.refers {a b : String} (h : Mentions decls a b) : Refers r id decls a b := by
  obtain ⟨decl, hdecl, hmentioned, hsome⟩ := h
  exact ⟨decl, none, hdecl, (decl.ty.mem_localNames b).1 hmentioned, trivial, hsome⟩

/-- Two tables declare the same aliases, wherever these stand. -/
def SameTargets (decls decls' : Table AliasDecl) : Prop :=
  ∀ name, (decls'.get? name).map (·.ty.unplaced) = (decls.get? name).map (·.ty.unplaced)

namespace SameTargets

variable {decls' : Table AliasDecl} {decl' : AliasDecl}

theorem symm (h : SameTargets decls decls') : SameTargets decls' decls := fun name => (h name).symm

theorem isSome_eq (h : SameTargets decls decls') (name : String) :
    (decls'.get? name).isSome = (decls.get? name).isSome := by
  simpa using congrArg Option.isSome (h name)

theorem exists_target (h : SameTargets decls decls') (hdecl : decls.get? name = some decl) :
    ∃ decl', decls'.get? name = some decl' ∧ decl'.ty.unplaced = decl.ty.unplaced := by
  refine Option.map_eq_some_iff.1 ((h name).trans ?_)
  rw [hdecl, Option.map_some]

/-- The same aliases mention each other. -/
theorem mentions (h : SameTargets decls decls') {a b : String} (hmentions : Mentions decls a b) :
    Mentions decls' a b := by
  obtain ⟨decl, hdecl, hmentioned, hsome⟩ := hmentions
  obtain ⟨decl', hdecl', hunplaced⟩ := h.exists_target hdecl
  refine ⟨decl', hdecl', ?_, (h.isSome_eq b).trans hsome⟩
  rwa [TypeExpr.mem_localNames, ← TypeExpr.mentions_unplaced, hunplaced,
    TypeExpr.mentions_unplaced, ← TypeExpr.mem_localNames]

/-- The same names are qualified. -/
theorem unqualified (h : SameTargets decls decls')
    (hunqualified : ∀ name decl, decls.get? name = some decl → Unqualified [decl.ty]) (name : String)
    (decl' : AliasDecl) (hdecl' : decls'.get? name = some decl') : Unqualified [decl'.ty] := by
  obtain ⟨decl, hdecl, hunplaced⟩ := h.symm.exists_target hdecl'
  intro written hwritten
  obtain rfl := List.mem_singleton.1 hwritten
  rw [← TypeExpr.mentions_unplaced, ← hunplaced, TypeExpr.mentions_unplaced]
  exact hunqualified name decl hdecl decl.ty (List.mem_singleton.2 rfl)

end SameTargets

/-- There are only so many aliases. -/
theorem finite_aliases (decls : Table AliasDecl) : {a | (decls.get? a).isSome}.Finite := by
  refine (decls.entries.map Prod.fst).finite_toSet.subset fun a ha => ?_
  obtain ⟨decl, hdecl⟩ := Option.isSome_iff_exists.1 ha
  obtain ⟨before, after, hentries, -⟩ := List.lookup_eq_some_iff.1 hdecl
  simp [hentries]

/-- Two environments in which all names but those of the aliases stand for the same. -/
structure SameOthers (r r' : Registry) (id : EnvId) (decls : Table AliasDecl)
    (types types' : String → Option DeclaredType) : Prop where
  names : ∀ env, r'.IsOwn id env ↔ r.IsOwn id env
  own : ∀ name, decls.get? name = none → (types' name).map (·.ty) = (types name).map (·.ty)
  elsewhere : ∀ env name, ¬r.IsOwn id env → r'.standsIn id types' env name = r.standsIn id types env name

/-- Aliases that do not refer to each other in circles are expanded in one way only, wherever they are
declared. -/
theorem IsExpansion.unique (hacyclic : ∀ a, ¬Relation.TransGen (Refers r id decls) a a)
    {r' : Registry} {decls' : Table AliasDecl} (hsame : SameTargets decls decls')
    (hothers : SameOthers r r' id decls types types') (h : IsExpansion r id decls types)
    (h' : IsExpansion r' id decls' types') (name : String) :
    (types' name).map (·.ty) = (types name).map (·.ty) := by
  let below (b a : String) : Prop := Relation.TransGen (Refers r id decls) a b
  have hstrict : IsStrictOrder String below :=
    { irrefl := hacyclic, trans := fun _ _ _ hba hcb => hcb.trans hba }
  have hfounded := (finite_aliases decls).wellFoundedOn (r := below)
  have halias : ∀ a ∈ {a | (decls.get? a).isSome},
      (types' a).map (·.ty) = (types a).map (·.ty) := by
    -- The induction is on what an alias leads to, through any number of targets.
    refine fun a ha => hfounded.induction (P := fun a => (types' a).map _ = (types a).map _) ha
      fun a ha ih => ?_
    obtain ⟨decl, hdecl⟩ := Option.isSome_iff_exists.1 ha
    obtain ⟨decl', hdecl', hunplaced⟩ := hsame.exists_target hdecl
    rw [h a decl hdecl, h' a decl' hdecl', ← decl'.ty.reading_unplaced, hunplaced,
      decl.ty.reading_unplaced, Option.some.injEq, TypeExpr.reading_eq_iff]
    rintro ⟨env, b⟩ hleaf
    by_cases hown : r.IsOwn id env
    · refine Registry.standsIn_congr_own ((hothers.names env).2 hown) hown ?_
      by_cases hb : (decls.get? b).isSome
      · exact ih b hb (.single ⟨decl, env, hdecl, decl.ty.leaves_subset hleaf, hown, hb⟩)
      · exact hothers.own b (Option.not_isSome_iff_eq_none.1 hb)
    · exact hothers.elsewhere env b hown
  by_cases hname : (decls.get? name).isSome
  · exact halias name hname
  · exact hothers.own name (Option.not_isSome_iff_eq_none.1 hname)

/-- If no name in the targets is qualified, other environments do not matter. -/
theorem IsExpansion.of_unqualified (h : IsExpansion r id decls types)
    (hunqualified : ∀ name decl, decls.get? name = some decl → Unqualified [decl.ty])
    (r' : Registry) (id' : EnvId) : IsExpansion r' id' decls types := by
  intro name decl hdecl
  rw [h name decl hdecl, Option.some.injEq, TypeExpr.reading_eq_iff]
  rintro ⟨env, other⟩ hleaf
  obtain rfl : env = none :=
    hunqualified name decl hdecl decl.ty (by simp) _ (decl.ty.leaves_subset hleaf)
  rfl

/-- Each alias that a target qualifies with the name of the own environment is settled before the
target is resolved, or never gets a type. -/
def QualifiedInOrder (r : Registry) (id : EnvId) (decls : Table AliasDecl)
    (types : String → Option DeclaredType) (done : List AliasStep) : Prop :=
  ∀ later decl earlier, done = later ++ .resolve decl :: earlier →
    ∀ env other, (some env, other) ∈ decl.ty.leaves → r.lookup? env = some id →
      (decls.get? other).isSome →
      other ∈ settledNames earlier ∨ (types other).map (·.ty) = some .invalid

namespace Plan

/-- Where no alias leads back to itself, all that are settled are resolved. -/
theorem exists_resolve (h : Plan decls done)
    (hacyclic : ∀ a, ¬Relation.TransGen (Mentions decls) a a) (hdecl : decls.get? name = some decl)
    (hsettled : name ∈ settledNames done) :
    decl.name.name = name ∧ ∃ later earlier, done = later ++ .resolve decl :: earlier := by
  obtain ⟨step, hstep, rfl⟩ := List.mem_map.1 hsettled
  obtain ⟨later, earlier, hdone⟩ := List.append_of_mem hstep
  obtain rfl : step.decl = decl := Option.some.inj ((h.declared hstep).symm.trans hdecl)
  cases step with
  | cycle decl => exact absurd (h.leads hstep) (hacyclic _)
  | resolve decl => exact ⟨rfl, later, earlier, hdone⟩

/-- Acyclic aliases are expanded exactly if the qualified ones are settled in order. -/
theorem isExpansion_iff (h : Plan decls done)
    (hacyclic : ∀ a, ¬Relation.TransGen (Mentions decls) a a)
    (hall : ∀ a, (decls.get? a).isSome → a ∈ settledNames done)
    (hunresolved : Unresolved decls types) :
    IsExpansion r id decls (typesAfter r id types done) ↔
      QualifiedInOrder r id decls (typesAfter r id types done) done := by
  constructor
  · rintro hexpansion later decl earlier rfl
    exact (h.expands_iff hunresolved).1 (hexpansion _ decl h.declared_resolve)
  · intro hordered name decl hdecl
    obtain ⟨rfl, later, earlier, rfl⟩ :=
      h.exists_resolve hacyclic hdecl (hall name (Option.isSome_of_eq_some hdecl))
    exact (h.expands_iff hunresolved).2 (hordered later decl earlier rfl)

end Plan

/-! ## Environments -/

/-- Nothing but an alias is declared under the names of the aliases, and there are no others. -/
structure OnlyAliases (decls : Table AliasDecl) (e : Environment) : Prop where
  alone : ∀ name, (decls.get? name).isSome →
    e.classes.get? name = none ∧ e.entities.get? name = none ∧ e.enums.get? name = none
  all : ∀ name, decls.get? name = none → e.aliases.get? name = none

variable {e e' : Environment} {p : Program}

namespace OnlyAliases

theorem declaredType? (h : OnlyAliases decls e) (hsome : (decls.get? name).isSome) :
    e.declaredType? name = (e.aliases.get? name).map fun info => ⟨info.ty, info.isPub⟩ := by
  obtain ⟨hclass, hentity, henum⟩ := h.alone name hsome
  simp [Environment.declaredType?, hclass, hentity, henum]

theorem withAlias (h : OnlyAliases decls e) (name : String) (ty : Ty) :
    OnlyAliases decls (Declare.withAlias name ty e) := by
  refine ⟨h.alone, fun other hnone => ?_⟩
  rw [get?_withAlias, h.all other hnone]
  split <;> rfl

/-- An alias that gets a type stands for it. -/
theorem declaredType?_withAlias (h : OnlyAliases decls e) (hsome : (decls.get? name).isSome)
    (ty : Ty) :
    (Declare.withAlias name ty e).declaredType? = withType name ty e.declaredType? := by
  funext other
  unfold withType
  split
  · next heq =>
    subst heq
    rw [(h.withAlias other ty).declaredType? hsome, h.declaredType? hsome, get?_withAlias, if_pos rfl]
    cases e.aliases.get? other <;> rfl
  · next hne =>
    simp only [Environment.declaredType?, get?_withAlias, if_neg hne]
    rfl

end OnlyAliases

/-- Once the types of a program are claimed, no alias has a type, and nothing else has its name. -/
theorem Claimed.onlyAliases (h : Claimed id p e e') (hnames : p.HasOwnAliases) :
    OnlyAliases p.aliasTable e' ∧ Unresolved p.aliasTable e'.declaredType? := by
  have hfirst {name : String} (hsome : (p.aliasTable.get? name).isSome) :
      ∃ decl, p.first? name = some (.aliasDecl decl) := by
    obtain ⟨decl, hdecl⟩ := Option.isSome_iff_exists.1 hsome
    exact ⟨decl, hnames.get?_aliasTable.1 hdecl⟩
  have honly : OnlyAliases p.aliasTable e' := by
    refine ⟨fun name hsome => ?_, fun name hnone => ?_⟩
    · obtain ⟨decl, hdecl⟩ := hfirst hsome
      rw [h.classes, h.entities, h.enums, hdecl]
      exact ⟨rfl, rfl, rfl⟩
    · rw [h.aliases]
      cases hname : p.first? name with
      | none => rfl
      | some stmt =>
        cases stmt with
        | aliasDecl decl => simp [hnames.get?_aliasTable.2 hname] at hnone
        | _ => rfl
  refine ⟨honly, fun name hsome => ?_⟩
  obtain ⟨decl, hdecl⟩ := hfirst hsome
  exact ⟨decl.isPub, by rw [honly.declaredType? hsome, h.aliases, hdecl]; rfl⟩

/-- What names stand for before aliases are resolved. -/
theorem Claimed.map_declaredType? (h : Claimed id p e e') (hid : e'.id = id) (name : String) :
    (e'.declaredType? name).map (·.ty) = (p.first? name).bind (·.claimedTy? id) := by
  rw [Environment.declaredType?, h.classes, h.entities, h.enums, h.aliases, hid]
  cases hname : p.first? name with
  | none => rfl
  | some stmt =>
    obtain ⟨-, hdeclares⟩ := Program.declares_of_first? hname
    cases stmt <;> simp_all [Stmt.declares, Stmt.typeIdent?, Stmt.claimedTy?, Stmt.classInfo?,
      Stmt.entityInfo?, Stmt.enumInfo?, Stmt.aliasInfo?]

end Declare

end HybroidSema
