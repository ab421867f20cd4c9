import HybroidSema.Proofs.Registered

/-!
# What stays declared

What an environment has declared stays declared, whatever is walked afterwards: the variables of its
root scope, its enums and its types are still there, public if they were public. Its links stay too,
and its name and its kind never change.

* `Environment.Lasts` and `Registry.Lasts`: one state of environments is a later one of another.
* `Check.Edit.lasts`: every change that a check makes to its own environment.
* `Registry.lasts_modify`: one environment is changed and takes nothing back.
-/

namespace HybroidSema

/-! ## Environments -/

namespace Environment

variable {e e' e'' : Environment} {name : String}

/-- Whether a class, entity, enum or alias is public, if the name is declared as one. -/
def typeIsPub? (e : Environment) (name : String) : Option Bool :=
  (e.classes.get? name).map (·.isPub) <|> (e.entities.get? name).map (·.isPub) <|>
    (e.enums.get? name).map (·.isPub) <|> (e.aliases.get? name).map (·.isPub)

theorem map_isPub_declaredType? (e : Environment) (name : String) :
    (e.declaredType? name).map (·.isPub) = e.typeIsPub? name := by
  unfold declaredType? typeIsPub?
  cases e.classes.get? name <;> cases e.entities.get? name <;> cases e.enums.get? name <;>
    cases e.aliases.get? name <;> rfl

theorem typeIsPub?_eq_none (h : e.declaredSpan? name = none) : e.typeIsPub? name = none := by
  unfold declaredSpan? at h
  unfold typeIsPub?
  cases hc : e.classes.get? name <;> cases he : e.entities.get? name <;>
    cases hn : e.enums.get? name <;> cases ha : e.aliases.get? name <;> simp_all

/-- The environment at a later time. -/
structure Lasts (e e' : Environment) : Prop where
  id : e'.id = e.id
  name : e'.name = e.name
  kind : e'.kind = e.kind
  requirements : e.requirements ⊆ e'.requirements
  imports : e.imports ⊆ e'.imports
  root : e.scopes.KeepsRoot e'.scopes
  enums : ∀ name info, e.enums.get? name = some info → e'.enums.get? name = some info
  types : ∀ name isPub, e.typeIsPub? name = some isPub → e'.typeIsPub? name = some isPub

theorem Lasts.refl (e : Environment) : e.Lasts e :=
  ⟨rfl, rfl, rfl, .refl _, .refl _, .of_bindings_eq rfl, fun _ _ h => h, fun _ _ h => h⟩

theorem Lasts.trans (h : e.Lasts e') (h' : e'.Lasts e'') : e.Lasts e'' where
  id := h'.id.trans h.id
  name := h'.name.trans h.name
  kind := h'.kind.trans h.kind
  requirements := List.Subset.trans h.requirements h'.requirements
  imports := List.Subset.trans h.imports h'.imports
  root := h.root.trans h'.root
  enums name info hinfo := h'.enums name info (h.enums name info hinfo)
  types name isPub hpub := h'.types name isPub (h.types name isPub hpub)

/-- A variable of the root scope, with what it was declared as. -/
theorem Lasts.rootVariable? (h : e.Lasts e') {v : Variable} (hv : e.rootVariable? name = some v) :
    ∃ v', e'.rootVariable? name = some v' ∧ v'.isPub = v.isPub := by
  obtain ⟨v', hv', hsettled⟩ := h.root name v hv
  have hpub : v'.settled.isPub = v.settled.isPub := by rw [hsettled]
  exact ⟨v', hv', hpub⟩

/-- A declared type. -/
theorem Lasts.declaredType? (h : e.Lasts e') {declared : DeclaredType}
    (hd : e.declaredType? name = some declared) :
    ∃ declared', e'.declaredType? name = some declared' ∧ declared'.isPub = declared.isPub := by
  have hpub : e.typeIsPub? name = some declared.isPub := by
    rw [← map_isPub_declaredType?, hd]
    rfl
  have hlater := h.types name _ hpub
  rw [← map_isPub_declaredType?] at hlater
  exact Option.map_eq_some_iff.1 hlater

end Environment

namespace Check

variable {c : Context} {s : State} {phase : Phase} {env : Environment}

/-- No change of the own environment takes back what it has. -/
theorem Edit.lasts {f : Environment → Environment} (h : Edit c phase s f)
    (hown : s.own? c = some env) : env.Lasts (f env) := by
  have hroot := (h.keepsRoot hown).keepsRoot
  have hrefl := Environment.Lasts.refl env
  -- A claimed name was free, so what had a name before has it still.
  have hclaimed {claimed : String} (hfree : s.IsFree c claimed) {name : String} {isPub : Bool}
      (hpub : env.typeIsPub? name = some isPub) : name ≠ claimed := by
    rintro rfl
    rw [Environment.typeIsPub?_eq_none (hfree env hown)] at hpub
    cases hpub
  cases h with
  | scopes => exact { hrefl with root := hroot }
  | require =>
    simp only [Environment.require]
    split
    · exact { hrefl with requirements := List.subset_append_left _ _ }
    · exact hrefl
  | addImport =>
    simp only [Environment.addImport]
    split
    · exact { hrefl with imports := List.subset_append_left _ _ }
    · exact hrefl
  | setField kind =>
    cases kind <;>
      exact { hrefl with
        root := .of_bindings_eq rfl
        types := by simp [Environment.typeIsPub?, Environment.modifyMembers, map_get?_modify] }
  | claimClass name info _ hfree =>
    refine { hrefl with root := .of_bindings_eq rfl, types := fun other isPub hpub => ?_ }
    simpa [Environment.typeIsPub?, Table.get?_insert, hclaimed hfree hpub] using hpub
  | claimEntity name info _ hfree =>
    refine { hrefl with root := .of_bindings_eq rfl, types := fun other isPub hpub => ?_ }
    simpa [Environment.typeIsPub?, Table.get?_insert, hclaimed hfree hpub] using hpub
  | claimEnum name info _ hfree =>
    have hother {other : String} {info : EnumInfo} (hinfo : env.enums.get? other = some info) :
        other ≠ name := by
      rintro rfl
      have hnone := hfree env hown
      simp [Environment.declaredSpan?, hinfo] at hnone
    refine { hrefl with
      root := .of_bindings_eq rfl
      enums := fun other info hinfo => ?_
      types := fun other isPub hpub => ?_ }
    · simpa [Table.get?_insert, hother hinfo] using hinfo
    · simpa [Environment.typeIsPub?, Table.get?_insert, hclaimed hfree hpub] using hpub
  | claimAlias name info _ hfree =>
    refine { hrefl with root := .of_bindings_eq rfl, types := fun other isPub hpub => ?_ }
    simpa [Environment.typeIsPub?, Table.get?_insert, hclaimed hfree hpub] using hpub
  | fillClass _ _ _ hkept | fillEntity _ _ _ hkept =>
    exact { hrefl with
      root := .of_bindings_eq rfl
      types := by simp [Environment.typeIsPub?, map_get?_modify, hkept] }
  | fillAlias =>
    exact { hrefl with
      root := .of_bindings_eq rfl
      types := by simp [Environment.typeIsPub?, map_get?_modify] }

end Check

/-! ## Registries -/

namespace Registry

variable {r r' r'' : Registry}

/-- The registry at a later time. -/
structure Lasts (r r' : Registry) : Prop where
  length : r'.envs.length = r.envs.length
  envs : ∀ id e, r.get? id = some e → ∃ e', r'.get? id = some e' ∧ e.Lasts e'

theorem Lasts.of_envs_eq (h : r'.envs = r.envs) : r.Lasts r' :=
  ⟨congrArg List.length h, fun id e he => ⟨e, (get?_of_envs_eq h id).trans he, .refl e⟩⟩

theorem Lasts.trans (h : r.Lasts r') (h' : r'.Lasts r'') : r.Lasts r'' := by
  refine ⟨h'.length.trans h.length, fun id e he => ?_⟩
  obtain ⟨e', he', hlasts⟩ := h.envs id e he
  obtain ⟨e'', he'', hlasts'⟩ := h'.envs id e' he'
  exact ⟨e'', he'', hlasts.trans hlasts'⟩

/-- One environment is changed, and takes nothing back. -/
theorem lasts_modify {target : EnvId} {f : Environment → Environment}
    (hf : ∀ e, r.get? target = some e → e.Lasts (f e)) : r.Lasts (r.modify target f) := by
  refine ⟨?_, fun id e he => ?_⟩
  · unfold modify
    split
    · simp
    · rfl
  · by_cases hid : id = target
    · subst hid
      exact ⟨f e, by rw [get?_modify_self, he]; rfl, hf e he⟩
    · exact ⟨e, (get?_modify_ne r f hid).trans he, .refl e⟩

end Registry

end HybroidSema
