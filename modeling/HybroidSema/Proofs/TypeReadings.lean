import HybroidSema.Declare.Aliases
import HybroidSema.Proofs.FirstClaims

/-!
# What a written type is read as

The names in a written type that are looked up are its leaves; the rest of it, keywords and
containers, reads the same everywhere. So a written type is read alike in two places exactly if every
leaf is.

* `TypeExpr.mentions` and `TypeExpr.leaves`: all names in a written type, and the ones that are
  looked up.
* `TypeExpr.reading` and `reading_eq_iff`.
* `Outlook` and `finds_resolveType`: resolving a written type reads it, if looking up its leaves
  finds what they are.
-/

namespace HybroidSema

namespace TypeExpr

open Check

/-! ## Names -/

mutual
/-- The names in a written type with what qualifies them, outermost first. -/
def mentions (written : TypeExpr) : List (Option String × String) :=
  match written with
  | ⟨env, name, wrapped, params, returns, _, _⟩ =>
    (env.map (·.name), name.name) ::
      (mentionsAll wrapped ++ mentionsAll params ++ mentionsAll returns)
  termination_by structural written

/-- The names in several written types. -/
def mentionsAll (written : List TypeExpr) : List (Option String × String) :=
  match written with
  | [] => []
  | first :: rest => first.mentions ++ mentionsAll rest
  termination_by structural written
end

mutual
/-- The names in a written type that are looked up. -/
def leaves (written : TypeExpr) : List (Option String × String) :=
  match written with
  | ⟨env, name, wrapped, params, returns, _, _⟩ =>
    match env, containerKeyword? name.name with
    | some env, _ => [(some env.name, name.name)]
    | none, some _ =>
      match wrapped with
      | [elem] => elem.leaves
      | _ => []
    | none, none =>
      match keywordType? name.name with
      | some _ => []
      | none =>
        if name.name == "fn" then leavesAll params ++ leavesAll returns else [(none, name.name)]
  termination_by structural written

/-- The names in several written types that are looked up. -/
def leavesAll (written : List TypeExpr) : List (Option String × String) :=
  match written with
  | [] => []
  | first :: rest => first.leaves ++ leavesAll rest
  termination_by structural written
end

/-! ## Readings -/

mutual
/-- The type that a written type is read as, given what its leaves are. -/
def reading (look : Option String → String → Ty) (written : TypeExpr) : Ty :=
  match written with
  | ⟨env, name, wrapped, params, returns, isVariadic, _⟩ =>
    let ty := match env, containerKeyword? name.name with
      | some env, _ => look (some env.name) name.name
      | none, some kind =>
        match wrapped with
        | [elem] => .container kind (elem.reading look)
        | _ => .invalid
      | none, none =>
        match keywordType? name.name with
        | some ty => ty
        | none =>
          if name.name == "fn" then .fn (readings look params) (readings look returns)
          else look none name.name
    if isVariadic then .variadic ty else ty
  termination_by structural written

/-- What several written types are read as. -/
def readings (look : Option String → String → Ty) (written : List TypeExpr) : List Ty :=
  match written with
  | [] => []
  | first :: rest => first.reading look :: readings look rest
  termination_by structural written
end

mutual
/-- Two readings of a written type are the same exactly if they agree on its leaves. -/
theorem reading_eq_iff (look look' : Option String → String → Ty) (written : TypeExpr) :
    written.reading look = written.reading look' ↔
      ∀ leaf ∈ written.leaves, look leaf.1 leaf.2 = look' leaf.1 leaf.2 :=
  match written with
  | ⟨env, name, wrapped, params, returns, isVariadic, span⟩ => by
    have hwrapped := reading_eq_iff_of_mem look look' wrapped
    have hparams := readings_eq_iff look look' params
    have hreturns := readings_eq_iff look look' returns
    have hvariadic (ty ty' : Ty) : (if isVariadic then Ty.variadic ty else ty) =
        (if isVariadic then .variadic ty' else ty') ↔ ty = ty' := by
      cases isVariadic <;> simp
    unfold reading leaves
    rw [hvariadic]
    split
    · simp
    · split
      · simpa using hwrapped _ (by simp)
      · simp
    · split
      · simp
      · split
        · simp only [Ty.fn, Ty.function.injEq, hparams, hreturns, and_true, List.forall_mem_append]
        · simp
  termination_by structural written

/-- Each of several written types. -/
theorem reading_eq_iff_of_mem (look look' : Option String → String → Ty)
    (written : List TypeExpr) : ∀ w ∈ written, w.reading look = w.reading look' ↔
      ∀ leaf ∈ w.leaves, look leaf.1 leaf.2 = look' leaf.1 leaf.2 :=
  match written with
  | [] => by simp
  | first :: rest => List.forall_mem_cons.2
    ⟨reading_eq_iff look look' first, reading_eq_iff_of_mem look look' rest⟩
  termination_by structural written

/-- Several written types together. -/
theorem readings_eq_iff (look look' : Option String → String → Ty) (written : List TypeExpr) :
    readings look written = readings look' written ↔
      ∀ leaf ∈ leavesAll written, look leaf.1 leaf.2 = look' leaf.1 leaf.2 :=
  match written with
  | [] => by simp [readings, leavesAll]
  | first :: rest => by
    have hfirst := reading_eq_iff look look' first
    have hrest := readings_eq_iff look look' rest
    rw [readings, readings, leavesAll, List.cons.injEq, hfirst, hrest, List.forall_mem_append]
  termination_by structural written
end

mutual
/-- Every leaf is a name in the written type. -/
theorem leaves_subset (written : TypeExpr) : written.leaves ⊆ written.mentions :=
  match written with
  | ⟨env, name, wrapped, params, returns, isVariadic, span⟩ => by
    have hwrapped := leavesAll_subset wrapped
    have hparams := leavesAll_subset params
    have hreturns := leavesAll_subset returns
    unfold leaves mentions
    intro leaf hleaf
    split at hleaf
    · exact List.mem_cons.2 (.inl (List.mem_singleton.1 hleaf))
    · split at hleaf
      · next _ elem =>
        have hin : leaf ∈ leavesAll [elem] := by simpa [leavesAll] using hleaf
        exact List.mem_cons_of_mem _ (by simp [hwrapped hin])
      · cases hleaf
    · split at hleaf
      · cases hleaf
      · split at hleaf
        · refine List.mem_cons_of_mem _ ?_
          rcases List.mem_append.1 hleaf with hin | hin
          · simp [hparams hin]
          · simp [hreturns hin]
        · exact List.mem_cons.2 (.inl (List.mem_singleton.1 hleaf))
  termination_by structural written

theorem leavesAll_subset (written : List TypeExpr) : leavesAll written ⊆ mentionsAll written :=
  match written with
  | [] => by simp [leavesAll]
  | first :: rest => by
    have hfirst := leaves_subset first
    have hrest := leavesAll_subset rest
    rw [leavesAll, mentionsAll]
    exact List.append_subset.2 ⟨List.subset_append_of_subset_left _ hfirst,
      List.subset_append_of_subset_right _ hrest⟩
  termination_by structural written
end

theorem mem_leavesAll {written : List TypeExpr} {leaf : Option String × String} :
    leaf ∈ leavesAll written ↔ ∃ w ∈ written, leaf ∈ w.leaves := by
  induction written with
  | nil => simp [leavesAll]
  | cons first rest ih => simp [leavesAll, ih]

mutual
/-- The unqualified names are what aliases are followed by. -/
theorem mem_localNames (written : TypeExpr) (name : String) :
    name ∈ Declare.localNames written ↔ (none, name) ∈ written.mentions :=
  match written with
  | ⟨env, own, wrapped, params, returns, isVariadic, span⟩ => by
    have hwrapped := mem_localNamesAll wrapped name
    have hparams := mem_localNamesAll params name
    have hreturns := mem_localNamesAll returns name
    unfold Declare.localNames mentions
    cases env <;> simp [hwrapped, hparams, hreturns]
  termination_by structural written

theorem mem_localNamesAll (written : List TypeExpr) (name : String) :
    name ∈ Declare.localNamesAll written ↔ (none, name) ∈ mentionsAll written :=
  match written with
  | [] => by simp [Declare.localNamesAll, mentionsAll]
  | first :: rest => by
    have hfirst := mem_localNames first name
    have hrest := mem_localNamesAll rest name
    simp [Declare.localNamesAll, mentionsAll, hfirst, hrest]
  termination_by structural written
end

end TypeExpr

/-! ## Resolving is reading -/

namespace Check

variable {α β : Type} {c : Context} {m : Check α} {f : State → α}

/-- A part of a run in which look-ups give lasting answers: an invariant of its states, which of them
may come after which, and what a name stands for in each. -/
structure Outlook (c : Context) where
  inv : State → Prop
  later : State → State → Prop
  look : State → Option String → String → Ty
  refl : ∀ s, later s s
  trans : ∀ {s t u}, later s t → later t u → later s u
  alerts : ∀ s added, inv s → inv (s.addAlerts added) ∧ later s (s.addAlerts added)

namespace Outlook

variable (w : Outlook c)

/-- The check runs from every state of the part, and its result is what a function of the state gives
then and ever after. -/
def Finds (m : Check α) (f : State → α) : Prop :=
  ∀ s, w.inv s → Runs m c s fun a t =>
    w.inv t ∧ w.later s t ∧ ∀ u, w.later t u → a = f u

/-- Looking up the name finds what it stands for. -/
def FindsName : Option String × String → Prop
  | (some env, name) => ∀ envSpan nameSpan,
    w.Finds (qualifiedType ⟨env, envSpan⟩ ⟨name, nameSpan⟩) (w.look · (some env) name)
  | (none, name) => ∀ span, w.Finds (namedType ⟨name, span⟩) (w.look · none name)

variable {w}

theorem Finds.pure (a : α) : w.Finds (pure a) fun _ => a :=
  fun s hs => .pure ⟨hs, w.refl s, fun _ _ => rfl⟩

theorem Finds.bind {k : α → Check β} {g : α → State → β} (hm : w.Finds m f)
    (hk : ∀ a, w.Finds (k a) (g a)) : w.Finds (m >>= k) fun u => g (f u) u := by
  intro s hs
  refine (hm s hs).bind fun a t ⟨ht, hst, ha⟩ => ?_
  refine (hk a t ht).mono fun b u ⟨hu, htu, hb⟩ => ⟨hu, w.trans hst htu, fun v huv => ?_⟩
  rw [hb v huv, ha v (w.trans htu huv)]

theorem Finds.alert (a : Alert) : w.Finds (alert a) fun _ => () := by
  intro s hs
  obtain ⟨hinv, hlater⟩ := w.alerts s [a] hs
  exact ⟨(), _, alert_eq a, hinv, hlater, fun _ _ => rfl⟩

theorem Finds.report (kind : AlertKind) (span : Span) : w.Finds (report kind span) fun _ => () :=
  .alert _

/-- A report that is made under a condition, before the rest. -/
theorem Finds.guard {b : Prop} [Decidable b] {kind : AlertKind} {span : Span}
    {k : PUnit → Check α} (hk : w.Finds (k ⟨⟩) f) :
    w.Finds (if b then Check.report kind span >>= k else k ⟨⟩) f := by
  split
  · exact (Finds.report kind span).bind fun _ => hk
  · exact hk

theorem finds_resolveTypes_of {written : List TypeExpr}
    (h : ∀ ty ∈ written, w.Finds (resolveType ty) fun u => ty.reading (w.look u)) :
    w.Finds (resolveTypes written) fun u => TypeExpr.readings (w.look u) written := by
  induction written with
  | nil => exact .pure _
  | cons first rest ih =>
    have hrest := ih fun other hother => h other (by simp [hother])
    unfold resolveTypes
    simp only [TypeExpr.readings]
    exact (h first (by simp)).bind (g := fun ty u => ty :: TypeExpr.readings (w.look u) rest)
      fun ty => hrest.bind fun tys => .pure (ty :: tys)

mutual
/-- Resolving a written type reads it. -/
theorem finds_resolveType (written : TypeExpr) (h : ∀ leaf ∈ written.leaves, w.FindsName leaf) :
    w.Finds (resolveType written) fun u => written.reading (w.look u) :=
  match written with
  | ⟨env, name, wrapped, params, returns, isVariadic, span⟩ => by
    have hwrapped := finds_resolveType_of_mem wrapped
    have hparams := finds_resolveType_of_mem params
    have hreturns := finds_resolveType_of_mem returns
    have hvariadic {m : Check Ty} {f : State → Ty} (hm : w.Finds m f) :
        w.Finds (m >>= fun ty => pure (if isVariadic then Ty.variadic ty else ty)) fun u =>
          if isVariadic then .variadic (f u) else f u :=
      hm.bind (g := fun ty _ => if isVariadic then Ty.variadic ty else ty) fun ty => .pure _
    unfold TypeExpr.leaves at h
    unfold resolveType TypeExpr.reading
    cases env with
    | some env => exact hvariadic (h _ (List.mem_singleton_self _) _ _)
    | none =>
      cases hcontainer : containerKeyword? name.name with
      | some kind =>
        simp only [hcontainer] at h ⊢
        match wrapped with
        | [elem] =>
          have helem := hwrapped (by simpa [TypeExpr.leavesAll] using h) elem (by simp)
          exact helem.bind fun ty => hvariadic (.pure (.container kind ty))
        | [] | _ :: _ :: _ => exact (Finds.report _ _).bind fun _ => hvariadic (.pure .invalid)
      | none =>
        simp only [hcontainer] at h ⊢
        refine .guard ?_
        cases hkeyword : keywordType? name.name with
        | some ty => exact hvariadic (.pure ty)
        | none =>
          simp only [hkeyword] at h ⊢
          by_cases hfn : (name.name == "fn") = true
          · simp only [hfn, if_true, List.forall_mem_append] at h ⊢
            exact (finds_resolveTypes_of (hparams h.1)).bind fun params =>
              (finds_resolveTypes_of (hreturns h.2)).bind fun returns =>
                hvariadic (.pure (.fn params returns))
          · simp only [hfn, Bool.false_eq_true, if_false] at h ⊢
            exact hvariadic (h _ (List.mem_singleton_self _) _)
  termination_by structural written

/-- Each of several written types. -/
theorem finds_resolveType_of_mem (written : List TypeExpr)
    (h : ∀ leaf ∈ TypeExpr.leavesAll written, w.FindsName leaf) :
    ∀ ty ∈ written, w.Finds (resolveType ty) fun u => ty.reading (w.look u) :=
  match written with
  | [] => by simp
  | first :: rest => by
    have hfirst := finds_resolveType first
    have hrest := finds_resolveType_of_mem rest
    rw [TypeExpr.leavesAll, List.forall_mem_append] at h
    exact List.forall_mem_cons.2 ⟨hfirst h.1, hrest h.2⟩
  termination_by structural written
end

theorem finds_resolveTypes (written : List TypeExpr)
    (h : ∀ leaf ∈ TypeExpr.leavesAll written, w.FindsName leaf) :
    w.Finds (resolveTypes written) fun u => TypeExpr.readings (w.look u) written :=
  finds_resolveTypes_of (finds_resolveType_of_mem written h)

end Outlook

end Check

end HybroidSema
