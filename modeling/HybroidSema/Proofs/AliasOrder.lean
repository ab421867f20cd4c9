import HybroidSema.Declare.Aliases
import HybroidSema.Proofs.Run
import Mathlib.Data.List.Cycle
import Mathlib.Logic.Relation

/-!
# The order in which aliases are settled

An alias is settled in one of two ways: its target is resolved, or it is met again while that target
is still being followed and is reported. Which of the two happens, and in which order, is decided by
what the targets mention; what they resolve to plays no part in it.

* `AliasStep` and `performAll`: the two ways, and what is done.
* `Settles`: the aliases that are settled when names are followed one after the other, without a
  bound on how deep targets are followed.
* `settles_resolveAlias`: a bound as large as the number of aliases is never reached, and what is
  done is what the settled aliases say.
* `Mentions` and `Plan`: an alias is resolved after all that it mentions, and reported only if it
  leads back to itself.
* `Plan.exists_cycle`: aliases that mention each other are not all resolved.
-/

namespace HybroidSema.Declare

open Check

/-- How an alias is settled. -/
inductive AliasStep where
  /-- It leads back to itself: it is reported and keeps the sentinel. -/
  | cycle (decl : AliasDecl)
  /-- It gets the type of its target. -/
  | resolve (decl : AliasDecl)

namespace AliasStep

/-- The alias that is settled. -/
def decl : AliasStep → AliasDecl
  | .cycle decl | .resolve decl => decl

/-- Its name. -/
def name (step : AliasStep) : String := step.decl.name.name

/-- What is done to settle an alias. -/
def perform : AliasStep → Check Unit
  | .cycle decl => report (.invalidType decl.name.name) decl.name.span
  | .resolve decl => do
    let ty ← resolveType decl.ty
    setAlias decl.name.name ty

end AliasStep

/-- The names of the aliases that are settled. -/
def settledNames (done : List AliasStep) : List String := done.map AliasStep.name

@[simp] theorem settledNames_cycle (decl : AliasDecl) (done : List AliasStep) :
    settledNames (.cycle decl :: done) = decl.name.name :: settledNames done := rfl

@[simp] theorem settledNames_resolve (decl : AliasDecl) (done : List AliasStep) :
    settledNames (.resolve decl :: done) = decl.name.name :: settledNames done := rfl

/-- The names of the aliases that are resolved. -/
def resolvedNames (done : List AliasStep) : List String :=
  done.filterMap fun
    | .resolve decl => some decl.name.name
    | .cycle _ => none

@[simp] theorem resolvedNames_cycle (decl : AliasDecl) (done : List AliasStep) :
    resolvedNames (.cycle decl :: done) = resolvedNames done := rfl

@[simp] theorem resolvedNames_resolve (decl : AliasDecl) (done : List AliasStep) :
    resolvedNames (.resolve decl :: done) = decl.name.name :: resolvedNames done := rfl

theorem resolvedNames_subset (done : List AliasStep) : resolvedNames done ⊆ settledNames done := by
  induction done with
  | nil => exact List.nil_subset _
  | cons step earlier ih =>
    cases step with
    | cycle decl => exact List.subset_cons_of_subset _ ih
    | resolve decl => exact List.cons_subset_cons _ ih

/-- Settle aliases, the last one of the list first. -/
def performAll : List AliasStep → Check Unit
  | [] => pure ()
  | step :: earlier => do
    performAll earlier
    step.perform

theorem performAll_append (later earlier : List AliasStep) :
    performAll (later ++ earlier) = performAll earlier >>= fun _ => performAll later := by
  induction later with
  | nil => simp [performAll]
  | cons step later ih => simp [performAll, ih]

/-! ## Following names -/

/-- From the aliases settled so far, the last one first, following the names settles those of the
second list. An alias of `visiting` has a target that is being followed. -/
inductive Settles (decls : Table AliasDecl) :
    (visiting names : List String) → (done done' : List AliasStep) → Prop
  | nil {visiting : List String} {done : List AliasStep} : Settles decls visiting [] done done
  | known {visiting rest : List String} {name : String} {done done' : List AliasStep}
      (known : name ∈ settledNames done) (tail : Settles decls visiting rest done done') :
    Settles decls visiting (name :: rest) done done'
  | other {visiting rest : List String} {name : String} {done done' : List AliasStep}
      (other : decls.get? name = none) (tail : Settles decls visiting rest done done') :
    Settles decls visiting (name :: rest) done done'
  | cycle {visiting rest : List String} {name : String} {decl : AliasDecl}
      {done done' : List AliasStep} (new : name ∉ settledNames done)
      (declared : decls.get? name = some decl) (met : name ∈ visiting)
      (tail : Settles decls visiting rest (.cycle decl :: done) done') :
    Settles decls visiting (name :: rest) done done'
  | resolve {visiting rest : List String} {name : String} {decl : AliasDecl}
      {done inner done' : List AliasStep} (new : name ∉ settledNames done)
      (declared : decls.get? name = some decl) (unmet : name ∉ visiting)
      (target : Settles decls (name :: visiting) (localNames decl.ty) done inner)
      (free : name ∉ settledNames inner)
      (tail : Settles decls visiting rest (.resolve decl :: inner) done') :
    Settles decls visiting (name :: rest) done done'
  | cut {visiting rest : List String} {name : String} {decl : AliasDecl}
      {done inner done' : List AliasStep} (new : name ∉ settledNames done)
      (declared : decls.get? name = some decl) (unmet : name ∉ visiting)
      (target : Settles decls (name :: visiting) (localNames decl.ty) done inner)
      (reported : name ∈ settledNames inner)
      (tail : Settles decls visiting rest inner done') :
    Settles decls visiting (name :: rest) done done'

/-- Every alias is listed under its own name. -/
def Keyed (decls : Table AliasDecl) : Prop :=
  ∀ name decl, decls.get? name = some decl → decl.name.name = name

variable {decls : Table AliasDecl} {visiting names : List String} {done done' : List AliasStep}
  {name : String} {decl : AliasDecl}

theorem Settles.append {names' : List String} {done'' : List AliasStep}
    (h : Settles decls visiting names done done') (h' : Settles decls visiting names' done' done'') :
    Settles decls visiting (names ++ names') done done'' := by
  induction h with
  | nil => exact h'
  | known hknown _ ih => exact .known hknown (ih h')
  | other hother _ ih => exact .other hother (ih h')
  | cycle hnew hdecl hmet _ ih => exact .cycle hnew hdecl hmet (ih h')
  | resolve hnew hdecl hunmet htarget hfree _ _ ih =>
    exact .resolve hnew hdecl hunmet htarget hfree (ih h')
  | cut hnew hdecl hunmet htarget hreported _ _ ih =>
    exact .cut hnew hdecl hunmet htarget hreported (ih h')

/-- Names that are no aliases settle nothing. -/
theorem Settles.eq_of_others (h : Settles decls visiting names done done')
    (hothers : ∀ name ∈ names, decls.get? name = none) : done' = done := by
  induction h with
  | nil => rfl
  | known _ _ ih | other _ _ ih => exact ih fun name hname => hothers name (.tail _ hname)
  | cycle _ declared | resolve _ declared | cut _ declared =>
    rw [hothers _ (.head _)] at declared
    cases declared

/-- An alias whose target mentions no alias without a qualifier is resolved when its turn comes. -/
theorem Settles.turn (h : Settles decls visiting (name :: names) done done')
    (hdecl : decls.get? name = some decl) (hnew : name ∉ settledNames done) (hunmet : name ∉ visiting)
    (hothers : ∀ other ∈ localNames decl.ty, decls.get? other = none) :
    Settles decls visiting names (.resolve decl :: done) done' := by
  cases h with
  | known known => exact absurd known hnew
  | other other =>
    rw [hdecl] at other
    cases other
  | cycle _ _ met => exact absurd met hunmet
  | resolve _ declared _ target _ tail =>
    obtain rfl := Option.some.inj (declared.symm.trans hdecl)
    rwa [target.eq_of_others hothers] at tail
  | cut _ declared _ target reported =>
    obtain rfl := Option.some.inj (declared.symm.trans hdecl)
    rw [target.eq_of_others hothers] at reported
    exact absurd reported hnew

/-- The aliases that can be followed at once are distinct, so there are no more of them than there
are declarations. -/
theorem length_visiting_lt (hnodup : visiting.Nodup)
    (hdecls : ∀ v ∈ visiting, (decls.get? v).isSome) (hdecl : decls.get? name = some decl)
    (hunmet : name ∉ visiting) : visiting.length < decls.size := by
  have hkeys : name :: visiting ⊆ decls.entries.map Prod.fst := by
    intro v hv
    have hsome : (decls.get? v).isSome := by
      rcases List.mem_cons.1 hv with rfl | hv
      · rw [hdecl]
        rfl
      · exact hdecls v hv
    obtain ⟨found, hfound⟩ := Option.isSome_iff_exists.1 hsome
    obtain ⟨before, after, hentries, -⟩ := List.lookup_eq_some_iff.1 hfound
    simp [hentries]
  have hle := ((List.nodup_cons.2 ⟨hunmet, hnodup⟩).subperm hkeys).length_le
  simpa [Table.size, Nat.succ_le_iff] using hle

/-- What is done for a name is what the aliases say that are settled with it. -/
def Follows (decls : Table AliasDecl) (visiting names : List String) (done : List AliasStep)
    (check : Check (List String)) : Prop :=
  ∃ steps, Settles decls visiting names done (steps ++ done) ∧
    check = performAll steps >>= fun _ => pure (settledNames (steps ++ done))

/-- Names are followed one after the other. -/
theorem follows_foldlM (step : List String → String → Check (List String))
    (hstep : ∀ name done, Follows decls visiting [name] done (step (settledNames done) name))
    (names : List String) (done : List AliasStep) :
    Follows decls visiting names done (names.foldlM step (settledNames done)) := by
  induction names generalizing done with
  | nil => exact ⟨[], .nil, by simp [performAll]⟩
  | cons name rest ih =>
    obtain ⟨first, hfirst, hrun⟩ := hstep name done
    obtain ⟨others, hothers, hrest⟩ := ih (first ++ done)
    refine ⟨others ++ first, ?_, ?_⟩
    · rw [List.append_assoc]
      exact hfirst.append hothers
    · simp [hrun, hrest, performAll_append]

/-- Following the name of an alias ends before the bound is reached, and what it does does not depend
on the bound. -/
theorem follows_resolveAlias (hkeyed : Keyed decls) (depth : Nat) (hnodup : visiting.Nodup)
    (hdecls : ∀ v ∈ visiting, (decls.get? v).isSome)
    (hdepth : decls.size ≤ depth + visiting.length) (name : String) (done : List AliasStep) :
    Follows decls visiting [name] done
      (resolveAlias decls depth visiting name (settledNames done)) := by
  induction depth generalizing visiting name done with
  | zero =>
    unfold resolveAlias
    split
    · next hknown => exact ⟨[], .known (by simpa using hknown) .nil, by simp [performAll]⟩
    · next hnew =>
      split
      · next hother => exact ⟨[], .other hother .nil, by simp [performAll]⟩
      · next decl hdecl =>
        by_cases hmet : name ∈ visiting
        · obtain rfl := hkeyed name decl hdecl
          rw [if_pos (by simpa using hmet)]
          refine ⟨[.cycle decl], .cycle (by simpa using hnew) hdecl hmet .nil, ?_⟩
          simp [performAll, AliasStep.perform]
        · have hlt := length_visiting_lt hnodup hdecls hdecl hmet
          omega
  | succ depth ih =>
    unfold resolveAlias
    split
    · next hknown => exact ⟨[], .known (by simpa using hknown) .nil, by simp [performAll]⟩
    · next hnew =>
      have hnew : name ∉ settledNames done := by simpa using hnew
      split
      · next hother => exact ⟨[], .other hother .nil, by simp [performAll]⟩
      · next decl hdecl =>
        obtain rfl := hkeyed name decl hdecl
        by_cases hmet : decl.name.name ∈ visiting
        · rw [if_pos (by simpa using hmet)]
          refine ⟨[.cycle decl], .cycle hnew hdecl hmet .nil, ?_⟩
          simp [performAll, AliasStep.perform]
        · rw [if_neg (by simpa using hmet)]
          have hinner (mentioned : String) (done : List AliasStep) :=
            ih (List.nodup_cons.2 ⟨hmet, hnodup⟩) (by simpa [hdecl] using hdecls)
              (by simp only [List.length_cons]; omega) mentioned done
          obtain ⟨steps, hsteps, hrun⟩ := follows_foldlM
            (fun settled mentioned =>
              resolveAlias decls depth (decl.name.name :: visiting) mentioned settled)
            hinner (localNames decl.ty) done
          dsimp only
          rw [hrun]
          by_cases hfree : decl.name.name ∈ settledNames (steps ++ done)
          · exact ⟨steps, .cut hnew hdecl hmet hsteps hfree .nil, by simp [hfree]⟩
          · refine ⟨.resolve decl :: steps, .resolve hnew hdecl hmet hsteps hfree .nil, ?_⟩
            simp [hfree, performAll, AliasStep.perform]

/-! ## Mentions -/

/-- The target of one alias mentions another one. -/
def Mentions (decls : Table AliasDecl) (a b : String) : Prop :=
  ∃ decl, decls.get? a = some decl ∧ b ∈ localNames decl.ty ∧ (decls.get? b).isSome

/-- Aliases in an order in which they can be settled, the last one first. -/
inductive Plan (decls : Table AliasDecl) : List AliasStep → Prop
  | nil : Plan decls []
  | cycle {decl : AliasDecl} {earlier : List AliasStep} (tail : Plan decls earlier)
      (declared : decls.get? decl.name.name = some decl)
      (new : decl.name.name ∉ settledNames earlier)
      (leads : Relation.TransGen (Mentions decls) decl.name.name decl.name.name) :
    Plan decls (.cycle decl :: earlier)
  | resolve {decl : AliasDecl} {earlier : List AliasStep} (tail : Plan decls earlier)
      (declared : decls.get? decl.name.name = some decl)
      (new : decl.name.name ∉ settledNames earlier)
      (after : ∀ mentioned ∈ localNames decl.ty, (decls.get? mentioned).isSome →
        mentioned ∈ settledNames earlier) :
    Plan decls (.resolve decl :: earlier)

/-- What visited aliases lead to, the target of one more alias mentions. -/
theorem leads_inner (hdecl : decls.get? name = some decl)
    (hleads : ∀ v ∈ visiting, Relation.TransGen (Mentions decls) v name) :
    ∀ v ∈ name :: visiting, ∀ mentioned ∈ localNames decl.ty, (decls.get? mentioned).isSome →
      Relation.TransGen (Mentions decls) v mentioned := by
  intro v hv mentioned hmentioned hsome
  have hmentions : Mentions decls name mentioned := ⟨decl, hdecl, hmentioned, hsome⟩
  rcases List.mem_cons.1 hv with rfl | hv
  · exact .single hmentions
  · exact .tail (hleads v hv) hmentions

/-- Names that are followed while aliases are visited that lead to them settle in a possible order,
and no alias among them is left out. -/
theorem Settles.plan (hkeyed : Keyed decls) (h : Settles decls visiting names done done')
    (hplan : Plan decls done)
    (hleads : ∀ v ∈ visiting, ∀ name ∈ names, (decls.get? name).isSome →
      Relation.TransGen (Mentions decls) v name) :
    Plan decls done' ∧ done <:+ done' ∧
      ∀ name ∈ names, (decls.get? name).isSome → name ∈ settledNames done' := by
  induction h with
  | nil => exact ⟨hplan, List.suffix_refl _, by simp⟩
  | known hknown _ ih =>
    obtain ⟨hplan', hsuffix, hall⟩ := ih hplan fun v hv n hn => hleads v hv n (by simp [hn])
    exact ⟨hplan', hsuffix, List.forall_mem_cons.2 ⟨fun _ => (hsuffix.map _).subset hknown, hall⟩⟩
  | other hother _ ih =>
    obtain ⟨hplan', hsuffix, hall⟩ := ih hplan fun v hv n hn => hleads v hv n (by simp [hn])
    exact ⟨hplan', hsuffix, List.forall_mem_cons.2 ⟨by simp [hother], hall⟩⟩
  | cycle hnew hdecl hmet _ ih =>
    obtain rfl := hkeyed _ _ hdecl
    have hself := hleads _ hmet _ (List.mem_cons_self ..) (by simp [hdecl])
    obtain ⟨hplan', hsuffix, hall⟩ := ih (.cycle hplan hdecl hnew hself)
      fun v hv n hn => hleads v hv n (by simp [hn])
    exact ⟨hplan', (List.suffix_cons _ _).trans hsuffix, List.forall_mem_cons.2
      ⟨fun _ => (hsuffix.map _).subset (List.mem_cons_self ..), hall⟩⟩
  | resolve _ hdecl _ _ hfree _ ihInner ih =>
    obtain rfl := hkeyed _ _ hdecl
    obtain ⟨hinner, hsuffix₁, hmentioned⟩ := ihInner hplan
      (leads_inner hdecl fun v hv => hleads v hv _ (List.mem_cons_self ..) (by simp [hdecl]))
    obtain ⟨hplan', hsuffix₂, hall⟩ := ih (.resolve hinner hdecl hfree hmentioned)
      fun v hv n hn => hleads v hv n (by simp [hn])
    exact ⟨hplan', (hsuffix₁.trans (List.suffix_cons _ _)).trans hsuffix₂, List.forall_mem_cons.2
      ⟨fun _ => (hsuffix₂.map _).subset (List.mem_cons_self ..), hall⟩⟩
  | cut _ hdecl _ _ hreported _ ihInner ih =>
    obtain ⟨hinner, hsuffix₁, -⟩ := ihInner hplan
      (leads_inner hdecl fun v hv => hleads v hv _ (List.mem_cons_self ..) (by simp [hdecl]))
    obtain ⟨hplan', hsuffix₂, hall⟩ := ih hinner fun v hv n hn => hleads v hv n (by simp [hn])
    exact ⟨hplan', hsuffix₁.trans hsuffix₂, List.forall_mem_cons.2
      ⟨fun _ => (hsuffix₂.map _).subset hreported, hall⟩⟩

namespace Plan

/-- No alias is settled twice. -/
theorem nodup (h : Plan decls done) : (settledNames done).Nodup := by
  induction h with
  | nil => exact List.nodup_nil
  | cycle _ _ hnew _ ih => exact List.nodup_cons.2 ⟨hnew, ih⟩
  | resolve _ _ hnew _ ih => exact List.nodup_cons.2 ⟨hnew, ih⟩

/-- Only declared aliases are settled. -/
theorem declared (h : Plan decls done) {step : AliasStep} (hstep : step ∈ done) :
    decls.get? step.name = some step.decl := by
  induction h with
  | nil => cases hstep
  | cycle _ hdecl _ _ ih | resolve _ hdecl _ _ ih =>
    rcases List.mem_cons.1 hstep with rfl | hstep
    · exact hdecl
    · exact ih hstep

/-- A reported alias is not resolved. -/
theorem not_resolved (h : Plan decls done) (hstep : .cycle decl ∈ done) :
    decl.name.name ∉ resolvedNames done := by
  induction h with
  | nil => cases hstep
  | cycle _ _ hnew _ ih =>
    rcases List.mem_cons.1 hstep with heq | hstep
    · cases heq
      exact fun hresolved => hnew (resolvedNames_subset _ hresolved)
    · exact ih hstep
  | @resolve other earlier _ _ hnew _ ih =>
    have hearlier : .cycle decl ∈ earlier := by simpa using hstep
    have hne : decl.name.name ≠ other.name.name := fun heq =>
      hnew (heq ▸ List.mem_map_of_mem (f := AliasStep.name) hearlier)
    simpa [hne] using ih hearlier

/-- A reported alias leads back to itself. -/
theorem leads (h : Plan decls done) (hstep : .cycle decl ∈ done) :
    Relation.TransGen (Mentions decls) decl.name.name decl.name.name := by
  induction h with
  | nil => cases hstep
  | cycle _ _ _ hleads ih =>
    rcases List.mem_cons.1 hstep with heq | hstep
    · cases heq
      exact hleads
    · exact ih hstep
  | resolve _ _ _ _ ih => exact ih (by simpa using hstep)

/-- Of aliases that all mention one of them, none is settled before one is reported: the first one
that was resolved would have been resolved after another. -/
theorem exists_cycle (h : Plan decls done) {member : String → Prop}
    (hmember : ∀ a, member a → ∃ b, member b ∧ Mentions decls a b) {a : String} (ha : member a)
    (hsettled : a ∈ settledNames done) : ∃ decl, .cycle decl ∈ done ∧ member decl.name.name := by
  induction h generalizing a with
  | nil => cases hsettled
  | @cycle decl earlier _ _ _ _ ih =>
    rcases List.mem_cons.1 hsettled with rfl | hsettled
    · exact ⟨decl, by simp, ha⟩
    · obtain ⟨found, hfound, hin⟩ := ih ha hsettled
      exact ⟨found, by simp [hfound], hin⟩
  | @resolve decl earlier _ hdecl _ hafter ih =>
    have hearlier : ∃ b, member b ∧ b ∈ settledNames earlier := by
      rcases List.mem_cons.1 hsettled with rfl | hsettled
      · obtain ⟨b, hb, found, hfound, hmentioned, hsome⟩ := hmember _ ha
        obtain rfl : decl = found := Option.some.inj (hdecl.symm.trans hfound)
        exact ⟨b, hb, hafter b hmentioned hsome⟩
      · exact ⟨a, ha, hsettled⟩
    obtain ⟨b, hb, hin⟩ := hearlier
    obtain ⟨found, hfound, hmem⟩ := ih hb hin
    exact ⟨found, by simp [hfound], hmem⟩

end Plan

/-! ## Cycles -/

/-- On a cycle of a relation each member leads to a member. -/
theorem exists_next_of_chain {r : String → String → Prop} {cycle : Cycle String}
    (h : cycle.Chain r) {a : String} (ha : a ∈ cycle) : ∃ b, b ∈ cycle ∧ r a b := by
  induction cycle using Cycle.induction_on with
  | nil => exact absurd ha (Cycle.notMem_nil a)
  | cons first rest _ =>
    rw [Cycle.chain_coe_cons] at h
    obtain ⟨before, after, hsplit⟩ := List.append_of_mem (Cycle.mem_coe_iff.1 ha)
    have hlist : first :: (rest ++ [first]) = before ++ a :: (after ++ [first]) := by
      rw [← List.cons_append, hsplit]
      simp
    rw [hlist] at h
    have hafter := h.right_of_append
    cases after with
    | nil => exact ⟨first, by simp, (List.isChain_cons_cons.1 hafter).1⟩
    | cons next after =>
      have hnext : next ∈ first :: rest := by simp [hsplit]
      exact ⟨next, Cycle.mem_coe_iff.2 hnext, (List.isChain_cons_cons.1 hafter).1⟩

/-- What leads to itself lies on a cycle. -/
theorem exists_cycle_of_transGen {r : String → String → Prop} {a : String}
    (h : Relation.TransGen r a a) : ∃ cycle : Cycle String, cycle.Chain r ∧ a ∈ cycle := by
  obtain ⟨b, hab, hba⟩ := Relation.TransGen.tail'_iff.1 h
  obtain ⟨rest, hchain, hlast⟩ := List.exists_isChain_cons_of_relationReflTransGen hab
  refine ⟨(a :: rest : List String), ?_, by simp⟩
  rw [Cycle.chain_coe_cons, ← List.cons_append]
  refine hchain.append (List.isChain_singleton a) fun x hx y hy => ?_
  obtain rfl : a = y := by simpa using hy
  rw [List.getLast?_eq_getLast_of_ne_nil (List.cons_ne_nil _ _), hlast] at hx
  cases hx
  exact hba

/-- On every cycle of mentions an alias is reported. -/
theorem Plan.exists_reported (h : Plan decls done) {cycle : Cycle String} (hne : cycle ≠ .nil)
    (hchain : cycle.Chain (Mentions decls))
    (hall : ∀ a, (decls.get? a).isSome → a ∈ settledNames done) :
    ∃ decl, .cycle decl ∈ done ∧ decl.name.name ∈ cycle := by
  obtain ⟨a, ha⟩ : ∃ a, a ∈ cycle := by
    induction cycle using Cycle.induction_on with
    | nil => exact absurd rfl hne
    | cons first rest _ => exact ⟨first, by simp⟩
  obtain ⟨b, -, decl, hdecl, -⟩ := exists_next_of_chain hchain ha
  exact h.exists_cycle (fun _ hmem => exists_next_of_chain hchain hmem) ha (hall a (by simp [hdecl]))

end HybroidSema.Declare
