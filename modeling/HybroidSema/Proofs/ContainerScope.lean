import HybroidSema.Proofs.ScopeDiscipline
import HybroidSema.Proofs.ScopePositions
import Mathlib.Order.ConditionallyCompleteLattice.Basic

/-!
# The variables of a class or entity body

The scope of a class or entity has the variables that its functions use without `self`. Whatever is
opened, bound and closed above that scope, these variables stay, and all that changes is which of them
were read and which were assigned.

* `ScopeStack.members`: the variables of the innermost class or entity.
* `members_modifyAt`, `members_cons`, `members_close?`: what an operation on scopes does to them.
* `Marks` and `MarksAll`: variables of which some were assigned.
-/

namespace HybroidSema

/-- The variable without its value and without what reading and assigning it record. -/
def Variable.slot (v : Variable) : Variable :=
  { v with value := .invalid, isUsed := false, isInit := false }

theorem ScopeTag.container?_outline (tag : ScopeTag) : tag.outline.container? = tag.container? := by
  cases tag <;> rfl

theorem ScopeTag.container?_of_kind_eq {tag tag' : ScopeTag} (h : tag'.kind = tag.kind) :
    tag'.container? = tag.container? := by
  have hkind (tag : ScopeTag) : tag.kind.container? = tag.container? := by cases tag <;> rfl
  rw [← hkind, h, hkind]

/-! ## Assigned variables -/

/-- A variable under its name is the same, and assigned if it was before or the name is a given one. -/
structure Marks (names : String → Prop) (a b : String × Variable) : Prop where
  name : b.1 = a.1
  slot : b.2.slot = a.2.slot
  init : b.2.isInit = true ↔ a.2.isInit = true ∨ names a.1

/-- All variables are the same, but for the given ones, which are assigned. -/
abbrev MarksAll (names : String → Prop) (l l' : List (String × Variable)) : Prop :=
  List.Forall₂ (Marks names) l l'

/-- Variables under distinct names, none of which is replaced by a literal. -/
structure MembersTidy (l : List (String × Variable)) : Prop where
  nodup : (l.map Prod.fst).Nodup
  constant : ∀ e ∈ l, e.2.constant = none

section Marks

variable {names others : String → Prop} {l l' l'' : List (String × Variable)}

theorem Marks.of_unread_eq {a b : String × Variable} (hname : b.1 = a.1)
    (h : b.2.unread = a.2.unread) : Marks ⊥ a b where
  name := hname
  slot := by
    have hslot : b.2.unread.slot = a.2.unread.slot := congrArg Variable.slot h
    exact hslot
  init := by
    have hinit : b.2.unread.isInit = a.2.unread.isInit := congrArg Variable.isInit h
    change b.2.isInit = a.2.isInit at hinit
    simp [hinit]

theorem MarksAll.refl (l : List (String × Variable)) : MarksAll ⊥ l l :=
  List.forall₂_same.2 fun _ _ => .of_unread_eq rfl rfl

theorem MarksAll.trans (h : MarksAll names l l') (h' : MarksAll others l' l'') :
    MarksAll (names ⊔ others) l l'' := by
  induction h generalizing l'' with
  | nil =>
    cases h'
    exact .nil
  | @cons a b l l' hab _ ih =>
    cases h' with
    | @cons _ d _ _ hbd hrest =>
      refine .cons ⟨hbd.name.trans hab.name, hbd.slot.trans hab.slot, ?_⟩ (ih hrest)
      rw [hbd.init, hab.init, hab.name, or_assoc]
      rfl

theorem MarksAll.names_eq (h : MarksAll names l l') : l'.map Prod.fst = l.map Prod.fst := by
  induction h with
  | nil => rfl
  | cons hab _ ih => rw [List.map_cons, List.map_cons, hab.name, ih]

theorem MembersTidy.marked (hl : MembersTidy l) (h : MarksAll names l l') : MembersTidy l' := by
  refine ⟨h.names_eq ▸ hl.nodup, ?_⟩
  obtain ⟨-, hconstant⟩ := hl
  induction h with
  | nil => nofun
  | cons hab _ ih =>
    rw [List.forall_mem_cons] at hconstant ⊢
    exact ⟨(congrArg Variable.constant hab.slot).trans hconstant.1, ih hconstant.2⟩

/-- The variable of a name is marked as assigned. -/
theorem marksAll_modifyEntries (hl : MembersTidy l) (name : String) {f : Variable → Variable}
    (hf : ∀ v, (f v).slot = v.slot ∧ (f v).isInit = true) :
    MarksAll (· = name) l (Table.modifyEntries name f l) := by
  obtain ⟨hnodup, -⟩ := hl
  induction l with
  | nil => exact .nil
  | cons e rest ih =>
    obtain ⟨key, v⟩ := e
    rw [List.map_cons, List.nodup_cons] at hnodup
    unfold Table.modifyEntries
    split
    · next heq =>
      obtain rfl : name = key := by simpa using heq
      refine .cons ⟨rfl, (hf v).1, by simp [(hf v).2]⟩ (List.forall₂_same.2 fun e he => ?_)
      have hne : e.1 ≠ name := fun heq =>
        hnodup.1 (List.mem_map.2 ⟨e, he, heq⟩)
      exact ⟨rfl, rfl, by simp [hne]⟩
    · next hne =>
      have hother : key ≠ name := fun heq => hne (by simp [heq])
      exact .cons ⟨rfl, rfl, by simp [hother]⟩ (ih hnodup.2)

/-- The variable of a name takes another value. -/
theorem marksAll_modifyEntries_bot (l : List (String × Variable)) (name : String)
    {f : Variable → Variable} (hf : ∀ v, (f v).slot = v.slot ∧ (f v).isInit = v.isInit) :
    MarksAll ⊥ l (Table.modifyEntries name f l) := by
  induction l with
  | nil => exact .nil
  | cons e rest ih =>
    obtain ⟨key, v⟩ := e
    unfold Table.modifyEntries
    split
    · exact .cons ⟨rfl, (hf v).1, by simp [(hf v).2]⟩ (MarksAll.refl rest)
    · exact .cons ⟨rfl, rfl, by simp⟩ ih

end Marks

/-! ## The innermost class or entity -/

namespace ScopeStack

variable {s s' below : ScopeStack} {scope top : Scope} {p : Nat}

/-- The variables of the innermost class or entity, under their names. -/
def members (s : ScopeStack) : List (String × Variable) :=
  ((s.nearestContainer?.bind s.get?).map (·.bindings.entries)).getD []

/-- A search that a change of every scope does not show. -/
theorem innermost?_map (s : ScopeStack) {g : Scope → Scope} {test : Scope → Bool}
    (h : ∀ scope, test (g scope) = test scope) :
    (⟨g s.root, s.inner.map g⟩ : ScopeStack).innermost? test = s.innermost? test := by
  have hchain : (⟨g s.root, s.inner.map g⟩ : ScopeStack).chain = s.chain.map g := by
    simp [chain]
  have htest : test ∘ g = test := funext h
  rw [innermost?, innermost?, hchain, List.findIdx?_map, htest, List.length_map]

theorem get?_map (s : ScopeStack) (g : Scope → Scope) (p : Nat) :
    (⟨g s.root, s.inner.map g⟩ : ScopeStack).get? p = (s.get? p).map g := by
  have hlist : (⟨g s.root, s.inner.map g⟩ : ScopeStack).byPosition = s.byPosition.map g := by
    simp [byPosition]
  rw [get?_eq_getElem?, get?_eq_getElem?, hlist, List.getElem?_map]

theorem nearestContainer?_outline (s : ScopeStack) :
    s.outline.nearestContainer? = s.nearestContainer? :=
  s.innermost?_map fun scope => by rw [Scope.outline_tag, ScopeTag.container?_outline]

/-- Reading variables assigns none. -/
theorem marksAll_of_unread_eq (h : s'.unread = s.unread) : MarksAll ⊥ s.members s'.members := by
  have hnearest (s : ScopeStack) : s.unread.nearestContainer? = s.nearestContainer? :=
    s.innermost?_map fun _ => rfl
  have hposition : s'.nearestContainer? = s.nearestContainer? := by rw [← hnearest, h, hnearest]
  have hunread (p : Nat) : (s'.get? p).map Scope.unread = (s.get? p).map Scope.unread := by
    rw [← get?_map, ← get?_map]
    exact congrArg (get? · p) h
  unfold members
  rw [hposition]
  cases s.nearestContainer? with
  | none => exact .nil
  | some p =>
    have hp := hunread p
    rw [Option.bind_some, Option.bind_some]
    cases hs : s.get? p with
    | none =>
      rw [hs, Option.map_none, Option.map_eq_none_iff] at hp
      rw [hp]
      exact .nil
    | some scope =>
      rw [hs, Option.map_some, Option.map_eq_some_iff] at hp
      obtain ⟨scope', hs', hscope⟩ := hp
      have hentries : scope'.bindings.entries.map (fun e => (e.1, e.2.unread)) =
          scope.bindings.entries.map fun e => (e.1, e.2.unread) :=
        congrArg (·.bindings.entries) hscope
      rw [hs', Option.map_some, Option.map_some, Option.getD_some, Option.getD_some]
      refine List.forall₂_iff_get.2 ⟨by simpa using (congrArg List.length hentries).symm, ?_⟩
      intro i hi hi'
      have hget := congrArg (·[i]?) hentries
      simp only [List.getElem?_map, List.getElem?_eq_getElem hi, List.getElem?_eq_getElem hi',
        Option.map_some, Option.some.injEq, Prod.mk.injEq] at hget
      exact .of_unread_eq hget.1 hget.2

/-- A scope that is no class or entity has no part in where the innermost one is. -/
theorem nearestContainer?_cons (h : scope.tag.container? = none) :
    (s.cons scope).nearestContainer? = s.nearestContainer? := by
  refine Option.ext fun p => ?_
  rw [nearestContainer?, nearestContainer?, innermost?_eq_some_iff, innermost?_eq_some_iff]
  simp only [get?_cons]
  constructor
  · rintro ⟨⟨found, hfound, htest⟩, habove⟩
    split_ifs at hfound with hp
    · obtain rfl := Option.some.inj hfound
      simp [h] at htest
    · refine ⟨⟨found, hfound, htest⟩, fun q scope' hq hscope' => habove q scope' hq ?_⟩
      rwa [if_neg (Nat.ne_of_lt (lt_depth_of_get? hscope'))]
  · rintro ⟨⟨found, hfound, htest⟩, habove⟩
    refine ⟨⟨found, ?_, htest⟩, fun q scope' hq hscope' => ?_⟩
    · rwa [if_neg (Nat.ne_of_lt (lt_depth_of_get? hfound))]
    · split_ifs at hscope' with heq
      · obtain rfl := Option.some.inj hscope'
        simp [h]
      · exact habove q scope' hq hscope'

theorem nearestContainer?_lt_depth (h : s.nearestContainer? = some p) : p < s.depth := by
  obtain ⟨⟨scope, hscope, -⟩, -⟩ := (innermost?_eq_some_iff ..).1 h
  exact lt_depth_of_get? hscope

/-- A scope on top that is no class or entity has no part in the variables. -/
theorem members_cons (h : scope.tag.container? = none) : (s.cons scope).members = s.members := by
  unfold members
  rw [nearestContainer?_cons h]
  cases hnearest : s.nearestContainer? with
  | none => rfl
  | some p =>
    have hp := nearestContainer?_lt_depth hnearest
    rw [Option.bind_some, Option.bind_some, get?_cons, if_neg (Nat.ne_of_lt hp)]

/-- A change of one scope shows if that is the class or entity. -/
theorem members_modifyAt (s : ScopeStack) (p : Nat) {f : Scope → Scope}
    (h : ∀ scope, (f scope).tag.container?.isSome = scope.tag.container?.isSome) :
    (s.modifyAt p f).members =
      if s.nearestContainer? = some p then ((s.get? p).map fun scope => (f scope).bindings.entries).getD []
      else s.members := by
  have hnearest : (s.modifyAt p f).nearestContainer? = s.nearestContainer? :=
    s.innermost?_modifyAt p h
  unfold members
  rw [hnearest]
  cases s.nearestContainer? with
  | none => rfl
  | some q =>
    simp only [Option.bind_some, get?_modifyAt_eq, Option.some.injEq, eq_comm (a := q)]
    split
    · next heq =>
      subst heq
      rw [Option.map_map]
      rfl
    · rfl

/-- A change of a scope that keeps its variables. -/
theorem members_modifyAt_of_bindings_eq (s : ScopeStack) (p : Nat) {f : Scope → Scope}
    (h : ∀ scope, (f scope).tag.container?.isSome = scope.tag.container?.isSome ∧
      (f scope).bindings = scope.bindings) : (s.modifyAt p f).members = s.members := by
  rw [members_modifyAt s p fun scope => (h scope).1]
  simp only [h]
  split
  · next hnearest => rw [members, hnearest, Option.bind_some]
  · rfl

theorem members_modifyVariable (s : ScopeStack) (p : Nat) (name : String)
    (f : Variable → Variable) : (s.modifyVariable p name f).members =
      if s.nearestContainer? = some p then Table.modifyEntries name f s.members else s.members := by
  have hmodified := s.members_modifyAt p
    (f := fun scope => { scope with bindings := scope.bindings.modify name f }) fun _ => rfl
  rw [modifyVariable, hmodified]
  split
  · next hnearest =>
    rw [members, hnearest, Option.bind_some]
    cases s.get? p <;> rfl
  · rfl

/-- The innermost scope is no class or entity. -/
theorem nearestContainer?_ne_currentPosition (h : s.current.tag.container? = none) :
    s.nearestContainer? ≠ some s.currentPosition := by
  intro hnearest
  obtain ⟨⟨scope, hscope, htest⟩, -⟩ := (innermost?_eq_some_iff ..).1 hnearest
  rw [get?_currentPosition] at hscope
  obtain rfl := Option.some.inj hscope
  simp [h] at htest

/-- A new variable of the innermost scope, if that is no class or entity. -/
theorem members_declare {binding : Variable} (hcurrent : s.current.tag.container? = none)
    (h : s.declare binding = .ok s') : s'.members = s.members := by
  unfold declare at h
  cases hd : s.current.declare binding with
  | error e => simp [hd, Except.map] at h
  | ok scope =>
    simp only [hd, Except.map, Except.ok.injEq] at h
    subst h
    have htag : scope.tag = s.current.tag := by
      unfold Scope.declare at hd
      split at hd
      · cases hd
      · cases hd
        rfl
    have hset : s.modifyCurrent (fun _ => scope) =
        s.modifyCurrent fun top => { scope with tag := top.tag } := by
      refine ext_get? fun p => ?_
      rw [get?_modifyCurrent, get?_modifyCurrent, ← htag]
    have hmodified := s.members_modifyAt s.currentPosition
      (f := fun top => { scope with tag := top.tag }) fun _ => rfl
    rw [hset, modifyCurrent_eq_modifyAt, hmodified,
      if_neg (nearestContainer?_ne_currentPosition hcurrent)]

/-- A scope that is no class or entity is closed. -/
theorem members_close? (hcurrent : s.current.tag.container? = none)
    (h : s.close? = some (top, below)) : below.members = s.members := by
  obtain ⟨root, inner⟩ := s
  cases inner with
  | nil => cases h
  | cons scope rest =>
    have hclose := close?_cons ⟨root, rest⟩ scope
    obtain ⟨rfl, rfl⟩ := Prod.mk.inj (Option.some.inj (hclose.symm.trans h))
    refine Eq.trans ?_ (members_cons (s := ⟨root, rest⟩) hcurrent).symm
    unfold afterClosing
    split
    · rw [reportExits, modifyCurrent_eq_modifyAt]
      exact members_modifyAt_of_bindings_eq _ _ fun scope =>
        ⟨by rw [ScopeTag.container?_of_kind_eq (Scope.kind_receive scope _)],
          Scope.bindings_receive scope _⟩
    · rfl

end ScopeStack

end HybroidSema
