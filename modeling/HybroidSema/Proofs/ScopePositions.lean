import HybroidSema.Proofs.Constants

/-!
# Open scopes by position

A position counts the open scopes from the root, so the open scopes are a list with the root first
and a position is an index of it. What an operation does to the stack is what it does to that list:
opening appends a scope, and every change of one scope changes one entry.

* `ScopeStack.byPosition`, `get?_eq_getElem?`: the list.
* `get?_cons`, `get?_modifyAt_eq`, `get?_modifyCurrent`: what an operation does at each position.
* `ScopeStack.ext_get?`: a stack is what is at its positions.
* `innermost?_eq_some_iff`: what a search from the innermost scope outwards finds.
-/

namespace HybroidSema

namespace ScopeStack

variable {s t : ScopeStack} {scope top : Scope} {p q : Nat}

/-- The open scopes, the root first. -/
def byPosition (s : ScopeStack) : List Scope := s.root :: s.inner.reverse

@[simp] theorem length_byPosition (s : ScopeStack) : s.byPosition.length = s.depth := by
  simp [byPosition, depth]

theorem chain_reverse (s : ScopeStack) : s.chain.reverse = s.byPosition := by
  simp [chain, byPosition]

theorem get?_eq_getElem? (s : ScopeStack) (p : Nat) : s.get? p = s.byPosition[p]? := by
  have hlength : s.chain.length = s.inner.length + 1 := by simp [chain]
  rw [← chain_reverse, get?]
  split
  · next hle =>
    rw [List.getElem?_reverse (by omega), hlength]
    congr 1
  · next hlt => exact (List.getElem?_eq_none (by simp [hlength]; omega)).symm

/-- There is a scope at every position below the depth, and nowhere else. -/
theorem isSome_get?_iff : (s.get? p).isSome ↔ p < s.depth := by
  rw [get?_eq_getElem?, ← length_byPosition, Option.isSome_iff_ne_none, ne_eq,
    List.getElem?_eq_none_iff, Nat.not_le]

theorem lt_depth_of_get? (h : s.get? p = some scope) : p < s.depth :=
  isSome_get?_iff.1 (by rw [h]; rfl)

theorem depth_eq (s : ScopeStack) : s.depth = s.currentPosition + 1 := rfl

@[simp] theorem get?_zero (s : ScopeStack) : s.get? 0 = some s.root := by
  simp [get?_eq_getElem?, byPosition]

@[simp] theorem get?_currentPosition (s : ScopeStack) : s.get? s.currentPosition = some s.current := by
  unfold current
  simp only [get?, currentPosition, Nat.le_refl, if_true, Nat.sub_self, chain]
  cases s.inner <;> rfl

/-- A stack is what is at its positions. -/
theorem ext_get? (h : ∀ p, s.get? p = t.get? p) : s = t := by
  have hlist : s.byPosition = t.byPosition :=
    List.ext_getElem? fun p => by rw [← get?_eq_getElem?, ← get?_eq_getElem?, h]
  obtain ⟨root, inner⟩ := s
  obtain ⟨root', inner'⟩ := t
  simp only [byPosition, List.cons.injEq, List.reverse_inj] at hlist
  rw [hlist.1, hlist.2]

/-! ## Opening and changing -/

@[simp] theorem depth_cons (s : ScopeStack) (scope : Scope) : (s.cons scope).depth = s.depth + 1 :=
  rfl

/-- A scope is opened on top, and the positions below keep their scopes. -/
theorem get?_cons (s : ScopeStack) (scope : Scope) (p : Nat) :
    (s.cons scope).get? p = if p = s.depth then some scope else s.get? p := by
  have hlist : (s.cons scope).byPosition = s.byPosition ++ [scope] := by
    simp [byPosition, cons]
  rw [get?_eq_getElem?, get?_eq_getElem?, hlist, List.getElem?_append, length_byPosition]
  split
  · next hlt => rw [if_neg (Nat.ne_of_lt hlt)]
  · next hge =>
    split
    · next heq => rw [heq, Nat.sub_self]; rfl
    · next hne =>
      rw [List.getElem?_eq_none (l := s.byPosition) (by rw [length_byPosition]; omega),
        List.getElem?_eq_none (by rw [List.length_singleton]; omega)]

/-- A stack with more than the root is a scope on top of a stack. -/
theorem exists_eq_cons (h : s.isRoot = false) : ∃ (below : ScopeStack) (top : Scope), s = below.cons top := by
  obtain ⟨root, inner⟩ := s
  cases inner with
  | nil => cases h
  | cons top rest => exact ⟨⟨root, rest⟩, top, rfl⟩

@[simp] theorem depth_modifyAt (s : ScopeStack) (q : Nat) (f : Scope → Scope) :
    (s.modifyAt q f).depth = s.depth := by
  unfold modifyAt depth
  split_ifs <;> simp

/-- Changing the scope at a position changes nothing at the others. -/
theorem get?_modifyAt_eq (s : ScopeStack) (q : Nat) (f : Scope → Scope) (p : Nat) :
    (s.modifyAt q f).get? p = if q = p then (s.get? p).map f else s.get? p := by
  by_cases heq : q = p
  · subst heq
    rw [if_pos rfl]
    exact get?_modifyAt s q f
  rw [if_neg heq]
  unfold modifyAt get? chain
  by_cases hp : p ≤ s.inner.length
  · by_cases hroot : q = 0
    · have hlt : s.inner.length - p < s.inner.length := by omega
      simp only [hroot, if_true, hp]
      rw [List.getElem?_append_left hlt, List.getElem?_append_left hlt]
    by_cases hq : q ≤ s.inner.length
    · have hindex : s.inner.length - q ≠ s.inner.length - p := by omega
      simp only [hroot, if_false, hq, if_true, List.length_modify, hp]
      rw [List.getElem?_append, List.getElem?_append, List.length_modify,
        List.getElem?_modify_ne f _ hindex]
    · simp [hroot, hp, hq]
  · by_cases hroot : q = 0 <;> by_cases hq : q ≤ s.inner.length <;> simp [hroot, hq, hp]

theorem modifyCurrent_eq_modifyAt (s : ScopeStack) (f : Scope → Scope) :
    s.modifyCurrent f = s.modifyAt s.currentPosition f := by
  obtain ⟨root, inner⟩ := s
  cases inner <;> simp [modifyCurrent, modifyAt, currentPosition]

/-- Changing the innermost scope changes nothing at the positions below. -/
theorem get?_modifyCurrent (s : ScopeStack) (f : Scope → Scope) (p : Nat) :
    (s.modifyCurrent f).get? p =
      if p = s.currentPosition then some (f s.current) else s.get? p := by
  rw [modifyCurrent_eq_modifyAt, get?_modifyAt_eq]
  split_ifs with hp hp' hp'
  · rw [← hp, get?_currentPosition]
    rfl
  · exact absurd hp.symm hp'
  · exact absurd hp'.symm hp
  · rfl

@[simp] theorem depth_modifyCurrent (s : ScopeStack) (f : Scope → Scope) :
    (s.modifyCurrent f).depth = s.depth := by
  rw [modifyCurrent_eq_modifyAt, depth_modifyAt]

@[simp] theorem depth_afterClosing (s : ScopeStack) (closed : Scope) :
    (s.afterClosing closed).depth = s.depth := by
  unfold afterClosing
  split
  · exact depth_modifyCurrent _ _
  · rfl

/-- A stack is a scope on top of another one if they agree at the positions below. -/
theorem eq_cons_of_get? (hdepth : t.depth = s.depth + 1)
    (h : ∀ p < s.depth, t.get? p = s.get? p) : t = s.cons t.current := by
  refine ext_get? fun p => ?_
  have htop : t.currentPosition = s.depth := by
    rw [depth_eq] at hdepth
    omega
  rw [get?_cons]
  split_ifs with hp
  · rw [hp, ← htop, get?_currentPosition]
  · by_cases hlt : p < s.depth
    · exact h p hlt
    · have hnone {u : ScopeStack} (hu : ¬ p < u.depth) : u.get? p = none := by
        rwa [← Option.not_isSome_iff_eq_none, isSome_get?_iff]
      rw [hnone hlt, hnone (by omega)]

/-- Closing the topmost scope. -/
theorem close?_cons (s : ScopeStack) (top : Scope) :
    (s.cons top).close? = some (top, s.afterClosing top) := by
  simp only [close?, afterClosing, cons]
  cases top.handedOn? <;> rfl

/-! ## Searching outwards -/

/-- A search outwards finds the scope with the property that has none of them above. -/
theorem innermost?_eq_some_iff (s : ScopeStack) (test : Scope → Bool) (p : Nat) :
    s.innermost? test = some p ↔
      (∃ scope, s.get? p = some scope ∧ test scope) ∧
        ∀ q scope, p < q → s.get? q = some scope → test scope = false := by
  have hlength : s.chain.length = s.inner.length + 1 := by simp [chain]
  -- The scope with index `i` on the chain is at position `length - i`.
  have hat {i : Nat} (hi : i ≤ s.inner.length) : s.get? (s.inner.length - i) = s.chain[i]? := by
    rw [get?, if_pos (Nat.sub_le _ _), Nat.sub_sub_self hi]
  have hle {q : Nat} {scope : Scope} (h : s.get? q = some scope) : q ≤ s.inner.length :=
    Nat.le_of_lt_succ (lt_depth_of_get? h)
  rw [innermost?, Option.map_eq_some_iff]
  constructor
  · rintro ⟨i, hi, rfl⟩
    obtain ⟨hlt, htest, hbefore⟩ := List.findIdx?_eq_some_iff_getElem.1 hi
    refine ⟨⟨s.chain[i], by rw [hat (by omega), List.getElem?_eq_getElem hlt], htest⟩, ?_⟩
    intro q scope hq hscope
    have hqle := hle hscope
    rw [← Nat.sub_sub_self hqle, hat (Nat.sub_le _ _)] at hscope
    obtain ⟨hj, rfl⟩ := List.getElem?_eq_some_iff.1 hscope
    simpa using hbefore (s.inner.length - q) (by omega)
  · rintro ⟨⟨scope, hscope, htest⟩, habove⟩
    have hp := hle hscope
    refine ⟨s.inner.length - p, List.findIdx?_eq_some_iff_getElem.2 ?_, Nat.sub_sub_self hp⟩
    rw [← Nat.sub_sub_self hp, hat (Nat.sub_le _ _)] at hscope
    obtain ⟨hlt, rfl⟩ := List.getElem?_eq_some_iff.1 hscope
    refine ⟨hlt, htest, fun j hj => ?_⟩
    have hjlt : j < s.chain.length := by omega
    simpa using habove (s.inner.length - j) s.chain[j] (by omega)
      (by rw [hat (by omega), List.getElem?_eq_getElem hjlt])

/-- A name is resolved to the innermost scope that binds it. -/
theorem resolve?_eq_some_iff (s : ScopeStack) (name : String) (p : Nat) :
    s.resolve? name = some p ↔
      (∃ v, s.binding? p name = some v) ∧ ∀ q, p < q → s.binding? q name = none := by
  rw [resolve?, innermost?_eq_some_iff]
  refine and_congr ⟨?_, ?_⟩ (forall_congr' fun q => ?_)
  · rintro ⟨scope, hscope, hbinds⟩
    obtain ⟨v, hv⟩ := Option.isSome_iff_exists.1 hbinds
    exact ⟨v, by rw [binding?, hscope]; exact hv⟩
  · rintro ⟨v, hv⟩
    obtain ⟨scope, hscope, hget⟩ := Option.bind_eq_some_iff.1 hv
    exact ⟨scope, hscope, by rw [Table.contains, hget]; rfl⟩
  · unfold binding? Table.contains
    cases s.get? q <;> simp

end ScopeStack

end HybroidSema
