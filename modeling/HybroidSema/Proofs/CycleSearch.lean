import HybroidSema.Registry
import Mathlib.Data.Finset.Card
import Mathlib.Data.Finset.Range
import Mathlib.Data.List.Chain
import Mathlib.Data.List.Nodup
import Mathlib.Logic.Relation

/-!
# The search for import cycles

A search from an environment follows requirements depth first. It is right in both directions: a
path that it finds is one of requirements without a repetition, and if it finds none then the goal
is not required, directly or not. It needs no bound on its depth to come to an end.

* `Registry.Requires`: one environment requires another.
* `Registry.isPath_of_search` and `findCycle?_sound`: what is found.
* `Registry.explored_of_search` and `findCycle?_complete`: what it means that nothing is found.
* `Registry.Searches` and `searches_search`: the search without a bound on its depth.
* `Registry.cycle_search_decides_reachability`: when a cycle is found, and which.
-/

namespace HybroidSema

namespace Registry

variable {r : Registry} {goal start : EnvId} {depth : Nat} {visited visited' : List EnvId}
  {path : List EnvId}

/-- One environment requires another. -/
def Requires (r : Registry) (a b : EnvId) : Prop :=
  ∃ env, r.get? a = some env ∧ b ∈ env.requirements

/-! ## Steps of a search -/

/-- What a search does: it is at its goal, or at an environment that was visited before or requires
nothing, or it goes on with the requirements. -/
theorem search_cases (r : Registry) (goal : EnvId) (depth : Nat) (start : EnvId)
    (visited : List EnvId) :
    (start = goal ∧ r.search goal depth start visited = ⟨some [goal], visited⟩) ∨
    (start ≠ goal ∧ start ∈ visited ∧ r.search goal depth start visited = ⟨none, visited⟩) ∨
    (start ≠ goal ∧ start ∉ visited ∧ (r.get? start = none ∨ depth = 0) ∧
      r.search goal depth start visited = ⟨none, start :: visited⟩) ∨
    ∃ env depth', start ≠ goal ∧ start ∉ visited ∧ r.get? start = some env ∧ depth = depth' + 1 ∧
      r.search goal depth start visited =
        ⟨(searchEach (r.search goal depth') env.requirements (start :: visited)).path?.map
            (start :: ·),
          (searchEach (r.search goal depth') env.requirements (start :: visited)).visited⟩ := by
  unfold search
  by_cases hgoal : start = goal
  · exact .inl ⟨hgoal, by rw [if_pos hgoal]⟩
  · rw [if_neg hgoal]
    by_cases hvisited : start ∈ visited
    · exact .inr (.inl ⟨hgoal, hvisited, by simp [hvisited]⟩)
    · rw [if_neg (by simpa using hvisited)]
      cases henv : r.get? start with
      | none => exact .inr (.inr (.inl ⟨hgoal, hvisited, .inl rfl, rfl⟩))
      | some env =>
        cases depth with
        | zero => exact .inr (.inr (.inl ⟨hgoal, hvisited, .inr rfl, rfl⟩))
        | succ depth => exact .inr (.inr (.inr ⟨env, depth, hgoal, hvisited, rfl, rfl, rfl⟩))

/-- Several searches visit more and more. -/
theorem visited_searchEach {search : EnvId → List EnvId → Search}
    (h : ∀ start visited, visited ⊆ (search start visited).visited) (starts : List EnvId)
    (visited : List EnvId) : visited ⊆ (searchEach search starts visited).visited := by
  induction starts generalizing visited with
  | nil => exact List.Subset.refl _
  | cons start rest ih =>
    have hstart := h start visited
    unfold searchEach
    split
    · next path visited' heq =>
      rw [heq] at hstart
      exact hstart
    · next visited' heq =>
      rw [heq] at hstart
      exact List.Subset.trans hstart (ih visited')

theorem visited_search (r : Registry) (goal : EnvId) (depth : Nat) (start : EnvId)
    (visited : List EnvId) : visited ⊆ (r.search goal depth start visited).visited := by
  induction depth generalizing start visited with
  | zero =>
    rcases r.search_cases goal 0 start visited with
      ⟨-, heq⟩ | ⟨-, -, heq⟩ | ⟨-, -, -, heq⟩ | ⟨_, _, -, -, -, hdepth, -⟩
    · rw [heq]
      exact List.Subset.refl _
    · rw [heq]
      exact List.Subset.refl _
    · rw [heq]
      exact List.subset_cons_self _ _
    · cases hdepth
  | succ depth ih =>
    rcases r.search_cases goal (depth + 1) start visited with
      ⟨-, heq⟩ | ⟨-, -, heq⟩ | ⟨-, -, -, heq⟩ | ⟨env, _, -, -, -, hdepth, heq⟩
    · rw [heq]
      exact List.Subset.refl _
    · rw [heq]
      exact List.Subset.refl _
    · rw [heq]
      exact List.subset_cons_self _ _
    · cases hdepth
      rw [heq]
      exact List.Subset.trans (List.subset_cons_self _ _) (visited_searchEach ih _ _)

/-! ## Paths -/

/-- A path of requirements without a repetition, which avoids what was visited. -/
structure IsPath (r : Registry) (goal start : EnvId) (visited path : List EnvId) : Prop where
  chain : path.IsChain r.Requires
  head : path.head? = some start
  last : path.getLast? = some goal
  simple : path.Nodup
  avoids : ∀ id ∈ path, id = goal ∨ id ∉ visited

/-- A path that is found by several searches is found by one of them. -/
theorem path_of_searchEach {search : EnvId → List EnvId → Search}
    (h : ∀ start visited, visited ⊆ (search start visited).visited) {starts : List EnvId}
    (hpath : (searchEach search starts visited).path? = some path) :
    ∃ start ∈ starts, ∃ visited', visited ⊆ visited' ∧
      (search start visited').path? = some path := by
  induction starts generalizing visited with
  | nil => cases hpath
  | cons start rest ih =>
    have hstart := h start visited
    unfold searchEach at hpath
    split at hpath
    · next found _ heq =>
      cases hpath
      exact ⟨start, by simp, visited, List.Subset.refl _, by rw [heq]⟩
    · next visited₁ heq =>
      rw [heq] at hstart
      obtain ⟨other, hother, visited₂, hsub, hfound⟩ := ih hpath
      exact ⟨other, by simp [hother], visited₂, List.Subset.trans hstart hsub, hfound⟩

/-- A path that is found is one of requirements. -/
theorem isPath_of_search (h : (r.search goal depth start visited).path? = some path) :
    r.IsPath goal start visited path := by
  induction depth generalizing start visited path with
  | zero =>
    rcases r.search_cases goal 0 start visited with
      ⟨rfl, heq⟩ | ⟨-, -, heq⟩ | ⟨-, -, -, heq⟩ | ⟨_, _, -, -, -, hdepth, -⟩
    · rw [heq] at h
      cases h
      exact ⟨.singleton _, rfl, rfl, by simp, by simp⟩
    · rw [heq] at h
      cases h
    · rw [heq] at h
      cases h
    · cases hdepth
  | succ depth ih =>
    rcases r.search_cases goal (depth + 1) start visited with
      ⟨rfl, heq⟩ | ⟨-, -, heq⟩ | ⟨-, -, -, heq⟩ | ⟨env, _, hne, hnew, henv, hdepth, heq⟩
    · rw [heq] at h
      cases h
      exact ⟨.singleton _, rfl, rfl, by simp, by simp⟩
    · rw [heq] at h
      cases h
    · rw [heq] at h
      cases h
    · cases hdepth
      rw [heq] at h
      obtain ⟨rest, hrest, rfl⟩ := Option.map_eq_some_iff.1 h
      obtain ⟨next, hnext, visited', hsub, hfound⟩ :=
        path_of_searchEach (r.visited_search goal depth) hrest
      have hpath := ih hfound
      have hstart : start ∉ rest := fun hmem =>
        (hpath.avoids start hmem).elim hne fun hnot => hnot (hsub (by simp))
      refine ⟨?_, rfl, ?_, List.nodup_cons.2 ⟨hstart, hpath.simple⟩, fun id hid => ?_⟩
      · refine hpath.chain.cons fun id hid => ?_
        obtain rfl : next = id := Option.some.inj (hpath.head.symm.trans hid)
        exact ⟨env, henv, hnext⟩
      · rw [List.getLast?_cons, hpath.last]
        rfl
      · rcases List.mem_cons.1 hid with rfl | hid
        · exact .inr hnew
        · exact (hpath.avoids id hid).imp_right fun hnot hmem =>
            hnot (hsub (List.mem_cons_of_mem _ hmem))

/-- A cycle that is found goes from the requester over the target back to the requester. -/
theorem findCycle?_sound {requester target : EnvId} {cycle : List EnvId}
    (h : r.findCycle? requester target = some cycle) :
    ∃ rest, cycle = requester :: target :: rest ∧ (target :: rest).IsChain r.Requires ∧
      (target :: rest).getLast? = some requester ∧ cycle.dropLast.Nodup := by
  obtain ⟨path, hpath, rfl⟩ := Option.map_eq_some_iff.1 h
  have hpath := isPath_of_search hpath
  obtain ⟨rest, rfl⟩ : ∃ rest, path = target :: rest := by
    cases path with
    | nil => cases hpath.head
    | cons first rest => exact ⟨rest, by rw [Option.some.inj hpath.head]⟩
  refine ⟨rest, rfl, hpath.chain, hpath.last, ?_⟩
  rw [List.dropLast_cons_of_ne_nil (by simp), List.nodup_cons]
  have hsimple := hpath.simple
  rw [← List.dropLast_append_getLast? _ hpath.last] at hsimple
  have hparts := List.nodup_append.1 hsimple
  exact ⟨fun hmem => hparts.2.2 _ hmem requester (by simp) rfl, hparts.1⟩

/-! ## Exhaustion -/

/-- The number of environments that were not visited. -/
def unvisited (r : Registry) (visited : List EnvId) : Nat :=
  ((Finset.range r.envs.length).filter fun i => .user i ∉ visited).card

theorem unvisited_le (r : Registry) (visited : List EnvId) :
    r.unvisited visited ≤ r.envs.length :=
  (Finset.card_filter_le _ _).trans (by simp)

theorem unvisited_mono (r : Registry) (h : visited ⊆ visited') :
    r.unvisited visited' ≤ r.unvisited visited :=
  Finset.card_le_card fun i hi => by
    simp only [Finset.mem_filter] at hi ⊢
    exact ⟨hi.1, fun hmem => hi.2 (h hmem)⟩

/-- After one more environment is visited. -/
theorem unvisited_cons_lt {env : Environment} (henv : r.get? start = some env)
    (hnew : start ∉ visited) : r.unvisited (start :: visited) < r.unvisited visited := by
  obtain ⟨i, hi, hget⟩ := Option.bind_eq_some_iff.1 henv
  obtain rfl := EnvId.userIndex?_eq_some_iff.1 hi
  have hin := (List.getElem?_eq_some_iff.1 hget).1
  refine Finset.card_lt_card ((Finset.ssubset_iff_of_subset fun j hj => ?_).2 ⟨i, ?_, ?_⟩)
  · simp only [Finset.mem_filter, List.mem_cons, not_or] at hj ⊢
    exact ⟨hj.1, hj.2.2⟩
  · simp [hin, hnew]
  · simp

/-- Everything that was visited anew is not the goal, and what it requires was visited. -/
structure Explored (r : Registry) (goal : EnvId) (visited visited' : List EnvId) : Prop where
  subset : visited ⊆ visited'
  closed : ∀ id ∈ visited', id ∈ visited ∨ (id ≠ goal ∧ ∀ other, r.Requires id other →
    other ∈ visited')

theorem Explored.refl (r : Registry) (goal : EnvId) (visited : List EnvId) :
    r.Explored goal visited visited :=
  ⟨List.Subset.refl _, fun _ hid => .inl hid⟩

theorem Explored.trans {visited'' : List EnvId} (h : r.Explored goal visited visited')
    (h' : r.Explored goal visited' visited'') : r.Explored goal visited visited'' := by
  refine ⟨List.Subset.trans h.subset h'.subset, fun id hid => ?_⟩
  rcases h'.closed id hid with hmem | hclosed
  · exact (h.closed id hmem).imp_right fun ⟨hne, hreq⟩ =>
      ⟨hne, fun other hother => h'.subset (hreq other hother)⟩
  · exact .inr hclosed

/-- An environment that requires nothing is explored when it is visited. -/
theorem explored_cons (hne : start ≠ goal) (hnone : r.get? start = none) :
    r.Explored goal visited (start :: visited) := by
  refine ⟨List.subset_cons_self _ _, fun id hid => ?_⟩
  rcases List.mem_cons.1 hid with rfl | hid
  · refine .inr ⟨hne, fun other ⟨env, henv, _⟩ => ?_⟩
    rw [hnone] at henv
    cases henv
  · exact .inl hid

/-- Several searches without a path have explored all of their starts. -/
theorem explored_of_searchEach (r : Registry) (goal : EnvId) {search : EnvId → List EnvId → Search}
    (h : ∀ start visited, r.unvisited visited ≤ depth → (search start visited).path? = none →
      start ∈ (search start visited).visited ∧
        r.Explored goal visited (search start visited).visited)
    {starts : List EnvId} (hfew : r.unvisited visited ≤ depth)
    (hnone : (searchEach search starts visited).path? = none) :
    (∀ start ∈ starts, start ∈ (searchEach search starts visited).visited) ∧
      r.Explored goal visited (searchEach search starts visited).visited := by
  induction starts generalizing visited with
  | nil => exact ⟨nofun, .refl r goal visited⟩
  | cons start rest ih =>
    have hstart := h start visited hfew
    rw [searchEach] at hnone ⊢
    generalize search start visited = found at hstart hnone ⊢
    obtain ⟨path?, visited₁⟩ := found
    cases path? with
    | some path => cases hnone
    | none =>
      obtain ⟨hmem, hexplored⟩ := hstart rfl
      obtain ⟨hothers, hrest⟩ := ih (Nat.le_trans (r.unvisited_mono hexplored.subset) hfew) hnone
      refine ⟨fun other hother => ?_, hexplored.trans hrest⟩
      rcases List.mem_cons.1 hother with rfl | hother
      · exact hrest.subset hmem
      · exact hothers other hother

/-- A search without a path, which may go as deep as there are environments left, has explored its
start. -/
theorem explored_of_search (hfew : r.unvisited visited ≤ depth)
    (hnone : (r.search goal depth start visited).path? = none) :
    start ∈ (r.search goal depth start visited).visited ∧
      r.Explored goal visited (r.search goal depth start visited).visited := by
  induction depth generalizing start visited with
  | zero =>
    rcases r.search_cases goal 0 start visited with
      ⟨-, heq⟩ | ⟨-, hmem, heq⟩ | ⟨hne, hnew, -, heq⟩ | ⟨_, _, -, -, -, hdepth, -⟩
    · rw [heq] at hnone
      cases hnone
    · rw [heq]
      exact ⟨hmem, .refl r goal visited⟩
    · rw [heq]
      refine ⟨by simp, explored_cons hne ?_⟩
      rw [← Option.not_isSome_iff_eq_none]
      intro hsome
      obtain ⟨env, henv⟩ := Option.isSome_iff_exists.1 hsome
      have hlt := unvisited_cons_lt henv hnew
      omega
    · cases hdepth
  | succ depth ih =>
    rcases r.search_cases goal (depth + 1) start visited with
      ⟨-, heq⟩ | ⟨-, hmem, heq⟩ | ⟨hne, -, hend, heq⟩ | ⟨env, _, hne, hnew, henv, hdepth, heq⟩
    · rw [heq] at hnone
      cases hnone
    · rw [heq]
      exact ⟨hmem, .refl r goal visited⟩
    · rw [heq]
      exact ⟨by simp, explored_cons hne (hend.resolve_right (by simp))⟩
    · cases hdepth
      rw [heq] at hnone ⊢
      have hlt := unvisited_cons_lt henv hnew
      obtain ⟨hothers, hexplored⟩ := explored_of_searchEach r goal
        (fun _ _ => ih) (Nat.le_of_lt_succ (Nat.lt_of_lt_of_le hlt hfew))
        (by simpa using hnone)
      refine ⟨hexplored.subset (by simp),
        List.Subset.trans (List.subset_cons_self _ _) hexplored.subset, fun id hid => ?_⟩
      rcases hexplored.closed id hid with hmem | hclosed
      · rcases List.mem_cons.1 hmem with rfl | hmem
        · refine .inr ⟨hne, fun other ⟨env', henv', hother⟩ => ?_⟩
          obtain rfl := Option.some.inj (henv.symm.trans henv')
          exact hothers other hother
        · exact .inl hmem
      · exact .inr hclosed

/-- If no cycle is found, the target does not require the requester, directly or not. -/
theorem findCycle?_complete {requester target : EnvId}
    (h : r.findCycle? requester target = none) :
    ¬Relation.ReflTransGen r.Requires target requester := by
  intro hreaches
  have hnone : (r.search requester r.envs.length target []).path? = none := by
    simpa [findCycle?] using h
  obtain ⟨hstart, hexplored⟩ := explored_of_search (r.unvisited_le []) hnone
  -- What was visited is closed under requirements, and does not have the goal.
  have hclosed (id : EnvId) (hid : Relation.ReflTransGen r.Requires target id) :
      id ∈ (r.search requester r.envs.length target []).visited := by
    induction hid with
    | refl => exact hstart
    | tail _ hstep ih => exact ((hexplored.closed _ ih).resolve_left (by simp)).2 _ hstep
  exact ((hexplored.closed _ (hclosed requester hreaches)).resolve_left (by simp)).1 rfl

/-! ## The search without a bound -/

mutual
/-- The search with nothing that bounds its depth. It has a result only if it comes to an end. -/
inductive Searches (r : Registry) (goal : EnvId) : EnvId → List EnvId → Search → Prop
  | atGoal (visited : List EnvId) : r.Searches goal goal visited ⟨some [goal], visited⟩
  | again {start : EnvId} {visited : List EnvId} (hne : start ≠ goal) (hmem : start ∈ visited) :
    r.Searches goal start visited ⟨none, visited⟩
  | unregistered {start : EnvId} {visited : List EnvId} (hne : start ≠ goal)
    (hnew : start ∉ visited) (hnone : r.get? start = none) :
    r.Searches goal start visited ⟨none, start :: visited⟩
  | descend {start : EnvId} {visited : List EnvId} {env : Environment} {found : Search}
    (hne : start ≠ goal) (hnew : start ∉ visited) (henv : r.get? start = some env)
    (hfound : r.SearchesEach goal env.requirements (start :: visited) found) :
    r.Searches goal start visited ⟨found.path?.map (start :: ·), found.visited⟩

/-- Several such searches, one after the other until one has a path. What one of them visited stays
visited for the next. -/
inductive SearchesEach (r : Registry) (goal : EnvId) : List EnvId → List EnvId → Search → Prop
  | nil (visited : List EnvId) : r.SearchesEach goal [] visited ⟨none, visited⟩
  | hit {start : EnvId} {rest visited visited' path : List EnvId}
    (hstart : r.Searches goal start visited ⟨some path, visited'⟩) :
    r.SearchesEach goal (start :: rest) visited ⟨some path, visited'⟩
  | miss {start : EnvId} {rest visited visited' : List EnvId} {found : Search}
    (hstart : r.Searches goal start visited ⟨none, visited'⟩)
    (hrest : r.SearchesEach goal rest visited' found) :
    r.SearchesEach goal (start :: rest) visited found
end

/-- Several searches that end, of which the later ones have no more environments left. -/
theorem searchesEach_searchEach {search : EnvId → List EnvId → Search}
    (hvisited : ∀ start visited, visited ⊆ (search start visited).visited)
    (h : ∀ start visited, r.unvisited visited ≤ depth →
      r.Searches goal start visited (search start visited))
    (starts : List EnvId) (hfew : r.unvisited visited ≤ depth) :
    r.SearchesEach goal starts visited (searchEach search starts visited) := by
  induction starts generalizing visited with
  | nil => exact .nil visited
  | cons start rest ih =>
    have hstart := h start visited hfew
    have hsub := hvisited start visited
    rw [searchEach]
    generalize search start visited = found at hstart hsub ⊢
    obtain ⟨path?, visited'⟩ := found
    cases path? with
    | some path => exact .hit hstart
    | none => exact .miss hstart (ih (Nat.le_trans (r.unvisited_mono hsub) hfew))

/-- A search that may go as deep as there are environments left is the search without a bound. -/
theorem searches_search (hfew : r.unvisited visited ≤ depth) :
    r.Searches goal start visited (r.search goal depth start visited) := by
  induction depth generalizing start visited with
  | zero =>
    rcases r.search_cases goal 0 start visited with
      ⟨rfl, heq⟩ | ⟨hne, hmem, heq⟩ | ⟨hne, hnew, -, heq⟩ | ⟨_, _, -, -, -, hdepth, -⟩
    · exact heq ▸ .atGoal visited
    · exact heq ▸ .again hne hmem
    · rw [heq]
      refine .unregistered hne hnew ?_
      rw [Option.eq_none_iff_forall_ne_some]
      intro env henv
      have hlt := unvisited_cons_lt henv hnew
      omega
    · cases hdepth
  | succ depth ih =>
    rcases r.search_cases goal (depth + 1) start visited with
      ⟨rfl, heq⟩ | ⟨hne, hmem, heq⟩ | ⟨hne, hnew, hend, heq⟩ | ⟨env, _, hne, hnew, henv, hdepth, heq⟩
    · exact heq ▸ .atGoal visited
    · exact heq ▸ .again hne hmem
    · exact heq ▸ .unregistered hne hnew (hend.resolve_right (by simp))
    · cases hdepth
      rw [heq]
      have hlt := unvisited_cons_lt henv hnew
      exact .descend hne hnew henv (searchesEach_searchEach (r.visited_search goal depth)
        (fun _ _ => ih) env.requirements (Nat.le_of_lt_succ (Nat.lt_of_lt_of_le hlt hfew)))

/-- What a path of requirements leads to is required, directly or not. -/
theorem reflTransGen_of_isChain {first last : EnvId} (hchain : path.IsChain r.Requires)
    (hfirst : path.head? = some first) (hlast : path.getLast? = some last) :
    Relation.ReflTransGen r.Requires first last := by
  induction path generalizing first with
  | nil => cases hfirst
  | cons id rest ih =>
    obtain rfl := Option.some.inj hfirst
    cases rest with
    | nil =>
      obtain rfl := Option.some.inj hlast
      exact .refl
    | cons next rest =>
      obtain ⟨hstep, hchain⟩ := List.isChain_cons_cons.1 hchain
      exact .head hstep (ih hchain rfl (by simpa using hlast))

/-- The search for a cycle decides whether an environment is required by another one, directly or
not. It ends without a bound on its depth. It finds a cycle exactly if the requester is the target
or is required by it, directly or not. A cycle that it finds begins with the requester and the
target, ends with the requester, has a requirement at every step after the first, and has no other
environment twice. -/
theorem cycle_search_decides_reachability (r : Registry) (requester target : EnvId) :
    (∃ found, r.Searches requester target [] found ∧
      r.findCycle? requester target = found.path?.map (requester :: ·)) ∧
    ((r.findCycle? requester target).isSome ↔
      requester = target ∨ Relation.TransGen r.Requires target requester) ∧
    ∀ cycle ∈ r.findCycle? requester target, ∃ rest, cycle = requester :: target :: rest ∧
      cycle.getLast? = some requester ∧ (target :: rest).IsChain r.Requires ∧
      ∀ id, id ≠ requester → cycle.count id ≤ 1 := by
  refine ⟨⟨_, searches_search (r.unvisited_le []), rfl⟩, ?_, fun cycle hcycle => ?_⟩
  · rw [← Relation.reflTransGen_iff_eq_or_transGen]
    constructor
    · intro hsome
      obtain ⟨cycle, hcycle⟩ := Option.isSome_iff_exists.1 hsome
      obtain ⟨rest, -, hchain, hlast, -⟩ := findCycle?_sound hcycle
      exact reflTransGen_of_isChain hchain rfl hlast
    · intro hreaches
      rw [← Option.ne_none_iff_isSome]
      exact fun hnone => findCycle?_complete hnone hreaches
  · obtain ⟨rest, hcons, hchain, hlast, hsimple⟩ := findCycle?_sound hcycle
    have hlast' : cycle.getLast? = some requester := by rw [hcons, List.getLast?_cons_cons, hlast]
    refine ⟨rest, hcons, hlast', hchain, fun id hid => ?_⟩
    have hsplit : cycle.count id = cycle.dropLast.count id := by
      rw [← List.dropLast_append_getLast? requester hlast', List.count_append]
      simp [hid.symm]
    exact hsplit ▸ List.nodup_iff_count_le_one.1 hsimple id

end Registry

end HybroidSema
