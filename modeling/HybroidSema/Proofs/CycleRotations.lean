import HybroidSema.Proofs.Cycles
import Mathlib.Data.List.Rotate

/-!
# How often one import cycle is reported

A cycle of requirements can be listed from each of its members, and a report is only held back if
there was one for the same two environments. So a cycle of two environments is reported once, but a
longer one may be reported again by another member that accesses the next one once more.

* `BuildOutput.Describes`: the cycle that an alert is about, from the environment that reports it.
* `named_of_analyze`: whatever is required can be found by its name.
* `cyclePair?_of_describes`: an alert is about the first edge of the cycle that it lists.
* `cycle_reported_once_by_member`: what is true of two alerts about one cycle.
* `analyze_reports_ring_twice`: a cycle of three environments that is reported twice.
-/

namespace HybroidSema

/-- The alert lists a cycle of requirements without a repetition, beginning and ending with the
environment that reports it. -/
structure BuildOutput.Describes (out : BuildOutput) (entry : EnvId × Alert) (cycle : List EnvId) :
    Prop where
  first : cycle.head? = some entry.1
  chain : (cycle ++ [entry.1]).IsChain out.registry.Requires
  simple : cycle.Nodup
  listed : entry.2.kind = .importCycle ((cycle ++ [entry.1]).map out.registry.nameOf)

open Machine Session

/-- Whatever is required, and requires something itself, can be found by its name. -/
theorem named_of_analyze {config : Config} {files : List (String × Program)} {out : BuildOutput}
    (h : analyze config files = .ok out) {a b d : EnvId} (hreq : out.registry.Requires a b)
    (hreq' : out.registry.Requires b d) :
    out.registry.lookup? (out.registry.nameOf b) = some b := by
  have hloaded := loaded_ofFiles config files
  obtain ⟨m, hrun, -, hresult⟩ := run_analyze config files
  obtain ⟨programs, hok, -, -⟩ := hresult.resolve_right (by simp [h])
  obtain rfl : _ = out := Except.ok.inj (hok.symm.trans h)
  have hlength : (ofFiles config files).alerts.length =
      (ofFiles config files).registry.envs.length := by
    rw [hloaded.length]
    exact length_eq_of_isSome fun i => by simp [alerts_ofFiles]
  have htells := hrun.tells hloaded.steady hlength (load_tells config files)
  obtain ⟨env, he, -⟩ := hreq'
  obtain ⟨name, hlookup⟩ := htells.named a b hreq
  rw [Registry.nameOf_of_lookup? (hrun.steady hloaded.steady).ids hlookup he]
  exact hlookup

variable {config : Config} {files : List (String × Program)} {out : BuildOutput}

/-- Every alert about an import cycle describes one. -/
theorem BuildOutput.Reports.describes {reports : List CycleReport} (h : out.Reports reports)
    {entry : EnvId × Alert} {names : List String} (hmem : entry ∈ out.allAlerts)
    (hkind : entry.2.kind = .importCycle names) : ∃ cycle, out.Describes entry cycle := by
  obtain ⟨id, alert⟩ := entry
  obtain ⟨i, d, hd, rfl, halert⟩ := BuildOutput.mem_allAlerts.1 hmem
  have hcycle : names ∈ d.cycles :=
    List.mem_filterMap.2 ⟨alert, halert, AlertKind.cycle?_eq_some_iff.2 hkind⟩
  rw [h.alerts i d hd] at hcycle
  obtain ⟨p, hp, rfl⟩ := List.mem_map.1 hcycle
  obtain ⟨hp, hrequester⟩ := List.mem_filter.1 hp
  have hid : p.requester = .user i := of_decide_eq_true hrequester
  have hvalid := h.valid p hp
  obtain ⟨rest, hpath⟩ := hvalid.ends
  have hlast := hvalid.closed
  rw [hid] at hlast hpath
  have hsplit : p.path.dropLast ++ [EnvId.user i] = p.path :=
    List.dropLast_append_getLast? _ hlast
  refine ⟨p.path.dropLast, by simp [hpath], ?_, hvalid.simple, ?_⟩
  · rw [hsplit]
    exact hvalid.chain
  · rw [hsplit]
    exact hkind

/-- An alert is about the first edge of the cycle that it lists. -/
theorem cyclePair?_of_describes (h : analyze config files = .ok out) {entry : EnvId × Alert}
    {first : EnvId} {rest : List EnvId} (hcycle : out.Describes entry (first :: rest)) :
    out.registry.cyclePair? entry = some s(first, (rest ++ [first]).head (by simp)) := by
  obtain ⟨id, alert⟩ := entry
  obtain rfl : first = id := by simpa using hcycle.first
  have hchain := hcycle.chain
  have hlisted := hcycle.listed
  unfold Registry.cyclePair?
  rw [AlertKind.cycle?_eq_some_iff.2 hlisted]
  -- The second member is required by the first, and it requires the one after it.
  cases rest with
  | nil =>
    have hself := hchain.rel
    have hnamed := named_of_analyze h hself hself
    simp [hnamed]
  | cons second others =>
    have hnext : ∃ third, out.registry.Requires second third := by
      cases others with
      | nil => exact ⟨_, hchain.tail.rel⟩
      | cons third others => exact ⟨third, hchain.tail.rel⟩
    obtain ⟨third, hthird⟩ := hnext
    have hnamed := named_of_analyze h hchain.rel hthird
    simp [hnamed]

/-- A rotation of a list without repetitions that begins with the same element. -/
theorem eq_of_isRotated_of_head {α : Type} {l l' : List α} (hrotated : l ~r l') (hnodup : l.Nodup)
    (hhead : l.head? = l'.head?) : l = l' := by
  obtain ⟨n, rfl⟩ := hrotated
  cases l with
  | nil => simp
  | cons first rest =>
    have hlt : n % (first :: rest).length < (first :: rest).length :=
      Nat.mod_lt _ (by simp)
    rw [← List.rotate_mod, List.head?_rotate hlt, List.head?_eq_getElem?] at hhead
    have hzero : 0 = n % (first :: rest).length := (List.getElem?_inj (by simp) hnodup).1 hhead
    rw [← List.rotate_mod, ← hzero, List.rotate_zero]

/-- How often one cycle is reported. Every alert about an import cycle describes one, and if two
alerts describe the same cycle, up to where it begins, then it has at least three members and the
alerts are from different ones. -/
theorem cycle_reported_once_by_member (h : analyze config files = .ok out) :
    (∀ entry ∈ out.allAlerts, ∀ names, entry.2.kind = .importCycle names →
      ∃ cycle, out.Describes entry cycle) ∧
    out.allAlerts.Pairwise fun entry entry' => ∀ cycle cycle', out.Describes entry cycle →
      out.Describes entry' cycle' → cycle ~r cycle' → entry.1 ≠ entry'.1 ∧ 3 ≤ cycle.length := by
  obtain ⟨reports, hreports⟩ := reports_of_analyze h
  refine ⟨fun entry hmem names hkind => hreports.describes hmem hkind, ?_⟩
  have hpairs := List.pairwise_filterMap.1 hreports.nodup_pairs
  refine hpairs.imp fun {entry entry'} hne cycle cycle' hcycle hcycle' hrotated => ?_
  -- Two alerts are about different pairs, so they list different edges first.
  have hedges {first first' : EnvId} {rest rest' : List EnvId} (heq : cycle = first :: rest)
      (heq' : cycle' = first' :: rest') :
      s(first, (rest ++ [first]).head (by simp)) ≠ s(first', (rest' ++ [first']).head (by simp)) :=
    hne _ (cyclePair?_of_describes h (heq ▸ hcycle)) _ (cyclePair?_of_describes h (heq' ▸ hcycle'))
  have hother : entry.1 ≠ entry'.1 := by
    intro heq
    have hsame : cycle = cycle' := eq_of_isRotated_of_head hrotated hcycle.simple
      (hcycle.first.trans (heq ▸ hcycle'.first.symm))
    subst hsame
    obtain ⟨rest, hrest⟩ := List.head?_eq_some_iff.1 hcycle.first
    exact hedges hrest hrest rfl
  refine ⟨hother, Nat.lt_of_not_le fun hle => ?_⟩
  obtain ⟨rest, hrest⟩ := List.head?_eq_some_iff.1 hcycle.first
  obtain ⟨rest', hrest'⟩ := List.head?_eq_some_iff.1 hcycle'.first
  have hlength := hrotated.perm.length_eq
  have hmem : entry'.1 ∈ cycle := hrotated.mem_iff.2 (by simp [hrest'])
  have hmem' : entry.1 ∈ cycle' := hrotated.mem_iff.1 (by simp [hrest])
  rw [hrest] at hle hlength hmem
  rw [hrest'] at hlength hmem'
  match rest, rest' with
  | [], [] => exact hother (by simpa using hmem')
  | [second], [second'] =>
    obtain rfl : entry'.1 = second := by simpa [hother.symm] using hmem
    obtain rfl : entry.1 = second' := by simpa [hother] using hmem'
    exact hedges hrest hrest' (by simp [Sym2.eq_swap])

/-! ## A ring of three -/

/-- Three programs that use each other in a ring. The first one also reads a variable of the one
that it uses. -/
def ringFiles : List (String × Program) :=
  [("a.hyb", usingProgram "A" "B" ++ [.variable ⟨[⟨"x", .synthetic⟩], none,
      [.envAccess ⟨"B", .synthetic⟩ ⟨"k", .synthetic⟩ .synthetic], false, false, .synthetic⟩]),
    ("b.hyb", usingProgram "B" "C" ++ [.variable ⟨[⟨"k", .synthetic⟩], none,
      [.literal ⟨.number, "1", .synthetic⟩], true, false, .synthetic⟩]),
    ("c.hyb", usingProgram "C" "A")]

/-- The names of the environments of a build with what they require, and the cycles that were
reported with the environments that reported them. -/
def linksOf (result : Except CompileError BuildOutput) :
    List (String × List EnvId) × List (EnvId × List String) :=
  match result with
  | .ok out => (out.registry.envs.map fun env => (env.name, env.requirements),
      out.allAlerts.filterMap fun entry => entry.2.kind.cycle?.map (entry.1, ·))
  | .error _ => ([], [])

/-- The third environment of the ring reports it, and then the first one does. -/
theorem linksOf_ring : linksOf (analyze {} ringFiles) =
    ([("A", [.user 1]), ("B", [.user 2]), ("C", [.user 0])],
      [(.user 0, ["A", "B", "C", "A"]), (.user 2, ["C", "A", "B", "C"])]) := by
  decide +kernel

theorem analyze_ring : ∃ out, analyze {} ringFiles = .ok out := by
  have hlinks := linksOf_ring
  cases hout : analyze {} ringFiles with
  | error e =>
    rw [hout] at hlinks
    cases hlinks
  | ok out => exact ⟨out, rfl⟩

/-- The name of an environment and what it requires. -/
theorem nameOf_of_links {r : Registry} {i : Nat} {name : String} {required : List EnvId}
    (h : (r.envs.map fun env => (env.name, env.requirements))[i]? = some (name, required)) :
    r.nameOf (.user i) = name ∧ ∀ id ∈ required, r.Requires (.user i) id := by
  rw [List.getElem?_map] at h
  obtain ⟨env, he, heq⟩ := Option.map_eq_some_iff.1 h
  obtain ⟨rfl, rfl⟩ := Prod.mk.inj heq
  have hget := (Registry.get?_user r i).trans he
  refine ⟨?_, fun id hid => ⟨env, hget, hid⟩⟩
  simp [Registry.nameOf, hget]

/-- A cycle of three environments is reported twice: by the one that closes it, and by the first
one when it reads a variable of the second. -/
theorem analyze_reports_ring_twice :
    ¬∀ config files out, analyze config files = .ok out →
      out.allAlerts.Pairwise fun entry entry' => ∀ cycle cycle', out.Describes entry cycle →
        out.Describes entry' cycle' → ¬cycle ~r cycle' := by
  intro hall
  obtain ⟨out, hout⟩ := analyze_ring
  have hlinks := linksOf_ring
  rw [hout] at hlinks
  obtain ⟨henvs, hcycles⟩ := Prod.mk.inj hlinks
  obtain ⟨hA, hAB⟩ := nameOf_of_links (congrArg (·[0]?) henvs)
  obtain ⟨hB, hBC⟩ := nameOf_of_links (congrArg (·[1]?) henvs)
  obtain ⟨hC, hCA⟩ := nameOf_of_links (congrArg (·[2]?) henvs)
  simp only [List.forall_mem_singleton] at hAB hBC hCA
  have hpairs : (out.allAlerts.filterMap fun entry => entry.2.kind.cycle?.map (entry.1, ·)).Pairwise
      fun report report' => ¬(report = (.user 0, ["A", "B", "C", "A"]) ∧
        report' = (.user 2, ["C", "A", "B", "C"])) := by
    refine List.pairwise_filterMap.2 ((hall _ _ out hout).imp ?_)
    rintro ⟨id, alert⟩ ⟨id', alert'⟩ hdiffer report hreport report' hreport' ⟨rfl, rfl⟩
    obtain ⟨names, hkind, heq⟩ := Option.map_eq_some_iff.1 hreport
    obtain ⟨names', hkind', heq'⟩ := Option.map_eq_some_iff.1 hreport'
    obtain ⟨rfl, rfl⟩ := Prod.mk.inj heq
    obtain ⟨rfl, rfl⟩ := Prod.mk.inj heq'
    refine hdiffer [.user 0, .user 1, .user 2] [.user 2, .user 0, .user 1]
      ⟨rfl, ?_, by decide, ?_⟩ ⟨rfl, ?_, by decide, ?_⟩ ⟨2, rfl⟩
    · exact .cons_cons hAB (.cons_cons hBC (.cons_cons hCA (.singleton _)))
    · simpa [hA, hB, hC] using AlertKind.cycle?_eq_some_iff.1 hkind
    · exact .cons_cons hCA (.cons_cons hAB (.cons_cons hBC (.singleton _)))
    · simpa [hA, hB, hC] using AlertKind.cycle?_eq_some_iff.1 hkind'
  rw [hcycles] at hpairs
  simp at hpairs

/-- The two alerts about the ring are from different members of it. -/
theorem cycle_reported_once_by_member_ring : ∃ out, analyze {} ringFiles = .ok out ∧
    (linksOf (.ok out)).2.length = 2 ∧
    out.allAlerts.Pairwise fun entry entry' => ∀ cycle cycle', out.Describes entry cycle →
      out.Describes entry' cycle' → cycle ~r cycle' → entry.1 ≠ entry'.1 ∧ 3 ≤ cycle.length := by
  obtain ⟨out, hout⟩ := analyze_ring
  refine ⟨out, hout, ?_, (cycle_reported_once_by_member hout).2⟩
  rw [← hout, linksOf_ring]
  rfl

end HybroidSema
