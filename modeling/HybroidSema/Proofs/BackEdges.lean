import HybroidSema.Proofs.CycleSearch
import Mathlib.Data.List.Infix

/-!
# Cycles are found at their back edges

Environments are walked depth first along their requirements. A requirement of an environment that
is still being walked is a back edge, and every cycle has one: the edge into the environment of the
cycle whose walk ends last. So all cycles are found if each back edge is reported by the environment
that has it.

The theory here is about requirements, states of environments and a stack of walks alone. A walk
may have requirements pending for which it has not asked yet, but not when it ends.

* `Watch`: what holds at any time of such a search.
* `Watch.push`, `require`, `settle`, `report` and `pop`: what is done to the stack.
-/

namespace HybroidSema

/-- An import cycle that was reported: who asked for whom, and the path from the one over the other
back. -/
structure CycleReport where
  requester : EnvId
  target : EnvId
  path : List EnvId

/-- The unordered pair of a report. -/
def CycleReport.key (p : CycleReport) : EnvId × EnvId := Registry.cycleKey p.requester p.target

/-- A path goes from the requester over the target back to the requester, along requirements and
without a repetition. -/
structure CycleReport.Valid (R : EnvId → EnvId → Prop) (p : CycleReport) : Prop where
  ends : ∃ rest, p.path = p.requester :: p.target :: rest
  chain : p.path.IsChain R
  closed : p.path.getLast? = some p.requester
  simple : p.path.dropLast.Nodup

theorem Registry.cycleKey_eq_iff {a b c d : EnvId} :
    cycleKey a b = cycleKey c d ↔ (a = c ∧ b = d) ∨ (a = d ∧ b = c) := by
  obtain ⟨a⟩ := a
  obtain ⟨b⟩ := b
  obtain ⟨c⟩ := c
  obtain ⟨d⟩ := d
  unfold cycleKey
  split_ifs <;> simp only [Prod.mk.injEq, EnvId.mk.injEq] <;> simp only at * <;> omega

/-- A path that comes back to where it begins. -/
def IsClosed (path : List EnvId) : Prop :=
  ∃ first rest, path = first :: rest ∧ rest.getLast? = some first

/-- Every element of a closed path has one before it. -/
theorem IsClosed.before {path : List EnvId} (h : IsClosed path) {id : EnvId} (hid : id ∈ path) :
    ∃ before, [before, id] <:+: path := by
  obtain ⟨first, rest, rfl, hlast⟩ := h
  have hrest : id ∈ rest := by
    rcases List.mem_cons.1 hid with rfl | hid
    · exact List.mem_of_getLast? hlast
    · exact hid
  obtain ⟨left, right, rfl⟩ := List.append_of_mem hrest
  rcases List.eq_nil_or_concat left with rfl | ⟨init, before, rfl⟩
  · exact ⟨first, [], right, rfl⟩
  · exact ⟨before, first :: init, right, by simp⟩

/-- Every element of a closed path has one after it. -/
theorem IsClosed.after {path : List EnvId} (h : IsClosed path) {id : EnvId} (hid : id ∈ path) :
    ∃ after, [id, after] <:+: path := by
  obtain ⟨first, rest, rfl, hlast⟩ := h
  have hfirst : ∃ after, [first, after] <:+: first :: rest := by
    cases rest with
    | nil => cases hlast
    | cons next rest => exact ⟨next, [], rest, rfl⟩
  rcases List.mem_cons.1 hid with rfl | hid
  · exact hfirst
  · obtain ⟨left, right, rfl⟩ := List.append_of_mem hid
    cases right with
    | nil =>
      obtain rfl : id = first := by simpa using hlast
      exact hfirst
    | cons next right => exact ⟨next, first :: left, right, by simp⟩

theorem rel_of_consecutive {R : EnvId → EnvId → Prop} {path : List EnvId} {a b : EnvId}
    (h : path.IsChain R) (hconsecutive : [a, b] <:+: path) : R a b := by
  simpa using h.infix hconsecutive

/-- Requirements, states, a stack of walks with what each has pending, and the reports so far. -/
structure Watch (R : EnvId → EnvId → Prop) (state : EnvId → Option WalkState)
    (stack : List (EnvId × List EnvId)) (reports : List CycleReport) : Prop where
  /-- The environments that are being walked. -/
  walking : ∀ id, id ∈ stack.map Prod.fst ↔ state id = some .walking
  distinct : (stack.map Prod.fst).Nodup
  /-- Each walk was begun by the one below it. -/
  chain : (stack.map Prod.fst).IsChain fun upper lower => R lower upper
  irrefl : ∀ a, ¬R a a
  /-- An environment that waits requires nothing. -/
  started : ∀ a b, R a b → ∃ s, state a = some s ∧ s ≠ .notWalked
  valid : ∀ p ∈ reports, p.Valid R
  once : (reports.map CycleReport.key).Nodup
  /-- A walk has reported its back edges, unless they are pending. -/
  settled : ∀ id pending below, (id, pending) :: below <:+ stack → ∀ target s, R id target →
    state target = some s → target ∈ pending ∨ (s ≠ .notWalked ∧
      (target ∈ below.map Prod.fst → ∃ p ∈ reports, p.requester = id ∧ p.target = target))
  /-- A pair of two walks was reported by the upper one. -/
  upper : ∀ id pending below, (id, pending) :: below <:+ stack → ∀ target ∈ below.map Prod.fst,
    ∀ p ∈ reports, p.key = Registry.cycleKey id target → p.requester = id ∧ p.target = target
  /-- What was walked has reported its edges into walks. -/
  done : ∀ a b s, state a = some .walked → R a b → state b = some s → s ≠ .notWalked ∧
    (s = .walking → ∃ p ∈ reports, p.requester = a ∧ p.target = b)
  /-- A cycle of environments that were walked has a reported edge. -/
  cycles : ∀ path : List EnvId, path.IsChain R → IsClosed path →
    (∀ id ∈ path, state id = some .walked) →
    ∃ a b, [a, b] <:+: path ∧ ∃ p ∈ reports, p.requester = a ∧ p.target = b

namespace Watch

variable {R R' : EnvId → EnvId → Prop} {state : EnvId → Option WalkState}
  {stack below : List (EnvId × List EnvId)} {reports : List CycleReport} {id target : EnvId}
  {pending : List EnvId}

/-- Both ends of a report were started. -/
theorem started_of_report (h : Watch R state stack reports) {p : CycleReport} (hp : p ∈ reports) :
    (∃ s, state p.requester = some s ∧ s ≠ .notWalked) ∧
      ∃ s, state p.target = some s ∧ s ≠ .notWalked := by
  have hvalid := h.valid p hp
  obtain ⟨rest, hpath⟩ := hvalid.ends
  have hchain := hvalid.chain
  have hclosed := hvalid.closed
  rw [hpath] at hchain hclosed
  have hedge : R p.requester p.target := hchain.rel
  refine ⟨h.started _ _ hedge, ?_⟩
  cases rest with
  | nil =>
    have heq : p.target = p.requester := by simpa using hclosed
    exact absurd (heq ▸ hedge) (h.irrefl _)
  | cons next rest => exact h.started _ _ hchain.tail.rel

/-- Every walk below the innermost one requires it, directly or not. -/
theorem reaches (h : Watch R state ((id, pending) :: below) reports)
    (htarget : target ∈ below.map Prod.fst) : Relation.ReflTransGen R target id := by
  have hchain := h.chain
  clear h
  induction below generalizing id pending with
  | nil => simp at htarget
  | cons next rest ih =>
    obtain ⟨other, pending'⟩ := next
    have hedge : R other id := hchain.rel
    rcases List.mem_cons.1 htarget with rfl | htarget
    · exact .single hedge
    · exact (ih htarget hchain.tail).tail hedge

/-- The innermost walk is of no other environment. -/
theorem top_notMem (h : Watch R state ((id, pending) :: below) reports) :
    id ∉ below.map Prod.fst ∧ state id = some .walking :=
  ⟨(List.nodup_cons.1 h.distinct).1, (h.walking id).1 (by simp)⟩

theorem suffix_cases {x y : EnvId × List EnvId} {rest : List (EnvId × List EnvId)}
    (h : x :: rest <:+ y :: below) : (x = y ∧ rest = below) ∨ x :: rest <:+ below := by
  rcases List.suffix_cons_iff.1 h with heq | hsuffix
  · exact .inl (List.cons.inj heq)
  · exact .inr hsuffix

/-- A walk and those below it, after one walk of the stack has changed what it has pending. -/
theorem suffix_replace {above rest : List (EnvId × List EnvId)} {x y y' : EnvId × List EnvId}
    (h : x :: rest <:+ above ++ y' :: below) (hid : y'.1 = y.1) :
    (x = y' ∧ rest = below) ∨
      ∃ rest', x :: rest' <:+ above ++ y :: below ∧ rest'.map Prod.fst = rest.map Prod.fst := by
  induction above with
  | nil =>
    exact (suffix_cases h).imp_right fun hsuffix => ⟨rest, hsuffix.trans (List.suffix_cons _ _), rfl⟩
  | cons first above ih =>
    rcases suffix_cases h with ⟨rfl, rfl⟩ | hsuffix
    · exact .inr ⟨above ++ y :: below, List.suffix_rfl, by simp [hid]⟩
    · exact (ih hsuffix).imp_right fun ⟨rest', hsuffix', hids⟩ =>
        ⟨rest', hsuffix'.trans (List.suffix_cons _ _), hids⟩

theorem mem_of_suffix {x : EnvId × List EnvId} {rest stack : List (EnvId × List EnvId)}
    (h : x :: rest <:+ stack) : x.1 ∈ stack.map Prod.fst :=
  List.mem_map_of_mem (h.subset (by simp))

/-! ## Asking -/

/-- A walk has asked for an environment. -/
theorem settle (above : List (EnvId × List EnvId))
    (h : Watch R state (above ++ (id, pending) :: below) reports)
    (hsettled : ∀ s, R id target → state target = some s → s ≠ .notWalked ∧
      (target ∈ below.map Prod.fst → ∃ p ∈ reports, p.requester = id ∧ p.target = target)) :
    Watch R state (above ++ (id, pending.filter (· ≠ target)) :: below) reports := by
  have hids : (above ++ (id, pending.filter (· ≠ target)) :: below).map Prod.fst =
      (above ++ (id, pending) :: below).map Prod.fst := by simp
  refine { h with
    walking := hids ▸ h.walking
    distinct := hids ▸ h.distinct
    chain := hids ▸ h.chain
    settled := ?_
    upper := ?_ }
  · intro id' pending' below' hsuffix other s hreq hstate
    rcases suffix_replace (y := (id, pending)) hsuffix rfl with ⟨heq, rfl⟩ | ⟨rest, hsuffix', hids⟩
    · obtain ⟨rfl, rfl⟩ := Prod.mk.inj heq
      by_cases hother : other = target
      · subst hother
        exact .inr (hsettled s hreq hstate)
      · rcases h.settled id' pending below' (List.suffix_append _ _) other s hreq hstate with
          hmem | hdone
        · exact .inl (by simp [hmem, hother])
        · exact .inr hdone
    · rw [← hids]
      exact h.settled id' pending' rest hsuffix' other s hreq hstate
  · intro id' pending' below' hsuffix
    rcases suffix_replace (y := (id, pending)) hsuffix rfl with ⟨heq, rfl⟩ | ⟨rest, hsuffix', hids⟩
    · obtain ⟨rfl, rfl⟩ := Prod.mk.inj heq
      exact h.upper id' pending below' (List.suffix_append _ _)
    · rw [← hids]
      exact h.upper id' pending' rest hsuffix'

/-- The innermost walk has asked for an environment with which a cycle was reported before. -/
theorem settle_reported (h : Watch R state ((id, pending) :: below) reports)
    (hpath : target ≠ id → ∃ next, R target next)
    (hknown : ∃ p ∈ reports, p.key = Registry.cycleKey id target) :
    Watch R state ((id, pending.filter (· ≠ target)) :: below) reports := by
  refine h.settle [] fun s hreq hstate => ⟨?_, fun hbelow => ?_⟩
  · obtain ⟨next, hnext⟩ := hpath fun heq => h.irrefl id (heq ▸ hreq)
    obtain ⟨s', hs', hne⟩ := h.started _ _ hnext
    obtain rfl := Option.some.inj (hstate.symm.trans hs')
    exact hne
  · obtain ⟨p, hp, hkey⟩ := hknown
    exact ⟨p, hp, h.upper id pending below List.suffix_rfl target hbelow p hp hkey⟩

/-- The innermost walk has asked for an environment that does not require it. -/
theorem settle_started (h : Watch R state ((id, pending) :: below) reports)
    (hacyclic : ¬Relation.ReflTransGen R target id)
    (hstarted : ∀ s, state target = some s → s ≠ .notWalked) :
    Watch R state ((id, pending.filter (· ≠ target)) :: below) reports :=
  h.settle [] fun s _ hstate => ⟨hstarted s hstate, fun hbelow => absurd (h.reaches hbelow) hacyclic⟩

/-- The innermost walk reports a cycle. -/
theorem report (h : Watch R state ((id, pending) :: below) reports) {path : List EnvId}
    (hvalid : CycleReport.Valid R ⟨id, target, path⟩)
    (hfresh : ∀ p ∈ reports, p.key ≠ Registry.cycleKey id target) :
    Watch R state ((id, pending.filter (· ≠ target)) :: below)
      (reports ++ [⟨id, target, path⟩]) := by
  obtain ⟨htop, -⟩ := h.top_notMem
  have hmore : Watch R state ((id, pending) :: below) (reports ++ [⟨id, target, path⟩]) := by
    refine { h with valid := ?_, once := ?_, settled := ?_, upper := ?_, done := ?_, cycles := ?_ }
    · intro p hp
      rcases List.mem_append.1 hp with hold | hnew
      · exact h.valid p hold
      · obtain rfl : p = ⟨id, target, path⟩ := by simpa using hnew
        exact hvalid
    · rw [List.map_append, List.nodup_append]
      refine ⟨h.once, by simp, fun key hkey key' hkey' heq => ?_⟩
      obtain ⟨p, hp, rfl⟩ := List.mem_map.1 hkey
      obtain rfl : key' = CycleReport.key ⟨id, target, path⟩ := by simpa using hkey'
      exact hfresh p hp heq
    · intro id' pending' below' hsuffix other s hreq hstate
      exact (h.settled id' pending' below' hsuffix other s hreq hstate).imp_right fun ⟨hs, hrep⟩ =>
        ⟨hs, fun hmem => (hrep hmem).imp fun p ⟨hp, hpair⟩ => ⟨List.mem_append_left _ hp, hpair⟩⟩
    · intro id' pending' below' hsuffix other hother p hp hkey
      rcases List.mem_append.1 hp with hold | hnew
      · exact h.upper id' pending' below' hsuffix other hother p hold hkey
      · -- The pair of the new report has the innermost walk, which is below no other one.
        obtain rfl : p = ⟨id, target, path⟩ := by simpa using hnew
        rcases Registry.cycleKey_eq_iff.1 hkey with ⟨hid, htarget⟩ | ⟨hid, -⟩
        · exact ⟨hid, htarget⟩
        · refine absurd ?_ htop
          obtain rfl : id = other := hid
          rcases suffix_cases hsuffix with ⟨-, rfl⟩ | hsuffix
          · exact hother
          · have hsub := ((List.suffix_cons _ _).trans hsuffix).subset
            exact List.map_subset _ hsub hother
    · exact fun a b s ha hreq hb => (h.done a b s ha hreq hb).imp_right fun hrep hs =>
        (hrep hs).imp fun p ⟨hp, hpair⟩ => ⟨List.mem_append_left _ hp, hpair⟩
    · intro cycle hchain hclosed hwalked
      obtain ⟨a, b, hconsecutive, p, hp, hpair⟩ := h.cycles cycle hchain hclosed hwalked
      exact ⟨a, b, hconsecutive, p, List.mem_append_left _ hp, hpair⟩
  refine hmore.settle [] fun s hreq hstate =>
    ⟨?_, fun _ => ⟨⟨id, target, path⟩, by simp, rfl, rfl⟩⟩
  obtain ⟨-, s', hs', hne⟩ := hmore.started_of_report (p := ⟨id, target, path⟩) (by simp)
  obtain rfl := Option.some.inj (hstate.symm.trans hs')
  exact hne

/-! ## Requirements -/

/-- The innermost walk records a requirement. -/
theorem require (h : Watch R state ((id, pending) :: below) reports) (target : EnvId)
    (hnew : ∀ a b, R' a b → R a b ∨ (a = id ∧ b = target ∧ b ≠ a))
    (hold : ∀ a b, R a b → R' a b) :
    Watch R' state ((id, target :: pending) :: below) reports := by
  obtain ⟨htop, hstate⟩ := h.top_notMem
  have hother {a b : EnvId} (hne : a ≠ id) (hreq : R' a b) : R a b :=
    (hnew a b hreq).resolve_right fun hr => hne hr.1
  refine ⟨h.walking, h.distinct, ?_, fun a hreq => ?_, fun a b hreq => ?_, fun p hp => ?_, h.once,
    ?_, ?_, ?_, ?_⟩
  · exact h.chain.imp fun _ _ => hold _ _
  · rcases hnew a a hreq with hreq | ⟨-, -, hne⟩
    · exact h.irrefl a hreq
    · exact hne rfl
  · rcases hnew a b hreq with hreq | ⟨rfl, -, -⟩
    · exact h.started a b hreq
    · exact ⟨.walking, hstate, nofun⟩
  · have hvalid := h.valid p hp
    exact ⟨hvalid.ends, hvalid.chain.imp fun _ _ => hold _ _, hvalid.closed, hvalid.simple⟩
  · intro id' pending' below' hsuffix other s hreq hs
    rcases suffix_cases hsuffix with ⟨heq, rfl⟩ | hsuffix
    · obtain ⟨rfl, rfl⟩ := Prod.mk.inj heq
      rcases hnew _ _ hreq with hreq | ⟨-, rfl, -⟩
      · exact (h.settled id' pending below' List.suffix_rfl other s hreq hs).imp_left
          (List.mem_cons_of_mem _)
      · exact .inl (by simp)
    · have hne : id' ≠ id := fun heq => htop (heq ▸ mem_of_suffix hsuffix)
      exact h.settled id' pending' below' (hsuffix.trans (List.suffix_cons _ _)) other s
        (hother hne hreq) hs
  · intro id' pending' below' hsuffix
    rcases suffix_cases hsuffix with ⟨heq, rfl⟩ | hsuffix
    · obtain ⟨rfl, rfl⟩ := Prod.mk.inj heq
      exact h.upper id' pending below' List.suffix_rfl
    · exact h.upper id' pending' below' (hsuffix.trans (List.suffix_cons _ _))
  · intro a b s ha hreq hb
    refine h.done a b s ha (hother ?_ hreq) hb
    rintro rfl
    rw [hstate] at ha
    cases ha
  · intro cycle hchain hclosed hwalked
    refine h.cycles cycle ?_ hclosed hwalked
    refine hchain.imp_of_mem_imp fun a b ha _ hreq => hother ?_ hreq
    rintro rfl
    rw [hwalked a ha] at hstate
    cases hstate

/-! ## The beginning and the end of a walk -/

/-- The state of the environments after one of them has changed. -/
abbrev withState (state : EnvId → Option WalkState) (id : EnvId) (s : WalkState) :
    EnvId → Option WalkState :=
  fun other => if other = id then some s else state other

/-- The walk of an environment that waits is begun. -/
theorem push (h : Watch R state stack reports) (hwaits : state id = some .notWalked)
    (hasked : ∀ top ∈ (stack.map Prod.fst).head?, R top id) :
    Watch R (withState state id .walking) ((id, []) :: stack) reports := by
  have hinactive : id ∉ stack.map Prod.fst := fun hmem => by
    rw [(h.walking id).1 hmem] at hwaits
    cases hwaits
  have hquiet (b : EnvId) : ¬R id b := fun hreq => by
    obtain ⟨s, hs, hne⟩ := h.started id b hreq
    exact hne (Option.some.inj (hs.symm.trans hwaits))
  have hold {other : EnvId} {s : WalkState} (hs : withState state id .walking other = some s) :
      (other = id ∧ s = .walking) ∨ (other ≠ id ∧ state other = some s) := by
    unfold withState at hs
    split at hs
    · next heq => exact .inl ⟨heq, (Option.some.inj hs).symm⟩
    · next hne => exact .inr ⟨hne, hs⟩
  refine ⟨fun other => ?_, List.nodup_cons.2 ⟨hinactive, h.distinct⟩, ?_, h.irrefl,
    fun a b hreq => ?_, h.valid, h.once, ?_, ?_, ?_, ?_⟩
  · by_cases heq : other = id
    · simp [heq]
    · simpa [withState, heq] using h.walking other
  · exact h.chain.cons hasked
  · obtain ⟨s, hs, hne⟩ := h.started a b hreq
    have hid : a ≠ id := fun heq => hquiet b (heq ▸ hreq)
    exact ⟨s, by simp [withState, hid, hs], hne⟩
  · intro id' pending' below' hsuffix other s hreq hs
    rcases suffix_cases hsuffix with ⟨heq, rfl⟩ | hsuffix
    · obtain ⟨rfl, rfl⟩ := Prod.mk.inj heq
      exact absurd hreq (hquiet other)
    · rcases hold hs with ⟨heq, -⟩ | ⟨-, hs⟩
      · exact (h.settled id' pending' below' hsuffix other _ hreq (heq ▸ hwaits)).imp_right
          fun ⟨hne, _⟩ => absurd rfl hne
      · exact h.settled id' pending' below' hsuffix other s hreq hs
  · intro id' pending' below' hsuffix other hother p hp hkey
    rcases suffix_cases hsuffix with ⟨heq, rfl⟩ | hsuffix
    · -- A new walk is in no report.
      obtain ⟨rfl, rfl⟩ := Prod.mk.inj heq
      obtain ⟨⟨s, hs, hne⟩, s', hs', hne'⟩ := h.started_of_report hp
      rcases Registry.cycleKey_eq_iff.1 hkey with ⟨hid, -⟩ | ⟨-, hid⟩
      · rw [hid, hwaits] at hs
        exact absurd (Option.some.inj hs).symm hne
      · rw [hid, hwaits] at hs'
        exact absurd (Option.some.inj hs').symm hne'
    · exact h.upper id' pending' below' hsuffix other hother p hp hkey
  · intro a b s ha hreq hb
    rcases hold ha with ⟨-, hs⟩ | ⟨-, ha⟩
    · cases hs
    · rcases hold hb with ⟨heq, -⟩ | ⟨-, hb⟩
      · exact absurd rfl (h.done a b _ ha hreq (heq ▸ hwaits)).1
      · exact h.done a b s ha hreq hb
  · intro cycle hchain hclosed hwalked
    refine h.cycles cycle hchain hclosed fun other hother => ?_
    rcases hold (hwalked other hother) with ⟨-, hs⟩ | ⟨-, hs⟩
    · cases hs
    · exact hs

/-- A walk ends with nothing pending. The cycles that it completes have its environment, and the
edge into it was reported. -/
theorem pop (h : Watch R state ((id, []) :: below) reports) :
    Watch R (withState state id .walked) below reports := by
  obtain ⟨htop, hstate⟩ := h.top_notMem
  have hold {other : EnvId} {s : WalkState} (hs : withState state id .walked other = some s) :
      (other = id ∧ s = .walked) ∨ (other ≠ id ∧ state other = some s) := by
    unfold withState at hs
    split at hs
    · next heq => exact .inl ⟨heq, (Option.some.inj hs).symm⟩
    · next hne => exact .inr ⟨hne, hs⟩
  have hdone (a b : EnvId) (s : WalkState) (ha : withState state id .walked a = some .walked)
      (hreq : R a b) (hb : state b = some s) : s ≠ .notWalked ∧
      (s = .walking → b ≠ id ∨ a ≠ id → ∃ p ∈ reports, p.requester = a ∧ p.target = b) := by
    rcases hold ha with ⟨rfl, -⟩ | ⟨-, ha⟩
    · obtain ⟨hs, hrep⟩ :=
        (h.settled a [] below List.suffix_rfl b s hreq hb).resolve_left (by simp)
      refine ⟨hs, fun hwalking hne => hrep ?_⟩
      have hmem := (h.walking b).2 (hwalking ▸ hb)
      exact (List.mem_cons.1 hmem).resolve_left (hne.resolve_right (by simp))
    · obtain ⟨hs, hrep⟩ := h.done a b s ha hreq hb
      exact ⟨hs, fun hwalking _ => hrep hwalking⟩
  refine ⟨fun other => ?_, (List.nodup_cons.1 h.distinct).2, h.chain.tail, h.irrefl,
    fun a b hreq => ?_, h.valid, h.once, ?_, ?_, ?_, ?_⟩
  · by_cases heq : other = id
    · subst heq
      simp [htop, withState]
    · simpa [withState, heq] using h.walking other
  · obtain ⟨s, hs, hne⟩ := h.started a b hreq
    by_cases heq : a = id
    · exact ⟨.walked, by simp [withState, heq], nofun⟩
    · exact ⟨s, by simp [withState, heq, hs], hne⟩
  · intro id' pending' below' hsuffix other s hreq hs
    have hsuffix' := hsuffix.trans (List.suffix_cons (id, []) below)
    rcases hold hs with ⟨rfl, rfl⟩ | ⟨-, hs⟩
    · exact (h.settled id' pending' below' hsuffix' other _ hreq hstate).imp_right
        fun ⟨_, hrep⟩ => ⟨nofun, hrep⟩
    · exact h.settled id' pending' below' hsuffix' other s hreq hs
  · exact fun id' pending' below' hsuffix =>
      h.upper id' pending' below' (hsuffix.trans (List.suffix_cons _ _))
  · intro a b s ha hreq hb
    rcases hold hb with ⟨-, rfl⟩ | ⟨hne, hb⟩
    · exact ⟨nofun, nofun⟩
    · exact (hdone a b s ha hreq hb).imp_right fun hrep hs => hrep hs (.inl hne)
  · intro cycle hchain hclosed hwalked
    by_cases hid : id ∈ cycle
    · obtain ⟨a, hconsecutive⟩ := hclosed.before hid
      have hedge := rel_of_consecutive hchain hconsecutive
      have hne : a ≠ id := fun heq => h.irrefl id (heq ▸ hedge)
      have ha := hwalked a (hconsecutive.subset (by simp))
      exact ⟨a, id, hconsecutive, (hdone a id .walking ha hedge hstate).2 rfl (.inr hne)⟩
    · refine h.cycles cycle hchain hclosed fun other hother => ?_
      rcases hold (hwalked other hother) with ⟨rfl, -⟩ | ⟨-, hs⟩
      · exact absurd hother hid
      · exact hs

end Watch

end HybroidSema
