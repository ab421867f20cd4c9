import HybroidSema.Proofs.BuildWalks
import HybroidSema.Proofs.ExitTargets

/-!
# Exits in a tick

A tick opens the scope of a loop that permits nothing of its own. What the scope around it permits is
permitted in the tick too, so a `break` or `continue` in a tick is let through for a loop in the tick, and
also for a loop around it. In neither case is anything left but the loop in the tick or the tick itself:
the exits of a tick end at its own scope.

* `within_append`: a region is around a place in some of the regions or in those around them.
* `LoopExit`: `break` and `continue`, with the exit that they record and their word.
* `LoopExit.leavesLoop`: what they do where the scopes follow the regions.
* `quiet_tick`: no exit of its body comes out of a tick.
* `exits_in_ticks_need_a_loop`: every `break` and `continue` in a tick that a walk comes to.
-/

namespace HybroidSema

namespace Check

variable {c : Context} {s : State} {o : ScopeStack} {env : Environment}
  {region : Region} {regions inner around : List Region}

/-! ## Regions around regions -/

/-- A region is among the inner regions, or among those around them if none of the inner ones is a
function. -/
theorem within_append : Within region (inner ++ around) ↔
    Within region inner ∨ (.function ∉ inner ∧ Within region around) := by
  induction inner with
  | nil => simp [within_nil]
  | cons first inner ih =>
    rw [List.cons_append, within_cons, within_cons, ih, List.mem_cons, not_or]
    constructor
    · rintro (heq | ⟨hfirst, hinner | ⟨hfree, haround⟩⟩)
      · exact .inl (.inl heq)
      · exact .inl (.inr ⟨hfirst, hinner⟩)
      · exact .inr ⟨⟨hfirst.symm, hfree⟩, haround⟩
    · rintro ((heq | ⟨hfirst, hinner⟩) | ⟨⟨hfirst, hfree⟩, haround⟩)
      · exact .inl heq
      · exact .inr ⟨hfirst, .inl hinner⟩
      · exact .inr ⟨fun heq => hfirst heq.symm, .inr ⟨hfree, haround⟩⟩

/-- A tick is no loop, so in a tick a loop is either in the tick or around it. -/
theorem within_tick : Within .loop (inner ++ .tick :: around) ↔
    Within .loop inner ∨ (.function ∉ inner ∧ Within .loop around) := by
  rw [within_append, within_cons]
  simp

/-! ## `break` and `continue` -/

/-- A statement that leaves a loop, with the permission that it needs, the exit that it records and its
word. -/
inductive LoopExit : Stmt → Permissions → Exits → String → Prop
  | breaking (span : Span) : LoopExit (.breaking span) { breaks := true } .ofBreak "break"
  | continuing (span : Span) : LoopExit (.continuing span) { continues := true } .ofContinue "continue"

/-- The state in which the innermost scope has recorded an exit. -/
def State.marked (s : State) (c : Context) (kind : Exits) : State :=
  s.modifyOwn c fun env => { env with scopes := env.scopes.markExit kind }

/-- What a statement that leaves a loop does. If it is accepted the innermost scope records the exit and
nothing is reported, and otherwise the statement is reported and nothing else happens. -/
structure LeavesLoop (st : Stmt) (kind : Exits) (word : String) (c : Context) (s : State)
    (accepted : Prop) : Prop where
  accepts : accepted → stmt st c s = .ok (st, s.marked c kind)
  refuses : ¬accepted →
    stmt st c s = .ok (st, s.reported (.invalidUseOfExitStatement word) st.span)

section LoopExit

variable {st : Stmt} {asked : Permissions} {kind : Exits} {word : String}

theorem LeavesLoop.congr {accepted accepted' : Prop} (h : LeavesLoop st kind word c s accepted)
    (hiff : accepted ↔ accepted') : LeavesLoop st kind word c s accepted' :=
  ⟨fun hyes => h.accepts (hiff.2 hyes), fun hno => h.refuses fun hyes => hno (hiff.1 hyes)⟩

theorem LoopExit.stmt_eq (h : LoopExit st asked kind word) : stmt st = (do
    if ← exitAllowed asked word st.span then markExit kind
    return st) := by
  cases h <;> rfl

/-- A loop around permits leaving it, if no function is in between. -/
theorem LoopExit.contains_iff (h : LoopExit st asked kind word) :
    (permitted regions).contains asked = true ↔ Within .loop regions := by
  cases h with
  | breaking => rw [contains_breaks, breaks_permitted]
  | continuing => rw [contains_continues, continues_permitted]

/-- Where the scopes follow the regions, the loops around decide. -/
theorem LoopExit.leavesLoop (h : LoopExit st asked kind word) (hfollows : Follows regions o)
    (hown : s.own? c = some env) (ho : env.scopes.outline = o) :
    LeavesLoop st kind word c s (Within .loop regions) := by
  have hjudged := hfollows.judges_exit hown ho h.contains_iff word st.span
  refine ⟨fun hyes => ?_, fun hno => ?_⟩
  · rw [h.stmt_eq, bind_apply_ok (hjudged.accepts hyes)]
    exact bind_apply_ok (modifyScopes_eq hown _)
  · rw [h.stmt_eq, bind_apply_ok (hjudged.refuses hno)]
    rfl

end LoopExit

/-! ## Ticks -/

/-- A tick hands no exit of its body to the scope around it. -/
theorem quiet_tick (counter : Option Ident) (stmts : List Stmt) (span : Span) :
    Quiet .checking (stmt (.tick counter stmts span)) :=
  (quiet_inLoop _ _ (leaves_body stmts false)).bind fun _ => .pure _

end Check

open Check

/-- What leaves a loop from a tick. Wherever a walk of a build comes to a `break` or `continue` in a tick,
the statement is accepted if there is a loop around it in the tick with no function in between, and else if
there is a loop around the tick with no function in between. It is reported if there is neither: where no
loop is around the tick, or a function is between the statement and the tick, only a loop in the tick is
left. Either way the scopes around a tick have the exits that they had before it. -/
theorem exits_in_ticks_need_a_loop {config : Config} {files : List (String × Program)} {p : Program}
    {c : Context} {s s₀ : State} (h : BuildWalk config files p c s)
    (hchecks : BuildWalk.Checks p c s s₀) :
    (∀ inner around st asked kind word u, LoopExit st asked kind word →
      Visits c (programTask p) s₀ (inner ++ .tick :: around) (.stmt st) u →
        LeavesLoop st kind word c u
          (Within .loop inner ∨ (.function ∉ inner ∧ Within .loop around))) ∧
    ∀ regions counter stmts span u,
      Visits c (programTask p) s₀ regions (.stmt (.tick counter stmts span)) u →
        ∃ st v env env', stmt (.tick counter stmts span) c u = .ok (st, v) ∧
          u.own? c = some env ∧ v.own? c = some env' ∧ env'.scopes.outline = env.scopes.outline := by
  have hlive := (h.route_checks hchecks).2
  refine ⟨fun inner around st asked kind word u hexit hvisits => ?_,
    fun regions counter stmts span u hvisits => ?_⟩
  · obtain ⟨o, hl, hfollows, -⟩ := hvisits.follows hlive .start (placed_programTask p)
    rw [List.append_nil] at hfollows
    obtain ⟨env, hown, -, ho⟩ := hl.own
    exact (hexit.leavesLoop hfollows hown ho).congr within_tick
  · obtain ⟨o, hl, -⟩ := hvisits.follows hlive .start (placed_programTask p)
    obtain ⟨env, hown, -, ho⟩ := hl.own
    obtain ⟨st, v, hrun, -, hlv⟩ := quiet_tick counter stmts span c u o hl
    obtain ⟨env', hown', -, ho'⟩ := hlv.own
    exact ⟨st, v, env, env', hrun, hown, hown', ho'.trans ho.symm⟩

/-- A tick with a `break`. -/
def tickBreak : Stmt := .tick none [.breaking .synthetic] .synthetic

/-- The walk of a tick comes to its body in the scope of the tick. -/
theorem visits_tickBreak {c : Context} {s : State} {env : Environment} (hown : s.own? c = some env) :
    ∃ u, Visits c (.stmt tickBreak) s ([] ++ [] ++ [.tick]) (.stmt (.breaking .synthetic)) u :=
  ⟨_, .into (List.mem_singleton_self _) (bind_apply_ok (modifyScopes_eq hown _)) <|
    .into (List.mem_cons_self ..) rfl (.here _ _)⟩

/-- A `break` in a tick at the root is reported. -/
theorem exits_in_ticks_need_a_loop_root : ∃ c s s₀ u,
    BuildWalk {} [("main.hyb", [tickBreak])] [tickBreak] c s ∧
      BuildWalk.Checks [tickBreak] c s s₀ ∧
      Visits c (programTask [tickBreak]) s₀ [.tick] (.stmt (.breaking .synthetic)) u ∧
      stmt (.breaking .synthetic) c u =
        .ok (.breaking .synthetic, u.reported (.invalidUseOfExitStatement "break") .synthetic) := by
  have hok : (analyze {} [("main.hyb", [tickBreak])]).isOk = true := by decide +kernel
  cases hout : analyze {} [("main.hyb", [tickBreak])] with
  | error e =>
    rw [hout] at hok
    cases hok
  | ok out =>
    obtain ⟨c, s, s₀, -, -, hwalk, -, hchecks, -, -⟩ := exists_buildWalk hout (i := 0) rfl
    obtain ⟨env, hown, -, -⟩ := (hwalk.route_checks hchecks).2.own
    obtain ⟨u, hbody⟩ := visits_tickBreak hown
    have hvisits : Visits c (programTask [tickBreak]) s₀ ([] ++ [] ++ [.tick] ++ [])
        (.stmt (.breaking .synthetic)) u := .into (List.mem_cons_self ..) rfl hbody
    obtain ⟨hexits, -⟩ := exits_in_ticks_need_a_loop hwalk hchecks
    have hleaves := hexits [] [] _ _ _ _ u (.breaking .synthetic) hvisits
    exact ⟨c, s, s₀, u, hwalk, hchecks, hvisits, hleaves.refuses (by simp [within_nil])⟩

/-- A loop around a tick with a `break`. -/
def tickInLoop : Program :=
  [.level "Main",
    .whileLoop (.literal ⟨.bool, "true", .synthetic⟩) [tickBreak] .synthetic]

/-- The walk comes to the `break`, which no loop in the tick is around, and lets it through for the loop
around the tick. A build of the program reports nothing. -/
theorem break_leaves_tick :
    (∃ s, Visits ⟨.user 0, Session.walk 0⟩ (programTask tickInLoop) rootState
      ([] ++ .tick :: [.loop]) (.stmt (.breaking .synthetic)) s ∧ ¬Within .loop [] ∧
        stmt (.breaking .synthetic) ⟨.user 0, Session.walk 0⟩ s =
          .ok (.breaking .synthetic, s.marked ⟨.user 0, Session.walk 0⟩ .ofBreak)) ∧
    analyzedCodes [("main.hyb", tickInLoop)] = some [[]] := by
  refine ⟨?_, ?_⟩
  · -- The loop, its body, the tick, its body.
    obtain ⟨s, hs⟩ : ∃ s, Visits ⟨.user 0, Session.walk 0⟩ (programTask tickInLoop) rootState
        ([] ++ [] ++ [.tick] ++ [] ++ [.loop] ++ []) (.stmt (.breaking .synthetic)) s :=
      ⟨_, .into (List.mem_cons_self ..) rfl <|
        .into (List.mem_cons_of_mem _ (List.mem_singleton_self _)) rfl <|
        .into (List.mem_cons_self ..) rfl <| .into (List.mem_singleton_self _) rfl <|
        .into (List.mem_cons_self ..) rfl (.here _ _)⟩
    obtain ⟨o, hl, hfollows, -⟩ := hs.follows (walks_rootState.live 0) .start (placed_programTask _)
    obtain ⟨env, hown, -, ho⟩ := hl.own
    have hleaves := (LoopExit.breaking .synthetic).leavesLoop hfollows hown ho
    exact ⟨s, hs, within_nil, hleaves.accepts ⟨[.tick], [], rfl, by simp⟩⟩
  · decide +kernel

end HybroidSema
