import HybroidSema.Proofs.Bindings
import HybroidSema.Proofs.BuildWalks

/-!
# Names that are made up

A session makes up a name from a stem and a count of the names that it made up so far. The count tells
names of one stem apart, but digits at the end of a stem run into it, and nobody looks at the names that a
program writes itself.

* `Session.madeUpNames`: names that are made up one after the other.
* `ExtendsByDigits` and `extends_of_madeUp_eq`: what stems of equal names have in common.
* `Session.nodup_madeUpNames`: by induction on the stems, when all names are distinct.
* `OnTop.runs_declareAll` and `OnTop.referent?_eq`: what is bound in the scope of a loop, and what every
  other name stands for there.
* `counting_walk` and `Route.synthetic_le`: no walk counts back.
* `made_up_names_are_fresh`: names of a session, and the keys of loops in a build.
-/

namespace HybroidSema

/-! ## Names of a session -/

/-- The name that is made up for a stem with a number. -/
def madeUp (stem : String) (n : Nat) : String := "__" ++ stem ++ toString n

/-- The name has the form of one that is made up for the stem. -/
def IsMadeUp (stem name : String) : Prop := ∃ n, name = madeUp stem n

/-- The text is the other one with digits after it. -/
def ExtendsByDigits (a b : String) : Prop :=
  ∃ digits : List Char, digits ≠ [] ∧ (∀ d ∈ digits, d.isDigit = true) ∧ a.toList = b.toList ++ digits

theorem toDigits_injective {m n : Nat} (h : Nat.toDigits 10 m = Nat.toDigits 10 n) : m = n := by
  have hvalue := congrArg (fun digits => Nat.ofDigitChars 10 digits 0) h
  simpa using hvalue

/-- If two names with different numbers are equal, one stem goes on with digits of the other number. -/
theorem extends_of_madeUp_eq {a b : String} {m n : Nat} (h : madeUp a m = madeUp b n) (hne : m ≠ n) :
    ExtendsByDigits a b ∨ ExtendsByDigits b a := by
  have hlist : a.toList ++ Nat.toDigits 10 m = b.toList ++ Nat.toDigits 10 n := by
    have hchars := congrArg String.toList h
    simpa [madeUp] using hchars
  have hdigits {k : Nat} {front rest : List Char} (hk : Nat.toDigits 10 k = front ++ rest) :
      ∀ d ∈ front, d.isDigit = true := fun d hd =>
    Nat.isDigit_of_mem_toDigits (by decide) (by decide) (hk ▸ List.mem_append_left _ hd)
  rcases List.append_eq_append_iff.1 hlist with ⟨front, hb, hm⟩ | ⟨front, ha, hn⟩
  · refine .inr ⟨front, ?_, hdigits hm, hb⟩
    rintro rfl
    exact hne (toDigits_injective hm)
  · refine .inl ⟨front, ?_, hdigits hn, ha⟩
    rintro rfl
    exact hne (toDigits_injective hn).symm

theorem madeUp_injective {stem : String} {m n : Nat} (h : madeUp stem m = madeUp stem n) : m = n := by
  by_contra hne
  have hsame : ExtendsByDigits stem stem := (extends_of_madeUp_eq h hne).elim id id
  obtain ⟨digits, hdigits, -, heq⟩ := hsame
  exact hdigits (List.self_eq_append_right.1 heq)

namespace Session

/-- The names that are made up for stems, one after the other. -/
def madeUpNames (s : Session) : List String → List String
  | [] => []
  | stem :: rest => (s.syntheticName stem).1 :: (s.syntheticName stem).2.madeUpNames rest

/-- Every name has a stem, and a number that was not used before. -/
theorem mem_madeUpNames {s : Session} {stems : List String} {name : String}
    (h : name ∈ s.madeUpNames stems) : ∃ stem ∈ stems, ∃ n, s.synthetic < n ∧ name = madeUp stem n := by
  induction stems generalizing s with
  | nil => cases h
  | cons stem rest ih =>
    rcases List.mem_cons.1 h with rfl | hrest
    · exact ⟨stem, List.mem_cons_self .., s.synthetic + 1, Nat.lt_succ_self _, rfl⟩
    · obtain ⟨other, hother, n, hn, rfl⟩ := ih hrest
      exact ⟨other, List.mem_cons_of_mem _ hother, n, Nat.lt_of_succ_lt hn, rfl⟩

/-- Names are distinct if no stem is another one with digits after it. -/
theorem nodup_madeUpNames (s : Session) {stems : List String}
    (h : ∀ a ∈ stems, ∀ b ∈ stems, ¬ExtendsByDigits a b) : (s.madeUpNames stems).Nodup := by
  induction stems generalizing s with
  | nil => exact List.nodup_nil
  | cons stem rest ih =>
    refine List.nodup_cons.2 ⟨fun hmem => ?_, ih _ fun a ha b hb =>
      h a (List.mem_cons_of_mem _ ha) b (List.mem_cons_of_mem _ hb)⟩
    obtain ⟨other, hother, n, hn, heq⟩ := mem_madeUpNames hmem
    have hothers := List.mem_cons_of_mem stem hother
    rcases extends_of_madeUp_eq heq (Nat.ne_of_lt hn) with hextends | hextends
    · exact h _ (List.mem_cons_self ..) _ hothers hextends
    · exact h _ hothers _ (List.mem_cons_self ..) hextends

end Session

/-! ## The scope of a loop -/

namespace Check

variable {c : Context} {s t : State} {o : ScopeStack} {below : ScopeStack}
  {l : List (String × Variable)}

/-- The variable that a loop binds. -/
def loopVariable (binding : Ident × Value) : Variable :=
  { name := binding.1.name, value := binding.2, span := binding.1.span }

/-- The scopes are the given ones and one on top of them, with the given variables. -/
def OnTop (c : Context) (s : State) (below : ScopeStack) (l : List (String × Variable)) : Prop :=
  ∃ env scope, s.own? c = some env ∧ env.scopes = below.cons scope ∧ scope.bindings.entries = l

/-- A variable whose name is free is bound on top, and nothing is reported. -/
theorem OnTop.runs_declare (h : OnTop c s below l) {v : Variable} (hfree : v.name ∉ l.map Prod.fst)
    (what : String) :
    Runs (declare v what) c s fun _ t => OnTop c t below (l ++ [(v.name, v)]) ∧ t.alerts = s.alerts ∧
      t.session.synthetic = s.session.synthetic := by
  obtain ⟨env, scope, hown, hscopes, rfl⟩ := h
  have hcurrent : env.scopes.current = scope := by rw [hscopes, ScopeStack.current_cons]
  refine ⟨⟨⟩, _, declare_eq_of_free hown (hcurrent ▸ hfree) what,
    ⟨{ env with scopes := below.cons (scope.binding v) }, scope.binding v, ?_, rfl,
      Table.entries_insert hfree v⟩, rfl, rfl⟩
  rw [own?_modifyOwn, hown, hcurrent, hscopes]
  rfl

/-- Variables with names of their own are bound on top, and nothing is reported. -/
theorem OnTop.runs_declareAll {step : Ident × Value → Check PUnit}
    (hstep : ∀ binding, step binding = declare (loopVariable binding) "variable")
    (h : OnTop c s below l) (bindings : List (Ident × Value))
    (hnodup : (l.map Prod.fst ++ bindings.map (·.1.name)).Nodup) :
    Runs (bindings.forM step) c s fun _ t =>
      OnTop c t below (l ++ bindings.map fun b => (b.1.name, loopVariable b)) ∧
        t.alerts = s.alerts ∧ t.session.synthetic = s.session.synthetic :=
  Check.runs_declareAll (I := fun t l => OnTop c t below l ∧ t.alerts = s.alerts ∧
      t.session.synthetic = s.session.synthetic)
    (fun _ _ _ what ⟨ht, halerts, hcount⟩ hfree => (ht.runs_declare hfree what).mono
      fun _ _ ⟨hu, halerts', hcount'⟩ => ⟨hu, halerts'.trans halerts, hcount'.trans hcount⟩)
    loopVariable (fun binding => ⟨_, hstep binding⟩) ⟨h, rfl, rfl⟩ bindings hnodup

/-- A name that is not bound on top stands for what it stands for below. -/
theorem OnTop.referent?_eq {env : Environment} (hown : s.own? c = some env)
    (h : OnTop c t env.scopes l) {name : String} (hname : name ∉ l.map Prod.fst) :
    t.referent? c name = s.referent? c name := by
  obtain ⟨env', scope, hown', hscopes, rfl⟩ := h
  have hfree := Table.get?_eq_none_iff.2 hname
  rw [State.referent?, State.referent?, hown, hown']
  simp only [Option.bind_eq_bind, Option.bind_some, hscopes, ScopeStack.resolve?_cons_of_free hfree,
    ScopeStack.binding?_cons_of_free hfree]

/-- A name that is bound on top stands for its variable. -/
theorem OnTop.referent?_of_mem (h : OnTop c s below l) (hnodup : (l.map Prod.fst).Nodup) {name : String}
    {v : Variable} (hv : (name, v) ∈ l) : s.referent? c name = some (below.depth, v) := by
  obtain ⟨env, scope, hown, hscopes, rfl⟩ := h
  have hbound := Table.get?_of_mem hnodup hv
  rw [State.referent?, hown]
  simp only [Option.bind_eq_bind, Option.bind_some, hscopes, ScopeStack.resolve?_cons_of_bound hbound,
    ScopeStack.binding?_cons_self, hbound]
  rfl

/-! ## Counting -/

/-- Walking another environment does not count back. -/
def Counting (walk : EnvId → Session → Except CompileError (Option CompileError × Session)) : Prop :=
  ∀ target (s : Session) result s', s.WaitsNew → walk target s = .ok (result, s') →
    s.synthetic ≤ s'.synthetic

theorem Ensures.synthetic_le {target : EnvId} (h : Live c s o) (hw : Counting c.walk)
    (hensures : Ensures c target s t) : s.session.synthetic ≤ t.session.synthetic := by
  cases hensures with
  | walk result session _ _ _ hrun => exact hw target s.session result session h.waitsNew hrun
  | _ => exact Nat.le_refl _

theorem Step.synthetic_le {phase : Phase} (h : Live c s o) (hw : Counting c.walk)
    (hstep : Step c phase s t) : s.session.synthetic ≤ t.session.synthetic := by
  cases hstep with
  | invent => exact Nat.le_succ _
  | ensure target _ hensures => exact hensures.synthetic_le h hw
  | link target allowed named hensures =>
    have hedit : Edit c phase s (·.require target) := .require target allowed named
    obtain ⟨-, o', hl⟩ := hedit.frames h
    have hle := hensures.synthetic_le hl hw
    exact hle
  | _ => exact Nat.le_refl _

theorem Route.synthetic_le (h : Live c s o) (hw : Counting c.walk) (hroute : Route c s t) :
    s.session.synthetic ≤ t.session.synthetic :=
  hroute.keeps (I := fun t => s.session.synthetic ≤ t.session.synthetic) h
    (fun _ _ _ _ hl hstep ih => ih.trans (hstep.synthetic_le hl hw)) (Nat.le_refl _)

end Check

open Check

/-- No walk counts back, however deep walks nest. -/
theorem Session.counting_walk (depth : Nat) : Counting (Session.walk depth) := by
  induction depth with
  | zero =>
    intro id s result s' _ hrun
    rcases walk_cases 0 id s with ⟨r, hsame⟩ | ⟨_, _, _, _, _, _, _, _, hdepth, _⟩
    · rw [hsame] at hrun
      cases hrun
      exact Nat.le_refl _
    · cases hdepth
  | succ depth ih =>
    intro id s result s' hs hrun
    rcases walk_cases (depth + 1) id s with ⟨r, hsame⟩ |
      ⟨index, env, program, depth', henv, hwaits, rfl, hslot, hdepth, hwalk⟩
    · rw [hsame] at hrun
      cases hrun
      exact Nat.le_refl _
    · cases hdepth
      have hlive := live_checkOut (framing_walk depth) hs henv (hs _ env henv hwaits) index
      obtain ⟨out, t, hprogram, hroute, -⟩ := runs_walkProgram hlive program
      have hcheck : (s.checkOut (.user index) index).runCheck (.user index) (Session.walk depth)
          (walkProgram program) = .ok (out, t) := hprogram
      rw [hwalk, hcheck] at hrun
      cases hrun
      exact Route.synthetic_le hlive ih hroute

/-! ## Loops without a key -/

namespace Check

variable {c : Context} {s t u : State} {o : ScopeStack}

/-- The values of the keys and elements of what is iterated. -/
def iteratedValues (iterator : Expr) : Check (Value × Value) := do
  let (iterator, found) ← single (expr iterator none)
  iterated iterator found

/-- What is done for a loop without a key before its scope is opened. -/
def keylessHead (iterator : Expr) (span : Span) : Check (Ident × Value × Value) := do
  let values ← iteratedValues iterator
  let key ← forKey none span
  return (key, values)

/-- The variables of a loop. -/
def loopBindings (key : Ident) (value : Option Ident) (values : Value × Value) : List (Ident × Value) :=
  (key, values.1) :: value.toList.map (·, values.2)

/-- The key has a number that was not used before. -/
theorem runs_keylessHead (hl : Live c s o) (hw : Counting c.walk) (iterator : Expr) (span : Span) :
    Runs (keylessHead iterator span) c s fun r t => Live c t o ∧
      s.session.synthetic < t.session.synthetic ∧
      r.1 = ⟨madeUp "key" t.session.synthetic, span⟩ := by
  have hiterated : Quiet .checking (iteratedValues iterator) :=
    (quiet_expr iterator none).single.bind fun _ => quiet_iterated _ _
  refine Runs.bind (hiterated c s o hl) fun values t ⟨hsteps, ht⟩ => ?_
  have hle := Route.synthetic_le hl hw hsteps.route
  exact ⟨(⟨madeUp "key" (t.session.synthetic + 1), span⟩, values),
    { t with session := (t.session.syntheticName "key").2 }, rfl, ht.of_envs_eq rfl,
    Nat.lt_succ_of_le hle, rfl⟩

/-- The walk of a loop without a key comes to its body: the key is made up, and then the variables are
bound in the scope of the loop. -/
structure EntersKeyless (c : Context) (value : Option Ident) (iterator : Expr) (stmts : List Stmt)
    (span : Span) (key : String) (s t u : State) : Prop where
  enters : ∃ values, keylessHead iterator span c s = .ok ((⟨key, span⟩, values), t) ∧
    Part.loopBody .loop .ofLoop (loopBindings ⟨key, span⟩ value values) [] stmts c t =
      .ok (some ([.loop], .body stmts false), u)

/-- In the scope of a loop its variables are bound, and every other name stands for what it stood for. -/
theorem runs_loopBody {bindings : List (Ident × Value)} (hl : Live c s o)
    (hnodup : (bindings.map (·.1.name)).Nodup) (stmts : List Stmt) :
    Runs (Part.loopBody .loop .ofLoop bindings [] stmts) c s fun r t =>
      r = some ([.loop], .body stmts false) ∧ t.alerts = s.alerts ∧
      t.session.synthetic = s.session.synthetic ∧
      (∀ b ∈ bindings, (t.referent? c b.1.name).map Prod.snd = some (loopVariable b)) ∧
      ∀ name, name ∉ bindings.map (·.1.name) → t.referent? c name = s.referent? c name := by
  obtain ⟨env, hown, -, -⟩ := hl.own
  have htop : OnTop c (s.modifyOwn c fun env => { env with scopes := env.scopes.push .loop .ofLoop })
      env.scopes [] :=
    ⟨_, _, (own?_modifyOwn c _ s).trans (congrArg _ hown), rfl, rfl⟩
  have hkeys : (bindings.map fun b => (b.1.name, loopVariable b)).map Prod.fst =
      bindings.map (·.1.name) := by
    rw [List.map_map]
    rfl
  rw [Runs, Part.loopBody, bind_apply_ok (modifyScopes_eq hown _)]
  refine Runs.bind (htop.runs_declareAll (fun _ => rfl) bindings (by simpa using hnodup))
    fun _ t ⟨hbound, halerts, hcount⟩ => ?_
  rw [List.nil_append] at hbound
  refine ⟨_, t, rfl, rfl, halerts, hcount, fun b hb => ?_, fun name hname => ?_⟩
  · rw [hbound.referent?_of_mem (hkeys ▸ hnodup) (List.mem_map_of_mem hb)]
    rfl
  · exact OnTop.referent?_eq hown hbound (hkeys ▸ hname)

/-- What is entered is visited. -/
theorem EntersKeyless.visits {value : Option Ident} {iterator : Expr} {stmts : List Stmt} {span : Span}
    {key : String} (h : EntersKeyless c value iterator stmts span key s t u) :
    Visits c (.stmt (.forLoop none value iterator stmts span)) s [.loop] (.body stmts false) u := by
  obtain ⟨values, hhead, hbody⟩ := h.enters
  obtain ⟨⟨keyValue, elemValue⟩, s₁, hiterated, hhead⟩ := bind_eq_ok hhead
  obtain ⟨key', s₂, hkey, hpure⟩ := bind_eq_ok hhead
  cases hpure
  obtain ⟨⟨iterator', found⟩, s₀, hsingle, hvalues⟩ := bind_eq_ok hiterated
  exact .into (List.mem_cons_of_mem _ (List.mem_singleton_self _)) ((bind_apply_ok hsingle).trans
    ((bind_apply_ok hvalues).trans ((bind_apply_ok hkey).trans hbody))) (.here _ _)

/-- The key has a number that was not used before the loop. -/
theorem EntersKeyless.key_eq {value : Option Ident} {iterator : Expr} {stmts : List Stmt} {span : Span}
    {key : String} (h : EntersKeyless c value iterator stmts span key s t u) (hl : Live c s o)
    (hw : Counting c.walk) :
    key = madeUp "key" t.session.synthetic ∧ s.session.synthetic < t.session.synthetic := by
  obtain ⟨values, hhead, -⟩ := h.enters
  obtain ⟨-, hlt, hkey⟩ := (runs_keylessHead hl hw iterator span).apply hhead
  exact ⟨congrArg Ident.name hkey, hlt⟩

/-- The key that is made up for a loop. Its form tells it from other names, binding it is not reported, it
hides no other name from the body, and no loop in the body has the same one. -/
structure FreshKey (c : Context) (value : Option Ident) (stmts : List Stmt) (key : String)
    (t u : State) : Prop where
  madeUp : IsMadeUp "key" key
  silent : u.alerts = t.alerts
  bound : ∀ id ∈ value, (u.referent? c id.name).map (·.2.span) = some id.span
  others : ∀ name, name ≠ key → (∀ id ∈ value, id.name ≠ name) → u.referent? c name = t.referent? c name
  inner : ∀ regions value' iterator' stmts' span' key' s' t' u',
    Visits c (.body stmts false) u regions (.stmt (.forLoop none value' iterator' stmts' span')) s' →
      EntersKeyless c value' iterator' stmts' span' key' s' t' u' → key' ≠ key

/-- A loop without a key has a fresh one, if its value has no name of that form. -/
theorem exists_freshKey {regions : List Region} {value : Option Ident} {iterator : Expr}
    {stmts : List Stmt} {span : Span} (hl : Live c s o) (hw : Counting c.walk) (hfollows : Follows regions o)
    (hplaced : Task.Placed regions (.stmt (.forLoop none value iterator stmts span)))
    (hvalue : ∀ id ∈ value, ¬IsMadeUp "key" id.name) :
    ∃ key t u, EntersKeyless c value iterator stmts span key s t u ∧ FreshKey c value stmts key t u := by
  obtain ⟨⟨key, values⟩, t, hhead, hlt, -, hkey⟩ := runs_keylessHead hl hw iterator span
  obtain ⟨n, hn⟩ : ∃ n, n = madeUp "key" t.session.synthetic := ⟨_, rfl⟩
  obtain rfl : key = ⟨n, span⟩ := hkey.trans (by rw [hn])
  have hmadeUp : IsMadeUp "key" n := ⟨_, hn⟩
  have hne : ∀ id ∈ value, id.name ≠ n := fun id hid heq => hvalue id hid (heq ▸ hmadeUp)
  have hnames : (loopBindings ⟨n, span⟩ value values).map (·.1.name) =
      n :: value.toList.map (·.name) := by
    rw [loopBindings, List.map_cons, List.map_map]
    rfl
  have hnodup : ((loopBindings ⟨n, span⟩ value values).map (·.1.name)).Nodup := by
    rw [hnames]
    cases value with
    | none => simp
    | some id => simpa [eq_comm] using hne
  obtain ⟨r, u, hbody, hr, halerts, hcount, hbound, hothers⟩ := runs_loopBody hlt hnodup stmts
  subst hr
  have henters : EntersKeyless c value iterator stmts span n s t u := ⟨values, hhead, hbody⟩
  refine ⟨n, t, u, henters, hmadeUp, halerts, fun id hid => ?_, fun name hname hvalues => ?_, ?_⟩
  · have hmem : (id, values.2) ∈ loopBindings ⟨n, span⟩ value values :=
      List.mem_cons_of_mem _ (List.mem_map_of_mem (Option.mem_toList.2 hid))
    have hspan := congrArg (Option.map (·.span)) (hbound _ hmem)
    rwa [Option.map_map] at hspan
  · refine hothers name ?_
    rw [hnames]
    simpa [hname] using hvalues
  · intro regions' value' iterator' stmts' span' key' s' t' u' hvisits henters' heq
    obtain ⟨o', hlu, hfollows', hplaced'⟩ := henters.visits.follows hl hfollows hplaced
    have hsteps := hvisits.steps hlu hfollows' hplaced'
    obtain ⟨o'', hls, -⟩ := hvisits.follows hlu hfollows' hplaced'
    obtain ⟨hkey', hlater⟩ := henters'.key_eq hls hw
    have hle := Route.synthetic_le hlu hw hsteps.route
    have hsame := madeUp_injective (hkey'.symm.trans (heq.trans hn))
    omega

end Check

/-! ## Walks of a build -/

theorem BuildWalk.counting {config : Config} {files : List (String × Program)} {p : Program}
    {c : Context} {s : State} (h : BuildWalk config files p c s) : Counting c.walk := by
  obtain ⟨_, _, depth, _, -, -, -, -, rfl, -⟩ := h.begins
  exact Session.counting_walk depth

/-- Which names that are made up are fresh. From any session, names for stems are pairwise distinct if no
stem is another one with digits after it. Wherever a walk of a build comes to a loop without a key, and the
name of its value does not look like a made-up key, the loop gets a key with which it is not reported, that
hides no other name from its body, and that no loop in the body has. -/
theorem made_up_names_are_fresh {config : Config} {files : List (String × Program)} {p : Program}
    {c : Context} {s s₀ : State} (h : BuildWalk config files p c s)
    (hchecks : BuildWalk.Checks p c s s₀) :
    (∀ (session : Session) (stems : List String),
      (∀ a ∈ stems, ∀ b ∈ stems, ¬ExtendsByDigits a b) → (session.madeUpNames stems).Nodup) ∧
    ∀ regions value iterator stmts span u,
      Visits c (programTask p) s₀ regions (.stmt (.forLoop none value iterator stmts span)) u →
      (∀ id ∈ value, ¬IsMadeUp "key" id.name) →
      ∃ key t v, EntersKeyless c value iterator stmts span key u t v ∧ FreshKey c value stmts key t v := by
  refine ⟨fun session stems hstems => session.nodup_madeUpNames hstems,
    fun regions value iterator stmts span u hvisits hvalue => ?_⟩
  obtain ⟨-, hl⟩ := h.route_checks hchecks
  obtain ⟨o, hlu, hfollows, hplaced⟩ := hvisits.follows hl .start (placed_programTask p)
  exact exists_freshKey hlu h.counting hfollows hplaced hvalue

/-- A loop over a list, without a key. -/
def keylessLoop (value : String) (stmts : List Stmt) : Stmt :=
  .forLoop none (some ⟨value, ⟨2, 5, 6⟩⟩) (.list [.literal ⟨.number, "1", .synthetic⟩] .synthetic) stmts
    ⟨2, 1, 3⟩

def keylessProgram (value : String) : Program :=
  [.level "Main", keylessLoop value []]

theorem not_isMadeUp_of_head {stem name : String} (h : name.toList.head? ≠ some '_') :
    ¬IsMadeUp stem name := by
  rintro ⟨n, rfl⟩
  exact h (by simp [madeUp])

/-- Two keys are distinct, and a loop over a list gets one that leaves other names alone. -/
theorem made_up_names_are_fresh_list :
    ((Session.new {}).madeUpNames ["key", "key"]).Nodup ∧
    ∃ c s s₀ key t v, BuildWalk {} [("main.hyb", keylessProgram "x")] (keylessProgram "x") c s ∧
      BuildWalk.Checks (keylessProgram "x") c s s₀ ∧
      Visits c (programTask (keylessProgram "x")) s₀ [] (.stmt (keylessLoop "x" [])) s₀ ∧
      FreshKey c (some ⟨"x", ⟨2, 5, 6⟩⟩) [] key t v ∧ v.referent? c "y" = t.referent? c "y" := by
  have hok : (analyze {} [("main.hyb", keylessProgram "x")]).isOk = true := by decide +kernel
  cases hout : analyze {} [("main.hyb", keylessProgram "x")] with
  | error e =>
    rw [hout] at hok
    cases hok
  | ok out =>
    obtain ⟨c, s, s₀, -, -, hwalk, -, hchecks, -, -⟩ := exists_buildWalk hout (i := 0) rfl
    obtain ⟨hnames, hloops⟩ := made_up_names_are_fresh hwalk hchecks
    have hvisits : Visits c (programTask (keylessProgram "x")) s₀ [] (.stmt (keylessLoop "x" [])) s₀ :=
      .into (List.mem_cons_self ..) rfl (.here _ _)
    have hvalue : ∀ id ∈ some (Ident.mk "x" ⟨2, 5, 6⟩), ¬IsMadeUp "key" id.name := by
      rintro id ⟨⟩
      exact not_isMadeUp_of_head (by decide)
    obtain ⟨key, t, v, -, hfresh⟩ := hloops [] _ _ _ _ s₀ hvisits hvalue
    refine ⟨hnames _ _ ?_, c, s, s₀, key, t, v, hwalk, hchecks, hvisits, hfresh,
      hfresh.others "y" ?_ ?_⟩
    · rintro a ha b hb ⟨digits, hne, -, heq⟩
      obtain rfl : a = "key" := by simpa using ha
      obtain rfl : b = "key" := by simpa using hb
      exact hne (List.self_eq_append_right.1 heq)
    · rintro rfl
      exact not_isMadeUp_of_head (by decide) hfresh.madeUp
    · rintro id ⟨⟩
      decide

/-- A text, and a loop that assigns it to a variable for texts. -/
def capturingProgram : Program :=
  let text : TypeExpr := ⟨none, ⟨"text", .synthetic⟩, [], [], [], false, .synthetic⟩
  [.level "Main",
    .variable ⟨[⟨"__key1", .synthetic⟩], none, [.literal ⟨.text, "a", .synthetic⟩], false, false,
      .synthetic⟩,
    keylessLoop "x" [.variable ⟨[⟨"y", .synthetic⟩], some text, [.ident ⟨"__key1", .synthetic⟩], false,
      false, .synthetic⟩]]

/-- A stem with a digit at its end and one without it come to the same name. A value that has the name of
the key is reported as declared before, and in the body of a loop the key stands for a variable of its
name. -/
theorem made_up_names_clash :
    ¬((Session.new {}).madeUpNames ("key1" :: List.replicate 10 "key")).Nodup ∧
    analyzedCodes [("main.hyb", keylessProgram "__key1")] = some [[.redeclaration]] ∧
    analyzedCodes [("main.hyb", capturingProgram)] = some [[.explicitTypeMismatch]] := by
  decide +kernel

end HybroidSema
