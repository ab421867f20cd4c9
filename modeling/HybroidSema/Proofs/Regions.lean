import HybroidSema.Proofs.RootExits
import HybroidSema.Proofs.ScopeDiscipline
import HybroidSema.Proofs.Visits

/-!
# The scopes around a visited part

Wherever a walk comes to a part of a tree, its stack has one scope for each region around the part,
over the root. What a scope permits is determined by its region and the scope below, so it can be
read off the regions.

* `Region.permits` and `permitted`: what is permitted inside regions.
* `Follows`: the stack has the scopes of the regions.
* `LeadsIn`: what is run before a part opens the scopes of the regions that it names.
* `Visits.follows`: by induction on the visit, with one case for each function of the recursion.
-/

namespace HybroidSema.Check

variable {α β : Type} {m : Check α} {f : α → Check β} {c : Context} {s s' : State}
  {o o' : ScopeStack}

/-! ## Regions -/

namespace Region

/-- The class or entity of the region. -/
def container? : Region → Option (DeclRef × NamedKind)
  | container ref kind => some (ref, kind)
  | _ => none

/-- What the scope of a region permits, over a scope that permits `below`. -/
def permits (below : Permissions) : Region → Permissions
  | function => { returns := true, selfRef := below.selfRef }
  | arms => below.union { yields := true }
  | loop => below.union .ofLoop
  | tick | block => below
  | container _ _ => below.union { selfRef := true }
  | initializer => below.diff { selfRef := true }

/-- The tag is one of a scope of the region. -/
structure Tags (region : Region) (tag : ScopeTag) : Prop where
  func : tag.func?.isSome = (region == .function)
  arms : tag.matchExpr?.isSome = (region == .arms)
  container : tag.container? = region.container?

/-- The region can stand in the given ones: a class or entity at the root, initializers right inside
it, and a function anywhere. Nothing else stands right inside a class or entity. -/
def Fits (around : List Region) : Region → Prop
  | container _ _ => around = []
  | initializer => ∃ ref kind, around = [.container ref kind]
  | function => True
  | _ => ∀ ref kind, around ≠ [.container ref kind]

/-- A tag stays one of the region when its scope collects exits. -/
theorem Tags.of_kind {region : Region} {tag tag' : ScopeTag} (h : region.Tags tag)
    (hkind : tag'.kind = tag.kind) : region.Tags tag' := by
  have hfunc (tag : ScopeTag) : tag.kind.func?.isSome = tag.func?.isSome := by cases tag <;> rfl
  have harms (tag : ScopeTag) : tag.kind.matchExpr?.isSome = tag.matchExpr?.isSome := by
    cases tag <;> rfl
  have hcontainer (tag : ScopeTag) : tag.kind.container? = tag.container? := by cases tag <;> rfl
  refine ⟨?_, ?_, ?_⟩
  · rw [← hfunc, hkind, hfunc, h.func]
  · rw [← harms, hkind, harms, h.arms]
  · rw [← hcontainer, hkind, hcontainer, h.container]

end Region

/-- What is permitted inside regions. -/
def permitted : List Region → Permissions
  | [] => {}
  | region :: around => region.permits (permitted around)

/-- The stack has the root and one scope for each region. -/
inductive Follows : List Region → ScopeStack → Prop
  | root {o : ScopeStack} (hinner : o.inner = []) (hpermits : o.root.permits = {})
      (htag : o.root.tag = .plain) : Follows [] o
  | cons {region : Region} {around : List Region} {o : ScopeStack} {scope : Scope}
      (h : Follows around o) (hfits : region.Fits around)
      (hpermits : scope.permits = region.permits o.current.permits)
      (htag : region.Tags scope.tag) : Follows (region :: around) (o.cons scope)

namespace Follows

variable {regions around : List Region} {region : Region}

theorem start : Follows [] {} := .root rfl rfl rfl

theorem permits (h : Follows regions o) : o.current.permits = permitted regions := by
  induction h with
  | root hinner hpermits =>
    rw [ScopeStack.current, hinner]
    exact hpermits
  | cons _ _ hpermits _ ih => rw [ScopeStack.current_cons, hpermits, ih, permitted]

theorem length (h : Follows regions o) : o.inner.length = regions.length := by
  induction h with
  | root hinner => rw [hinner]; rfl
  | cons _ _ _ _ ih => simp [ScopeStack.cons, ih]

theorem isRoot (h : Follows regions o) : o.isRoot = regions.isEmpty := by
  have hlength := h.length
  rw [ScopeStack.isRoot]
  cases hi : o.inner <;> cases regions <;> simp_all

/-- Exits in the innermost scope change nothing. -/
theorem alike (h : Follows regions o) (halike : o.Alike o') : Follows regions o' := by
  obtain ⟨f, hf, rfl⟩ := halike
  cases h with
  | root hinner hpermits htag =>
    have hkind : (f o.root).tag.kind = .plain := by
      rw [Scope.kind_of_frame_eq (hf _), htag]
      rfl
    have hplain : (f o.root).tag = .plain := by
      cases ht : (f o.root).tag <;> rw [ht] at hkind <;> first | rfl | cases hkind
    refine .root ?_ ?_ ?_
    · simp [ScopeStack.modifyCurrent, hinner]
    · simp [ScopeStack.modifyCurrent, hinner, Scope.permits_of_frame_eq (hf _), hpermits]
    · simp [ScopeStack.modifyCurrent, hinner, hplain]
  | @cons region around o scope h hfits hpermits htag =>
    exact .cons h hfits ((Scope.permits_of_frame_eq (hf scope)).trans hpermits)
      (htag.of_kind (Scope.kind_of_frame_eq (hf scope)))

/-- A scope that is opened for a region. -/
theorem opened (h : Follows around o) (hfits : region.Fits around) {scope : Scope}
    (hpermits : scope.permits = region.permits o.current.permits) (htag : region.Tags scope.tag) :
    Follows (region :: around) (o.cons scope) :=
  .cons h hfits hpermits htag

end Follows

/-! ## Before a part -/

/-- Where a call is made: what walks members right inside a class or entity, and everything else
elsewhere. -/
def Task.Placed (regions : List Region) : Task → Prop
  | .initializers _ _ _ _ | .constructorBody _ _ | .methodBodies _ _ | .firstSpawn _ _
  | .otherLifecycles _ _ _ _ => ∃ ref kind, regions = [.container ref kind]
  | _ => ∀ ref kind, regions ≠ [.container ref kind]

/-- Not right inside a class or entity. -/
def Elsewhere (regions : List Region) : Prop := ∀ ref kind, regions ≠ [.container ref kind]

/-- Right inside a class or entity. -/
def AmongMembers (regions : List Region) : Prop := ∃ ref kind, regions = [.container ref kind]

/-- What is run before a part, after some regions were entered, is run in steps and opens the scopes
of the regions that it names. -/
def LeadsIn (entered : List Region) (ok : List Region → Prop) (part : Part) : Prop :=
  ∀ c s o around, Live c s o → Follows (entered ++ around) o → ok around →
    Runs part c s fun r s' => Steps c .checking s s' ∧ ∀ regions task, r = some (regions, task) →
      ∃ o', Live c s' o' ∧ Follows (regions ++ around) o' ∧ task.Placed (regions ++ around)

abbrev Leads (ok : List Region → Prop) (part : Part) : Prop := LeadsIn [] ok part

section Rules

variable {entered : List Region} {ok : List Region → Prop} {g : α → Part}

theorem LeadsIn.inside {task : Task} (h : ∀ around, ok around → task.Placed (entered ++ around)) :
    LeadsIn entered ok (Part.inside entered task) := by
  intro c s o around hl hfollows hok
  refine .pure ⟨.refl, fun regions task' heq => ?_⟩
  cases heq
  exact ⟨o, hl, hfollows, h around hok⟩

theorem LeadsIn.here {task : Task} (h : ∀ around, ok around → task.Placed around) :
    Leads ok (Part.here task) :=
  LeadsIn.inside h

/-- Steps that were taken before. -/
theorem Runs.leads_after {r : Part} {post : Option (List Region × Task) → State → Prop} {t : State}
    (hsteps : Steps c .checking s t)
    (h : Runs r c t fun a s' => Steps c .checking t s' ∧ post a s') :
    Runs r c t fun a s' => Steps c .checking s s' ∧ post a s' :=
  h.mono fun _ _ ha => ⟨hsteps.trans ha.1, ha.2⟩

theorem LeadsIn.skip : LeadsIn entered ok Part.skip :=
  fun _ _ _ _ _ _ _ => .pure ⟨.refl, nofun⟩

/-- A check that closes the scopes it opens, before the rest. -/
theorem Keeps.leads (hm : Keeps m) (hg : ∀ a, LeadsIn entered ok (g a)) :
    LeadsIn entered ok (m >>= g) := by
  intro c s o around hl hfollows hok
  refine (hm c s o hl).bind fun a t ht => ?_
  obtain ⟨hsteps, o', halike, hl'⟩ := ht
  exact (hg a c t o' around hl' (hfollows.alike halike) hok).leads_after hsteps

theorem Quiet.leads (hm : Quiet .checking m) (hg : ∀ a, LeadsIn entered ok (g a)) :
    LeadsIn entered ok (m >>= g) :=
  hm.keeps.leads hg

/-- The same for a check that runs below the root only. -/
theorem ReportsIn.leads {F : Bool → Permissions → List Form} (hm : ReportsIn Below m F)
    (hbelow : ∀ around, ok around → entered ++ around ≠ [])
    (hg : ∀ a, LeadsIn entered ok (g a)) : LeadsIn entered ok (m >>= g) := by
  intro c s o around hl hfollows hok
  have hroot : Below s.session.config.prune o := by
    rw [Below, hfollows.isRoot]
    simpa using hbelow around hok
  refine (hm c s o hl hroot).bind fun a t ht => ?_
  obtain ⟨o', halike, hl'⟩ := ht.live
  exact (hg a c t o' around hl' (hfollows.alike halike) hok).leads_after ht.steps

theorem LeadsIn.guard {m : Check PUnit} {g : PUnit → Part} {b : Prop} [Decidable b]
    (hm : Quiet .checking m) (hg : ∀ u, LeadsIn entered ok (g u)) :
    LeadsIn entered ok (if b then m >>= g else g ⟨⟩) := by
  split
  · exact hm.leads hg
  · exact hg _

/-- A check that is made under a condition after the scopes were read, before the rest. -/
theorem LeadsIn.guard_scopes {m : Check PUnit} {rest : Part} {b : Prop} [Decidable b]
    {b' : ScopeStack → Prop} [∀ stack, Decidable (b' stack)] (hm : Quiet .checking m)
    (hrest : LeadsIn entered ok rest) :
    LeadsIn entered ok (if b then scopes >>= fun stack => if b' stack then m >>= fun _ => rest
      else rest else rest) := by
  split
  · exact quiet_scopes.leads fun _ => .guard hm fun _ => hrest
  · exact hrest

/-- The scope of a region is opened. -/
theorem LeadsIn.enter {enter : ScopeStack → ScopeStack} {rest : PUnit → Part} (region : Region)
    (scope : ScopeStack → Scope)
    (henter : ∀ stack, (enter stack).outline = stack.outline.cons (scope stack.outline) ∧
      (enter stack).root.bindings = stack.root.bindings)
    (hfits : ∀ around, ok around → region.Fits (entered ++ around))
    (hscope : ∀ o : ScopeStack, (scope o).permits = region.permits o.current.permits ∧
      region.Tags (scope o).tag)
    (hrest : ∀ u, LeadsIn (region :: entered) ok (rest u)) :
    LeadsIn entered ok (modifyScopes enter >>= rest) := by
  intro c s o around hl hfollows hok
  have hopen : ∀ env, s.own? c = some env → env.scopes.outline = o →
      (enter env.scopes).outline = o.cons (scope o) ∧
        Phase.checking.KeepsRoot env.scopes (enter env.scopes) := fun env _ ho =>
    ⟨ho ▸ (henter env.scopes).1, .of_bindings_eq .checking (henter env.scopes).2⟩
  refine (runs_modifyScopes .checking hl hopen).bind fun u t ht => ?_
  obtain ⟨hsteps, hl', -⟩ := ht
  exact (hrest u c t _ around hl'
    (hfollows.opened (hfits around hok) (hscope o).1 (hscope o).2) hok).leads_after hsteps

end Rules

/-! ## Scopes that parts open -/

section Openings

variable {entered : List Region} {ok : List Region → Prop} {rest : PUnit → Part}

theorem LeadsIn.push {tag : ScopeTag} {added : Permissions} (region : Region)
    (hpermits : ∀ below, below.union added = region.permits below) (htag : region.Tags tag.outline)
    (hfits : ∀ around, ok around → region.Fits (entered ++ around))
    (hrest : ∀ u, LeadsIn (region :: entered) ok (rest u)) :
    LeadsIn entered ok (modifyScopes (·.push tag added) >>= rest) :=
  .enter region (·.pushedScope tag.outline added) (fun stack => stack.push_opens tag added) hfits
    (fun o => ⟨hpermits o.current.permits, htag⟩) hrest

theorem leads_functionBody (signature : Signature) (params : List Param) (stmts : List Stmt) :
    Leads ok (Part.functionBody signature params stmts) := by
  refine .enter .function (·.funcScope _) (fun stack => stack.pushFunction_opens _)
    (fun _ _ => trivial) (fun o => ⟨rfl, rfl, rfl, rfl⟩) fun _ => ?_
  exact (quiet_bindParams _ _).leads fun _ => .inside fun around _ => nofun

theorem leads_branch (narrowings : List Narrowing) (negated : Bool) (stmts : List Stmt)
    (hfits : ∀ around, ok around → Elsewhere (entered ++ around)) :
    LeadsIn entered ok (Part.branch narrowings negated stmts entered) := by
  refine .push .block (fun below => below.union_empty) ⟨rfl, rfl, rfl⟩ hfits fun _ => ?_
  exact (quiet_declareNarrowings _ _).leads fun _ => .inside fun around _ => nofun

theorem leads_loopBody (region : Region) {permits : Permissions}
    (hpermits : ∀ below, below.union permits = region.permits below)
    (htag : region.Tags .loop) (hfits : ∀ around, Elsewhere around → region.Fits around)
    (hplaced : ∀ ref kind, region ≠ .container ref kind)
    (bindings : List (Ident × Value)) (narrowings : List Narrowing) (stmts : List Stmt) :
    Leads Elsewhere (Part.loopBody region permits bindings narrowings stmts) := by
  have hbind : Quiet .checking (bindings.forM fun binding =>
      declare { name := binding.1.name, value := binding.2, span := binding.1.span } "variable") :=
    .forM _ fun _ => quiet_declare _ _
  refine .push region hpermits htag hfits fun _ => hbind.leads fun _ =>
    (quiet_declareNarrowings _ _).leads fun _ => .inside fun around _ ref kind heq => ?_
  exact hplaced ref kind (List.cons.inj heq).1

/-- A part of a class or entity is walked at the root only. -/
theorem leads_containerPart {γ : Type} {what : String} {span : Span} {find : Check (Option γ)}
    {tag : γ → ScopeTag} {members : γ → Members} {ref : γ → DeclRef} {kind : NamedKind}
    {part : γ → Part} (hfind : Quiet .checking find)
    (htag : ∀ info, Region.Tags (.container (ref info) kind) (tag info).outline)
    (hpart : ∀ info, LeadsIn [.container (ref info) kind] (· = []) (part info)) :
    Leads Elsewhere (Part.containerPart what span find tag members part) := by
  intro c s o around hl hfollows _
  refine (runs_atRoot .checking hl what span).bind fun isRoot t ht => ?_
  obtain ⟨⟨hsteps, hl'⟩, hroot⟩ := ht
  refine Runs.leads_after hsteps ?_
  cases isRoot with
  | false =>
    rw [if_neg Bool.false_ne_true]
    exact .pure ⟨.refl, nofun⟩
  | true =>
    rw [if_pos rfl]
    obtain rfl : around = [] := by
      rw [hfollows.isRoot] at hroot
      simpa using hroot.symm
    refine (show Leads (· = []) _ from hfind.leads fun found => ?_) c t o [] hl' hfollows rfl
    cases found with
    | none => exact .skip
    | some info =>
      exact .push (.container (ref info) kind) (fun _ => rfl) (htag info) (fun _ hok => hok)
        fun _ => (quiet_bindMembers _).leads fun _ => hpart info

end Openings

/-! ## The parts of every call -/

theorem leads_arguments (signature : Signature) (generics : List TypeExpr) (args : List Expr) :
    Leads Elsewhere (Part.arguments signature generics args) :=
  (quiet_resolveTypes _).leads fun _ => .here fun _ h => h

theorem quiet_condition (e : Expr) : Quiet .checking (Part.condition e) :=
  (quiet_expr e none).single.bind fun _ => quiet_conditionNarrowings _ _

/-- The first branch of a chain closes its scope. -/
theorem keeps_inBranch (narrowings : List Narrowing) (negated : Bool) (stmts : List Stmt) :
    Keeps (inBranch do
      declareNarrowings narrowings negated
      body stmts false) :=
  (reports_inBranch ((quiet_declareNarrowings narrowings negated).reports_bind fun _ =>
    reports_body (reports_stmts stmts))).keeps fun _ _ => trivial

theorem leads_here {task : Task} (h : ∀ around, Elsewhere around → task.Placed around) :
    Leads Elsewhere (Part.here task) :=
  .here h

theorem forall_parts {P : Part → Prop} {first : Part} {rest : List Part} (hfirst : P first)
    (hrest : ∀ part ∈ rest, P part) : ∀ part ∈ first :: rest, P part :=
  List.forall_mem_cons.2 ⟨hfirst, hrest⟩

theorem leads_exprParts (hint : Option Ty) (e : Expr) :
    ∀ part ∈ exprParts hint e, Leads Elsewhere part :=
  match e with
  | .literal _ | .ident _ | .builtin _ | .envAccess _ _ _ | .self _ _ | .error _ => nofun
  | .unary _ _ _ | .group _ _ | .field _ _ _ _ | .entityTest _ _ _ _ _ _ =>
    List.forall_mem_singleton.2 (leads_here fun _ h => h)
  | .binary left _ _ _ =>
    forall_parts (leads_here fun _ h => h) (List.forall_mem_singleton.2
      ((quiet_expr left none).single.leads fun _ => leads_here fun _ h => h))
  | .list _ _ | .map _ _ =>
    List.forall_mem_singleton.2 ((quiet_checkKnown _ _ _).leads fun _ => leads_here fun _ h => h)
  | .call caller _ _ _ _ => by
    refine forall_parts (leads_here fun _ h => h) (List.forall_mem_singleton.2
      ((quiet_expr caller none).single.leads fun r => ?_))
    obtain ⟨caller', callee⟩ := r
    dsimp only
    split
    · exact leads_arguments _ _ _
    · exact .guard (quiet_report _ _ rfl) fun _ => leads_here fun _ h => h
  | .methodCall receiver _ _ _ _ _ _ _ => by
    refine forall_parts (leads_here fun _ h => h) (List.forall_mem_singleton.2
      ((quiet_expr receiver none).single.leads fun _ => (quiet_calledMethod _ _ _).leads
        fun found => ?_))
    cases found with
    | found signature => exact leads_arguments _ _ _
    | missing => exact leads_here fun _ h => h
    | ownerless => exact .skip
  | .member target _ _ =>
    forall_parts (leads_here fun _ h => h) (List.forall_mem_singleton.2
      ((quiet_expr target none).single.leads fun _ => leads_here fun _ h => h))
  | .new _ _ _ _ | .spawn _ _ _ _ => by
    refine List.forall_mem_singleton.2 ((quiet_constructed _ _ _).leads fun found => ?_)
    split
    · exact leads_arguments _ _ _
    · exact leads_here fun _ h => h
  | .function _ _ _ _ =>
    List.forall_mem_singleton.2 ((quiet_resolveSignature _ _ _).leads fun _ =>
      leads_functionBody _ _ _)
  | .matching subject _ _ _ =>
    forall_parts (leads_here fun _ h => h) (List.forall_mem_singleton.2
      ((quiet_expr subject none).single.leads fun _ =>
        .push .arms (fun _ => rfl) ⟨rfl, rfl, rfl⟩ (fun _ h => h)
          fun _ => .inside fun _ _ => nofun))

/-- The scope that collects the branches of a chain. -/
theorem LeadsIn.chain {rest : PUnit → Part} (hrest : ∀ u, LeadsIn [.block] Elsewhere (rest u)) :
    Leads Elsewhere (modifyScopes (·.push (.multiPath {}) .empty) >>= rest) :=
  .push .block (fun below => below.union_empty) ⟨rfl, rfl, rfl⟩ (fun _ h => h) hrest

theorem leads_classPart {name : Ident} {span : Span} {part : ClassInfo → List Region → Part}
    (h : ∀ info, LeadsIn [.container info.ty .classDecl] (· = [])
      (part info [.container info.ty .classDecl])) :
    Leads Elsewhere (Part.classPart name span part) :=
  leads_containerPart (quiet_ownClass? name) (fun _ => ⟨rfl, rfl, rfl⟩) h

theorem leads_entityPart {name : Ident} {span : Span} {part : EntityInfo → List Region → Part}
    (h : ∀ info, LeadsIn [.container info.ty .entityDecl] (· = [])
      (part info [.container info.ty .entityDecl])) :
    Leads Elsewhere (Part.entityPart name span part) :=
  leads_containerPart (quiet_ownEntity? name) (fun _ => ⟨rfl, rfl, rfl⟩) h

/-- Right inside a class or entity at the root. -/
theorem leads_member {ref : DeclRef} {kind : NamedKind} {task : Task}
    (h : task.Placed [.container ref kind]) :
    LeadsIn [.container ref kind] (· = []) (Part.inside [.container ref kind] task) :=
  .inside fun around hok => by rwa [hok]

/-- The initializers of a class or entity close the scopes that they open. -/
theorem leads_initializers {ref : DeclRef} {kind : NamedKind} {g : List VariableDecl → Part}
    (decls : List VariableDecl) (members : Members)
    (hg : ∀ a, LeadsIn [.container ref kind] (· = []) (g a)) :
    LeadsIn [.container ref kind] (· = []) (initializers decls ref kind members >>= g) :=
  (reports_initializers decls ref kind members).leads (fun _ _ => nofun) hg

theorem leads_stmtParts (st : Stmt) : ∀ part ∈ stmtParts st, Leads Elsewhere part := by
  have hloop (bindings : List (Ident × Value)) (narrowings : List Narrowing) (stmts : List Stmt) :
      Leads Elsewhere (Part.loopBody .loop .ofLoop bindings narrowings stmts) :=
    leads_loopBody .loop (fun _ => rfl) ⟨rfl, rfl, rfl⟩ (fun _ h => h) nofun _ _ _
  exact match st with
  | .env _ | .enumDecl _ | .aliasDecl _ | .breaking _ | .continuing _ | .use _ | .error _ => nofun
  | .expr _ => List.forall_mem_singleton.2 (leads_here fun _ h => h)
  | .variable ⟨_, _, _, _, _, _⟩ => by
    refine List.forall_mem_singleton.2 (.guard_scopes (quiet_report _ _ rfl)
      (.guard (quiet_report _ _ rfl) fun _ => (quiet_resolveType? _).leads fun _ => ?_))
    split
    · exact .skip
    · exact leads_here fun _ h => h
  | .function ⟨_, _, _, _, _, _, _⟩ =>
    List.forall_mem_singleton.2 ((quiet_functionSignature _ _ _ _ _ _).leads fun _ =>
      leads_functionBody _ _ _)
  | .classDecl ⟨_, _, _, _, _, _⟩ =>
    forall_parts (leads_classPart fun _ => leads_member ⟨_, _, rfl⟩) <|
    forall_parts (leads_classPart fun _ => leads_initializers _ _ fun _ =>
      leads_member ⟨_, _, rfl⟩) <|
    List.forall_mem_singleton.2 (leads_classPart fun _ => leads_initializers _ _ fun _ =>
      (quiet_constructorBody _ _).leads fun _ => leads_member ⟨_, _, rfl⟩)
  | .entityDecl ⟨_, _, _, _, _, _⟩ =>
    forall_parts (leads_entityPart fun _ => leads_member ⟨_, _, rfl⟩) <|
    forall_parts (leads_entityPart fun _ => leads_initializers _ _ fun _ =>
      leads_member ⟨_, _, rfl⟩) <|
    forall_parts (leads_entityPart fun _ => leads_initializers _ _ fun _ =>
      (quiet_firstSpawn _ _).leads fun _ => leads_member ⟨_, _, rfl⟩) <|
    List.forall_mem_singleton.2 (leads_entityPart fun _ => leads_initializers _ _ fun _ =>
      (quiet_firstSpawn _ _).leads fun _ => (quiet_otherLifecycles _ _ _ _).leads fun _ =>
        leads_member ⟨_, _, rfl⟩)
  | .assign targets _ _ _ =>
    forall_parts (leads_here fun _ h => h) (List.forall_mem_singleton.2
      ((quiet_places targets).leads fun _ => leads_here fun _ h => h))
  | .ifChain e stmts elseifs _ _ =>
    forall_parts (leads_here fun _ h => h) <|
    forall_parts ((quiet_condition e).leads fun _ => .chain fun _ =>
      leads_branch _ _ _ fun _ _ => nofun) <|
    forall_parts ((quiet_condition e).leads fun _ => .chain fun _ =>
      (keeps_inBranch _ _ stmts).leads fun _ => .inside fun _ _ => nofun) <|
    List.forall_mem_singleton.2 ((quiet_condition e).leads fun _ => .chain fun _ =>
      (keeps_inBranch _ _ stmts).leads fun _ => ((reports_elseIfs elseifs).keeps
        fun _ _ => trivial).leads fun _ => .inside fun _ _ => nofun)
  | .repeatLoop iterator start skip _ _ _ =>
    forall_parts (leads_here fun _ h => h) <|
    forall_parts ((quiet_expr iterator none).single.leads fun _ => (quiet_repeatType _ _).leads
      fun _ => leads_here fun _ h => h) <|
    forall_parts ((quiet_expr iterator none).single.leads fun _ => (quiet_repeatType _ _).leads
      fun _ => (quiet_repeatPart start _ _).leads fun _ => leads_here fun _ h => h) <|
    List.forall_mem_singleton.2 ((quiet_expr iterator none).single.leads fun _ =>
      (quiet_repeatType _ _).leads fun _ => (quiet_repeatPart start _ _).leads fun _ =>
        (quiet_repeatPart skip _ _).leads fun _ => hloop _ _ _)
  | .whileLoop e _ _ =>
    forall_parts (leads_here fun _ h => h) (List.forall_mem_singleton.2
      ((quiet_condition e).leads fun _ => hloop _ _ _))
  | .forLoop _ _ iterator _ _ =>
    forall_parts (leads_here fun _ h => h) (List.forall_mem_singleton.2
      ((quiet_expr iterator none).single.leads fun _ => (quiet_iterated _ _).leads fun _ =>
        (quiet_forKey _ _).leads fun _ => hloop _ _ _))
  | .tick _ _ _ =>
    List.forall_mem_singleton.2 (leads_loopBody .tick (fun below => below.union_empty)
      ⟨rfl, rfl, rfl⟩ (fun _ h => h) nofun _ _ _)
  | .matching subject _ _ =>
    forall_parts (leads_here fun _ h => h) (List.forall_mem_singleton.2
      ((quiet_expr subject none).single.leads fun _ => .chain fun _ => .inside fun _ _ => nofun))
  | .returning _ _ => by
    refine List.forall_mem_singleton.2 ((quiet_exitAllowed _ _ _).checking.leads fun accepted => ?_)
    split
    · exact quiet_returnTypes.leads fun _ => leads_here fun _ h => h
    · exact leads_here fun _ h => h
  | .yielding _ _ => by
    refine List.forall_mem_singleton.2 ((quiet_exitAllowed _ _ _).checking.leads fun accepted => ?_)
    split
    · exact quiet_yieldTarget.leads fun _ => leads_here fun _ h => h
    · exact leads_here fun _ h => h
  | .destroy target _ _ _ => by
    refine forall_parts (leads_here fun _ h => h) (List.forall_mem_singleton.2
      ((quiet_expr target none).single.leads fun _ => (quiet_destroyer? _ _).leads
        fun found => ?_))
    cases found with
    | some signature => exact leads_arguments _ _ _
    | none => exact leads_here fun _ h => h

theorem leads_taskParts (task : Task) :
    ∀ part ∈ taskParts task, Leads (fun around => task.Placed around) part :=
  match task with
  | .expr e hint => leads_exprParts hint e
  | .stmt st => leads_stmtParts st
  | .values [] _ | .elements [] _ | .mapEntries [] _ _ | .unchecked [] | .patterns [] _
  | .matchArms [] _ | .body [] _ | .places [] | .elseIfs [] | .elseBody none _
  | .repeatPart none _ _ | .initializers [] _ _ _ | .constructorBody none _
  | .constructorBody (some _) none | .methodBodies [] _ | .firstSpawn [] _
  | .otherLifecycles [] _ _ _ => nofun
  | .values (e :: rest) hints => by
    refine forall_parts (leads_here fun _ h => h) (List.forall_mem_singleton.2
      ((quiet_expr e hints.head?).leads fun _ => ?_))
    dsimp only
    split
    · exact (quiet_expectSingle _ _).leads fun _ => leads_here fun _ h => h
    · exact leads_here fun _ h => h
  | .elements (e :: rest) reference =>
    forall_parts (leads_here fun _ h => h) (List.forall_mem_singleton.2
      ((quiet_expr e reference).single.leads fun _ => (quiet_elementType _ _ _).leads fun _ =>
        leads_here fun _ h => h))
  | .mapEntries (⟨key, e⟩ :: rest) keys reference =>
    forall_parts (.guard (quiet_report _ _ rfl) fun _ => leads_here fun _ h => h)
      (List.forall_mem_singleton.2 (.guard (quiet_report _ _ rfl) fun _ =>
        (quiet_expr e reference).single.leads fun _ => (quiet_elementType _ _ _).leads fun _ =>
          leads_here fun _ h => h))
  | .unchecked (e :: rest) =>
    forall_parts (leads_here fun _ h => h) (List.forall_mem_singleton.2
      ((quiet_expr e none).leads fun _ => leads_here fun _ h => h))
  | .patterns (e :: rest) subject =>
    forall_parts (leads_here fun _ h => h) (List.forall_mem_singleton.2
      ((quiet_expr e (some subject)).single.leads fun _ => .guard (quiet_report _ _ rfl) fun _ =>
        leads_here fun _ h => h))
  | .matchArms (⟨pats, isDefault, stmts, span⟩ :: rest) subject => by
    have hbefore : Quiet .checking (if isDefault then
        if !rest.isEmpty then report .invalidDefaultCasePlacement span else pure ()
      else do
        let _ ← patterns pats subject
        clearNarrowings) := by
      split
      · split
        · exact quiet_report _ _ rfl
        · exact .pure _
      · exact (quiet_patterns pats subject).bind fun _ => quiet_clearNarrowings
    have harm : Keeps (inBranch (body stmts false)) :=
      (reports_inBranch (reports_body (reports_stmts stmts))).keeps fun _ _ => trivial
    refine forall_parts ?_ (forall_parts (hbefore.leads fun _ => leads_branch _ _ _ fun _ h => h)
      (List.forall_mem_singleton.2 (hbefore.leads fun _ => harm.leads fun _ =>
        leads_here fun _ h => h)))
    split
    · exact .skip
    · exact leads_here fun _ h => h
  | .body (first :: rest) reported => by
    refine forall_parts (leads_here fun _ h => h) (List.forall_mem_singleton.2
      ((keeps_stmt first).leads fun _ => quiet_clearNarrowings.leads fun _ => ?_))
    cases rest with
    | nil => exact .skip
    | cons next others =>
      refine quiet_alwaysLeaves.leads fun leaves => ?_
      split
      · refine .guard (quiet_report _ _ rfl) fun _ => quiet_get.leads fun st => ?_
        split
        · exact .skip
        · exact leads_here fun _ h => h
      · exact leads_here fun _ h => h
  | .places (e :: rest) =>
    forall_parts ((quiet_assignLocal e).leads fun _ => leads_here fun _ h => h)
      (List.forall_mem_singleton.2 ((quiet_assignLocal e).leads fun _ =>
        (quiet_expr e none).single.leads fun _ => (quiet_finishPlace _ _ _).leads fun _ =>
          leads_here fun _ h => h))
  | .elseIfs (⟨e, stmts, _⟩ :: rest) =>
    forall_parts (leads_here fun _ h => h) <|
    forall_parts ((quiet_condition e).leads fun _ => leads_branch _ _ _ fun _ h => h) <|
    List.forall_mem_singleton.2 ((quiet_condition e).leads fun _ =>
      (keeps_inBranch _ _ stmts).leads fun _ => leads_here fun _ h => h)
  | .elseBody (some stmts) narrowings =>
    List.forall_mem_singleton.2 (leads_branch _ _ _ fun _ h => h)
  | .repeatPart (some e) _ _ => List.forall_mem_singleton.2 (leads_here fun _ h => h)
  | .initializers (⟨names, _, exprs, _, _, span⟩ :: rest) owner kind members => by
    refine forall_parts ?_ (List.forall_mem_singleton.2 ?_)
    · split
      · exact .skip
      · exact .enter .initializer (·.restrictedScope .plain { selfRef := true })
          (fun stack => stack.pushRestricted_opens .plain _) (fun _ h => h)
          (fun _ => ⟨rfl, rfl, rfl, rfl⟩) fun _ => .inside fun _ _ => nofun
    · dsimp only
      split
      · refine ((reports_restrictedValues exprs _).keeps fun _ _ => trivial).leads fun _ =>
          (quiet_checkValueCount _ _ _ _).leads fun _ =>
            (reports_checkInitializers _ _ _ _ _).leads ?_ fun _ => .here fun _ h => h
        rintro _ ⟨ref, kind, rfl⟩
        nofun
      · exact .here fun _ h => h
  | .constructorBody (some ⟨_, params, stmts, _⟩) (some signature) =>
    List.forall_mem_singleton.2 (leads_functionBody _ _ _)
  | .methodBodies (⟨name, generics, params, returns, stmts, _, span⟩ :: rest) members =>
    forall_parts ((quiet_methodSignature _ _ _ _ _).leads fun _ => leads_functionBody _ _ _)
      (List.forall_mem_singleton.2 ((quiet_methodSignature _ _ _ _ _).leads fun _ =>
        (quiet_inFunction _ _ _ (leaves_body stmts false)).leads fun _ => .here fun _ h => h))
  | .firstSpawn (⟨kind, generics, params, returns, stmts, _⟩ :: rest) entity => by
    refine List.forall_mem_singleton.2 ?_
    split
    · exact (quiet_walkedSignature _ _ _ _ _ _).leads fun _ => leads_functionBody _ _ _
    · exact .here fun _ h => h
  | .otherLifecycles (⟨kind, generics, params, returns, stmts, span⟩ :: rest) entity spawned
      seen => by
    simp only [taskParts]
    split
    · exact List.forall_mem_singleton.2 (.here fun _ h => h)
    · exact forall_parts ((quiet_walkedSignature _ _ _ _ _ _).leads fun _ =>
          leads_functionBody _ _ _)
        (List.forall_mem_singleton.2 ((quiet_walkedSignature _ _ _ _ _ _).leads fun _ =>
          (quiet_inFunction _ _ _ (leaves_body stmts false)).leads fun _ =>
            .guard (quiet_checkFieldsInitialized _) fun _ => .here fun _ h => h))

/-! ## Visits -/

/-- Where a walk comes to a part, the stack has the scopes of the regions around the part. -/
theorem Visits.follows {task inner : Task} {t : State} {regions : List Region}
    (h : Visits c task s regions inner t) : ∀ {o around}, Live c s o → Follows around o →
      task.Placed around → ∃ o', Live c t o' ∧ Follows (regions ++ around) o' ∧
        inner.Placed (regions ++ around) := by
  induction h with
  | here task s => exact fun hl hfollows hplaced => ⟨_, hl, hfollows, hplaced⟩
  | into hpart hrun _ ih =>
    intro o around hl hfollows hplaced
    obtain ⟨o', hl', hfollows', hplaced'⟩ :=
      ((leads_taskParts _ _ hpart c _ o around hl hfollows hplaced).apply hrun).2 _ _ rfl
    rw [List.append_assoc]
    exact ih hl' hfollows' hplaced'

/-- A walk comes to a part in steps. -/
theorem Visits.steps {task inner : Task} {t : State} {regions : List Region}
    (h : Visits c task s regions inner t) : ∀ {o around}, Live c s o → Follows around o →
      task.Placed around → Steps c .checking s t := by
  induction h with
  | here task s => exact fun _ _ _ => .refl
  | into hpart hrun _ ih =>
    intro o around hl hfollows hplaced
    obtain ⟨hsteps, hled⟩ :=
      (leads_taskParts _ _ hpart c _ o around hl hfollows hplaced).apply hrun
    obtain ⟨o', hl', hfollows', hplaced'⟩ := hled _ _ rfl
    exact hsteps.trans (ih hl' hfollows' hplaced')

/-- A program is walked at the root. -/
theorem placed_programTask (p : Program) : (programTask p).Placed [] := by
  unfold programTask
  split <;> exact nofun

end HybroidSema.Check
