import HybroidSema.Proofs.TreeSound
import HybroidSema.Proofs.Visits

/-!
# Tidy states all along a walk

A walk that begins in a tidy state is in a tidy state whenever it comes to a part of the tree. What is
run before a part is a beginning of the check of the whole, so it is made of sound checks; only the
scopes around the part are not closed again.

* `Task.Fine`: what a call is told by the calls around it is declared, and initializers are checked in
  the body of their container.
* `Part.Opens`: what is run before a part leads from tidy states to tidy states.
* `opens_of_mem_taskParts` and `Visits.tidy`: every part, and every part of a part.

The programs are not assumed to fit: a walk that has met an error which ends the build goes on, and
stays tidy.
-/

namespace HybroidSema.Check

variable {α : Type} {k : Demands} {c : Context} {r r' : Registry} {d : List Bool}

/-- The types, signatures and members that a call was given are declared. Initializers are checked
where the innermost scope is the body of a class or entity. -/
def Task.Fine (plain : Prop) (r : Registry) (d : List Bool) : Task → Prop
  | .expr _ hint => ∀ ty ∈ hint, ty.Declared r
  | .values _ hints => ∀ ty ∈ hints, ty.Declared r
  | .elements _ reference | .mapEntries _ _ reference => ∀ ty ∈ reference, ty.Declared r
  | .patterns _ subject | .matchArms _ subject => subject.Declared r
  | .elseBody _ narrowings => ∀ n ∈ narrowings, r.HasEntity n.entity
  | .repeatPart _ ty _ => ty.Declared r
  | .initializers _ _ _ members => members.Fine plain r ∧ d.head? = some true
  | .methodBodies _ members => members.Fine plain r
  | .constructorBody _ signature => ∀ s ∈ signature, s.Declared r
  | .firstSpawn _ entity | .otherLifecycles _ entity _ _ => entity.Fine plain r
  | .unchecked _ | .body _ _ | .stmt _ | .places _ | .elseIfs _ => True

/-- From a tidy state, what is run before the part ends in a tidy state, perhaps with more scopes
open, in which what the part was given is declared. -/
def Part.Opens (k : Demands) (c : Context) (r : Registry) (d : List Bool) (part : Part) : Prop :=
  ∀ s p s', Tidy k c d s → r.Extends s.session.registry → part c s = .ok (p, s') →
    ∃ d', Tidy k c d' s' ∧ s.session.registry.Extends s'.session.registry ∧
      ∀ around task, p = some (around, task) → task.Fine k.plain s'.session.registry d'

namespace Part

/-- A part inside some regions. -/
theorem Opens.inside {regions : List Region} {task : Task}
    (h : ∀ r', r.Extends r' → task.Fine k.plain r' d) : Opens k c r d (inside regions task) := by
  intro s p s' hs hr hrun
  cases hrun
  refine ⟨d, hs, .refl _, fun around task' heq => ?_⟩
  cases heq
  exact h _ hr

theorem Opens.here {task : Task} (h : ∀ r', r.Extends r' → task.Fine k.plain r' d) :
    Opens k c r d (here task) :=
  Opens.inside h

theorem Opens.skip : Opens k c r d skip := by
  intro s p s' hs _ hrun
  cases hrun
  exact ⟨d, hs, .refl _, nofun⟩

end Part

open HybroidSema.Check.Part

/-- A sound check before a part. -/
theorem Sound.opens {m : Check α} {R : Registry → α → Prop} {f : α → Part} (hm : Sound k c r d m R)
    (hf : ∀ a r', r.Extends r' → R r' a → Opens k c r' d (f a)) : Opens k c r d (m >>= f) := by
  intro s p s' hs hr hrun
  obtain ⟨a, t, hm', hf'⟩ := bind_eq_ok hrun
  obtain ⟨ht, hext, ha⟩ := hm.apply hs hr hm'
  obtain ⟨d', hs', hext', hp⟩ := hf a _ (hr.trans hext) ha t p s' ht (.refl _) hf'
  exact ⟨d', hs', hext.trans hext', hp⟩

/-- A sound check that is made under a condition. -/
theorem Sound.opensIf {m : Check PUnit} {R : Registry → PUnit → Prop} {f : PUnit → Part} {b : Prop}
    [Decidable b] (hm : b → Sound k c r d m R)
    (hf : ∀ r', r.Extends r' → Opens k c r' d (f ⟨⟩)) :
    Opens k c r d (if b then m >>= f else f ⟨⟩) := by
  split
  · next hb => exact (hm hb).opens fun _ r' hr _ => hf r' hr
  · exact hf r (.refl r)

/-- Reading the state before a part. -/
theorem opens_get {f : State → Part} (hf : ∀ s, Opens k c r d (f s)) : Opens k c r d (get >>= f) :=
  fun s p s' hs hr hrun => hf s s p s' hs hr hrun

/-- A scope that is opened before a part. -/
theorem opens_enter {enter : ScopeStack → ScopeStack} {part : Part} {b : Bool}
    (henter : ∀ r' stack, r.Extends r' → ScopesAre k d r' stack →
      ScopesAre k (b :: d) r' (enter stack))
    (hpart : ∀ r', r.Extends r' → Opens k c r' (b :: d) part) :
    Opens k c r d (do
      modifyScopes enter
      part) := by
  intro s p s' hs hr hrun
  obtain ⟨u, t, henter', hrun'⟩ := bind_eq_ok hrun
  obtain ⟨ht, hext⟩ := hs.modifyScopes (fun stack => henter _ stack hr) henter'
  obtain ⟨d', hs', hext', hp⟩ := hpart _ (hr.trans hext) t p s' ht (.refl _) hrun'
  exact ⟨d', hs', hext.trans hext', hp⟩

theorem opens_push {tag : ScopeTag} {added : Permissions} {part : Part} (htag : tag.Valid r)
    (hpart : ∀ r', r.Extends r' → Opens k c r' (tag.container?.isSome :: d) part) :
    Opens k c r d (do
      modifyScopes (·.push tag added)
      part) :=
  opens_enter (fun _ _ hr h => h.enter (htag.mono hr) _) hpart

/-! ## Parts that several trees have -/

theorem opens_arguments {signature : Signature} (hs : signature.Declared r)
    (generics : List TypeExpr) (args : List Expr) :
    Opens k c r d (arguments signature generics args) :=
  (sound_resolveTypes generics).opens fun _ _ h₁ _ => .here fun _ hr =>
    declared_hintsOf ((hs.mono h₁).mono hr).params

theorem opens_functionBody {signature : Signature} (hs : signature.Declared r)
    (params : List Param) (stmts : List Stmt) :
    Opens k c r d (functionBody signature params stmts) := by
  refine opens_enter (b := false) (fun r' stack hr h => ?_) fun r' hr => ?_
  · have htag : (ScopeTag.func { generics := signature.generics, returns := signature.returns }).Valid
        r' := hs.returns.mono hr
    exact h.enter htag _
  · exact (sound_bindParams params (hs.mono hr).params).opens fun _ _ _ _ => .inside fun _ _ => trivial

theorem opens_branch {narrowings : List Narrowing} (hn : ∀ n ∈ narrowings, r.HasEntity n.entity)
    (negated : Bool) (stmts : List Stmt) (around : List Region) :
    Opens k c r d (branch narrowings negated stmts around) :=
  opens_push trivial fun _ hr => (sound_declareNarrowings (fun n hmem =>
    hr.entities _ (hn n hmem)) negated).opens fun _ _ _ _ => .inside fun _ _ => trivial

theorem opens_loopBody (region : Region) (permits : Permissions) {bindings : List (Ident × Value)}
    (hb : ∀ p ∈ bindings, p.2.Fine k.plain r ∧ p.2.literal? = none) {narrowings : List Narrowing}
    (hn : ∀ n ∈ narrowings, r.HasEntity n.entity) (stmts : List Stmt) :
    Opens k c r d (loopBody region permits bindings narrowings stmts) := by
  refine opens_push trivial fun r₁ h₁ => ?_
  refine (Sound.forM (P := fun p => p.2.Fine k.plain r₁ ∧ p.2.literal? = none)
    (fun p hp => ⟨(hb p hp).1.mono h₁, (hb p hp).2⟩) fun p r' hr hp => ?_).opens fun _ r₂ h₂ _ => ?_
  · refine sound_declare ?_ (.inr fun _ => hp.2) _
    exact ⟨hp.1.mono hr, nofun⟩
  · exact (sound_declareNarrowings (fun n hmem =>
      h₂.entities _ (h₁.entities _ (hn n hmem))) false).opens fun _ _ _ _ =>
        .inside fun _ _ => trivial

/-- A part of a class or entity, in the scope of its members. -/
theorem opens_containerPart {γ : Type} {what : String} {span : Span} {find : Check (Option γ)}
    {P : Registry → γ → Prop} {tag : γ → ScopeTag} {members : γ → Members} {part : γ → Part}
    (hfind : ∀ r, Sound k c r d find fun r' found => ∀ info ∈ found, P r' info)
    (htag : ∀ r info, P r info → (tag info).Valid r)
    (hmembers : ∀ r info, P r info → (members info).Fine k.plain r)
    (hmono : ∀ r r' info, r.Extends r' → P r info → P r' info)
    (hcontainer : ∀ info, (tag info).container?.isSome = true)
    (hpart : ∀ r info, P r info → Opens k c r (true :: d) (part info)) :
    Opens k c r d (containerPart what span find tag members part) := by
  have hfound (r₁ : Registry) (info : γ) (hi : P r₁ info) : Opens k c r₁ d (do
      modifyScopes (·.push (tag info) { selfRef := true })
      bindMembers (members info)
      part info) := by
    refine opens_push (htag r₁ info hi) fun r₂ h₂ => ?_
    have hi₂ := hmono _ _ info h₂ hi
    rw [hcontainer info]
    exact (sound_bindMembers (hmembers r₂ info hi₂)).opens fun _ _ h₃ _ =>
      hpart _ info (hmono _ _ info h₃ hi₂)
  refine (sound_atRoot what span).opens fun isRoot r₁ _ _ => ?_
  split
  · refine (hfind r₁).opens fun found r₂ _ hf => ?_
    cases found with
    | none => exact .skip
    | some info => exact hfound r₂ info (hf info rfl)
  · exact .skip

section

variable (hfits : ¬k.fits)
include hfits

theorem opens_classPart {name : Ident} {span : Span} {part : ClassInfo → List Region → Part}
    (hpart : ∀ r info regions, ClassInfo.Fine k.plain r info →
      Opens k c r (true :: d) (part info regions)) :
    Opens k c r d (classPart name span part) :=
  opens_containerPart (P := ClassInfo.Fine k.plain) (fun _ => sound_ownClass? fun hk =>
    absurd hk hfits) (fun _ _ h => h.ty) (fun _ _ h => h.members) (fun _ _ _ hr h => h.mono hr)
    (fun _ => rfl) fun r info h => hpart r info _ h

theorem opens_entityPart {name : Ident} {span : Span} {part : EntityInfo → List Region → Part}
    (hpart : ∀ r info regions, EntityInfo.Fine k.plain r info →
      Opens k c r (true :: d) (part info regions)) :
    Opens k c r d (entityPart name span part) :=
  opens_containerPart (P := EntityInfo.Fine k.plain) (fun _ => sound_ownEntity? fun hk =>
    absurd hk hfits) (fun _ _ h => h.ty) (fun _ _ h => h.members) (fun _ _ _ hr h => h.mono hr)
    (fun _ => rfl) fun r info h => hpart r info _ h

/-! ## Every part -/

/-- A condition and what it narrows. -/
theorem sound_condition (e : Expr) :
    Sound k c r d (condition e) fun r' narrowings => ∀ n ∈ narrowings, r'.HasEntity n.entity :=
  (sound_expr e (fun hk => absurd hk hfits) r d declared_none).single.bind fun _ _ _ _ =>
    sound_conditionNarrowings _ _

/-- An expression that must have one value. -/
theorem sound_single (e : Expr) {hint : Option Ty} (h : ∀ ty ∈ hint, ty.Declared r) :
    Sound k c r d (single (expr e hint)) (YieldsOne k) :=
  (sound_expr e (fun hk => absurd hk hfits) r d h).single

theorem sound_bodyIn (stmts : List Stmt) : Sound k c r d (body stmts false) fun _ _ => True :=
  sound_body stmts (fun hk => absurd hk hfits) r d (fun hk => absurd hk hfits) fun _ => rfl

theorem opens_exprParts {hint : Option Ty} (h : ∀ ty ∈ hint, ty.Declared r) (e : Expr) :
    ∀ part ∈ exprParts hint e, Opens k c r d part := by
  have hone (e : Expr) : Opens k c r d (here (.expr e none)) := .here fun _ _ => declared_none
  cases e with
  | literal | ident | builtin | envAccess | self | error => exact nofun
  | unary op operand span => simpa [exprParts] using hone operand
  | binary left op right span =>
    refine List.forall_mem_cons.2 ⟨hone left, List.forall_mem_singleton.2 ?_⟩
    exact (sound_single hfits left declared_none).opens fun _ _ _ hp => .here fun _ hr =>
      declared_some (hp.ty.mono hr)
  | group inner span =>
    refine List.forall_mem_singleton.2 ?_
    exact .here fun _ hr ty hty => (h ty hty).mono hr
  | list elems span =>
    refine List.forall_mem_singleton.2 ?_
    exact (sound_checkKnown _ _ _).opens fun _ _ h₁ _ => .here fun _ hr =>
      declared_hinted (fun ty hty => (h ty hty).mono (h₁.trans hr)) .list
  | map entries span =>
    refine List.forall_mem_singleton.2 ?_
    exact (sound_checkKnown _ _ _).opens fun _ _ h₁ _ => .here fun _ hr =>
      declared_hinted (fun ty hty => (h ty hty).mono (h₁.trans hr)) .map
  | call caller generics args returnAmount span =>
    refine List.forall_mem_cons.2 ⟨hone caller, List.forall_mem_singleton.2 ?_⟩
    refine (sound_single hfits caller declared_none).opens fun p r₁ _ hp => ?_
    obtain ⟨caller', callee⟩ := p
    dsimp only
    split
    · next signature =>
      have hsignature : signature.Declared r₁ := hp.declared
      exact opens_arguments hsignature _ _
    · refine Sound.opensIf (fun hguard => sound_report _ _ fun hk => ?_) fun _ _ =>
        .here fun _ _ => trivial
      exact isProper_invalidCallerType (hp.isPlain (k.plain_of_proper hk)) (by simpa using hguard)
  | methodCall receiver owner kind method generics args returnAmount span =>
    refine List.forall_mem_cons.2 ⟨hone receiver, List.forall_mem_singleton.2 ?_⟩
    refine (sound_single hfits receiver declared_none).opens fun _ _ _ _ =>
      (sound_calledMethod owner kind method hfits).opens fun called r₂ _ hcalled => ?_
    cases called with
    | found signature => exact opens_arguments (hcalled signature rfl) _ _
    | missing => exact .here fun _ _ => trivial
    | ownerless => exact .skip
  | field target name index span => simpa [exprParts] using hone target
  | member target index span =>
    refine List.forall_mem_cons.2 ⟨hone target, List.forall_mem_singleton.2 ?_⟩
    exact (sound_single hfits target declared_none).opens fun _ _ _ _ =>
      .here fun _ _ => declared_none
  | new ty generics args span =>
    refine List.forall_mem_singleton.2 ?_
    refine (sound_constructed _ _ _).opens fun found r₁ _ hfound => ?_
    obtain ⟨ref, _ | signature⟩ := found
    · exact .here fun _ _ => trivial
    · exact opens_arguments (hfound.2 signature rfl) _ _
  | spawn ty generics args span =>
    refine List.forall_mem_singleton.2 ?_
    refine (sound_constructed _ _ _).opens fun found r₁ _ hfound => ?_
    obtain ⟨ref, _ | signature⟩ := found
    · exact .here fun _ _ => trivial
    · exact opens_arguments (hfound.2 signature rfl) _ _
  | function params returns stmts span =>
    refine List.forall_mem_singleton.2 ?_
    exact (sound_resolveSignature _ _ _).opens fun _ _ _ hs => opens_functionBody hs _ _
  | matching subject arms returnAmount span =>
    refine List.forall_mem_cons.2 ⟨hone subject, List.forall_mem_singleton.2 ?_⟩
    refine (sound_single hfits subject declared_none).opens fun _ _ _ hp => ?_
    exact opens_push (by simp [ScopeTag.Valid]) fun _ h₁ => .inside fun _ hr =>
      (hp.ty.mono h₁).mono hr
  | entityTest value ty binding negated official span => simpa [exprParts] using hone value

theorem opens_stmtParts (stmt : Stmt) : ∀ part ∈ stmtParts stmt, Opens k c r d part := by
  have hone (e : Expr) : Opens k c r d (here (.expr e none)) := .here fun _ _ => declared_none
  have hno {P : Prop} : k.fits → P := fun hk => absurd hk hfits
  cases stmt with
  | env | enumDecl | aliasDecl | breaking | continuing | use | error => exact nofun
  | «variable» decl =>
    obtain ⟨names, ty, exprs, isPub, isConst, span⟩ := decl
    refine List.forall_mem_singleton.2 ?_
    have hvalues (r : Registry) : Opens k c r d (do
        if isConst && ty.isSome then report .unnecessaryTypeInConstDeclaration span
        let declared ← resolveType? ty
        if exprs.isEmpty then skip
        else here (.values exprs (List.replicate exprs.length (declared.getD .invalid)))) := by
      refine Sound.opensIf (fun _ => sound_report _ _ fun _ => rfl) fun r₁ _ =>
        (sound_resolveType? ty).opens fun declared r₂ _ hd => ?_
      split
      · exact .skip
      · refine .here fun _ hr t ht => ?_
        rw [List.eq_of_mem_replicate ht]
        exact (declared_getD hd).mono hr
    dsimp only
    split
    · exact sound_scopes.opens fun _ _ _ _ => Sound.opensIf (fun _ => sound_report _ _ fun _ => rfl)
        fun r₂ _ => hvalues r₂
    · exact hvalues r
  | function decl =>
    obtain ⟨name, generics, params, returns, stmts, isPub, span⟩ := decl
    refine List.forall_mem_singleton.2 ?_
    exact (sound_functionSignature _ _ _ _ _ _).opens fun _ _ _ hs => opens_functionBody hs _ _
  | classDecl decl =>
    obtain ⟨name, isPub, fields, methods, constructor, span⟩ := decl
    have hfields (r : Registry) (info : ClassInfo) (hi : info.Fine k.plain r) :=
      sound_initializers (c := c) fields hno r d info.ty .classDecl hi.members
    have hconstructor (r : Registry) (info : ClassInfo) (hi : info.Fine k.plain r) :=
      sound_constructorBody (c := c) constructor hno r (true :: d) hi.constructor
    refine List.forall_mem_cons.2 ⟨?_, List.forall_mem_cons.2 ⟨?_, List.forall_mem_singleton.2 ?_⟩⟩
    · exact opens_classPart hfits fun _ _ _ hi => .inside fun _ hr => ⟨hi.members.mono hr, rfl⟩
    · refine opens_classPart hfits fun _ info _ hi => (hfields _ info hi).opens fun _ _ h₁ _ =>
        .inside fun _ hr => ?_
      exact (hi.mono (h₁.trans hr)).constructor
    · refine opens_classPart hfits fun _ info _ hi => (hfields _ info hi).opens fun _ _ h₁ _ =>
        (hconstructor _ info (hi.mono h₁)).opens fun _ _ h₂ _ => .inside fun _ hr => ?_
      exact (hi.mono ((h₁.trans h₂).trans hr)).members
  | entityDecl decl =>
    obtain ⟨name, isPub, fields, methods, functions, span⟩ := decl
    have hfields (r : Registry) (info : EntityInfo) (hi : info.Fine k.plain r) :=
      sound_initializers (c := c) fields hno r d info.ty .entityDecl hi.members
    have hspawn (r : Registry) (info : EntityInfo) (hi : info.Fine k.plain r) :=
      sound_firstSpawn (c := c) functions hno r (true :: d) hi
    have hothers (r : Registry) (info : EntityInfo) (hi : info.Fine k.plain r) :=
      sound_otherLifecycles (c := c) functions hno r (true :: d) hi
    refine List.forall_mem_cons.2 ⟨?_, List.forall_mem_cons.2 ⟨?_, List.forall_mem_cons.2
      ⟨?_, List.forall_mem_singleton.2 ?_⟩⟩⟩
    · exact opens_entityPart hfits fun _ _ _ hi => .inside fun _ hr => ⟨hi.members.mono hr, rfl⟩
    · refine opens_entityPart hfits fun _ info _ hi => (hfields _ info hi).opens fun _ _ h₁ _ =>
        .inside fun _ hr => ?_
      exact hi.mono (h₁.trans hr)
    · refine opens_entityPart hfits fun _ info _ hi => (hfields _ info hi).opens fun _ _ h₁ _ =>
        (hspawn _ info (hi.mono h₁)).opens fun _ _ h₂ _ => .inside fun _ hr => ?_
      exact hi.mono ((h₁.trans h₂).trans hr)
    · refine opens_entityPart hfits fun _ info _ hi => (hfields _ info hi).opens fun _ _ h₁ _ =>
        (hspawn _ info (hi.mono h₁)).opens fun _ _ h₂ _ =>
          (hothers _ info (hi.mono (h₁.trans h₂)) _ _).opens fun _ _ h₃ _ => .inside fun _ hr => ?_
      exact (hi.mono (((h₁.trans h₂).trans h₃).trans hr)).members
  | assign targets op exprs span =>
    refine List.forall_mem_cons.2 ⟨.here fun _ _ => trivial, List.forall_mem_singleton.2 ?_⟩
    refine (sound_places targets hno r d).opens fun p r₁ _ hp => .here fun _ hr ty hty => ?_
    obtain ⟨v, hv, rfl⟩ := List.mem_map.1 hty
    exact (hp v hv).ty.mono hr
  | ifChain e stmts elseifs otherwise span =>
    have hbranch (r : Registry) (narrowings : List Narrowing)
        (hn : ∀ n ∈ narrowings, r.HasEntity n.entity) : Sound k c r (false :: d) (inBranch do
          declareNarrowings narrowings false
          body stmts false) fun _ _ => True :=
      sound_inBranch ((sound_declareNarrowings hn false).bind fun _ _ _ _ =>
        sound_bodyIn hfits stmts)
    have hentities {r r' : Registry} {narrowings : List Narrowing} (hr : r.Extends r')
        (hn : ∀ n ∈ narrowings, r.HasEntity n.entity) : ∀ n ∈ narrowings, r'.HasEntity n.entity :=
      fun n hmem => hr.entities _ (hn n hmem)
    refine List.forall_mem_cons.2 ⟨hone e, List.forall_mem_cons.2 ⟨?_, List.forall_mem_cons.2
      ⟨?_, List.forall_mem_singleton.2 ?_⟩⟩⟩
    · exact (sound_condition hfits e).opens fun _ _ _ hn => opens_push trivial fun _ hr =>
        opens_branch (hentities hr hn) _ _ _
    · exact (sound_condition hfits e).opens fun _ _ _ hn => opens_push trivial fun _ hr =>
        (hbranch _ _ (hentities hr hn)).opens fun _ _ _ _ => .inside fun _ _ => trivial
    · exact (sound_condition hfits e).opens fun _ _ _ hn => opens_push trivial fun _ h₁ =>
        (hbranch _ _ (hentities h₁ hn)).opens fun _ r₂ h₂ _ =>
          (sound_elseIfs elseifs hno r₂ (false :: d)).opens fun _ _ h₃ _ => .inside fun _ hr =>
            hentities (((h₁.trans h₂).trans h₃).trans hr) hn
  | repeatLoop iterator start skip counter stmts span =>
    have hpart (part : Option Expr) (r : Registry) (ty : Ty) (h : ty.Declared r) :=
      sound_repeatPart (c := c) part hno r d h span
    refine List.forall_mem_cons.2 ⟨hone iterator, List.forall_mem_cons.2 ⟨?_, List.forall_mem_cons.2
      ⟨?_, List.forall_mem_singleton.2 ?_⟩⟩⟩
    · exact (sound_single hfits iterator declared_none).opens fun _ _ _ hp =>
        (sound_repeatType _ hp).opens fun _ _ _ hty => .here fun _ hr => hty.mono hr
    · exact (sound_single hfits iterator declared_none).opens fun _ _ _ hp =>
        (sound_repeatType _ hp).opens fun ty _ _ hty => (hpart start _ ty hty).opens
          fun _ _ h₁ _ => .here fun _ hr => (hty.mono h₁).mono hr
    · refine (sound_single hfits iterator declared_none).opens fun _ _ _ hp =>
        (sound_repeatType _ hp).opens fun ty _ _ hty => (hpart start _ ty hty).opens
          fun _ _ h₁ _ => (hpart skip _ ty (hty.mono h₁)).opens fun _ _ h₂ _ =>
            opens_loopBody _ _ (fun p hp => ?_) (by simp) _
      obtain ⟨id, -, rfl⟩ := List.mem_map.1 hp
      exact ⟨Ty.fine_toValue ((hty.mono h₁).mono h₂), Ty.literal?_toValue _⟩
  | whileLoop e stmts span =>
    refine List.forall_mem_cons.2 ⟨hone e, List.forall_mem_singleton.2 ?_⟩
    exact (sound_condition hfits e).opens fun _ _ _ hn => opens_loopBody _ _ (by simp) hn _
  | forLoop key value iterator stmts span =>
    refine List.forall_mem_cons.2 ⟨hone iterator, List.forall_mem_singleton.2 ?_⟩
    refine (sound_single hfits iterator declared_none).opens fun _ _ _ hp =>
      (sound_iterated _ hp).opens fun found _ _ hf => (sound_forKey _ _).opens fun _ _ h₃ _ => ?_
    refine opens_loopBody _ _ (fun p hp => ?_) (by simp) _
    rcases List.mem_cons.1 hp with rfl | hp
    · exact ⟨hf.1.1.mono h₃, hf.1.2⟩
    · obtain ⟨id, -, rfl⟩ := List.mem_map.1 hp
      exact ⟨hf.2.1.mono h₃, hf.2.2⟩
  | tick counter stmts span =>
    refine List.forall_mem_singleton.2 (opens_loopBody _ _ (fun p hp => ?_) (by simp) _)
    obtain ⟨id, -, rfl⟩ := List.mem_map.1 hp
    exact ⟨fine_number _, rfl⟩
  | matching subject arms span =>
    refine List.forall_mem_cons.2 ⟨hone subject, List.forall_mem_singleton.2 ?_⟩
    refine (sound_single hfits subject declared_none).opens fun _ _ _ hp => ?_
    exact opens_push trivial fun _ h₁ => .inside fun _ hr => (hp.ty.mono h₁).mono hr
  | returning exprs span =>
    refine List.forall_mem_singleton.2 ((sound_exitAllowed _ _ _).opens fun allowed r₁ _ _ => ?_)
    split
    · exact sound_returnTypes.opens fun _ _ _ h => .here fun _ hr =>
        (Ty.allDeclared_iff _).1 (h.mono hr)
    · exact .here fun _ _ => nofun
  | yielding exprs span =>
    refine List.forall_mem_singleton.2 ((sound_exitAllowed _ _ _).opens fun allowed r₁ _ _ => ?_)
    split
    · refine sound_yieldTarget.opens fun p r₂ _ h => .here fun _ hr => ?_
      cases hknown : p.2 with
      | none => exact nofun
      | some types => exact (Ty.allDeclared_iff _).1 ((h types hknown).mono hr)
    · exact .here fun _ _ => nofun
  | destroy target generics args span =>
    refine List.forall_mem_cons.2 ⟨hone target, List.forall_mem_singleton.2 ?_⟩
    refine (sound_single hfits target declared_none).opens fun _ _ _ hp =>
      (sound_destroyer? _ hp).opens fun found r₂ _ hf => ?_
    cases found with
    | none => exact .here fun _ _ => trivial
    | some signature => exact opens_arguments (hf signature rfl) _ _
  | expr e => exact List.forall_mem_singleton.2 (hone e)

theorem opens_of_mem_taskParts {task : Task} (h : task.Fine k.plain r d) :
    ∀ part ∈ taskParts task, Opens k c r d part := by
  have hno {P : Prop} : k.fits → P := fun hk => absurd hk hfits
  have hone (e : Expr) : Opens k c r d (here (.expr e none)) := .here fun _ _ => declared_none
  match task, h with
  | .expr e hint, h => exact opens_exprParts hfits h e
  | .stmt s, _ => exact opens_stmtParts hfits s
  | .values [] _, _ | .elements [] _, _ | .mapEntries [] _ _, _ | .unchecked [], _
  | .patterns [] _, _ | .matchArms [] _, _ | .body [] _, _ | .places [], _ | .elseIfs [], _
  | .elseBody none _, _ | .repeatPart none _ _, _ | .initializers [] _ _ _, _
  | .constructorBody none _, _ | .constructorBody (some _) none, _ | .methodBodies [] _, _
  | .firstSpawn [] _, _ | .otherLifecycles [] _ _ _, _ => exact nofun
  | .values (e :: rest) hints, h =>
    refine List.forall_mem_cons.2 ⟨.here fun _ hr ty hty => (declared_head? h ty hty).mono hr,
      List.forall_mem_singleton.2 ?_⟩
    refine (sound_expr e hno r d (declared_head? h)).opens fun p r₁ h₁ hp => ?_
    have hrest (r' : Registry) (hr : r₁.Extends r') : Opens k c r' d (here (.values rest hints.tail)) :=
      .here fun _ hr' ty hty => (declared_tail h ty hty).mono ((h₁.trans hr).trans hr')
    dsimp only
    split
    · exact (sound_expectSingle hp _).opens fun _ r₂ h₂ _ => hrest r₂ h₂
    · exact hrest r₁ (.refl r₁)
  | .elements (e :: rest) reference, h =>
    refine List.forall_mem_cons.2 ⟨.here fun _ hr ty hty => (h ty hty).mono hr,
      List.forall_mem_singleton.2 ?_⟩
    exact (sound_single hfits e h).opens fun _ _ h₁ hp => (sound_elementType (fun ty hty =>
      (h ty hty).mono h₁) hp.ty _).opens fun _ _ _ hty => .here fun _ hr =>
        declared_some (hty.mono hr)
  | .mapEntries (⟨key, e⟩ :: rest) keys reference, h =>
    refine List.forall_mem_cons.2 ⟨?_, List.forall_mem_singleton.2 ?_⟩
    · exact Sound.opensIf (fun _ => sound_report _ _ fun _ => rfl) fun _ h₁ => .here fun _ hr ty hty =>
        (h ty hty).mono (h₁.trans hr)
    · refine Sound.opensIf (fun _ => sound_report _ _ fun _ => rfl) fun r₁ h₁ => ?_
      have hh : ∀ ty ∈ reference, ty.Declared r₁ := fun ty hty => Ty.Declared.mono h₁ (h ty hty)
      exact (sound_single hfits e hh).opens fun _ _ h₂ hp => (sound_elementType (fun ty hty =>
        (hh ty hty).mono h₂) hp.ty _).opens fun _ _ _ hty => .here fun _ hr =>
          declared_some (hty.mono hr)
  | .unchecked (e :: rest), _ =>
    refine List.forall_mem_cons.2 ⟨hone e, List.forall_mem_singleton.2 ?_⟩
    exact (sound_expr e hno r d declared_none).opens fun _ _ _ _ => .here fun _ _ => trivial
  | .patterns (e :: rest) subject, h =>
    refine List.forall_mem_cons.2 ⟨.here fun _ hr => declared_some (Ty.Declared.mono hr h),
      List.forall_mem_singleton.2 ?_⟩
    exact (sound_single hfits e (declared_some h)).opens fun _ _ h₁ _ => Sound.opensIf
      (fun hagrees => sound_report _ _ fun _ =>
        (all_isInvalid_of_not_agrees (by simpa using hagrees)).2) fun _ h₂ => .here fun _ hr =>
          Ty.Declared.mono ((h₁.trans h₂).trans hr) h
  | .matchArms (⟨pats, isDefault, stmts, span⟩ :: rest) subject, h =>
    have hbefore : Sound k c r d (if isDefault then
        if !rest.isEmpty then report .invalidDefaultCasePlacement span else pure ()
      else do
        let _ ← patterns pats subject
        clearNarrowings) fun _ _ => True := by
      split
      · split
        · exact sound_report _ _ fun _ => rfl
        · exact .pure fun _ _ => trivial
      · exact (sound_patterns pats hno r d h).bind fun _ _ _ _ => sound_clearNarrowings
    refine List.forall_mem_cons.2 ⟨?_, List.forall_mem_cons.2 ⟨?_, List.forall_mem_singleton.2 ?_⟩⟩
    · split
      · exact .skip
      · exact .here fun _ hr => Ty.Declared.mono hr h
    · exact hbefore.opens fun _ _ _ _ => opens_branch (by simp) _ _ _
    · exact hbefore.opens fun _ _ h₁ _ => (sound_inBranch (sound_bodyIn hfits stmts)).opens
        fun _ _ h₂ _ => .here fun _ hr => Ty.Declared.mono ((h₁.trans h₂).trans hr) h
  | .body (first :: rest) reported, _ =>
    refine List.forall_mem_cons.2 ⟨.here fun _ _ => trivial, List.forall_mem_singleton.2 ?_⟩
    refine (sound_stmt first hno r d hno).opens fun _ _ _ _ => sound_clearNarrowings.opens
      fun _ r₂ _ _ => ?_
    cases rest with
    | nil => exact .skip
    | cons next others =>
      refine sound_alwaysLeaves.opens fun certain r₃ _ _ => ?_
      split
      · refine Sound.opensIf (fun _ => sound_report _ _ fun _ => rfl) fun _ _ => opens_get
          fun _ => ?_
        split
        · exact .skip
        · exact .here fun _ _ => trivial
      · exact .here fun _ _ => trivial
  | .places (e :: rest), _ =>
    refine List.forall_mem_cons.2 ⟨?_, List.forall_mem_singleton.2 ?_⟩
    · exact (sound_assignLocal _).opens fun _ _ _ _ => .here fun _ _ => declared_none
    · exact (sound_assignLocal _).opens fun _ _ _ _ => (sound_single hfits e declared_none).opens
        fun _ _ _ _ => (sound_finishPlace _ _ _).opens fun _ _ _ _ => .here fun _ _ => trivial
  | .elseIfs (⟨e, stmts, span⟩ :: rest), _ =>
    refine List.forall_mem_cons.2 ⟨hone e, List.forall_mem_cons.2 ⟨?_,
      List.forall_mem_singleton.2 ?_⟩⟩
    · exact (sound_condition hfits e).opens fun _ _ _ hn => opens_branch hn _ _ _
    · exact (sound_condition hfits e).opens fun _ _ _ hn => (sound_inBranch
        ((sound_declareNarrowings hn false).bind fun _ _ _ _ => sound_bodyIn hfits stmts)).opens
          fun _ _ _ _ => .here fun _ _ => trivial
  | .elseBody (some stmts) narrowings, h =>
    exact List.forall_mem_singleton.2 (opens_branch h _ _ _)
  | .repeatPart (some e) ty span, h =>
    exact List.forall_mem_singleton.2 (.here fun _ hr => declared_some (Ty.Declared.mono hr h))
  | .initializers (⟨names, ty, exprs, isPub, isConst, span⟩ :: rest) owner kind members, h =>
    obtain ⟨d, rfl⟩ : ∃ outer, d = true :: outer := List.head?_eq_some_iff.1 h.2
    have hhints := declared_initializerHints h.1 names
    refine List.forall_mem_cons.2 ⟨?_, List.forall_mem_singleton.2 ?_⟩
    · split
      · exact .skip
      · refine opens_enter (b := false) (fun r' _ _ hs => ?_) fun _ h₁ => .inside fun _ hr ty hty =>
          (hhints ty hty).mono (h₁.trans hr)
        have htag : ScopeTag.plain.Valid r' := trivial
        exact hs.enter htag _
    · have hrest (r' : Registry) (hr : r.Extends r') :
          Opens k c r' (true :: d) (here (.initializers rest owner kind members)) :=
        .here fun _ hr' => ⟨h.1.mono (hr.trans hr'), rfl⟩
      have hvalues := sound_values (c := c) exprs hno r (false :: true :: d) hhints
      split
      · refine Sound.opens (Sound.inRestricted _ (fun _ _ _ hr hv => hv.mono hr) hvalues)
          fun _ _ h₁ hv => ?_
        exact (sound_checkValueCount _ _ _ _).opens fun _ _ h₂ _ =>
          (sound_checkInitializers _ _ _ _ (hv.1.mono h₂)).opens fun _ r₃ h₃ _ =>
            hrest r₃ ((h₁.trans h₂).trans h₃)
      · exact hrest r (.refl r)
  | .constructorBody (some ⟨_, params, stmts, _⟩) (some signature), h =>
    exact List.forall_mem_singleton.2 (opens_functionBody (h signature rfl) _ _)
  | .methodBodies (⟨name, generics, params, returns, stmts, isPub, span⟩ :: rest) members, h =>
    refine List.forall_mem_cons.2 ⟨?_, List.forall_mem_singleton.2 ?_⟩
    · exact (sound_methodSignature h _ _ _ _).opens fun _ _ _ hs => opens_functionBody hs _ _
    · exact (sound_methodSignature h _ _ _ _).opens fun _ _ h₁ hs => (sound_inFunction hs _ _
        fun r => sound_bodyIn (r := r) hfits stmts).opens fun _ _ h₂ _ => .here fun _ hr =>
          Members.Fine.mono ((h₁.trans h₂).trans hr) h
  | .firstSpawn (⟨kind, generics, params, returns, stmts, span⟩ :: rest) entity, h =>
    refine List.forall_mem_singleton.2 ?_
    split
    · exact (sound_walkedSignature h _ _ _ _ _).opens fun _ _ _ hs => opens_functionBody hs _ _
    · exact .here fun _ hr => EntityInfo.Fine.mono hr h
  | .otherLifecycles (⟨kind, generics, params, returns, stmts, span⟩ :: rest) entity spawned seen, h =>
    simp only [taskParts]
    split
    · exact List.forall_mem_singleton.2 (.here fun _ hr => EntityInfo.Fine.mono hr h)
    · refine List.forall_mem_cons.2 ⟨?_, List.forall_mem_singleton.2 ?_⟩
      · exact (sound_walkedSignature h _ _ _ _ _).opens fun _ _ _ hs => opens_functionBody hs _ _
      · exact (sound_walkedSignature h _ _ _ _ _).opens fun _ _ h₁ hs => (sound_inFunction hs _ _
          fun r => sound_bodyIn (r := r) hfits stmts).opens fun _ _ h₂ _ => Sound.opensIf
            (fun _ => sound_checkFieldsInitialized _) fun _ h₃ => .here fun _ hr =>
              EntityInfo.Fine.mono (((h₁.trans h₂).trans h₃).trans hr) h

/-- Every call of a walk that began in a tidy state is made in a tidy state. -/
theorem Visits.tidy {task inner : Task} {regions : List Region} {s t : State}
    (h : Visits c task s regions inner t) (hs : Tidy k c d s)
    (htask : task.Fine k.plain s.session.registry d) :
    ∃ d', Tidy k c d' t ∧ s.session.registry.Extends t.session.registry ∧
      inner.Fine k.plain t.session.registry d' := by
  induction h generalizing d with
  | here => exact ⟨d, hs, .refl _, htask⟩
  | into hpart hrun _ ih =>
    obtain ⟨d₁, hs₁, hext, hinner⟩ :=
      opens_of_mem_taskParts hfits htask _ hpart _ _ _ hs (.refl _) hrun
    obtain ⟨d', ht, hext', hfine⟩ := ih hs₁ (hinner _ _ rfl)
    exact ⟨d', ht, hext.trans hext', hfine⟩

end

end HybroidSema.Check
