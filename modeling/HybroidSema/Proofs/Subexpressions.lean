import HybroidSema.Proofs.Conditions
import HybroidSema.Proofs.Quiet
import HybroidSema.Proofs.TreeInduction

/-!
# What follows from the expressions inside

Walking an expression runs what is done at its node and walks the expressions right inside it. What
sequences of checks inherit from their parts, an expression has if the expressions inside it have it.

* `Check.Own`: what is done at a node.
* `Check.Weighs`: a property of checks that says how much they do of something, by the weights that
  expressions have.
* `Weighs.of_values` and the others: lists of expressions.
* `Weighs.of_children`: an expression, given the expressions right inside it. Bodies are left to the
  property.
* `Weighs.of_isPlain`: every expression without bodies.
-/

namespace HybroidSema

/-! ## Kinds of expressions -/

namespace Expr

/-- Whether an expression has a body or arms. -/
def hasBody : Expr → Bool
  | .function _ _ _ _ | .matching _ _ _ _ => true
  | _ => false

/-- Whether the weight of an expression is that of the expressions right inside it. -/
def isOrdinary : Expr → Bool
  | .function _ _ _ _ | .matching _ _ _ _ | .binary _ .or _ _ | .entityTest _ _ _ _ _ _ => false
  | _ => true

theorem hasBody_of_isPlain {e : Expr} (h : e.isPlain = true) : e.hasBody = false := by
  cases e <;> first | rfl | cases h

theorem isPlain_of_mem {es : List Expr} {e : Expr} (h : allPlain es = true) (he : e ∈ es) :
    e.isPlain = true := by
  induction es with
  | nil => cases he
  | cons first rest ih =>
    rw [allPlain, Bool.and_eq_true] at h
    rcases List.mem_cons.1 he with rfl | he
    · exact h.1
    · exact ih h.2 he

theorem isPlain_of_mem_entries {entries : List MapEntry} {e : Expr}
    (h : MapEntry.allPlain entries = true) (he : e ∈ entries.map (·.value)) : e.isPlain = true := by
  induction entries with
  | nil => cases he
  | cons first rest ih =>
    obtain ⟨key, value⟩ := first
    rw [MapEntry.allPlain, Bool.and_eq_true] at h
    rcases List.mem_cons.1 he with rfl | he
    · exact h.1
    · exact ih h.2 he

theorem isPlain_of_mem_children {e child : Expr} (h : e.isPlain = true)
    (hchild : child ∈ e.children) : child.isPlain = true := by
  cases e with
  | literal | ident | builtin | envAccess | self | error | function => cases hchild
  | matching => cases h
  | unary | group | field | entityTest =>
    obtain rfl := List.mem_singleton.1 hchild
    exact h
  | binary | member =>
    rw [isPlain, Bool.and_eq_true] at h
    rcases List.mem_pair.1 hchild with rfl | rfl
    exacts [h.1, h.2]
  | list | new | spawn => exact isPlain_of_mem h hchild
  | map => exact isPlain_of_mem_entries h hchild
  | call | methodCall =>
    rw [isPlain, Bool.and_eq_true] at h
    rcases List.mem_cons.1 hchild with rfl | hchild
    exacts [h.1, isPlain_of_mem h.2 hchild]

end Expr

namespace Check

variable {α β : Type}

/-! ## What is done at a node -/

/-- What is done at a node keeps the scopes, in every phase in which variables are looked at. -/
def Own (m : Check α) : Prop :=
  ∀ (phase : Phase) [phase.Looks], Quiet phase m

theorem Own.pure (a : α) : Own (pure a) := fun _ _ => .pure a

/-! ## Weights -/

/-- Weights of expressions, and of what is done one after another. -/
structure Weighing (G : Type) where
  expr : Expr → G
  join : G → G → G
  nothing : G

/-- The weight of several expressions. -/
def Weighing.all {G : Type} (w : Weighing G) (es : List Expr) : G :=
  es.foldr (fun e rest => w.join (w.expr e) rest) w.nothing

/-- What weighs lists in their order. -/
theorem Weighing.eq_all {G : Type} (w : Weighing G) (f : List Expr → G) (hnil : f [] = w.nothing)
    (hcons : ∀ e rest, f (e :: rest) = w.join (w.expr e) (f rest)) (es : List Expr) :
    f es = w.all es := by
  induction es with
  | nil => exact hnil
  | cons e rest ih => exact (hcons e rest).trans (congrArg (w.join (w.expr e)) ih)

/-- What weighs entries by their values in order. -/
theorem Weighing.eq_all_values {G : Type} (w : Weighing G) (f : List MapEntry → G)
    (hnil : f [] = w.nothing)
    (hcons : ∀ key e rest, f (⟨key, e⟩ :: rest) = w.join (w.expr e) (f rest))
    (entries : List MapEntry) : f entries = w.all (entries.map (·.value)) := by
  induction entries with
  | nil => exact hnil
  | cons entry rest ih =>
    obtain ⟨key, e⟩ := entry
    exact (hcons key e rest).trans (congrArg (w.join (w.expr e)) ih)

variable {G : Type} {w : Weighing G} {P : {α : Type} → Check α → G → Prop}

/-- A property of checks of some weight. What is done at a node weighs nothing, and the weight of a
sequence joins those of its checks. The arguments of a method call are weighed although they are not
walked if the method has no owner, for then the build has failed. -/
structure Weighs (w : Weighing G) (P : {α : Type} → Check α → G → Prop) : Prop where
  own : ∀ {α : Type} {m : Check α}, Own m → P m w.nothing
  bind : ∀ {α β : Type} {m : Check α} {f : α → Check β} {g h : G},
    P m g → (∀ a, P (f a) h) → P (m >>= f) (w.join g h)
  method : ∀ {α : Type} {f : CalledMethod → Check α} {g : G} (owner : DeclRef) (kind : NamedKind)
    (method : Ident), (∀ signature, P (f (.found signature)) g) → P (f .missing) g →
    Own (f .ownerless) → P (calledMethod owner kind method >>= f) g
  join_nothing : ∀ g, w.join g w.nothing = g
  nothing_join : ∀ g, w.join w.nothing g = g
  ordinary : ∀ e : Expr, e.isOrdinary = true → w.expr e = w.all e.children
  or : ∀ {left right : Expr} {span : Span} (hint : Option Ty),
    (∀ hint, P (Check.expr left hint) (w.expr left)) →
    (∀ hint, P (Check.expr right hint) (w.expr right)) →
    P (Check.expr (.binary left .or right span) hint) (w.expr (.binary left .or right span))
  test : ∀ {value : Expr} {ty : TypeExpr} {binding : Option Ident} {negated official : Bool}
    {span : Span} (hint : Option Ty), (∀ hint, P (Check.expr value hint) (w.expr value)) →
    P (Check.expr (.entityTest value ty binding negated official span) hint)
      (w.expr (.entityTest value ty binding negated official span))

namespace Weighs

variable {m : Check α} {f : α → Check β} {g h : G}

theorem bind_own (hP : Weighs w P) (hm : P m g) (hf : ∀ a, Own (f a)) : P (m >>= f) g :=
  hP.join_nothing g ▸ hP.bind hm fun a => hP.own (hf a)

theorem bind_pure (hP : Weighs w P) {k : α → β} (hm : P m g) :
    P (m >>= fun a => pure (k a)) g :=
  hP.bind_own hm fun _ => .pure _

theorem own_bind (hP : Weighs w P) (hm : Own m) (hf : ∀ a, P (f a) g) : P (m >>= f) g :=
  hP.nothing_join g ▸ hP.bind (hP.own hm) hf

/-- A check that is made under a condition, before the rest. -/
theorem guard (hP : Weighs w P) {m : Check PUnit} {f : PUnit → Check β} {b : Prop} [Decidable b]
    (hm : Own m) (hf : ∀ u, P (f u) g) : P (if b then m >>= f else f ⟨⟩) g := by
  split
  · exact hP.own_bind hm hf
  · exact hf _

theorem single (hP : Weighs w P) {m : Check (Expr × Value)} (hm : P m g) :
    P (Check.single m) g :=
  hP.bind_own hm fun _ _ _ => (quiet_expectSingle _ _).bind fun _ => .pure _

/-- A call walks its arguments. -/
theorem call (hP : Weighs w P) {walkArgs : List Ty → Check (List Expr × List (Value × Span))}
    (signature : Signature) (explicit : List TypeExpr) (span : Span)
    (hargs : ∀ hints, P (walkArgs hints) g) :
    P (Check.call signature explicit walkArgs span) g :=
  hP.own_bind (fun _ _ => quiet_resolveTypes _) fun _ => hP.bind_own (hargs _) fun _ _ _ =>
    (quiet_bindGenerics _ _ _ _).bind fun _ => Quiet.bind
      (.forM_mem fun _ ha => quiet_alert _ (reports_validateArguments ha)) fun _ => .pure _

/-! ## Lists of expressions -/

section Lists

variable {es : List Expr} (hes : ∀ e ∈ es, ∀ hint, P (Check.expr e hint) (w.expr e))
include hes

theorem of_values (hP : Weighs w P) (hints : List Ty) : P (values es hints) (w.all es) := by
  induction es generalizing hints with
  | nil => exact hP.own (.pure _)
  | cons e rest ih =>
    rw [List.forall_mem_cons] at hes
    have hrest := ih hes.2 hints.tail
    refine hP.bind (hes.1 hints.head?) fun _ => ?_
    dsimp only
    split
    · exact hP.own_bind (.pure _) fun _ => hP.bind_pure hrest
    · exact hP.own_bind (fun _ _ => quiet_expectSingle _ _) fun _ => hP.own_bind (.pure _) fun _ =>
        hP.bind_pure hrest

theorem of_elements (hP : Weighs w P) (reference : Option Ty) :
    P (elements es reference) (w.all es) := by
  induction es generalizing reference with
  | nil => exact hP.own (.pure _)
  | cons e rest ih =>
    rw [List.forall_mem_cons] at hes
    exact hP.bind (hP.single (hes.1 reference)) fun _ =>
      hP.own_bind (fun _ _ => quiet_elementType _ _ _) fun _ => hP.bind_pure (ih hes.2 _)

theorem of_unchecked (hP : Weighs w P) : P (unchecked es) (w.all es) := by
  induction es with
  | nil => exact hP.own (.pure _)
  | cons e rest ih =>
    rw [List.forall_mem_cons] at hes
    exact hP.bind (hes.1 none) fun _ => hP.bind_pure (ih hes.2)

theorem of_patterns (hP : Weighs w P) (subject : Ty) : P (patterns es subject) (w.all es) := by
  induction es with
  | nil => exact hP.own (.pure _)
  | cons e rest ih =>
    rw [List.forall_mem_cons] at hes
    exact hP.bind (hP.single (hes.1 (some subject))) fun _ =>
      hP.guard (fun _ _ => quiet_report (.invalidCaseType _ _) _ rfl) fun _ =>
        hP.bind_pure (ih hes.2)

end Lists

theorem of_mapEntries (hP : Weighs w P) {entries : List MapEntry}
    (hes : ∀ e ∈ entries.map (·.value), ∀ hint, P (Check.expr e hint) (w.expr e))
    (keys : List String) (reference : Option Ty) :
    P (mapEntries entries keys reference) (w.all (entries.map (·.value))) := by
  induction entries generalizing keys reference with
  | nil => exact hP.own (.pure _)
  | cons entry rest ih =>
    obtain ⟨key, e⟩ := entry
    rw [List.map_cons, List.forall_mem_cons] at hes
    unfold mapEntries
    exact hP.guard (fun _ _ => quiet_report _ _ rfl) fun _ =>
      hP.bind (hP.single (hes.1 reference)) fun _ =>
        hP.own_bind (fun _ _ => quiet_elementType _ _ _) fun _ => hP.bind_pure (ih hes.2 _ _)

/-! ## Expressions -/

/-- The weight of one expression. -/
theorem all_singleton (hP : Weighs w P) (e : Expr) : w.all [e] = w.expr e := hP.join_nothing _

/-- The weight of two expressions. -/
theorem all_pair (hP : Weighs w P) (e e' : Expr) : w.all [e, e'] = w.join (w.expr e) (w.expr e') :=
  congrArg (w.join (w.expr e)) (hP.join_nothing _)

/-- The arguments of a call, whether its signature is known or not. -/
theorem of_arguments (hP : Weighs w P) {args : List Expr} {γ : Type}
    (hargs : ∀ e ∈ args, ∀ hint, P (Check.expr e hint) (w.expr e)) (signature : Signature)
    (explicit : List TypeExpr) (span : Span) (k : List Expr × List Ty → γ) :
    P (Check.call signature explicit (fun hints => values args hints) span >>= fun r => pure (k r))
      (w.all args) :=
  hP.bind_pure (hP.call _ _ _ fun _ => hP.of_values hargs _)

/-- An expression without others inside. -/
theorem of_leaf (hP : Weighs w P) {e : Expr} {hint : Option Ty} (hordinary : e.isOrdinary = true)
    (hnone : e.children = []) (hm : Own (Check.expr e hint)) :
    P (Check.expr e hint) (w.expr e) := by
  rw [hP.ordinary e hordinary, hnone]
  exact hP.own hm

/-- An expression, given the expressions right inside it. What has a body is left to the property. -/
theorem of_children (hP : Weighs w P) {e : Expr}
    (hes : ∀ child ∈ e.children, ∀ hint, P (Check.expr child hint) (w.expr child))
    (hint : Option Ty) (hbody : e.hasBody = true → P (Check.expr e hint) (w.expr e)) :
    P (Check.expr e hint) (w.expr e) := by
  cases e with
  | function params returns stmts span => exact hbody rfl
  | matching subject arms amount span => exact hbody rfl
  | literal lit => exact hP.of_leaf rfl rfl (.pure _)
  | ident id => exact hP.of_leaf rfl rfl fun _ _ => quiet_identifier id
  | builtin id =>
    exact hP.of_leaf rfl rfl fun _ _ => (quiet_builtinValue id).bind fun _ => .pure _
  | envAccess env name span => exact hP.of_leaf rfl rfl fun _ _ => quiet_qualifiedName env name span
  | self owner span =>
    exact hP.of_leaf rfl rfl fun _ _ => (quiet_selfValue _).bind fun _ => .pure _
  | error span => exact hP.of_leaf rfl rfl (.pure _)
  | unary op operand span =>
    have hoperand := hes operand (List.mem_singleton_self _)
    rw [hP.ordinary _ rfl, Expr.children, hP.all_singleton]
    exact hP.bind_own (hP.single (hoperand none)) fun _ _ _ =>
      (quiet_unaryValue _ _ _).bind fun _ => .pure _
  | group inner span =>
    have hinner := hes inner (List.mem_singleton_self _)
    rw [hP.ordinary _ rfl, Expr.children, hP.all_singleton]
    exact hP.bind_pure (hinner hint)
  | field target field index span =>
    have htarget := hes target (List.mem_singleton_self _)
    rw [hP.ordinary _ rfl, Expr.children, hP.all_singleton]
    exact hP.bind_own (hP.single (htarget none)) fun _ _ _ => quiet_fieldAccess _ _ _ _ _
  | entityTest value ty binding negated official span =>
    exact hP.test hint (hes value (List.mem_singleton_self _))
  | binary left op right span =>
    have hleft := hes left (List.mem_cons_self ..)
    have hright := hes right (List.mem_cons_of_mem _ (List.mem_singleton_self _))
    by_cases hor : op = .or
    · subst hor
      exact hP.or hint hleft hright
    · have hordinary : (Expr.binary left op right span).isOrdinary = true := by
        cases op <;> first | rfl | exact absurd rfl hor
      rw [hP.ordinary _ hordinary, Expr.children, hP.all_pair]
      refine hP.own_bind (fun _ _ => quiet_get) fun _ => hP.bind (hP.single (hleft none)) fun _ =>
        hP.bind_own (hP.single (hright _)) fun _ => ?_
      simp only [beq_iff_eq, hor, if_false]
      exact fun _ _ => (quiet_binaryValue _ _ _ _).bind fun _ => .pure _
  | member target index span =>
    have htarget := hes target (List.mem_cons_self ..)
    have hindex := hes index (List.mem_cons_of_mem _ (List.mem_singleton_self _))
    rw [hP.ordinary _ rfl, Expr.children, hP.all_pair]
    exact hP.bind (hP.single (htarget none)) fun _ => hP.bind_own (hP.single (hindex none))
      fun _ _ _ => (quiet_elementValue _ _ _ _).bind fun _ => .pure _
  | list elems span =>
    rw [hP.ordinary _ rfl]
    exact hP.own_bind (fun _ _ => quiet_checkKnown _ _ _) fun _ =>
      hP.bind_pure (hP.of_elements hes _)
  | map entries span =>
    rw [hP.ordinary _ rfl]
    exact hP.own_bind (fun _ _ => quiet_checkKnown _ _ _) fun _ =>
      hP.bind_pure (hP.of_mapEntries hes _ _)
  | call caller generics args amount span =>
    obtain ⟨hcaller, hargs⟩ := List.forall_mem_cons.1 hes
    rw [hP.ordinary _ rfl]
    refine hP.bind (hP.single (hcaller none)) fun _ => ?_
    dsimp only
    split
    · exact hP.of_arguments hargs _ _ _ _
    · exact hP.guard (fun _ _ => quiet_report _ _ rfl) fun _ => hP.bind_pure (hP.of_unchecked hargs)
  | methodCall receiver owner kind method generics args amount span =>
    obtain ⟨hreceiver, hargs⟩ := List.forall_mem_cons.1 hes
    rw [hP.ordinary _ rfl]
    exact hP.bind (hP.single (hreceiver none)) fun _ => hP.method _ _ _
      (fun _ => hP.of_arguments hargs _ _ _ _) (hP.bind_pure (hP.of_unchecked hargs)) (.pure _)
  | new ty generics args span =>
    rw [hP.ordinary _ rfl]
    refine hP.own_bind (fun _ _ => quiet_constructed _ _ _) fun found => ?_
    split
    · exact hP.of_arguments hes _ _ _ _
    · exact hP.bind_pure (hP.of_unchecked hes)
  | spawn ty generics args span =>
    rw [hP.ordinary _ rfl]
    refine hP.own_bind (fun _ _ => quiet_constructed _ _ _) fun found => ?_
    split
    · exact hP.of_arguments hes _ _ _ _
    · exact hP.bind_pure (hP.of_unchecked hes)

/-- An expression without bodies. -/
theorem of_isPlain (hP : Weighs w P) (e : Expr) (h : e.isPlain = true) (hint : Option Ty) :
    P (Check.expr e hint) (w.expr e) := by
  induction e using Expr.induction generalizing hint with
  | expr e ih =>
    have hbody := Expr.hasBody_of_isPlain h
    refine hP.of_children (fun child hchild => ih child hchild ?_) hint fun htrue => ?_
    · exact Expr.isPlain_of_mem_children h hchild
    · exact absurd htrue (Bool.eq_false_iff.1 hbody)

end Weighs

/-! ## Quiet checks -/

/-- Weights that tell nothing. -/
def unweighed : Weighing Unit where
  expr _ := ()
  join _ _ := ()
  nothing := ()

/-- Whatever is in an expression without bodies, the names of its tests become pending and no scope
changes. -/
theorem weighs_quiet (phase : Phase) [phase.Looks] [phase.Collects] :
    Weighs unweighed fun m _ => Quiet phase m where
  own h := h phase
  bind h hf := h.bind hf
  method owner kind method hfound hmissing hownerless := by
    refine (quiet_calledMethod owner kind method).bind fun found => ?_
    cases found with
    | found signature => exact hfound signature
    | missing => exact hmissing
    | ownerless => exact hownerless phase
  join_nothing _ := rfl
  nothing_join _ := rfl
  ordinary _ _ := rfl
  or _ hleft hright :=
    quiet_get.bind fun _ => (hleft none).single.bind fun _ => (hright _).single.bind fun _ =>
      .guard (quiet_dropUnderOr _ _) fun _ => (quiet_binaryValue _ _ _ _).bind fun _ => .pure _
  test _ hvalue :=
    (hvalue none).single.bind fun _ => (quiet_checkType _ _ _ _).bind fun _ =>
      (quiet_entityTest _ _ _ _).bind fun _ => .pure _

end Check

end HybroidSema
