import HybroidSema.Proofs.Inference
import HybroidSema.Proofs.Reached

/-!
# Indexing stays in range

Some steps of an analysis pick an item of a list by its position: the values that are too many, the
statements of a body, the expression of a constant, the first spawn function, the slots of a program
that was walked. Here each of them is written with these positions, and a position that is out of
range ends it: it gives nothing then. None ever does: each is the same as the step that it stands
for.

* `Indexed.item`: an item by its position, in a check.
* `Indexed.paramAt?` to `Indexed.lifecycles`: the steps, each followed by its equation.
* `Indexed.analyze`: a build in which the slots of a walked program must exist.
* `indexing_in_range`: all of it, and no handle is used that is not registered.
-/

namespace HybroidSema

open Check

namespace Indexed

variable {α : Type}

/-- The item at a position, which must exist. -/
def item (items : List α) (index : Nat) : OptionT Check α := .mk (pure items[index]?)

theorem item_eq {items : List α} {index : Nat} {a : α} (h : items[index]? = some a) :
    item items index = pure a := by
  rw [item, h]
  rfl

/-- The difference of two numbers, of which the first must not be smaller. -/
def minus? (a b : Nat) : Option Nat := if b ≤ a then some (a - b) else none

/-- The last item by its position. -/
theorem exists_last {items : List α} (h : 0 < items.length) :
    ∃ last, items.getLast? = some last ∧ minus? items.length 1 = some (items.length - 1) ∧
      items[items.length - 1]? = some last := by
  have hlast := List.getLast?_eq_some_getLast (List.ne_nil_of_length_pos h)
  exact ⟨_, hlast, if_pos h, by rw [← List.getLast?_eq_getElem?, hlast]⟩

/-! ## Arguments and values -/

/-- The parameter at a position, which the last parameter tells. -/
def paramAt? (params : List Ty) (index : Nat) : Option (Option Ty) :=
  if params.length = 0 then some none
  else do
    let last := params.length - 1
    match ← params[last]? with
    | .variadic elem => return if last ≤ index then some elem else params[index]?
    | _ => return params[index]?

theorem paramAt?_eq (params : List Ty) (index : Nat) :
    paramAt? params index = some (HybroidSema.paramAt? params index) := by
  unfold paramAt? HybroidSema.paramAt?
  split
  · next hempty =>
    obtain rfl := List.length_eq_zero_iff.1 hempty
    rfl
  · next hne =>
    obtain ⟨last, hlast, -, hitem⟩ := exists_last (Nat.pos_of_ne_zero hne)
    simp only [hitem, hlast, Option.bind_eq_bind, Option.bind_some]
    cases last <;> rfl

/-- The alerts of arguments that do not agree with their parameters, from a position on. -/
def argumentMismatches (params : List Ty) : (index : Nat) → List (Ty × Span) → Option (List Alert)
  | _, [] => some []
  | index, (arg, span) :: rest => do
    match ← paramAt? params index with
    | none => return []
    | some param =>
      let later ← argumentMismatches params (index + 1) rest
      return if param.agrees arg then later
        else { kind := .invalidArgumentType (index + 1) param arg, span := span } :: later

theorem argumentMismatches_eq (params : List Ty) (index : Nat) (args : List (Ty × Span)) :
    argumentMismatches params index args =
      some (HybroidSema.argumentMismatches params index args) := by
  induction args generalizing index with
  | nil => rfl
  | cons arg rest ih =>
    obtain ⟨ty, span⟩ := arg
    rw [argumentMismatches, HybroidSema.argumentMismatches, paramAt?_eq]
    cases hparam : HybroidSema.paramAt? params index with
    | none => rfl
    | some param =>
      simp only [Option.bind_eq_bind, Option.bind_some, ih]
      rfl

/-- The span from the item at a position to the last one. -/
def spanFrom (items : List (α × Span)) (first : Nat) : Option Span := do
  let (_, first) ← items[first]?
  let (_, last) ← items[← minus? items.length 1]?
  return first.extendTo last

/-- A surplus has a first and a last item. -/
theorem spanFrom_eq {items : List (α × Span)} {count : Nat} (h : count < items.length) :
    spanFrom items count = surplusSpan? count (items.map Prod.snd) ∧
      (spanFrom items count).isSome := by
  obtain ⟨last, hlast, hminus, hitem⟩ := exists_last (Nat.lt_of_le_of_lt (Nat.zero_le _) h)
  have hfirst : items[count]? = some items[count] := List.getElem?_eq_getElem h
  have hspan : spanFrom items count = some (items[count].2.extendTo last.2) := by
    simp only [spanFrom, hfirst, hminus, hitem, Option.bind_eq_bind, Option.bind_some]
    rfl
  have hsurplus : surplusSpan? count (items.map Prod.snd) =
      some (items[count].2.extendTo last.2) := by
    simp only [surplusSpan?, ← List.map_drop, List.head?_map, List.head?_drop, List.getLast?_map,
      hfirst, hlast, Option.map_some, Option.bind_eq_bind, Option.bind_some]
    rfl
  rw [hspan, hsurplus]
  exact ⟨rfl, rfl⟩

/-- Without a surplus there is no span for it. -/
theorem surplusSpan?_eq_none_of_le {count : Nat} {items : List (α × Span)}
    (h : items.length ≤ count) : surplusSpan? count (items.map Prod.snd) = none :=
  surplusSpan?_eq_none (by rwa [List.length_map])

/-- The alerts of a call with the given arguments. -/
def validateArguments (params : List Ty) (args : List (Ty × Span)) (call : Span) :
    Option (List Alert) := do
  let isVariadic := params.getLast?.any Ty.isVariadic
  let required ← if isVariadic then minus? params.length 1 else some params.length
  let missing : List Alert :=
    if args.length < required then
      [{ kind := .tooFewValuesGiven required args.length "arguments"
         span := (args.getLast?.map Prod.snd).getD call }]
    else []
  let surplus : List Alert ←
    if !isVariadic && required < args.length then do
      let span ← spanFrom args required
      pure [{ kind := .tooManyValuesGiven required args.length "arguments", span := span }]
    else pure []
  return missing ++ surplus ++ (← argumentMismatches params 0 args)

theorem validateArguments_eq (params : List Ty) (args : List (Ty × Span)) (call : Span) :
    validateArguments params args call = some (HybroidSema.validateArguments params args call) := by
  unfold validateArguments HybroidSema.validateArguments
  simp only [List.getLast?_map]
  cases hvariadic : params.getLast?.any Ty.isVariadic with
  | true =>
    obtain ⟨elem, hlast⟩ := getLast?_of_variadic hvariadic
    have hne : 0 < params.length := List.length_pos_of_ne_nil fun h => by
      rw [h] at hlast
      cases hlast
    obtain ⟨-, -, hminus, -⟩ := exists_last hne
    simp [hlast, hminus, argumentMismatches_eq]
  | false =>
    simp only [Bool.false_eq_true, if_false]
    split
    · next hlast => simp [hlast, Ty.isVariadic] at hvariadic
    · by_cases hmore : params.length < args.length
      · obtain ⟨hspan, hsome⟩ := spanFrom_eq hmore
        obtain ⟨span, hsome⟩ := Option.isSome_iff_exists.1 hsome
        simp [hmore, hsome, ← hspan, argumentMismatches_eq]
      · have hnone := surplusSpan?_eq_none_of_le (Nat.le_of_not_lt hmore)
        simp [hmore, hnone, argumentMismatches_eq]

/-- Report a missing or surplus run of values, and tell whether the number is right. -/
def checkValueCount (expected : Nat) (values : List (Value × Span)) (span : Span)
    (context : String) : OptionT Check Bool := do
  let got := values.length
  if got < expected then
    report (.tooFewValuesGiven expected got context) ((values.getLast?.map Prod.snd).getD span)
    return false
  if expected < got then
    let surplus ← OptionT.mk (pure (spanFrom values expected))
    report (.tooManyValuesGiven expected got context) surplus
    return false
  return true

theorem checkValueCount_eq (expected : Nat) (values : List (Value × Span)) (span : Span)
    (context : String) : checkValueCount expected values span context =
      liftM (Check.checkValueCount expected values span context) := by
  unfold checkValueCount Check.checkValueCount
  simp only [List.getLast?_map]
  by_cases hfew : values.length < expected
  · simp only [hfew, if_true]
    rfl
  · by_cases hmore : expected < values.length
    · obtain ⟨hspan, hsome⟩ := spanFrom_eq hmore
      obtain ⟨surplus, hsome⟩ := Option.isSome_iff_exists.1 hsome
      simp only [hfew, hmore, if_true, if_false, hsome, ← hspan]
      rfl
    · simp only [hfew, hmore, if_false, surplusSpan?_eq_none_of_le (Nat.le_of_not_lt hmore)]
      rfl

/-- Whether a signature starts with the two coordinates of a position. -/
def hasPositionParams (signature : Signature) : Option Bool :=
  let isCoordinate : Ty → Bool
    | .fixed .fixed | .invalid => true
    | _ => false
  if 2 ≤ signature.params.length then do
    let x ← signature.params[0]?
    let y ← signature.params[1]?
    return isCoordinate x && isCoordinate y
  else some false

theorem hasPositionParams_eq (signature : Signature) :
    hasPositionParams signature = some (Declare.hasPositionParams signature) := by
  unfold hasPositionParams Declare.hasPositionParams
  match signature.params with
  | [] | [_] | _ :: _ :: _ => rfl

/-! ## Bodies -/

/-- Check the statements of a body from a position on, in place. -/
def body (stmts : List Stmt) (index : Nat) (reported : Bool) : OptionT Check (List Stmt) :=
  if index < stmts.length then do
    let stmts' := stmts.set index (← Check.stmt (← item stmts index))
    clearNarrowings
    if index + 1 < stmts.length then
      if ← alwaysLeaves then
        if !reported then
          let next ← item stmts' (index + 1)
          let last ← item stmts' (stmts'.length - 1)
          report .unreachableCode (next.span.extendTo last.span)
        if (← get).session.config.prune then return stmts'.take (index + 1)
        body stmts' (index + 1) true
      else body stmts' (index + 1) reported
    else return stmts'
  else return stmts
  termination_by stmts.length - index
  decreasing_by
    all_goals simp only [List.length_set]; omega

/-- Statements are checked one after the other. -/
theorem body_append (done rest : List Stmt) (reported : Bool) :
    body (done ++ rest) done.length reported =
      (done ++ ·) <$> (liftM (Check.body rest reported) : OptionT Check (List Stmt)) := by
  induction rest generalizing done reported with
  | nil =>
    rw [body, Check.body]
    simp
  | cons first rest ih =>
    have hfirst : item (done ++ first :: rest) done.length = pure first :=
      item_eq (by simp)
    rw [body, Check.body, if_pos (by simp)]
    have hset (first' : Stmt) : (done ++ first :: rest).set done.length first' =
        (done ++ [first']) ++ rest := by simp
    simp only [hfirst, pure_bind, hset, liftM_bind, map_bind]
    refine bind_congr fun first' => bind_congr fun _ => ?_
    cases rest with
    | nil => simp
    | cons next others =>
      have hnext : item (done ++ [first'] ++ next :: others) (done.length + 1) = pure next :=
        item_eq (by simp)
      have hlast : item (done ++ [first'] ++ next :: others)
          ((done ++ [first'] ++ next :: others).length - 1) = pure (others.getLast?.getD next) :=
        item_eq (by rw [← List.getLast?_eq_getElem?]; simp [List.getLast?_cons])
      have hrest (reported : Bool) :
          body (done ++ [first'] ++ next :: others) (done.length + 1) reported =
            (done ++ ·) <$> (liftM (do
              let rest ← Check.body (next :: others) reported
              pure (first' :: rest)) : OptionT Check (List Stmt)) := by
        have := ih (done ++ [first']) reported
        simpa using this
      have htake : (done ++ [first'] ++ next :: others).take (done.length + 1) = done ++ [first'] :=
        List.take_left' (by simp)
      have hget : (get : OptionT Check State) = liftM (get : Check State) := rfl
      simp only [hnext, hlast, htake, hrest, hget, pure_bind, liftM_bind, map_bind]
      rw [if_pos (by simp)]
      refine bind_congr fun leaves => ?_
      cases leaves with
      | false => simp
      | true =>
        cases reported with
        | true =>
          simp only [Bool.not_true, Bool.false_eq_true, if_true, if_false, liftM_bind, map_bind]
          refine bind_congr fun state => ?_
          split <;> simp
        | false =>
          simp only [Bool.not_false, if_true, runSpan, liftM_bind, map_bind]
          refine bind_congr fun _ => bind_congr fun state => ?_
          split <;> simp

/-! ## Declarations -/

/-- Declare names with their values, from a position on. The literal of a constant is that of the
expression at its position, if every name has its own. -/
def declareNames (d : Declaration) (exprs : List Expr) (values : List Value) (paired : Bool) :
    (index : Nat) → (names : List Ident) → OptionT Check Unit
  | _, [] => return
  | index, name :: names => do
    let value ← declaredValue name d.declared (values[index]?.getD .invalid)
    let literal ← if d.isConst && paired then pure (← item exprs index).literal? else pure none
    declare (declaredVariable d name value literal) (if d.isConst then "constant" else "variable")
    declareNames d exprs values paired (index + 1) names

/-- Names are declared one after the other. -/
theorem declareNames_drop (d : Declaration) (exprs : List Expr) (values : List Value) (paired : Bool)
    (index : Nat) (names : List Ident) (h : paired = true → exprs.length = index + names.length) :
    declareNames d exprs values paired index names =
      liftM (Check.declareNames d names (values.drop index)
        (if paired then (exprs.map Expr.literal?).drop index else [])) := by
  induction names generalizing index with
  | nil =>
    rw [declareNames, Check.declareNames]
    simp
  | cons name names ih =>
    have hin (hpaired : paired = true) : index < exprs.length := by
      rw [h hpaired, List.length_cons]
      omega
    have hrest := ih (index + 1) fun hpaired => by
      rw [h hpaired, List.length_cons]
      omega
    have htail : (if paired then (exprs.map Expr.literal?).drop index else []).tail =
        if paired then (exprs.map Expr.literal?).drop (index + 1) else [] := by
      cases paired with
      | true => simp
      | false => rfl
    rw [declareNames, Check.declareNames, htail, List.tail_drop, hrest]
    simp only [List.head?_drop, liftM_bind]
    refine bind_congr fun value => ?_
    cases paired with
    | false => simp
    | true =>
      cases hconst : d.isConst with
      | false => simp [declaredVariable, hconst]
      | true =>
        have hin := hin rfl
        have hitem : item exprs index = pure exprs[index] := item_eq (List.getElem?_eq_getElem hin)
        simp [hitem, hin]

/-- What the first name may read is there for every name of a declaration. -/
theorem declareNames_eq (d : Declaration) (exprs : List Expr) (values : List Value) :
    declareNames d exprs values (exprs.length == d.names.length) 0 d.names =
      liftM (Check.declareNames d d.names values (inlinedLiterals d.names exprs)) := by
  rw [declareNames_drop d exprs values _ 0 d.names fun h => by simpa using h]
  simp [inlinedLiterals]

/-! ## Lifecycle functions -/

/-- Check the body of a lifecycle function, given the kinds that were walked. After the first spawn
function every field must have been assigned. -/
def lifecycle (entity : EntityInfo) (seen : List LifecycleKind) :
    LifecycleDecl → Check (LifecycleDecl × List LifecycleKind)
  | ⟨kind, generics, params, returns, stmts, span⟩ => do
    let (signature, isFirst) ← walkedSignature entity seen kind generics params returns
    let stmts ← inFunction signature params span (Check.body stmts false)
    if isFirst && kind == .spawn then checkFieldsInitialized span
    return (⟨kind, generics, params, returns, stmts, span⟩, if isFirst then kind :: seen else seen)

/-- The positions of lifecycle functions in the order in which they are walked: the first spawn
function, and then the others. -/
def walkOrder (functions : List LifecycleDecl) : List Nat :=
  let first := functions.findIdx? (·.kind = .spawn)
  first.toList ++ (List.range functions.length).filter (some · ≠ first)

/-- Check the lifecycle functions at the given positions, in place. -/
def lifecycles (entity : EntityInfo) :
    (order : List Nat) → List LifecycleDecl → List LifecycleKind → OptionT Check (List LifecycleDecl)
  | [], functions, _ => return functions
  | index :: order, functions, seen => do
    let (walked, seen) ← lifecycle entity seen (← item functions index)
    lifecycles entity order (functions.set index walked) seen

/-- Without a spawn function nothing is walked first. -/
theorem firstSpawn_eq_none {functions : List LifecycleDecl} (entity : EntityInfo)
    (h : ∀ f ∈ functions, f.kind ≠ .spawn) :
    Check.firstSpawn functions entity = pure (none, []) := by
  induction functions with
  | nil => rw [Check.firstSpawn]
  | cons f rest ih =>
    obtain ⟨kind, generics, params, returns, stmts, span⟩ := f
    obtain ⟨hf, hrest⟩ := List.forall_mem_cons.1 h
    rw [Check.firstSpawn, if_neg hf, ih hrest]

/-- The first spawn function is walked before the others. -/
theorem firstSpawn_append {before after : List LifecycleDecl} {spawn : LifecycleDecl}
    (entity : EntityInfo) (h : ∀ f ∈ before, f.kind ≠ .spawn) (hspawn : spawn.kind = .spawn) :
    Check.firstSpawn (before ++ spawn :: after) entity = (do
      let (walked, seen) ← lifecycle entity [] spawn
      pure (some walked, seen)) := by
  induction before with
  | nil =>
    obtain ⟨kind, generics, params, returns, stmts, span⟩ := spawn
    obtain rfl : kind = .spawn := hspawn
    rw [List.nil_append, Check.firstSpawn, if_pos rfl, lifecycle]
    simp only [bind_assoc, beq_self_eq_true, Bool.and_true]
    refine bind_congr fun signed => bind_congr fun stmts => ?_
    split <;> simp
  | cons f rest ih =>
    obtain ⟨kind, generics, params, returns, stmts, span⟩ := f
    obtain ⟨hf, hrest⟩ := List.forall_mem_cons.1 h
    rw [List.cons_append, Check.firstSpawn, if_neg hf, ih hrest]

/-- A lifecycle function that was not walked first is walked in its turn. -/
theorem otherLifecycles_cons {f : LifecycleDecl} {spawned : Option LifecycleDecl}
    (entity : EntityInfo) (h : f.kind = .spawn → spawned = none) (rest : List LifecycleDecl)
    (seen : List LifecycleKind) :
    Check.otherLifecycles (f :: rest) entity spawned seen = (do
      let (walked, seen) ← lifecycle entity seen f
      let rest ← Check.otherLifecycles rest entity spawned seen
      pure (walked :: rest)) := by
  obtain ⟨kind, generics, params, returns, stmts, span⟩ := f
  rw [Check.otherLifecycles, lifecycle]
  · simp only [bind_assoc]
    refine bind_congr fun signed => bind_congr fun stmts => ?_
    split <;> simp
  · rintro walked rfl rfl
    cases h rfl

/-- In place of the first spawn function stands what was walked. -/
theorem otherLifecycles_spawn {spawn : LifecycleDecl} (entity : EntityInfo)
    (h : spawn.kind = .spawn) (walked : LifecycleDecl) (rest : List LifecycleDecl)
    (seen : List LifecycleKind) :
    Check.otherLifecycles (spawn :: rest) entity (some walked) seen = (do
      let rest ← Check.otherLifecycles rest entity none seen
      pure (walked :: rest)) := by
  obtain ⟨kind, generics, params, returns, stmts, span⟩ := spawn
  obtain rfl : kind = .spawn := h
  rw [Check.otherLifecycles]

/-- The functions after the ones that were walked, none of which was walked first. -/
theorem lifecycles_append (entity : EntityInfo) (done rest : List LifecycleDecl)
    (seen : List LifecycleKind) :
    lifecycles entity (List.range' done.length rest.length) (done ++ rest) seen =
      (done ++ ·) <$> (liftM (Check.otherLifecycles rest entity none seen) :
        OptionT Check (List LifecycleDecl)) := by
  induction rest generalizing done seen with
  | nil =>
    rw [Check.otherLifecycles]
    simp [lifecycles]
  | cons f rest ih =>
    have hitem : item (done ++ f :: rest) done.length = pure f := item_eq (by simp)
    have hset (walked : LifecycleDecl) : (done ++ f :: rest).set done.length walked =
        (done ++ [walked]) ++ rest := by simp
    have hrest (walked : LifecycleDecl) (seen : List LifecycleKind) :
        lifecycles entity (List.range' (done.length + 1) rest.length) (done ++ [walked] ++ rest)
          seen = (done ++ [walked] ++ ·) <$> (liftM (Check.otherLifecycles rest entity none seen) :
            OptionT Check (List LifecycleDecl)) := by
      simpa using ih (done ++ [walked]) seen
    rw [otherLifecycles_cons entity fun _ => rfl, List.length_cons, List.range'_succ, lifecycles]
    simp only [hitem, hset, hrest, pure_bind, liftM_bind, map_bind]
    refine bind_congr fun result => ?_
    simp

/-- The functions after the ones that were walked, with the first spawn function among them, which
was walked first. -/
theorem lifecycles_append_spawn (entity : EntityInfo) (done before after : List LifecycleDecl)
    {spawn : LifecycleDecl} (h : ∀ f ∈ before, f.kind ≠ .spawn) (hspawn : spawn.kind = .spawn)
    (walked : LifecycleDecl) (seen : List LifecycleKind) :
    lifecycles entity (List.range' done.length before.length ++
        List.range' (done.length + before.length + 1) after.length)
      (done ++ before ++ walked :: after) seen =
      (done ++ ·) <$> (liftM (Check.otherLifecycles (before ++ spawn :: after) entity (some walked)
        seen) : OptionT Check (List LifecycleDecl)) := by
  induction before generalizing done seen with
  | nil =>
    have hafter := lifecycles_append entity (done ++ [walked]) after seen
    rw [List.nil_append, otherLifecycles_spawn entity hspawn]
    simpa using hafter
  | cons f rest ih =>
    obtain ⟨hf, hrest⟩ := List.forall_mem_cons.1 h
    have hitem : item (done ++ f :: rest ++ walked :: after) done.length = pure f :=
      item_eq (by simp)
    have hset (result : LifecycleDecl) : (done ++ f :: rest ++ walked :: after).set done.length
        result = (done ++ [result]) ++ rest ++ walked :: after := by simp
    have hlater (result : LifecycleDecl) (seen : List LifecycleKind) :
        lifecycles entity (List.range' (done.length + 1) rest.length ++
            List.range' (done.length + (rest.length + 1) + 1) after.length)
          (done ++ [result] ++ rest ++ walked :: after) seen =
          (done ++ [result] ++ ·) <$> (liftM (Check.otherLifecycles (rest ++ spawn :: after) entity
            (some walked) seen) : OptionT Check (List LifecycleDecl)) := by
      have hih := ih (done ++ [result]) hrest seen
      rwa [List.length_append, List.length_singleton, Nat.add_right_comm done.length 1] at hih
    rw [List.cons_append, otherLifecycles_cons entity fun hk => absurd hk hf, List.length_cons,
      List.range'_succ, List.cons_append, lifecycles]
    simp only [hitem, hset, hlater, pure_bind, liftM_bind, map_bind]
    refine bind_congr fun result => ?_
    simp

/-- Without a spawn function they are walked in source order. -/
theorem walkOrder_of_none {functions : List LifecycleDecl} (h : ∀ f ∈ functions, f.kind ≠ .spawn) :
    walkOrder functions = List.range' 0 functions.length := by
  have hnone : functions.findIdx? (·.kind = .spawn) = none := by
    simpa [List.findIdx?_eq_none_iff] using h
  simp [walkOrder, hnone, List.range_eq_range']

/-- The first spawn function is walked before the others. -/
theorem walkOrder_append {before after : List LifecycleDecl} {spawn : LifecycleDecl}
    (h : ∀ f ∈ before, f.kind ≠ .spawn) (hspawn : spawn.kind = .spawn) :
    walkOrder (before ++ spawn :: after) = before.length ::
      (List.range' 0 before.length ++ List.range' (before.length + 1) after.length) := by
  have hnone : before.findIdx? (·.kind = .spawn) = none := by
    simpa [List.findIdx?_eq_none_iff] using h
  have hfirst : (before ++ spawn :: after).findIdx? (·.kind = .spawn) = some before.length := by
    simp [List.findIdx?_append, hnone, List.findIdx?_cons, hspawn]
  have hrange : List.range (before ++ spawn :: after).length = List.range' 0 before.length ++
      before.length :: List.range' (before.length + 1) after.length := by
    rw [List.length_append, List.length_cons, List.range_eq_range', ← List.range'_append_1,
      Nat.zero_add, List.range'_succ]
  have hbefore : (List.range' 0 before.length).filter (some · ≠ some before.length) =
      List.range' 0 before.length := by
    refine List.filter_eq_self.2 fun i hi => ?_
    have hlt := (List.mem_range'_1.1 hi).2
    simp
    omega
  have hafter : (List.range' (before.length + 1) after.length).filter
      (some · ≠ some before.length) = List.range' (before.length + 1) after.length := by
    refine List.filter_eq_self.2 fun i hi => ?_
    have hle := (List.mem_range'_1.1 hi).1
    simp
    omega
  rw [walkOrder, hfirst, hrange, List.filter_append, List.filter_cons, hbefore, hafter]
  simp

/-- A list has no spawn function, or a first one. -/
theorem spawn_cases (functions : List LifecycleDecl) :
    (∀ f ∈ functions, f.kind ≠ .spawn) ∨ ∃ before spawn after,
      functions = before ++ spawn :: after ∧ (∀ f ∈ before, f.kind ≠ .spawn) ∧
        spawn.kind = .spawn := by
  induction functions with
  | nil => exact .inl (by simp)
  | cons f rest ih =>
    by_cases hf : f.kind = .spawn
    · exact .inr ⟨[], f, rest, rfl, by simp, hf⟩
    · rcases ih with hnone | ⟨before, spawn, after, rfl, hbefore, hspawn⟩
      · exact .inl (List.forall_mem_cons.2 ⟨hf, hnone⟩)
      · exact .inr ⟨f :: before, spawn, after, rfl, List.forall_mem_cons.2 ⟨hf, hbefore⟩, hspawn⟩

/-- The first spawn function is found and the others follow. -/
theorem lifecycles_eq (entity : EntityInfo) (functions : List LifecycleDecl) :
    lifecycles entity (walkOrder functions) functions [] = liftM (do
      let (spawned, seen) ← Check.firstSpawn functions entity
      Check.otherLifecycles functions entity spawned seen) := by
  rcases spawn_cases functions with hnone | ⟨before, spawn, after, rfl, hbefore, hspawn⟩
  · have hall := lifecycles_append entity [] functions []
    rw [walkOrder_of_none hnone, firstSpawn_eq_none entity hnone]
    simpa using hall
  · have hitem : item (before ++ spawn :: after) before.length = pure spawn := item_eq (by simp)
    have hset (walked : LifecycleDecl) :
        (before ++ spawn :: after).set before.length walked = before ++ walked :: after := by simp
    rw [walkOrder_append hbefore hspawn, firstSpawn_append entity hbefore hspawn, lifecycles]
    simp only [hitem, hset, pure_bind, liftM_bind, bind_assoc]
    refine bind_congr fun result => ?_
    have hothers := lifecycles_append_spawn entity [] before after hbefore hspawn result.1 result.2
    simpa using hothers

/-! ## Slots -/

/-- Put a walked program back and add its alerts. The slots must exist, and the environment must be
registered. -/
def checkIn (s : Session) (id : EnvId) (index : Nat) (program : Program) (alerts : Diagnostics) :
    Except CompileError Session :=
  match s.programs[index]?, s.alerts[index]?, s.registry.get? id with
  | some _, some _, some _ => .ok (s.checkIn id index program alerts)
  | _, _, _ => .error (.unregistered id)

/-- Walk an environment unless it was started before. -/
def walk : (depth : Nat) → EnvId → Session → Except CompileError (Option CompileError × Session)
  | depth, id, s =>
    match id.userIndex?, s.registry.get? id with
    | some index, some env =>
      if env.state != .notWalked then .ok (none, s)
      else
        match s.programs[index]?, depth with
        | some (some program), depth + 1 => do
          let (program, state) ←
            (s.checkOut id index).runCheck id (walk depth) (Session.walkProgram program)
          let session ← checkIn state.session id index program state.alerts
          return (state.fatal, session)
        | _, _ => .ok (some (.programCheckedOut env.path), s)
    | _, _ => .ok (some (.unknownEnvironment id), s)

/-- Walk the environments at the given positions in order, up to the first error. -/
def walkAll : List Nat → Session → Except CompileError Session
  | [], s => .ok s
  | index :: rest, s => do
    match ← walk s.registry.envs.length (.user index) s with
    | (some error, _) => .error error
    | (none, s) => walkAll rest s

/-- Analyze programs, given with their paths, in one session. -/
def analyze (config : Config) (files : List (String × Program)) : Except CompileError BuildOutput := do
  let s := Session.ofFiles config files
  let s ← walkAll (List.range s.registry.envs.length) s
  let programs ← Session.collect s.programs s.registry.envs
  return { registry := s.registry
           programs := programs
           alerts := s.alerts
           denyWarnings := s.config.denyWarnings }

variable {k : Demands} {s : Session} {n : Nat}

/-- A registered environment has its slots. -/
theorem checkIn_eq {index : Nat} {env : Environment} (h : s.HasSlots)
    (henv : s.registry.get? (.user index) = some env) (program : Program) (alerts : Diagnostics) :
    checkIn s (.user index) index program alerts =
      .ok (s.checkIn (.user index) index program alerts) := by
  have hin : index < s.registry.envs.length := by
    rw [Registry.get?_user] at henv
    exact (List.getElem?_eq_some_iff.1 henv).1
  have hprogram : s.programs[index]? = some _ := List.getElem?_eq_getElem (h.programs ▸ hin)
  have halerts : s.alerts[index]? = some _ := List.getElem?_eq_getElem (h.alerts ▸ hin)
  rw [checkIn, hprogram, halerts, henv]

/-- Walks put programs back into slots that exist. -/
theorem alike_walk (hfits : ¬k.fits) (n : Nat) :
    Alike { k with waiting := n } (Session.walk n) (walk n) := by
  induction n with
  | zero =>
    intro target s _ hsome
    obtain ⟨env, henv⟩ := Option.isSome_iff_exists.1 hsome
    obtain ⟨index, hindex, -⟩ := Option.bind_eq_some_iff.1 henv
    unfold walk Session.walk
    simp only [hindex, henv]
    rcases s.programs[index]? with _ | _ | program <;> rfl
  | succ n ih =>
    intro target s hready hsome
    obtain ⟨env, henv⟩ := Option.isSome_iff_exists.1 hsome
    obtain ⟨index, hindex, hget⟩ := Option.bind_eq_some_iff.1 henv
    obtain rfl := EnvId.userIndex?_eq_some_iff.1 hindex
    unfold walk Session.walk
    simp only [hindex, henv]
    split
    · rfl
    · next hstate =>
      have hwaits : env.state = .notWalked := by simpa using hstate
      obtain ⟨program, hslot, -⟩ := hready.programs index env hget hwaits
      have htidy := Session.tidy_checkOut hready (Session.safeFor_walk k n) henv hwaits
      have hsound := Session.sound_walkProgram (k := k) (c := ⟨.user index, Session.walk n⟩)
        (r := (s.checkOut (.user index) index).registry) hfits n program _ htidy (.refl _)
      have hsame : (s.checkOut (.user index) index).runCheck (.user index) (walk n)
          (Session.walkProgram program) =
          (s.checkOut (.user index) index).runCheck (.user index) (Session.walk n)
            (Session.walkProgram program) := hsound.1.1 (walk n) ih
      simp only [hslot, hsame]
      cases hrun : (s.checkOut (.user index) index).runCheck (.user index) (Session.walk n)
          (Session.walkProgram program) with
      | error error => rfl
      | ok result =>
        obtain ⟨out, t⟩ := result
        obtain ⟨ht, -, -⟩ := hsound.2 out t hrun
        obtain ⟨own, hown, -, -⟩ := ht.own
        change (checkIn t.session (.user index) index out t.alerts >>= _) = _
        rw [checkIn_eq ht.ready.slots hown]
        rfl

/-- The walks of a build put programs back into slots that exist. -/
theorem walkAll_eq (hfits : ¬k.fits) {indices : List Nat} (h : s.ReadyFor { k with waiting := n })
    (hindices : ∀ i ∈ indices, i < s.registry.envs.length) :
    walkAll indices s = s.walkAll indices := by
  induction indices generalizing s n with
  | nil => rfl
  | cons i rest ih =>
    have hsome : (s.registry.get? (.user i)).isSome := by
      rw [Registry.get?_user, List.getElem?_eq_getElem (hindices i (by simp))]
      rfl
    rw [walkAll, Session.walkAll, Session.walkEnvironment,
      alike_walk hfits _ (.user i) s h.all hsome]
    obtain ⟨result, t, hwalk, -⟩ :=
      Session.framing_walk s.registry.envs.length (.user i) s h.waitsNew
    rw [hwalk]
    cases result with
    | some error => rfl
    | none =>
      obtain ⟨-, hready, hext, -⟩ := Session.safeFor_walk k _ (.user i) s none t h.all hsome hwalk
      refine ih hready fun j hj => ?_
      have hj := hext.envs (.user j) (by simpa using hindices j (by simp [hj]))
      simpa using hj

/-- A build puts programs back into slots that exist. -/
theorem analyze_eq (config : Config) (files : List (String × Program)) :
    analyze config files = HybroidSema.analyze config files := by
  have hready : (Session.ofFiles config files).ReadyFor
      (.tidiness (Session.ofFiles config files).registry.envs.length) :=
    Session.readyFor_ofFiles (k := .tidiness 0) not_false
  unfold analyze
  dsimp only
  rw [walkAll_eq (k := .tidiness 0) not_false hready fun i hi => List.mem_range.1 hi]
  rfl

end Indexed

/-- Slots that are empty are all that collecting programs may fail at. -/
theorem collect_ne_unregistered (slots : List (Option Program)) (envs : List Environment)
    (id : EnvId) : Session.collect slots envs ≠ .error (.unregistered id) := by
  fun_induction Session.collect slots envs with
  | case1 program slots env envs ih =>
    cases hrest : Session.collect slots envs with
    | ok programs => exact nofun
    | error e =>
      rintro heq
      obtain rfl : e = .unregistered id := Except.error.inj heq
      exact ih hrest
  | case2 => simp
  | case3 => simp

/-- A handle that is not registered is never used. -/
theorem analyze_ne_unregistered (config : Config) (files : List (String × Program)) (id : EnvId) :
    analyze config files ≠ .error (.unregistered id) := by
  intro h
  obtain ⟨m, -, -, ⟨programs, hok, -⟩ | ⟨e, herror, hkind⟩⟩ := Session.run_analyze config files
  · rw [h] at hok
    cases hok
  · rw [h] at herror
    cases herror
    rcases hkind with ⟨hcontainer, -⟩ | hcollect
    · cases hcontainer
    · exact absurd hcollect (collect_ne_unregistered _ _ id)

/-- No index is ever out of range, whatever is analyzed. Each step that picks an item by its position,
and fails if there is none, is the same as the step that cannot fail; the slots to which a walked
program and its alerts go back exist in every build; and no build uses a handle as that of a user
environment that is none. -/
theorem indexing_in_range :
    (∀ params index, Indexed.paramAt? params index = some (paramAt? params index)) ∧
    (∀ params args call,
      Indexed.validateArguments params args call = some (validateArguments params args call)) ∧
    (∀ expected values span context, Indexed.checkValueCount expected values span context =
      liftM (checkValueCount expected values span context)) ∧
    (∀ signature,
      Indexed.hasPositionParams signature = some (Declare.hasPositionParams signature)) ∧
    (∀ stmts reported, Indexed.body stmts 0 reported = liftM (body stmts reported)) ∧
    (∀ d exprs values,
      Indexed.declareNames d exprs values (exprs.length == d.names.length) 0 d.names =
        liftM (declareNames d d.names values (inlinedLiterals d.names exprs))) ∧
    (∀ entity functions,
      Indexed.lifecycles entity (Indexed.walkOrder functions) functions [] = liftM (do
        let (spawned, seen) ← firstSpawn functions entity
        otherLifecycles functions entity spawned seen)) ∧
    ∀ config files, Indexed.analyze config files = analyze config files ∧
      ∀ id, analyze config files ≠ .error (.unregistered id) := by
  refine ⟨Indexed.paramAt?_eq, Indexed.validateArguments_eq, Indexed.checkValueCount_eq,
    Indexed.hasPositionParams_eq, fun stmts reported => ?_, Indexed.declareNames_eq,
    Indexed.lifecycles_eq, fun config files =>
      ⟨Indexed.analyze_eq config files, analyze_ne_unregistered config files⟩⟩
  simpa using Indexed.body_append [] stmts reported

end HybroidSema
