import HybroidSema.Proofs.ScopePositions

/-!
# The laws of the scope stack

What holds of a stack of scopes after any sequence of operations on a new one. One operation opens a
scope on top, closes the topmost one, or changes a single scope in a way that keeps its declarations.
Everything else follows from that by induction on the sequence.

* `ScopeOp`, `ScopeOp.step` and `ScopeStack.run`: the operations and their sequences.
* `ScopeStack.Change`, `ScopeOp.change`: what one operation does.
* `ScopeStack.IsLinked`: the root, the parents of the other scopes and the names of bindings.
* `run_keeps_binding`: declarations and constants stay until their scope is closed.
* `get?_run_of_lt`: operations on the scopes above a position change nothing below it.
* `scope_stack_laws`: the laws together.
-/

namespace HybroidSema

/-! ## Operations -/

/-- An operation on the open scopes. -/
inductive ScopeOp where
  | push (tag : ScopeTag) (added : Permissions)
  | pushRestricted (tag : ScopeTag) (removed : Permissions)
  | pushFunction (tag : FuncTag)
  | close
  | markExit (kind : Exits)
  | reportExits (exits : Exits)
  | declare (binding : Variable)
  | declareRoot (binding : Variable)
  | assign (position : Nat) (name : String) (value : Option Value)

namespace ScopeOp

/-- The stack after an operation, or why it was refused. -/
def step (s : ScopeStack) : ScopeOp → Except ScopeError ScopeStack
  | push tag added => .ok (s.push tag added)
  | pushRestricted tag removed => .ok (s.pushRestricted tag removed)
  | pushFunction tag => .ok (s.pushFunction tag)
  | close => .ok ((s.close?.map (·.2)).getD s)
  | markExit kind => .ok (s.markExit kind)
  | reportExits exits => .ok (s.reportExits exits)
  | declare binding => s.declare binding
  | declareRoot binding => s.declareRoot binding
  | assign position name value => s.assign position name value

/-- The stack that is used from then on: a refused operation is reported and has no other effect. -/
def apply (s : ScopeStack) (op : ScopeOp) : ScopeStack :=
  match op.step s with
  | .ok s' => s'
  | .error _ => s

/-- Why an operation is refused: the name is taken, the variable is a constant or there is none. -/
def refusal? (s : ScopeStack) : ScopeOp → Option ScopeError
  | declare binding =>
    (s.current.bindings.get? binding.name).map (.alreadyDeclared binding.name ·.span)
  | declareRoot binding =>
    (s.root.bindings.get? binding.name).map (.alreadyDeclared binding.name ·.span)
  | assign position name _ =>
    match s.binding? position name with
    | none => some (.undeclared name)
    | some binding => if binding.isConst then some (.constAssignment name) else none
  | _ => none

/-- The lowest position whose scope an operation changes. A scope that is closed reports to the one
below it. -/
def lowest (s : ScopeStack) : ScopeOp → Nat
  | close => s.currentPosition - 1
  | declareRoot _ => 0
  | assign position _ _ => position
  | _ => s.currentPosition

/-- Whether the operation opens a scope. -/
def Opens : ScopeOp → Prop
  | push _ _ | pushRestricted _ _ | pushFunction _ => True
  | _ => False

end ScopeOp

namespace ScopeStack

/-- The stack after a sequence of operations. -/
def run (s : ScopeStack) (ops : List ScopeOp) : ScopeStack := ops.foldl ScopeOp.apply s

/-- The stack after a sequence of operations on a new one. -/
def after (ops : List ScopeOp) : ScopeStack := new.run ops

/-- Every operation of the sequence changes scopes at a position or above it only. -/
def StaysAbove (d : Nat) : ScopeStack → List ScopeOp → Prop
  | _, [] => True
  | s, op :: rest => d ≤ op.lowest s ∧ StaysAbove d (op.apply s) rest

@[simp] theorem run_nil (s : ScopeStack) : s.run [] = s := rfl

@[simp] theorem run_cons (s : ScopeStack) (op : ScopeOp) (rest : List ScopeOp) :
    s.run (op :: rest) = (op.apply s).run rest := rfl

theorem run_append (s : ScopeStack) (ops later : List ScopeOp) :
    s.run (ops ++ later) = (s.run ops).run later := List.foldl_append

end ScopeStack

/-- An operation that is refused says why, and it is refused for no other reason. -/
theorem ScopeOp.step_eq_error_iff (op : ScopeOp) (s : ScopeStack) (e : ScopeError) :
    op.step s = .error e ↔ op.refusal? s = some e := by
  cases op with
  | declare binding =>
    simp only [step, refusal?, ScopeStack.declare, Scope.declare]
    cases s.current.bindings.get? binding.name <;> simp [Except.map]
  | declareRoot binding =>
    simp only [step, refusal?, ScopeStack.declareRoot, Scope.declare]
    cases s.root.bindings.get? binding.name <;> simp [Except.map]
  | assign position name value =>
    simp only [step, refusal?, ScopeStack.assign]
    cases s.binding? position name with
    | none => simp
    | some binding => cases hconst : binding.isConst <;> simp [hconst]
  | _ => simp [step, refusal?]

/-! ## What an operation does to one scope -/

/-- A variable after assignments to it: as it was declared except for its value, and a constant is
unchanged. -/
structure Variable.Keeps (v v' : Variable) : Prop where
  declared : ∃ value isInit, v' = { v with value := value, isInit := isInit }
  constant : v.isConst = true → v' = v

namespace Variable.Keeps

variable {v v' v'' : Variable}

theorem refl (v : Variable) : v.Keeps v := ⟨⟨v.value, v.isInit, rfl⟩, fun _ => rfl⟩

theorem trans (h : v.Keeps v') (h' : v'.Keeps v'') : v.Keeps v'' := by
  obtain ⟨value, isInit, rfl⟩ := h.declared
  obtain ⟨value', isInit', rfl⟩ := h'.declared
  exact ⟨⟨value', isInit', rfl⟩, fun hconst => (h'.constant hconst).trans (h.constant hconst)⟩

end Variable.Keeps

namespace Scope

variable {a b : Scope}

/-- Every binding is stored under its own name. -/
def IsNamed (a : Scope) : Prop := ∀ name v, a.bindings.get? name = some v → v.name = name

/-- A scope after operations on it that do not close it. -/
structure Evolves (a b : Scope) : Prop where
  parent : b.parent = a.parent
  permits : b.permits = a.permits
  kind : b.tag.kind = a.tag.kind
  keeps : ∀ name v, a.bindings.get? name = some v →
    ∃ v', b.bindings.get? name = some v' ∧ v.Keeps v'
  named : a.IsNamed → b.IsNamed

theorem Evolves.refl (a : Scope) : a.Evolves a :=
  ⟨rfl, rfl, rfl, fun _ v hv => ⟨v, hv, .refl v⟩, id⟩

/-- Marked exits keep the bindings. -/
theorem Evolves.of_exits (a : Scope) (exits : Exits) : a.Evolves { a with exits := exits } :=
  ⟨rfl, rfl, rfl, fun _ v hv => ⟨v, hv, .refl v⟩, id⟩

/-- Reported exits keep the bindings. -/
theorem evolves_receive (a : Scope) (exits : Exits) : a.Evolves (a.receive exits) := by
  refine ⟨a.parent_receive exits, a.permits_receive exits, a.kind_receive exits, ?_, ?_⟩
  · intro name v hv
    exact ⟨v, by rwa [bindings_receive], .refl v⟩
  · intro h name v hv
    rw [bindings_receive] at hv
    exact h name v hv

/-- A new binding takes no other one's place and has its own name. -/
theorem evolves_declare {binding : Variable} (h : a.declare binding = .ok b) : a.Evolves b := by
  have hkeeps : ∀ name v, a.bindings.get? name = some v →
      ∃ v', b.bindings.get? name = some v' ∧ v.Keeps v' :=
    fun _ v hv => ⟨v, get?_declare h hv, .refl v⟩
  unfold declare at h
  split at h
  · cases h
  · obtain rfl := Except.ok.inj h
    refine ⟨rfl, rfl, rfl, hkeeps, fun hnamed name v hv => ?_⟩
    simp only [Table.get?_insert] at hv
    split at hv
    · next heq =>
      rw [heq, ← Option.some.inj hv]
    · exact hnamed name v hv

/-- An assignment to a variable that is no constant keeps the declarations. -/
theorem evolves_assign {name : String} (value : Option Value)
    (h : ∀ v, a.bindings.get? name = some v → v.isConst = false) :
    a.Evolves { a with bindings := a.bindings.modify name fun v =>
      { v with value := value.getD v.value, isInit := true } } := by
  refine ⟨rfl, rfl, rfl, fun other v hv => ?_, fun hnamed other v hv => ?_⟩
  · simp only [Table.get?_modify]
    split
    · next heq =>
      subst heq
      rw [hv]
      exact ⟨_, rfl, ⟨_, _, rfl⟩, fun hconst => absurd hconst (by simp [h v hv])⟩
    · exact ⟨v, hv, .refl v⟩
  · simp only [Table.get?_modify] at hv
    split at hv
    · obtain ⟨v', hv', rfl⟩ := Option.map_eq_some_iff.1 hv
      exact hnamed other v' hv'
    · exact hnamed other v hv

end Scope

/-! ## What an operation does to the stack -/

namespace ScopeStack

variable {s s' : ScopeStack} {scope : Scope} {op : ScopeOp} {p q d : Nat}

/-- What one operation does: nothing, a scope is opened on top, the topmost one is closed, or the
scope at a position goes on with its declarations. The number is the lowest position that is
changed. -/
inductive Change (s : ScopeStack) : Nat → ScopeStack → Prop
  | same (q : Nat) : Change s q s
  | opened (scope : Scope) (hparent : scope.parent = some s.currentPosition)
      (hbindings : scope.bindings = .empty) : Change s s.currentPosition (s.cons scope)
  | closed (below : ScopeStack) (top : Scope) (h : s = below.cons top) :
      Change s below.currentPosition (below.afterClosing top)
  | changed (q : Nat) (f : Scope → Scope)
      (h : ∀ scope, s.get? q = some scope → scope.Evolves (f scope)) : Change s q (s.modifyAt q f)

theorem change_modifyCurrent (f : Scope → Scope) (h : s.current.Evolves (f s.current)) :
    s.Change s.currentPosition (s.modifyCurrent f) := by
  rw [modifyCurrent_eq_modifyAt]
  refine .changed _ f fun scope hscope => ?_
  rw [get?_currentPosition] at hscope
  exact Option.some.inj hscope ▸ h

theorem change_declare {binding : Variable} (h : s.declare binding = .ok s') :
    s.Change s.currentPosition s' := by
  unfold declare at h
  cases hscope : s.current.declare binding with
  | error e => simp [hscope, Except.map] at h
  | ok scope =>
    simp only [hscope, Except.map, Except.ok.injEq] at h
    exact h ▸ change_modifyCurrent (fun _ => scope) (Scope.evolves_declare hscope)

theorem change_declareRoot {binding : Variable} (h : s.declareRoot binding = .ok s') :
    s.Change 0 s' := by
  unfold declareRoot at h
  cases hscope : s.root.declare binding with
  | error e => simp [hscope, Except.map] at h
  | ok scope =>
    simp only [hscope, Except.map, Except.ok.injEq] at h
    subst h
    refine .changed 0 (fun _ => scope) fun root hroot => ?_
    rw [get?_zero] at hroot
    exact Option.some.inj hroot ▸ Scope.evolves_declare hscope

theorem change_assign {name : String} {value : Option Value} (h : s.assign p name value = .ok s') :
    s.Change p s' := by
  unfold assign at h
  split at h
  · cases h
  · next binding hbinding =>
    split at h
    · cases h
    · next hconst =>
      obtain rfl := Except.ok.inj h
      refine .changed p _ fun scope hscope => Scope.evolves_assign value fun v hv => ?_
      rw [binding?, hscope] at hbinding
      rw [Option.some.inj (hv.symm.trans hbinding)]
      exact Bool.eq_false_iff.2 hconst

/-- The root cannot be closed, and every other scope can. -/
theorem close?_eq_none_iff : s.close? = none ↔ s.depth = 1 := by
  obtain ⟨root, inner⟩ := s
  cases inner with
  | nil => exact ⟨fun _ => rfl, fun _ => rfl⟩
  | cons top rest =>
    have hclose : (ScopeStack.mk root (top :: rest)).close? = _ := close?_cons ⟨root, rest⟩ top
    rw [hclose]
    exact ⟨fun h => (nomatch h), fun h => (nomatch Nat.succ.inj h)⟩

theorem change_close (s : ScopeStack) :
    s.Change (s.currentPosition - 1) ((s.close?.map (·.2)).getD s) := by
  cases hroot : s.isRoot with
  | true =>
    have hdepth : s.depth = 1 := by
      rw [depth, List.isEmpty_iff.1 hroot]
      rfl
    rw [close?_eq_none_iff.2 hdepth]
    exact .same _
  | false =>
    obtain ⟨below, top, rfl⟩ := exists_eq_cons hroot
    rw [close?_cons]
    exact .closed below top rfl

end ScopeStack

open ScopeStack in
/-- Every operation is one of these changes. -/
theorem ScopeOp.change (op : ScopeOp) (s : ScopeStack) :
    s.Change (op.lowest s) (op.apply s) := by
  have hrefused {q : Nat} (h : ∀ s', op.step s = .ok s' → s.Change q s') :
      s.Change q (op.apply s) := by
    unfold apply
    cases hstep : op.step s with
    | ok s' => exact h s' hstep
    | error e => exact .same q
  cases op with
  | push tag added => exact .opened _ rfl rfl
  | pushRestricted tag removed => exact .opened _ rfl rfl
  | pushFunction tag => exact .opened _ rfl rfl
  | close => exact change_close s
  | markExit kind =>
    exact change_modifyCurrent (fun scope => { scope with exits := scope.exits.union (.leaving kind) })
      (.of_exits _ _)
  | reportExits exits =>
    exact change_modifyCurrent (·.receive exits) (s.current.evolves_receive exits)
  | declare binding => exact hrefused fun _ => change_declare
  | declareRoot binding => exact hrefused fun _ => change_declareRoot
  | assign position name value => exact hrefused fun _ => change_assign

namespace ScopeStack

variable {s s' : ScopeStack} {scope scope' : Scope} {op : ScopeOp} {p q d : Nat}

/-- The topmost scope reports to the one below, which goes on with its declarations. -/
theorem change_afterClosing (s : ScopeStack) (top : Scope) :
    s.Change s.currentPosition (s.afterClosing top) := by
  unfold afterClosing
  split
  · next exits _ => exact change_modifyCurrent (·.receive exits) (s.current.evolves_receive exits)
  · exact .same _

/-- Below the lowest position that a change is about nothing changes. -/
theorem Change.get?_of_lt (h : s.Change q s') (hp : p < q) : s'.get? p = s.get? p := by
  induction h with
  | same q => rfl
  | opened scope => 
    rw [get?_cons, if_neg]
    rw [depth_eq]
    omega
  | closed below top h =>
    subst h
    rw [get?_cons, if_neg (by rw [depth_eq]; omega)]
    unfold afterClosing
    split
    · rw [reportExits, get?_modifyCurrent, if_neg (Nat.ne_of_lt hp)]
    · rfl
  | changed q f h => rw [get?_modifyAt_eq, if_neg (Nat.ne_of_gt hp)]

/-- The scopes that stay open go on with their declarations. -/
theorem Change.evolves (h : s.Change q s') (hscope : s.get? p = some scope) (hp : p < s'.depth) :
    ∃ scope', s'.get? p = some scope' ∧ scope.Evolves scope' := by
  induction h with
  | same q => exact ⟨scope, hscope, .refl scope⟩
  | opened top =>
    refine ⟨scope, ?_, .refl scope⟩
    rw [get?_cons, if_neg (Nat.ne_of_lt (lt_depth_of_get? hscope)), hscope]
  | closed below top h =>
    subst h
    rw [depth_afterClosing] at hp
    rw [get?_cons, if_neg (Nat.ne_of_lt hp)] at hscope
    unfold afterClosing
    split
    · next exits _ =>
      rw [reportExits, get?_modifyCurrent]
      split
      · next heq =>
        rw [heq, get?_currentPosition] at hscope
        exact ⟨_, rfl, Option.some.inj hscope ▸ below.current.evolves_receive exits⟩
      · exact ⟨scope, hscope, .refl scope⟩
    · exact ⟨scope, hscope, .refl scope⟩
  | changed q f h =>
    rw [get?_modifyAt_eq, hscope]
    split
    · next heq => exact ⟨f scope, rfl, h scope (heq ▸ hscope)⟩
    · exact ⟨scope, rfl, .refl scope⟩

/-- A scope was there before with its declarations, or it was just opened. -/
theorem Change.from (h : s.Change q s') (hscope : s'.get? p = some scope') :
    (∃ scope, s.get? p = some scope ∧ scope.Evolves scope') ∨
      p = s.depth ∧ scope'.parent = some s.currentPosition ∧ scope'.bindings = .empty := by
  by_cases hp : p < s.depth
  · obtain ⟨scope, hold⟩ := Option.isSome_iff_exists.1 (isSome_get?_iff.2 hp)
    obtain ⟨scope'', hnew, hevolves⟩ := h.evolves hold (lt_depth_of_get? hscope)
    exact .inl ⟨scope, hold, Option.some.inj (hnew.symm.trans hscope) ▸ hevolves⟩
  · have hdepth := lt_depth_of_get? hscope
    induction h with
    | same q => exact absurd hdepth hp
    | opened top hparent hbindings =>
      obtain rfl : p = s.depth := by
        rw [depth_cons] at hdepth
        omega
      rw [get?_cons, if_pos rfl] at hscope
      exact .inr ⟨rfl, Option.some.inj hscope ▸ ⟨hparent, hbindings⟩⟩
    | closed below top h =>
      rw [depth_afterClosing] at hdepth
      rw [h, depth_cons] at hp
      omega
    | changed q f h =>
      rw [depth_modifyAt] at hdepth
      exact absurd hdepth hp

/-- What is open stays open as long as nothing below it is changed. -/
theorem Change.le_currentPosition (h : s.Change q s') (hq : d ≤ q) (hd : d ≤ s.currentPosition) :
    d ≤ s'.currentPosition := by
  have hpos (t : ScopeStack) : t.currentPosition + 1 = t.depth := rfl
  induction h with
  | same q => exact hd
  | opened top => exact Nat.le_succ_of_le hd
  | closed below top h =>
    rw [← Nat.succ_le_succ_iff, Nat.succ_eq_add_one, Nat.succ_eq_add_one, hpos, depth_afterClosing]
    exact Nat.succ_le_succ hq
  | changed q f h =>
    rw [← Nat.succ_le_succ_iff, Nat.succ_eq_add_one, Nat.succ_eq_add_one, hpos, depth_modifyAt]
    exact Nat.succ_le_succ hd

/-! ## Links and names -/

/-- The root is plain and permits nothing, every other scope has the scope just below as its parent,
and every binding is stored under its own name. -/
structure IsLinked (s : ScopeStack) : Prop where
  rootTag : s.root.tag = .plain
  rootPermits : s.root.permits = {}
  parents : ∀ p scope, s.get? p = some scope →
    scope.parent = if p = 0 then none else some (p - 1)
  names : ∀ p scope, s.get? p = some scope → scope.IsNamed

theorem isLinked_new : new.IsLinked := by
  have hroot {p : Nat} {scope : Scope} (h : new.get? p = some scope) : p = 0 ∧ scope = {} := by
    obtain rfl : p = 0 := by
      have := lt_depth_of_get? h
      exact Nat.lt_one_iff.1 this
    rw [get?_zero] at h
    exact ⟨rfl, (Option.some.inj h).symm⟩
  refine ⟨rfl, rfl, fun p scope h => ?_, fun p scope h name v hv => ?_⟩
  · obtain ⟨rfl, rfl⟩ := hroot h
    rfl
  · obtain ⟨rfl, rfl⟩ := hroot h
    cases hv

theorem Change.isLinked (h : s.Change q s') (hs : s.IsLinked) : s'.IsLinked := by
  obtain ⟨root, hroot, hevolves⟩ := h.evolves s.get?_zero (Nat.succ_pos _)
  rw [get?_zero] at hroot
  obtain rfl := Option.some.inj hroot
  refine ⟨?_, hevolves.permits.trans hs.rootPermits, fun p scope' hscope' => ?_,
    fun p scope' hscope' => ?_⟩
  · have hkind := hevolves.kind
    rw [hs.rootTag] at hkind
    cases htag : s'.root.tag <;> rw [htag] at hkind <;> first | rfl | cases hkind
  · obtain ⟨scope, hscope, hevolves⟩ | ⟨rfl, hparent, -⟩ := h.from hscope'
    · exact hevolves.parent.trans (hs.parents p scope hscope)
    · exact hparent
  · obtain ⟨scope, hscope, hevolves⟩ | ⟨-, -, hbindings⟩ := h.from hscope'
    · exact hevolves.named (hs.names p scope hscope)
    · intro name v hv
      rw [hbindings] at hv
      cases hv

/-- Every sequence of operations keeps the links and names. -/
theorem isLinked_run (hs : s.IsLinked) (ops : List ScopeOp) : (s.run ops).IsLinked := by
  induction ops generalizing s with
  | nil => exact hs
  | cons op rest ih => exact ih ((op.change s).isLinked hs)

/-- The scopes that are reached from a position over the parents. -/
def ascend (s : ScopeStack) : (fuel : Nat) → Option Nat → List Scope
  | 0, _ | _ + 1, none => []
  | fuel + 1, some position =>
    match s.get? position with
    | some scope => scope :: s.ascend fuel scope.parent
    | none => []

/-- The parents lead through the scopes in the order of the stack. -/
theorem IsLinked.ascend_eq (hs : s.IsLinked) (hp : p < s.depth) :
    s.ascend (p + 1) (some p) = (s.byPosition.take (p + 1)).reverse := by
  induction p with
  | zero =>
    have hparent := hs.parents 0 s.root s.get?_zero
    simp [ascend, byPosition]
  | succ p ih =>
    obtain ⟨scope, hscope⟩ := Option.isSome_iff_exists.1 (isSome_get?_iff.2 hp)
    have hparent : scope.parent = some p := hs.parents (p + 1) scope hscope
    rw [ascend, hscope]
    simp only [hparent, ih (Nat.lt_of_succ_lt hp)]
    rw [get?_eq_getElem?] at hscope
    rw [List.take_add_one (i := p + 1), hscope]
    simp

/-- The parents lead from the innermost scope through all open ones to the root. -/
theorem IsLinked.ascend_current (hs : s.IsLinked) :
    s.ascend s.depth (some s.currentPosition) = s.chain := by
  have hall := hs.ascend_eq (Nat.lt_succ_self s.currentPosition)
  rwa [show s.currentPosition + 1 = s.byPosition.length from (length_byPosition s).symm,
    List.take_length, length_byPosition, ← chain_reverse, List.reverse_reverse] at hall

/-! ## Declarations stay -/

theorem Change.keeps_binding {name : String} {v : Variable} (h : s.Change q s')
    (hv : s.binding? p name = some v) (hp : p < s'.depth) :
    ∃ v', s'.binding? p name = some v' ∧ v.Keeps v' := by
  obtain ⟨scope, hscope, hget⟩ := Option.bind_eq_some_iff.1 hv
  obtain ⟨scope', hscope', hevolves⟩ := h.evolves hscope hp
  obtain ⟨v', hv', hkeeps⟩ := hevolves.keeps name v hget
  exact ⟨v', by rw [binding?, hscope']; exact hv', hkeeps⟩

/-- As long as its scope is open, a variable stays as it was declared, and a constant has its
value. -/
theorem run_keeps_binding {name : String} {v : Variable} (ops : List ScopeOp)
    (hv : s.binding? p name = some v) (hopen : ∀ n, p < (s.run (ops.take n)).depth) :
    ∃ v', (s.run ops).binding? p name = some v' ∧ v.Keeps v' := by
  induction ops generalizing s v with
  | nil => exact ⟨v, hv, .refl v⟩
  | cons op rest ih =>
    obtain ⟨v', hv', hkeeps⟩ := (op.change s).keeps_binding hv (hopen 1)
    obtain ⟨v'', hv'', hkeeps'⟩ := ih hv' fun n => hopen (n + 1)
    exact ⟨v'', hv'', hkeeps.trans hkeeps'⟩

/-- A declared variable is found in the innermost scope. -/
theorem binding?_declare {binding : Variable} (h : s.declare binding = .ok s') :
    s'.binding? s'.currentPosition binding.name = some binding := by
  unfold declare Scope.declare at h
  split at h
  · cases h
  · obtain rfl := Except.ok.inj h
    have hposition (f : Scope → Scope) : (s.modifyCurrent f).currentPosition = s.currentPosition :=
      Nat.succ.inj (s.depth_modifyCurrent f)
    rw [hposition, binding?, get?_modifyCurrent, if_pos rfl]
    simp [Table.get?_insert]

/-- A variable declared in the root scope is found there. -/
theorem binding?_declareRoot {binding : Variable} (h : s.declareRoot binding = .ok s') :
    s'.binding? 0 binding.name = some binding := by
  unfold declareRoot Scope.declare at h
  split at h
  · cases h
  · obtain rfl := Except.ok.inj h
    rw [binding?, get?_zero]
    simp [Table.get?_insert]

/-! ## Scopes below -/

/-- Operations on the scopes from a position on change nothing below it, and it stays open. -/
theorem get?_run_of_lt (hd : d ≤ s.currentPosition) (ops : List ScopeOp) (h : s.StaysAbove d ops) :
    d ≤ (s.run ops).currentPosition ∧ ∀ p < d, (s.run ops).get? p = s.get? p := by
  induction ops generalizing s with
  | nil => exact ⟨hd, fun _ _ => rfl⟩
  | cons op rest ih =>
    obtain ⟨hlowest, hrest⟩ := h
    have hchange := op.change s
    obtain ⟨hd', hget⟩ := ih (hchange.le_currentPosition hlowest hd) hrest
    exact ⟨hd', fun p hp =>
      (hget p hp).trans (hchange.get?_of_lt (Nat.lt_of_lt_of_le hp hlowest))⟩

/-- A scope that is opened, operations on it and on scopes inside it: when everything inside is
closed again, it is on top of the stack as it was before. -/
theorem run_opening_eq_cons (hopens : op.Opens) (ops : List ScopeOp)
    (h : (op.apply s).StaysAbove s.depth ops)
    (hdepth : (s.run (op :: ops)).depth = s.depth + 1) :
    s.run (op :: ops) = s.cons (s.run (op :: ops)).current := by
  have hopened : ∃ scope, op.apply s = s.cons scope := by
    cases op with
    | push | pushRestricted | pushFunction => exact ⟨_, rfl⟩
    | _ => cases hopens
  obtain ⟨scope, hcons⟩ := hopened
  rw [run_cons, hcons] at hdepth ⊢
  rw [hcons] at h
  obtain ⟨-, hget⟩ := get?_run_of_lt (Nat.le_refl s.depth) ops h
  refine eq_cons_of_get? hdepth fun p hp => ?_
  rw [hget p hp, get?_cons, if_neg (Nat.ne_of_lt hp)]

end ScopeStack

/-! ## The report of a closed scope -/

/-- The tag with other branches, if it collects any. -/
def ScopeTag.withPaths (paths : MultiPath) : ScopeTag → ScopeTag
  | .multiPath _ => .multiPath paths
  | .matchExpr tag => .matchExpr { tag with paths := paths }
  | tag => tag

/-- A scope after a report: exits were added to it, or branches to its tag, and nothing else is
changed. -/
structure Scope.Received (a b : Scope) : Prop where
  same : ∃ exits paths, b = { a with exits := exits, tag := a.tag.withPaths paths }
  branches : ¬ a.tag.IsSequential → b.exits = a.exits

theorem Scope.Received.refl (a : Scope) : a.Received a := by
  refine ⟨⟨a.exits, ?_⟩, fun _ => rfl⟩
  have htag : ∃ paths, a.tag = a.tag.withPaths paths := by
    cases a.tag with
    | multiPath paths => exact ⟨paths, rfl⟩
    | matchExpr tag => exact ⟨tag.paths, rfl⟩
    | _ => exact ⟨{}, rfl⟩
  obtain ⟨paths, hpaths⟩ := htag
  exact ⟨paths, by rw [← hpaths]⟩

theorem Scope.received_receive (a : Scope) (exits : Exits) : a.Received (a.receive exits) := by
  obtain ⟨tag, permits, own, bindings, parent⟩ := a
  cases tag with
  | multiPath paths => exact ⟨⟨own, paths.report exits, rfl⟩, fun _ => rfl⟩
  | matchExpr tag => exact ⟨⟨own, tag.paths.report exits, rfl⟩, fun _ => rfl⟩
  | plain | classBody | entityBody | func | loop =>
    exact ⟨⟨own.union exits, {}, rfl⟩, fun h => absurd trivial h⟩

namespace ScopeStack

theorem received_afterClosing (s : ScopeStack) (top : Scope) :
    s.current.Received (s.afterClosing top).current := by
  unfold afterClosing
  split
  · next exits _ =>
    rw [reportExits, current_modifyCurrent]
    exact s.current.received_receive exits
  · exact .refl _

/-- A balanced run: a scope is opened, there are operations on it and on scopes inside it, and it is
closed. Below it nothing is changed but the scope that receives its report. -/
theorem balanced_run {s : ScopeStack} {op : ScopeOp} (hopens : op.Opens) (ops : List ScopeOp)
    (h : (op.apply s).StaysAbove s.depth ops)
    (hdepth : (s.run (op :: ops)).depth = s.depth + 1) :
    s.run (op :: ops ++ [.close]) = s.afterClosing (s.run (op :: ops)).current ∧
      (s.run (op :: ops ++ [.close])).depth = s.depth ∧
      (∀ p < s.currentPosition, (s.run (op :: ops ++ [.close])).get? p = s.get? p) ∧
      s.current.Received (s.run (op :: ops ++ [.close])).current := by
  have hclosed : s.run (op :: ops ++ [.close]) = s.afterClosing (s.run (op :: ops)).current := by
    rw [run_append, run_opening_eq_cons hopens ops h hdepth]
    simp only [run_cons, run_nil, ScopeOp.apply, ScopeOp.step, close?_cons]
    rfl
  rw [hclosed]
  exact ⟨rfl, s.depth_afterClosing _, fun p hp => (s.change_afterClosing _).get?_of_lt hp,
    s.received_afterClosing _⟩

end ScopeStack

/-! ## The laws together -/

open ScopeStack in
/-- After every sequence of operations on a new stack: the root is there and cannot be closed, the
parent of every other scope is the one just below it, and the parents lead through all open scopes;
bindings are stored under their names; a refused operation says why and changes nothing; what was
declared stays as it was declared, and a constant has its value, until the scope is closed; a name is
resolved to the innermost scope that binds it; and a balanced run changes nothing below but the scope
that receives the report. -/
theorem scope_stack_laws (ops : List ScopeOp) :
    (after ops).IsLinked ∧
    (after ops).ascend (after ops).depth (some (after ops).currentPosition) = (after ops).chain ∧
    ((after ops).close? = none ↔ (after ops).depth = 1) ∧
    (∀ (op : ScopeOp) e, op.step (after ops) = .error e →
      op.apply (after ops) = after ops ∧ op.refusal? (after ops) = some e) ∧
    (∀ v s', (after ops).declare v = .ok s' → s'.binding? s'.currentPosition v.name = some v) ∧
    (∀ v s', (after ops).declareRoot v = .ok s' → s'.binding? 0 v.name = some v) ∧
    (∀ p name v later, (after ops).binding? p name = some v →
      (∀ n, p < ((after ops).run (later.take n)).depth) →
      ∃ v', ((after ops).run later).binding? p name = some v' ∧ v.Keeps v') ∧
    (∀ name p, (after ops).resolve? name = some p ↔
      (∃ v, (after ops).binding? p name = some v) ∧
        ∀ q, p < q → (after ops).binding? q name = none) ∧
    ∀ (op : ScopeOp) inner, op.Opens → (op.apply (after ops)).StaysAbove (after ops).depth inner →
      ((after ops).run (op :: inner)).depth = (after ops).depth + 1 →
      ((after ops).run (op :: inner ++ [.close])).depth = (after ops).depth ∧
      (∀ p < (after ops).currentPosition,
        ((after ops).run (op :: inner ++ [.close])).get? p = (after ops).get? p) ∧
      (after ops).current.Received ((after ops).run (op :: inner ++ [.close])).current := by
  have hlinked : (after ops).IsLinked := isLinked_run isLinked_new ops
  refine ⟨hlinked, hlinked.ascend_current, close?_eq_none_iff, fun op e h => ?_,
    fun _ _ => binding?_declare, fun _ _ => binding?_declareRoot,
    fun p name v later hv hopen => run_keeps_binding later hv hopen,
    fun name p => resolve?_eq_some_iff _ name p,
    fun op inner hopens h hdepth => (balanced_run hopens inner h hdepth).2⟩
  refine ⟨?_, (op.step_eq_error_iff _ e).1 h⟩
  rw [ScopeOp.apply, h]

/-- A constant of the root scope. -/
def rootConstant : Variable := { name := "x", value := .bool, span := default, isConst := true }

/-- A scope that shadows the constant and leaves a loop. -/
def shadowingScope : List ScopeOp :=
  [.push .plain .empty, .declare rootConstant, .push .loop .ofLoop, .markExit .ofBreak, .close]

open ScopeStack in
/-- A constant of the root scope stays while a scope inside shadows it, and closing that scope
changes nothing but the exits of the root. -/
theorem scope_stack_laws_shadowed :
    (after [.declare rootConstant]).binding? 0 "x" = some rootConstant ∧
      (∃ v, ((after [.declare rootConstant]).run shadowingScope).binding? 0 "x" = some v ∧
        rootConstant.Keeps v) ∧
      ((after [.declare rootConstant]).run (shadowingScope ++ [.close])).depth = 1 ∧
      (after [.declare rootConstant]).current.Received
        ((after [.declare rootConstant]).run (shadowingScope ++ [.close])).current := by
  obtain ⟨-, -, -, -, -, -, hkeeps, -, hbalanced⟩ := scope_stack_laws [.declare rootConstant]
  have hx : (after [.declare rootConstant]).binding? 0 "x" = some rootConstant := by rfl
  obtain ⟨hdepth, -, hreceived⟩ := hbalanced (.push .plain .empty) shadowingScope.tail trivial
    ⟨Nat.le_refl 1, Nat.le_refl 1, Nat.le_succ 1, Nat.le_refl 1, trivial⟩ rfl
  exact ⟨hx, hkeeps 0 "x" rootConstant _ hx fun _ => Nat.succ_pos _, hdepth, hreceived⟩

end HybroidSema
