import HybroidSema.Scope
import Mathlib.Tactic.SplitIfs

/-!
# The outline of a scope stack

What exits and permissions depend on is how scopes are nested, and not what is bound in them. The
outline of a stack forgets the bindings, and in the scope of a match expression the types that
were yielded first. Every operation on variables keeps the outline, and opening, closing and
marking do to the outline what they do to the stack.

* `ScopeTag.outline`, `Scope.outline` and `ScopeStack.outline`.
* Operations on variables: `outline_declare`, `outline_assign`, `outline_modifyVariable`.
* Opening and closing: `outline_push`, `outline_close?`.
* `ScopeStack.KeepsRoot`: variables of the root scope stay as they were declared.
* `ScopeStack.addExits`: exits in sequence, which is what a statement does to its scope.
-/

namespace HybroidSema

/-- The tag without the types that were yielded first. -/
def ScopeTag.outline : ScopeTag → ScopeTag
  | .matchExpr tag => .matchExpr { tag with yields := none }
  | tag => tag

/-- What opened the scope, without what the scope has collected from its branches. -/
def ScopeTag.kind : ScopeTag → ScopeTag
  | .multiPath _ => .multiPath {}
  | .matchExpr _ => .matchExpr {}
  | tag => tag

@[simp] theorem ScopeTag.kind_outline (tag : ScopeTag) : tag.outline.kind = tag.kind := by
  cases tag <;> rfl

/-- The scope without its bindings. -/
def Scope.outline (s : Scope) : Scope := { s with tag := s.tag.outline, bindings := .empty }

/-- What of a scope stays until it is closed: its kind, what it permits and the position of the scope
that it was opened in. -/
structure Scope.Frame where
  kind : ScopeTag
  permits : Permissions
  parent : Option Nat

/-- The frame of a scope, without its exits and its bindings. -/
def Scope.frame (s : Scope) : Frame := ⟨s.tag.kind, s.permits, s.parent⟩

/-- Whether the exits of a child of the scope come in sequence, and are no branch among others. -/
def ScopeTag.IsSequential : ScopeTag → Prop
  | .multiPath _ | .matchExpr _ => False
  | _ => True

namespace Scope

@[simp] theorem outline_permits (s : Scope) : s.outline.permits = s.permits := rfl

@[simp] theorem outline_exits (s : Scope) : s.outline.exits = s.exits := rfl

@[simp] theorem outline_tag (s : Scope) : s.outline.tag = s.tag.outline := rfl

@[simp] theorem frame_outline (s : Scope) : s.outline.frame = s.frame := by
  simp only [frame, outline_tag, ScopeTag.kind_outline]
  rfl

theorem kind_of_frame_eq {s s' : Scope} (h : s'.frame = s.frame) : s'.tag.kind = s.tag.kind :=
  congrArg Frame.kind h

theorem permits_of_frame_eq {s s' : Scope} (h : s'.frame = s.frame) : s'.permits = s.permits :=
  congrArg Frame.permits h

/-- Exits are handed on as the outline tells. -/
theorem outline_handedOn? (s : Scope) : s.outline.handedOn? = s.handedOn? := by
  unfold handedOn?
  rw [outline_tag]
  cases s.tag <;> rfl

/-- Exits are received as the outline tells. -/
theorem outline_receive (s : Scope) (exits : Exits) :
    (s.receive exits).outline = s.outline.receive exits := by
  unfold receive
  rw [outline_tag]
  cases h : s.tag <;> simp only [ScopeTag.outline, outline, h]

/-- Where exits come in sequence, received exits are added. -/
theorem receive_of_isSequential {s : Scope} (h : s.tag.IsSequential) (exits : Exits) :
    s.receive exits = { s with exits := s.exits.union exits } := by
  unfold receive
  cases ht : s.tag <;> simp_all [ScopeTag.IsSequential]

/-- A binding does not show in the outline of its scope. -/
theorem outline_declare {s s' : Scope} {binding : Variable} (h : s.declare binding = .ok s') :
    s'.outline = s.outline := by
  unfold declare at h
  split at h
  · cases h
  · cases h
    rfl

/-- A scope stays of its kind when it receives exits. -/
theorem kind_receive (s : Scope) (exits : Exits) : (s.receive exits).tag.kind = s.tag.kind := by
  unfold receive
  split <;> simp_all [ScopeTag.kind]

theorem permits_receive (s : Scope) (exits : Exits) :
    (s.receive exits).permits = s.permits := by
  unfold receive
  split <;> rfl

theorem parent_receive (s : Scope) (exits : Exits) : (s.receive exits).parent = s.parent := by
  unfold receive
  split <;> rfl

/-- A scope keeps its frame when it receives exits. -/
theorem frame_receive (s : Scope) (exits : Exits) : (s.receive exits).frame = s.frame := by
  simp only [frame, kind_receive, permits_receive, parent_receive]

theorem bindings_receive (s : Scope) (exits : Exits) :
    (s.receive exits).bindings = s.bindings := by
  unfold receive
  split <;> rfl

/-- A new binding takes no other one's place. -/
theorem get?_declare {s s' : Scope} {binding : Variable} (h : s.declare binding = .ok s')
    {name : String} {v : Variable} (hv : s.bindings.get? name = some v) :
    s'.bindings.get? name = some v := by
  unfold declare at h
  split at h
  · cases h
  · next hnone =>
    cases h
    simp only [Table.get?_insert]
    split
    · next heq =>
      subst heq
      rw [hnone] at hv
      cases hv
    · exact hv

end Scope

/-- The variable without what reading it records. -/
def Variable.unread (v : Variable) : Variable := { v with isUsed := false }

/-- The variable without what reading and assigning it record. -/
def Variable.settled (v : Variable) : Variable := { v with isUsed := false, isInit := false }

theorem Variable.settled_of_unread_eq {v w : Variable} (h : w.unread = v.unread) :
    w.settled = v.settled :=
  congrArg (fun u : Variable => { u with isInit := false }) h

/-- The scope without what reading its variables records. -/
def Scope.unread (s : Scope) : Scope :=
  { s with bindings := ⟨s.bindings.entries.map fun e => (e.1, e.2.unread)⟩ }

theorem Scope.get?_unread (s : Scope) (name : String) :
    s.unread.bindings.get? name = (s.bindings.get? name).map Variable.unread := by
  have hlookup (l : List (String × Variable)) :
      (l.map fun e => (e.1, e.2.unread)).lookup name = (l.lookup name).map Variable.unread := by
    induction l with
    | nil => rfl
    | cons e rest ih =>
      obtain ⟨key, v⟩ := e
      simp only [List.map_cons, List.lookup_cons, ih]
      cases name == key <;> rfl
  exact hlookup s.bindings.entries

theorem Scope.unread_modify (s : Scope) (name : String) {f : Variable → Variable}
    (h : ∀ v, (f v).unread = v.unread) :
    { s with bindings := s.bindings.modify name f : Scope }.unread = s.unread := by
  have hentries (l : List (String × Variable)) :
      (Table.modifyEntries name f l).map (fun e => (e.1, e.2.unread)) =
        l.map fun e => (e.1, e.2.unread) := by
    induction l with
    | nil => rfl
    | cons e rest ih =>
      simp only [Table.modifyEntries]
      split
      · simp [h]
      · simp [ih]
  simp only [unread, Table.modify, hentries]

namespace ScopeStack

/-- The stack without its bindings. -/
def outline (s : ScopeStack) : ScopeStack := ⟨s.root.outline, s.inner.map Scope.outline⟩

@[simp] theorem outline_current (s : ScopeStack) : s.outline.current = s.current.outline := by
  unfold current outline
  cases s.inner <;> rfl

@[simp] theorem outline_isRoot (s : ScopeStack) : s.outline.isRoot = s.isRoot := by
  simp [isRoot, outline]

/-! ## Changes of one scope -/

/-- A change of the innermost scope that outlines follow. -/
theorem outline_modifyCurrent (s : ScopeStack) {f g : Scope → Scope}
    (h : ∀ scope, (f scope).outline = g scope.outline) :
    (s.modifyCurrent f).outline = s.outline.modifyCurrent g := by
  unfold modifyCurrent outline
  cases s.inner <;> simp [h]

/-- A change of one scope that its outline does not show. -/
theorem outline_modifyAt (s : ScopeStack) (position : Nat) {f : Scope → Scope}
    (h : ∀ scope, (f scope).outline = scope.outline) :
    (s.modifyAt position f).outline = s.outline := by
  have hlist : ∀ (l : List Scope) (i : Nat),
      (l.modify i f).map Scope.outline = l.map Scope.outline := by
    intro l
    induction l with
    | nil => simp
    | cons scope rest ih => intro i; cases i <;> simp [h, ih]
  unfold modifyAt outline
  split_ifs <;> simp [h, hlist]

@[simp] theorem outline_modifyVariable (s : ScopeStack) (position : Nat) (name : String)
    (f : Variable → Variable) : (s.modifyVariable position name f).outline = s.outline :=
  outline_modifyAt s position fun _ => rfl

/-! ## Variables -/

theorem outline_declare {s s' : ScopeStack} {binding : Variable}
    (h : s.declare binding = .ok s') : s'.outline = s.outline := by
  unfold declare at h
  cases hd : s.current.declare binding with
  | error e => simp [hd, Except.map] at h
  | ok scope =>
    have hscope := Scope.outline_declare hd
    simp only [hd, Except.map, Except.ok.injEq] at h
    subst h
    unfold current at hscope
    unfold modifyCurrent outline
    cases hi : s.inner <;> simp_all

theorem outline_declareRoot {s s' : ScopeStack} {binding : Variable}
    (h : s.declareRoot binding = .ok s') : s'.outline = s.outline := by
  unfold declareRoot at h
  cases hd : s.root.declare binding with
  | error e => simp [hd, Except.map] at h
  | ok scope =>
    simp only [hd, Except.map, Except.ok.injEq] at h
    subst h
    simp [outline, Scope.outline_declare hd]

theorem outline_assign {s s' : ScopeStack} {position : Nat} {name : String} {value : Option Value}
    (h : s.assign position name value = .ok s') : s'.outline = s.outline := by
  unfold assign at h
  split at h
  · cases h
  · split at h
    · cases h
    · cases h
      exact outline_modifyVariable s position name _

/-! ## Opening and closing -/

/-- A scope is entered in the outline as in the stack. -/
theorem outline_enter (s : ScopeStack) (tag : ScopeTag) (permits : Permissions) :
    (s.enter tag permits).outline = s.outline.enter tag.outline permits := by
  simp [enter, outline, currentPosition, Scope.outline]

@[simp] theorem outline_push (s : ScopeStack) (tag : ScopeTag) (added : Permissions) :
    (s.push tag added).outline = s.outline.push tag.outline added := by
  rw [push, push, outline_enter, outline_current, Scope.outline_permits]

@[simp] theorem outline_pushRestricted (s : ScopeStack) (tag : ScopeTag) (removed : Permissions) :
    (s.pushRestricted tag removed).outline = s.outline.pushRestricted tag.outline removed := by
  rw [pushRestricted, pushRestricted, outline_enter, outline_current, Scope.outline_permits]

@[simp] theorem outline_pushFunction (s : ScopeStack) (tag : FuncTag) :
    (s.pushFunction tag).outline = s.outline.pushFunction tag := by
  rw [pushFunction, pushFunction, outline_enter, outline_current, Scope.outline_permits]
  rfl

theorem outline_reportExits (s : ScopeStack) (exits : Exits) :
    (s.reportExits exits).outline = s.outline.reportExits exits :=
  outline_modifyCurrent s fun scope => scope.outline_receive exits

theorem outline_markExit (s : ScopeStack) (kind : Exits) :
    (s.markExit kind).outline = s.outline.markExit kind :=
  outline_modifyCurrent s fun _ => rfl

/-- Closing a scope closes its outline. -/
theorem outline_close? (s : ScopeStack) :
    s.outline.close? = s.close?.map fun r => (r.1.outline, r.2.outline) := by
  obtain ⟨root, inner⟩ := s
  cases inner with
  | nil => rfl
  | cons scope rest =>
    have hreport := fun exits => outline_reportExits ⟨root, rest⟩ exits
    unfold close?
    simp only [outline, List.map_cons, Scope.outline_handedOn?] at hreport ⊢
    cases scope.handedOn? with
    | none => rfl
    | some exits => simp [← hreport]

/-- The stack with one more scope inside. -/
def cons (s : ScopeStack) (scope : Scope) : ScopeStack := { s with inner := scope :: s.inner }

/-- The stack after a scope on top of it was closed. -/
def afterClosing (s : ScopeStack) (scope : Scope) : ScopeStack :=
  match scope.handedOn? with
  | some exits => s.reportExits exits
  | none => s

@[simp] theorem current_cons (s : ScopeStack) (scope : Scope) : (s.cons scope).current = scope :=
  rfl

/-- The scope of a function body on top of the stack. -/
def funcScope (s : ScopeStack) (tag : FuncTag) : Scope :=
  { tag := .func tag, permits := { returns := true, selfRef := s.current.permits.selfRef },
    parent := some s.currentPosition }

/-- A scope on top of the stack that permits more than the one around it. -/
def pushedScope (s : ScopeStack) (tag : ScopeTag) (added : Permissions) : Scope :=
  { tag := tag, permits := s.current.permits.union added, parent := some s.currentPosition }

@[simp] theorem pushedScope_empty (s : ScopeStack) (tag : ScopeTag) :
    s.pushedScope tag .empty =
      { tag := tag, permits := s.current.permits, parent := some s.currentPosition } := by
  simp [pushedScope, Permissions.union, Permissions.empty]

/-- A scope on top of the stack that permits less than the one around it. -/
def restrictedScope (s : ScopeStack) (tag : ScopeTag) (removed : Permissions) : Scope :=
  { tag := tag, permits := s.current.permits.diff removed, parent := some s.currentPosition }

/-- A stack whose outline has a scope on top can be closed. -/
theorem close?_of_outline_eq_cons {s o : ScopeStack} {top : Scope} (h : s.outline = o.cons top) :
    ∃ scope below, s.close? = some (scope, below) ∧ scope.outline = top ∧
      below.outline = o.afterClosing top := by
  have hclose : (o.cons top).close? = some (top, o.afterClosing top) := by
    simp only [close?, afterClosing, cons]
    cases top.handedOn? <;> rfl
  have hmap := outline_close? s
  rw [h, hclose] at hmap
  obtain ⟨⟨scope, below⟩, hs, heq⟩ := Option.map_eq_some_iff.1 hmap.symm
  simp only [Prod.mk.injEq] at heq
  exact ⟨scope, below, hs, heq⟩

/-! ## The root scope -/

/-- Every variable of the root scope is still there as it was declared. -/
def KeepsRoot (s s' : ScopeStack) : Prop :=
  ∀ name v, s.root.bindings.get? name = some v →
    ∃ v', s'.root.bindings.get? name = some v' ∧ v'.settled = v.settled

theorem KeepsRoot.of_bindings_eq {s s' : ScopeStack} (h : s'.root.bindings = s.root.bindings) :
    s.KeepsRoot s' :=
  fun _ v hv => ⟨v, by rw [h, hv], rfl⟩

theorem KeepsRoot.trans {s t u : ScopeStack} (h : s.KeepsRoot t) (h' : t.KeepsRoot u) :
    s.KeepsRoot u := by
  intro name v hv
  obtain ⟨v', hv', hs⟩ := h name v hv
  obtain ⟨v'', hv'', hs'⟩ := h' name v' hv'
  exact ⟨v'', hv'', hs'.trans hs⟩

/-- A function body is opened on top of the stack. -/
theorem pushFunction_opens (s : ScopeStack) (tag : FuncTag) :
    (s.pushFunction tag).outline = s.outline.cons (s.outline.funcScope tag) ∧
      (s.pushFunction tag).root.bindings = s.root.bindings :=
  ⟨outline_pushFunction s tag, rfl⟩

/-- A scope that permits more is opened on top of the stack. -/
theorem push_opens (s : ScopeStack) (tag : ScopeTag) (added : Permissions) :
    (s.push tag added).outline = s.outline.cons (s.outline.pushedScope tag.outline added) ∧
      (s.push tag added).root.bindings = s.root.bindings :=
  ⟨outline_push s tag added, rfl⟩

/-- A scope that permits less is opened on top of the stack. -/
theorem pushRestricted_opens (s : ScopeStack) (tag : ScopeTag) (removed : Permissions) :
    (s.pushRestricted tag removed).outline =
        s.outline.cons (s.outline.restrictedScope tag.outline removed) ∧
      (s.pushRestricted tag removed).root.bindings = s.root.bindings :=
  ⟨outline_pushRestricted s tag removed, rfl⟩

/-- A change of the innermost scope that keeps its bindings. -/
theorem rootBindings_modifyCurrent (s : ScopeStack) {f : Scope → Scope}
    (h : ∀ scope, (f scope).bindings = scope.bindings) :
    (s.modifyCurrent f).root.bindings = s.root.bindings := by
  unfold modifyCurrent
  split <;> simp [h]

/-- A change of one scope that keeps its bindings. -/
theorem rootBindings_modifyAt (s : ScopeStack) (position : Nat) {f : Scope → Scope}
    (h : ∀ scope, (f scope).bindings = scope.bindings) :
    (s.modifyAt position f).root.bindings = s.root.bindings := by
  unfold modifyAt
  split_ifs <;> simp [h]

/-- A variable that is read or assigned stays as it was declared. -/
theorem keepsRoot_modifyVariable (s : ScopeStack) (position : Nat) (name : String)
    {f : Variable → Variable} (h : ∀ v, (f v).settled = v.settled) :
    s.KeepsRoot (s.modifyVariable position name f) := by
  unfold modifyVariable modifyAt
  split_ifs
  · intro other v hv
    simp only [Table.get?_modify]
    split
    · exact ⟨f v, by simp [hv], h v⟩
    · exact ⟨v, hv, rfl⟩
  · exact .of_bindings_eq rfl
  · exact .of_bindings_eq rfl

/-- The stack without what reading variables records. -/
def unread (s : ScopeStack) : ScopeStack := ⟨s.root.unread, s.inner.map Scope.unread⟩

/-- A change of one scope that does not show. -/
theorem unread_modifyAt (s : ScopeStack) (position : Nat) {f : Scope → Scope}
    (h : ∀ scope, (f scope).unread = scope.unread) :
    (s.modifyAt position f).unread = s.unread := by
  have hlist (l : List Scope) (i : Nat) : (l.modify i f).map Scope.unread = l.map Scope.unread := by
    induction l generalizing i with
    | nil => simp
    | cons scope rest ih => cases i <;> simp [h, ih]
  unfold modifyAt unread
  split_ifs <;> simp [h, hlist]

theorem unread_modifyVariable (s : ScopeStack) (position : Nat) (name : String)
    {f : Variable → Variable} (h : ∀ v, (f v).unread = v.unread) :
    (s.modifyVariable position name f).unread = s.unread :=
  unread_modifyAt s position fun scope => scope.unread_modify name h

theorem keepsRoot_of_unread_eq {s s' : ScopeStack} (h : s'.unread = s.unread) :
    s.KeepsRoot s' := by
  intro name v hv
  have hroot : s'.root.unread = s.root.unread := congrArg root h
  have hget : (s'.root.bindings.get? name).map Variable.unread = some v.unread := by
    rw [← Scope.get?_unread, hroot, Scope.get?_unread, hv]
    rfl
  obtain ⟨v', hv', hunread⟩ := Option.map_eq_some_iff.1 hget
  exact ⟨v', hv', Variable.settled_of_unread_eq hunread⟩

theorem rootBindings_reportExits (s : ScopeStack) (exits : Exits) :
    (s.reportExits exits).root.bindings = s.root.bindings :=
  s.rootBindings_modifyCurrent fun scope => Scope.bindings_receive scope exits

theorem rootBindings_close? {s below : ScopeStack} {scope : Scope}
    (h : s.close? = some (scope, below)) : below.root.bindings = s.root.bindings := by
  unfold close? at h
  split at h
  · cases h
  · dsimp only at h
    split at h
    · cases h
      exact rootBindings_reportExits _ _
    · cases h
      rfl

theorem keepsRoot_declareRoot {s s' : ScopeStack} {binding : Variable}
    (h : s.declareRoot binding = .ok s') : s.KeepsRoot s' := by
  unfold declareRoot at h
  cases hd : s.root.declare binding with
  | error e => simp [hd, Except.map] at h
  | ok scope =>
    simp only [hd, Except.map, Except.ok.injEq] at h
    subst h
    exact fun _ v hv => ⟨v, Scope.get?_declare hd hv, rfl⟩

theorem keepsRoot_declare {s s' : ScopeStack} {binding : Variable}
    (h : s.declare binding = .ok s') : s.KeepsRoot s' := by
  unfold declare at h
  cases hd : s.current.declare binding with
  | error e => simp [hd, Except.map] at h
  | ok scope =>
    simp only [hd, Except.map, Except.ok.injEq] at h
    subst h
    unfold current at hd
    unfold modifyCurrent
    split at hd
    · next hi =>
      simp only [hi]
      exact fun _ v hv => ⟨v, Scope.get?_declare hd hv, rfl⟩
    · exact .of_bindings_eq rfl

theorem keepsRoot_assign {s s' : ScopeStack} {position : Nat} {name : String}
    (h : s.assign position name none = .ok s') : s.KeepsRoot s' := by
  unfold assign at h
  split at h
  · cases h
  · split at h
    · cases h
    · cases h
      exact keepsRoot_modifyVariable s position name fun _ => rfl

/-! ## Exits in sequence -/

/-- Add exits to the innermost scope. -/
def addExits (s : ScopeStack) (exits : Exits) : ScopeStack :=
  s.modifyCurrent fun scope => { scope with exits := scope.exits.union exits }

/-- An exit statement adds its exits. -/
theorem markExit_eq_addExits (s : ScopeStack) (kind : Exits) :
    s.markExit kind = s.addExits (.leaving kind) := rfl

@[simp] theorem current_modifyCurrent (s : ScopeStack) (f : Scope → Scope) :
    (s.modifyCurrent f).current = f s.current := by
  unfold modifyCurrent current
  cases s.inner <;> rfl

/-- Two changes of the innermost scope are one. -/
theorem modifyCurrent_modifyCurrent (s : ScopeStack) (f g : Scope → Scope) :
    (s.modifyCurrent f).modifyCurrent g = s.modifyCurrent (g ∘ f) := by
  unfold modifyCurrent
  cases s.inner <;> rfl

/-- A change of the innermost scope that leaves it as it is. -/
theorem modifyCurrent_eq_self {s : ScopeStack} {f : Scope → Scope} (h : f s.current = s.current) :
    s.modifyCurrent f = s := by
  obtain ⟨root, inner⟩ := s
  unfold current at h
  unfold modifyCurrent
  cases inner <;> simp_all

/-- Where exits come in sequence, reported exits are added. -/
theorem reportExits_of_isSequential {s : ScopeStack} (h : s.current.tag.IsSequential)
    (exits : Exits) : s.reportExits exits = s.addExits exits := by
  obtain ⟨root, inner⟩ := s
  unfold current at h
  unfold reportExits addExits modifyCurrent
  cases inner <;> simp_all [Scope.receive_of_isSequential]

end ScopeStack

namespace Exits

@[simp] theorem union_empty (e : Exits) : e.union {} = e := by
  simp [union]

@[simp] theorem empty_union (e : Exits) : Exits.union {} e = e := by
  simp [union]

theorem union_assoc (a b c : Exits) : (a.union b).union c = a.union (b.union c) := by
  simp [union, Bool.or_assoc]

@[simp] theorem always_union (a b : Exits) : (a.union b).always = (a.always || b.always) := rfl

end Exits

namespace ScopeStack

@[simp] theorem addExits_empty (s : ScopeStack) : s.addExits {} = s :=
  modifyCurrent_eq_self (by simp)

/-- Exits that are added one after the other. -/
theorem addExits_addExits (s : ScopeStack) (a b : Exits) :
    (s.addExits a).addExits b = s.addExits (a.union b) := by
  unfold addExits
  rw [modifyCurrent_modifyCurrent]
  congr 1
  funext scope
  simp [Exits.union_assoc]

@[simp] theorem current_addExits (s : ScopeStack) (exits : Exits) :
    (s.addExits exits).current = { s.current with exits := s.current.exits.union exits } :=
  current_modifyCurrent s _

end ScopeStack

end HybroidSema
