import HybroidSema.Proofs.Outline
import HybroidSema.Tree
import Mathlib.Data.List.Forall2

/-!
# Statements that leave

Whether a statement leaves its body on every path can be read off the tree, given what is
permitted where it stands. The exits that the scopes collect during a walk reflect that answer.

* `Stmt.leaves` and `Stmt.bodyLeaves`: by recursion on the tree.
* `Stmt.reachable` and `Stmt.unreachable`: a body up to its first statement that leaves, and the
  rest.
* `Exits.Reflects`: exits that tell whether a body leaves, and by which exit.
* `MultiPath.finish_reportAll`: branches leave together if each of them leaves.
-/

namespace HybroidSema

namespace Stmt

mutual
/-- Whether a statement leaves its body on every path, if the exits in `p` are permitted. -/
def leaves (p : Permissions) (s : Stmt) : Bool :=
  match s with
  | .returning _ _ => p.returns
  | .yielding _ _ => p.yields
  | .breaking _ => p.breaks
  | .continuing _ => p.continues
  | .ifChain _ stmts elseifs otherwise _ =>
    bodyLeaves p stmts && elseIfsLeave p elseifs && elseLeaves p otherwise
  | .matching _ arms _ => arms.any (·.isDefault) && armsLeave p arms
  | _ => false
  termination_by structural s

/-- Whether one of the statements of a body leaves. -/
def bodyLeaves (p : Permissions) (stmts : List Stmt) : Bool :=
  match stmts with
  | [] => false
  | first :: rest => first.leaves p || bodyLeaves p rest
  termination_by structural stmts

/-- Whether every arm of a match leaves. -/
def armsLeave (p : Permissions) (arms : List MatchArm) : Bool :=
  match arms with
  | [] => true
  | ⟨_, _, stmts, _⟩ :: rest => bodyLeaves p stmts && armsLeave p rest
  termination_by structural arms

/-- Whether every `elseif` branch leaves. -/
def elseIfsLeave (p : Permissions) (branches : List ElseIf) : Bool :=
  match branches with
  | [] => true
  | ⟨_, stmts, _⟩ :: rest => bodyLeaves p stmts && elseIfsLeave p rest
  termination_by structural branches

/-- Whether there is an `else` branch, and it leaves. -/
def elseLeaves (p : Permissions) (otherwise : Option (List Stmt)) : Bool :=
  match otherwise with
  | none => false
  | some stmts => bodyLeaves p stmts
  termination_by structural otherwise
end

theorem armsLeave_eq_all (p : Permissions) (arms : List MatchArm) :
    armsLeave p arms = arms.all fun arm => bodyLeaves p arm.body := by
  induction arms with
  | nil => rfl
  | cons arm rest ih =>
    obtain ⟨_, _, stmts, _⟩ := arm
    simp [armsLeave, ih]

theorem elseIfsLeave_eq_all (p : Permissions) (branches : List ElseIf) :
    elseIfsLeave p branches = branches.all fun branch => bodyLeaves p branch.body := by
  induction branches with
  | nil => rfl
  | cons branch rest ih =>
    obtain ⟨_, stmts, _⟩ := branch
    simp [elseIfsLeave, ih]

/-- The statements up to the first one that leaves, which is included. -/
def reachable (p : Permissions) : List Stmt → List Stmt
  | [] => []
  | first :: rest => if first.leaves p then [first] else first :: reachable p rest

/-- The statements after the first one that leaves. -/
def unreachable (p : Permissions) : List Stmt → List Stmt
  | [] => []
  | first :: rest => if first.leaves p then rest else unreachable p rest

theorem reachable_append_unreachable (p : Permissions) (stmts : List Stmt) :
    reachable p stmts ++ unreachable p stmts = stmts := by
  induction stmts with
  | nil => rfl
  | cons first rest ih =>
    unfold reachable unreachable
    split
    · rfl
    · rw [List.cons_append, ih]

end Stmt

/-! ## Exits that reflect leaving -/

namespace Exits

/-- Exits of a body that leaves or not, where the exits in `p` are permitted. Where nothing but
`return` is permitted, a body leaves by `return`. -/
structure Reflects (p : Permissions) (leaves : Bool) (x : Exits) : Prop where
  always : x.always = leaves
  silent : leaves = false → x = {}
  byReturn : p.yields = false → p.breaks = false → p.continues = false → x.byReturn = leaves

variable {p : Permissions}

theorem Reflects.none : Reflects p false {} := ⟨rfl, fun _ => rfl, fun _ _ _ => rfl⟩

/-- A sequence leaves if one of its parts does. -/
theorem Reflects.union {l l' : Bool} {x x' : Exits} (h : Reflects p l x) (h' : Reflects p l' x') :
    Reflects p (l || l') (x.union x') := by
  refine ⟨by simp [h.always, h'.always], fun hl => ?_, fun hy hb hc => ?_⟩
  · rw [Bool.or_eq_false_iff] at hl
    rw [h.silent hl.1, h'.silent hl.2]
    rfl
  · simp [Exits.union, h.byReturn hy hb hc, h'.byReturn hy hb hc]

theorem Reflects.every : Reflects p true Exits.every := ⟨rfl, nofun, fun _ _ _ => rfl⟩

theorem reflects_ofReturn : Reflects p true (leaving ofReturn) :=
  ⟨rfl, nofun, fun _ _ _ => rfl⟩

/-- Where another exit than `return` is accepted, nothing is said about `return`. -/
theorem reflects_leaving (kind : Exits)
    (h : p.yields = true ∨ p.breaks = true ∨ p.continues = true) :
    Reflects p true (leaving kind) := by
  refine ⟨rfl, nofun, fun hy hb hc => ?_⟩
  simp [hy, hb, hc] at h

/-- The exits that a branch does not deny are all or none. -/
theorem Reflects.coverage {l : Bool} {x : Exits} (h : Reflects p l x) :
    x.coverage = if l then .every else {} := by
  cases l with
  | true => simp [Exits.coverage, h.always]
  | false => simp [h.silent rfl, Exits.coverage]

end Exits

/-! ## Alternative branches -/

namespace MultiPath

/-- The exits of several finished branches. -/
def reportAll (m : MultiPath) (branches : List Exits) : MultiPath := branches.foldl report m

/-- One more branch leaves all together only if it leaves. -/
theorem shared_report {p : Permissions} {m : MultiPath} {l l' : Bool} {x : Exits}
    (h : m.shared = some (if l then .every else {})) (hx : x.Reflects p l') :
    (m.report x).shared = some (if l && l' then .every else {}) := by
  simp only [report, h, hx.coverage]
  cases l <;> cases l' <;> rfl

theorem shared_reportAll {p : Permissions} {xs : List Exits} {ls : List Bool} {m : MultiPath}
    {l : Bool} (h : m.shared = some (if l then .every else {}))
    (hxs : List.Forall₂ (Exits.Reflects p) ls xs) :
    (m.reportAll xs).shared = some (if l && ls.all id then .every else {}) := by
  induction hxs generalizing m l with
  | nil => simpa [reportAll] using h
  | cons hx _ ih => simpa [reportAll, Bool.and_assoc] using ih (shared_report h hx)

/-- The exits of branches are all or none. -/
theorem finish_reportAll_eq {p : Permissions} {ls : List Bool} {xs : List Exits}
    (hxs : List.Forall₂ (Exits.Reflects p) ls xs) :
    (reportAll {} xs).finish = if !ls.isEmpty && ls.all id then .every else {} := by
  cases hxs with
  | nil => rfl
  | @cons l x ls xs hx hrest =>
    have hfirst : (report {} x).shared = some (if l then .every else {}) := by
      simp [report, hx.coverage]
    have hshared := shared_reportAll hfirst hrest
    simp only [reportAll, List.foldl_cons, finish] at hshared ⊢
    rw [hshared]
    simp

/-- Branches leave together if there are some and each of them leaves. -/
theorem finish_reportAll {p : Permissions} {ls : List Bool} {xs : List Exits}
    (hxs : List.Forall₂ (Exits.Reflects p) ls xs) :
    ((reportAll {} xs).finish).Reflects p (!ls.isEmpty && ls.all id) := by
  rw [finish_reportAll_eq hxs]
  cases !ls.isEmpty && ls.all id with
  | true => exact .every
  | false => exact .none

end MultiPath

end HybroidSema
