/-!
# Exits of a body

Every scope collects the exits that are certain on every path through its body so far. A body in
a straight line leaves as soon as one statement leaves. Alternative branches are combined by
`MultiPath`: an exit is certain only if every branch has it, and a branch that always leaves never
stands in the way of another one.
-/

namespace HybroidSema

/-- The exits that are certain on every path: by `return`, `yield`, `break`, `continue`, and
whether every path leaves in one way or another. -/
structure Exits where
  byReturn : Bool := false
  byYield : Bool := false
  byBreak : Bool := false
  byContinue : Bool := false
  always : Bool := false
deriving DecidableEq, Repr, Inhabited

namespace Exits

/-- No exit is certain. -/
def empty : Exits := {}

/-- Every exit at once. -/
def every : Exits := ⟨true, true, true, true, true⟩

/-- The exit by `return`. -/
def ofReturn : Exits := { byReturn := true }

/-- The exit by `yield`. -/
def ofYield : Exits := { byYield := true }

/-- The exit by `break`. -/
def ofBreak : Exits := { byBreak := true }

/-- The exit by `continue`. -/
def ofContinue : Exits := { byContinue := true }

/-- The exits of either of two statements in sequence. -/
def union (a b : Exits) : Exits :=
  ⟨a.byReturn || b.byReturn, a.byYield || b.byYield, a.byBreak || b.byBreak,
    a.byContinue || b.byContinue, a.always || b.always⟩

/-- The exits that two alternative branches share. -/
def inter (a b : Exits) : Exits :=
  ⟨a.byReturn && b.byReturn, a.byYield && b.byYield, a.byBreak && b.byBreak,
    a.byContinue && b.byContinue, a.always && b.always⟩

/-- The exits of an exit statement of a kind: that kind, and every path leaves. -/
def leaving (kind : Exits) : Exits := { kind with always := true }

/-- The exits that a branch does not deny: all of them if it always leaves. -/
def coverage (e : Exits) : Exits := if e.always then every else e

end Exits

/-- The exits of several alternative branches so far. -/
structure MultiPath where
  branches : Nat := 0
  shared : Option Exits := none
deriving DecidableEq, Repr, Inhabited

namespace MultiPath

/-- Add the exits of one finished branch. -/
def report (m : MultiPath) (branch : Exits) : MultiPath :=
  { branches := m.branches + 1
    shared := some (match m.shared with
      | some exits => exits.inter branch.coverage
      | none => branch.coverage) }

/-- The exits that every branch has. Without a branch there are none. -/
def finish (m : MultiPath) : Exits := m.shared.getD .empty

end MultiPath

end HybroidSema
