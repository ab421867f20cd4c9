/-!
# Source positions

A `Span` is a run of source text anchored at its first character. Line 0 marks a node that was
never given a position, and such spans are absorbed when two spans are joined.

* `Span.extendTo` joins two spans, `Span.isBefore` orders them by line, column and length, and
  `Span.sortBy` sorts by that order.
* `Span.render` and `Span.renderFull` are the two texts of a span.
-/

namespace HybroidSema

/-- A location in a source file: line and column count from 1, `len` counts bytes. -/
structure Span where
  line : Nat
  col : Nat
  len : Nat
deriving DecidableEq, Repr, Inhabited

namespace Span

/-- The span of a node that was never given a position. -/
def synthetic : Span := ⟨0, 0, 0⟩

/-- Whether the span covers no source text. -/
def isEmpty (s : Span) : Bool := s.len == 0

/-- Whether the span was never given a position. -/
def isSynthetic (s : Span) : Bool := s.line == 0

/-- The span from the start of `s` to the end of `stop`. A synthetic span is absorbed by the other
one. Spans on different lines keep the start of `s` and add the lengths. -/
def extendTo (s stop : Span) : Span :=
  if stop.isSynthetic then s
  else if s.isSynthetic then stop
  else if s.line = stop.line then
    let first := min s.col stop.col
    let last := max (stop.col + stop.len) (s.col + s.len)
    ⟨s.line, first, last - first⟩
  else ⟨s.line, s.col, s.len + stop.len⟩

/-- The strict order of spans: by line, then column, then length. -/
def isBefore (a b : Span) : Bool :=
  a.line < b.line ||
    (a.line == b.line && (a.col < b.col || (a.col == b.col && a.len < b.len)))

/-- Insert an item before the first one that does not lie before it. -/
def insertBy {α : Type} (key : α → Span) (x : α) : List α → List α
  | [] => [x]
  | y :: rest => if (key y).isBefore (key x) then y :: insertBy key x rest else x :: y :: rest

/-- Sort items by their spans. Items with the same span keep their order. -/
def sortBy {α : Type} (key : α → Span) : List α → List α
  | [] => []
  | x :: rest => insertBy key x (sortBy key rest)

theorem perm_insertBy {α : Type} (key : α → Span) (x : α) (l : List α) :
    (insertBy key x l).Perm (x :: l) := by
  induction l with
  | nil => exact .refl _
  | cons y rest ih =>
    unfold insertBy
    split
    · exact (ih.cons y).trans (.swap x y rest)
    · exact .refl _

theorem perm_sortBy {α : Type} (key : α → Span) (l : List α) : (sortBy key l).Perm l := by
  induction l with
  | nil => exact .refl _
  | cons x rest ih => exact (perm_insertBy key x _).trans (ih.cons x)

/-- Line and column, as alerts print them. -/
def render (s : Span) : String := toString s.line ++ ":" ++ toString s.col

/-- Line, column and length. -/
def renderFull (s : Span) : String := s.render ++ "+" ++ toString s.len

@[simp] theorem extendTo_synthetic (s : Span) : s.extendTo synthetic = s := by
  simp [extendTo, synthetic, isSynthetic]

end Span

end HybroidSema
