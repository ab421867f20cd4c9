/-!
# Operators

The binary, unary and assignment operators with their source spelling, and the groups that decide
how a binary operator is checked: arithmetic, concatenation, comparison, logical and bitwise.
-/

namespace HybroidSema

/-- The binary operators. -/
inductive BinaryOp where
  | add | sub | mul | div | floorDiv | mod | pow
  | concat
  | equal | notEqual | less | lessEqual | greater | greaterEqual
  | and | or
  | bitOr | bitAnd | bitXor | shiftLeft | shiftRight
deriving DecidableEq, Repr

namespace BinaryOp

/-- The source spelling. -/
def spelling : BinaryOp → String
  | add => "+"
  | sub => "-"
  | mul => "*"
  | div => "/"
  | floorDiv => "\\"
  | mod => "%"
  | pow => "^"
  | concat => ".."
  | equal => "=="
  | notEqual => "!="
  | less => "<"
  | lessEqual => "<="
  | greater => ">"
  | greaterEqual => ">="
  | and => "and"
  | or => "or"
  | bitOr => "|"
  | bitAnd => "&"
  | bitXor => "~"
  | shiftLeft => "<<"
  | shiftRight => ">>"

/-- Every binary operator. -/
def all : List BinaryOp :=
  [add, sub, mul, div, floorDiv, mod, pow, concat, equal, notEqual, less, lessEqual, greater,
    greaterEqual, and, or, bitOr, bitAnd, bitXor, shiftLeft, shiftRight]

/-- The operator with a spelling. -/
def ofSpelling? (text : String) : Option BinaryOp := all.find? (·.spelling == text)

/-- How the operands of an operator are checked. -/
inductive Group where
  | arithmetic
  | concatenation
  | comparison
  | logical
  | bitwise
deriving DecidableEq, Repr

/-- The group of an operator. -/
def group : BinaryOp → Group
  | add | sub | mul | div | floorDiv | mod | pow => .arithmetic
  | concat => .concatenation
  | equal | notEqual | less | lessEqual | greater | greaterEqual => .comparison
  | and | or => .logical
  | bitOr | bitAnd | bitXor | shiftLeft | shiftRight => .bitwise

end BinaryOp

/-- The unary operators: negation of a truth value, of a number, and the length. -/
inductive UnaryOp where
  | not
  | neg
  | len
deriving DecidableEq, Repr

namespace UnaryOp

/-- The source spelling. -/
def spelling : UnaryOp → String
  | not => "!"
  | neg => "-"
  | len => "#"

/-- The operator with a spelling. -/
def ofSpelling? (text : String) : Option UnaryOp := [not, neg, len].find? (·.spelling == text)

end UnaryOp

/-- The assignment operators: plain, or applying a binary operator first. -/
inductive AssignOp where
  | plain
  | compound (op : BinaryOp)
deriving DecidableEq, Repr

namespace AssignOp

/-- The source spelling. -/
def spelling : AssignOp → String
  | plain => "="
  | compound op => op.spelling ++ "="

/-- The operator with a spelling. -/
def ofSpelling? (text : String) : Option AssignOp :=
  (plain :: BinaryOp.all.map compound).find? (·.spelling == text)

end AssignOp

end HybroidSema
