/-!
# How deep a pattern nests

The parts of a pattern nest: a sequence of two parts or more is one level above
its parts, branches between bars are one level above the branches, and so are the
operands of an operator in a class. A group, a repetition and a class in brackets
are one level above what they hold. All else is at the bottom.

What is read from the left keeps only the depth of its parts, so that a depth is
known as soon as the last part is.
-/

namespace LayeredCatalog.FieldPattern

/-- The parts of a sequence so far. -/
structure Sequence where
  /-- How many parts there are. -/
  size : Nat := 0
  deepest : Nat := 0
  /-- The depth of the last part, if there is one that can be repeated. -/
  last? : Option Nat := none

namespace Sequence

def push (s : Sequence) (depth : Nat) : Sequence :=
  ⟨s.size + 1, max s.deepest depth, some depth⟩

/-- Adds a part that cannot be repeated. -/
def pushFixed (s : Sequence) : Sequence := { s with size := s.size + 1, last? := none }

def repeatLast? (s : Sequence) : Option Sequence :=
  s.last?.map fun depth =>
    { s with deepest := max s.deepest (depth + 1), last? := some (depth + 1) }

/-- The depth of a sequence. One part alone is no sequence. -/
def depth (s : Sequence) : Nat := if s.size ≤ 1 then s.deepest else s.deepest + 1

end Sequence

/-- The branches between bars so far; the last one is still read. -/
structure Branches where
  /-- The depth of the deepest branch before the last, if there is one. -/
  before? : Option Nat := none
  last : Sequence := {}

namespace Branches

def bar (b : Branches) : Branches := { before? := some (max (b.before?.getD 0) b.last.depth) }

/-- The depth of the branches. One branch alone is its sequence. -/
def depth (b : Branches) : Nat :=
  match b.before? with
  | none => b.last.depth
  | some depth => max depth b.last.depth + 1

end Branches

/-- The operands of the operators in a class so far; the last one is still read. -/
structure Operands where
  /-- The depth of what the operators before the last operand make, if there are
  any. -/
  before? : Option Nat := none
  last : Sequence := {}

namespace Operands

/-- The depth of the operands. Operators of one class apply from the left, so that
each is one level above those before it. -/
def depth (o : Operands) : Nat :=
  match o.before? with
  | none => o.last.depth
  | some depth => max depth o.last.depth + 1

def operator (o : Operands) : Operands := { before? := some o.depth }

def push (o : Operands) (depth : Nat) : Operands := { o with last := o.last.push depth }

end Operands

/-- How deep a pattern may nest. -/
def nestingLimit : Nat := 250

end LayeredCatalog.FieldPattern
