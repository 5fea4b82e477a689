import PolyLambda.Text

/-!
# Ranges

A range marks a stretch of a source.  Positions count characters from one, the end
is excluded, and position zero means that there is no place in a source.
-/

namespace PolyLambda

/-- A stretch of a source, from `start` up to but not including `stop`. -/
structure Range where
  start : Int
  stop : Int
  deriving DecidableEq, Repr, Inhabited

namespace Range

/-- The range of what was not read from a source. -/
def nowhere : Range := ⟨0, 0⟩

/-- From the start of one range to the end of another. -/
def between (first last : Range) : Range := ⟨first.start, last.stop⟩

/-- Whether a range points into some source. -/
def isValid (r : Range) : Bool := decide (r.start ≠ 0)

/-- A range in numbers: one number when both ends are equal. -/
def render (r : Range) : Text :=
  if r.start = r.stop then Text.ofInt r.start
  else Text.ofInt r.start ++ "-" ++ Text.ofInt r.stop

end Range

end PolyLambda
