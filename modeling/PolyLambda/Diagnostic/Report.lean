import PolyLambda.Diagnostic

/-!
# Reports

A report shows a diagnostic against its source: the line and column, the message
with its code, the line of the source and a row of carets below the characters
meant.  A diagnostic that points outside the source is reported by its message
alone.
-/

namespace PolyLambda

/-- A position of a source in lines and columns. -/
structure Location where
  line : Nat
  column : Nat
  /-- Whether the position lies in the source or just past its end. -/
  inside : Bool
  deriving DecidableEq, Repr, Inhabited

/-- Where a position lies in a source.  Position zero is nowhere, and a position
outside the source is located at its end. -/
def locate (source : Text) (pos : Int) : Location :=
  let cs := source.chars
  if pos = 0 then ⟨0, 0, false⟩
  else if 1 ≤ pos ∧ pos ≤ cs.length + 1 then
    let p := Place.start.after (cs.take (pos - 1).toNat)
    ⟨p.line, p.column, true⟩
  else
    let p := Place.start.after cs
    ⟨p.line, p.column, false⟩

namespace Diagnostic

/-- The number of carets below a range that starts at `start`: its characters when it
ends later on the same line, otherwise one. -/
def caretCount (start stop : Location) : Nat :=
  if stop.inside ∧ stop.line = start.line ∧ start.column < stop.column then
    stop.column - start.column
  else 1

/-- A diagnostic against its source, with the frame of a trace as in `short`. -/
def report (trace? : Option Text) (source : Text) (d : Diagnostic) : Text :=
  let start := locate source d.range.start
  if start.inside then
    let stop := locate source d.range.stop
    let line := source.lines.getD (start.line - 1) []
    Text.ofNat start.line ++ ":" ++ Text.ofNat start.column ++ ": " ++ d.short trace?
      ++ "\n    " ++ line
      ++ "\n    " ++ Text.repeated (start.column - 1) ' '
      ++ Text.repeated (caretCount start stop) '^'
  else d.short trace?

/-- Everything that is said about a diagnostic against a source. -/
structure Account where
  message : Text
  code : Nat
  range : Range
  short : Text
  report : Text
  deriving DecidableEq, Repr, Inhabited

/-- The account of a diagnostic that can be written and located. -/
def account? (source : Text) (d : Diagnostic) : Option Account :=
  if d.isWritable && d.isLocatable then
    some ⟨d.message, d.code, d.range, d.short none, d.report none source⟩
  else none

end Diagnostic

end PolyLambda
