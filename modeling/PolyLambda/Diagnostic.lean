import PolyLambda.ParseError
import PolyLambda.Text.Space
import PolyLambda.Typing

/-!
# Diagnostics

What is reported about a source: a parse error, a type error, or an error of another
origin.  Each has a code, a message and a range.

A diagnostic may speak of a term.  If that term is a gap there is nothing to describe
or to point at (`isWritable`, `isLocatable`); errors of the checker never speak of
gaps.

A **trace** is the record of the calls that were open when a diagnostic was raised.  One
of its lines is the **frame**, the place in the checker where that happened.
-/

namespace PolyLambda

/-- Something to report about a source. -/
inductive Diagnostic where
  /-- The source is not a term or a type. -/
  | parse (message : Text) (line column : Int) (range : Range)
  /-- A variable has no assignment. -/
  | undefined (name : Text) (range : Range)
  /-- A term does not have the type it needs. -/
  | mismatch (term : Term) (expected got : Ty)
  /-- A term of another form is needed. -/
  | unexpected (expected : Text) (got : Term)
  /-- An error of another origin: its cause, and the explanations put before it one
  after another. -/
  | unclassified (cause : Text) (context : List Text) (range : Range)
  deriving DecidableEq, Repr, Inhabited

namespace Diagnostic

/-- The number of a kind of diagnostic. -/
def code : Diagnostic → Nat
  | unclassified .. => 0
  | parse .. => 1
  | undefined .. => 2
  | mismatch .. => 3
  | unexpected .. => 4

/-- The message of a diagnostic. -/
def message : Diagnostic → Text
  | parse m .. => m
  | undefined x _ => "variable '" ++ x ++ "' is not defined"
  | mismatch t expected got =>
    "type mismatch: expected term '" ++ t.render ++ "' to have type '" ++ expected.render
      ++ "', but it has type '" ++ got.render ++ "'"
  | unexpected expected t =>
    "expected " ++ expected ++ ", but got " ++ (t.describe?.getD "gap") ++ " '" ++ t.render ++ "'"
  | unclassified cause context _ =>
    "unclassified error: " ++ context.foldl (fun (m c : Text) => c ++ ": " ++ m) cause

/-- The range a diagnostic points at. -/
def range : Diagnostic → Range
  | parse _ _ _ r | undefined _ r | unclassified _ _ r => r
  | mismatch t _ _ | unexpected _ t => t.range

/-- Whether the term that the message describes is there. -/
def isWritable : Diagnostic → Bool
  | unexpected _ .gap => false
  | _ => true

/-- Whether the term that the diagnostic points at is there. -/
def isLocatable : Diagnostic → Bool
  | unexpected _ .gap | mismatch .gap _ _ => false
  | _ => true

/-- The number of lines of a trace before its frame. -/
def linesBeforeFrame : Nat := 6

/-- The frame of a trace, if the trace goes that far. -/
def frame? (trace : Text) : Option Text := trace.lines[linesBeforeFrame]?.map Text.trim

/-- The message with its code.  The frame of a trace stands in front, if a trace is given
and has one. -/
def short (trace? : Option Text) (d : Diagnostic) : Text :=
  let located : Text := match trace?.bind frame? with
    | some frame => frame ++ ":"
    | none => []
  located ++ "(E00" ++ Text.ofNat d.code ++ ") " ++ d.message

end Diagnostic

/-- The diagnostic of a parse error. -/
def ParseError.diagnostic (e : ParseError) : Diagnostic :=
  .parse e.message e.line e.column e.range

/-- The diagnostic of a type error; a gap is not reported against a source. -/
def TypeError.diagnostic? : TypeError → Option Diagnostic
  | undefined r x => some (.undefined x r)
  | mismatch arg expected got => some (.mismatch arg expected got)
  | notAbstraction t => some (.unexpected "abstraction" t)
  | notTypeAbstraction t => some (.unexpected "type abstraction" t)
  | gap => none

end PolyLambda
