import PolyLambda.CommandLine.Directory
import PolyLambda.CommandLine.Request
import PolyLambda.Printed
import PolyLambda.Session

/-!
# Outcomes of commands

What checking a source and replacing a type variable print on a command line, and the
error they end with, if any.  The error is printed too.
-/

namespace PolyLambda
namespace CommandLine

/-- What a command prints and the error it ends with. -/
structure Outcome where
  printed : Printed
  error? : Option Text
  deriving DecidableEq, Repr, Inhabited

namespace Outcome

/-- A command that prints and ends well. -/
def success (p : Printed) : Outcome := ⟨p, none⟩

/-- A command that ends with an error, after what it has printed. -/
def failure (p : Printed) (message : Text) : Outcome :=
  ⟨p ++ .note ("Error: " ++ message ++ "\n"), some message⟩

end Outcome

/-! ## Checking -/

/-- Where a source comes from. -/
inductive Source where
  | given (source : Text)
  | input
  | file (path : Text)
  deriving DecidableEq, Repr, Inhabited

/-- Why it is not clear where a source comes from. -/
inductive SourceError where
  | neither
  | both
  deriving DecidableEq, Repr, Inhabited

/-- The wording of an error. -/
def SourceError.message : SourceError → Text
  | neither => "expected an expression argument or --file"
  | both => "cannot check both an expression argument and --file"

/-- The source to check: the word given or else the file. -/
def Options.source (o : Options) (expression? : Option Text) : Except SourceError Source :=
  match expression?, o.file with
  | some expression, [] => .ok (.given expression)
  | none, [] => .error .neither
  | some _, _ => .error .both
  | none, [.char '-'] => .ok .input
  | none, path => .ok (.file path)

/-- What is told of a file that cannot be read. -/
def unreadable (path : Text) (e : FileError) : Text :=
  "could not read " ++ path ++ ": " ++ e.message path

/-- The name of the form of a term in a dump. -/
def formName : Term → String
  | .int .. => "Int"
  | .var .. => "Var"
  | .app .. => "App"
  | .abs .. => "Abs"
  | .tabs .. => "UniversalAbs"
  | .tapp .. => "UniversalApp"
  | .gap => "nil"

/-- The dump of a term: its form and its range, with the place of an address. -/
def dumped (t : Term) : Text :=
  "(*ast." ++ Text.ofString (formName t) ++ ")(0xADDR)(" ++ t.range.render ++ ")\n"

/-- The event of having read an expression. -/
def expressionEvent (c : Calculus) (t : Term) : Log.Event :=
  ⟨.ofSection "cli", Log.debug, "parsed expression",
    [⟨"term", .term t⟩, ⟨"calculus", .text c.name⟩]⟩

/-- The trace of each diagnostic, if one is kept. -/
abbrev Traces := Diagnostic → Option Text

/-- The report of a failure on a line of its own. -/
def Options.reported (o : Options) (traces : Traces) (source : Text) : Failure → Text
  | .diagnostic d => "\n" ++ d.report (if o.traced then traces d else none) source
  | .gap => []

/-- Checks a source and prints the term with its type. -/
def checkSource (o : Options) (traces : Traces) (source : Text) : Outcome :=
  let log (events : List Log.Event) : Printed := .note (Log.writeAll o.settings events)
  match readTerm o.calculus source with
  | .error e =>
    .failure .nothing ("syntax errors found:" ++ o.reported traces source (.diagnostic e.diagnostic))
  | .ok t =>
    let before := log [parsedEvent t, expressionEvent o.calculus t] ++
      (if o.dump then .result (dumped t) else .nothing) ++ log (checkTermEvents .empty t)
    match checkTerm .empty t with
    | .error f => .failure before ("errors found while checking:" ++ o.reported traces source f)
    | .ok checked =>
      .success (before ++ .result (checked.term.render ++ " : " ++ checked.type.render ++ "\n"))

/-! ## Replacing -/

/-- Why a type variable is not replaced. -/
inductive SubstError where
  /-- An argument that is no type. -/
  | unreadable (role : String) (source : Text) (e : ParseError)
  /-- A type that is no variable. -/
  | notVariable (name : Text)
  deriving Repr, Inhabited

/-- The wording of an error. -/
def SubstError.message : SubstError → Text
  | unreadable role source e =>
    "could not parse " ++ Text.ofString role ++ ":\n" ++ e.diagnostic.report none source
  | notVariable name => "'" ++ name ++ "' is not a type variable"

/-- Reads an argument as a type. -/
def typeArgument (role : String) (source : Text) : Except SubstError Ty :=
  match readType .systemF source with
  | .ok t => .ok t
  | .error e => .error (.unreadable role source e)

/-- A request to replace a variable in a type. -/
structure Replacement where
  name : Text
  target : Ty
  replacement : Ty
  deriving DecidableEq, Repr, Inhabited

/-- Reads the three arguments.  The first has to read as a variable; its text without
the white space around it is the name that is replaced. -/
def Replacement.ofArguments (x t s : Text) : Except SubstError Replacement := do
  let name := x.trim
  match ← typeArgument "type variable" name with
  | .var _ => return ⟨name, ← typeArgument "type" t, ← typeArgument "replacement" s⟩
  | _ => .error (.notVariable name)

/-- The warning that a variable of the replacement is captured. -/
def captureWarning (y : Text) : Text :=
  "warning: free type variable " ++ y ++ " of the replacement is captured\n"

/-- The warning that the replaced variable is bound again. -/
def shadowWarning (x : Text) : Text :=
  "warning: " ++ x ++
    " is rebound inside the type, occurrences under that binder are replaced too\n"

/-- The warnings of a replacement. -/
def Replacement.warnings (r : Replacement) : Text :=
  (r.target.captures r.name r.replacement).flatMap captureWarning ++
    if r.target.shadows r.name then shadowWarning r.name else []

/-- The type after a replacement. -/
def Replacement.result (r : Replacement) : Ty := r.target.substitute r.name r.replacement

/-- Replaces a type variable and prints the type. -/
def replaceVariable (x t s : Text) : Outcome :=
  match Replacement.ofArguments x t s with
  | .error e => .failure .nothing e.message
  | .ok r => .success ⟨r.result.render ++ "\n", r.warnings⟩

end CommandLine
end PolyLambda
