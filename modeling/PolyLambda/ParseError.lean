import PolyLambda.Calculus
import PolyLambda.Token

/-!
# Parse errors

Why a source is no term or no type: the cause, and the token it is found at.  The
wording is in `ParseError.message` alone.
-/

namespace PolyLambda

/-- The constructs of System F that the simply-typed lambda calculus lacks. -/
inductive Construct where
  | typeAbstraction
  | typeApplication
  | universalType
  | typeVariable
  deriving DecidableEq, Repr, Inhabited

namespace ParseError

/-- What is wrong with a token. -/
inductive Cause where
  /-- Another kind of token has to stand here. -/
  | expected (kind : TokenKind)
  /-- A term has to start here. -/
  | expectedTerm
  /-- A type has to start here. -/
  | expectedType
  /-- The character starts no token. -/
  | illegal
  /-- The literal has no value in 32 bits. -/
  | tooLarge
  /-- The construct belongs to System F only. -/
  | restricted (construct : Construct)
  deriving DecidableEq, Repr, Inhabited

end ParseError

/-- A parse error: its cause, and the token at which it is found. -/
structure ParseError where
  cause : ParseError.Cause
  token : Token
  deriving DecidableEq, Repr, Inhabited

namespace ParseError

/-- What a construct is called at a token. -/
def constructText (c : Construct) (t : Token) : Text :=
  match c with
  | .typeAbstraction => "type abstraction"
  | .typeApplication => "type application"
  | .universalType => "universal type"
  | .typeVariable => "type variable " ++ t.name

/-- The wording of a parse error. -/
def message (e : ParseError) : Text :=
  match e.cause with
  | .expected k => "expected " ++ k.name ++ ", found " ++ e.token.describe
  | .expectedTerm => "expected term, found " ++ e.token.describe
  | .expectedType => "expected type, found " ++ e.token.describe
  | .illegal => "unexpected character '" ++ e.token.name ++ "'"
  | .tooLarge => "integer literal " ++ e.token.name ++ " does not fit in 32 bits"
  | .restricted c =>
    constructText c e.token ++ " is not part of the " ++ Calculus.simplyTyped.name

/-- The range of the token at which a parse error is found. -/
def range (e : ParseError) : Range := e.token.range

/-- The line of the token at which a parse error is found. -/
def line (e : ParseError) : Nat := e.token.place.line

/-- The column of the token at which a parse error is found. -/
def column (e : ParseError) : Nat := e.token.place.column

/-- The error of finding `t` where something else has to stand; a character that
starts no token is an error of its own. -/
def unexpected (cause : Cause) (t : Token) : ParseError :=
  if t.kind = .illegal then ⟨.illegal, t⟩ else ⟨cause, t⟩

end ParseError

end PolyLambda
