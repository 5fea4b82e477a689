import PolyLambda.ParseError
import PolyLambda.Term
import PolyLambda.Token.Scan

/-!
# Reading terms and types

Sources are read by recursive descent over their tokens:

```text
Term  ::= "λ" ident ":" Type "." Term | "Λ" TypeVar ":" Kind "." Term | App
App   ::= App Atom | App "[" Type "]" | Atom
Atom  ::= int | ident | "(" Term ")"
Type  ::= "∀" TypeVar ":" Kind "." Type | TAtom "->" Type | TAtom
TAtom ::= "Int" | TypeVar | "(" Type ")"
Kind  ::= "*"
```

The first error ends the reading.  In the simply-typed lambda calculus the
constructs of System F are errors at their first token.

A reader takes the tokens ahead and returns what it read with the tokens left.
Nested pieces each take at least one token before they recur, so as many levels as
there are tokens, and one more, are enough; the level is the first argument of the
recursive readers, and `readTerm` and `readType` supply it.
-/

namespace PolyLambda

/-- What every reader of a source needs: the calculus it is read in, and the token
at its end. -/
structure Reading where
  calculus : Calculus
  finish : Token
  deriving DecidableEq, Repr, Inhabited

/-- The value a decimal literal spells, with its sign. -/
def literalValue : List Char → Int
  | '-' :: digits => - Int.ofNat (Nat.ofDigitChars 10 digits 0)
  | digits => Int.ofNat (Nat.ofDigitChars 10 digits 0)

/-- The value of a literal, if it fits in 32 bits. -/
def int32OfLiteral? (text : List Char) : Option Int32 :=
  let n := literalValue text
  if -2147483648 ≤ n ∧ n ≤ 2147483647 then some (.ofInt n) else none

namespace Reading

variable (r : Reading)

/-- The token ahead, which is the end of the source when none is left. -/
def ahead : List Token → Token
  | [] => r.finish
  | t :: _ => t

/-- The error of not finding what `cause` asks for. -/
def fail {α : Type} (cause : ParseError.Cause) (ts : List Token) :
    Except ParseError (α × List Token) :=
  .error (.unexpected cause (r.ahead ts))

/-- Reads one token of a kind. -/
def expect (kind : TokenKind) : List Token → Except ParseError (Token × List Token)
  | [] => r.fail (.expected kind) []
  | t :: ts => if t.kind = kind then .ok (t, ts) else r.fail (.expected kind) (t :: ts)

/-- Refuses a construct of System F at `t` in the simply-typed lambda calculus. -/
def allow (c : Construct) (t : Token) : Except ParseError Unit :=
  if r.calculus = .simplyTyped then .error ⟨.restricted c, t⟩ else .ok ()

/-- Reads a kind. -/
def kind (ts : List Token) : Except ParseError (Kind × List Token) := do
  let (_, ts) ← r.expect .star ts
  return (.star, ts)

/-- Reads `X : K .`, the part of a type binder between its mark and its body. -/
def typeBinder (ts : List Token) : Except ParseError ((Text × Kind) × List Token) := do
  let (x, ts) ← r.expect .typeVar ts
  let (_, ts) ← r.expect .colon ts
  let (k, ts) ← r.kind ts
  let (_, ts) ← r.expect .dot ts
  return ((x.name, k), ts)

/-! ## Types -/

/-- Reads a type without arrows or quantifiers outside parentheses; `inner` reads
what stands in parentheses. -/
def typeAtom (inner : List Token → Except ParseError (Ty × List Token)) :
    List Token → Except ParseError (Ty × List Token)
  | [] => r.fail .expectedType []
  | t :: ts =>
    match t.kind with
    | .intType => .ok (.int, ts)
    | .typeVar => do
      r.allow .typeVariable t
      return (.var t.name, ts)
    | .leftParen => do
      let (a, ts) ← inner ts
      let (_, ts) ← r.expect .rightParen ts
      return (a, ts)
    | _ => r.fail .expectedType (t :: ts)

/-- Reads a type, with pieces nested at most `n` deep. -/
def typeWithin : Nat → List Token → Except ParseError (Ty × List Token)
  | 0, ts => r.fail .expectedType ts
  | n + 1, ts =>
    match ts with
    | [] => r.fail .expectedType []
    | t :: rest =>
      if t.kind = .forAll then do
        r.allow .universalType t
        let ((x, k), rest) ← r.typeBinder rest
        let (body, rest) ← typeWithin n rest
        return (.all x k body, rest)
      else do
        let (param, rest) ← r.typeAtom (typeWithin n) (t :: rest)
        match rest with
        | [] => return (param, [])
        | u :: rest =>
          if u.kind = .arrow then do
            let (result, rest) ← typeWithin n rest
            return (.arrow param result, rest)
          else return (param, u :: rest)

/-- Reads a type. -/
def type (ts : List Token) : Except ParseError (Ty × List Token) := r.typeWithin (ts.length + 1) ts

/-! ## Terms -/

/-- Reads a term without application or binders outside parentheses; `inner` reads
what stands in parentheses. -/
def atom (inner : List Token → Except ParseError (Term × List Token)) :
    List Token → Except ParseError (Term × List Token)
  | [] => r.fail .expectedTerm []
  | t :: ts =>
    match t.kind with
    | .int =>
      match int32OfLiteral? t.text with
      | some n => .ok (.int t.range n, ts)
      | none => .error ⟨.tooLarge, t⟩
    | .ident => .ok (.var t.range t.name, ts)
    | .leftParen => do
      let (a, ts) ← inner ts
      let (_, ts) ← r.expect .rightParen ts
      return (a, ts)
    | _ => r.fail .expectedTerm (t :: ts)

/-- Whether a token of this kind starts an atom. -/
def startsAtom (k : TokenKind) : Bool := k = .int || k = .ident || k = .leftParen

mutual

/-- Reads a term, with pieces nested at most `n` deep. -/
def termWithin : Nat → List Token → Except ParseError (Term × List Token)
  | 0, ts => r.fail .expectedTerm ts
  | n + 1, ts =>
    match ts with
    | [] => r.fail .expectedTerm []
    | t :: rest =>
      if t.kind = .lambda then do
        let (x, rest) ← r.expect .ident rest
        let (_, rest) ← r.expect .colon rest
        let (a, rest) ← r.type rest
        let (_, rest) ← r.expect .dot rest
        let (body, rest) ← termWithin n rest
        return (.abs (t.range.between body.range) x.name a body, rest)
      else if t.kind = .bigLambda then do
        r.allow .typeAbstraction t
        let ((x, k), rest) ← r.typeBinder rest
        let (body, rest) ← termWithin n rest
        return (.tabs (t.range.between body.range) x k body, rest)
      else do
        let (fn, rest) ← r.atom (termWithin n) (t :: rest)
        spineWithin n fn rest

/-- Reads the arguments that `fn` is applied to, if any. -/
def spineWithin : Nat → Term → List Token → Except ParseError (Term × List Token)
  | 0, fn, ts => .ok (fn, ts)
  | n + 1, fn, ts =>
    match ts with
    | [] => .ok (fn, [])
    | t :: rest =>
      if t.kind = .leftBracket then do
        r.allow .typeApplication t
        let (a, rest) ← r.type rest
        let (close, rest) ← r.expect .rightBracket rest
        spineWithin n (.tapp (fn.range.between close.range) fn a) rest
      else if startsAtom t.kind then do
        let (arg, rest) ← r.atom (termWithin n) (t :: rest)
        spineWithin n (.app (fn.range.between arg.range) fn arg) rest
      else .ok (fn, t :: rest)

end

/-- Reads a term. -/
def term (ts : List Token) : Except ParseError (Term × List Token) :=
  r.termWithin (ts.length + 1) ts

/-- Requires that nothing is left. -/
def complete {α : Type} (p : Except ParseError (α × List Token)) : Except ParseError α := do
  let (a, ts) ← p
  match ts with
  | [] => return a
  | t :: _ => .error (.unexpected (.expected .finish) t)

end Reading

/-- The reading of scanned tokens in a calculus. -/
def Tokens.reading (ts : Tokens) (c : Calculus) : Reading := ⟨c, ts.finish⟩

/-- The term that scanned tokens spell. -/
def Tokens.term? (ts : Tokens) (c : Calculus) : Except ParseError Term :=
  Reading.complete ((ts.reading c).term ts.tokens)

/-- The type that scanned tokens spell. -/
def Tokens.type? (ts : Tokens) (c : Calculus) : Except ParseError Ty :=
  Reading.complete ((ts.reading c).type ts.tokens)

/-- Reads a source as a term. -/
def readTerm (c : Calculus) (source : Text) : Except ParseError Term :=
  (scan source.chars).term? c

/-- Reads a source as a type. -/
def readType (c : Calculus) (source : Text) : Except ParseError Ty :=
  (scan source.chars).type? c

/-- Whether an error lies at the end of the source, so that more text could still
complete it. -/
def ParseError.isIncomplete (e : ParseError) (source : Text) : Bool :=
  decide (e.range.start = source.length + 1)

end PolyLambda
