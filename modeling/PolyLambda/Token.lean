import PolyLambda.Place
import PolyLambda.Range

/-!
# Tokens

The words and marks a source is made of.  A token knows its kind, the characters it
was read from and the place where it starts.
-/

namespace PolyLambda

/-- The kinds of tokens. -/
inductive TokenKind where
  /-- The end of the source. -/
  | finish
  /-- A character that starts no token. -/
  | illegal
  /-- An integer literal. -/
  | int
  /-- The name of a variable. -/
  | ident
  /-- The name of a type variable. -/
  | typeVar
  /-- The type of integers. -/
  | intType
  /-- The mark of a function. -/
  | lambda
  /-- The mark of a type abstraction. -/
  | bigLambda
  /-- The mark of a universal type. -/
  | forAll
  | colon
  | dot
  | arrow
  | star
  | leftParen
  | rightParen
  | leftBracket
  | rightBracket
  deriving DecidableEq, Repr, Inhabited

namespace TokenKind

/-- All kinds, in the order of their numbers. -/
def all : List TokenKind :=
  [finish, illegal, int, ident, typeVar, intType, lambda, bigLambda, forAll, colon, dot, arrow,
    star, leftParen, rightParen, leftBracket, rightBracket]

/-- What a kind of token is called in messages. -/
def name : TokenKind → String
  | finish => "end of input"
  | illegal => "illegal character"
  | int => "integer literal"
  | ident => "identifier"
  | typeVar => "type variable"
  | intType => "'Int'"
  | lambda => "'λ'"
  | bigLambda => "'Λ'"
  | forAll => "'∀'"
  | colon => "':'"
  | dot => "'.'"
  | arrow => "'->'"
  | star => "'*'"
  | leftParen => "'('"
  | rightParen => "')'"
  | leftBracket => "'['"
  | rightBracket => "']'"

/-- The name of the kind with a given number. -/
def nameOfIndex (n : Nat) : Text :=
  match all[n]? with
  | some k => k.name
  | none => "token(" ++ Text.ofNat n ++ ")"

/-- Whether tokens of a kind differ by their text. -/
def hasText : TokenKind → Bool
  | int | ident | typeVar | illegal => true
  | _ => false

end TokenKind

/-- A token of a source. -/
structure Token where
  kind : TokenKind
  /-- The characters the token was read from. -/
  text : List Char
  /-- The place of its first character. -/
  place : Place
  deriving DecidableEq, Repr, Inhabited

namespace Token

/-- The end of a source that stops at `p`. -/
def atEnd (p : Place) : Token := ⟨.finish, [], p⟩

/-- The offset of the first character after a token. -/
def stop (t : Token) : Nat := t.place.offset + t.text.length

/-- The range a token covers. -/
def range (t : Token) : Range := ⟨t.place.offset + 1, t.stop + 1⟩

/-- The name a token spells. -/
def name (t : Token) : Text := .ofChars t.text

/-- How a token is called in messages. -/
def describe (t : Token) : Text :=
  if t.kind.hasText then t.kind.name ++ " '" ++ t.name ++ "'" else t.kind.name

end Token

end PolyLambda
