import PolyLambda.Text.Space
import PolyLambda.Token

/-!
# Scanning

`scan` splits the characters of a source into tokens.  White space and comments,
which run from `--` to the end of the line, stand between tokens and are dropped.
Every other character belongs to exactly one token: at each point the token that
starts there is taken, as long as its kind allows (`lexeme`).
-/

namespace PolyLambda

/-! ## Characters -/

/-- A decimal digit. -/
def isDigit (c : Char) : Bool := '0' ≤ c && c ≤ '9'

/-- A letter that starts the name of a variable. -/
def isLower (c : Char) : Bool := 'a' ≤ c && c ≤ 'z'

/-- A letter that starts the name of a type variable. -/
def isUpper (c : Char) : Bool := 'A' ≤ c && c ≤ 'Z'

/-- A character of a name after its first. -/
def isWordChar (c : Char) : Bool :=
  isLower c || isUpper c || isDigit c || c == '_' || c == '\''

/-! ## Single tokens -/

/-- The kind of a token of one character that is no digit and no letter. -/
def markKind : Char → TokenKind
  | 'λ' | '\\' => .lambda
  | 'Λ' => .bigLambda
  | '∀' => .forAll
  | '→' => .arrow
  | ':' => .colon
  | '.' => .dot
  | '*' => .star
  | '(' => .leftParen
  | ')' => .rightParen
  | '[' => .leftBracket
  | ']' => .rightBracket
  | _ => .illegal

/-- The kind of a word that starts with a lower-case letter. -/
def lowerWordKind (word : List Char) : TokenKind :=
  if word = ['f', 'o', 'r', 'a', 'l', 'l'] then .forAll else .ident

/-- The kind of a word that starts with an upper-case letter. -/
def upperWordKind (word : List Char) : TokenKind :=
  if word = ['I', 'n', 't'] then .intType else .typeVar

/-- The kind of the token that starts with `c`, and the number of characters it
takes from those that follow. -/
def lexeme (c : Char) (cs : List Char) : TokenKind × Nat :=
  if c = '/' ∧ cs.head? = some '\\' then (.bigLambda, 1)
  else if c = '-' ∧ cs.head? = some '>' then (.arrow, 1)
  else if isDigit c ∨ c = '-' ∧ cs.head?.any isDigit then
    (.int, (cs.takeWhile isDigit).length)
  else if isLower c then
    let word := cs.takeWhile isWordChar
    (lowerWordKind (c :: word), word.length)
  else if isUpper c then
    let word := cs.takeWhile isWordChar
    (upperWordKind (c :: word), word.length)
  else (markKind c, 0)

/-- Whether a comment starts with `c` and the characters that follow. -/
def startsComment (c : Char) (cs : List Char) : Bool := c == '-' && cs.head? == some '-'

/-- The number of characters up to the end of the line. -/
def lineLength (cs : List Char) : Nat := (cs.takeWhile (· ≠ '\n')).length

/-! ## Whole sources -/

/-- The tokens of a source and the token that marks its end. -/
structure Tokens where
  tokens : List Token
  finish : Token
  deriving DecidableEq, Repr, Inhabited

namespace Tokens

/-- One more token in front. -/
def push (t : Token) (ts : Tokens) : Tokens := ⟨t :: ts.tokens, ts.finish⟩

/-- The tokens together with the end of the source. -/
def toList (ts : Tokens) : List Token := ts.tokens ++ [ts.finish]

end Tokens

/-- Scanning from place `p` when the next `k` characters belong to a token or a
comment already taken. -/
def scanAfter : Nat → Place → List Char → Tokens
  | _, p, [] => ⟨[], .atEnd p⟩
  | k + 1, p, c :: cs => scanAfter k (p.next c) cs
  | 0, p, c :: cs =>
    if Text.isSpace c then scanAfter 0 (p.next c) cs
    else if startsComment c cs then scanAfter (lineLength cs) (p.next c) cs
    else
      let (kind, n) := lexeme c cs
      (scanAfter n (p.next c) cs).push ⟨kind, c :: cs.take n, p⟩

/-- The tokens of a source. -/
def scan (cs : List Char) : Tokens := scanAfter 0 .start cs

theorem scanAfter_eq (k : Nat) (p : Place) (cs : List Char) :
    scanAfter k p cs = scanAfter 0 (p.after (cs.take k)) (cs.drop k) := by
  induction cs generalizing k p with
  | nil => cases k <;> simp [scanAfter]
  | cons c cs ih =>
    cases k with
    | zero => simp
    | succ k => simp [scanAfter, ih k]

end PolyLambda
