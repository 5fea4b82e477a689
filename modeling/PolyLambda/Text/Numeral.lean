import PolyLambda.Text

/-!
# Numerals and truth values

Integers are read with an optional sign and an optional base: `0x`, `0o` or `0b` in
front of the digits, and a plain `0` for octal.  An underscore may separate two digits
or follow the base.  The result has to fit in 64 bits.

Of two faults the first one counts, from left to right: a number that has grown too
large is too large, whatever follows.  Misplaced underscores are found last.
-/

namespace PolyLambda
namespace Numeral

/-- Why a text is no integer. -/
inductive Fault where
  | malformed
  | tooLarge
  deriving DecidableEq, Repr, Inhabited

/-- The magnitudes below this one have 64 bits. -/
def magnitudeLimit : Nat := 0x10000000000000000

/-- The least magnitude that only a negative integer of 64 bits can have. -/
def integerLimit : Nat := 0x8000000000000000

/-- The value of a digit; letters count from ten, in either case. -/
def digitValue? (c : Char) : Option Nat :=
  if '0' ≤ c ∧ c ≤ '9' then some (c.toNat - '0'.toNat)
  else if 'a' ≤ c ∧ c ≤ 'z' then some (c.toNat - 'a'.toNat + 10)
  else if 'A' ≤ c ∧ c ≤ 'Z' then some (c.toNat - 'A'.toNat + 10)
  else none

/-- The value of a digit in a base. -/
def digitIn? (base : Nat) : Glyph → Option Nat
  | .char c => (digitValue? c).filter (· < base)
  | .stray _ => none

/-- Reads digits on, after a number; underscores are passed over. -/
def magnitudeFrom (base n : Nat) : Text → Except Fault Nat
  | [] => .ok n
  | g :: rest =>
    if g = .char '_' then magnitudeFrom base n rest
    else
      match digitIn? base g with
      | none => .error .malformed
      | some d =>
        if base * n + d < magnitudeLimit then magnitudeFrom base (base * n + d) rest
        else .error .tooLarge

/-- Whether each underscore follows a digit, or what counts as one, and is followed by
a digit. -/
def isSeparated (afterDigit : Bool) : Text → Bool
  | [] => true
  | g :: rest =>
    if g = .char '_' then afterDigit && !rest.isEmpty && isSeparated false rest
    else isSeparated true rest

/-- The base of a numeral without sign, whether something that counts as a digit goes
before its digits, and those digits. -/
def splitBase : Text → Nat × Bool × Text
  | .char '0' :: .char b :: d :: rest =>
    if b = 'x' ∨ b = 'X' then (16, true, d :: rest)
    else if b = 'o' ∨ b = 'O' then (8, true, d :: rest)
    else if b = 'b' ∨ b = 'B' then (2, true, d :: rest)
    else (8, true, .char b :: d :: rest)
  | .char '0' :: rest => (8, true, rest)
  | digits => (10, false, digits)

/-- Reads a numeral without sign. -/
def magnitude (t : Text) : Except Fault Nat :=
  if t.isEmpty then .error .malformed
  else
    let (base, afterDigit, digits) := splitBase t
    match magnitudeFrom base 0 digits with
    | .error e => .error e
    | .ok n => if isSeparated afterDigit digits then .ok n else .error .malformed

/-- Reads an integer of 64 bits. -/
def integer (t : Text) : Except Fault Int :=
  let (isNegative, rest) : Bool × Text :=
    match t with
    | .char '-' :: rest => (true, rest)
    | .char '+' :: rest => (false, rest)
    | _ => (false, t)
  match magnitude rest with
  | .error e => .error e
  | .ok n =>
    if isNegative then if n ≤ integerLimit then .ok (-n) else .error .tooLarge
    else if n < integerLimit then .ok n
    else .error .tooLarge

/-- Reads a truth value. -/
def truth? (t : Text) : Option Bool :=
  if ["1", "t", "T", "true", "TRUE", "True"].any (t = Text.ofString ·) then some true
  else if ["0", "f", "F", "false", "FALSE", "False"].any (t = Text.ofString ·) then some false
  else none

example : integer "-0x_10" = .ok (-16) := rfl

example : integer "0_7" = .ok 7 ∧ integer "08" = .error .malformed := ⟨rfl, rfl⟩

example : integer "1__0" = .error .malformed ∧ integer "_1" = .error .malformed := ⟨rfl, rfl⟩

example : integer "99999999999999999999x" = .error .tooLarge := rfl

end Numeral
end PolyLambda
