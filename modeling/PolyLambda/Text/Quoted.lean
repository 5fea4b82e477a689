import PolyLambda.Text
import PolyLambda.Text.Printable

/-!
# Quoted texts

A text is quoted by putting it between two quote marks.  The quote mark itself and
the backslash are written after a backslash, printable characters as they are, and
control characters that have a letter by that letter (a newline is a backslash and
`n`).  Everything else is written by number: a byte or an ASCII character with an
`x` and two hexadecimal digits, other characters with a `u` and four digits or a
`U` and eight.
-/

namespace PolyLambda
namespace Text

/-- The lower-case hexadecimal digits of `n`, filled with zeros up to `width`. -/
def hex (width n : Nat) : List Char :=
  let digits := Nat.toDigits 16 n
  List.replicate (width - digits.length) '0' ++ digits

/-- The letter after the backslash, for the control characters that have one. -/
def controlLetter? (c : Char) : Option Char :=
  match c.toNat with
  | 0x07 => some 'a'
  | 0x08 => some 'b'
  | 0x09 => some 't'
  | 0x0A => some 'n'
  | 0x0B => some 'v'
  | 0x0C => some 'f'
  | 0x0D => some 'r'
  | _ => none

/-- A character as it is written between two marks. -/
def escapeChar (mark c : Char) : List Char :=
  if c = mark ∨ c = '\\' then ['\\', c]
  else if isPrintable c then [c]
  else
    match controlLetter? c with
    | some l => ['\\', l]
    | none =>
      if c.toNat < 0x80 then '\\' :: 'x' :: hex 2 c.toNat
      else if c.toNat < 0x10000 then '\\' :: 'u' :: hex 4 c.toNat
      else '\\' :: 'U' :: hex 8 c.toNat

/-- A glyph as it is written between two marks. -/
def escape (mark : Char) : Glyph → List Char
  | .char c => escapeChar mark c
  | .stray b => '\\' :: 'x' :: hex 2 b.toNat

/-- A text between double quotes. -/
def quoted (t : Text) : Text :=
  ofChars ('"' :: t.flatMap (escape '"') ++ ['"'])

/-- A single character between apostrophes. -/
def quotedChar (c : Char) : Text :=
  ofChars ('\'' :: escapeChar '\'' c ++ ['\''])

end Text
end PolyLambda
