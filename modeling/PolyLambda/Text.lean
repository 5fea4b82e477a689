/-!
# Texts

A **text** is what the checker reads and writes: a sequence of glyphs, where a
glyph is a character or a **stray** byte, one that belongs to no well-formed
UTF-8 sequence.  Sources, names, command arguments and reports are texts.

Two readings of a text are used.  Its **bytes** (`Text.bytes`) are what is stored
and printed.  Its **characters** (`Text.chars`) are what the scanner sees: a stray
byte is seen as U+FFFD, so that every glyph counts as one character, while a copy
of the text keeps the byte.

Names are listed in the order of their bytes (`Text.before`).
-/

namespace PolyLambda

/-- One position of a text: a character, or a byte that is no part of a
well-formed UTF-8 sequence. -/
inductive Glyph where
  | char (c : Char)
  | stray (b : UInt8)
  deriving DecidableEq, Repr, Inhabited

namespace Glyph

/-- The character a reader sees; a stray byte is seen as U+FFFD. -/
def seen : Glyph → Char
  | char c => c
  | stray _ => '\uFFFD'

/-- The bytes of a glyph. -/
def bytes : Glyph → List UInt8
  | char c => String.utf8EncodeChar c
  | stray b => [b]

/-- A number that tells glyphs apart: the code point of a character, and numbers
above all code points for stray bytes. -/
def code : Glyph → Nat
  | char c => c.toNat
  | stray b => 0x110000 + b.toNat

end Glyph

/-- A text is a sequence of glyphs. -/
abbrev Text := List Glyph

namespace Text

/-- The text made of the given characters. -/
def ofChars (cs : List Char) : Text := cs.map .char

/-- The text of a string. -/
def ofString (s : String) : Text := ofChars s.toList

instance : Coe String Text := ⟨ofString⟩

instance : LawfulBEq Text := inferInstance

/-- The characters a reader of the text sees. -/
def chars (t : Text) : List Char := t.map Glyph.seen

/-- The bytes of a text. -/
def bytes (t : Text) : List UInt8 := t.flatMap Glyph.bytes

/-- A text without stray bytes is well formed. -/
def isWellFormed (t : Text) : Bool :=
  t.all fun
    | .char _ => true
    | .stray _ => false

/-! ## Order -/

/-- The key by which texts are sorted: the bytes, ended by a zero that stands
below every byte.  The codes after the zero only separate texts that are written
with the same bytes. -/
def key (t : Text) : List Nat := t.bytes.map (·.toNat + 1) ++ 0 :: t.map Glyph.code

/-- Whether a text comes strictly before another in the order of bytes. -/
def before (a b : Text) : Bool := decide (a.key < b.key)

/-! ## Numbers -/

/-- The decimal digits of a number. -/
def ofNat (n : Nat) : Text := ofChars (Nat.toDigits 10 n)

/-- The decimal text of an integer, with a sign only when it is negative. -/
def ofInt (n : Int) : Text :=
  if n < 0 then ofChars ('-' :: Nat.toDigits 10 n.natAbs) else ofNat n.natAbs

/-! ## Cutting and joining -/

/-- The parts of a text before and after the first `sep`, if it has one. -/
def cut (sep : Char) : Text → Option (Text × Text)
  | [] => none
  | g :: rest =>
    if g = .char sep then some ([], rest)
    else (cut sep rest).map fun (before, after) => (g :: before, after)

/-- The pieces of a text between the places of `sep`; there is always at least one. -/
def split (sep : Char) : Text → List Text
  | [] => [[]]
  | g :: rest =>
    if g = .char sep then [] :: split sep rest
    else
      match split sep rest with
      | [] => [[g]]
      | piece :: more => (g :: piece) :: more

/-- The lines of a text. -/
def lines (t : Text) : List Text := t.split '\n'

/-- The given texts with `sep` between neighbours. -/
def join (sep : Text) (ts : List Text) : Text := sep.intercalate ts

/-- The same text with each newline replaced by a space. -/
def onOneLine (t : Text) : Text :=
  t.map fun g => if g = .char '\n' then .char ' ' else g

/-- A character so many times. -/
def repeated (n : Nat) (c : Char) : Text := List.replicate n (.char c)

/-- Whether the bytes of a text start with those of another. -/
def startsWith (t start : Text) : Bool := start.bytes.isPrefixOf t.bytes

end Text

end PolyLambda
