import PolyLambda.Text

/-!
# White space

The characters with the Unicode property White_Space, and trimming them off the
ends of a text.
-/

namespace PolyLambda
namespace Text

/-- Whether a character has the Unicode property White_Space. -/
def isSpace (c : Char) : Bool :=
  let n := c.toNat
  (0x09 ≤ n && n ≤ 0x0D) || n == 0x20 || n == 0x85 || n == 0xA0 || n == 0x1680
    || (0x2000 ≤ n && n ≤ 0x200A) || n == 0x2028 || n == 0x2029 || n == 0x202F
    || n == 0x205F || n == 0x3000

/-- The text without the white space at its start. -/
def trimStart (t : Text) : Text := t.dropWhile fun g => isSpace g.seen

/-- The text without the white space at its end. -/
def trimEnd (t : Text) : Text := (trimStart t.reverse).reverse

/-- The text without the white space at its two ends. -/
def trim (t : Text) : Text := trimEnd (trimStart t)

/-- Whether a text holds white space only. -/
def isBlank (t : Text) : Bool := t.all fun g => isSpace g.seen

end Text
end PolyLambda
