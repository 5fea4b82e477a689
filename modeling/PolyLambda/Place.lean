import PolyLambda.Text

/-!
# Places in a source

A place counts the characters before it and knows its line and its column, both
counted from one.  Walking over a character (`Place.next`) is the only way to a new
place, so the scanner and the reports agree on lines and columns.
-/

namespace PolyLambda

/-- A place in a source. -/
structure Place where
  /-- The number of characters before the place. -/
  offset : Nat
  line : Nat
  column : Nat
  deriving DecidableEq, Repr, Inhabited

namespace Place

/-- The start of a source. -/
def start : Place := ⟨0, 1, 1⟩

/-- The place after one more character. -/
def next (p : Place) (c : Char) : Place :=
  if c = '\n' then ⟨p.offset + 1, p.line + 1, 1⟩ else ⟨p.offset + 1, p.line, p.column + 1⟩

/-- The place after more characters. -/
def after (p : Place) (cs : List Char) : Place := cs.foldl next p

@[simp]
theorem after_nil (p : Place) : p.after [] = p := rfl

@[simp]
theorem after_cons (p : Place) (c : Char) (cs : List Char) :
    p.after (c :: cs) = (p.next c).after cs := rfl

theorem after_append (p : Place) (as bs : List Char) :
    p.after (as ++ bs) = (p.after as).after bs := List.foldl_append

@[simp]
theorem offset_next (p : Place) (c : Char) : (p.next c).offset = p.offset + 1 := by
  unfold next; split <;> rfl

@[simp]
theorem offset_after (p : Place) (cs : List Char) : (p.after cs).offset = p.offset + cs.length := by
  induction cs generalizing p with
  | nil => rfl
  | cons c cs ih => rw [after_cons, ih, offset_next, List.length_cons]; omega

end Place

end PolyLambda
