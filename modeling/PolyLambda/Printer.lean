import PolyLambda.Term

/-!
# Printing types and terms

Types and terms are printed in the concrete notation that is read back, with
parentheses only where the position of a subtree asks for them.  Binders extend as
far to the right as they can, arrows group to the right and applications to the
left.
-/

namespace PolyLambda

/-- Where a subtree is printed. -/
inductive Position where
  /-- Nothing follows on the right that a binder could swallow. -/
  | top
  /-- On the left of an arrow, or in function position. -/
  | left
  /-- Only what needs no parentheses anywhere stands here bare. -/
  | atom
  deriving DecidableEq, Repr, Inhabited

/-- `t`, in parentheses if `needed`. -/
def parenthesize (needed : Bool) (t : Text) : Text :=
  if needed then .char '(' :: t ++ [.char ')'] else t

/-- A binder and what it is bound at, up to the space before its body. -/
def binderText (mark : Char) (name note : Text) : Text :=
  .char mark :: name ++ ": " ++ note ++ ". "

/-- A type as it is printed at a position. -/
def Ty.renderAt : Ty → Position → Text
  | .int, _ => "Int"
  | .var x, _ => x
  | .arrow p r, pos =>
    parenthesize (pos ≠ .top) (p.renderAt .left ++ " -> " ++ r.renderAt .top)
  | .all x k b, pos =>
    parenthesize (pos ≠ .top) (binderText '∀' x k.name ++ b.renderAt .top)
  | .gap, _ => "nil"

/-- A type in concrete notation. -/
def Ty.render (t : Ty) : Text := t.renderAt .top

/-- A term as it is printed at a position. -/
def Term.renderAt : Term → Position → Text
  | .int _ n, _ => Text.ofInt n.toInt
  | .var _ x, _ => x
  | .app _ f a, pos =>
    parenthesize (pos = .atom) (f.renderAt .left ++ " " ++ a.renderAt .atom)
  | .tapp _ t a, pos =>
    parenthesize (pos = .atom) (t.renderAt .left ++ " [" ++ a.render ++ "]")
  | .abs _ x t b, pos =>
    parenthesize (pos ≠ .top) (binderText 'λ' x t.render ++ b.renderAt .top)
  | .tabs _ x k b, pos =>
    parenthesize (pos ≠ .top) (binderText 'Λ' x k.name ++ b.renderAt .top)
  | .gap, _ => "nil"

/-- A term in concrete notation. -/
def Term.render (t : Term) : Text := t.renderAt .top

end PolyLambda
