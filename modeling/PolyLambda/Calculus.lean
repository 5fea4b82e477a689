import PolyLambda.Text

/-!
# Calculi

The two languages that can be checked: System F, and the fragment of it that is the
simply-typed lambda calculus.
-/

namespace PolyLambda

/-- The language a source is read in. -/
inductive Calculus where
  /-- The polymorphic lambda calculus. -/
  | systemF
  /-- No type abstraction, type application, quantifier or type variable. -/
  | simplyTyped
  deriving DecidableEq, Repr, Inhabited

namespace Calculus

/-- What a calculus is called. -/
def name : Calculus → String
  | systemF => "System F"
  | simplyTyped => "simply-typed lambda calculus"

/-- The calculus with a given number, if there is one. -/
def ofIndex? : Nat → Option Calculus
  | 0 => some systemF
  | 1 => some simplyTyped
  | _ => none

/-- The calculus that sources are read in when it is given by its number.  A number
without a calculus restricts nothing, so it stands for System F. -/
def ofIndex (n : Nat) : Calculus := (ofIndex? n).getD systemF

/-- The name of the calculus with a given number. -/
def nameOfIndex (n : Nat) : String := ((ofIndex? n).map name).getD "invalid"

end Calculus

end PolyLambda
