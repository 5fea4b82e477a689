import PolyLambda.Range
import PolyLambda.Ty

/-!
# Terms

Terms of System F with named variables.  Every node carries the range of the source
it was read from; terms are compared without their ranges (`Term.same`).

As with types, a term assembled by hand may have a gap, which no source produces.
-/

namespace PolyLambda

/-- A term of System F.  The first field of every node is its range. -/
inductive Term where
  /-- An integer literal. -/
  | int (range : Range) (value : Int32)
  /-- A variable. -/
  | var (range : Range) (name : Text)
  /-- A term applied to a term. -/
  | app (range : Range) (fn arg : Term)
  /-- A function of `param`. -/
  | abs (range : Range) (param : Text) (type : Ty) (body : Term)
  /-- A term that abstracts over the type variable `binder`. -/
  | tabs (range : Range) (binder : Text) (kind : Kind) (body : Term)
  /-- A term applied to a type. -/
  | tapp (range : Range) (term : Term) (arg : Ty)
  /-- A missing subtree. -/
  | gap
  deriving DecidableEq, Repr, Inhabited

namespace Term

/-- What a term is called in messages; a gap has no name. -/
def describe? : Term → Option String
  | int .. => some "int literal"
  | var .. => some "variable"
  | app .. => some "application"
  | abs .. => some "abstraction"
  | tabs .. => some "type abstraction"
  | tapp .. => some "type application"
  | gap => none

/-- The range of a term; a gap is nowhere. -/
def range : Term → Range
  | int r _ | var r _ | app r _ _ | abs r _ _ _ | tabs r _ _ _ | tapp r _ _ => r
  | gap => .nowhere

/-- Whether a term, its annotations included, lies in the simply-typed lambda
calculus. -/
def isSimplyTyped : Term → Bool
  | int .. | var .. => true
  | app _ f a => f.isSimplyTyped && a.isSimplyTyped
  | abs _ _ t b => t.isSimple && b.isSimplyTyped
  | tabs .. | tapp .. | gap => false

/-- Whether a term has no gap, neither in itself nor in its types. -/
def isComplete : Term → Bool
  | int .. | var .. => true
  | app _ f a => f.isComplete && a.isComplete
  | abs _ _ t b => t.isComplete && b.isComplete
  | tabs _ _ _ b => b.isComplete
  | tapp _ t a => t.isComplete && a.isComplete
  | gap => false

/-- The term with every range forgotten. -/
def erase : Term → Term
  | int _ n => int .nowhere n
  | var _ x => var .nowhere x
  | app _ f a => app .nowhere f.erase a.erase
  | abs _ x t b => abs .nowhere x t b.erase
  | tabs _ x k b => tabs .nowhere x k b.erase
  | tapp _ t a => tapp .nowhere t.erase a
  | gap => gap

/-- Whether two terms are equal up to their ranges. -/
def same (t u : Term) : Bool := decide (t.erase = u.erase)

end Term

end PolyLambda
