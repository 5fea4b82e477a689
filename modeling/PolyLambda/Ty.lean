import PolyLambda.Text

/-!
# Types

Types of System F with named variables: integers, function types, type variables
and universal types.  Two types are equal exactly when their trees are, the names
of bound variables included.

A tree assembled by hand may lack a subtree.  Such a **gap** is a type of its own
(`Ty.gap`); reading a source never makes one, and `Ty.isComplete` says that there
is none.
-/

namespace PolyLambda

/-- A kind, by its number.  The calculus has one kind, number zero. -/
structure Kind where
  index : UInt8
  deriving DecidableEq, Repr, Inhabited

namespace Kind

/-- The kind of all proper types. -/
def star : Kind := ⟨0⟩

/-- How a kind is written. -/
def name (k : Kind) : String := if k = star then "*" else "invalid"

end Kind

/-- A type of System F. -/
inductive Ty where
  /-- The type of integers. -/
  | int
  /-- A type variable, bound by an enclosing quantifier or free. -/
  | var (name : Text)
  /-- The type of functions from `param` to `result`. -/
  | arrow (param result : Ty)
  /-- The universal type that binds `binder` in `body`. -/
  | all (binder : Text) (kind : Kind) (body : Ty)
  /-- A missing subtree. -/
  | gap
  deriving DecidableEq, Repr, Inhabited

namespace Ty

/-- What a type is called in messages; a gap has no name. -/
def describe? : Ty → Option String
  | int => some "integer type"
  | var _ => some "type variable"
  | arrow .. => some "function type"
  | all .. => some "universal type"
  | gap => none

/-- Whether a type is built from integers and arrows only. -/
def isSimple : Ty → Bool
  | int => true
  | arrow p r => p.isSimple && r.isSimple
  | var _ | all .. | gap => false

/-- Whether a type has no gap. -/
def isComplete : Ty → Bool
  | int | var _ => true
  | arrow p r => p.isComplete && r.isComplete
  | all _ _ b => b.isComplete
  | gap => false

/-- The type a universal type abstracts over, its bound variable. -/
def param? : Ty → Option Ty
  | all x _ _ => some (var x)
  | _ => none

end Ty

end PolyLambda
