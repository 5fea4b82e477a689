import PolyLambda.NameSet
import PolyLambda.Ty

/-!
# Free type variables
-/

namespace PolyLambda
namespace Ty

/-- The type variables with an occurrence that no enclosing quantifier binds. -/
def freeVars : Ty → List Text
  | int | gap => []
  | var x => [x]
  | arrow p r => NameSet.union p.freeVars r.freeVars
  | all x _ b => NameSet.erase x b.freeVars

/-- Whether a type has no free type variable. -/
def isClosed (t : Ty) : Bool := t.freeVars.isEmpty

/-- Whether a type variable occurs in a type, bound or free. -/
def occurs (x : Text) : Ty → Bool
  | int | gap => false
  | var y => y = x
  | arrow p r => p.occurs x || r.occurs x
  | all _ _ b => b.occurs x

end Ty
end PolyLambda
