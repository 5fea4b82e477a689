import PolyLambda.Ty.Free

/-!
# Substituting types

`Ty.substitute` replaces **every** occurrence of a type variable, also below a
quantifier that binds the variable again, and it never renames a binder.  So the
result can differ from the capture-avoiding substitution in two ways, and there is a
test for each:

* a binder above an occurrence may **capture** a free variable of the replacement
  (`Ty.captures` lists such binders);
* the variable may be **shadowed**, bound again above an occurrence
  (`Ty.shadows`).
-/

namespace PolyLambda
namespace Ty

/-- The type `t` with every occurrence of `x` replaced by `s`. -/
def substitute (t : Ty) (x : Text) (s : Ty) : Ty :=
  match t with
  | int => int
  | var y => if y = x then s else var y
  | arrow p r => arrow (p.substitute x s) (r.substitute x s)
  | all y k b => all y k (b.substitute x s)
  | gap => gap

/-- The binders above occurrences of `x`. -/
def bindersOver (x : Text) : Ty → List Text
  | int | var _ | gap => []
  | arrow p r => p.bindersOver x ++ r.bindersOver x
  | all y _ b => if b.occurs x then y :: b.bindersOver x else []

/-- The binders of `t` that capture a free variable of `s` when it replaces `x`. -/
def captures (t : Ty) (x : Text) (s : Ty) : List Text :=
  NameSet.ofList ((t.bindersOver x).filter (· ∈ s.freeVars))

/-- Whether `x` is bound again above an occurrence of `x`. -/
def shadows (x : Text) : Ty → Bool
  | int | var _ | gap => false
  | arrow p r => p.shadows x || r.shadows x
  | all y _ b => if y = x then b.occurs x else b.shadows x

/-- A substitution together with what is wrong with it. -/
structure Replaced where
  result : Ty
  captured : List Text
  shadowed : Bool
  deriving DecidableEq, Repr, Inhabited

/-- Replaces `x` by `s` in `t`.  Both types are looked through to their leaves, so
neither may have a gap. -/
def replace? (t : Ty) (x : Text) (s : Ty) : Option Replaced :=
  if t.isComplete && s.isComplete then
    some ⟨t.substitute x s, t.captures x s, t.shadows x⟩
  else none

end Ty
end PolyLambda
