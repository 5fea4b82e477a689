import PolyLambda.NameSet
import PolyLambda.Printer

/-!
# Typing contexts

A context assigns types to variables.  It is the list of its assignments, nearest
first; an assignment shadows the earlier ones of the same name.
-/

namespace PolyLambda

/-- A typing context: its assignments, nearest first. -/
abbrev Context := List (Text × Ty)

namespace Context

/-- The context in which nothing is assigned. -/
def empty : Context := []

/-- The context in which `x` is assigned `t`. -/
def assign (Γ : Context) (x : Text) (t : Ty) : Context := (x, t) :: Γ

/-- The context with the given assignments, made in order. -/
def ofList (assignments : List (Text × Ty)) : Context :=
  assignments.foldl (fun Γ (x, t) => Γ.assign x t) empty

/-- The type of the nearest assignment of a name. -/
def lookup? (Γ : Context) (x : Text) : Option Ty :=
  match Γ with
  | [] => none
  | (y, t) :: rest => if y = x then some t else lookup? rest x

/-- The assigned names in increasing order. -/
def names (Γ : Context) : List Text := NameSet.ofList (Γ.map (·.1))

/-- The assigned names in increasing order, each with its nearest type. -/
def visible (Γ : Context) : List (Text × Ty) :=
  Γ.names.filterMap fun x => (Γ.lookup? x).map fun t => (x, t)

/-- The visible assignments with their types printed. -/
def entries (Γ : Context) : List (Text × Text) := Γ.visible.map fun (x, t) => (x, t.render)

end Context

end PolyLambda
