import PolyLambda.Text

/-!
# Sets of names

A set of names is kept as a list in increasing order of bytes, without repetition.
-/

namespace PolyLambda
namespace NameSet

/-- One more name in a set. -/
def insert (x : Text) : List Text → List Text
  | [] => [x]
  | y :: ys =>
    if x = y then y :: ys
    else if x.before y then x :: y :: ys
    else y :: insert x ys

/-- The set of the names in a list. -/
def ofList (xs : List Text) : List Text := xs.foldr insert []

/-- The names in one set or the other. -/
def union (xs ys : List Text) : List Text := xs.foldr insert ys

/-- The names of a set other than `x`. -/
def erase (x : Text) (xs : List Text) : List Text := xs.filter (· ≠ x)

theorem mem_insert {z x : Text} {xs : List Text} : z ∈ insert x xs ↔ z = x ∨ z ∈ xs := by
  induction xs with
  | nil => simp [insert]
  | cons y ys ih =>
    simp only [insert]
    split
    · next h => subst h; simp
    · split
      · simp
      · simp only [List.mem_cons, ih]
        exact or_left_comm

theorem mem_union {z : Text} {xs ys : List Text} : z ∈ union xs ys ↔ z ∈ xs ∨ z ∈ ys := by
  induction xs with
  | nil => simp [union]
  | cons x xs ih =>
    simp only [union, List.foldr_cons, mem_insert, List.mem_cons] at ih ⊢
    rw [ih, or_assoc]

theorem mem_ofList {z : Text} {xs : List Text} : z ∈ ofList xs ↔ z ∈ xs := by
  have := @mem_union z xs []
  simpa [ofList, union] using this

theorem mem_erase {z x : Text} {xs : List Text} : z ∈ erase x xs ↔ z ∈ xs ∧ z ≠ x := by
  simp [erase]

end NameSet
end PolyLambda
