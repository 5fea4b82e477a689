import PolyLambda.Diagnostic

/-!
# Shared collections of diagnostics

Collections are shared: several holders may refer to one collection, and what is
added through one of them is seen through all.  A `Shelf` holds the collections, and
a **handle** is the number of one of them, or `none` for no collection at all.
Adding to no collection starts a new one.
-/

namespace PolyLambda

/-- The collections in use, by number. -/
structure Shelf where
  collections : List (List Diagnostic)
  deriving DecidableEq, Repr, Inhabited

/-- A reference to a collection, or to none. -/
abbrev Handle := Option Nat

namespace Shelf

/-- No collection at all. -/
def empty : Shelf := ⟨[]⟩

/-- The diagnostics behind a handle; none without a collection. -/
def get (s : Shelf) : Handle → List Diagnostic
  | none => []
  | some i => s.collections.getD i []

/-- A new collection with the given diagnostics. -/
def create (s : Shelf) (ds : List Diagnostic) : Handle × Shelf :=
  (some s.collections.length, ⟨s.collections ++ [ds]⟩)

/-- More diagnostics behind a handle. -/
def add (s : Shelf) (h : Handle) (ds : List Diagnostic) : Handle × Shelf :=
  match h with
  | none => s.create ds
  | some i => (some i, ⟨s.collections.modify i (· ++ ds)⟩)

/-- The diagnostics behind `k` added behind `h`.  No collection on one side gives the
other, and an empty one adds nothing. -/
def merge (s : Shelf) (h k : Handle) : Handle × Shelf :=
  match h with
  | none => (k, s)
  | some _ => if (s.get k).isEmpty then (h, s) else s.add h (s.get k)

end Shelf

namespace Diagnostic

/-- Several diagnostics in one text, a line for each. -/
def summary (ds : List Diagnostic) : Text := .join "\n" (ds.map (short none))

/-- Several diagnostics under numbered keys. -/
def numbered (ds : List Diagnostic) : List (Text × Text) :=
  ds.zipIdx.map fun (d, i) => ("e" ++ Text.ofNat i, d.short none)

/-- The summary of diagnostics that can all be written. -/
def summary? (ds : List Diagnostic) : Option Text :=
  if ds.all isWritable then some (summary ds) else none

end Diagnostic

end PolyLambda
