import PolyLambda.Line

/-!
# History

The history holds the latest entries of a user, the last one last.  An entry that
repeats the one before it is not added, and only the last `History.limit` entries are
kept.

It is stored one entry a line.  Reading it back stops at the first line that is too
long or not well formed; the entries before that line are kept.
-/

namespace PolyLambda

/-- The latest entries, the last one last. -/
structure History where
  entries : List Text
  deriving DecidableEq, Repr, Inhabited

namespace History

/-- The number of entries kept. -/
def limit : Nat := 1000

/-- The history without entries. -/
def empty : History := ⟨[]⟩

/-- Only the last entries, as many as are kept. -/
def latest (entries : List Text) : History := ⟨entries.drop (entries.length - limit)⟩

/-- The history with one more entry. -/
def append (h : History) (entry : Text) : History :=
  if h.entries.getLast? = some entry then h else latest (h.entries ++ [entry])

/-- The stored form. -/
def render (h : History) : Text := h.entries.flatMap fun entry => entry ++ "\n"

/-- Why a stored history is not read to its end. -/
inductive Fault where
  | lineTooLong
  | malformedLine
  deriving DecidableEq, Repr, Inhabited

/-- What is told of a fault at a line. -/
def Fault.message (line : Nat) : Fault → Text
  | lineTooLong => "line " ++ Text.ofNat line ++ " is too long"
  | malformedLine => "invalid string at line " ++ Text.ofNat line

/-- The fault of a line, if it has one. -/
def faultOf (l : Line) : Option Fault :=
  if !l.isEnded then some .lineTooLong
  else if !l.text.isWellFormed then some .malformedLine
  else none

/-- The lines before the first fault, and that fault with what follows. -/
def upToFault : List Line → List Text × Option Fault
  | [] => ([], none)
  | l :: rest =>
    match faultOf l with
    | some f => ([], some f)
    | none =>
      let (entries, fault) := upToFault rest
      (l.text :: entries, fault)

/-- Reads a stored history, and tells what stopped the reading. -/
def ofBytes (bs : List UInt8) : History × Option Text :=
  let (entries, fault) := upToFault (Line.ofBytes bs)
  (latest entries, fault.map (·.message (entries.length + 1)))

end History
end PolyLambda
