import PolyLambda.Check

/-!
# Entries

An entry is what a user types at one prompt.  It may take several lines: lines are
added to it until it is **complete**.  An entry that is blank or starts with a colon
is complete at once, and any other once it is a term or has an error before its end.

`Entry.read` takes an entry off a list of lines and leaves the lines after it.
-/

namespace PolyLambda
namespace Entry

/-- Whether an entry starts with a colon. -/
def isCommand (entry : Text) : Bool := entry.trim.head? == some (.char ':')

/-- Whether an entry has to be read as a term to know whether it is complete. -/
def isTerm (entry : Text) : Bool := !entry.isBlank && !isCommand entry

/-- Whether an entry can be answered. -/
def isComplete (entry : Text) : Bool :=
  if isTerm entry then
    match readTerm .systemF entry with
    | .ok _ => true
    | .error e => !e.isIncomplete entry
  else true

/-- An entry with one more line. -/
def extend (soFar : Option Text) (line : Text) : Text :=
  match soFar with
  | none => line
  | some entry => entry ++ "\n" ++ line

/-- Reads on an entry, of which a part may have been read. -/
def readFrom (soFar : Option Text) : List Text → Option (Text × List Text)
  | [] => none
  | line :: rest =>
    let entry := extend soFar line
    if isComplete entry then some (entry, rest) else readFrom (some entry) rest

/-- Reads an entry; there is none if the lines end before it is complete. -/
def read (lines : List Text) : Option (Text × List Text) := readFrom none lines

/-- The prompt before a line. -/
def prompt (soFar : Option Text) : Text := if soFar.isNone then "λ> " else ".. "

/-- The prompts before so many lines of one entry. -/
def prompts : Nat → Text
  | 0 => []
  | n + 1 => prompt none ++ (List.replicate n (prompt (some []))).flatten

/-- The events of finding an entry complete. -/
def events (entry : Text) : List Log.Event :=
  if isTerm entry then readEvents .systemF entry else []

theorem length_lt_of_readFrom {soFar : Option Text} {lines rest : List Text} {entry : Text}
    (h : readFrom soFar lines = some (entry, rest)) : rest.length < lines.length := by
  induction lines generalizing soFar with
  | nil => simp [readFrom] at h
  | cons line lines ih =>
    rw [readFrom] at h
    split at h
    · simp only [Option.some.injEq, Prod.mk.injEq] at h
      simp [h.2]
    · exact Nat.lt_succ_of_lt (ih h)

/-- Reading an entry takes at least one line. -/
theorem length_lt_of_read {lines rest : List Text} {entry : Text}
    (h : read lines = some (entry, rest)) : rest.length < lines.length :=
  length_lt_of_readFrom h

end Entry
end PolyLambda
