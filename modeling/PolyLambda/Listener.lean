import PolyLambda.Parser

/-!
# Listening to parse errors

A caller can have listeners told of the error that ends a reading.  They are told in
turn, after the error has been collected.  A listener may itself fail; then the
reading fails for the reason that the listener gives, and the listeners after it hear
nothing.
-/

namespace PolyLambda

/-- Someone who is told of parse errors. -/
inductive Listener where
  /-- Listens. -/
  | recorder
  /-- Listens and then fails for a reason. -/
  | failing (reason : Text)
  deriving DecidableEq, Repr, Inhabited

/-- What the listeners hear of an error, one list for each, and the reason for which one
of them failed, if one did. -/
def Listener.broadcast (e : ParseError) : List Listener → List (List ParseError) × Option Text
  | [] => ([], none)
  | recorder :: rest =>
    let (heard, failed) := broadcast e rest
    ([e] :: heard, failed)
  | failing reason :: rest => ([e] :: rest.map fun _ => [], some reason)

/-- How a reading ends when others are involved in it. -/
inductive Attended (α : Type) where
  /-- The source was read. -/
  | success (value : α)
  /-- The source has an error, which the listeners heard. -/
  | rejected (error : ParseError) (heard : List (List ParseError))
  /-- The reading failed for a reason that is not in the source; the error found
  before, if any, and what the listeners heard are kept. -/
  | internal (message : Text) (error : Option ParseError) (heard : List (List ParseError))
  deriving Repr

/-- The outcome of a reading with listeners. -/
def Listener.attend {α : Type} (ls : List Listener) : Except ParseError α → Attended α
  | .ok a => .success a
  | .error e =>
    match broadcast e ls with
    | (heard, none) => .rejected e heard
    | (heard, some reason) => .internal ("parser panicked: " ++ reason) (some e) heard

/-- The outcome when the source itself could not be obtained. -/
def Attended.unreadable {α : Type} (reason : Text) (ls : List Listener) : Attended α :=
  .internal ("could not read source: " ++ reason) none (ls.map fun _ => [])

end PolyLambda
