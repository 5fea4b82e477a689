import PolyLambda.Text.Utf8

/-!
# Lines of input

Input arrives as bytes and is used line by line.  A line ends at a newline, which may
follow a carriage return, or at the end of the input.

A line that is too long comes in **pieces** of `Line.limit` bytes.  A carriage return
is never the last byte of a piece: it waits, as a newline may follow it.

`LineReader` takes one byte at a time, so that lines can be had while the input is
still being typed; `Line.ofBytes` reads a whole input with it.
-/

namespace PolyLambda

/-- A line, or a piece of one, without the newline that ends it. -/
structure Line where
  bytes : List UInt8
  /-- Whether this is a whole line, or the end of one. -/
  isEnded : Bool
  deriving DecidableEq, Repr, Inhabited

namespace Line

/-- The number of bytes after which a line is divided. -/
def limit : Nat := 4096

/-- The byte of a newline. -/
def newline : UInt8 := 0x0A

/-- The byte of a carriage return. -/
def carriageReturn : UInt8 := 0x0D

/-- The text of a line. -/
def text (l : Line) : Text := .decode l.bytes

end Line

/-- The bytes of the line being read, the last one first, and their number. -/
structure LineReader where
  pending : List UInt8
  count : Nat
  deriving DecidableEq, Repr, Inhabited

namespace LineReader

/-- Before the first byte of a line. -/
def start : LineReader := ⟨[], 0⟩

/-- The line that a newline ends. -/
def ended : List UInt8 → Line
  | [] => ⟨[], true⟩
  | b :: before =>
    ⟨(if b = Line.carriageReturn then before else b :: before).reverse, true⟩

/-- Takes a byte, which may complete a line. -/
def take (r : LineReader) (b : UInt8) : LineReader × Option Line :=
  if b = Line.newline then (start, some (ended r.pending))
  else if r.count + 1 < Line.limit then (⟨b :: r.pending, r.count + 1⟩, none)
  else if b = Line.carriageReturn then (⟨[b], 1⟩, some ⟨r.pending.reverse, false⟩)
  else (start, some ⟨(b :: r.pending).reverse, false⟩)

/-- The line left at the end of the input, if any. -/
def finish (r : LineReader) : Option Line :=
  if r.pending.isEmpty then none else some ⟨r.pending.reverse, true⟩

/-- The lines of the rest of an input. -/
def lines (r : LineReader) : List UInt8 → List Line
  | [] => r.finish.toList
  | b :: rest =>
    match r.take b with
    | (r, none) => r.lines rest
    | (r, some l) => l :: r.lines rest

end LineReader

/-- The lines of an input. -/
def Line.ofBytes (bs : List UInt8) : List Line := LineReader.start.lines bs

example : (Line.ofBytes (Text.bytes "ab\r\n\nc\r")).map Line.text =
    ["ab", "", "c\r"].map Text.ofString := by
  decide

end PolyLambda
