import PolyLambda.Context
import PolyLambda.Diagnostic.Collection
import PolyLambda.Text.Quoted
import PolyLambda.Text.Space

/-!
# Attributes of log lines

An attribute is a key with a value and is written `key=value`.  Some values are
**groups**: a context and a list of diagnostics stand for entries of their own, which
are written under the key of the attribute, as `key.name=value`.

An attribute or an entry whose own key is `time` is left out.  A group that has entries
but loses all of them to this rule is never closed: the attributes that follow it are
written under its key too.  So where an attribute is written depends on those before it
(`Log.place`).  A group without any entries is written as nothing and leaves no trace.
-/

namespace PolyLambda
namespace Log

/-! ## Values -/

/-- The value of an attribute. -/
inductive Value where
  | text (t : Text)
  | number (n : Int)
  | truth (b : Bool)
  | null
  | texts (ts : List Text)
  | term (t : Term)
  | type (t : Ty)
  | context (Γ : Context)
  | diagnostics (ds : List Diagnostic)
  deriving Repr, Inhabited

/-- Several texts in brackets. -/
def bracketed (ts : List Text) : Text := "[" ++ Text.join " " ts ++ "]"

/-- Whether a character asks for quotes around the text it stands in. -/
def needsQuotes : Glyph → Bool
  | .stray _ => true
  | .char c =>
    if c.toNat < 0x80 then c.toNat < 0x20 || c == ' ' || c == '=' || c == '"'
    else c == '\uFFFD' || Text.isSpace c || !Text.isPrintable c

/-- A text as it is written in a line: quoted only where a reader could mistake it. -/
def word (t : Text) : Text := if t.isEmpty || t.any needsQuotes then t.quoted else t

namespace Value

/-- The value that a term is; a gap is no value. -/
def ofTerm : Term → Value
  | .gap => .null
  | t => .term t

/-- The value that a type is; a gap is no value. -/
def ofTy : Ty → Value
  | .gap => .null
  | t => .type t

/-- The entries of a group, each with its keys below that of the group and its written
value. -/
def entries? : Value → Option (List (List Text × Text))
  | .context Γ => some (Γ.entries.map fun (x, t) => ([x], word t))
  | .diagnostics ds =>
    some ((Diagnostic.numbered ds).map fun (k, m) => ([k, Text.ofString "msg"], word m))
  | _ => none

/-- A value that is no group, as it is written. -/
def written : Value → Text
  | .text t => word t
  | .number n => Text.ofInt n
  | .truth b => if b then "true" else "false"
  | .null => "<nil>"
  | .texts ts => word (bracketed ts)
  | .term t => word t.render
  | .type t => word t.render
  | .context _ | .diagnostics _ => []

/-- The name of a section given as a value.  A term is named by its range.  A type or a
context is named by a place in memory, of which only the first digits can be told. -/
def sectionName : Value → Text
  | .text t => t
  | .number n => Text.ofInt n
  | .truth b => if b then "true" else "false"
  | .null => "<nil>"
  | .texts ts => bracketed ts
  | .term .gap | .type .gap => "\x7b<nil>\x7d"
  | .term t => "\x7b" ++ t.range.render ++ "\x7d"
  | .type .int => "\x7b0x"
  | .type _ | .context _ => "\x7b0xc000"
  | .diagnostics ds => Diagnostic.summary ds

end Value

/-! ## Attributes -/

/-- A named value. -/
structure Attr where
  key : Text
  value : Value
  deriving Repr, Inhabited

/-- Whether the last of several keys is one that is left out. -/
def isOmitted (keys : List Text) : Bool := keys.getLast? = some (Text.ofString "time")

/-- The keys of an attribute inside groups, as they are written.  A last key that is
empty asks for quotes. -/
def keyText (keys : List Text) : Text :=
  let joined : Text := .join "." keys
  if (keys.getLastD []).isEmpty || joined.any needsQuotes then joined.quoted else joined

namespace Attr

/-- The group that the entries of an attribute are written under; without a key there
is none. -/
def group (a : Attr) : List Text := if a.key.isEmpty then [] else [a.key]

/-- The pairs of keys and written value that an attribute stands for. -/
def pairs (a : Attr) : List (List Text × Text) :=
  match a.value.entries? with
  | some entries =>
    (entries.filter fun (keys, _) => !isOmitted keys).map fun (keys, v) => (a.group ++ keys, v)
  | none =>
    match a.value with
    | .null => if a.key.isEmpty || isOmitted [a.key] then [] else [([a.key], a.value.written)]
    | _ => if isOmitted [a.key] then [] else [([a.key], a.value.written)]

/-- Whether an attribute is kept.  A group without any entries counts as kept, though
nothing is written for it. -/
def isKept (a : Attr) : Bool := a.value.entries?.any List.isEmpty || !a.pairs.isEmpty

/-- The groups that are open after an attribute: one more when the attribute is a group
that is not kept. -/
def groupsAfter (groups : List Text) (a : Attr) : List Text :=
  if a.value.entries?.isSome && !a.isKept then groups ++ a.group else groups

/-- An attribute inside groups, as it is appended to a line. -/
def render (groups : List Text) (a : Attr) : Text :=
  a.pairs.flatMap fun (keys, v) => .char ' ' :: keyText (groups ++ keys) ++ .char '=' :: v

end Attr

/-! ## Sequences of attributes -/

/-- Attributes with the groups each of them is written under, if `groups` are open
before the first. -/
def place (groups : List Text) : List Attr → List (List Text × Attr)
  | [] => []
  | a :: rest => (groups, a) :: place (a.groupsAfter groups) rest

/-- The groups that are open after some attributes.  Attributes none of which is kept
open nothing. -/
def groupsAfter (groups : List Text) (attrs : List Attr) : List Text :=
  if attrs.any Attr.isKept then attrs.foldl Attr.groupsAfter groups else groups

/-- Placed attributes, as they are appended to a line. -/
def renderPlaced (placed : List (List Text × Attr)) : Text :=
  placed.flatMap fun (groups, a) => a.render groups

/-- The sections that attributes name. -/
def sectionsOf (attrs : List Attr) : List Text :=
  attrs.filterMap fun a =>
    if a.key = Text.ofString "section" then some a.value.sectionName else none

/-- A group that loses its only entry stays open. -/
example :
    renderPlaced (place []
      [⟨"k", .context [(Text.ofString "time", .int)]⟩, ⟨"a", .number 1⟩]) =
      Text.ofString " k.a=1" := by
  decide

end Log
end PolyLambda
