import PolyLambda.Text

/-!
# Printed output

What a program prints on its two channels: results on one, errors, warnings and log
lines on the other.
-/

namespace PolyLambda

/-- What is printed, channel by channel. -/
structure Printed where
  /-- Results. -/
  out : Text
  /-- Errors, warnings and log lines. -/
  err : Text
  deriving DecidableEq, Repr, Inhabited

namespace Printed

/-- Nothing is printed. -/
def nothing : Printed := ⟨[], []⟩

/-- A result. -/
def result (t : Text) : Printed := ⟨t, []⟩

/-- A note on the channel of errors. -/
def note (t : Text) : Printed := ⟨[], t⟩

instance : Append Printed := ⟨fun p q => ⟨p.out ++ q.out, p.err ++ q.err⟩⟩

@[simp] theorem append_out (p q : Printed) : (p ++ q).out = p.out ++ q.out := rfl

@[simp] theorem append_err (p q : Printed) : (p ++ q).err = p.err ++ q.err := rfl

end Printed

end PolyLambda
