import PolyLambda.CommandLine.Verb

/-!
# Requests

A request is what a command line asks for, once its flags and the number of its words
are found in order.  Asking for help goes before counting words.
-/

namespace PolyLambda
namespace CommandLine

/-- What a command line asks for. -/
inductive Request where
  /-- The help of a command. -/
  | help (verb : Verb)
  /-- Checking a source, which may be given as a word. -/
  | check (o : Options) (expression? : Option Text)
  /-- A session at a prompt. -/
  | repl (o : Options)
  /-- Replacing a type variable. -/
  | subst (name target replacement : Text)
  deriving DecidableEq, Repr, Inhabited

/-- What can be wrong with a command line. -/
inductive UsageError where
  | flag (e : FlagError)
  /-- More words than a check can take. -/
  | tooManyWords (count : Nat)
  /-- More or fewer words than a replacement takes. -/
  | notThreeWords (count : Nat)
  /-- A word where none is taken. -/
  | strayWord (word : Text)
  deriving DecidableEq, Repr, Inhabited

/-- The wording of an error. -/
def UsageError.message : UsageError → Text
  | flag e => e.message
  | tooManyWords n => "accepts at most 1 arg(s), received " ++ Text.ofNat n
  | notThreeWords n => "accepts 3 arg(s), received " ++ Text.ofNat n
  | strayWord word => "unknown command " ++ word.quoted ++ " for \"systemf repl\""

namespace Request

/-- The request of a command with options and words. -/
def ofWords (o : Options) (words : List Text) : Verb → Except UsageError Request
  | .program => .ok (.help .program)
  | .help => .ok (.help (Verb.find words).1)
  | .check =>
    match words with
    | [] => .ok (.check o none)
    | [expression] => .ok (.check o (some expression))
    | _ => .error (.tooManyWords words.length)
  | .repl =>
    match words with
    | [] => .ok (.repl o)
    | word :: _ => .error (.strayWord word)
  | .subst =>
    match words with
    | [x, t, s] => .ok (.subst x t s)
    | _ => .error (.notThreeWords words.length)

/-- The request of a command line. -/
def ofArgs (args : List Text) : Except UsageError Request :=
  let (verb, rest) := Verb.find args
  match readFlags verb.flags rest with
  | .error e => .error (.flag e)
  | .ok (o, words) => if o.help then .ok (.help verb) else ofWords o words verb

end Request
end CommandLine
end PolyLambda
