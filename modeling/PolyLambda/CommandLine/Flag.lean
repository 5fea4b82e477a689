import PolyLambda.Log
import PolyLambda.Text.Numeral

/-!
# Flags

A flag is given by its name after two dashes or, if it has one, by its letter after one
dash.  Letters can be clustered.  A value follows an equals sign, or the letter, or is
the next argument; a **switch** needs no value and then means yes.  Arguments that are
no flags are words, and may stand between flags.  After `--` there are only words.
-/

namespace PolyLambda
namespace CommandLine

/-- What can be set by a flag. -/
inductive Flag where
  | dump
  | file
  | help
  | level
  | traced
  | simplyTyped
  deriving DecidableEq, Repr, Inhabited

namespace Flag

/-- The name of a flag. -/
def name : Flag → String
  | dump => "dump"
  | file => "file"
  | help => "help"
  | level => "log-level"
  | traced => "stacks"
  | simplyTyped => "stlc"

/-- The letter of a flag. -/
def letter? : Flag → Option Char
  | file => some 'f'
  | help => some 'h'
  | level => some 'l'
  | _ => none

/-- A flag as it is shown in an error. -/
def shown (f : Flag) : Text :=
  match f.letter? with
  | some c => "-" ++ Text.ofChars [c] ++ ", --" ++ Text.ofString f.name
  | none => "--" ++ Text.ofString f.name

/-- Whether a flag can stand without a value. -/
def isSwitch : Flag → Bool
  | file | level => false
  | _ => true

end Flag

/-- What the flags of a command line set. -/
structure Options where
  dump : Bool
  /-- The file to read; none if empty. -/
  file : Text
  help : Bool
  /-- The least level of log records to write. -/
  level : Int
  /-- Whether errors are printed with where they were raised. -/
  traced : Bool
  simplyTyped : Bool
  deriving DecidableEq, Repr, Inhabited

namespace Options

/-- The options without any flag. -/
def initial : Options := ⟨false, [], false, Log.warn, false, false⟩

/-- The calculus to check in. -/
def calculus (o : Options) : Calculus := if o.simplyTyped then .simplyTyped else .systemF

/-- What is logged. -/
def settings (o : Options) : Log.Settings := Log.Settings.initial.withLevel o.level

end Options

/-- What can be wrong with a flag. -/
inductive FlagError where
  /-- Two dashes without a name. -/
  | noName (arg : Text)
  | unknownName (name : Text)
  /-- A letter that no flag has, in a cluster. -/
  | unknownLetter (letter : Char) (cluster : Text)
  /-- No value for a flag given by name. -/
  | noValue (arg : Text)
  /-- No value for a flag given by letter. -/
  | noValueAfter (letter : Char) (cluster : Text)
  | notInteger (flag : Flag) (value : Text) (fault : Numeral.Fault)
  | notTruth (flag : Flag) (value : Text)
  deriving DecidableEq, Repr, Inhabited

namespace FlagError

/-- How a refused value is described. -/
def refusal (flag : Flag) (value : Text) (reader fault : String) : Text :=
  "invalid argument " ++ value.quoted ++ " for " ++ flag.shown.quoted ++ " flag: strconv." ++
    Text.ofString reader ++ ": parsing " ++ value.quoted ++ ": " ++ Text.ofString fault

/-- The wording of an error. -/
def message : FlagError → Text
  | noName arg => "bad flag syntax: " ++ arg
  | unknownName name => "unknown flag: --" ++ name
  | unknownLetter c cluster =>
    "unknown shorthand flag: " ++ Text.quotedChar c ++ " in -" ++ cluster
  | noValue arg => "flag needs an argument: " ++ arg
  | noValueAfter c cluster =>
    "flag needs an argument: " ++ Text.quotedChar c ++ " in -" ++ cluster
  | notInteger flag value .malformed => refusal flag value "ParseInt" "invalid syntax"
  | notInteger flag value .tooLarge => refusal flag value "ParseInt" "value out of range"
  | notTruth flag value => refusal flag value "ParseBool" "invalid syntax"

end FlagError

/-- Reads the value of a switch. -/
def Flag.switch (f : Flag) (value : Text) : Except FlagError Bool :=
  match Numeral.truth? value with
  | some b => .ok b
  | none => .error (.notTruth f value)

/-- Sets a flag to a value. -/
def Flag.set (f : Flag) (value : Text) (o : Options) : Except FlagError Options :=
  match f with
  | dump => return { o with dump := ← f.switch value }
  | file => return { o with file := value }
  | help => return { o with help := ← f.switch value }
  | level =>
    match Numeral.integer value with
    | .ok n => .ok { o with level := n }
    | .error fault => .error (.notInteger f value fault)
  | traced => return { o with traced := ← f.switch value }
  | simplyTyped => return { o with simplyTyped := ← f.switch value }

/-- Where a reader of flags stands after an argument. -/
inductive Progress where
  /-- All flags so far have their values. -/
  | settled (o : Options)
  /-- A flag takes the next argument as its value; without one there is an error. -/
  | waiting (f : Flag) (missing : FlagError) (o : Options)
  deriving Repr, Inhabited

/-- Sets a flag that has its value. -/
def Flag.settle (f : Flag) (value : Text) (o : Options) : Except FlagError Progress :=
  return .settled (← f.set value o)

/-- Reads the letters of a cluster.  Clusters that start with `test.` are passed over,
also within another cluster. -/
def readCluster (known : List Flag) (o : Options) : Text → Except FlagError Progress
  | [] => .ok (.settled o)
  | g :: more =>
    if Text.startsWith (g :: more) "test." then .ok (.settled o)
    else
      match known.find? fun f => f.letter?.any fun c => g = .char c with
      | none =>
        .error (.unknownLetter (Char.ofNat (g.bytes.headD 0).toNat) (g :: more))
      | some f =>
        if more.head? = some (.char '=') ∧ more.length > 1 then f.settle more.tail o
        else if f.isSwitch then
          match f.set "true" o with
          | .ok o => readCluster known o more
          | .error e => .error e
        else if more.isEmpty then .ok (.waiting f (.noValueAfter g.seen [g]) o)
        else f.settle more o

/-- Reads what follows two dashes. -/
def readNamed (known : List Flag) (o : Options) (body : Text) : Except FlagError Progress :=
  let arg : Text := "--" ++ body
  if body.head? = some (.char '-') ∨ body.head? = some (.char '=') then .error (.noName arg)
  else
    let (name, value?) : Text × Option Text :=
      match body.cut '=' with
      | some (name, value) => (name, some value)
      | none => (body, none)
    match known.find? fun f => name = Text.ofString f.name, value? with
    | none, _ => .error (.unknownName name)
    | some f, some value => f.settle value o
    | some f, none => if f.isSwitch then f.settle "true" o else .ok (.waiting f (.noValue arg) o)

/-- Reads flags on, and returns the options and the words. -/
def readFlagsFrom (known : List Flag) :
    Progress → List Text → Except FlagError (Options × List Text)
  | .settled o, [] => .ok (o, [])
  | .waiting _ missing _, [] => .error missing
  | .waiting f _ o, value :: rest => do readFlagsFrom known (.settled (← f.set value o)) rest
  | .settled o, arg :: rest =>
    match arg with
    | [.char '-', .char '-'] => .ok (o, rest)
    | .char '-' :: .char '-' :: body => do readFlagsFrom known (← readNamed known o body) rest
    | .char '-' :: g :: more => do readFlagsFrom known (← readCluster known o (g :: more)) rest
    | word => do
      let (o, words) ← readFlagsFrom known (.settled o) rest
      return (o, word :: words)

/-- Reads the flags and words of a command line on which the given flags are known. -/
def readFlags (known : List Flag) (args : List Text) : Except FlagError (Options × List Text) :=
  readFlagsFrom known (.settled .initial) args

end CommandLine
end PolyLambda
