import PolyLambda.CommandLine.Flag

/-!
# Commands of the program

The first word of a command line names what to do; without such a word only the program
itself is meant.  Which flags are known depends on the command, so the command is found
before the flags are read: an argument that looks like a flag without a value is taken
to have the next argument as its value.
-/

namespace PolyLambda
namespace CommandLine

/-- What the program can be told to do. -/
inductive Verb where
  /-- No command. -/
  | program
  | check
  | help
  | repl
  | subst
  deriving DecidableEq, Repr, Inhabited

namespace Verb

/-- The flags known to a command. -/
def flags : Verb → List Flag
  | program | help | subst => [.help]
  | check => [.dump, .file, .help, .level, .traced, .simplyTyped]
  | repl => [.help, .level, .simplyTyped]

/-- The command a word names. -/
def named? (word : Text) : Option Verb :=
  if word = Text.ofString "check" then some check
  else if word = Text.ofString "help" then some help
  else if word = Text.ofString "repl" then some repl
  else if word = Text.ofString "subst" then some subst
  else none

/-- The help of the program. -/
def programHelp : String :=
  "systemf λ
 a type checker for System F and the simply-typed lambda calculus

Usage:
  systemf [command]

Available Commands:
  check       Infer the type of an expression
  completion  Generate the autocompletion script for the specified shell
  help        Help about any command
  repl        Check terms interactively
  subst       Substitute a type for a type variable

Flags:
  -h, --help   help for systemf

Use \"systemf [command] --help\" for more information about a command.
"

/-- The help of `check`. -/
def checkHelp : String :=
  "Infer the type of an expression, given either as the argument or read from --file.

Examples:
  systemf check '(λx: Int. x) 1'
  systemf check '(ΛX: *. λx: X. x) [Int]'
  systemf check --stlc -f program.stlc

Usage:
  systemf check [expression] [flags]

Flags:
      --dump            dump the parsed term before checking it
  -f, --file string     read the expression from a file, or stdin with '-'
  -h, --help            help for check
  -l, --log-level int   log level (default 4)
      --stacks          print where errors were raised in the checker
      --stlc            only accept the simply-typed lambda calculus
"

/-- The help of `help`. -/
def helpHelp : String :=
  "Help provides help for any command in the application.
Simply type systemf help [path to command] for full details.

Usage:
  systemf help [command] [flags]

Flags:
  -h, --help   help for help
"

/-- The help of `repl`. -/
def replHelp : String :=
  "Check terms interactively

Usage:
  systemf repl [flags]

Flags:
  -h, --help            help for repl
  -l, --log-level int   log level (default 4)
      --stlc            start in the simply-typed lambda calculus
"

/-- The help of `subst`. -/
def substHelp : String :=
  "Print TYPE with every free occurrence of VAR replaced by REPLACEMENT.

The substitution is not capture-avoiding, and a warning is printed whenever
a binder in TYPE captures a free variable of REPLACEMENT.

Examples:
  systemf subst X 'X -> X' Int
  systemf subst X '∀Y: *. X -> Y' Y

Usage:
  systemf subst VAR TYPE REPLACEMENT [flags]

Flags:
  -h, --help   help for subst
"

/-- The help of a command. -/
def helpText : Verb → String
  | program => programHelp
  | check => checkHelp
  | help => helpHelp
  | repl => replHelp
  | subst => substHelp

/-! ## Finding the command -/

/-- Whether an argument ends the flags. -/
def endsFlags (arg : Text) : Bool := arg = Text.ofString "--"

/-- Whether the argument after this one is taken to be its value: it is a name after
two dashes, or one byte after one dash, and has no value of its own. -/
def takesNext (arg : Text) : Bool :=
  !arg.contains (.char '=') &&
    (arg.startsWith "--" || (arg.startsWith "-" && arg.bytes.length == 2))

/-- The first word.  The search gives up at a flag that takes the last argument. -/
def firstWord : List Text → Option Text
  | [] => none
  | arg :: rest =>
    if endsFlags arg then none
    else if takesNext arg then
      match rest with
      | _ :: next :: more => firstWord (next :: more)
      | _ => none
    else if arg.isEmpty || arg.startsWith "-" then firstWord rest
    else some arg

/-- The arguments without the first word. -/
def withoutFirst (word : Text) : List Text → List Text
  | [] => []
  | arg :: rest =>
    if endsFlags arg then arg :: rest
    else if takesNext arg then
      match rest with
      | [] => [arg]
      | value :: more => arg :: value :: withoutFirst word more
    else if arg = word then rest
    else arg :: withoutFirst word rest

/-- The command of a command line, and its arguments. -/
def find (args : List Text) : Verb × List Text :=
  match firstWord args with
  | none => (program, args)
  | some word =>
    match named? word with
    | none => (program, args)
    | some verb => (verb, withoutFirst word args)

end Verb
end CommandLine
end PolyLambda
