import PolyLambda.Check

/-!
# Sessions

A session is what an interactive user builds up: the variables bound so far, with
their types, and the calculus in use.  An input is a command, which starts with a
colon, or a term to check.

Only three commands change a session: `:let` when it succeeds, `:stlc` and
`:systemf`.
-/

namespace PolyLambda

/-- The state of a session. -/
structure Session where
  context : Context
  calculus : Calculus
  deriving DecidableEq, Repr, Inhabited

/-- What is answered to an input. -/
inductive Reply where
  /-- A result to print. -/
  | result (t : Text)
  /-- An error to print. -/
  | error (t : Text)
  /-- The end of the session. -/
  | quit
  deriving DecidableEq, Repr, Inhabited

/-- What an input asks for. -/
inductive Command where
  | quit
  | help
  | context
  | useSimplyTyped
  | useSystemF
  /-- Read and print a type. -/
  | type (source : Text)
  /-- Bind a name to the type of a term. -/
  | bind (definition : Text)
  /-- Check a term. -/
  | check (source : Text)
  | unknown (command : Text)
  deriving DecidableEq, Repr, Inhabited

namespace Command

/-- The commands, as they are explained to the user. -/
def helpText : String :=
  "REPL commands:
  :let x = term   check term and bind x to its type for the rest of the session
  :type T         parse and print a type
  :ctx            list the bindings of the session
  :stlc           only accept the simply-typed lambda calculus
  :systemf        accept System F (the default)
  :help           show this message
  :quit           exit the REPL
Anything else is checked as a term."

/-- The command named `word`, with the text after it. -/
def named (word rest : Text) : Command :=
  if word = Text.ofString ":quit" ∨ word = Text.ofString ":q" then quit
  else if word = Text.ofString ":help" ∨ word = Text.ofString ":h" then help
  else if word = Text.ofString ":ctx" then context
  else if word = Text.ofString ":stlc" then useSimplyTyped
  else if word = Text.ofString ":systemf" then useSystemF
  else if word = Text.ofString ":type" then type rest
  else if word = Text.ofString ":let" then bind rest
  else unknown word

/-- What a trimmed input asks for.  The name of a command ends at the first space. -/
def ofTrimmed (input : Text) : Command :=
  if input.head? = some (.char ':') then
    let (word, rest) := (input.cut ' ').getD (input, [])
    named word rest.trim
  else check input

/-- What an input asks for. -/
def ofInput (input : Text) : Command := ofTrimmed input.trim

end Command

/-- The name and the source of a definition `name = source`; neither may be blank. -/
def splitDefinition (definition : Text) : Option (Text × Text) :=
  match definition.cut '=' with
  | none => none
  | some (name, source) =>
    if name.trim.isEmpty || source.trim.isEmpty then none else some (name.trim, source.trim)

/-- Whether a name can be bound: it has to read as a variable. -/
def isVariableName (name : Text) : Bool :=
  match readTerm .systemF name with
  | .ok (.var ..) => true
  | _ => false

/-- The report of a failure against a source; there are no gaps in a source. -/
def Failure.report (source : Text) : Failure → Text
  | .diagnostic d => d.report none source
  | .gap => []

namespace Session

/-- A session in which nothing is bound. -/
def start (c : Calculus) : Session := ⟨.empty, c⟩

/-- The bindings of a session, a line for each. -/
def listing (s : Session) : Text :=
  if s.context.isEmpty then "(empty)"
  else .join "\n" (s.context.entries.map fun (x, t) => x ++ " : " ++ t)

/-- Checks a source in the session. -/
def check (s : Session) (source : Text) : Except Failure Checked :=
  PolyLambda.check s.context s.calculus source

/-- Binds a name to the type of a term. -/
def bind (s : Session) (definition : Text) : Reply × Session :=
  match splitDefinition definition with
  | none => (.error "expected :let name = term", s)
  | some (name, source) =>
    if isVariableName name then
      match s.check source with
      | .ok checked =>
        (.result (name ++ " : " ++ checked.type.render),
          { s with context := s.context.assign name checked.type })
      | .error f => (.error (f.report source), s)
    else (.error ("'" ++ name ++ "' is not a valid variable name"), s)

/-- Does what a command asks for. -/
def run (s : Session) : Command → Reply × Session
  | .quit => (.quit, s)
  | .help => (.result Command.helpText, s)
  | .context => (.result s.listing, s)
  | .useSimplyTyped =>
    (.result ("now checking the " ++ Calculus.simplyTyped.name),
      { s with calculus := .simplyTyped })
  | .useSystemF =>
    (.result ("now checking " ++ Calculus.systemF.name), { s with calculus := .systemF })
  | .type source =>
    match readType s.calculus source with
    | .ok t => (.result t.render, s)
    | .error e => (.error (e.diagnostic.report none source), s)
  | .bind definition => s.bind definition
  | .check source =>
    match s.check source with
    | .ok checked => (.result checked.type.render, s)
    | .error f => (.error (f.report source), s)
  | .unknown word => (.error ("unknown command " ++ word ++ ", type :help for a list"), s)

/-- The answer to an input, and the session after it. -/
def eval (s : Session) (input : Text) : Reply × Session := s.run (.ofInput input)

/-- The events of answering an input. -/
def evalEvents (s : Session) (input : Text) : List Log.Event :=
  match Command.ofInput input with
  | .check source => checkEvents s.context s.calculus source
  | .bind definition =>
    match splitDefinition definition with
    | none => []
    | some (name, source) =>
      readEvents .systemF name ++
        if isVariableName name then checkEvents s.context s.calculus source else []
  | _ => []

end Session

end PolyLambda
