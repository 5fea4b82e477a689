import PolyLambda.CommandLine.Outcome
import PolyLambda.Session.Conversation

/-!
# Running command lines

A run of the program as a function of its surroundings: the bytes on its input, the
files of its home directory, in which it also runs, and the traces that are kept of what
it raises.  Only a session at the prompt changes a file, the one that keeps the history.
-/

namespace PolyLambda
namespace CommandLine

/-- What a run can read. -/
structure Surroundings where
  /-- The home directory. -/
  home : Directory
  /-- The bytes on the input. -/
  input : List UInt8
  /-- The traces of what is raised. -/
  traces : Traces
  deriving Inhabited

/-- The name of the file that keeps the history. -/
def historyName : Text := ".systemf_history"

/-- The text of a source. -/
def Source.read (w : Surroundings) : Source → Except Text Text
  | .given source => .ok source
  | .input => .ok (.decode w.input)
  | .file path =>
    match w.home.read path with
    | .ok bs => .ok (.decode bs)
    | .error e => .error (unreadable path e)

/-- Checks what the options and the word given ask for. -/
def checkRequested (w : Surroundings) (o : Options) (expression? : Option Text) : Outcome :=
  match o.source expression? with
  | .error e => .failure .nothing e.message
  | .ok source =>
    match source.read w with
    | .error message => .failure .nothing message
    | .ok text => checkSource o w.traces text

/-- The event of a history that cannot be read to its end. -/
def historyEvent (path reason : Text) : Log.Event :=
  ⟨.ofSection "cli", Log.debug, "could not read history",
    [⟨"path", .text path⟩, ⟨"error", .text reason⟩]⟩

/-- The stored history as it is taken up, and what is logged about it. -/
def takeUp (settings : Log.Settings) (path : Text) (stored? : Option (List UInt8)) :
    History × Printed :=
  match stored?.map History.ofBytes with
  | none => (.empty, .nothing)
  | some (history, none) => (history, .nothing)
  | some (history, some reason) =>
    (history, .note (Log.writeAll settings [historyEvent path reason]))

/-- Holds a session at the prompt. -/
def converse (w : Surroundings) (o : Options) : Printed × Directory :=
  let (history, noted) := takeUp o.settings historyName (w.home.get? historyName)
  let start : Conversation := ⟨.start o.calculus, history⟩
  let (printed, last) := start.hold o.settings ((Line.ofBytes w.input).map Line.text)
  (noted ++ .result (Conversation.greeting o.calculus) ++ printed,
    w.home.put historyName last.history.render.bytes)

/-- Does what a request asks for. -/
def Request.run (w : Surroundings) : Request → Outcome × Directory
  | .help verb => (.success (.result verb.helpText), w.home)
  | .check o expression? => (checkRequested w o expression?, w.home)
  | .repl o =>
    let (printed, home) := converse w o
    (.success printed, home)
  | .subst x t s => (replaceVariable x t s, w.home)

/-- Runs a command line; the home directory may have changed afterwards. -/
def run (w : Surroundings) (args : List Text) : Outcome × Directory :=
  match Request.ofArgs args with
  | .error e => (.failure .nothing e.message, w.home)
  | .ok request => request.run w

end CommandLine
end PolyLambda
