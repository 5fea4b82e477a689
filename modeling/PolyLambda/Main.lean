import PolyLambda.CommandLine.Run

/-!
# The program

Runs a command line on the files, the input and the output of the machine.
-/

namespace PolyLambda
namespace CommandLine

/-- Writes a text to a channel. -/
def writeTo (channel : IO.FS.Stream) (t : Text) : IO Unit := do
  unless t.isEmpty do
    channel.write (ByteArray.mk t.bytes.toArray)
    channel.flush

/-- Prints on both channels. -/
def emit (p : Printed) : IO Unit := do
  writeTo (← IO.getStdout) p.out
  writeTo (← IO.getStderr) p.err

/-- Prints an outcome and gives the exit code. -/
def conclude (o : Outcome) : IO UInt32 := do
  emit o.printed
  return if o.error?.isSome then 1 else 0

/-- The cause of a failure to read a file. -/
def causeOf : IO.Error → FileError
  | .noFileOrDirectory .. => .missing
  | .inappropriateType .. => .isDirectory
  | .permissionDenied .. => .denied
  | .invalidArgument .. => .invalidName
  | _ => .missing

/-- The path of a text. -/
def pathOf (t : Text) : String := String.ofList t.chars

/-- Reads all that is left of an input, after the bytes already read. -/
partial def readOn (input : IO.FS.Stream) (before : ByteArray) : IO ByteArray := do
  let bs ← input.read 65536
  if bs.isEmpty then return before else readOn input (before ++ bs)

/-- Obtains the text of a source. -/
def Source.obtain : Source → IO (Except Text Text)
  | .given source => return .ok source
  | .input => return .ok (.decode (← readOn (← IO.getStdin) .empty).toList)
  | .file path => do
    match ← (IO.FS.readBinFile (pathOf path)).toBaseIO with
    | .ok bs => return .ok (.decode bs.toList)
    | .error e => return .error (unreadable path (causeOf e))

/-- Waits for a line of input. -/
partial def nextLine (input : IO.FS.Stream) (r : LineReader) : IO (LineReader × Option Line) := do
  match (← input.read 1).toList with
  | [] => return (.start, r.finish)
  | b :: _ =>
    match r.take b with
    | (r, none) => nextLine input r
    | (r, some l) => return (r, some l)

/-- Answers entries until the user quits or the input ends. -/
partial def attend (settings : Log.Settings) (input : IO.FS.Stream) (r : LineReader)
    (soFar : Option Text) (c : Conversation) : IO Conversation := do
  emit (.result (Entry.prompt soFar))
  match ← nextLine input r with
  | (_, none) =>
    emit (.result "\n")
    return c
  | (r, some l) =>
    let entry := Entry.extend soFar l.text
    if Entry.isComplete entry then
      let turn := c.answer settings entry
      emit turn.printed
      if turn.isLast then return turn.next
      attend settings input r none turn.next
    else attend settings input r (some entry) c

/-- Holds a session at the prompt. -/
def session (o : Options) : IO Unit := do
  let home := (← IO.getEnv "HOME").getD ""
  let path := if home.isEmpty then pathOf historyName else home ++ "/" ++ pathOf historyName
  let stored ← (IO.FS.readBinFile path).toBaseIO
  let (history, noted) := takeUp o.settings path (stored.toOption.map (·.toList))
  emit (noted ++ .result (Conversation.greeting o.calculus))
  let last ← attend o.settings (← IO.getStdin) .start none ⟨.start o.calculus, history⟩
  let _ ← (IO.FS.writeBinFile path (ByteArray.mk last.history.render.bytes.toArray)).toBaseIO

/-- No trace is kept of anything that is raised. -/
def untraced : Traces := fun _ => none

/-- Does what a request asks for. -/
def Request.perform : Request → IO UInt32
  | .check o expression? => do
    match o.source expression? with
    | .error e => conclude (.failure .nothing e.message)
    | .ok source =>
      match ← source.obtain with
      | .error message => conclude (.failure .nothing message)
      | .ok text => conclude (checkSource o untraced text)
  | .repl o => do
    session o
    return 0
  | request => conclude (request.run ⟨⟨[]⟩, [], untraced⟩).1

end CommandLine
end PolyLambda

open PolyLambda in
/-- Runs the program on its arguments. -/
def main (args : List String) : IO UInt32 :=
  match CommandLine.Request.ofArgs (args.map Text.ofString) with
  | .error e => CommandLine.conclude (.failure .nothing e.message)
  | .ok request => request.perform
