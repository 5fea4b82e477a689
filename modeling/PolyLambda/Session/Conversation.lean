import PolyLambda.Printed
import PolyLambda.Session
import PolyLambda.Session.Entry
import PolyLambda.Session.History

/-!
# Conversations

A conversation is a session held at a prompt.  Entries are read and answered one by
one, until the user quits or the input ends; an entry left incomplete at the end of
the input is dropped.  Blank entries are passed over.  All others are remembered in
the history, written on one line.
-/

namespace PolyLambda

/-- A session with its history. -/
structure Conversation where
  session : Session
  history : History
  deriving DecidableEq, Repr, Inhabited

namespace Conversation

/-- The greeting of a conversation. -/
def greeting (c : Calculus) : Text :=
  "systemf REPL (" ++ Text.ofString c.name ++ ")\nCtrl+D exits. Type :help for commands.\n"

/-- A line in green. -/
def green (t : Text) : Text := "\x1b[32m" ++ t ++ "\x1b[0m\n"

/-- A line in red. -/
def red (t : Text) : Text := "\x1b[31m" ++ t ++ "\x1b[0m\n"

/-- A reply as it is printed. -/
def printReply : Reply → Printed
  | .result t => .result (green t)
  | .error t => .note (red t)
  | .quit => .nothing

/-- What an entry leads to. -/
structure Turn where
  printed : Printed
  next : Conversation
  /-- Whether the user quits. -/
  isLast : Bool
  deriving Repr, Inhabited

/-- Answers an entry. -/
def answer (settings : Log.Settings) (c : Conversation) (entry : Text) : Turn :=
  if entry.isBlank then ⟨.nothing, c, false⟩
  else
    let (reply, session) := c.session.eval entry
    let log := Log.writeAll settings (Entry.events entry ++ c.session.evalEvents entry)
    ⟨.note log ++ printReply reply, ⟨session, c.history.append entry.onOneLine⟩,
      decide (reply = .quit)⟩

/-- Answers the entries on the given lines, with a prompt printed before each line and
before the end of the input.  The prompts of an entry are as many as its lines. -/
def hold (settings : Log.Settings) (c : Conversation) (lines : List Text) :
    Printed × Conversation :=
  match _h : Entry.read lines with
  | none => (.result (Entry.prompts (lines.length + 1) ++ "\n"), c)
  | some (entry, rest) =>
    let turn := c.answer settings entry
    let printed := .result (Entry.prompts entry.lines.length) ++ turn.printed
    if turn.isLast then (printed, turn.next)
    else
      let (more, last) := turn.next.hold settings rest
      (printed ++ more, last)
termination_by lines.length
decreasing_by exact Entry.length_lt_of_read _h

end Conversation
end PolyLambda
