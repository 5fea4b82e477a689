import PolyLambda.Log.Attr

/-!
# Log lines

A record has a level, a message and attributes.  A logger carries attributes of its
own and the groups that its attributes are named under.  Writing a record gives one
line of `key=value` pairs: the level, the message, the attributes of the logger and
then those of the record.

Records pass by level and by **section**.  A record below the current level is
dropped.  A record at least as serious as a warning then passes; any other passes
only if one of the sections named by the logger or by the record starts with the
name of an enabled section.
-/

namespace PolyLambda
namespace Log

/-! ## Levels -/

/-- The level of details for a developer. -/
def debug : Int := -4

/-- The level of warnings. -/
def warn : Int := 4

/-- A level as the nearest name below it and the distance from it. -/
def levelName (level : Int) : Text :=
  let named (name : String) (distance : Int) : Text :=
    if distance = 0 then name
    else if 0 < distance then name ++ "+" ++ Text.ofInt distance
    else name ++ Text.ofInt distance
  if level < 0 then named "DEBUG" (level + 4)
  else if level < 4 then named "INFO" level
  else if level < 8 then named "WARN" (level - 4)
  else named "ERROR" (level - 8)

/-! ## Settings, loggers and records -/

/-- What decides which records are written. -/
structure Settings where
  /-- The least level that is written. -/
  level : Int
  /-- The sections whose records below warnings are written. -/
  sections : List Text
  deriving DecidableEq, Repr, Inhabited

namespace Settings

/-- The settings at the start of the program. -/
def initial : Settings := ⟨warn, ["frontend", "parser", "infer", "cli"]⟩

/-- The same settings with another level. -/
def withLevel (s : Settings) (level : Int) : Settings := ⟨level, s.sections⟩

/-- The same settings with more sections. -/
def enable (s : Settings) (more : List Text) : Settings :=
  ⟨s.level, more.foldl (fun all x => if x ∈ all then all else all ++ [x]) s.sections⟩

/-- Whether a section starts with the name of an enabled one. -/
def isEnabled (s : Settings) (name : Text) : Bool :=
  s.sections.any name.startsWith

/-- Whether records of a level are written at all. -/
def admits (s : Settings) (level : Int) : Bool := decide (s.level ≤ level)

end Settings

/-- Something to log. -/
structure Record where
  level : Int
  message : Text
  attrs : List Attr
  deriving Repr, Inhabited

/-- A source of log lines. -/
structure Logger where
  /-- Whether sections count. -/
  filtered : Bool
  /-- The groups that further attributes are named under. -/
  groups : List Text
  /-- The attributes of the logger, each with its groups. -/
  attached : List (List Text × Attr)
  deriving Repr, Inhabited

namespace Logger

/-- A logger without attributes that filters by section. -/
def plain : Logger := ⟨true, [], []⟩

/-- A logger without attributes that writes records of all sections. -/
def unfiltered : Logger := ⟨false, [], []⟩

/-- The logger with more attributes. -/
def attach (l : Logger) (attrs : List Attr) : Logger :=
  { l with
    groups := groupsAfter l.groups attrs
    attached := l.attached ++ place l.groups attrs }

/-- The logger whose further attributes are in a group; a group without name is no
group. -/
def group (l : Logger) (name : Text) : Logger :=
  if name.isEmpty then l else { l with groups := l.groups ++ [name] }

/-- The plain logger of a section. -/
def ofSection (name : String) : Logger := plain.attach [⟨"section", .text name⟩]

/-- Whether a record is written. -/
def passes (s : Settings) (l : Logger) (r : Record) : Bool :=
  s.admits r.level &&
    (!l.filtered || decide (warn ≤ r.level) ||
      (sectionsOf (l.attached.map (·.2) ++ r.attrs)).any s.isEnabled)

/-- The line of a record. -/
def line (l : Logger) (r : Record) : Text :=
  "level=" ++ levelName r.level ++ " msg=" ++ word r.message
    ++ renderPlaced (l.attached ++ place l.groups r.attrs) ++ "\n"

/-- What is written for a record: its line, or nothing. -/
def write (s : Settings) (l : Logger) (r : Record) : Text :=
  if l.passes s r then l.line r else []

end Logger

/-- A record together with the logger that is to write it. -/
structure Event where
  logger : Logger
  record : Record
  deriving Repr, Inhabited

/-- What is written for events, in order. -/
def writeAll (s : Settings) (events : List Event) : Text :=
  events.flatMap fun e => e.logger.write s e.record

end Log
end PolyLambda
