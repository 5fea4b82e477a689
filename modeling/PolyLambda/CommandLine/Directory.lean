import PolyLambda.Text.Utf8

/-!
# Directories

The files a program can see: those of one directory, by name.  A path is followed from
that directory, or from the root, name by name.  Of what lies outside only the
directories at the root and the empty device are known.
-/

namespace PolyLambda
namespace CommandLine

/-- Why a file cannot be read. -/
inductive FileError where
  | missing
  | isDirectory
  /-- A file where the path needs a directory. -/
  | notDirectory
  | nameTooLong
  | invalidName
  | denied
  deriving DecidableEq, Repr, Inhabited

/-- The wording of an error at a path.  A directory can be opened, but not read. -/
def FileError.message (path : Text) : FileError → Text
  | missing => "open " ++ path ++ ": no such file or directory"
  | isDirectory => "read " ++ path ++ ": is a directory"
  | notDirectory => "open " ++ path ++ ": not a directory"
  | nameTooLong => "open " ++ path ++ ": file name too long"
  | invalidName => "open " ++ path ++ ": invalid argument"
  | denied => "open " ++ path ++ ": permission denied"

/-- The files of a directory. -/
structure Directory where
  files : List (Text × List UInt8)
  deriving Repr, Inhabited

namespace Directory

/-- The bytes of the file with a name. -/
def get? (d : Directory) (name : Text) : Option (List UInt8) :=
  (d.files.find? fun entry => entry.1 = name).map (·.2)

/-- The directory with a file written, in place of the one that had its name. -/
def put (d : Directory) (name : Text) (bs : List UInt8) : Directory :=
  ⟨d.files.filter (fun entry => entry.1 ≠ name) ++ [(name, bs)]⟩

/-- Where a path has led. -/
inductive Spot where
  /-- The directory itself. -/
  | here
  /-- The root of all directories. -/
  | root
  /-- The directory of devices. -/
  | devices
  /-- Another directory outside. -/
  | outside
  | file (bs : List UInt8)
  deriving Repr, Inhabited

/-- The bytes a name may have. -/
def nameLimit : Nat := 255

/-- The bytes a path has to stay below. -/
def pathLimit : Nat := 4096

/-- The directories at the root, that of the devices apart. -/
def rootNames : List String :=
  ["bin", "etc", "home", "lib", "media", "mnt", "opt", "proc", "root", "run", "sbin", "srv", "sys",
    "tmp", "usr", "var"]

/-- The directory above a spot. -/
def above : Spot → Spot
  | .root | .devices => .root
  | _ => .outside

/-- What a name leads to in a directory. -/
def enter (d : Directory) (name : Text) : Spot → Option Spot
  | .here => (d.get? name).map .file
  | .root =>
    if name = Text.ofString "dev" then some .devices
    else if rootNames.any (name = Text.ofString ·) then some .outside
    else none
  | .devices => if name = Text.ofString "null" then some (.file []) else none
  | .outside | .file _ => none

/-- Follows one name of a path. -/
def step (d : Directory) (name : Text) (spot : Spot) : Except FileError Spot :=
  match spot with
  | .file _ => .error .notDirectory
  | _ =>
    if name = Text.ofString ".." then .ok (above spot)
    else if name.isEmpty || name = Text.ofString "." then .ok spot
    else if nameLimit < name.bytes.length then .error .nameTooLong
    else
      match d.enter name spot with
      | some next => .ok next
      | none => .error .missing

/-- Follows a path. -/
def follow (d : Directory) (path : Text) : Except FileError Spot :=
  let start : Spot := if path.startsWith "/" then .root else .here
  (path.split '/').foldlM (fun spot name => d.step name spot) start

/-- The bytes of the file at a path. -/
def read (d : Directory) (path : Text) : Except FileError (List UInt8) :=
  if path.contains (.char '\x00') then .error .invalidName
  else if pathLimit ≤ path.bytes.length then .error .nameTooLong
  else
    match d.follow path with
    | .error e => .error e
    | .ok (.file bs) => .ok bs
    | .ok _ => .error .isDirectory

end Directory
end CommandLine
end PolyLambda
