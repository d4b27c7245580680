import Stowage.Files.Basic
/-!
# Walking a path

A path is resolved name by name from the root or from the working directory, following the symbolic
links on the way. The walk ends at a location that holds something or at a free name in a
directory. Following more than forty links is an error, which also ends every circle of links. A
name is looked up only in a directory that allows it.

A slash at the end of a path asks for a directory; it is walked as a final empty name, except by the
calls that make or remove a name. Where a file is to be made, such a slash is an error, be it in the
path or in the target of a link that the path ends in.
-/

namespace Stowage

/-- Where a walk ends: at a node, or at a name that is free in an existing directory. -/
inductive Spot where
  | present (loc : Location)
  | vacant (dir : Location) (name : String)
  deriving DecidableEq, Repr

/-- What the last name of a walk is for. -/
inductive LastName where
  /-- It is meant as it is, be it a link. -/
  | kept
  /-- A link is followed. -/
  | followed
  /-- A link is followed, and a file is to be made where that leads. -/
  | filled
  deriving DecidableEq, Repr

/-- How the names `.` and `..` are taken. -/
inductive DotNames where
  /-- They are looked up like other names. -/
  | lookedUp
  /-- They are understood without a look into the directory. -/
  | understood
  deriving DecidableEq, Repr

namespace Path

/-- Whether a name means a directory by its place and not by an entry for it. -/
def isDotName (name : String) : Bool := name = "." || name = ".."

/-- The names of a path in order, with `.` and `..` among them. -/
def steps (p : Path) : List String :=
  ((p.chars.splitOn '/').filter (· ≠ [])).map String.ofList

/-- Whether a path ends in a slash after a name. -/
def endsInSlash (p : Path) : Bool :=
  p.chars.getLast? == some '/' && !p.steps.isEmpty

/-- The names of a path, with a final empty name for a slash at its end. -/
def walkSteps (p : Path) : List String :=
  p.steps ++ if p.endsInSlash then [""] else []

end Path

namespace FileSystem

/-- How many symbolic links one walk may follow. -/
def maxLinks : Nat := 40

/-- The longest name that a directory can hold, in bytes. -/
def maxNameBytes : Nat := 255

/-- The longest path that a call accepts, in bytes. -/
def maxPathBytes : Nat := 4095

/-- Walks the names of a path from a location. At a link that is to be followed, the walk goes on as
`follow` says, from the directory that holds the link. -/
def walkOn (fs : FileSystem) (dots : DotNames) (last : LastName)
    (follow : Location → List String → Except OsError Spot) :
    Location → List String → Except OsError Spot
  | cur, [] => .ok (.present cur)
  | cur, name :: rest =>
    match fs.directoryMode? cur with
    | some mode =>
      if name = "" then walkOn fs dots last follow cur rest
      else if !mode.allows .pass ∧ (dots = .lookedUp ∨ !Path.isDotName name) then
        .error .notPermitted
      else if name = "." then walkOn fs dots last follow cur rest
      else if name = ".." then walkOn fs dots last follow cur.tail rest
      -- the slash is noticed before the name is looked up
      else if rest = [""] ∧ last = .filled then .error .isDirectory
      else if maxNameBytes < name.utf8ByteSize then .error .nameTooLong
      else match fs.node? (name :: cur) with
        | none => if rest = [] then .ok (.vacant cur name) else .error .notFound
        | some (.link target) =>
          if rest = [] ∧ last = .kept then .ok (.present (name :: cur))
          else follow (if Path.isAbsolute ⟨target⟩ then [] else cur)
            (Path.walkSteps ⟨target⟩ ++ rest)
        | some _ => walkOn fs dots last follow (name :: cur) rest
    | none => match fs.node? cur with
      | none => .error .notFound
      | some _ => .error .notDirectory

/-- Walks the names of a path from a location. Each link followed takes one from the budget. -/
def walk (fs : FileSystem) (dots : DotNames) (last : LastName) :
    (budget : Nat) → Location → List String → Except OsError Spot
  | 0 => fs.walkOn dots last fun _ _ => .error .tooManyLinks
  | budget + 1 => fs.walkOn dots last (fs.walk dots last budget)

/-- Where the walk along a path starts. -/
def startOf (fs : FileSystem) (p : Path) : Location :=
  if p.isAbsolute then [] else fs.workingDir

/-- The errors that are found in a path before any walk: a character that ends it, or nothing at
all. -/
def checkPath (p : Path) : Except FileError Unit :=
  if p.chars.contains '\x00' then .error .nulInPath
  else if p.text = "" then .error (.os .notFound)
  else .ok ()

/-- The errors that a call finds in a path before any walk. -/
def checkCallPath (p : Path) : Except FileError Unit := do
  checkPath p
  if maxPathBytes < p.text.utf8ByteSize then .error (.os .nameTooLong)

/-- A walk along the given names of a path, with the errors of the operating system. -/
def walkNames (fs : FileSystem) (dots : DotNames) (last : LastName) (p : Path)
    (names : List String) : Except FileError Spot :=
  (fs.walk dots last maxLinks (fs.startOf p) names).mapError .os

/-- Where a path leads. -/
def locate (fs : FileSystem) (last : LastName) (p : Path) : Except FileError Spot := do
  checkCallPath p
  fs.walkNames .lookedUp last p p.walkSteps

/-- The location of what a path leads to, which must exist. A link in last place is followed only on
request. -/
def find (fs : FileSystem) (follow : Bool) (p : Path) : Except FileError Location := do
  match ← fs.locate (if follow then .followed else .kept) p with
  | .present loc => .ok loc
  | .vacant _ _ => .error (.os .notFound)

/-- The path without links, dots and doubled slashes that names the same thing, which must exist.
The length of the path is not limited, and dot names are understood. -/
def canonicalize (fs : FileSystem) (p : Path) : Except FileError Path := do
  checkPath p
  match ← fs.walkNames .understood .followed p p.walkSteps with
  | .present loc => .ok loc.path
  | .vacant _ _ => .error (.os .notFound)

/-- Whether a path leads to a regular file. An error counts as no. -/
def isFile (fs : FileSystem) (p : Path) : Bool :=
  match fs.find true p with
  | .ok loc => match fs.node? loc with
    | some (.file _) => true
    | _ => false
  | .error _ => false

/-- Whether a path leads to a directory. An error counts as no. -/
def isDirectory (fs : FileSystem) (p : Path) : Bool :=
  match fs.find true p with
  | .ok loc => fs.isDirectoryAt loc
  | .error _ => false

/-- Whether a path names anything, be it a link that leads nowhere. An error counts as no. -/
def isPresent (fs : FileSystem) (p : Path) : Bool :=
  (fs.find false p).isOk

/-- Whether a path leads to something that allows an access. An error counts as no. -/
def isAllowed (fs : FileSystem) (p : Path) (a : Access) : Bool :=
  match fs.find true p with
  | .ok loc => fs.allows loc a
  | .error _ => false

/-- Whether a path leads to a file that may be executed. -/
def isExecutable (fs : FileSystem) (p : Path) : Bool :=
  fs.isFile p && fs.isAllowed p .pass

/-- The bytes of the file that a path leads to. -/
def content (fs : FileSystem) (p : Path) : Except FileError Bytes := do
  let loc ← fs.find true p
  if !fs.allows loc .read then .error (.os .notPermitted)
  match fs.node? loc with
  | some (.file n) => .ok (fs.inode n).bytes
  | _ => .error (.os .isDirectory)

/-- The absolute path of the working directory. -/
def workingPath (fs : FileSystem) : Path := fs.workingDir.path

end FileSystem

end Stowage
