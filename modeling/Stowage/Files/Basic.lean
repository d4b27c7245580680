import Stowage.Files.Permission
import Stowage.Path.Basic
import Stowage.Text.Quoted
import Stowage.Text.Utf8
/-!
# A file system

Files, directories and symbolic links, kept by location. A *location* is the list of names from the
root to a node, innermost name first, so that the parent of a location is its tail and a location
lies below another exactly when the other is a suffix of it. The root directory always exists.

The content of a file lives apart from its name: a node of kind `file` refers to a numbered
*inode*, so that a file that is open stays readable when its name is removed or given to another
file. An open file remembers how far it has been read.

`FileSystem.entry?` is the view of a file system that its statements are about: what a location
holds, with the content of a file in place of its number. The *journal* tells at which locations
something was made, changed or removed on the way to a state, be it undone since.
-/

namespace Stowage

/-- Why a call on the file system fails. -/
inductive OsError where
  | notFound
  | badFormat
  | notPermitted
  | alreadyExists
  | notDirectory
  | isDirectory
  | invalidArgument
  | nameTooLong
  | notEmpty
  | tooManyLinks
  deriving DecidableEq, Repr

namespace OsError

/-- The number that the operating system gives an error. -/
def number : OsError → Nat
  | notFound => 2
  | badFormat => 8
  | notPermitted => 13
  | alreadyExists => 17
  | notDirectory => 20
  | isDirectory => 21
  | invalidArgument => 22
  | nameTooLong => 36
  | notEmpty => 39
  | tooManyLinks => 40

/-- What the operating system says about an error. -/
def description : OsError → String
  | notFound => "No such file or directory"
  | badFormat => "Exec format error"
  | notPermitted => "Permission denied"
  | alreadyExists => "File exists"
  | notDirectory => "Not a directory"
  | isDirectory => "Is a directory"
  | invalidArgument => "Invalid argument"
  | nameTooLong => "File name too long"
  | notEmpty => "Directory not empty"
  | tooManyLinks => "Too many levels of symbolic links"

/-- How an error is told. -/
def text (e : OsError) : String := s!"{e.description} (os error {e.number})"

end OsError

/-- Why an input or output operation fails. -/
inductive FileError where
  /-- The operating system refused a call. -/
  | os (cause : OsError)
  /-- The operating system refused a call, and the path is worth telling. -/
  | osAt (cause : OsError) (path : Path)
  /-- A file ended before the bytes asked for. -/
  | shortRead
  /-- A path holds the character that ends a path in a call. -/
  | nulInPath
  /-- An entry of a list of paths holds the character that separates entries. -/
  | separatorInEntry
  /-- What was to be copied is not a regular file. -/
  | notRegularFile
  /-- A program or an argument holds the character that ends a text in a call. -/
  | nulInCommand
  deriving DecidableEq, Repr

namespace FileError

/-- The text that reports an error. -/
def message : FileError → String
  | os cause => cause.text
  | osAt cause path => s!"{cause.text} at path {Text.quote path.text}"
  | shortRead => "failed to fill whole buffer"
  | nulInPath => "file name contained an unexpected NUL byte"
  | separatorInEntry => "path segment contains separator `:`"
  | notRegularFile => "the source path is neither a regular file nor a symlink to a regular file"
  | nulInCommand => "nul byte found in provided data"

end FileError

/-- The place of a node: the names from the root to it, innermost first. -/
abbrev Location := List String

namespace Location

/-- The absolute path that names a location without links or dots. -/
def path (loc : Location) : Path :=
  Path.ofChars ('/' :: ['/'].intercalate (loc.reverse.map String.toList))

/-- Whether a location is `root` or lies below it. -/
def within (root loc : Location) : Bool :=
  root.isSuffixOf loc

end Location

/-- What a name in a directory stands for. -/
inductive Node where
  | directory (mode : Mode)
  | link (target : String)
  | file (inode : Nat)
  deriving DecidableEq, Repr

/-- The content and the permissions of a file, whatever its name. -/
structure Inode where
  mode : Mode
  bytes : Bytes
  deriving DecidableEq, Repr, Inhabited

/-- What has been opened. A directory can be opened, but not read as bytes. -/
inductive OpenTarget where
  | directory
  | file (inode : Nat)
  deriving DecidableEq, Repr, Inhabited

/-- An open file and the position of the next byte to be read from it. -/
structure OpenFile where
  target : OpenTarget
  position : Nat
  deriving DecidableEq, Repr, Inhabited

/-- The number of an open file. -/
abbrev Handle := Nat

/-- What a location holds, as seen from outside. -/
inductive FileEntry where
  | directory (mode : Mode)
  | link (target : String)
  | file (mode : Mode) (bytes : Bytes)
  deriving DecidableEq, Repr

/-- A file system together with the state that calls on it depend on: the working directory, the
open files and a counter for names that are to be unique. No call depends on the journal. -/
structure FileSystem where
  nodes : List (Location × Node)
  inodes : List Inode
  openFiles : List OpenFile
  workingDir : Location
  serial : Nat
  /-- Where something was made, changed or removed, the latest first. -/
  journal : List Location
  deriving DecidableEq, Repr, Inhabited

namespace FileSystem

/-- The file system that holds nothing but its root. -/
def empty : FileSystem := ⟨[], [], [], [], 0, []⟩

/-- The node at a location. -/
def node? (fs : FileSystem) : Location → Option Node
  | [] => some (.directory Mode.directory)
  | loc => fs.nodes.lookup loc

/-- The content behind a node. -/
def inode (fs : FileSystem) (n : Nat) : Inode :=
  fs.inodes[n]?.getD ⟨Mode.file, []⟩

/-- What a location holds. -/
def entry? (fs : FileSystem) (loc : Location) : Option FileEntry :=
  (fs.node? loc).map fun
    | .directory mode => .directory mode
    | .link target => .link target
    | .file n => .file (fs.inode n).mode (fs.inode n).bytes

/-- The permissions of the directory at a location, if there is one. -/
def directoryMode? (fs : FileSystem) (loc : Location) : Option Mode :=
  match fs.node? loc with
  | some (.directory mode) => some mode
  | _ => none

/-- Whether a location holds a directory. -/
def isDirectoryAt (fs : FileSystem) (loc : Location) : Bool :=
  (fs.directoryMode? loc).isSome

/-- Whether what a location holds allows an access. A link allows everything. -/
def allows (fs : FileSystem) (loc : Location) (a : Access) : Bool :=
  match fs.node? loc with
  | some (.directory mode) => mode.allows a
  | some (.file n) => (fs.inode n).mode.allows a
  | _ => true

/-! ### Changing single nodes -/

/-- The file system in which a location holds the given node, be it new or replaced. -/
def put (fs : FileSystem) (loc : Location) (node : Node) : FileSystem :=
  { fs with nodes := (loc, node) :: fs.nodes.filter (·.1 != loc), journal := loc :: fs.journal }

/-- The locations that hold something and lie at or below a location. -/
def locationsUnder (fs : FileSystem) (loc : Location) : List Location :=
  (fs.nodes.filter fun e => Location.within loc e.1).map (·.1)

/-- The file system in which a location and everything below it is gone. -/
def cut (fs : FileSystem) (loc : Location) : FileSystem :=
  { fs with
    nodes := fs.nodes.filter fun e => !Location.within loc e.1
    journal := fs.locationsUnder loc ++ fs.journal }

/-- The file system with one more inode, and the number of that inode. -/
def addInode (fs : FileSystem) (content : Inode) : Nat × FileSystem :=
  (fs.inodes.length, { fs with inodes := fs.inodes ++ [content] })

/-- The locations that hold an inode. -/
def locationsOf (fs : FileSystem) (n : Nat) : List Location :=
  (fs.nodes.filter fun e => e.2 = .file n).map (·.1)

/-- The file system in which an inode has been changed. -/
def updateInode (fs : FileSystem) (n : Nat) (f : Inode → Inode) : FileSystem :=
  { fs with inodes := fs.inodes.modify n f, journal := fs.locationsOf n ++ fs.journal }

end FileSystem

end Stowage
