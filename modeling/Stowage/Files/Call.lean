import Stowage.Files.Walk
/-!
# Calls that change a file system

Each call either succeeds or reports an error, and in both cases leaves a file system behind: a
call that fails half-way keeps what it has done. `FileSystem.Call` is the type of such calls.
-/

namespace Stowage

namespace FileSystem

/-- A computation on a file system that may fail with an error of type `ε`. -/
abbrev Call (ε α : Type) := ExceptT ε (StateM FileSystem) α

namespace Call

/-- Runs a call: its result, and the file system that it leaves. -/
def apply {ε α : Type} (c : Call ε α) (fs : FileSystem) : Except ε α × FileSystem :=
  (c.run.run fs : Id _)

/-- What a function of the file system says, without changing anything. -/
def ask {ε α : Type} (f : FileSystem → α) : Call ε α :=
  fun fs => (.ok (f fs), fs)

/-- What a function of the file system says, which may be an error. -/
def askResult {ε α : Type} (f : FileSystem → Except ε α) : Call ε α :=
  fun fs => (f fs, fs)

/-- Changes the file system. -/
def change {ε : Type} (f : FileSystem → FileSystem) : Call ε Unit :=
  fun fs => (.ok (), f fs)

/-- A call whose errors are seen as errors of another type. -/
def withError {ε ε' α : Type} (f : ε → ε') (c : Call ε α) : Call ε' α :=
  fun fs => ((c fs).1.mapError f, (c fs).2)

/-- A call whose outcome, be it an error, is handed on as a value. -/
def outcome {ε ε' α : Type} (c : Call ε α) : Call ε' (Except ε α) :=
  fun fs => (.ok (c fs).1, (c fs).2)

end Call

open Call (ask askResult change)

/-- Reports an error of the operating system. -/
def fail {α : Type} (cause : OsError) : Call FileError α :=
  throw (.os cause)

/-- Where the last name of a path would be made or removed. A slash at the end is left out of the
walk, and a link in last place is not followed. -/
def locateName (fs : FileSystem) (p : Path) : Except FileError Spot := do
  checkCallPath p
  fs.walkNames .lookedUp .kept p p.steps

/-- Whether the last name of a path is one that cannot be made or removed: a dot name, or none. -/
def endsInDots (p : Path) : Bool :=
  match p.steps.getLast? with
  | none => true
  | some name => Path.isDotName name

/-- Fails unless a node allows an access. -/
def demand (loc : Location) (a : Access) : Call FileError Unit := do
  if !(← ask (·.allows loc a)) then fail .notPermitted

/-! ### Making -/

/-- Makes a directory. Its parent must exist and its name must be free. -/
def makeDir (p : Path) : Call FileError Unit := do
  match ← askResult (·.locateName p) with
  | .present _ => fail .alreadyExists
  | .vacant dir name =>
    demand dir .write
    let outer ← ask fun fs => (fs.directoryMode? dir).getD Mode.directory
    change (·.put (name :: dir) (.directory (Mode.directoryIn outer)))

/-- Makes a directory unless a directory is there already. -/
def ensureDir (p : Path) : Call FileError Unit := do
  match ← (makeDir p).outcome with
  | .ok () => return
  | .error (.os .alreadyExists) =>
    if ← ask (·.isDirectory p) then return
    fail .alreadyExists
  | .error e => throw e

/-- Makes the first directory of a sequence, after those that it needs among the later ones. -/
def ensureFirst : List Path → Call FileError Unit
  | [] => return
  | p :: rest => do
    if p.text = "" || p.parent?.isNone then return
    match ← (ensureDir p).outcome with
    | .ok () => return
    | .error (.os .notFound) =>
      ensureFirst rest
      ensureDir p
    | .error e => throw e

/-- Makes a directory with all its missing ancestors. The empty path and a root need nothing. -/
def makeDirAll (p : Path) : Call FileError Unit :=
  ensureFirst p.ancestors

/-- Opens a file for writing from its start and returns its inode. A missing file is made, an
existing one loses its content; a link is followed, even to a name that is still free. -/
def createFile (p : Path) (mode : Mode) : Call FileError Nat := do
  match ← askResult (·.locate .filled p) with
  | .present loc => match ← ask (·.node? loc) with
    | some (.file n) =>
      demand loc .write
      change (·.updateInode n fun i => ⟨i.mode.afterChange, []⟩)
      return n
    | _ => fail .isDirectory
  | .vacant dir name =>
    demand dir .write
    let n ← ask (·.inodes.length)
    change fun fs => (fs.addInode ⟨mode, []⟩).2.put (name :: dir) (.file n)
    return n

/-- Adds bytes at the end of a file that is open for writing. No bytes are no change. -/
def append {ε : Type} (n : Nat) (bytes : Bytes) : Call ε Unit :=
  if bytes = [] then change id
  else change (·.updateInode n fun i => ⟨i.mode.afterChange, i.bytes ++ bytes⟩)

/-- Makes a symbolic link with the given target text. -/
def makeLink (target : String) (p : Path) : Call FileError Unit := do
  askResult fun _ => checkCallPath ⟨target⟩
  match ← askResult (·.locateName p) with
  | .present _ => fail .alreadyExists
  | .vacant dir name =>
    if p.endsInSlash then fail .notFound
    demand dir .write
    change (·.put (name :: dir) (.link target))

/-! ### Permissions -/

/-- Gives the node at a location new permissions. A link has none. -/
def setModeAt (loc : Location) (mode : Mode) (fs : FileSystem) : FileSystem :=
  match fs.node? loc with
  | some (.directory _) => fs.put loc (.directory mode)
  | some (.file n) => fs.updateInode n ({ · with mode })
  | _ => fs

/-- Gives what a path leads to new permissions. -/
def setMode (p : Path) (mode : Mode) : Call FileError Unit := do
  let loc ← askResult (·.find true p)
  change (setModeAt loc mode)

/-! ### Removing -/

/-- Fails unless names in the directory around a location may be removed. -/
def demandRemoval (loc : Location) : Call FileError Unit := do
  demand loc.tail .pass
  demand loc.tail .write

/-- Removes a file or a link. A directory is left alone. -/
def removeFile (p : Path) : Call FileError Unit := do
  match ← askResult (·.locateName p) with
  | .vacant _ _ => fail .notFound
  | .present loc =>
    let isDirectory ← ask (·.isDirectoryAt loc)
    if endsInDots p || (p.endsInSlash && isDirectory) then fail .isDirectory
    if p.endsInSlash then fail .notDirectory
    demandRemoval loc
    if isDirectory then fail .isDirectory
    change (·.cut loc)

/-- Removes a directory that must be empty. -/
def removeEmptyDir (p : Path) : Call FileError Unit := do
  match ← askResult (·.locateName p) with
  | .vacant _ _ => fail .notFound
  | .present loc =>
    if p.steps.getLast? = some "." then fail .invalidArgument
    if p.steps.getLast? = some ".." then fail .notEmpty
    demandRemoval loc
    if !(← ask (·.isDirectoryAt loc)) then fail .notDirectory
    if ← ask (·.nodes.any fun e => e.1 ≠ loc && Location.within loc e.1) then fail .notEmpty
    change (·.cut loc)

/-- A step in the removal of a directory. -/
inductive RemovalStep where
  /-- The names in a directory are listed. -/
  | list (dir : Location)
  /-- What a location holds is removed, which is empty if it is a directory. -/
  | remove (loc : Location)
  deriving DecidableEq, Repr

/-- The locations in a directory, the newest first. -/
def locationsIn (fs : FileSystem) (dir : Location) : List Location :=
  (fs.nodes.map (·.1)).filter fun loc => loc ≠ [] && loc.tail = dir

/-- The steps that make a directory empty. Links are not followed. The depth is more than that of
any node below the directory. -/
def clearingSteps (fs : FileSystem) : (depth : Nat) → Location → List RemovalStep
  | 0, _ => []
  | depth + 1, dir => .list dir :: (fs.locationsIn dir).flatMap fun loc =>
      (if fs.isDirectoryAt loc then fs.clearingSteps depth loc else []) ++ [.remove loc]

/-- Takes a step of a removal. -/
def RemovalStep.take : RemovalStep → Call FileError Unit
  | list dir => demand dir .read
  | remove loc => do
    demandRemoval loc
    change (·.cut loc)

/-- Makes a directory empty. The first step that is not allowed is the last one. -/
def clearDir (dir : Location) : Call FileError Unit := do
  (← ask fun fs => fs.clearingSteps (fs.nodes.length + 1) dir).forM RemovalStep.take

/-- Removes a directory with all that is in it. A link is removed and not followed. -/
def removeTree (p : Path) : Call FileError Unit := do
  let loc ← askResult (·.find false p)
  match ← ask (·.node? loc) with
  | some (.link _) => removeFile p
  | some (.directory _) =>
    -- the content goes first, and is gone even if the directory itself has to stay
    clearDir loc
    removeEmptyDir p
  | _ => fail .notDirectory

/-! ### Reading -/

/-- The length that a directory reports when it is opened. -/
def dirLength : Nat := 4096

/-- Opens what a path leads to for reading. -/
def openFile (p : Path) : Call FileError Handle := do
  let loc ← askResult (·.find true p)
  demand loc .read
  let target ← ask fun fs => match fs.node? loc with
    | some (.file n) => OpenTarget.file n
    | _ => OpenTarget.directory
  let h ← ask (·.openFiles.length)
  change fun fs => { fs with openFiles := fs.openFiles ++ [⟨target, 0⟩] }
  return h

/-- The bytes behind an open file, as they are now. -/
def contentOf (fs : FileSystem) (h : Handle) : Bytes :=
  match fs.openFiles[h]? with
  | some ⟨.file n, _⟩ => (fs.inode n).bytes
  | _ => []

/-- The bytes of an open file from its position on. -/
def unread (fs : FileSystem) (h : Handle) : Bytes :=
  match fs.openFiles[h]? with
  | some f => (fs.contentOf h).drop f.position
  | none => []

/-- Whether an open file is a directory. -/
def isOpenDirectory (fs : FileSystem) (h : Handle) : Bool :=
  match fs.openFiles[h]? with
  | some ⟨.file _, _⟩ => false
  | _ => true

/-- The length of an open file. -/
def lengthOf {ε : Type} (h : Handle) : Call ε Nat :=
  ask fun fs => if fs.isOpenDirectory h then dirLength else (fs.contentOf h).length

/-- Sets the position from which an open file is read next. -/
def seek {ε : Type} (h : Handle) (position : Nat) : Call ε Unit :=
  change fun fs => { fs with openFiles := fs.openFiles.modify h ({ · with position }) }

/-- Moves the position of an open file forward. -/
def advance {ε : Type} (h : Handle) (count : Nat) : Call ε Unit :=
  change fun fs => { fs with
    openFiles := fs.openFiles.modify h fun f => { f with position := f.position + count } }

/-- Reads exactly the given number of bytes. If fewer are left, they are passed over and the read
fails. -/
def readExact (h : Handle) (count : Nat) : Call FileError Bytes := do
  if 0 < count && (← ask (·.isOpenDirectory h)) then fail .isDirectory
  let bytes ← ask fun fs => (fs.unread h).take count
  advance h bytes.length
  if bytes.length < count then throw .shortRead
  return bytes

/-! ### Copying -/

/-- Copies the content and the permissions of a regular file. -/
def copyFile (source target : Path) : Call FileError Unit := do
  let h ← openFile source
  match ← ask (·.openFiles[h]?) with
  | some ⟨.file n, _⟩ =>
    let mode ← ask fun fs => (fs.inode n).mode
    let m ← createFile target mode
    change (·.updateInode m ({ · with mode }))
    let bytes ← ask (·.unread h)
    append m bytes
  | _ => throw .notRegularFile

/-! ### Names that are used once -/

/-- A decimal number padded with zeros to six digits. -/
def sixDigits (n : Nat) : String :=
  let digits := (Nat.toDigits 10 n)
  String.ofList (List.replicate (6 - digits.length) '0' ++ digits)

/-- Makes a new directory in an existing one, private to its owner, under a name that starts with
`lead` and has not been used before. Returns the absolute path of the new directory. -/
def makeUniqueDir (parent : Path) (lead : String) : Call FileError Path := do
  let base ← ask fun fs => if parent.isAbsolute then parent else fs.workingPath.join parent
  let first ← ask (·.serial)
  let tries ← ask (·.nodes.length)
  let isFree (fs : FileSystem) (n : Nat) : Bool :=
    !fs.isPresent (base.join ⟨lead ++ sixDigits n⟩)
  let n ← ask fun fs =>
    (((List.range (tries + 1)).map (first + ·)).find? (isFree fs)).getD (first + tries)
  change ({ · with serial := n + 1 })
  let dir := base.join ⟨lead ++ sixDigits n⟩
  (makeDir dir).withError fun
    | .os cause => .osAt cause dir
    | e => e
  setMode dir Mode.ownersOnly
  return dir

/-! ### Listing -/

/-- A location below another, written as the relative path from there. -/
def relativeText (root loc : Location) : String :=
  "/".intercalate (loc.take (loc.length - root.length)).reverse

/-- The directories that keep what they hold to themselves. -/
def closedDirs (fs : FileSystem) : List Location :=
  (fs.nodes.filter fun e => match e.2 with
    | .directory mode => !(mode.allows .read && mode.allows .pass)
    | _ => false).map (·.1)

/-- What a location holds, as far as it may be read. -/
def readableEntry? (fs : FileSystem) (loc : Location) : Option FileEntry :=
  (fs.entry? loc).map fun
    | .file mode bytes => .file mode (if mode.allows .read then bytes else [])
    | entry => entry

/-- Everything below the directory that a path leads to, with relative paths in ascending order.
Links are listed and not followed. What may not be listed or read is left out. -/
def listing (fs : FileSystem) (p : Path) : List (String × FileEntry) :=
  match fs.find true p with
  | .error _ => []
  | .ok root =>
    let closed := fs.closedDirs.filter (Location.within root)
    let isShown (loc : Location) : Bool :=
      loc ≠ root && Location.within root loc &&
        closed.all fun dir => dir = loc || !Location.within dir loc
    let named := ((fs.nodes.map (·.1)).filter isShown).filterMap fun loc =>
      (fs.readableEntry? loc).map fun entry => (relativeText root loc, entry)
    named.mergeSort fun a b => a.1 ≤ b.1

end FileSystem

end Stowage
