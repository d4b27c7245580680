import Stowage.Inspect.Tool
/-!
# The inspection tool on real files

The container and the place of the output are copied into a file system of the library, the tool
runs there, and what it has written and printed is handed on. All that the tool decides is decided
in `InspectTool.run`.
-/

namespace Stowage.Main

open FileSystem (Call)

/-- The directory of a path that is given on the command line. -/
def dirOf (p : Path) : Path :=
  match p.parent? with
  | some dir => if dir.text = "" then ⟨"."⟩ else dir
  | none => p

/-- Makes the directory of a path. -/
def makeDirOf (p : Path) : Call FileError Unit := FileSystem.makeDirAll (dirOf p)

/-- Makes a file with the given content. -/
def putFile (p : Path) (bytes : Bytes) : Call FileError Unit := do
  makeDirOf p
  FileSystem.append (← FileSystem.createFile p Mode.file) bytes

/-- The bytes of the file at a path. -/
def bytesAt? (fs : FileSystem) (p : Path) : Option Bytes :=
  match (fs.find true p).map fs.entry? with
  | .ok (some (.file _ bytes)) => some bytes
  | _ => none

/-- Carries out a call on the file system and drops its errors. -/
def settle (c : Call FileError Unit) (fs : FileSystem) : FileSystem := (c.apply fs).2

/-- The container on disk, if it can be read, as the only file of a file system. -/
def loadArchive (p : Path) (fs : FileSystem) : IO FileSystem := do
  match ← (IO.FS.readBinFile p.text).toBaseIO with
  | .ok bytes => return settle (putFile p bytes.toList) fs
  | .error _ => return fs

/-- A file system in which the directory of a path is there if it is there on disk. -/
def loadDirOf (p : Path) (fs : FileSystem) : IO FileSystem := do
  match ← (IO.FS.realPath (dirOf p).text).toBaseIO with
  | .ok _ => return settle (makeDirOf p) fs
  | .error _ => return fs

/-- The path of the output of a request, if it has one. -/
def outputOf? : InspectRequest → Option Path
  | .run _ (.extract _ output) => output
  | _ => none

/-- The file system in which a request is carried out. -/
def load (request : InspectRequest) : IO FileSystem := do
  let fs ← match request with
    | .run archive _ => loadArchive archive .empty
    | _ => pure .empty
  match outputOf? request with
  | some output => loadDirOf output fs
  | none => return fs

/-- Writes the output of a request to disk. -/
def save (request : InspectRequest) (fs : FileSystem) : IO Unit := do
  match (outputOf? request).bind fun p => (bytesAt? fs p).map (p, ·) with
  | some (p, bytes) => IO.FS.writeBinFile p.text ⟨bytes.toArray⟩
  | none => return

/-- Runs the tool with the arguments of its command line. -/
def runTool (args : List String) : IO UInt32 := do
  let request := CommandLine.read args
  let (.ok result, fs) := (InspectTool.run args).apply (← load request)
  save request fs
  (← IO.getStdout).write ⟨result.output.toArray⟩
  (← IO.getStderr).putStr result.messages
  return result.exitCode.toUInt32

end Stowage.Main

/-- The inspection tool. -/
def main (args : List String) : IO UInt32 := Stowage.Main.runTool args
