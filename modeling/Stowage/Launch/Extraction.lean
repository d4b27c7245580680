import Stowage.Launch.Dependency
import Stowage.World.Basic
/-!
# Extracting a container

All entries that have to be on disk are put below one directory in stored order. The directory is
new, has a name of its own, and belongs to its owner alone.
-/

namespace Stowage.Extraction

/-- What the name of every extraction directory starts with. -/
def dirLead : String := "_bp"

/-- Where extraction directories are made: in the directory for temporary files, unless an option
names another place. A relative place is below that directory. -/
def parentDir (env : Environment) (option : Option String) : Path :=
  match option with
  | some text =>
    let dir := env.expandHome text
    if dir.isAbsolute then dir else env.tempDir.join dir
  | none => env.tempDir

/-- Makes a new extraction directory. -/
def makeDir (parent : Path) : FileSystem.Call LaunchError Path :=
  FileSystem.Call.withError (.extractionDir parent) do
    FileSystem.makeDirAll parent
    FileSystem.makeUniqueDir parent dirLead

/-- Work on a world that keeps a pool of open containers. -/
abbrev Extracting (τ α : Type) := ExceptT LaunchError (StateT Pool (StateM (World τ))) α

variable {τ α : Type}

/-- Work on the file system as work on a world. -/
def onFiles (p : Pooled LaunchError α) : Extracting τ α := fun pool w =>
  let (r, files) := p pool w.files
  (r, { w with files })

/-- An effect as work that leaves the pool alone. -/
def onWorld (e : Effect τ Empty Unit) : Extracting τ Unit := fun pool w =>
  ((.ok (), pool), (e w).2)

variable [Zlib.Inflater]

/-- Extracts one entry. A dependency is left to the resolver, which has a policy of its own. -/
def extractEntry (a : Archive) (dir : Path) (policy : UnpackPolicy) (resolver : Resolver)
    (r : Record) : Pooled LaunchError Path :=
  if r.kind = .dependency then resolver.resolve r.name dir
  else .onFiles .archive (a.unpack r dir policy)

/-- Extracts the entries among some records that have to be on disk and counts them. The observer
hears of each entry before it is extracted. -/
def extractAmong (a : Archive) (dir : Path) (policy : UnpackPolicy) (resolver : Resolver)
    (observe : String → Effect τ Empty Unit) (count : Nat) :
    List (Except Malformation Record) → Extracting τ Nat
  | [] => return count
  | .error m :: _ => throw (.archive (.plain (.malformed m)))
  | .ok r :: rest => do
    if r.kind.isExtractable then
      onWorld (observe r.name)
      let _ ← onFiles (extractEntry a dir policy resolver r)
      extractAmong a dir policy resolver observe (count + 1) rest
    else extractAmong a dir policy resolver observe count rest

/-- Extracts all entries that have to be on disk and counts them. -/
def extractAll (a : Archive) (dir : Path) (policy : UnpackPolicy) (resolver : Resolver)
    (observe : String → Effect τ Empty Unit) : Extracting τ Nat :=
  extractAmong a dir policy resolver observe 0 a.entries

end Stowage.Extraction
