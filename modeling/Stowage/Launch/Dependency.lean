import Stowage.Container.Unpack
import Stowage.Launch.Error
/-!
# Dependencies

An entry may stand for a member of another container: its name is a *reference*, the location of a
sibling and the member in it, with a colon between them. A sibling that lies unpacked beside the
program is used first; otherwise the sibling is opened as a container.

Containers that have been opened stay open in a *pool* of limited size. What the pool holds does
not change what a reference resolves to.
-/

namespace Stowage

open FileSystem (Call)

/-- A reference to a member of another container. -/
structure Reference where
  location : String
  member : String
  deriving DecidableEq, Repr

namespace Reference

/-- A reference is split at its first colon. Both parts must not be empty. -/
def parse (text : String) : Except LaunchError Reference :=
  match Text.splitOnce ':' text with
  | some (location, member) =>
    if location = "" || member = "" then .error (.invalidReference text)
    else .ok ⟨location, member⟩
  | none => .error (.invalidReference text)

/-- The member relative to the directory of the program, when the sibling is unpacked. -/
def unpackedPath (r : Reference) : Option Path :=
  (((Path.mk r.location).parent?.getD .empty).join ⟨r.member⟩).normalizeRelative

/-- The endings of the file name of a sibling, in the order in which they are tried. -/
def siblingEndings : List String := ["", ".pkg"]

/-- Where a sibling that is a container may be, in the order in which the places are tried. -/
def siblingPaths (programDir : Path) (r : Reference) : List Path :=
  siblingEndings.filterMap fun ending => programDir.containedJoin (r.location ++ ending)

end Reference

/-- Containers that are open, in the order in which they were opened. -/
abbrev Pool := List Archive

namespace Pool

/-- How many containers a pool holds at most. -/
def capacity : Nat := 20

/-- The container in the pool that was opened at a path. -/
def find? (pool : Pool) (path : Path) : Option Archive :=
  List.find? (fun a : Archive => a.path.same path) pool

/-- Whether the pool holds the container at a path. -/
def contains (pool : Pool) (path : Path) : Bool := (pool.find? path).isSome

/-- The pool with one more container, if there is room. -/
def add (pool : Pool) (a : Archive) : Pool :=
  if pool.length < capacity then pool ++ [a] else pool

end Pool

/-- Work on the file system that keeps a pool of open containers. -/
abbrev Pooled (ε α : Type) := ExceptT ε (StateT Pool (StateM FileSystem)) α

namespace Pooled

variable {ε ε' α : Type}

/-- Carries out the work: its result, the pool and the file system that it leaves. -/
def apply (p : Pooled ε α) (pool : Pool) (fs : FileSystem) : (Except ε α × Pool) × FileSystem :=
  ((p.run.run pool).run fs : Id _)

/-- A call on the file system, with its errors seen as errors of another type. -/
def onFiles (f : ε → ε') (c : Call ε α) : Pooled ε' α :=
  fun pool fs => (((c fs).1.mapError f, pool), (c fs).2)

/-- Uses the container at a path, which is opened and added to the pool unless it is there. -/
def withArchive (path : Path) (use : Archive → Call LaunchError α) : Pooled LaunchError α := do
  match (← get).find? path with
  | some a => onFiles id (use a)
  | none =>
    let a ← onFiles .archive (Archive.load path)
    -- with the pool full the container is used all the same, but not kept
    modify (·.add a)
    onFiles id (use a)

end Pooled

/-- Where references lead, seen from a program. -/
structure Resolver where
  programDir : Path
  policy : UnpackPolicy
  deriving DecidableEq, Repr

namespace Resolver

/-- A call on the file system whose errors are plain errors of a launch. -/
def files {α : Type} (c : Call FileError α) : Call LaunchError α := c.withError .io

/-- Fails with a fault that is about no entry in particular. -/
def refuse {α : Type} (fault : ArchiveFault) : Call LaunchError α :=
  throw (.archive (.plain fault))

/-- Makes sure that the parent of a place exists and lies inside `root`. -/
def prepareParent (root target : Path) (member : String) : Call LaunchError Unit := do
  match target.parent? with
  | none => return
  | some parent =>
    if (← files (.askResult (·.resolveUnder root parent))).isNone then
      refuse (.unsafeName member)
    files (FileSystem.makeDirAll parent)

/-- Takes away what exists at a place, if the policy allows it. -/
def clearTarget (r : Resolver) (target : Path) : Call LaunchError Unit := do
  if ← .ask (·.isPresent target) then
    if r.policy.strict then refuse (.wouldOverwrite target)
    files (FileSystem.removeFile target)

/-- Copies a file to the place of a member below a directory and returns the place. -/
def copyMember (r : Resolver) (source : Path) (member : String) (dir : Path) :
    Call LaunchError Path := do
  match dir.containedJoin member with
  | none => refuse (.unsafeName member)
  | some target =>
    files (FileSystem.makeDirAll dir)
    let root ← files (.askResult (·.canonicalize dir))
    prepareParent root target member
    r.clearTarget target
    files (FileSystem.copyFile source target)
    return target

/-- Copies a member of an unpacked sibling, if there is one. -/
def copyUnpacked (r : Resolver) (reference : Reference) (dir : Path) :
    Call LaunchError (Option Path) := do
  match reference.unpackedPath with
  | none => return none
  | some relative =>
    let source := r.programDir.join relative
    if ← .ask (·.isFile source) then some <$> r.copyMember source reference.member dir
    else return none

variable [Zlib.Inflater]

/-- Unpacks a member of a container. -/
def unpackMember (r : Resolver) (reference : Reference) (dir : Path) (a : Archive) :
    Call LaunchError Path :=
  match a.find? reference.member with
  | some record => (a.unpack record dir r.policy).withError .archive
  | none => throw (.dependencyNotFound reference.location reference.member)

/-- Puts the member that a reference stands for below a directory and returns its path. -/
def resolve (r : Resolver) (text : String) (dir : Path) : Pooled LaunchError Path := do
  let reference ← .onFiles id (.askResult fun _ => Reference.parse text)
  match ← .onFiles id (r.copyUnpacked reference dir) with
  | some path => return path
  | none =>
    let siblings := reference.siblingPaths r.programDir
    match ← .onFiles id (.ask fun fs => siblings.find? fs.isFile) with
    | none => throw (.dependencyNotFound reference.location reference.member)
    | some sibling => Pooled.withArchive sibling (r.unpackMember reference dir)

end Resolver

end Stowage
