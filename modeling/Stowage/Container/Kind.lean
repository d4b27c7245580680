/-!
# Kinds of entries

Each entry of a container has a kind, written as one byte. The kind decides what is done with the
entry: some are files, some are code, some only carry their name.
-/

namespace Stowage

/-- What an entry of a container holds. -/
inductive EntryKind where
  /-- A native library or program. -/
  | binary
  /-- A data file. -/
  | data
  /-- A zipped resource. -/
  | zipFile
  /-- A symbolic link; the payload is its target. -/
  | symlink
  /-- A reference to a member of another container. -/
  | dependency
  /-- Source text that is run as the program. -/
  | script
  /-- A compiled module that is run before the scripts. -/
  | module
  /-- A compiled package that is run before the scripts. -/
  | package
  /-- A bundle of compiled code for the module search path. -/
  | codeBundle
  /-- An option of the runtime; the name is the option. -/
  | runtimeOption
  /-- The pictures shown while the program starts. -/
  | splash
  /-- Any other kind; such entries are passed over. -/
  | unknown (code : UInt8)
  deriving DecidableEq, Repr, Inhabited

namespace EntryKind

/-- The kinds that have a letter of their own. -/
def named : List (UInt8 × EntryKind) :=
  [('b'.toUInt8, binary), ('x'.toUInt8, data), ('Z'.toUInt8, zipFile), ('n'.toUInt8, symlink),
    ('d'.toUInt8, dependency), ('s'.toUInt8, script), ('m'.toUInt8, module),
    ('M'.toUInt8, package), ('z'.toUInt8, codeBundle), ('o'.toUInt8, runtimeOption),
    ('l'.toUInt8, splash)]

/-- The kind that a byte stands for. -/
def ofCode (code : UInt8) : EntryKind :=
  (named.lookup code).getD (unknown code)

/-- The byte that stands for a kind. -/
def code : EntryKind → UInt8
  | binary => 'b'.toUInt8
  | data => 'x'.toUInt8
  | zipFile => 'Z'.toUInt8
  | symlink => 'n'.toUInt8
  | dependency => 'd'.toUInt8
  | script => 's'.toUInt8
  | module => 'm'.toUInt8
  | package => 'M'.toUInt8
  | codeBundle => 'z'.toUInt8
  | runtimeOption => 'o'.toUInt8
  | splash => 'l'.toUInt8
  | unknown code => code

/-- The byte of a kind as a character. -/
def letter (kind : EntryKind) : Char := Char.ofNat kind.code.toNat

/-- The name of a kind; nothing for one that has none. -/
def name? : EntryKind → Option String
  | binary => some "Binary"
  | data => some "Data"
  | zipFile => some "ZipFile"
  | symlink => some "Symlink"
  | dependency => some "Dependency"
  | script => some "Script"
  | module => some "Module"
  | package => some "Package"
  | codeBundle => some "CodeBundle"
  | runtimeOption => some "RuntimeOption"
  | splash => some "Splash"
  | unknown _ => none

/-- How a kind is shown. -/
def label (kind : EntryKind) : String :=
  kind.name?.getD s!"Unknown({kind.code.toNat})"

/-- Whether entries of a kind have to be on disk before the runtime starts. -/
def isExtractable : EntryKind → Bool
  | binary | data | zipFile | symlink | dependency => true
  | _ => false

/-- Whether entries of a kind are files or links that their own container holds. -/
def isFileLike : EntryKind → Bool
  | binary | data | zipFile | symlink => true
  | _ => false

/-- Whether entries of a kind are run before the scripts. -/
def isBootstrap : EntryKind → Bool
  | module | package => true
  | _ => false

theorem code_ofCode (code : UInt8) : (ofCode code).code = code := by
  unfold ofCode
  cases h : named.lookup code with
  | none => rfl
  | some kind =>
    obtain ⟨before, after, hsplit, _⟩ := List.lookup_eq_some_iff.mp h
    have all : ∀ p ∈ named, p.2.code = p.1 := by decide
    exact all (code, kind) (by simp [hsplit])

end EntryKind

end Stowage
