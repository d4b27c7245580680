import Stowage.Container.Error
import Stowage.Bytes.Word
/-!
# Cookies

A container ends in a *cookie* of 88 bytes: eight bytes of magic, four numbers and the name of the
runtime library in a field of 64 bytes, which ends at its first zero. The numbers are the length of
the whole container, where its table of contents starts and how long it is, and the version of the
runtime.
-/

namespace Stowage

/-- What the end of a container says about it. -/
structure Cookie where
  containerLength : UInt32
  /-- Where the table of contents starts, counted from the start of the container. -/
  contentsOffset : UInt32
  contentsLength : UInt32
  runtimeVersion : UInt32
  runtimeLibrary : String
  deriving DecidableEq, Repr, Inhabited

namespace Cookie

/-- The bytes with which a cookie starts. -/
def magic : Bytes := [0x42, 0x50, 0x4B, 0x0C, 0x0B, 0x0A, 0x0B, 0x0E]

/-- The bytes that allow a program to run from a container beside it. -/
def sideLoadMarker : Bytes := [0x42, 0x50, 0x4B, 0x0C, 0x0B, 0x53, 0x4C, 0x44]

/-- The width of the field for the library name. -/
def nameWidth : Nat := 64

/-- The length of a cookie. -/
def size : Nat := 88

/-- The cookie that a block of 88 bytes holds. -/
def parse (block : Bytes) : Except ArchiveFault Cookie :=
  if block.take magic.length ≠ magic then .error (.malformed .wrongMagic)
  else match Text.decode? ((block.drop 24).takeWhile (· ≠ 0)) with
    | none => .error (.malformed .libraryNameNotText)
    | some runtimeLibrary => .ok {
        containerLength := Word.at32 block 8
        contentsOffset := Word.at32 block 12
        contentsLength := Word.at32 block 16
        runtimeVersion := Word.at32 block 20
        runtimeLibrary }

/-- The field for the library name: at most 63 bytes of it, then zeros. -/
def encodeName (name : String) : Bytes :=
  let kept := (Text.encode name).take (nameWidth - 1)
  kept ++ List.replicate (nameWidth - kept.length) 0

/-- The block of 88 bytes for a cookie. -/
def encode (c : Cookie) : Bytes :=
  magic ++ Word.encode c.containerLength.toNat ++ Word.encode c.contentsOffset.toNat ++
    Word.encode c.contentsLength.toNat ++ Word.encode c.runtimeVersion.toNat ++
    encodeName c.runtimeLibrary

end Cookie

end Stowage
