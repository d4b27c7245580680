/-!
# Permissions

The permissions of a node are a word of bits. All nodes belong to the process, which has no rights
beyond those of an owner: three of the bits say what it may do with a node. Two further bits let a
file run with the rights of its owner or its group; a change of its content takes them away.
-/

namespace Stowage

/-- What a node may be used for. -/
inductive Access where
  /-- A file is read, or the names in a directory are listed. -/
  | read
  /-- A file is changed, or names in a directory are made and removed. -/
  | write
  /-- A file is executed, or names in a directory are looked up. -/
  | pass
  deriving DecidableEq, Repr

/-- The permissions of a node. -/
abbrev Mode := Nat

namespace Mode

/-- The permissions of a directory made without asking for others. -/
def directory : Mode := 0o755

/-- The permissions of a file made without asking for others. -/
def file : Mode := 0o644

/-- The permissions of what is only for its owner, who may do everything with it. -/
def ownersOnly : Mode := 0o700

/-- The place of the bit by which an owner is allowed an access. -/
def bitOf : Access → Nat
  | .read => 8
  | .write => 7
  | .pass => 6

/-- Whether permissions allow their owner an access. -/
def allows (mode : Mode) (a : Access) : Bool := mode.testBit (bitOf a)

/-- The bit that hands the group of a directory down to what is made in it, and lets a file run
with the rights of its group. -/
def groupBit : Mode := 0o2000

/-- The permissions of a directory that is made in another one. -/
def directoryIn (outer : Mode) : Mode := directory ||| (outer &&& groupBit)

/-- The permissions that are left when the content of a file has changed. It no longer runs with
the rights of its owner nor, if its group may execute it, with those of its group. -/
def afterChange (mode : Mode) : Mode :=
  if mode &&& 0o10 = 0 then mode &&& 0o3777 else mode &&& 0o1777

end Mode

end Stowage
