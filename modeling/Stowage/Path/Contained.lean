import Stowage.Path.Basic
/-!
# Names that stay inside

A name taken from an archive may be hostile. `normalizeRelative` removes `.` and `..` from a
relative path by a stack of names and refuses a path that leaves its starting directory on the way.
`containedJoin` puts such a name under a directory.
-/

namespace Stowage.Path

/-- One step of lexical normalisation. The stack holds the names so far, innermost first. -/
def reduceStep (stack : List String) : Component → Option (List String)
  | .name s => some (s :: stack)
  | .here => some stack
  | .up => match stack with
    | [] => none
    | _ :: rest => some rest
  | .root => none

/-- The names that remain when every `..` has taken away the name before it, innermost first. -/
def reduce (cs : List Component) : Option (List String) :=
  cs.foldlM reduceStep []

/-- The relative path that consists of the given names, outermost first. -/
def ofNames (names : List String) : Path :=
  ofChars (['/'].intercalate (names.map String.toList))

/-- A relative path without `.` and `..`; nothing when the path is absolute or climbs above its
start. -/
def normalizeRelative (p : Path) : Option Path :=
  (reduce p.components).map fun stack => ofNames stack.reverse

/-- `name` under `root`; nothing when the name is empty, absolute or leaves `root`. -/
def containedJoin (root : Path) (name : String) : Option Path :=
  match normalizeRelative ⟨name⟩ with
  | some relative => if relative.text = "" then none else some (root.join relative)
  | none => none

end Stowage.Path
