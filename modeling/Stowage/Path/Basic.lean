/-!
# Paths

A path is a text in which slashes separate names. The text is kept as written, since messages show
it; what a path means is its list of components. Two paths that differ only in doubled slashes, in
`.` names or in a trailing slash have the same components and count as equal (`Path.same`).

The operations that cut a path (`parent?`, `lastName?`, `withExtension`) cut the text and keep what
remains as it was written.
-/

namespace Stowage

/-- One step of a path. `here` is only met as the first step of a relative path; elsewhere a `.`
has no meaning and is left out. -/
inductive Component where
  | root
  | here
  | up
  | name (text : String)
  deriving DecidableEq, Repr

/-- A path, as it is written. -/
structure Path where
  text : String
  deriving DecidableEq, Repr, Inhabited

namespace Component

/-- The text of a component. -/
def text : Component → String
  | root => "/"
  | here => "."
  | up => ".."
  | name s => s

/-- Whether a component is a plain name. -/
def isName : Component → Bool
  | name _ => true
  | _ => false

end Component

namespace Path

/-- The empty path. -/
def empty : Path := ⟨""⟩

/-- The characters of a path. -/
def chars (p : Path) : List Char := p.text.toList

/-- The path with the given characters. -/
def ofChars (cs : List Char) : Path := ⟨String.ofList cs⟩

/-- A path is absolute when it starts with a slash. -/
def isAbsolute (p : Path) : Bool :=
  p.chars.head? == some '/'

/-- Where a path starts: at the root, at an explicit `.`, or at its first name. -/
inductive Start where
  | root
  | here
  | plain
  deriving DecidableEq, Repr

/-- The start of a path. A leading `.` counts only when it is a whole name. -/
def startOf : List Char → Start
  | '/' :: _ => .root
  | ['.'] => .here
  | '.' :: '/' :: _ => .here
  | _ => .plain

/-- The characters that make up the start of a path. -/
def Start.chars : Start → List Char
  | .root => ['/']
  | .here => ['.']
  | .plain => []

/-- The component that the start of a path contributes. -/
def Start.components : Start → List Component
  | .root => [.root]
  | .here => [.here]
  | .plain => []

/-- The pieces between the slashes of what follows the start of a path. -/
def pieces (p : Path) : List (List Char) :=
  (p.chars.drop (startOf p.chars).chars.length).splitOn '/'

/-- A piece that means nothing: empty, or a single `.`. -/
def isIdle (piece : List Char) : Bool :=
  piece == [] || piece == ['.']

/-- The component that a piece between slashes stands for. -/
def componentOf (piece : List Char) : Component :=
  if piece = ['.', '.'] then .up else .name (String.ofList piece)

/-- The steps of a path, in order. -/
def components (p : Path) : List Component :=
  (startOf p.chars).components ++ (p.pieces.filter (!isIdle ·)).map componentOf

/-- Whether two paths have the same steps. -/
def same (p q : Path) : Bool :=
  p.components == q.components

/-- Whether the steps of `base` come first among the steps of `p`. -/
def startsWith (p base : Path) : Bool :=
  base.components.isPrefixOf p.components

/-- The pieces of a path up to the last one that means something. -/
def trimmedPieces (ps : List (List Char)) : List (List Char) :=
  (ps.reverse.dropWhile isIdle).reverse

/-- A path from its start and the pieces that follow it. -/
def assemble (start : Start) (ps : List (List Char)) : Path :=
  ofChars (start.chars ++ ['/'].intercalate ps)

/-- The last component, unless the path is empty. -/
def lastComponent? (p : Path) : Option Component :=
  p.components.getLast?

/-- The path without its last component. A path that is empty or only a root has none. -/
def parent? (p : Path) : Option Path :=
  let start := startOf p.chars
  match trimmedPieces p.pieces with
  -- a single dot is a name, and the empty path is before it
  | [] => if start = .here then some empty else none
  | q :: qs => some (assemble start (trimmedPieces (q :: qs).dropLast))

/-- The first `fuel` members of the sequence that starts with a path and goes on to its parent. -/
def ancestorsUpTo : (fuel : Nat) → Path → List Path
  | 0, _ => []
  | fuel + 1, p => p :: match p.parent? with
    | some q => ancestorsUpTo fuel q
    | none => []

/-- A path, its parent, the parent of that, and so on. A parent is shorter, so the number of
characters bounds their number. -/
def ancestors (p : Path) : List Path :=
  ancestorsUpTo (p.chars.length + 1) p

/-- The last component, if it is a name. -/
def lastName? (p : Path) : Option String :=
  match p.lastComponent? with
  | some (.name s) => some s
  | _ => none

/-- One path followed from another. An absolute second path replaces the first. -/
def join (p q : Path) : Path :=
  if q.isAbsolute then q
  else match p.chars.getLast? with
    | none => q
    | some '/' => ofChars (p.chars ++ q.chars)
    | some _ => ofChars (p.chars ++ '/' :: q.chars)

/-- The part of a file name before its last dot. A name whose only dot comes first has no
extension, and so has `..`. -/
def stem (fileName : List Char) : List Char :=
  if fileName = ['.', '.'] then fileName
  else
    let before := (fileName.reverse.dropWhile (· ≠ '.')).drop 1
    if before = [] then fileName else before.reverse

/-- The path with the extension of its file name replaced, or added if it has none. Whatever
follows the file name, such as a trailing slash, is dropped; a path without a file name is left
alone. The old extension is cut off first: at the end of a path `..a` becomes `..`, which is no file
name any more, so that it gets no new extension. -/
def withExtension (p : Path) (extension : String) : Path :=
  match p.lastName?, trimmedPieces p.pieces with
  | some file, q :: qs =>
    let bare := stem file.toList
    let name := if bare = ['.'] ∧ p.pieces = q :: qs then ['.', '.']
      else bare ++ '.' :: extension.toList
    assemble (startOf p.chars) ((q :: qs).dropLast ++ [name])
  | _, _ => p

instance : ToString Path := ⟨Path.text⟩

end Path

end Stowage
