import Stowage.Environment.Basic
import Stowage.Files.Walk
import Stowage.Text.Utf8
/-!
# Programs in files

What a file is when it is executed. A binary is known by the bytes that it starts with. A script is
a text whose first line names its interpreter, the program that reads it, which may be a script
again.

A program that is called by a bare name is looked for on the search path. Every candidate is tried
in turn, until one runs or one fails for another reason than that there is nothing to run.
-/

namespace Stowage

/-! ## Interpreters -/

/-- The program that reads a script, and perhaps one argument for it. -/
structure Interpreter where
  path : Path
  argument : Option String
  deriving DecidableEq, Repr

namespace Interpreter

/-- How many bytes of a script are looked at. -/
def reach : Nat := 256

/-- A space or a tab. No other byte divides words. -/
def isGap (b : UInt8) : Bool := b = 32 || b = 9

/-- Whether a byte ends a word. -/
def endsWord (b : UInt8) : Bool := isGap b || b = 0

/-- The first line of a script after its mark. If the line goes on out of reach, the end of its
first word must be within reach; a short file counts as filled up with zeros. -/
def line? (bytes : Bytes) : Option Bytes :=
  let head := bytes.take reach
  let body := (head ++ List.replicate (reach - head.length) 0).drop 2
  let line := body.takeWhile fun b => b ≠ 10 && b ≠ 0
  if body[line.length]? = some 10 then some line
  else if (body.dropWhile isGap).any endsWord then some body.dropLast
  else none

/-- The interpreter that a line names: a word, with all that follows it as one argument. Where a
zero stands in place of the word, the working directory is meant. -/
def ofLine? (line : Bytes) : Option Interpreter :=
  let line := (line.reverse.dropWhile isGap).reverse.dropWhile isGap
  let word := line.takeWhile (!endsWord ·)
  let rest := line.drop word.length
  if line = [] then none
  else some {
    path := ⟨if word = [] then "." else Text.decodeLossy word⟩
    argument :=
      if rest.head?.any isGap then
        some (Text.decodeLossy ((rest.dropWhile isGap).takeWhile (· ≠ 0)))
      else none }

end Interpreter

/-! ## Images -/

/-- The programs that run without an interpreter. -/
inductive Binary where
  | launcher
  | shell
  deriving DecidableEq, Repr

/-- What a file that is executed turns out to be. -/
inductive ProgramImage where
  | binary (b : Binary)
  | script (interpreter : Interpreter)
  | unknown
  deriving DecidableEq, Repr

namespace ProgramImage

/-- The bytes with which a launcher starts. -/
def launcherHeading : Bytes := Text.encode "\x7fELF launcher\n"

/-- The bytes with which the shell starts. -/
def shellHeading : Bytes := Text.encode "\x7fELF shell\n"

/-- What some bytes are, when they are executed. -/
def ofBytes (bytes : Bytes) : ProgramImage :=
  if launcherHeading.isPrefixOf bytes then binary .launcher
  else if shellHeading.isPrefixOf bytes then binary .shell
  else if (Text.encode "#!").isPrefixOf bytes then
    ((Interpreter.line? bytes).bind Interpreter.ofLine?).elim unknown script
  else unknown

end ProgramImage

/-! ## From a name to a binary -/

/-- A binary that is about to run: where it is, and its command line. -/
structure Invocation where
  binary : Binary
  path : Path
  argv : List String
  deriving DecidableEq, Repr

namespace Invocation

/-- The bytes of a file that may be executed. -/
def readProgram (fs : FileSystem) (path : Path) : Except FileError Bytes := do
  let loc ← fs.find true path
  match fs.node? loc with
  | some (.file n) =>
    if !(fs.inode n).mode.allows .pass then .error (.os .notPermitted)
    else .ok (fs.inode n).bytes
  | _ => .error (.os .notPermitted)

/-- How many scripts may stand before a binary. -/
def maxScripts : Nat := 5

/-- What runs when the file at a path is executed. The interpreter of a script gets the path of the
script in place of the name by which the script was called. -/
def ofPath (fs : FileSystem) : (scripts : Nat) → Path → (argv : List String) →
    Except FileError Invocation
  | scripts, path, argv => do
    match ProgramImage.ofBytes (← readProgram fs path) with
    | .binary binary => .ok ⟨binary, path, argv⟩
    | .unknown => .error (.os .badFormat)
    | .script ⟨interpreter, argument⟩ =>
      match scripts with
      | 0 =>
        let _ ← readProgram fs interpreter
        .error (.os .tooManyLinks)
      | scripts + 1 =>
        ofPath fs scripts interpreter
          (interpreter.text :: (argument.toList ++ path.text :: argv.drop 1))

/-- Where a program is looked for when no search path is set. -/
def defaultSearchPath : String := "/bin:/usr/bin"

/-- The paths that a program may have, in the order in which they are tried. An empty entry of the
search path is the working directory. -/
def candidates (env : Environment) (program : Path) : List Path :=
  if program.text = "" || program.chars.contains '/' then [program]
  else (((env.get? "PATH").getD defaultSearchPath).toList.splitOn ':').map fun dir =>
    if dir = [] then program else .ofChars (dir ++ '/' :: program.chars)

/-- Whether an error only says that a candidate is not a program that may be executed. -/
def isMiss (e : FileError) : Bool :=
  e = .os .notFound || e = .os .notDirectory || e = .os .notPermitted

/-- What runs when the first fitting candidate is executed. If none fits, the last error is
reported, but for one that says that a file may not be executed, which is kept. -/
def ofCandidates (fs : FileSystem) (argv : List String) (fault : FileError) :
    List Path → Except FileError Invocation
  | [] => .error fault
  | path :: rest => match ofPath fs maxScripts path argv with
    | .ok invocation => .ok invocation
    | .error e =>
      if isMiss e then ofCandidates fs argv (if fault = .os .notPermitted then fault else e) rest
      else .error e

/-- What runs when a program is called with a command line. -/
def ofCall (fs : FileSystem) (env : Environment) (program : Path) (argv : List String) :
    Except FileError Invocation :=
  if program.chars.contains '\x00' || argv.any (·.toList.contains '\x00') then
    .error .nulInCommand
  else ofCandidates fs argv (.os .notFound) (candidates env program)

end Invocation

end Stowage
