import Stowage.Environment.Basic
import Stowage.Files.Walk
import Stowage.Process.Ending
import Stowage.Text.Number
import Stowage.Text.Utf8
/-!
# A small shell

Enough of a command language to try out how a child process is started and how it ends. A program
is a sequence of commands, joined by `;`, a line end, `&&` or `||`. Words may be quoted, and
variables and parameters are expanded. The commands are `exit`, `kill`, `test`, `true`, `false` and
`exec`, and `!` turns the outcome of a command around; any other command is not found.
-/

namespace Stowage.Shell

/-- How a command depends on the one before it. -/
inductive Joint where
  | always
  | ifSucceeded
  | ifFailed
  deriving DecidableEq, Repr

/-- What the shell reads. A piece of a word is literal or the name of a parameter; quoted pieces
are not split. -/
inductive Token where
  | literal (text : String) (isQuoted : Bool)
  | parameter (name : String) (isQuoted : Bool)
  | blank
  | joint (j : Joint)
  deriving DecidableEq, Repr

/-- Whether a character can be part of a name. -/
def isNameChar (c : Char) : Bool := c.isAlphanum || c = '_'

/-- The name after a dollar sign and what follows it. -/
def readParameter (cs : List Char) : Option (String × List Char) :=
  match cs with
  | [] => none
  | '\x7b' :: rest =>
    some (String.ofList (rest.takeWhile (· ≠ '\x7d')), (rest.dropWhile (· ≠ '\x7d')).drop 1)
  | c :: rest =>
    if c.isDigit || "$#?@*".toList.contains c then some (String.ofList [c], rest)
    else if isNameChar c then
      some (String.ofList (cs.takeWhile isNameChar), cs.dropWhile isNameChar)
    else none

/-- Reads the tokens of a program, with the next character inside double quotes or not. The budget
is the number of characters. -/
def readTokens : (budget : Nat) → (isQuoted : Bool) → List Char → List Token
  | 0, _, _ => []
  | _, _, [] => []
  | n + 1, false, '\'' :: rest =>
    .literal (String.ofList (rest.takeWhile (· ≠ '\''))) true ::
      readTokens n false ((rest.dropWhile (· ≠ '\'')).drop 1)
  -- all arguments, which may be none
  | n + 1, false, '"' :: '$' :: '@' :: '"' :: rest => .parameter "@" true :: readTokens n false rest
  | n + 1, isQuoted, '"' :: rest => .literal "" true :: readTokens n (!isQuoted) rest
  | n + 1, isQuoted, '\\' :: c :: rest =>
    .literal (String.ofList [c]) true :: readTokens n isQuoted rest
  | n + 1, isQuoted, '$' :: rest =>
    match readParameter rest with
    | some (name, rest) => .parameter name isQuoted :: readTokens n isQuoted rest
    | none => .literal "$" isQuoted :: readTokens n isQuoted rest
  | n + 1, true, c :: rest => .literal (String.ofList [c]) true :: readTokens n true rest
  | n + 1, false, '&' :: '&' :: rest => .joint .ifSucceeded :: readTokens n false rest
  | n + 1, false, '|' :: '|' :: rest => .joint .ifFailed :: readTokens n false rest
  | n + 1, false, c :: rest =>
    if c = ';' || c = '\n' then .joint .always :: readTokens n false rest
    else if c = ' ' || c = '\t' then .blank :: readTokens n false rest
    else if c = '#' then readTokens n false (rest.dropWhile (· ≠ '\n'))
    else .literal (String.ofList [c]) false :: readTokens n false rest

/-- The tokens of a program. -/
def tokens (program : String) : List Token :=
  readTokens program.toList.length false program.toList

/-- What parameters stand for. -/
structure Setting where
  files : FileSystem
  env : Environment
  /-- The name of the program and its arguments. -/
  args : List String
  lastCode : Nat
  /-- A command that fails ends the program, unless another one depends on it. -/
  isStrict : Bool
  deriving Inhabited

/-- The process number that a shell sees as its own. -/
def processId : String := "4242"

/-- The value of a parameter. -/
def Setting.value (s : Setting) (name : String) : String :=
  match name with
  | "$" => processId
  | "#" => toString (s.args.length - 1)
  | "?" => toString s.lastCode
  | "@" => " ".intercalate (s.args.drop 1)
  | "*" => " ".intercalate (s.args.drop 1)
  | name => match Text.readNat? name.toList with
    | some n => s.args.getD n ""
    | none => (s.env.get? name).getD ""

/-- The pieces into which the value of a parameter falls. Only all arguments together, and a value
that is not quoted, make several words. -/
def Setting.pieces (s : Setting) (name : String) (isQuoted : Bool) : List String :=
  if isQuoted then if name = "@" then s.args.drop 1 else [s.value name]
  else (((s.value name).toList.splitOn ' ').filter (· ≠ [])).map String.ofList

/-- The words that some tokens make. The word being read is absent until its first piece. -/
def words (s : Setting) (word : Option String) : List Token → List String
  | [] => word.toList
  | .blank :: rest => word.toList ++ words s none rest
  | .joint _ :: rest => word.toList ++ words s none rest
  | .literal text _ :: rest => words s (some (word.getD "" ++ text)) rest
  | .parameter name isQuoted :: rest =>
    match s.pieces name isQuoted with
    | [] => words s word rest
    | [piece] => words s (some (word.getD "" ++ piece)) rest
    | piece :: more => (word.getD "" ++ piece) :: more.dropLast ++ words s more.getLast? rest

/-- The exit code of the shell, or of a command, that is called in a wrong way. -/
def misuseExit : Nat := 2

/-- The outcome of a condition that is understood. -/
def outcomeOf (holds : Bool) : Nat := if holds then 0 else 1

/-- A number of 64 bits with an optional sign and with blanks around it. -/
def readInt? (text : String) : Option Int :=
  let magnitude (bound : Nat) (digits : List Char) : Option Int :=
    ((Text.readNat? digits).filter (· ≤ bound)).map Int.ofNat
  match (Text.trim text).toList with
  | '-' :: digits => (magnitude 0x8000000000000000 digits).map (- ·)
  | '+' :: digits => magnitude 0x7FFFFFFFFFFFFFFF digits
  | digits => magnitude 0x7FFFFFFFFFFFFFFF digits

/-- The outcome of a test that compares two texts or two numbers. -/
def comparison? (a operator b : String) : Option Nat :=
  let numeric (holds : Int → Int → Bool) : Option Nat :=
    match readInt? a, readInt? b with
    | some x, some y => some (outcomeOf (holds x y))
    | _, _ => some misuseExit
  match operator with
  | "=" => some (outcomeOf (a = b))
  | "!=" => some (outcomeOf (a ≠ b))
  | "-eq" => numeric fun x y => x = y
  | "-ne" => numeric fun x y => x ≠ y
  | "-lt" => numeric fun x y => x < y
  | "-le" => numeric fun x y => x ≤ y
  | "-gt" => numeric fun x y => y < x
  | "-ge" => numeric fun x y => y ≤ x
  | _ => none

/-- The test that asks for one property of a text or of the file that it names. -/
def property? (files : FileSystem) (operator a : String) : Option Bool :=
  match operator with
  | "-z" => some (a = "")
  | "-n" => some (a ≠ "")
  | "-e" => some (files.find true ⟨a⟩).isOk
  | "-f" => some (files.isFile ⟨a⟩)
  | "-d" => some (files.isDirectory ⟨a⟩)
  | "-r" => some (files.isAllowed ⟨a⟩ .read)
  | "-w" => some (files.isAllowed ⟨a⟩ .write)
  | "-x" => some (files.isAllowed ⟨a⟩ .pass)
  | _ => none

/-- The outcome of a condition in the opposite case. One that is not understood has none. -/
def opposite (outcome : Nat) : Nat :=
  if outcome = misuseExit then misuseExit else outcomeOf (outcome ≠ 0)

/-- The outcome of a condition: true, false or not understood. -/
def condition (files : FileSystem) : List String → Nat
  | [] => 1
  | [a] => outcomeOf (a ≠ "")
  | [a, operator, b] => match comparison? a operator b with
    | some outcome => outcome
    | none => if a = "!" then opposite (condition files [operator, b]) else misuseExit
  | "!" :: rest => opposite (condition files rest)
  | [operator, a] => ((property? files operator a).map outcomeOf).getD misuseExit
  | _ => misuseExit

/-- The number of a signal, given by its number or, in any case, by its name. -/
def signalOf (text : String) : Option Nat :=
  match Text.readNat? text.toList with
  | some n => if n ≤ 64 then some n else none
  | none => Signal.named.lookup (String.ofList (text.toList.map Char.toUpper))

/-- What a command does: it ends with a code and the program goes on, or the process ends. -/
inductive Step where
  | goesOn (code : Nat)
  | ends (how : ProcessEnd)
  deriving DecidableEq, Repr

/-- Sends a signal to a process. -/
def sendSignal (signal : Option Nat) (process : String) : Step :=
  match signal with
  | some n =>
    if process = processId then
      if Signal.endsProcess n then .ends (.signal n) else .goesOn 0
    else .goesOn 1
  | none => .goesOn misuseExit

/-- Runs one command. -/
def runCommand (s : Setting) : List String → Step
  | [] => .goesOn s.lastCode
  | ["exit"] => .ends (.exit s.lastCode)
  | "exit" :: code :: _ => match (Text.readNat? code.toList).filter (· < 0x80000000) with
    | some n => .ends (.exit (n % 256))
    | none => .ends (.exit misuseExit)
  | ["kill", "-s", signal, process] => sendSignal (signalOf signal) process
  | ["kill", process] => sendSignal (some 15) process
  | ["kill", signal, process] =>
    sendSignal ((Text.afterLead? "-" signal).bind signalOf) process
  | "true" :: _ => .goesOn 0
  | ":" :: _ => .goesOn 0
  | "false" :: _ => .goesOn 1
  | "test" :: rest => .goesOn (condition s.files rest)
  | "[" :: rest => if rest.getLast? = some "]" then .goesOn (condition s.files rest.dropLast)
    else .goesOn misuseExit
  | "!" :: command :: rest => match runCommand s (command :: rest) with
    | .goesOn code => .goesOn (outcomeOf (code ≠ 0))
    | .ends how => .ends how
  | "exec" :: command :: rest => match runCommand s (command :: rest) with
    | .goesOn code => .ends (.exit code)
    | .ends how => .ends how
  | _ => .goesOn 127

/-- The tokens of the commands of a program, each with the joint before it. After `&&` and `||` a
command is still to come, be it on another line. -/
def commandsFrom (before : Joint) (current : List Token) : List Token → List (Joint × List Token)
  | [] => [(before, current.reverse)]
  | .joint j :: rest =>
    if before ≠ .always ∧ j = .always ∧ current.all (· = .blank) then commandsFrom before [] rest
    else (before, current.reverse) :: commandsFrom j [] rest
  | t :: rest => commandsFrom before (t :: current) rest

/-- Whether the next command depends on the one before it. -/
def isAwaited : List (Joint × List Token) → Bool
  | [] => false
  | (joint, _) :: _ => joint ≠ .always

/-- Runs commands until the process ends. -/
def runCommands (s : Setting) : List (Joint × List Token) → ProcessEnd
  | [] => .exit s.lastCode
  | (joint, ts) :: rest =>
    let isDue := match joint with
      | .always => true
      | .ifSucceeded => s.lastCode = 0
      | .ifFailed => s.lastCode ≠ 0
    let command := words s none ts
    if isDue then
      match runCommand s command with
      | .goesOn code =>
        let isExempt := command = [] || command.head? = some "!" || isAwaited rest
        if s.isStrict && code ≠ 0 && !isExempt then .exit code
        else runCommands { s with lastCode := code } rest
      | .ends how => how
    else runCommands s rest

/-! ## Calling the shell -/

/-- What the options of the shell ask for. -/
structure Options where
  /-- The first argument is a program and not the name of a file. -/
  takesProgram : Bool
  isStrict : Bool
  /-- The program is read and not run. -/
  isIdle : Bool
  deriving Repr, Inhabited

/-- The letters that are options of the shell. -/
def optionLetters : List Char := "abcefmnuvxCEV".toList

/-- The options after one more letter, which may also be one that switches an option off. -/
def Options.afterLetter (o : Options) (isOn : Bool) (letter : Char) : Options :=
  match letter with
  | 'c' => { o with takesProgram := true }
  | 'e' => { o with isStrict := isOn }
  | 'n' => { o with isIdle := isOn }
  | _ => o

/-- Reads the options at the start of some arguments; nothing if there is one that the shell does
not know. -/
def readOptions (o : Options) : List String → Option (Options × List String)
  | [] => some (o, [])
  | arg :: rest => match arg.toList with
    | ['-'] | ['-', '-'] => some (o, rest)
    | sign :: letters =>
      if sign = '-' || sign = '+' then
        if letters.all optionLetters.contains then
          readOptions (letters.foldl (Options.afterLetter · (sign = '-')) o) rest
        else none
      else some (o, arg :: rest)
    | [] => some (o, arg :: rest)

/-- The text of the file at a path. A directory can be opened, but gives no text. -/
def readText (files : FileSystem) (path : Path) : Option String :=
  match files.content path with
  | .ok bytes => some (Text.decodeLossy bytes)
  | .error (.os .isDirectory) => some ""
  | .error _ => none

/-- What the shell is to run, with its name and arguments: a program that is given as an argument,
or one in a file. Without arguments there is an empty program. -/
def programOf (files : FileSystem) (name : List String) (o : Options) :
    List String → Option (String × List String)
  | [] => if o.takesProgram then none else some ("", name)
  | first :: rest =>
    if o.takesProgram then some (first, if rest = [] then name else rest)
    else (readText files ⟨first⟩).map fun program => (program, first :: rest)

/-- Runs the shell with a command line. -/
def run (files : FileSystem) (env : Environment) (argv : List String) : ProcessEnd :=
  let request := (readOptions default (argv.drop 1)).bind fun (o, args) =>
    (programOf files (argv.take 1) o args).map fun program => (o, program)
  match request with
  | none => .exit misuseExit
  | some (o, program, args) =>
    if o.isIdle then .exit 0
    else runCommands ⟨files, env, args, 0, o.isStrict⟩ (commandsFrom .always [] (tokens program))

end Stowage.Shell
