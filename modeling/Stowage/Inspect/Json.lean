import Stowage.Text.Quoted
/-!
# JSON documents

The values that listings are made of, and their layout: every member of an object and every element
of an array stands on a line of its own, indented by two spaces for each level.
-/

namespace Stowage

/-- A JSON value. Members of an object keep their order. -/
inductive JsonValue where
  | bool (value : Bool)
  | number (value : Nat)
  | string (value : String)
  | array (elements : List JsonValue)
  | object (members : List (String × JsonValue))
  deriving Repr, Inhabited

namespace JsonValue

/-- How a character is written inside a string. Only quotes, backslashes and controls are
escaped. -/
def escapedChar (c : Char) : List Char :=
  if c = '"' then ['\\', '"']
  else if c = '\\' then ['\\', '\\']
  else if c = '\x08' then ['\\', 'b']
  else if c = '\x0c' then ['\\', 'f']
  else if c = '\n' then ['\\', 'n']
  else if c = '\r' then ['\\', 'r']
  else if c = '\t' then ['\\', 't']
  else if c.toNat < 32 then
    let digits := Text.hexDigits c.toNat
    ['\\', 'u'] ++ List.replicate (4 - digits.length) '0' ++ digits
  else [c]

/-- A text as a JSON string. -/
def quoted (s : String) : String :=
  String.ofList ('"' :: s.toList.flatMap escapedChar ++ ['"'])

/-- A line end and the indentation of a level. -/
def newLine (level : Nat) : String :=
  "\n" ++ String.ofList (List.replicate (2 * level) ' ')

/-- Items between brackets, each on a line of its own. -/
def block (opening closing : String) (level : Nat) (items : List String) : String :=
  if items.isEmpty then opening ++ closing
  else opening ++ ",".intercalate (items.map (newLine (level + 1) ++ ·)) ++ newLine level ++ closing

mutual

/-- The text of a value that stands at a level. -/
def render (level : Nat) : JsonValue → String
  | bool true => "true"
  | bool false => "false"
  | number n => toString n
  | string s => quoted s
  | array elements => block "[" "]" level (renderElements (level + 1) elements)
  | object members => block "\x7b" "\x7d" level (renderMembers (level + 1) members)

/-- The texts of the elements of an array. -/
def renderElements (level : Nat) : List JsonValue → List String
  | [] => []
  | v :: rest => render level v :: renderElements level rest

/-- The texts of the members of an object. -/
def renderMembers (level : Nat) : List (String × JsonValue) → List String
  | [] => []
  | (key, v) :: rest => (quoted key ++ ": " ++ render level v) :: renderMembers level rest

end

/-- The text of a document. -/
def text (v : JsonValue) : String := render 0 v

end JsonValue

end Stowage
