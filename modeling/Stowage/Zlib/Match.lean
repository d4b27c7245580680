import Stowage.Text.Utf8
/-!
# Finding repetitions

Data is cut into *tokens*: single bytes, and copies of bytes that stand a *distance* back. A copy is
looked for along a chain of earlier places where the same three bytes may stand. One that is found
is put off by one byte; if the next place has a longer copy, that one is preferred.

A chain keeps places modulo 2^16, and a place that is kept as zero ends it. This limits what is
found, but not what a token means.
-/

namespace Stowage.Zlib

/-- What data is cut into. -/
inductive Token where
  | byte (value : UInt8)
  | copy (length distance : Nat)
  deriving DecidableEq, Repr, Inhabited

/-- A copy of earlier bytes. -/
structure Repetition where
  length : Nat
  distance : Nat
  deriving DecidableEq, Repr

namespace Repetition

/-- The shortest copy that a token can stand for. -/
def shortest : Nat := 3

/-- The longest copy that a token can stand for. -/
def longest : Nat := 258

/-- How far back a copy can start. -/
def farthest : Nat := 32768

/-- The distance from which on the shortest copies are not worth a token. -/
def farForShortest : Nat := 8192

/-- A copy of this length is taken without a look at the next place. -/
def longEnough : Nat := 128

/-- The token for a copy. -/
def token (r : Repetition) : Token := .copy r.length r.distance

end Repetition

/-- Data with the chains of places that may begin alike. -/
structure Chained where
  data : Array UInt8
  /-- For each place the one before it on its chain. -/
  links : Array Nat

namespace Chained

/-- Places are kept modulo this number. -/
def placeCount : Nat := 65536

/-- How many chains there are. -/
def chainCount : Nat := 32768

/-- The chain of a place, which depends on the three bytes that stand there. -/
def chainOf (data : Array UInt8) (place : Nat) : Nat :=
  let byte (i : Nat) : Nat := (data.getD (place + i) 0).toNat
  (byte 0 * 1024 ^^^ byte 1 * 32 ^^^ byte 2) % chainCount

/-- Data with its chains. -/
def ofData (data : Array UInt8) : Chained :=
  let (_, links) := (List.range (data.size - 2)).foldl (fun (ends, links) place =>
    let chain := chainOf data place
    let before := ends.getD chain 0
    (ends.setIfInBounds chain (place % placeCount), links.push before))
    (Array.replicate chainCount 0, #[])
  ⟨data, links⟩

/-- The byte at a place. -/
def byteAt (c : Chained) (place : Nat) : UInt8 := c.data.getD place 0

/-- Whether two places hold the same two bytes. -/
def agree (c : Chained) (a b : Nat) : Bool :=
  c.byteAt a == c.byteAt b && c.byteAt (a + 1) == c.byteAt (b + 1)

/-- How many bytes, and at most `limit`, are the same at two places. -/
def commonLength (c : Chained) (a b : Nat) : (limit : Nat) → Nat
  | 0 => 0
  | limit + 1 =>
    if c.byteAt a == c.byteAt b then c.commonLength (a + 1) (b + 1) limit + 1 else 0

/-- A search at a place: how far back it may look, and how many bytes are left there. -/
structure Search where
  place : Nat
  window : Nat
  left : Nat

/-- Goes on along a chain in steps, of which a group of three is left only when a place looks
promising. `found` is the best so far; a copy with distance zero stands for none. -/
def searchFrom (c : Chained) (s : Search) : (groups steps : Nat) → (place : Nat) →
    (found : Repetition) → Repetition
  | 0, 0, _, found => found
  | groups + 1, 0, place, found => searchFrom c s groups 3 place found
  | groups, steps + 1, place, found =>
    let link := c.links.getD place 0
    let distance := (s.place + placeCount - link) % placeCount
    if link = 0 || s.window < distance then found
    else
      -- only a place that agrees in the last two bytes can give a longer copy
      let place := s.place - distance
      if !c.agree (place + found.length - 1) (s.place + found.length - 1) then
        searchFrom c s groups steps place found
      else if distance = 0 then found
      else
        let length := c.commonLength place s.place (min s.left Repetition.longest)
        if length ≤ found.length then searchFrom c s groups 0 place found
        else if length = s.left then ⟨length, distance⟩
        else searchFrom c s groups 0 place ⟨length, distance⟩
  termination_by groups steps => (groups, steps)

/-- How many groups of steps a search takes. -/
def groupCount (atLeast : Nat) : Nat := if 32 ≤ atLeast then 11 else 43

/-- A copy for the bytes at a place that is longer than `atLeast`. -/
def longerCopy (c : Chained) (place atLeast : Nat) : Option Repetition :=
  let left := min (c.data.size - place) Repetition.longest
  let window := min place (Repetition.farthest - left)
  if left ≤ atLeast then none
  else
    let found := c.searchFrom ⟨place, window, left⟩ (groupCount atLeast) 0 place ⟨atLeast, 0⟩
    if found.distance = 0 || found.distance = place % Repetition.farthest ||
      (found.length = Repetition.shortest && Repetition.farForShortest ≤ found.distance)
    then none else some found

end Chained

/-- A copy that is put off, with the byte that takes its place if it is given up. -/
structure Postponed where
  byte : UInt8
  copy : Repetition
  deriving DecidableEq, Repr

/-- What is done at a place: the tokens, the number of bytes to go on, and a copy to put off. -/
structure Choice where
  tokens : List Token
  advance : Nat
  postponed : Option Postponed
  deriving DecidableEq, Repr

namespace Choice

/-- Takes a copy if it is long enough, or puts it off. -/
def ofCopy (byte : UInt8) (r : Repetition) : Choice :=
  if Repetition.longEnough ≤ r.length then ⟨[r.token], r.length, none⟩
  else ⟨[], 1, some ⟨byte, r⟩⟩

/-- The choice at a place, given its byte, the copy put off before it, and the copy that has been
found for it. A copy that was put off starts one byte before the place. -/
def make (byte : UInt8) : (before : Option Postponed) → (found : Option Repetition) → Choice
  | some p, some r =>
    let choice := ofCopy byte r
    { choice with tokens := .byte p.byte :: choice.tokens }
  | some p, none => ⟨[p.copy.token], p.copy.length - 1, none⟩
  | none, some r => ofCopy byte r
  | none, none => ⟨[.byte byte], 1, none⟩

end Choice

/-- Tokens that are written together, and the bytes that they stand for. -/
structure TokenBlock where
  tokens : List Token
  bytes : Bytes
  deriving DecidableEq, Repr

/-- The block that is being filled: its tokens, the last one first, how many bytes they stand for
and how much room they take. -/
structure OpenBlock where
  reversed : List Token
  start : Nat
  length : Nat
  room : Nat

namespace OpenBlock

/-- An empty block that starts at a place. -/
def startingAt (place : Nat) : OpenBlock := ⟨[], place, 0, 0⟩

/-- The room that a token takes, in eighths of a byte: itself and one bit. -/
def roomOf : Token → Nat
  | .byte _ => 9
  | .copy _ _ => 25

/-- The number of bytes that a token stands for. -/
def lengthOf : Token → Nat
  | .byte _ => 1
  | .copy length _ => length

/-- The block with one more token. -/
def add (b : OpenBlock) (t : Token) : OpenBlock :=
  ⟨t :: b.reversed, b.start, b.length + lengthOf t, b.room + roomOf t⟩

/-- The room that a block takes, in bytes. -/
def size (b : OpenBlock) : Nat := 1 + b.room / 8

/-- The most room that a block can take. -/
def capacity : Nat := 65536

/-- Whether a block is closed: it is almost full, or it is long and hardly smaller than its
bytes. -/
def isFull (b : OpenBlock) : Bool :=
  capacity - 8 < b.size || (31 * 1024 < b.length && b.length ≤ b.size * 115 / 128)

/-- A block that is closed. -/
def close (data : Array UInt8) (b : OpenBlock) : TokenBlock :=
  ⟨b.reversed.reverse, (data.extract b.start (b.start + b.length)).toList⟩

end OpenBlock

/-- Cuts data into blocks of tokens, from a place on. The budget is the number of bytes left. -/
def blocksFrom (c : Chained) : (budget : Nat) → (place : Nat) → Option Postponed → OpenBlock →
    List TokenBlock
  | 0, _, _, block => [block.close c.data]
  | budget + 1, place, before, block =>
    if c.data.size ≤ place then [block.close c.data]
    else
      let atLeast := match before with
        | some p => p.copy.length
        | none => Repetition.shortest - 1
      let choice := Choice.make (c.byteAt place) before (c.longerCopy place atLeast)
      let filled := choice.tokens.foldl OpenBlock.add block
      let next := place + choice.advance
      if filled.isFull then
        filled.close c.data :: blocksFrom c budget next choice.postponed
          (.startingAt (filled.start + filled.length))
      else blocksFrom c budget next choice.postponed filled

/-- Data as blocks of tokens. There is at least one block. -/
def tokenBlocks (bytes : Bytes) : List TokenBlock :=
  let data := bytes.toArray
  blocksFrom (.ofData data) data.size 0 none (.startingAt 0)

end Stowage.Zlib
