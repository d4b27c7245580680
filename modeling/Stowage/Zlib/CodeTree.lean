/-!
# Code trees

A code gives each symbol a word of bits such that no word begins another one. It is kept as a
binary tree: reading a bit goes down one step, and a leaf is a symbol.

A canonical code is given by the lengths of its words alone: shorter words come first, words of one
length follow the order of their symbols, and each word starts where the one before it ends in the
space of all words of the greatest length.
-/

namespace Stowage.Zlib

/-- A code as a tree of bits. -/
inductive CodeTree where
  /-- No word goes this way. -/
  | empty
  | leaf (symbol : Nat)
  | node (zero one : CodeTree)
  deriving Repr, Inhabited

namespace CodeTree

/-- The longest word of a code, in bits. -/
def maxLength : Nat := 15

/-- The subtree that a bit leads to. -/
def child : CodeTree → Bool → CodeTree
  | node zero _, false => zero
  | node _ one, true => one
  | _, _ => empty

/-- The tree in which a symbol has been added at the end of a word. -/
def insert (symbol : Nat) : List Bool → CodeTree → CodeTree
  | [], _ => leaf symbol
  | false :: word, t => node (insert symbol word (t.child false)) (t.child true)
  | true :: word, t => node (t.child false) (insert symbol word (t.child true))

/-- The `width` low bits of a number, the highest first. -/
def wordOf (width value : Nat) : List Bool :=
  ((List.range width).map value.testBit).reverse

/-- The share of the space of all words that a word of the given length takes. -/
def share (length : Nat) : Nat :=
  if length = 0 then 0 else 1 <<< (maxLength - length)

/-- The shares of all words of a code together. They fill the space when they add up to
`1 <<< maxLength`. -/
def totalShare (lengths : List Nat) : Nat :=
  lengths.foldr (fun length total => share length + total) 0

/-- Whether the words of a code fill the space of all words. -/
def isComplete (lengths : List Nat) : Bool :=
  totalShare lengths = 1 <<< maxLength

/-- The number of symbols that have a word. -/
def usedCount (lengths : List Nat) : Nat :=
  lengths.countP (· ≠ 0)

/-- Whether a code can be used: its words fill the space, or it has at most one word, of one bit. -/
def isSound (lengths : List Nat) : Bool :=
  isComplete lengths || usedCount lengths ≤ 1 && lengths.all (· ≤ 1)

/-- The symbols that have a word, each with its length, shorter words first. -/
def canonicalOrder (lengths : List Nat) : List (Nat × Nat) :=
  ((lengths.zipIdx).filter (·.1 ≠ 0)).mergeSort fun a b => a.1 ≤ b.1

/-- Adds the words of a canonical code one after the other, from a place in the space of words
on. -/
def assign : (place : Nat) → List (Nat × Nat) → CodeTree → CodeTree
  | _, [], t => t
  | place, (length, symbol) :: rest, t =>
    assign (place + share length) rest
      (t.insert symbol (wordOf length (place / share length)))

/-- The canonical code with the given lengths; length zero stands for a symbol without a word. -/
def ofLengths (lengths : List Nat) : CodeTree :=
  assign 0 (canonicalOrder lengths) empty

end CodeTree

end Stowage.Zlib
