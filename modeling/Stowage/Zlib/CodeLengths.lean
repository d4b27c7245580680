import Stowage.Zlib.CodeTree
/-!
# Choosing code lengths

Symbols that are used often should have short words. The lengths are those of the words of a tree
that joins the two lightest parts again and again. Words that would be longer than a limit are cut
to it, and the room for this is made by lengthening other words.
-/

namespace Stowage.Zlib.CodeLengths

/-- A part of the tree: its weight and the depths of its leaves. -/
structure Part where
  weight : Nat
  depths : List Nat

/-- Two parts joined into one. -/
def Part.join (a b : Part) : Part :=
  ⟨a.weight + b.weight, (a.depths ++ b.depths).map (· + 1)⟩

/-- Takes the lightest of the leaves and the joined parts, both in rising order. A leaf comes first
among equals. -/
def takeLightest : (leaves : List Nat) → (joined : List Part) →
    Option (Part × List Nat × List Part)
  | [], [] => none
  | [], p :: joined => some (p, [], joined)
  | w :: leaves, [] => some (⟨w, [0]⟩, leaves, [])
  | w :: leaves, p :: joined =>
    if p.weight < w then some (p, w :: leaves, joined) else some (⟨w, [0]⟩, leaves, p :: joined)

/-- Joins parts until one is left, and gives the depths of its leaves. The budget is the number of
leaves. -/
def joinAll : (budget : Nat) → (leaves : List Nat) → (joined : List Part) → List Nat
  | 0, _, _ => []
  | budget + 1, leaves, joined =>
    match takeLightest leaves joined with
    | none => []
    | some (a, leaves, joined) => match takeLightest leaves joined with
      | none => a.depths
      | some (b, leaves, joined) => joinAll budget leaves (joined ++ [a.join b])

/-- The lengths of the words for symbols with the given weights, which are in rising order. -/
def depths : (weights : List Nat) → List Nat
  | [_] => [1]
  | weights => joinAll weights.length weights []

/-- Makes room for words that have been cut, as often as the excess says: a word of the greatest
length goes under a shorter one, which is lengthened. The array counts the words of each length. -/
def rebalance (limit : Nat) : (excess : Nat) → Array Nat → Array Nat
  | 0, counts => counts
  | excess + 1, counts =>
    let counts := counts.modify limit (· - 1)
    match ((List.range limit).drop 1).reverse.find? fun n => counts.getD n 0 ≠ 0 with
    | some n => rebalance limit excess ((counts.modify n (· - 1)).modify (n + 1) (· + 2))
    | none => rebalance limit excess counts

/-- How many words of each length there are when no word is longer than the limit. -/
def limitedCounts (limit : Nat) (depths : List Nat) : Array Nat :=
  let counts := depths.foldl (fun counts n => counts.modify (min n limit) (· + 1))
    (Array.replicate (limit + 1) 0)
  let taken := (List.range (limit + 1)).foldl
    (fun total n => total + (counts.getD n 0 <<< (limit - n))) 0
  rebalance limit (if depths.length ≤ 1 then 0 else taken - (1 <<< limit)) counts

/-- The lengths of the words of a code in which no word is longer than the limit, given how often
each symbol is used. A symbol that is not used has length zero. -/
def ofWeights (limit : Nat) (weights : List Nat) : List Nat :=
  let used := (weights.zipIdx.filter (·.1 ≠ 0)).mergeSort fun a b => a.1 ≤ b.1
  let counts := limitedCounts limit (depths (used.map (·.1)))
  let lengths := (List.range (limit + 1)).flatMap fun n => List.replicate (counts.getD n 0) n
  -- the symbols that are used most get the shortest words
  let assigned := (used.reverse.zip lengths).foldl
    (fun all ((_, symbol), length) => all.setIfInBounds symbol length)
    (Array.replicate weights.length 0)
  assigned.toList

end Stowage.Zlib.CodeLengths
