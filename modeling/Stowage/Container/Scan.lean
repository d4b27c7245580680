import Stowage.Files.Basic
/-!
# The last occurrence of a pattern

A file is searched from its end in windows of 8192 bytes. A window begins before the one searched
last and overlaps it by one byte less than the pattern, so that an occurrence across the boundary
is found.
-/

namespace Stowage.Scan

/-- The size of a window. -/
def windowSize : Nat := 8192

/-- The position of the last occurrence of a pattern. -/
def lastIn (pattern : Bytes) : Bytes → Option Nat
  | [] => if pattern = [] then some 0 else none
  | b :: rest =>
    match lastIn pattern rest with
    | some i => some (i + 1)
    | none => if pattern.isPrefixOf (b :: rest) then some 0 else none

/-- Searches the windows of the given size that end at `stop` and before. A window that is not
there in full is an error. -/
def lastBefore (size : Nat) (content pattern : Bytes) (positive : 0 < size)
    (fits : pattern.length ≤ size) (stop : Nat) : Except FileError (Option Nat) :=
  let start := stop - size
  let window := (content.drop start).take (stop - start)
  if window.length < stop - start then .error .shortRead
  else match lastIn pattern window with
    | some i => .ok (some (start + i))
    | none =>
      if _h : start = 0 then .ok none
      else lastBefore size content pattern positive fits (start + (pattern.length - 1))
  termination_by stop
  decreasing_by omega

/-- The position of the last occurrence of a pattern among the first `length` bytes. A pattern that
is empty or larger than a window is not looked for. -/
def lastOccurrence (content : Bytes) (length : Nat) (pattern : Bytes) :
    Except FileError (Option Nat) :=
  if h : pattern.length ≤ windowSize then
    if pattern = [] || length < pattern.length then .ok none
    else lastBefore windowSize content pattern (by decide) h length
  else .ok none

end Stowage.Scan
