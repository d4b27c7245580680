/-!
# Numbers as text

Reading an unsigned number of 64 bits from decimal digits, padding a text to a column width, and
numbers and bytes written to other bases.
-/

namespace Stowage.Text

/-- The value of a decimal digit. -/
def digitValue? (c : Char) : Option Nat :=
  if '0' ≤ c ∧ c ≤ '9' then some (c.toNat - '0'.toNat) else none

/-- The number that decimal digits spell, continuing from `n`. -/
def readDigits (n : Nat) : List Char → Option Nat
  | [] => some n
  | c :: cs => do readDigits (n * 10 + (← digitValue? c)) cs

/-- The number that a nonempty run of decimal digits spells. -/
def readNat? : List Char → Option Nat
  | [] => none
  | cs => readDigits 0 cs

/-- An unsigned number of 64 bits: decimal digits after an optional plus sign. A number that does
not fit is refused. -/
def readUInt64? (s : String) : Option UInt64 := do
  let digits := match s.toList with
    | '+' :: cs => cs
    | cs => cs
  let n ← readNat? digits
  if n < UInt64.size then some (UInt64.ofNat n) else none

/-- A text moved to the right end of a column of the given width. Width is counted in characters;
a longer text is left as it is. -/
def padLeft (width : Nat) (s : String) : String :=
  String.ofList (List.replicate (width - s.toList.length) ' ' ++ s.toList)

/-- The digits of a number to the base eight, without leading zeros. -/
def octal (n : Nat) : String :=
  String.ofList (Nat.toDigits 8 n)

/-- Two hexadecimal digits for each byte. -/
def hexPairs (bytes : List UInt8) : String :=
  String.ofList (bytes.flatMap fun b =>
    Nat.toDigits 16 (b.toNat / 16) ++ Nat.toDigits 16 (b.toNat % 16))

end Stowage.Text
