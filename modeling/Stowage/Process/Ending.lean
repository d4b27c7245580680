/-!
# How processes end

A process exits with a code, of which only the lowest byte is seen from outside, or a signal ends
it. Some signals do not end a process.
-/

namespace Stowage

/-- How a process ends, as seen from outside. -/
inductive ProcessEnd where
  | exit (code : Nat)
  | signal (number : Nat)
  deriving DecidableEq, Repr, Inhabited

namespace ProcessEnd

/-- The end of a process that exits with a code. -/
def ofCode (code : Int) : ProcessEnd := exit (code % 256).toNat

/-- What is seen of an end from outside. -/
def seen : ProcessEnd → ProcessEnd
  | exit code => ofCode code
  | signal number => signal number

end ProcessEnd

namespace Signal

/-- The signals that have a name, without the three letters that all of them start with. -/
def named : List (String × Nat) :=
  [("HUP", 1), ("INT", 2), ("QUIT", 3), ("ILL", 4), ("TRAP", 5), ("ABRT", 6), ("BUS", 7),
    ("FPE", 8), ("KILL", 9), ("USR1", 10), ("SEGV", 11), ("USR2", 12), ("PIPE", 13), ("ALRM", 14),
    ("TERM", 15), ("STKFLT", 16), ("CHLD", 17), ("CONT", 18), ("STOP", 19), ("TSTP", 20),
    ("TTIN", 21), ("TTOU", 22), ("URG", 23), ("XCPU", 24), ("XFSZ", 25), ("VTALRM", 26),
    ("PROF", 27), ("WINCH", 28), ("IO", 29), ("PWR", 30), ("SYS", 31)]

/-- Whether a signal has a name. -/
def isNamed (number : Int) : Bool := 1 ≤ number && number ≤ 31

/-- The signals that are ignored unless something else has been asked for. -/
def ignored : List Nat := [17, 18, 23, 28]

/-- Whether a signal ends a process that has not asked for anything else. -/
def endsProcess (number : Nat) : Bool :=
  1 ≤ number && number ≤ 64 && !ignored.contains number

/-- The exit code that tells of a signal. -/
def exitCode (number : Int32) : Int32 := 128 + number

end Signal

end Stowage
