import Mathlib.Data.Nat.Notation

namespace BmsFirmware

inductive LogLevel
  | debug | info | warn | error
deriving DecidableEq, Repr

def levelStr : LogLevel → String
  | .debug => "DEBUG"
  | .info => "INFO "
  | .warn => "WARN "
  | .error => "ERROR"

def padLeft (n : ℕ) (s : String) : String := "".pushn ' ' (n - s.length) ++ s

def padRight (n : ℕ) (s : String) : String := s.pushn ' ' (n - s.length)

def hex4 (v : UInt16) : String :=
  let digits := String.ofList (Nat.toDigits 16 v.toNat)
  "".pushn '0' (4 - digits.length) ++ digits

structure LogLine where
  tickMs : UInt32
  level : LogLevel
  task : String
  text : String
deriving DecidableEq, Repr

def LogLine.header (l : LogLine) : String :=
  "[" ++ padLeft 6 (toString l.tickMs) ++ " ms] " ++ levelStr l.level ++ " " ++
    padRight 8 l.task ++ " "

/-- What the call prints, the latest piece first. -/
def LogLine.pieces (l : LogLine) : List String := ["\n", l.text, l.header]

end BmsFirmware
