/-!
# Decimal digits and padding

Fields of a file name hold digits and letters of a chosen width. This file writes numbers in
decimal, takes leading zeros away and puts them back, reads signed digit runs, and pads.

## Main definitions

- `digits`, `digitCount` — a number in decimal, and how many digits that takes by its logarithm
- `stripZeros`, `zeroPad` — digits without leading zeros, and with zeros up to a width
- `SignedDigits` — a run of digits with an optional sign
- `padEnd` — a text with spaces up to a width
- `maxPadding` — the widest padding that can be asked for
-/

namespace PatternRename.Text

/-- The decimal digits of a number, without leading zeros. -/
def digits (n : Nat) : List Char :=
  Nat.toDigits 10 n

/-- The integer part of the decimal logarithm of a number. -/
def log10 (n : Nat) : Nat :=
  if n < 10 then 0 else log10 (n / 10) + 1

/-- How many digits a number has: one more than its logarithm says. -/
def digitCount (n : Nat) : Nat :=
  log10 n + 1

/-- A run of digits without its leading zeros. A run of zeros keeps one of them. -/
def stripZeros (ds : List Char) : List Char :=
  match ds.dropWhile (· == '0') with
  | [] => ['0']
  | d :: rest => d :: rest

/-- Digits with zeros in front, up to a width. Longer runs stay as they are. -/
def zeroPad (width : Nat) (ds : List Char) : List Char :=
  List.replicate (width - ds.length) '0' ++ ds

/-- A text with spaces behind, up to a width counted in characters. -/
def padEnd (width : Nat) (cs : List Char) : List Char :=
  cs ++ List.replicate (width - cs.length) ' '

/-- The widest padding that can be asked for. Asking for more ends the program, whatever the
value. -/
def maxPadding : Nat := 65535

theorem length_zeroPad (width : Nat) (ds : List Char) :
    (zeroPad width ds).length = max width ds.length := by
  simp only [zeroPad, List.length_append, List.length_replicate]
  omega

theorem length_padEnd (width : Nat) (cs : List Char) :
    (padEnd width cs).length = max width cs.length := by
  simp only [padEnd, List.length_append, List.length_replicate]
  omega

def isDigitRun (cs : List Char) : Bool :=
  !cs.isEmpty && cs.all Char.isDigit

/-- A nonempty run of digits with an optional sign, as it is written in a file name. -/
structure SignedDigits where
  negative : Bool
  run : List Char
  deriving DecidableEq, Repr

def SignedDigits.read? (cs : List Char) : Option SignedDigits :=
  let signed : SignedDigits :=
    match cs with
    | '-' :: rest => ⟨true, rest⟩
    | '+' :: rest => ⟨false, rest⟩
    | _ => ⟨false, cs⟩
  if isDigitRun signed.run then some signed else none

/-- The sign that is written: a minus stays and a plus is dropped. -/
def SignedDigits.sign (s : SignedDigits) : List Char :=
  if s.negative then ['-'] else []

/-- How many digits a signed run is padded to, when the sign counts towards the width. -/
def SignedDigits.digitWidth (width : Nat) (s : SignedDigits) : Nat :=
  width - s.sign.length

def SignedDigits.write (width : Nat) (s : SignedDigits) : List Char :=
  s.sign ++ zeroPad (s.digitWidth width) (stripZeros s.run)

end PatternRename.Text
