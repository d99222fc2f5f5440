/-!
# Flaws of patterns and of field values

What is wrong with a text that should be a pattern, and with a value that should be written into
a field. Offsets count the octets of the text.

## Main definitions

- `PatternFlaw`, `PatternFlaw.message` — why a text is no pattern
- `ValueFlaw`, `ValueFlaw.message` — why a value cannot be written into a field
- `ExpressionFlaw`, `ExpressionFlaw.message` — why an expression is refused
-/

namespace PatternRename

/-- Why a text is no pattern, or no partner for another pattern. -/
inductive PatternFlaw where
  | nestedBrace (offset opened : Nat)
  | unmatchedBrace (offset : Nat)
  | unclosedBrace (opened : Nat)
  | missingSeparator (placeholder : String)
  | missingName (placeholder : String)
  | fieldCount (count : Nat) (input : String) (inputCount : Nat)
  | described (text : String)
  deriving DecidableEq, Repr

def PatternFlaw.message : PatternFlaw → String
  | .nestedBrace offset opened =>
    s!"nested '\x7b' at byte {offset} inside placeholder opened at byte {opened}"
  | .unmatchedBrace offset => s!"unmatched '\x7d' at byte {offset}"
  | .unclosedBrace opened => s!"unclosed '\x7b' at byte {opened}"
  | .missingSeparator placeholder =>
    s!"placeholder '\x7b{placeholder}\x7d' is missing a ':' type separator"
  | .missingName placeholder => s!"placeholder '\x7b{placeholder}\x7d' has no field name"
  | .fieldCount count input inputCount =>
    s!"output pattern has {count} field(s) but input pattern '{input}' has {inputCount}"
  | .described text => text

/-- Why a value cannot be written into a field. -/
inductive ValueFlaw where
  | emptyText
  | notAnInteger (width : Nat)
  | described (text : String)
  deriving DecidableEq, Repr

def ValueFlaw.message : ValueFlaw → String
  | .emptyText => "an empty value cannot be enumerated"
  | .notAnInteger width => s!"expected an integer to pad to {width} digit(s)"
  | .described text => text

inductive ExpressionFlaw where
  | tooLarge (limit : Nat)
  | described (text : String)
  deriving DecidableEq, Repr

def ExpressionFlaw.message : ExpressionFlaw → String
  | .tooLarge limit => s!"Compiled regex exceeds size limit of {limit} bytes."
  | .described text => text

end PatternRename
