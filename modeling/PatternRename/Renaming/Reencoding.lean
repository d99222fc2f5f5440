import PatternRename.Failure
import PatternRename.Pattern.Matching
import PatternRename.Renaming.PendingName
import PatternRename.Text.Decimal

/-!
# Writing values into output fields

The value of an input field is written again for the output field at the same position. Text in a
text field is padded with spaces. A number in a fixed field is padded with zeros, and in an
unbounded one it loses its leading zeros. Text in a number field waits for its number.

## Main definitions

- `justify`, `padNumber` — text and numbers in a width
- `reencode` — a value for its output field
- `layOut` — segments along the tokens of the output pattern
- `reencodeMatch` — the new name for a match
-/

namespace PatternRename

/-- A text in a width: at least that many characters, filled up with spaces behind. -/
def justify (raw : String) : Width → Except Failure String
  | .fixed width =>
    if Text.maxPadding < width then .error .paddingTooWide
    else .ok (String.ofList (Text.padEnd width raw.toList))
  | .unbounded => .ok raw

/-- A number in a width. A fixed width takes integers only; a minus stays in front and counts
towards the width, and a plus is dropped. Without a width, a run of digits loses its leading
zeros and anything else stays as it is. -/
def padNumber (field raw : String) : Width → Except Failure String
  | .unbounded =>
    .ok (if Text.isDigitRun raw.toList then String.ofList (Text.stripZeros raw.toList) else raw)
  | .fixed width =>
    match Text.SignedDigits.read? raw.toList with
    | none => .error (.invalidFieldValue field raw (.notAnInteger width))
    | some number =>
      if Text.maxPadding < number.digitWidth width then .error .paddingTooWide
      else .ok (String.ofList (number.write width))

/-- The value of an input field for the output field at the same position. -/
def reencode (index : Nat) (input output : Field) (raw : String) : Except Failure Segment :=
  if input.kind.isTextual then
    match output.kind with
    | .character width => (justify raw width).map .text
    | kind =>
      if raw.isEmpty then .error (.invalidFieldValue input.name raw .emptyText)
      else .ok (.deferred ⟨index, raw, kind.width⟩)
  else
    match output.kind with
    | .float => .ok (.text raw)
    | kind => (padNumber input.name raw kind.width).map .text

/-- The values of pairs of fields, from position `index` on, for their output fields. The first
failure wins. A pair without a value, or a value without a pair, is left out. -/
def reencodeAll (index : Nat) : List (Field × Field) → List String →
    Except Failure (List Segment)
  | (input, output) :: pairs, raw :: values =>
    match reencode index input output raw with
    | .error failure => .error failure
    | .ok segment => (reencodeAll (index + 1) pairs values).map (segment :: ·)
  | _, _ => .ok []

/-- Segments along the tokens of an output pattern: a literal gives its text, and a field the next
of the values. A field without a value is left out. -/
def layOut : List Token → List Segment → List Segment
  | [], _ => []
  | .literal text :: tokens, values => .text text :: layOut tokens values
  | .field _ :: tokens, value :: values => value :: layOut tokens values
  | .field _ :: tokens, [] => layOut tokens []

def surroundings (text : String) : List Segment :=
  if text.isEmpty then [] else [.text text]

/-- The new name for a match: its values, written for the output fields, along the output pattern,
with the text around the match kept. -/
def reencodeMatch (source : String) (pairs : List (Field × Field)) (output : Pattern)
    (found : Match) : Except Failure PendingName :=
  (reencodeAll 0 pairs found.values).map fun values =>
    ⟨source, surroundings found.before ++ layOut output.tokens values ++ surroundings found.after⟩

end PatternRename
