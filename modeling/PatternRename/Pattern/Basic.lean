/-!
# Patterns

A pattern describes the file names of a collection: literal text, and fields that stand for the
part that differs from name to name. This file has the types and how a pattern is written.

## Main definitions

- `Width` — how many characters a field takes
- `FieldKind` — what values a field takes
- `Field`, `Token`, `Pattern` — a pattern and its parts
- `FieldKind.spec`, `Field.render`, `Pattern.render` — the written form
-/

namespace PatternRename

/-- How many characters a field takes. -/
inductive Width where
  /-- Exactly this many in a name that is matched, at least this many in a name that is made. -/
  | fixed (n : Nat)
  | unbounded
  deriving DecidableEq, Repr

/-- What values a field takes. -/
inductive FieldKind where
  /-- A run of digits, written with the letter `d`. -/
  | digit (width : Width)
  /-- A run of digits, written with the letter `i`. -/
  | integer (width : Width)
  /-- A run of letters, written with the letter `c`. -/
  | character (width : Width)
  /-- A decimal number with an optional sign and fraction, written `f+`. -/
  | float
  deriving DecidableEq, Repr

namespace FieldKind

def isTextual : FieldKind → Bool
  | .character _ => true
  | _ => false

def isNumeric (kind : FieldKind) : Bool :=
  !kind.isTextual

def width : FieldKind → Width
  | .digit w => w
  | .integer w => w
  | .character w => w
  | .float => .unbounded

/-- A letter repeated for each character of a fixed width, or followed by `+`. -/
def specOf (letter : Char) : Width → String
  | .fixed n => String.ofList (List.replicate n letter)
  | .unbounded => String.ofList [letter, '+']

def spec : FieldKind → String
  | .digit w => specOf 'd' w
  | .integer w => specOf 'i' w
  | .character w => specOf 'c' w
  | .float => "f+"

/-- The kind that a specifier stands for. A specifier of several `d` and `i` counts as digits
unless all of it is `i`. -/
def ofSpec? (spec : String) : Option FieldKind :=
  let letters := spec.toList
  match letters with
  | [] => none
  | ['d', '+'] => some (.digit .unbounded)
  | ['i', '+'] => some (.integer .unbounded)
  | ['c', '+'] => some (.character .unbounded)
  | ['f', '+'] => some .float
  | _ =>
    if letters.all (· == 'i') then some (.integer (.fixed letters.length))
    else if letters.all (fun c => c == 'd' || c == 'i') then some (.digit (.fixed letters.length))
    else if letters.all (· == 'c') then some (.character (.fixed letters.length))
    else none

end FieldKind

/-- A field of a pattern: a name for the reader and a kind. -/
structure Field where
  name : String
  kind : FieldKind
  deriving DecidableEq, Repr

def Field.render (f : Field) : String :=
  "\x7b" ++ f.name ++ ":" ++ f.kind.spec ++ "\x7d"

/-- One piece of a pattern. -/
inductive Token where
  | literal (text : String)
  | field (f : Field)
  deriving DecidableEq, Repr

namespace Token

def field? : Token → Option Field
  | .literal _ => none
  | .field f => some f

def render : Token → String
  | .literal text => text
  | .field f => f.render

end Token

structure Pattern where
  tokens : List Token
  deriving DecidableEq, Repr

namespace Pattern

def fields (p : Pattern) : List Field :=
  p.tokens.filterMap Token.field?

def fieldCount (p : Pattern) : Nat :=
  p.fields.length

def render (p : Pattern) : String :=
  String.join (p.tokens.map Token.render)

end Pattern

end PatternRename
