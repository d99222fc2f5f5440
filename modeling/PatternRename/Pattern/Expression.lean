import PatternRename.Failure
import PatternRename.Pattern.Basic
import PatternRename.Text.Utf8

/-!
# The regular expression of a pattern

A pattern is shown as a regular expression with one named group for each field. The compiled form
of an expression may not be larger than ten mebibytes; its size is the sum of the sizes of its
parts.

## Main definitions

- `FieldKind.primitive`, `Token.primitive` — what a field matches, as an expression
- `Pattern.expression` — the expression of a pattern
- `Pattern.compiledSize`, `Pattern.checkSize` — the size of its compiled form, and the limit
-/

namespace PatternRename

/-- A class of characters as often as a width says. -/
def classPrimitive (charClass : String) : Width → String
  | .fixed n => charClass ++ "\x7b" ++ toString n ++ "\x7d"
  | .unbounded => charClass ++ "*"

/-- What the values of a kind match, as an expression. -/
def FieldKind.primitive : FieldKind → String
  | .digit w => classPrimitive "[0-9]" w
  | .integer w => classPrimitive "[0-9]" w
  | .character w => classPrimitive "[a-zA-Z]" w
  | .float => "[+-]?([0-9]*[.])?[0-9]+"

def Token.primitive : Token → String
  | .literal text => text
  | .field f => f.kind.primitive

def isExpressionSign (c : Char) : Bool :=
  ['\\', '.', '+', '*', '?', '(', ')', '|', '[', ']', '{', '}', '^', '$', '#', '&', '-', '~'].contains c

/-- A text as an expression that matches it and nothing else. -/
def escapeExpression (text : String) : String :=
  String.ofList (text.toList.flatMap fun c => if isExpressionSign c then ['\\', c] else [c])

namespace Pattern

/-- What the tokens of a pattern match all together, as an expression. Fields are numbered from
`index` on. -/
def expressionFrom (index : Nat) : List Token → List String
  | [] => []
  | .literal text :: rest => escapeExpression text :: expressionFrom index rest
  | .field f :: rest =>
    s!"(?P<field{index}>{f.kind.primitive})" :: expressionFrom (index + 1) rest

/-- The expression of a pattern. It is not anchored at either end. -/
def expression (p : Pattern) : String :=
  String.join (expressionFrom 0 p.tokens)

def primitives (p : Pattern) : List String :=
  p.tokens.map Token.primitive

end Pattern

/-! ### The size of the compiled form

A compiled expression is a list of states of 32 octets. A state that tries several ways has four
octets for each of them, and a state for a class of characters eight for each range. -/

def stateSize : Nat := 32

/-- The size of a class of characters with so many ranges: a state for the class and one behind
it. -/
def classSize (ranges : Nat) : Nat :=
  2 * stateSize + 8 * ranges

/-- The size of a part that may be repeated, on top of the size of the part. -/
def loopSize : Nat :=
  stateSize + 8

/-- The size of a part that may be left out, on top of the size of the part. -/
def optionalSize : Nat :=
  2 * stateSize + 8

/-- The size of a group, on top of the size of what it holds. -/
def groupSize : Nat :=
  2 * stateSize

def repeatedSize (ranges : Nat) : Width → Nat
  | .fixed n => n * classSize ranges
  | .unbounded => loopSize + classSize ranges

def FieldKind.compiledSize : FieldKind → Nat
  | .digit w => repeatedSize 1 w
  | .integer w => repeatedSize 1 w
  | .character w => repeatedSize 2 w
  | .float =>
    (optionalSize + classSize 2) +
      (optionalSize + groupSize + (loopSize + classSize 1) + stateSize) +
      (loopSize + classSize 1)

def Token.compiledSize : Token → Nat
  | .literal text => stateSize * text.utf8ByteSize
  | .field f => groupSize + f.kind.compiledSize

namespace Pattern

/-- The size of the compiled form: its tokens, a group around them, the search for a start and the
end. -/
def compiledSize (p : Pattern) : Nat :=
  p.tokens.foldr (fun token size => token.compiledSize + size)
    (groupSize + (loopSize + classSize 1) + stateSize)

/-- The largest compiled form that is accepted: ten mebibytes. -/
def maxCompiledSize : Nat := 10 * 1024 * 1024

def tooLarge (p : Pattern) : Failure :=
  .expressionRefused p.expression (.tooLarge maxCompiledSize)

def checkSize (p : Pattern) : Except Failure Unit :=
  if p.compiledSize ≤ maxCompiledSize then .ok () else .error p.tooLarge

end Pattern

end PatternRename
