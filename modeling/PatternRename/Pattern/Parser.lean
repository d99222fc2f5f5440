import PatternRename.Failure
import PatternRename.Pattern.Basic
import PatternRename.Pattern.Fragment

/-!
# Reading patterns

A placeholder is a name and a specifier with a colon between them. The first flaw of a text wins:
a brace out of place before any placeholder, and the placeholders from left to right.

## Main definitions

- `FieldKind.parse` — the kind of a specifier
- `Field.parse` — the field of a placeholder
- `Pattern.parse` — the pattern of a text
-/

namespace PatternRename

def FieldKind.parse (field spec : String) : Except Failure FieldKind :=
  match FieldKind.ofSpec? spec with
  | some kind => .ok kind
  | none => .error (.unsupportedFieldType field spec)

/-- The text before the first colon and the text behind it. -/
def splitAtColon? (placeholder : List Char) : Option (List Char × List Char) :=
  match placeholder.dropWhile (· != ':') with
  | [] => none
  | _ :: spec => some (placeholder.takeWhile (· != ':'), spec)

def Field.parse (pattern placeholder : String) : Except Failure Field :=
  match splitAtColon? placeholder.toList with
  | none => .error (.malformedPattern pattern (.missingSeparator placeholder))
  | some (name, spec) =>
    match Text.trim name with
    | [] => .error (.malformedPattern pattern (.missingName placeholder))
    | c :: rest =>
      let name := String.ofList (c :: rest)
      match FieldKind.parse name (String.ofList (Text.trim spec)) with
      | .ok kind => .ok ⟨name, kind⟩
      | .error failure => .error failure

def Token.ofFragment (pattern : String) : Fragment → Except Failure Token
  | .literal text => .ok (.literal text)
  | .placeholder text => (Field.parse pattern text).map .field

namespace Pattern

/-- The tokens of fragments of a pattern, or the first failure. -/
def tokensOf (pattern : String) : List Fragment → Except Failure (List Token)
  | [] => .ok []
  | fragment :: rest =>
    match Token.ofFragment pattern fragment with
    | .error failure => .error failure
    | .ok token => (tokensOf pattern rest).map (token :: ·)

def parse (text : String) : Except Failure Pattern :=
  match Fragment.ofText text with
  | .error flaw => .error (.malformedPattern text flaw)
  | .ok fragments => (tokensOf text fragments).map Pattern.mk

end Pattern

end PatternRename
