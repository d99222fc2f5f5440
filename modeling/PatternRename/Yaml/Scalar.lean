import PatternRename.Yaml.Cursor

/-!
# Scalars

A scalar is written plain, or between single or double quotes. A scalar that goes over several
lines is folded: one line break reads as a space, and of several line breaks the first is dropped.

## Main definitions

- `Gap` — the blanks and breaks between two words of a scalar, and how they fold
- `plainScalar` — reads a scalar without quotes
- `singleQuoted`, `doubleQuoted` — read a scalar between quotes
-/

namespace PatternRename.Yaml

/-- What lies between two words of a scalar. -/
inductive Gap where
  | none
  /-- Blanks within a line, the last one first. -/
  | blanks (reversed : List Char)
  /-- Line breaks: the first one, unless it was escaped, and the later ones with the last one
  first. -/
  | breaks (first : Option Char) (reversed : List Char)

namespace Gap

/-- A gap with one more blank or break behind it. Blanks around breaks do not count. -/
def add (c : Char) : Gap → Gap
  | .none => if isBreak c then .breaks (some c) [] else .blanks [c]
  | .blanks reversed => if isBreak c then .breaks (some c) [] else .blanks (c :: reversed)
  | .breaks first reversed => if isBreak c then .breaks first (c :: reversed) else .breaks first reversed

def hasBreak : Gap → Bool
  | .breaks .. => true
  | _ => false

/-- What a gap reads as, the last character first. -/
def folded : Gap → List Char
  | .none => []
  | .blanks reversed => reversed
  | .breaks (some '\n') [] => [' ']
  | .breaks (some '\n') reversed => reversed
  | .breaks (some c) reversed => reversed ++ [c]
  | .breaks Option.none reversed => reversed

end Gap

def isBracketSign (c : Char) : Bool :=
  [',', '[', ']', '{', '}'].contains c

def endsPlain (inBrackets : Bool) (c : Char) (rest : List Char) : Bool :=
  (c == ':' && isGap rest) || (inBrackets && isBracketSign c)

/-- Whether a colon inside brackets stands right before a character that parts entries, which a
plain scalar does not allow. -/
def isStrayColon (inBrackets : Bool) (c : Char) (rest : List Char) : Bool :=
  inBrackets && c == ':' &&
    match rest with
    | next :: _ => isBracketSign next || next == '?'
    | [] => false

/-- Reads a plain scalar on. `gap` is what lies behind the last word, and `acc` the scalar so far
with its last character first. Later lines must be indented by `indent` columns. -/
def plainFrom (inBrackets : Bool) (indent : Nat) (acc : List Char) (gap : Gap)
    (column line : Nat) : List Char → Option (String × Cursor)
  | [] => some (String.ofList acc.reverse, ⟨[], column, line, gap.hasBreak⟩)
  | c :: rest =>
    let here : Cursor := ⟨c :: rest, column, line, gap.hasBreak⟩
    let stop : Option (String × Cursor) := some (String.ofList acc.reverse, here)
    if isBreak c then plainFrom inBrackets indent acc (gap.add c) 0 (line + 1) rest
    else if isSpace c then
      if gap.hasBreak && column < indent && c == '\t' then none
      else plainFrom inBrackets indent acc (gap.add c) (column + 1) line rest
    else
      let wordBegins := match gap with
        | .none => false
        | _ => true
      if wordBegins && ((!inBrackets && column < indent) || here.atMarker '-' || here.atMarker '.'
          || c == '#') then stop
      else if isStrayColon inBrackets c rest then none
      else if endsPlain inBrackets c rest then stop
      else plainFrom inBrackets indent (c :: gap.folded ++ acc) .none (column + 1) line rest

def plainScalar (inBrackets : Bool) (indent : Nat) (cursor : Cursor) : Option (String × Cursor) :=
  plainFrom inBrackets indent [] .none cursor.column cursor.line cursor.rest

/-- Whether a document marker stands at the beginning of a line inside quotes, where it may not. -/
def isMarkerAt (column : Nat) (rest : List Char) : Bool :=
  let here : Cursor := ⟨rest, column, 0, false⟩
  here.atMarker '-' || here.atMarker '.'

/-- Reads on behind a single quote. Inside, a single quote is written twice. -/
def singleFrom (acc : List Char) (gap : Gap) (column line : Nat) :
    List Char → Option (String × Cursor)
  | [] => none
  | c :: rest =>
    if isMarkerAt column (c :: rest) then none
    else if isBreak c then singleFrom acc (gap.add c) 0 (line + 1) rest
    else if isSpace c then singleFrom acc (gap.add c) (column + 1) line rest
    else
      let word := gap.folded ++ acc
      match c, rest with
      | '\'', '\'' :: rest => singleFrom ('\'' :: word) .none (column + 2) line rest
      | '\'', rest => some (String.ofList word.reverse, ⟨rest, column + 1, line, false⟩)
      | c, rest => singleFrom (c :: word) .none (column + 1) line rest

def singleQuoted (cursor : Cursor) : Option (String × Cursor) :=
  singleFrom [] .none cursor.column cursor.line cursor.rest

def escapedChar? : Char → Option Char
  | '0' => some '\x00'
  | 'a' => some '\x07'
  | 'b' => some '\x08'
  | 't' => some '\t'
  | '\t' => some '\t'
  | 'n' => some '\n'
  | 'v' => some '\x0b'
  | 'f' => some '\x0c'
  | 'r' => some '\r'
  | 'e' => some '\x1b'
  | ' ' => some ' '
  | '"' => some '"'
  | '/' => some '/'
  | '\\' => some '\\'
  | 'N' => some '\u0085'
  | '_' => some '\u00a0'
  | 'L' => some '\u2028'
  | 'P' => some '\u2029'
  | _ => none

/-- How many digits of base sixteen follow a letter behind a backslash. -/
def hexLength? : Char → Option Nat
  | 'x' => some 2
  | 'u' => some 4
  | 'U' => some 8
  | _ => none

def hexDigit? (c : Char) : Option Nat :=
  if c.isDigit then some (c.toNat - '0'.toNat)
  else if 'a' ≤ c && c ≤ 'f' then some (c.toNat - 'a'.toNat + 10)
  else if 'A' ≤ c && c ≤ 'F' then some (c.toNat - 'A'.toNat + 10)
  else none

/-- The number that digits of base sixteen make. -/
def hexNumber? (digits : List Char) : Option Nat :=
  digits.foldl (fun number c => number.bind fun n => (hexDigit? c).map (n * 16 + ·)) (some 0)

/-- What the text behind a backslash stands for, and how many characters of it that takes. A line
break stands for nothing and is treated as a gap by the caller. -/
def escape? : List Char → Option (Char × Nat)
  | [] => none
  | c :: rest =>
    match escapedChar? c with
    | some meant => some (meant, 1)
    | none =>
      match hexLength? c with
      | none => none
      | some n =>
        if rest.length < n then none
        else
          match hexNumber? (rest.take n) with
          | none => none
          | some code => if code.isValidChar then some (Char.ofNat code, n + 1) else none

/-- Reads on behind a double quote. `skipped` characters belong to the last escape and are gone
over. -/
def doubleFrom (skipped : Nat) (acc : List Char) (gap : Gap) (column line : Nat) :
    List Char → Option (String × Cursor)
  | [] => none
  | c :: rest =>
    match skipped with
    | n + 1 => doubleFrom n acc gap (column + 1) line rest
    | 0 =>
      if isMarkerAt column (c :: rest) then none
      else if isBreak c then doubleFrom 0 acc (gap.add c) 0 (line + 1) rest
      else if isSpace c then doubleFrom 0 acc (gap.add c) (column + 1) line rest
      else
        let word := gap.folded ++ acc
        if c == '"' then some (String.ofList word.reverse, ⟨rest, column + 1, line, false⟩)
        else if c == '\\' then
          match rest with
          | next :: later =>
            if isBreak next then doubleFrom 0 word (.breaks none []) 0 (line + 1) later
            else
              match escape? (next :: later) with
              | some (meant, n) => doubleFrom (n - 1) (meant :: word) .none (column + 2) line later
              | none => none
          | [] => none
        else doubleFrom 0 (c :: word) .none (column + 1) line rest

def doubleQuoted (cursor : Cursor) : Option (String × Cursor) :=
  doubleFrom 0 [] .none cursor.column cursor.line cursor.rest

end PatternRename.Yaml
